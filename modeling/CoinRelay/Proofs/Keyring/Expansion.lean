import CoinRelay.Keyring
import CoinRelay.Proofs.Host.Paths

/-! # Paths under the home directory

A path behind a tilde and a separator is taken from the home directory: it leads through the
components of the home directory and then through its own, to the place that `~` written out leads
to. What goes on with one more separator is the exception. It is taken for a path from the root, and
the home directory is forgotten. -/

namespace CoinRelay
open Host

/-! ## Joining -/

/-- The path begins where the base begins, and leads through the base and then through the rest. -/
def Path.Extends (base rest path : String) : Prop :=
  (Rooted path ↔ Rooted base) ∧ components path = components base ++ components rest

variable {home rest : String}

theorem Path.rooted_append (hhome : home ≠ "") (tail : String) :
    Rooted (home ++ tail) ↔ Rooted home := by
  obtain ⟨c, cs, hchars⟩ := List.exists_cons_of_ne_nil (mt String.toList_eq_nil_iff.1 hhome)
  simp [Rooted, hchars]

theorem joinPath_of_rooted (h : Path.Rooted rest) : joinPath home rest = rest := if_pos h

/-- One separator stands between a base and a path that does not begin with any. -/
theorem joinPath_of_not_rooted (hhome : home ≠ "") (h : ¬ Path.Rooted rest) :
    joinPath home rest = home ++ "/" ++ rest ∨
      ∃ front, home = front ++ "/" ∧ joinPath home rest = front ++ "/" ++ rest := by
  have hrest : ¬ rest.toList.head? = some '/' := h
  by_cases hlast : home.toList.getLast? = some '/'
  · right
    obtain ⟨front, hfront⟩ := List.getLast?_eq_some_iff.1 hlast
    have heq : home = String.ofList front ++ "/" := by
      rw [← String.toList_inj, hfront]
      simp
    exact ⟨String.ofList front, heq, by rw [joinPath, if_neg hrest, if_pos (by simp [hlast]), heq]⟩
  · left
    rw [joinPath, if_neg hrest, if_neg (by simp [hlast, hhome])]

/-- What is joined agrees with both texts and a separator between them, unless the second begins at
the root and the first leads away from there. -/
theorem agree_joinPath (hhome : home ≠ "")
    (h : ¬ Path.Rooted rest ∨ Path.components home = []) :
    Path.Agree (joinPath home rest) (home ++ "/" ++ rest) := by
  have hbase : Path.Rooted (home ++ "/" ++ rest) ↔ Path.Rooted home := by
    rw [String.append_assoc]
    exact Path.rooted_append hhome _
  by_cases hrest : Path.Rooted rest
  · have hnone : Path.components home = [] := h.resolve_left (not_not.2 hrest)
    have hroot : Path.Rooted home := by
      by_contra hno
      exact Path.components_ne_nil hhome hno hnone
    rw [joinPath_of_rooted hrest]
    exact ⟨by simp [hrest, hbase, hroot], by rw [Path.passed_append_slash, hnone, List.nil_append],
      by rw [Path.ending_append_slash]⟩
  · obtain heq | ⟨front, hfront, heq⟩ := joinPath_of_not_rooted hhome hrest
    · rw [heq]
      exact ⟨Iff.rfl, rfl, rfl⟩
    · have hcomponents : Path.components home = Path.components front := by
        have hempty := Path.components_append_slash front ""
        rwa [String.append_empty, ← hfront, Path.components_empty, List.append_nil] at hempty
      rw [heq]
      refine ⟨?_, ?_, ?_⟩
      · rw [hbase, ← hfront, Path.rooted_append hhome]
      · rw [Path.passed_append_slash, Path.passed_append_slash, hcomponents]
      · rw [Path.ending_append_slash, Path.ending_append_slash]

theorem extends_joinPath_iff (hhome : home ≠ "") :
    Path.Extends home rest (joinPath home rest) ↔
      ¬ Path.Rooted rest ∨ Path.components home = [] := by
  constructor
  · rintro ⟨-, hcomponents⟩
    by_cases hrest : Path.Rooted rest
    · rw [joinPath_of_rooted hrest] at hcomponents
      exact .inr (List.self_eq_append_left.1 hcomponents)
    · exact .inl hrest
  · intro h
    have hagree := agree_joinPath hhome h
    refine ⟨?_, by rw [hagree.components, Path.components_append_slash]⟩
    rw [hagree.rooted, String.append_assoc, Path.rooted_append hhome]

theorem utf8ByteSize_joinPath_le (home rest : String) :
    (joinPath home rest).utf8ByteSize ≤ (home ++ "/" ++ rest).utf8ByteSize := by
  unfold joinPath
  split_ifs <;> simp only [String.utf8ByteSize_append] <;> omega

/-! ## Expansion -/

theorem expandHome_append (home rest : String) :
    expandHome home ("~/" ++ rest) = joinPath home rest := by
  have hchars : ("~/" ++ rest).toList = '~' :: '/' :: rest.toList := by simp
  simp only [expandHome, hchars, String.ofList_toList]

theorem expandHome_of_no_tilde {path : String} (halone : path ≠ "~")
    (hnone : ∀ rest, path ≠ "~/" ++ rest) (home : String) : expandHome home path = path := by
  unfold expandHome
  split
  case h_1 h => exact absurd (String.toList_inj.1 h) halone
  case h_2 rest h =>
    refine absurd ?_ (hnone (String.ofList rest))
    rw [← String.toList_inj, h]
    simp
  case h_3 => rfl

/-- **A path behind `~/` stays under the home directory, unless it goes on with a separator.** It is
the home directory extended by the rest exactly if the rest does not begin at the root itself or the
home directory is the root. Then it leads to the place to which the home directory written for the
tilde leads, and the keyring is looked for there. Otherwise the rest alone is what is left. A path
without such a tilde stays as it is. -/
theorem expandHome_extends_iff (hhome : home ≠ "") (path : String) :
    (∀ rest, path = "~/" ++ rest →
      (Path.Extends home rest (expandHome home path) ↔
        ¬ Path.Rooted rest ∨ Path.components home = []) ∧
      (Path.Extends home rest (expandHome home path) → ∀ tree : FileTree,
        (home ++ "/" ++ rest).utf8ByteSize ≤ FileTree.maxPath →
        tree.locate (expandHome home path) = tree.locate (home ++ "/" ++ rest) ∧
        keyringLocator (tree.view home) path =
          if (tree.find (home ++ "/" ++ rest)).isOk then .ok path else .error .keyringNotFound) ∧
      (Path.Rooted rest → expandHome home path = rest)) ∧
    (path ≠ "~" → (∀ rest, path ≠ "~/" ++ rest) → expandHome home path = path) := by
  refine ⟨?_, fun halone hnone => expandHome_of_no_tilde halone hnone home⟩
  rintro rest rfl
  rw [expandHome_append]
  refine ⟨extends_joinPath_iff hhome, ?_, joinPath_of_rooted⟩
  intro hextends tree hsize
  have hagree := agree_joinPath hhome ((extends_joinPath_iff hhome).1 hextends)
  have hplace := tree.locate_congr true hagree ((utf8ByteSize_joinPath_le home rest).trans hsize)
    hsize
  refine ⟨hplace, ?_⟩
  have hpresent : ("~/" ++ rest).isEmpty = false := by simp
  simp only [keyringLocator, hpresent, FileTree.view, expandHome_append,
    tree.find_congr true hplace, Bool.false_eq_true, if_false]

/-- A keyring in the home directory, and a device. -/
def keyringTree : FileTree where
  entries := [(["home", "keyring.yaml"], .file []), (["dev", "null"], .device .null)]

theorem find_keyringTree : (keyringTree.find "home//keyring.yaml").isOk = true ∧
    (keyringTree.find "/dev/null").isOk = true ∧
    (keyringTree.find "home//dev/null").isOk = false := by
  have hkeyring : "home//keyring.yaml".splitOn "/" = ["home", "", "keyring.yaml"] :=
    (Path.splitOn_slash _).trans rfl
  have hdevice : "/dev/null".splitOn "/" = ["", "dev", "null"] :=
    (Path.splitOn_slash _).trans rfl
  have hnone : "home//dev/null".splitOn "/" = ["home", "", "dev", "null"] :=
    (Path.splitOn_slash _).trans rfl
  refine ⟨?_, ?_, ?_⟩ <;>
    simp +decide [FileTree.find, FileTree.locate, FileTree.walk, FileTree.directoryFault?,
      FileTree.entryAt?, keyringTree, hkeyring, hdevice, hnone]

/-- The home directory is written with a separator at its end. -/
theorem expandHome_extends_of_keyring : "home/" ≠ "" ∧
    ("home/" ++ "/" ++ "keyring.yaml").utf8ByteSize ≤ FileTree.maxPath ∧
    Path.Extends "home/" "keyring.yaml" (expandHome "home/" "~/keyring.yaml") ∧
    keyringLocator (keyringTree.view "home/") "~/keyring.yaml" = .ok "~/keyring.yaml" ∧
    expandHome "home/" "a/~/keyring.yaml" = "a/~/keyring.yaml" := by
  have hhome : "home/" ≠ "" := by decide
  have hsize : ("home/" ++ "/" ++ "keyring.yaml").utf8ByteSize ≤ FileTree.maxPath := by decide
  have hwritten : "home/" ++ "/" ++ "keyring.yaml" = "home//keyring.yaml" := rfl
  obtain ⟨hiff, hsame, -⟩ := (expandHome_extends_iff hhome "~/keyring.yaml").1 "keyring.yaml" rfl
  have hextends := hiff.2 (.inl (by decide))
  refine ⟨hhome, hsize, hextends, ?_, ?_⟩
  · rw [(hsame hextends keyringTree hsize).2, hwritten, find_keyringTree.1]
    rfl
  · refine (expandHome_extends_iff hhome _).2 (by decide) fun rest h => ?_
    have hfirst := congrArg (·.toList.head?) h
    simp at hfirst

/-- Behind one separator more the device is taken for the keyring, and the home directory, which
has nothing of the name, is left. -/
theorem expandHome_leaves_home : expandHome "home" "~//dev/null" = "/dev/null" ∧
    ¬ Path.Extends "home" "/dev/null" (expandHome "home" "~//dev/null") ∧
    keyringLocator (keyringTree.view "home") "~//dev/null" = .ok "~//dev/null" ∧
    (keyringTree.find ("home" ++ "/" ++ "/dev/null")).isOk = false := by
  have hexpanded : expandHome "home" "~//dev/null" = "/dev/null" := by decide
  have hwritten : "home" ++ "/" ++ "/dev/null" = "home//dev/null" := rfl
  refine ⟨hexpanded, ?_, ?_, by rw [hwritten]; exact find_keyringTree.2.2⟩
  · rintro ⟨hrooted, -⟩
    rw [hexpanded] at hrooted
    exact absurd (hrooted.1 (by decide)) (by decide)
  · have hpresent : "~//dev/null".isEmpty = false := by decide
    simp only [keyringLocator, hpresent, FileTree.view, hexpanded, find_keyringTree.2.1,
      Bool.false_eq_true, if_false, if_true]

end CoinRelay
