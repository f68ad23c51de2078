import CoinRelay.Host.FileTree
import Mathlib.Data.String.Basic

/-! # Paths that lead to one place

A path begins at the root or at the working directory and leads through its components. Paths that
differ in nothing but how often a separator is written agree, and whoever follows them in a file
tree comes to the same place. Only the end counts: a last separator asks for a directory. -/

namespace CoinRelay.Path

/-! ## Splitting at separators -/

section
open String

theorem not_atEnd_cons (front rest : List Char) (c : Char) :
    ¬ Pos.Raw.atEnd (ofList (front ++ c :: rest)) ⟨utf8Len front⟩ = true := by
  rw [atEnd_of_valid]
  simp

theorem utf8Len_concat (front : List Char) (c : Char) :
    utf8Len (front ++ [c]) = utf8Len front + c.utf8Size := by simp

/-- A separator ends the piece `m`, and the next piece begins behind it. -/
theorem splitOnAux_cons_slash (l m r : List Char) (acc : List String) :
    splitOnAux (ofList (l ++ m ++ '/' :: r)) "/" ⟨utf8Len l⟩ ⟨utf8Len (l ++ m)⟩ 0 acc =
      splitOnAux (ofList (l ++ m ++ '/' :: r)) "/" ⟨utf8Len (l ++ m ++ ['/'])⟩
        ⟨utf8Len (l ++ m ++ ['/'])⟩ 0 (ofList m :: acc) := by
  have hnext := next_of_valid (l ++ m) '/' r
  have hsep : Pos.Raw.get "/" 0 = '/' := rfl
  have hsepNext : Pos.Raw.next "/" 0 = ⟨1⟩ := rfl
  have hsepEnd : Pos.Raw.atEnd "/" ⟨1⟩ = true := rfl
  have hcut : (⟨utf8Len (l ++ m) + '/'.utf8Size⟩ : Pos.Raw).unoffsetBy ⟨1⟩ =
      ⟨utf8Len l + utf8Len m⟩ := by simp [Pos.Raw.unoffsetBy, Char.utf8Size]
  rw [splitOnAux, if_neg (not_atEnd_cons (l ++ m) r '/'), get_of_valid, hsep]
  simp only [List.headD_cons, BEq.rfl, if_true, hnext, hsepNext, hsepEnd, hcut, extract_of_valid,
    utf8Len_concat]

/-- Any other character belongs to the piece. -/
theorem splitOnAux_cons (l m r : List Char) {c : Char} (hc : c ≠ '/') (acc : List String) :
    splitOnAux (ofList (l ++ m ++ c :: r)) "/" ⟨utf8Len l⟩ ⟨utf8Len (l ++ m)⟩ 0 acc =
      splitOnAux (ofList (l ++ m ++ c :: r)) "/" ⟨utf8Len l⟩ ⟨utf8Len (l ++ m ++ [c])⟩ 0 acc := by
  have hnext := next_of_valid (l ++ m) c r
  have hsep : Pos.Raw.get "/" 0 = '/' := rfl
  have hother : (c == '/') = false := by simpa using hc
  have hstay : (⟨utf8Len (l ++ m)⟩ : Pos.Raw).unoffsetBy 0 = ⟨utf8Len (l ++ m)⟩ := rfl
  rw [splitOnAux, if_neg (not_atEnd_cons (l ++ m) r c), get_of_valid, hsep]
  simp only [List.headD_cons, hother, Bool.false_eq_true, if_false, hstay, hnext, utf8Len_concat]

/-- Reading on through `r` with the characters `m` behind the last separator. -/
theorem splitOnAux_slash (r l m : List Char) (acc : List String) :
    splitOnAux (ofList (l ++ m ++ r)) "/" ⟨utf8Len l⟩ ⟨utf8Len (l ++ m)⟩ 0 acc =
      acc.reverse ++ (List.splitOnPPrepend (· == '/') r m.reverse).map ofList := by
  induction r generalizing l m acc with
  | nil =>
    have hend := (atEnd_of_valid (l ++ m) []).2 rfl
    have hextract := extract_of_valid l m []
    rw [← utf8Len_append] at hextract
    rw [splitOnAux, if_pos hend, hextract]
    simp
  | cons c r ih =>
    have htext (front : List Char) : front ++ c :: r = front ++ [c] ++ r := by simp
    by_cases hc : c = '/'
    · subst hc
      have hrest := ih (l ++ m ++ ['/']) [] (ofList m :: acc)
      rw [List.append_nil] at hrest
      rw [splitOnAux_cons_slash, htext, hrest]
      simp [List.splitOnPPrepend_cons_eq_if]
    · have hrest := ih l (m ++ [c]) acc
      rw [← List.append_assoc] at hrest
      rw [splitOnAux_cons l m r hc, htext, hrest]
      simp [List.splitOnPPrepend_cons_eq_if, hc]

end

theorem splitOn_slash (path : String) :
    path.splitOn "/" = (path.toList.splitOn '/').map String.ofList := by
  have hscan := splitOnAux_slash path.toList [] [] []
  simpa [String.splitOn, List.splitOn_eq_splitOnP] using hscan

/-- What stands before a separator and what stands behind it are split each for itself. -/
theorem splitOn_append_slash (before after : String) :
    (before ++ "/" ++ after).splitOn "/" = before.splitOn "/" ++ after.splitOn "/" := by
  have hsep : "/".toList = ['/'] := rfl
  simp only [splitOn_slash, String.toList_append]
  rw [hsep, List.append_assoc, List.singleton_append, List.splitOn_append_cons_self,
    List.map_append]

theorem splitOn_slash_ne_nil (path : String) : path.splitOn "/" ≠ [] := by
  simp [splitOn_slash]

theorem mem_splitOn {c sep : Char} (hc : c ≠ sep) (cs : List Char) :
    (∃ piece ∈ cs.splitOn sep, c ∈ piece) ↔ c ∈ cs := by
  induction cs with
  | nil => simp
  | cons x xs ih =>
    rw [List.splitOn_cons_eq_if_modifyHead]
    by_cases hx : x = sep
    · simpa [hx, hc] using ih
    · obtain ⟨first, others, hsplit⟩ := List.exists_cons_of_ne_nil (List.splitOn_ne_nil sep xs)
      simp only [hsplit, List.mem_cons] at ih ⊢
      simp [hx, or_assoc, ← ih]

/-! ## Components -/

/-- The path begins at the root. -/
def Rooted (path : String) : Prop := path.toList.head? = some '/'

instance (path : String) : Decidable (Rooted path) := inferInstanceAs (Decidable (_ = _))

/-- The components of a path in order. Separators in a row count as one. -/
def components (path : String) : Host.Place := (path.splitOn "/").filter (· ≠ "")

theorem components_empty : components "" = [] := by simp [components, splitOn_slash]

theorem components_append_slash (before after : String) :
    components (before ++ "/" ++ after) = components before ++ components after := by
  simp [components, splitOn_append_slash]

/-- A path that begins at the working directory has a component. -/
theorem components_ne_nil {path : String} (hne : path ≠ "") (hroot : ¬ Rooted path) :
    components path ≠ [] := by
  obtain ⟨c, cs, hpath⟩ := List.exists_cons_of_ne_nil (mt String.toList_eq_nil_iff.1 hne)
  obtain ⟨first, rest, hsplit⟩ := List.exists_cons_of_ne_nil (List.splitOn_ne_nil '/' cs)
  have hc : c ≠ '/' := by simpa [Rooted, hpath] using hroot
  simp [components, splitOn_slash, hpath, List.splitOn_cons_eq_if_modifyHead, hc, hsplit]

theorem mem_components {c : Char} (hc : c ≠ '/') (path : String) :
    (∃ name ∈ components path, c ∈ name.toList) ↔ c ∈ path.toList := by
  rw [← mem_splitOn hc]
  simp only [components, splitOn_slash, List.mem_filter, List.mem_map]
  constructor
  · rintro ⟨name, ⟨⟨piece, hpiece, rfl⟩, -⟩, hmem⟩
    exact ⟨piece, hpiece, by simpa using hmem⟩
  · rintro ⟨piece, hpiece, hmem⟩
    refine ⟨String.ofList piece, ⟨⟨piece, hpiece, rfl⟩, ?_⟩, by simpa using hmem⟩
    cases piece with
    | nil => cases hmem
    | cons => simp

/-! ## Agreement -/

/-- The components that a path passes on its way to what it ends with. -/
def passed (path : String) : Host.Place := (path.splitOn "/").dropLast.filter (· ≠ "")

/-- What a path ends with. It is empty behind a last separator. -/
def ending (path : String) : String := (path.splitOn "/").getLast (splitOn_slash_ne_nil path)

/-- The paths differ at most in how often they write a separator. -/
structure Agree (p q : String) : Prop where
  rooted : Rooted p ↔ Rooted q
  passed : passed p = passed q
  ending : ending p = ending q

theorem dropLast_append_ending (path : String) :
    (path.splitOn "/").dropLast ++ [ending path] = path.splitOn "/" :=
  List.dropLast_append_getLast _

theorem passed_append_slash (before after : String) :
    passed (before ++ "/" ++ after) = components before ++ passed after := by
  simp [passed, components, splitOn_append_slash,
    List.dropLast_append_of_ne_nil (splitOn_slash_ne_nil after)]

theorem ending_append_slash (before after : String) :
    ending (before ++ "/" ++ after) = ending after := by
  simp [ending, splitOn_append_slash, List.getLast_append_of_ne_nil, splitOn_slash_ne_nil]

theorem Agree.components {p q : String} (h : Agree p q) : components p = components q := by
  have hsplit (path : String) : Path.components path =
      Path.passed path ++ [Path.ending path].filter (· ≠ "") := by
    rw [Path.passed, ← List.filter_append, dropLast_append_ending, Path.components]
  rw [hsplit, hsplit, h.passed, h.ending]

theorem Agree.eq_empty {p q : String} (h : Agree p q) (hp : p = "") : q = "" := by
  subst hp
  by_contra hq
  have hroot : ¬ Rooted q := by
    rw [← h.rooted]
    simp [Rooted]
  refine components_ne_nil hq hroot ?_
  rw [← h.components, components_empty]

theorem Agree.symm {p q : String} (h : Agree p q) : Agree q p :=
  ⟨h.rooted.symm, h.passed.symm, h.ending.symm⟩

end CoinRelay.Path

namespace CoinRelay.Host.FileTree
variable (tree : FileTree) (last : Bool)

/-- An empty component that is not the last one is of no consequence: it asks for the directory
that the next component asks for. -/
theorem walk_empty {rest : Place} (hrest : rest ≠ []) (links : Nat) (place before : Place) :
    tree.walk last links place (before ++ "" :: rest) =
      tree.walk last links place (before ++ rest) := by
  induction links using Nat.strong_induction_on generalizing place before with
  | _ links ihLinks =>
  induction before generalizing place with
  | nil =>
    obtain ⟨next, rest, rfl⟩ := List.exists_cons_of_ne_nil hrest
    rw [List.nil_append, List.nil_append, walk]
    cases hfault : tree.directoryFault? place with
    | none => simp
    | some fault => rw [walk, hfault]
  | cons c before ih =>
    rw [List.cons_append, List.cons_append, walk, walk]
    cases tree.directoryFault? place with
    | some fault => rfl
    | none =>
      by_cases hstay : c = "" ∨ c = "."
      · simp only [hstay, if_true, ih]
      by_cases hup : c = ".."
      · simp only [hup, if_true, ih]
      by_cases hlong : maxComponent < c.utf8ByteSize
      · simp only [hstay, hup, hlong, if_true, if_false]
      simp only [hstay, hup, hlong, if_false]
      cases tree.entryAt? (place ++ [c]) with
      | none => exact ih _
      | some entry =>
        cases entry with
        | link target =>
          cases links with
          | zero => simp [hrest]
          | succ links =>
            -- the target's components come first; the empty one still stands behind them
            simp only [List.append_eq_nil_iff, List.cons_ne_nil, hrest, and_false, false_and,
              if_false]
            rw [← List.append_assoc, ← List.append_assoc]
            exact ihLinks links (Nat.lt_succ_self links) _ _
        | _ => exact ih _

theorem walk_filter (links : Nat) (place before passed : Place) (ending : String) :
    tree.walk last links place (before ++ passed ++ [ending]) =
      tree.walk last links place (before ++ passed.filter (· ≠ "") ++ [ending]) := by
  induction passed generalizing before with
  | nil => rfl
  | cons c passed ih =>
    by_cases hc : c = ""
    · have hrest : passed ++ [ending] ≠ [] := by simp
      have hskip := walk_empty tree last hrest links place before
      simpa [hc] using hskip.trans (by simpa using ih before)
    · simpa [hc] using ih (before ++ [c])

/-- **Paths that agree lead to one place**, as long as the system takes paths of their lengths. -/
theorem locate_congr {p q : String} (h : Path.Agree p q) (hp : p.utf8ByteSize ≤ maxPath)
    (hq : q.utf8ByteSize ≤ maxPath) : tree.locate p last = tree.locate q last := by
  have hempty : p = "" ↔ q = "" := ⟨h.eq_empty, h.symm.eq_empty⟩
  have hnul : '\x00' ∈ p.toList ↔ '\x00' ∈ q.toList := by
    rw [← Path.mem_components (by decide), ← Path.mem_components (by decide), h.components]
  have hstart : p.toList.head? = some '/' ↔ q.toList.head? = some '/' := h.rooted
  have hwalk (place : Place) : tree.walk last maxLinks place (p.splitOn "/") =
      tree.walk last maxLinks place (q.splitOn "/") := by
    have hfilter (path : String) := walk_filter tree last maxLinks place []
      (path.splitOn "/").dropLast (Path.ending path)
    simp only [List.nil_append, Path.dropLast_append_ending] at hfilter
    rw [hfilter p, hfilter q, ← Path.passed, ← Path.passed, h.passed, h.ending]
  simp only [locate, hempty, hnul, hstart, Nat.not_lt.2 hp, Nat.not_lt.2 hq, if_false, hwalk]

theorem find_congr {p q : String} (h : tree.locate p last = tree.locate q last) :
    tree.find p last = tree.find q last := by
  rw [find, find, h]

end CoinRelay.Host.FileTree
