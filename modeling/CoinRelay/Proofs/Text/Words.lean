import CoinRelay.Config
import CoinRelay.Proofs.Text.Trimmed
import Mathlib.Data.List.DropRight

/-! # Words of trimmed commands

A command is trimmed before it is split. Outside of words, in comments and behind a whole word the
separators that trimming takes away are of no consequence, and quotes that are open stay open. Only
a separator behind a backslash belongs to a word: without it the backslash is left open, and a
command that has words is refused. -/

namespace CoinRelay.Text.Words

/-! ## One character -/

/-- The mode behind a character. -/
def Mode.next : Mode → Char → Mode
  | .between, c =>
    if isSeparator c then .between
    else if c = '#' then .comment
    else if c = '"' then .double
    else if c = '\'' then .single
    else if c = '\\' then .escaped
    else .word
  | .comment, c => if c = '\n' then .between else .comment
  | .word, c =>
    if isSeparator c then .between
    else if c = '"' then .double
    else if c = '\'' then .single
    else if c = '\\' then .escaped
    else .word
  | .escaped, _ => .word
  | .single, c => if c = '\'' then .word else .single
  | .double, c => if c = '"' then .word else if c = '\\' then .doubleEscaped else .double
  | .doubleEscaped, _ => .double

/-- The words of what follows stand behind those that are done. -/
def prepend (done : List (List Char)) (words : Option (List (List Char))) :
    Option (List (List Char)) :=
  words.map (done ++ ·)

theorem prepend_nil (words : Option (List (List Char))) : prepend [] words = words := by
  simp [prepend]

theorem prepend_prepend (done more : List (List Char)) (words : Option (List (List Char))) :
    prepend done (prepend more words) = prepend (done ++ more) words := by
  simp [prepend, Function.comp_def]

/-- A character leads on to the next mode and ends at most the current word, whatever follows. -/
theorem scan_cons (mode : Mode) (word : List Char) (c : Char) : ∃ word' done, ∀ cs,
    scan mode word (c :: cs) = prepend done (scan (mode.next c) word' cs) := by
  cases mode with
  | word =>
    by_cases hsep : isSeparator c
    · exact ⟨[], [word.reverse], fun cs => by simp [scan, Mode.next, hsep, prepend]⟩
    · simp only [scan, Mode.next, hsep, Bool.false_eq_true, if_false]
      split_ifs <;> exact ⟨_, [], fun cs => (prepend_nil _).symm⟩
  | _ =>
    simp only [scan, Mode.next]
    split_ifs <;> exact ⟨_, [], fun cs => (prepend_nil _).symm⟩

/-! ## A run of characters -/

theorem scan_append (front : List Char) (mode : Mode) (word : List Char) : ∃ word' done, ∀ cs,
    scan mode word (front ++ cs) = prepend done (scan (front.foldl Mode.next mode) word' cs) := by
  induction front generalizing mode word with
  | nil => exact ⟨word, [], fun cs => (prepend_nil _).symm⟩
  | cons c front ih =>
    obtain ⟨word₁, done₁, hfirst⟩ := scan_cons mode word c
    obtain ⟨word₂, done₂, hrest⟩ := ih (mode.next c) word₁
    refine ⟨word₂, done₁ ++ done₂, fun cs => ?_⟩
    rw [List.cons_append, hfirst, hrest, prepend_prepend]
    rfl

/-- The mode in which the reader of a command is behind a text. -/
def modeBehind (cs : List Char) : Mode := cs.foldl Mode.next .between

/-! ## Separators at the ends -/

theorem scan_between_append {front : List Char} (h : ∀ c ∈ front, isSeparator c) (cs : List Char) :
    scan .between [] (front ++ cs) = scan .between [] cs := by
  induction front with
  | nil => rfl
  | cons c front ih =>
    have hc : isSeparator c = true := h c (by simp)
    simp only [List.cons_append, scan, hc, if_true]
    exact ih fun d hd => h d (by simp [hd])

theorem isBlank_of_isSeparator {c : Char} (h : isSeparator c = true) : isBlank c = true := by
  simp only [isSeparator, Bool.or_eq_true, decide_eq_true_eq] at h
  rcases h with (rfl | rfl) | rfl <;> decide

theorem not_escaping {c : Char} (h : isSeparator c = true) :
    c ≠ '\\' ∧ c ≠ '"' ∧ c ≠ '\'' ∧ escapable c = false := by
  simp only [isSeparator, Bool.or_eq_true, decide_eq_true_eq] at h
  rcases h with (rfl | rfl) | rfl <;> decide

/-- Unless a backslash takes the first of them, separators at the end change nothing. -/
theorem scan_separators {mode : Mode} (hmode : mode ≠ .escaped) (word : List Char) {cs : List Char}
    (h : ∀ c ∈ cs, isSeparator c) : scan mode word cs = scan mode word [] := by
  induction cs generalizing mode word with
  | nil => rfl
  | cons c cs ih =>
    have hc : isSeparator c = true := h c (by simp)
    obtain ⟨hbackslash, hdouble, hsingle, hescapable⟩ := not_escaping hc
    have hrest {mode : Mode} (hmode : mode ≠ .escaped) (word : List Char) :=
      ih hmode word fun d hd => h d (by simp [hd])
    cases mode with
    | escaped => exact absurd rfl hmode
    | between => simp [scan, hc, hrest]
    | comment => by_cases hline : c = '\n' <;> simp [scan, hline, hrest]
    | word => simp [scan, hc, hrest]
    | single => simp [scan, hsingle, hrest]
    | double => simp [scan, hdouble, hbackslash, hrest]
    | doubleEscaped => by_cases hline : c = '\n' <;> simp [scan, hline, hescapable, hrest]

/-- Behind a backslash the first separator completes a word, and the others end it. -/
theorem scan_escaped_separators (word : List Char) {c : Char} {cs : List Char}
    (h : ∀ d ∈ cs, isSeparator d) : ∃ last, scan .escaped word (c :: cs) = some [last] := by
  have hword (word : List Char) : scan .word word cs = some [word.reverse] :=
    scan_separators (by decide) word h
  by_cases hline : c = '\n'
  · exact ⟨word.reverse, by simp only [scan, hline, if_true, hword]⟩
  · exact ⟨(c :: word).reverse, by simp only [scan, hline, if_false, hword]⟩

/-! ## Trimming -/

/-- What trimming takes away at both ends separates words. -/
def SeparatorsAround (cs : List Char) : Prop :=
  (∀ c ∈ cs.takeWhile isBlank, isSeparator c) ∧ ∀ c ∈ cs.rtakeWhile isBlank, isSeparator c

instance (cs : List Char) : Decidable (SeparatorsAround cs) :=
  decidable_of_iff
    ((cs.takeWhile isBlank).all isSeparator ∧ (cs.rtakeWhile isBlank).all isSeparator)
    (by simp only [SeparatorsAround, List.all_eq_true])

/-- Trimming parts a backslash from the blank that it keeps: outside of quotes and comments the
trimmed text ends behind a backslash, and the text ends with a blank. -/
def PartsBackslash (cs : List Char) : Prop :=
  modeBehind (trimChars cs) = .escaped ∧ ∃ c ∈ cs.getLast?, isBlank c

instance (cs : List Char) : Decidable (PartsBackslash cs) :=
  decidable_of_iff (modeBehind (trimChars cs) = .escaped ∧ cs.getLast?.any isBlank)
    (by simp only [PartsBackslash, Option.any_eq_true, Option.mem_def])

theorem mem_rtakeWhile_append {p : Char → Bool} (front : List Char) {cs : List Char} {c : Char}
    (h : c ∈ cs.rtakeWhile p) : c ∈ (front ++ cs).rtakeWhile p := by
  simp only [List.rtakeWhile, List.mem_reverse, List.reverse_append, List.takeWhile_append] at h ⊢
  split_ifs with hall
  · exact List.mem_append_left _ (List.takeWhile_subset _ h)
  · exact h

theorem exists_trimChars {cs : List Char} (h : SeparatorsAround cs) : ∃ before behind,
    cs = before ++ (trimChars cs ++ behind) ∧ (∀ c ∈ before, isSeparator c) ∧
      ∀ c ∈ behind, isSeparator c := by
  have hfront := List.takeWhile_append_dropWhile (p := isBlank) (l := cs)
  have hback := List.rdropWhile_append_rtakeWhile (p := isBlank) (l := cs.dropWhile isBlank)
  refine ⟨cs.takeWhile isBlank, (cs.dropWhile isBlank).rtakeWhile isBlank, ?_, h.1, ?_⟩
  · rw [trimChars, ← List.rdropWhile, hback, hfront]
  · intro c hc
    have hmem := mem_rtakeWhile_append (cs.takeWhile isBlank) hc
    rw [hfront] at hmem
    exact h.2 c hmem

/-- Behind a trimmed text that leaves a backslash open, a blank at the end is one of the separators
that were taken away. -/
theorem blank_at_end_iff (before : List Char) {core after : List Char} (hcore : Trimmed core)
    (h : ∀ c ∈ after, isSeparator c) (hmode : modeBehind core = .escaped) :
    (∃ c ∈ (before ++ (core ++ after)).getLast?, isBlank c) ↔ after ≠ [] := by
  cases after using List.reverseRecOn with
  | nil =>
    have hne : core ≠ [] := by
      rintro rfl
      exact absurd hmode (by decide)
    simp only [List.append_nil, List.getLast?_append_of_ne_nil _ hne, ne_eq, not_true_eq_false,
      iff_false]
    rintro ⟨c, hc, hblank⟩
    simp [hcore.2 c hc] at hblank
  | append_singleton front c =>
    have hc : isSeparator c = true := h c (by simp)
    have hlast : (before ++ (core ++ (front ++ [c]))).getLast? = some c := by
      rw [← List.append_assoc, ← List.append_assoc, List.getLast?_concat]
    simp [hlast, isBlank_of_isSeparator hc]

/-- A command and the trimmed command are read alike up to the end of the second. -/
theorem exists_scan {cs : List Char} (h : SeparatorsAround cs) : ∃ word done after,
    (∀ c ∈ after, isSeparator c) ∧
    (PartsBackslash cs ↔ modeBehind (trimChars cs) = .escaped ∧ after ≠ []) ∧
    scan .between [] cs = prepend done (scan (modeBehind (trimChars cs)) word after) ∧
    scan .between [] (trimChars cs) = prepend done (scan (modeBehind (trimChars cs)) word []) := by
  obtain ⟨before, after, hcs, hbefore, hafter⟩ := exists_trimChars h
  obtain ⟨word, done, hscan⟩ := scan_append (trimChars cs) .between []
  refine ⟨word, done, after, hafter, ?_, ?_, ?_⟩
  · refine and_congr_right fun hmode => ?_
    have hend := blank_at_end_iff before (trimmed_trimChars cs) hafter hmode
    rwa [← hcs] at hend
  · have hfront := scan_between_append hbefore (trimChars cs ++ after)
    rw [← hcs] at hfront
    rw [hfront, hscan]
    rfl
  · have hwhole := hscan []
    rwa [List.append_nil] at hwhole

theorem split?_eq_of_not_partsBackslash {cs : List Char} (h : SeparatorsAround cs)
    (hparts : ¬ PartsBackslash cs) : split? (trimChars cs) = split? cs := by
  obtain ⟨word, done, after, hafter, hiff, hwhole, htrimmed⟩ := exists_scan h
  have hsame : scan (modeBehind (trimChars cs)) word after =
      scan (modeBehind (trimChars cs)) word [] := by
    rcases not_and_or.1 (mt hiff.2 hparts) with hmode | hnone
    · exact scan_separators hmode word hafter
    · rw [not_not.1 hnone]
  rw [split?, split?, htrimmed, hwhole, hsame]

theorem split?_of_partsBackslash {cs : List Char} (h : SeparatorsAround cs)
    (hparts : PartsBackslash cs) :
    split? (trimChars cs) = none ∧ ∃ first rest, split? cs = some (first :: rest) := by
  obtain ⟨word, done, after, hafter, hiff, hwhole, htrimmed⟩ := exists_scan h
  obtain ⟨hmode, hne⟩ := hiff.1 hparts
  obtain ⟨c, after, rfl⟩ := List.exists_cons_of_ne_nil hne
  have hrest : ∀ d ∈ after, isSeparator d := fun d hd => hafter d (List.mem_cons_of_mem c hd)
  obtain ⟨last, hlast⟩ := scan_escaped_separators word hrest
  rw [hmode] at hwhole htrimmed
  refine ⟨by rw [split?, htrimmed]; rfl, ?_⟩
  rw [split?, hwhole, hlast]
  cases done with
  | nil => exact ⟨_, _, rfl⟩
  | cons first others => exact ⟨_, _, rfl⟩

end CoinRelay.Text.Words

namespace CoinRelay.CommandLine
open Text Text.Words

/-- The command that words make: the first is the program. -/
def ofWords? : Option (List String) → Option CommandLine
  | some (program :: args) => some ⟨program, args⟩
  | _ => none

theorem parse?_of_not_partsBackslash {raw : String} (h : SeparatorsAround raw.toList)
    (hparts : ¬ PartsBackslash raw.toList) :
    parse? raw = ofWords? (split? raw.toList) := by
  rw [parse?, split?_eq_of_not_partsBackslash h hparts]
  rfl

theorem parse?_of_partsBackslash {raw : String} (h : SeparatorsAround raw.toList)
    (hparts : PartsBackslash raw.toList) : parse? raw = none := by
  rw [parse?, (split?_of_partsBackslash h hparts).1]

/-- **Trimming changes the words of a command only where it parts a backslash from its blank.** If
nothing but separators surrounds a command, it is read as the words of the whole text make it, and
refused where there are none, exactly if no backslash loses the blank behind it. If one does, the
command is refused although the whole text has words. -/
theorem parse?_eq_ofWords?_iff {raw : String} (h : SeparatorsAround raw.toList) :
    (parse? raw = ofWords? (split? raw.toList) ↔
      ¬ PartsBackslash raw.toList) ∧
    (∀ (config : Config) (hop : Hop), config.commands hop = some raw →
      (config.resolve hop =
        (match split? raw.toList with
        | some (program :: args) => .ok (some ⟨program, args⟩)
        | _ => .error (.invalidCommand raw)) ↔ ¬ PartsBackslash raw.toList)) ∧
    (PartsBackslash raw.toList → parse? raw = none ∧
      ∃ program args, split? raw.toList = some (program :: args)) := by
  by_cases hparts : PartsBackslash raw.toList
  · have hnone := parse?_of_partsBackslash h hparts
    obtain ⟨-, program, args, hsplit⟩ := split?_of_partsBackslash h hparts
    refine ⟨?_, fun config hop hset => ?_, fun _ => ⟨hnone, program, args, hsplit⟩⟩
    · simp [hnone, hsplit, ofWords?, hparts]
    · simp [Config.resolve, hset, hnone, hsplit, hparts]
  · have hsome := parse?_of_not_partsBackslash h hparts
    refine ⟨by simp [hsome, hparts], fun config hop hset => ?_, fun hno => absurd hno hparts⟩
    simp only [Config.resolve, hset, hsome, hparts, not_false_eq_true, iff_true]
    match split? raw.toList with
    | none => rfl
    | some [] => rfl
    | some (program :: args) => rfl

theorem parse?_eq_ofWords?_of_flag :
    let raw := " signer -m 'key a' --flag=\"a b\"\n"
    SeparatorsAround raw.toList ∧ ¬ PartsBackslash raw.toList ∧
      parse? raw = some ⟨"signer", ["-m", "key a", "--flag=a b"]⟩ ∧
      (Config.apply {} (.command .signer raw)).resolve .signer =
        .ok (some ⟨"signer", ["-m", "key a", "--flag=a b"]⟩) := by
  intro raw
  have hends : SeparatorsAround raw.toList := by decide
  have hkept : ¬ PartsBackslash raw.toList := by decide
  have hset : (Config.apply {} (.command .signer raw)).commands .signer = some raw := rfl
  have hwords : split? raw.toList = some ["signer", "-m", "key a", "--flag=a b"] := by decide
  obtain ⟨hparse, hresolve, -⟩ := parse?_eq_ofWords?_iff hends
  refine ⟨hends, hkept, (hparse.2 hkept).trans ?_, ((hresolve _ _ hset).2 hkept).trans ?_⟩
  · rw [hwords]
    rfl
  · rw [hwords]

/-- The blank behind the backslash belongs to the program's name. Without it the backslash is left
open. -/
theorem words_lost_of_backslash :
    let raw := "signer\\ "
    SeparatorsAround raw.toList ∧ split? raw.toList = some ["signer "] ∧
      parse? raw = none ∧
      (Config.apply {} (.command .signer raw)).resolve .signer = .error (.invalidCommand raw) := by
  intro raw
  have hends : SeparatorsAround raw.toList := by decide
  have hrefused : parse? raw = none := by decide
  refine ⟨hends, by decide, hrefused, ?_⟩
  have hset : (Config.apply {} (.command .signer raw)).commands .signer = some raw := rfl
  simp only [Config.resolve, hset, hrefused]

end CoinRelay.CommandLine
