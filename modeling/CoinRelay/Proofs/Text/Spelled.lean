import CoinRelay.Text.Numeral
import CoinRelay.Proofs.Json.DoubleLiteral
import CoinRelay.Proofs.Text.Trimmed
import Mathlib.Data.List.Induction
import Mathlib.Data.List.TakeWhile

/-! # Integers in numerals

An integer is spelled by its decimal digits, with zeros before them, behind a sign and between
blanks. The readers of numerals accept these spellings and nothing else, so what they read of a text
does not depend on how it is spelled. -/

namespace CoinRelay.Text
open Json.Literal (Digits digits_toDigits)

/-- The signs that an integer may have: a plus or none from zero upwards, a minus from zero
downwards. -/
inductive Signed : Int → List Char → Prop where
  | bare {n : Int} (h : 0 ≤ n) : Signed n []
  | plus {n : Int} (h : 0 ≤ n) : Signed n ['+']
  | minus {n : Int} (h : n ≤ 0) : Signed n ['-']

/-- The decimal digits of a number with so many zeros before them. -/
def padded (zeros n : Nat) : List Char := List.replicate zeros '0' ++ Nat.toDigits 10 n

/-- The characters spell the integer. -/
def Spells (cs : List Char) (n : Int) : Prop :=
  ∃ before sign after : List Char, ∃ zeros : Nat,
    cs = before ++ (sign ++ padded zeros n.natAbs) ++ after ∧ Signed n sign ∧
      ∀ c ∈ before ++ after, isBlank c = true

/-! ## Digits -/

theorem digits_padded (zeros n : Nat) : Digits (padded zeros n) := by
  refine ⟨by simp [padded, (digits_toDigits n).1], fun c hc => ?_⟩
  rcases List.mem_append.1 hc with hc | hc
  · exact Json.isDigit_replicate_zero hc
  · exact (digits_toDigits n).2 c hc

theorem ofDigitChars_padded (zeros n : Nat) : Nat.ofDigitChars 10 (padded zeros n) 0 = n := by
  rw [padded, Json.ofDigitChars_zeros_append, Nat.ofDigitChars_ten_toDigits]

theorem toDigits_digit {c : Char} (h : c.isDigit = true) :
    c.toNat - '0'.toNat < 10 ∧ Nat.toDigits 10 (c.toNat - '0'.toNat) = [c] := by
  have h0 : '0'.toNat = 48 := rfl
  simp only [Char.isDigit, Bool.and_eq_true, decide_eq_true_eq, UInt32.le_iff_toNat_le] at h
  have hlow : 48 ≤ c.toNat := h.1
  have hhigh : c.toNat ≤ 57 := h.2
  have hlt : c.toNat - '0'.toNat < 10 := by omega
  refine ⟨hlt, ?_⟩
  rw [Nat.toDigits_of_lt_base hlt, List.cons.injEq, ← Char.toNat_inj,
    Nat.toNat_digitChar_of_lt_ten hlt]
  exact ⟨by omega, rfl⟩

/-- Digits are those of their value, with zeros before them. -/
theorem exists_padded {ds : List Char} (h : Digits ds) :
    ∃ zeros, ds = padded zeros (Nat.ofDigitChars 10 ds 0) := by
  induction ds using List.reverseRecOn with
  | nil => exact absurd rfl h.1
  | append_singleton ds c ih =>
    obtain ⟨hlt, hc⟩ := toDigits_digit (h.2 c (by simp))
    rw [Nat.ofDigitChars_append, Nat.ofDigitChars_cons, Nat.ofDigitChars_nil]
    by_cases hds : ds = []
    · subst hds
      refine ⟨0, ?_⟩
      rw [Nat.ofDigitChars_nil, Nat.mul_zero, Nat.zero_add, padded, hc]
      rfl
    · obtain ⟨zeros, hpadded⟩ := ih ⟨hds, fun c hc => h.2 c (by simp [hc])⟩
      rcases Nat.eq_zero_or_pos (Nat.ofDigitChars 10 ds 0) with hzero | hpos
      · rw [hzero] at hpadded ⊢
        refine ⟨zeros + 1, ?_⟩
        rw [hpadded, padded, padded, Nat.mul_zero, Nat.zero_add, hc, List.replicate_succ']
        rfl
      · refine ⟨zeros, ?_⟩
        rw [padded, ← Nat.toDigits_append_toDigits (by decide) hpos hlt, hc, ← List.append_assoc,
          ← padded, ← hpadded]

theorem readDigits?_eq_some {cs : List Char} {n : Nat} :
    readDigits? cs = some n ↔ ∃ zeros, cs = padded zeros n := by
  unfold readDigits?
  constructor
  · intro h
    split at h
    · cases h
    · next hds =>
      cases h
      simp only [Bool.or_eq_true, not_or, List.isEmpty_iff, Bool.not_eq_true', Bool.not_eq_false,
        List.all_eq_true] at hds
      exact exists_padded hds
  · rintro ⟨zeros, rfl⟩
    obtain ⟨hne, hall⟩ := digits_padded zeros n
    rw [ofDigitChars_padded, if_neg]
    simpa [hne] using hall

/-! ## Signs -/

/-- A reader of signs leaves digits to the reader of digits. -/
theorem readSigned?_of_digits {ds : List Char} (h : Digits ds) :
    readUnsigned? ds = readDigits? ds ∧
      readSigned? ds = (readDigits? ds).map fun n => (n : Int) := by
  obtain ⟨c, cs, rfl⟩ := List.exists_cons_of_ne_nil h.1
  have hc : c.isDigit = true := h.2 c (by simp)
  have hunsigned : readUnsigned? (c :: cs) = readDigits? (c :: cs) := by
    unfold readUnsigned?
    split
    · next heq => cases heq; cases hc
    · rfl
  refine ⟨hunsigned, ?_⟩
  unfold readSigned?
  split
  · next heq => cases heq; cases hc
  · rw [hunsigned]

/-- An integer is read from digits behind a minus, or as a number without a sign. -/
theorem cases_of_readSigned? {cs : List Char} {n : Int} (h : readSigned? cs = some n) :
    (∃ ds m, cs = '-' :: ds ∧ readDigits? ds = some m ∧ -(m : Int) = n) ∨
      ∃ m, readUnsigned? cs = some m ∧ (m : Int) = n := by
  unfold readSigned? at h
  split at h
  · next ds => exact .inl ⟨ds, by simpa [Option.bind_eq_some_iff] using h⟩
  · exact .inr (by simpa [Option.bind_eq_some_iff] using h)

theorem readSigned?_eq_some {cs : List Char} {n : Int} :
    readSigned? cs = some n ↔
      ∃ sign zeros, cs = sign ++ padded zeros n.natAbs ∧ Signed n sign := by
  constructor
  · intro h
    obtain ⟨ds, m, rfl, hm, rfl⟩ | ⟨m, hm, rfl⟩ := cases_of_readSigned? h
    · obtain ⟨zeros, rfl⟩ := readDigits?_eq_some.1 hm
      exact ⟨['-'], zeros, by simp, .minus (by omega)⟩
    · unfold readUnsigned? at hm
      split at hm
      · next ds =>
        obtain ⟨zeros, rfl⟩ := readDigits?_eq_some.1 hm
        exact ⟨['+'], zeros, by simp, .plus (by omega)⟩
      · obtain ⟨zeros, rfl⟩ := readDigits?_eq_some.1 hm
        exact ⟨[], zeros, by simp, .bare (by omega)⟩
  · rintro ⟨sign, zeros, rfl, hsigned⟩
    have hdigits : readDigits? (padded zeros n.natAbs) = some n.natAbs :=
      readDigits?_eq_some.2 ⟨zeros, rfl⟩
    cases hsigned with
    | bare h =>
      have habs := Int.natAbs_of_nonneg h
      rw [List.nil_append, (readSigned?_of_digits (digits_padded ..)).2, hdigits]
      exact congrArg some habs
    | plus h =>
      have habs := Int.natAbs_of_nonneg h
      simp [readSigned?, readUnsigned?, hdigits, habs]
    | minus h =>
      have habs := Int.ofNat_natAbs_of_nonpos h
      simp [readSigned?, hdigits, habs]

/-- Without a minus, both readers read the same. -/
theorem readSigned?_of_readUnsigned? {cs : List Char} {n : Nat} (h : readUnsigned? cs = some n) :
    readSigned? cs = some (n : Int) := by
  unfold readSigned?
  split
  · next ds => cases h
  · rw [h]
    rfl

/-- What is above zero has no minus. -/
theorem readUnsigned?_of_readSigned? {cs : List Char} {n : Nat} (hn : 0 < n)
    (h : readSigned? cs = some (n : Int)) : readUnsigned? cs = some n := by
  obtain ⟨-, m, -, -, hm⟩ | ⟨m, hm, hmn⟩ := cases_of_readSigned? h
  · omega
  · rw [hm, Int.natCast_inj.1 hmn]

theorem not_isBlank_of_mem_signed {n : Int} {sign : List Char} (h : Signed n sign) :
    ∀ c ∈ sign, isBlank c = false := by
  intro c hc
  cases h with
  | bare => cases hc
  | plus | minus =>
    obtain rfl := List.mem_singleton.1 hc
    decide

/-! ## Blanks -/

/-- Trimming takes the blanks around a text away and nothing else. -/
theorem trimChars_append {before core after : List Char} (hne : core ≠ []) (ht : Trimmed core)
    (hblank : ∀ c ∈ before ++ after, isBlank c = true) :
    trimChars (before ++ core ++ after) = core := by
  obtain ⟨c, cs, rfl⟩ := List.exists_cons_of_ne_nil hne
  have hstart : (before ++ (c :: cs) ++ after).dropWhile isBlank = (c :: cs) ++ after := by
    rw [List.append_assoc, List.dropWhile_append_of_pos fun c hc => hblank c (by simp [hc])]
    exact dropWhile_isBlank fun d hd => ht.1 d (by simpa using hd)
  have hend : ((c :: cs) ++ after).reverse.dropWhile isBlank = (c :: cs).reverse := by
    rw [List.reverse_append,
      List.dropWhile_append_of_pos fun c hc => hblank c (by simp [List.mem_reverse.1 hc])]
    exact dropWhile_isBlank fun d hd => ht.2 d (by rwa [List.head?_reverse] at hd)
  rw [trimChars, hstart, hend, List.reverse_reverse]

/-- What trimming takes away is blank. -/
theorem exists_around_trimChars (cs : List Char) :
    ∃ before after, cs = before ++ trimChars cs ++ after ∧
      ∀ c ∈ before ++ after, isBlank c = true := by
  refine ⟨cs.takeWhile isBlank, ((cs.dropWhile isBlank).reverse.takeWhile isBlank).reverse, ?_, ?_⟩
  · rw [trimChars, List.append_assoc, ← List.reverse_append, List.takeWhile_append_dropWhile,
      List.reverse_reverse, List.takeWhile_append_dropWhile]
  · intro c hc
    rcases List.mem_append.1 hc with hc | hc
    · exact List.mem_takeWhile_imp hc
    · exact List.mem_takeWhile_imp (List.mem_reverse.1 hc)

/-- **What is read of a numeral.** Between blanks, exactly the spellings of an integer are read as
it. -/
theorem readSigned?_trimChars {cs : List Char} {n : Int} :
    readSigned? (trimChars cs) = some n ↔ Spells cs n := by
  constructor
  · intro h
    obtain ⟨sign, zeros, hcore, hsigned⟩ := readSigned?_eq_some.1 h
    obtain ⟨before, after, hcs, hblank⟩ := exists_around_trimChars cs
    exact ⟨before, sign, after, zeros, hcore ▸ hcs, hsigned, hblank⟩
  · rintro ⟨before, sign, after, zeros, rfl, hsigned, hblank⟩
    have hne : sign ++ padded zeros n.natAbs ≠ [] := by
      simp [(digits_padded zeros n.natAbs).1]
    have htrimmed : Trimmed (sign ++ padded zeros n.natAbs) := by
      refine trimmed_of_forall fun c hc => ?_
      rcases List.mem_append.1 hc with hc | hc
      · exact not_isBlank_of_mem_signed hsigned c hc
      · exact not_isBlank_of_isDigit ((digits_padded zeros n.natAbs).2 c hc)
    rw [trimChars_append hne htrimmed hblank]
    exact readSigned?_eq_some.2 ⟨sign, zeros, rfl, hsigned⟩

end CoinRelay.Text
