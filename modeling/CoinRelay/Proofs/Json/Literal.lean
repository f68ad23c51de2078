import CoinRelay.Json.Printer
import CoinRelay.Json.Reader

/-! # Number literals

A literal is a run of whole digits, with or without a fraction and an exponent. The reader takes all
of a valid literal and stops behind it (`readUnsignedNumber_chars`), and whole numbers are written
as literals that read back as themselves (`readNumber_renderInt`). -/

namespace CoinRelay.Json

/-- What follows cannot belong to a number. -/
def NumberEnds : List Char → Prop
  | [] => True
  | c :: _ => c.isDigit = false ∧ c ≠ '.' ∧ c ≠ 'e' ∧ c ≠ 'E'

theorem NumberEnds.cons {c : Char} (h : c = ',' ∨ c = ']' ∨ c = '}') (rest : List Char) :
    NumberEnds (c :: rest) := by
  rcases h with rfl | rfl | rfl <;> simp [NumberEnds]

/-- The parts of a literal: of the exponent, whether it is negative and its digits. -/
structure Literal where
  whole : List Char
  fraction : Option (List Char)
  exponent : Option (Bool × List Char)

namespace Literal

def fractionChars : Option (List Char) → List Char
  | none => []
  | some ds => '.' :: ds

def exponentChars : Option (Bool × List Char) → List Char
  | none => []
  | some (negative, ds) => 'e' :: (if negative then '-' else '+') :: ds

def chars (l : Literal) : List Char :=
  l.whole ++ (fractionChars l.fraction ++ exponentChars l.exponent)

def exponentValue (l : Literal) : Option Int :=
  l.exponent.map fun e => (if e.1 then -1 else 1) * (Nat.ofDigitChars 10 e.2 0 : Int)

/-- One or more decimal digits. -/
def Digits (ds : List Char) : Prop := ds ≠ [] ∧ ∀ c ∈ ds, c.isDigit = true

/-- Every part has digits, and whole digits begin with a zero only if that is all. -/
structure Valid (l : Literal) : Prop where
  whole : Digits l.whole
  leading : l.whole.head? = some '0' → l.whole.length ≤ 1
  fraction : ∀ ds ∈ l.fraction, Digits ds
  exponent : ∀ e ∈ l.exponent, Digits e.2

theorem digits_toDigits (n : Nat) : Digits (Nat.toDigits 10 n) :=
  ⟨Nat.toDigits_ne_nil, fun _ h => Nat.isDigit_of_mem_toDigits (by decide) (by decide) h⟩

end Literal

/-! ## Digits -/

open Literal (Digits digits_toDigits)

theorem digitChar_ne_zero {n : Nat} (h0 : n ≠ 0) (h : n < 10) : n.digitChar ≠ '0' := by
  match n with
  | 1 | 2 | 3 | 4 | 5 | 6 | 7 | 8 | 9 => decide
  | 0 => contradiction
  | _ + 10 => omega

theorem head?_toDigits {n : Nat} (h : n ≠ 0) : (Nat.toDigits 10 n).head? ≠ some '0' := by
  induction n using Nat.strongRecOn with
  | ind n ih =>
    by_cases hn : n < 10
    · rw [Nat.toDigits_of_lt_base hn]
      simpa using digitChar_ne_zero h hn
    · obtain ⟨d, ds, hd⟩ := List.exists_cons_of_ne_nil (digits_toDigits (n / 10)).1
      have hz := ih (n / 10) (by omega) (by omega)
      rw [hd] at hz
      rw [Nat.toDigits_of_base_le (by decide) (by omega), hd]
      simpa using hz

theorem digits?_append {ds rest : List Char} (hd : Digits ds)
    (hr : ∀ c ∈ rest.head?, c.isDigit = false) : digits? (ds ++ rest) = some (ds, rest) := by
  have htake : (ds ++ rest).takeWhile Char.isDigit = ds := by
    rw [List.takeWhile_append_of_pos hd.2]
    cases rest with
    | nil => simp
    | cons c rest => simp [hr c (by simp)]
  have hdrop : (ds ++ rest).dropWhile Char.isDigit = rest := by
    rw [List.dropWhile_append_of_pos hd.2]
    cases rest with
    | nil => simp
    | cons c rest => simp [hr c (by simp)]
  obtain ⟨c, cs, rfl⟩ := List.exists_cons_of_ne_nil hd.1
  simp only [digits?, htake, hdrop]

theorem le_ofDigitChars (ds : List Char) (n : Nat) : n ≤ Nat.ofDigitChars 10 ds n := by
  induction ds generalizing n with
  | nil => simp
  | cons d ds ih =>
    rw [Nat.ofDigitChars_cons]
    exact Nat.le_trans (by omega) (ih _)

/-- Digits whose value fits a word are absorbed one and all. -/
theorem absorb_eq {ds : List Char} {n : Nat}
    (h : (Nat.ofDigitChars 10 ds n : Int) < Word.unsignedBound) :
    absorb n ds = (Nat.ofDigitChars 10 ds n, ds.length) := by
  induction ds generalizing n with
  | nil => simp [absorb]
  | cons d ds ih =>
    rw [Nat.ofDigitChars_cons] at h ⊢
    have hm : n * 10 + (d.toNat - 48) = 10 * n + (d.toNat - '0'.toNat) := by
      rw [Nat.mul_comm]; rfl
    have hle := le_ofDigitChars ds (10 * n + (d.toNat - '0'.toNat))
    simp only [absorb, hm]
    rw [if_pos (by omega), ih h]
    rfl

/-! ## Reading a literal -/

theorem fraction?_chars {f : Option (List Char)} {rest : List Char} (hf : ∀ ds ∈ f, Digits ds)
    (hr : ∀ c ∈ rest.head?, c.isDigit = false ∧ c ≠ '.') :
    fraction? (Literal.fractionChars f ++ rest) = some (f, rest) := by
  cases f with
  | none =>
    cases rest with
    | nil => rfl
    | cons c rest =>
      have hc := (hr c (by simp)).2
      simp only [Literal.fractionChars, List.nil_append]
      unfold fraction?
      split
      · simp_all
      · rfl
  | some ds =>
    have hd := digits?_append (hf ds rfl) fun c hc => (hr c hc).1
    simp [Literal.fractionChars, fraction?, hd]

theorem exponent?_chars {e : Option (Bool × List Char)} {rest : List Char}
    (he : ∀ p ∈ e, Digits p.2) (hr : NumberEnds rest) :
    exponent? (Literal.exponentChars e ++ rest) =
      some (e.map fun p => (if p.1 then -1 else 1) * (Nat.ofDigitChars 10 p.2 0 : Int), rest) := by
  cases e with
  | none =>
    cases rest with
    | nil => rfl
    | cons c rest =>
      obtain ⟨-, -, h1, h2⟩ := hr
      simp [Literal.exponentChars, exponent?, h1, h2]
  | some p =>
    obtain ⟨negative, ds⟩ := p
    have hend : ∀ c ∈ rest.head?, c.isDigit = false := by
      intro c hc
      cases rest with
      | nil => simp at hc
      | cons d rest =>
        obtain rfl : d = c := by simpa using hc
        exact hr.1
    have hd := digits?_append (he _ rfl) hend
    cases negative <;> simp [Literal.exponentChars, exponent?, hd]

theorem readUnsignedNumber_chars {l : Literal} (hl : l.Valid) {rest : List Char}
    (hr : NumberEnds rest) (negative : Bool) :
    readUnsignedNumber negative (l.chars ++ rest) =
      (number? negative l.whole l.fraction l.exponentValue).map (·, rest) := by
  have hexp : ∀ c ∈ (Literal.exponentChars l.exponent ++ rest).head?,
      c.isDigit = false ∧ c ≠ '.' := by
    intro c hc
    cases he : l.exponent with
    | some p =>
      obtain rfl : 'e' = c := by simpa [he, Literal.exponentChars] using hc
      decide
    | none =>
      rw [he] at hc
      cases rest with
      | nil => simp [Literal.exponentChars] at hc
      | cons d rest =>
        obtain rfl : d = c := by simpa [Literal.exponentChars] using hc
        exact ⟨hr.1, hr.2.1⟩
  have hfrac : ∀ c ∈ (Literal.fractionChars l.fraction ++
      (Literal.exponentChars l.exponent ++ rest)).head?, c.isDigit = false := by
    intro c hc
    cases hf : l.fraction with
    | some ds =>
      obtain rfl : '.' = c := by simpa [hf, Literal.fractionChars] using hc
      decide
    | none =>
      rw [hf] at hc
      exact (hexp c (by simpa [Literal.fractionChars] using hc)).1
  have hzero : ¬ (l.whole.head? = some '0' ∧ 1 < l.whole.length) := by
    intro ⟨h, hlen⟩
    have := hl.leading h
    omega
  have hw := digits?_append hl.whole hfrac
  have hf := fraction?_chars hl.fraction hexp
  have he := exponent?_chars hl.exponent hr
  simp only [Literal.chars, List.append_assoc, readUnsignedNumber, hw, hf, he, if_neg hzero,
    Option.bind_eq_bind, Option.bind_some, Literal.exponentValue]
  cases number? negative l.whole l.fraction _ <;> rfl

/-! ## Whole numbers -/

theorem number?_whole (negative : Bool) (ds : List Char) (w : WholeNumber)
    (hv : (if negative then -(Nat.ofDigitChars 10 ds 0 : Int) else Nat.ofDigitChars 10 ds 0) =
      w.val)
    (hzero : ¬ (negative = true ∧ Nat.ofDigitChars 10 ds 0 = 0)) :
    number? negative ds none none = some (.whole w) := by
  have hlt : (Nat.ofDigitChars 10 ds 0 : Int) < Word.unsignedBound := by
    have hl := w.lower
    have hu := w.upper
    simp only [Word.signedBound, Word.unsignedBound] at *
    split at hv <;> omega
  have hnone : ¬ (0 < (ds.length : Int) - ds.length ∨
      (negative = true ∧ Nat.ofDigitChars 10 ds 0 = 0)) := by
    rintro (h | h)
    · omega
    · exact hzero h
  simp only [number?, absorb_eq hlt, if_neg hnone, hv, WholeNumber.ofInt?_val]

theorem literal_valid_toDigits (n : Nat) : (⟨Nat.toDigits 10 n, none, none⟩ : Literal).Valid where
  whole := digits_toDigits n
  leading := by
    intro h
    by_cases hn : n = 0
    · simp [hn]
    · exact absurd h (head?_toDigits hn)
  fraction := by simp
  exponent := by simp

theorem readNumber_renderInt (w : WholeNumber) {rest : List Char} (hr : NumberEnds rest) :
    readNumber (renderInt w.val ++ rest) = some (.whole w, rest) := by
  have hread := readUnsignedNumber_chars (literal_valid_toDigits w.val.natAbs) hr
  simp only [Literal.chars, Literal.fractionChars, Literal.exponentChars, List.append_nil,
    Literal.exponentValue, Option.map_none] at hread
  by_cases hneg : w.val < 0
  · have hn := number?_whole true (Nat.toDigits 10 w.val.natAbs) w
      (by rw [if_pos rfl, Nat.ofDigitChars_ten_toDigits]; omega)
      (by rw [Nat.ofDigitChars_ten_toDigits]; omega)
    simp only [renderInt, if_pos hneg, List.cons_append, readNumber, hread, hn, Option.map_some]
  · have hn := number?_whole false (Nat.toDigits 10 w.val.natAbs) w
      (by rw [if_neg Bool.false_ne_true, Nat.ofDigitChars_ten_toDigits]; omega) (by simp)
    simp only [renderInt, if_neg hneg]
    unfold readNumber
    split
    · next heq =>
      obtain ⟨d, ds, hd⟩ := List.exists_cons_of_ne_nil (digits_toDigits w.val.natAbs).1
      have hdig := (digits_toDigits w.val.natAbs).2 d (by simp [hd])
      rw [hd] at heq
      obtain ⟨rfl, -⟩ := List.cons.inj heq
      exact absurd hdig (by decide)
    · rw [hread, hn]; rfl

end CoinRelay.Json
