import CoinRelay.Proofs.Json.Literal

/-! # Literals of doubles

A double is written as a literal with a fraction or an exponent, so it is read as a double again
(`readNumber_text`). The double that is read need not be the one that was written: reading rounds
twice. `Double.reread?` names it. -/

namespace CoinRelay.Json
open Literal (Digits digits_toDigits)

/-! ## Decimals of doubles are not zero -/

/-- Zero is no decimal of a double other than zero. -/
theorem digits_ne_zero_of_readsBack {x : Double} {d : Decimal} (hx : x.mantissa ≠ 0)
    (h : d.readsBack x = true) : d.digits ≠ 0 := by
  intro h0
  have hpos : ∀ low, low ≠ 0 →
      Decimal.compareScaled d.digits d.exponent low (x.exponent - 2) = .lt := by
    intro low hlow
    have h2 := power_pos (show 0 < 2 by decide) (x.exponent - 2)
    have h10 := power_pos (show 0 < 10 by decide) (-d.exponent)
    have hp := Nat.mul_pos (Nat.mul_pos (Nat.pos_of_ne_zero hlow) h2) h10
    simp only [Decimal.compareScaled, h0, Nat.zero_mul]
    exact Nat.compare_eq_lt.2 hp
  simp only [Decimal.readsBack] at h
  rw [hpos _ (by split <;> omega)] at h
  simp at h

theorem digits_onGrid? {x : Double} {g : Int} {d : Decimal} (hx : x.mantissa ≠ 0)
    (h : Decimal.onGrid? x g = some d) : d.digits ≠ 0 := by
  have hread : d.readsBack x = true := by
    simp only [Decimal.onGrid?] at h
    split at h <;> try split at h
    all_goals simp_all
  exact digits_ne_zero_of_readsBack hx hread

theorem digits_stripZeros (fuel : Nat) (d : Decimal) (h : d.digits ≠ 0) :
    (Decimal.stripZeros fuel d).digits ≠ 0 := by
  induction fuel generalizing d with
  | zero => exact h
  | succ fuel ih =>
    simp only [Decimal.stripZeros]
    split
    · next hd => exact ih _ (by simp only; omega)
    · exact h

theorem digits_shortest {x : Double} (hx : x.mantissa ≠ 0) : (Decimal.shortest x).digits ≠ 0 := by
  simp only [Decimal.shortest]
  refine digits_stripZeros 17 _ ?_
  cases hf : (List.range 17).findSome? fun (n : Nat) =>
      Decimal.onGrid? x (Decimal.scale x - 1 - n) with
  | some d =>
    obtain ⟨n, -, hn⟩ := List.exists_of_findSome?_eq_some hf
    exact digits_onGrid? hx hn
  | none =>
    have hpos := Nat.pos_of_ne_zero hx
    simp only [Option.getD_none, Decimal.exact]
    split
    · exact Nat.ne_of_gt (Nat.mul_pos hpos (power_pos (by decide) _))
    · exact Nat.ne_of_gt (Nat.mul_pos hpos (power_pos (by decide) _))

/-! ## The literal of a decimal -/

/-- The literal has a fraction or an exponent. -/
def Literal.Marked (l : Literal) : Prop := l.fraction.isSome = true ∨ l.exponent.isSome = true

theorem digits_append {xs ys : List Char} (hx : Digits xs) (hy : ∀ c ∈ ys, c.isDigit = true) :
    Digits (xs ++ ys) :=
  ⟨by simp [hx.1], fun c hc => (List.mem_append.1 hc).elim (hx.2 c) (hy c)⟩

theorem isDigit_replicate_zero {n : Nat} {c : Char} (h : c ∈ List.replicate n '0') :
    c.isDigit = true := by
  obtain rfl := List.eq_of_mem_replicate h
  decide

theorem digits_zero : Digits ['0'] :=
  ⟨by simp, fun _ hc => isDigit_replicate_zero (n := 1) hc⟩

/-- The number that a literal stands for, its digits taken together. -/
def Literal.decimal (l : Literal) : Decimal where
  digits := Nat.ofDigitChars 10 (l.whole ++ l.fraction.getD []) 0
  exponent := l.exponentValue.getD 0 - (l.fraction.getD []).length

/-- The decimal with the digits that its text has: a whole number gets a zero behind the point. -/
def Decimal.written (d : Decimal) : Decimal :=
  if 0 ≤ d.exponent ∧ ((Nat.toDigits 10 d.digits).length : Int) + d.exponent - 1 ≤ 15 then
    ⟨d.digits * power 10 (d.exponent + 1), -1⟩
  else d

theorem exists_scientific {ds es : List Char} (hd : Digits ds) (he : Digits es) (negative : Bool) :
    ∃ l : Literal, l.Valid ∧ l.Marked ∧ l.decimal = ⟨Nat.ofDigitChars 10 ds 0,
        (if negative then -1 else 1) * Nat.ofDigitChars 10 es 0 - (ds.length - 1)⟩ ∧
      Decimal.pointAfterFirst ds ++ 'e' :: (if negative then '-' else '+') :: es = l.chars := by
  match ds, hd with
  | [c], hd =>
    exact ⟨⟨[c], none, some (negative, es)⟩, ⟨hd, by simp, by simp, by simpa using he⟩,
      .inr rfl, by simp [Literal.decimal, Literal.exponentValue],
      by simp [Decimal.pointAfterFirst, Literal.chars, Literal.fractionChars,
        Literal.exponentChars]⟩
  | c :: d :: cs, hd =>
    have hc : Digits [c] := ⟨by simp, fun x hx => hd.2 x (by simp_all)⟩
    have hcs : Digits (d :: cs) := ⟨by simp, fun x hx => hd.2 x (by simp_all)⟩
    exact ⟨⟨[c], some (d :: cs), some (negative, es)⟩, ⟨hc, by simp, by simpa using hcs,
      by simpa using he⟩, .inr rfl, by simp [Literal.decimal, Literal.exponentValue],
      by simp [Decimal.pointAfterFirst, Literal.chars, Literal.fractionChars,
        Literal.exponentChars]⟩

theorem exists_positional {ws fs : List Char} (hw : Digits ws) (hf : Digits fs)
    (hz : ws.head? = some '0' → ws.length ≤ 1) :
    ∃ l : Literal, l.Valid ∧ l.Marked ∧
      l.decimal = ⟨Nat.ofDigitChars 10 (ws ++ fs) 0, -fs.length⟩ ∧ ws ++ '.' :: fs = l.chars :=
  ⟨⟨ws, some fs, none⟩, ⟨hw, hz, by simpa using hf, by simp⟩, .inl rfl,
    by simp [Literal.decimal, Literal.exponentValue],
    by simp [Literal.chars, Literal.fractionChars, Literal.exponentChars]⟩

theorem ofDigitChars_append_zeros (ds : List Char) (n : Nat) :
    Nat.ofDigitChars 10 (ds ++ List.replicate n '0') 0 = Nat.ofDigitChars 10 ds 0 * power 10 n := by
  rw [Nat.ofDigitChars_append, Nat.ofDigitChars_replicate_zero, Nat.mul_comm]
  rfl

theorem ofDigitChars_zeros_append (n : Nat) (ds : List Char) :
    Nat.ofDigitChars 10 (List.replicate n '0' ++ ds) 0 = Nat.ofDigitChars 10 ds 0 := by
  rw [Nat.ofDigitChars_append, Nat.ofDigitChars_replicate_zero, Nat.mul_zero]

theorem exists_literal_text {d : Decimal} (h : d.digits ≠ 0) :
    ∃ l : Literal, l.Valid ∧ l.Marked ∧ l.decimal = d.written ∧ d.text = l.chars := by
  have hd := digits_toDigits d.digits
  have hhead := head?_toDigits h
  have hvalue := Nat.ofDigitChars_ten_toDigits (n := d.digits)
  have hlength := List.length_pos_iff.2 hd.1
  have hself : d = ⟨d.digits, d.exponent⟩ := rfl
  simp only [Decimal.text, Decimal.written]
  generalize Nat.toDigits 10 d.digits = ds at hd hhead hvalue hlength ⊢
  generalize he : (ds.length : Int) + d.exponent - 1 = e
  by_cases hsci : e < -5 ∨ 15 < e
  · have hs : (if e < 0 then '-' else '+') = if decide (e < 0) = true then '-' else '+' := by simp
    rw [if_pos hsci, hs, if_neg (by omega)]
    obtain ⟨l, hv, hm, hl, ht⟩ := exists_scientific hd (digits_toDigits e.natAbs) (decide (e < 0))
    refine ⟨l, hv, hm, ?_, ht⟩
    rw [hl, hvalue, Nat.ofDigitChars_ten_toDigits, hself]
    congr 1
    simp only [decide_eq_true_eq]
    split <;> omega
  rw [if_neg hsci]
  by_cases hneg : e < 0
  · have hf : Digits (List.replicate (e.natAbs - 1) '0' ++ ds) :=
      ⟨by simp [hd.1], fun c hc =>
        (List.mem_append.1 hc).elim isDigit_replicate_zero (hd.2 c)⟩
    obtain ⟨l, hv, hm, hl, ht⟩ := exists_positional digits_zero hf (by simp)
    rw [if_pos hneg, if_neg (by omega)]
    refine ⟨l, hv, hm, ?_, by simpa using ht⟩
    rw [hl, show ['0'] ++ (List.replicate (e.natAbs - 1) '0' ++ ds) =
      List.replicate (e.natAbs - 1 + 1) '0' ++ ds by simp [List.replicate_succ],
      ofDigitChars_zeros_append, hvalue, hself]
    congr 1
    simp only [List.length_append, List.length_replicate]
    omega
  rw [if_neg hneg]
  by_cases hshort : ds.length ≤ e.toNat + 1
  · have hw := digits_append hd fun c (hc : c ∈ List.replicate (e.toNat + 1 - ds.length) '0') =>
      isDigit_replicate_zero hc
    obtain ⟨l, hv, hm, hl, ht⟩ := exists_positional hw digits_zero fun hc => by
      obtain ⟨c, cs, rfl⟩ := List.exists_cons_of_ne_nil hd.1
      exact absurd (by simpa using hc) hhead
    rw [if_pos hshort, if_pos (by omega)]
    refine ⟨l, hv, hm, ?_, by simpa using ht⟩
    rw [hl, List.append_assoc, show List.replicate (e.toNat + 1 - ds.length) '0' ++ ['0'] =
      List.replicate (d.exponent.toNat + 1) '0' by
        rw [List.replicate_succ', show e.toNat + 1 - ds.length = d.exponent.toNat by omega],
      ofDigitChars_append_zeros, hvalue,
      show ((d.exponent.toNat + 1 : Nat) : Int) = d.exponent + 1 by omega]
    rfl
  · have hsub : ∀ c ∈ ds, c.isDigit = true := hd.2
    have hw : Digits (ds.take (e.toNat + 1)) :=
      ⟨by simp [hd.1], fun x hx => hsub x (List.mem_of_mem_take hx)⟩
    have hf : Digits (ds.drop (e.toNat + 1)) :=
      ⟨fun h => hshort (List.drop_eq_nil_iff.1 h), fun x hx => hsub x (List.mem_of_mem_drop hx)⟩
    obtain ⟨l, hv, hm, hl, ht⟩ := exists_positional hw hf fun hc => by
      obtain ⟨c, cs, rfl⟩ := List.exists_cons_of_ne_nil hd.1
      exact absurd (by simpa using hc) hhead
    rw [if_neg hshort, if_neg (by omega)]
    refine ⟨l, hv, hm, ?_, ht⟩
    rw [hl, List.take_append_drop, hvalue, List.length_drop, hself]
    congr 1
    omega

/-! ## Reading the text of a double -/

/-- The double that the text of a double is read as. -/
def Double.reread? (x : Double) : Option Double :=
  match readNumber x.text with
  | some (.double y, _) => some y
  | _ => none

/-- The decimal that a double is written as. -/
def Double.written (x : Double) : Decimal :=
  if x.mantissa = 0 then ⟨0, -1⟩ else (Decimal.shortest x).written

/-- A literal with a fraction or an exponent is read as a double, from the digits that fit a
word. -/
theorem number?_marked (negative : Bool) {l : Literal} (h : l.Marked) :
    number? negative l.whole l.fraction l.exponentValue =
      doubleOf? negative (absorb (absorb 0 l.whole).1 (l.fraction.getD [])).1
        ((l.whole.length : Int) - (absorb 0 l.whole).2 -
          (absorb (absorb 0 l.whole).1 (l.fraction.getD [])).2 + l.exponentValue.getD 0) := by
  unfold number?
  cases hf : l.fraction with
  | some ds => rfl
  | none =>
    cases he : l.exponentValue with
    | some e => rfl
    | none =>
      rcases h with h | h
      · simp [hf] at h
      · simp only [Literal.exponentValue, Option.map_eq_none_iff] at he
        simp [he] at h

theorem number?_marked_of_lt (negative : Bool) {l : Literal} (h : l.Marked)
    (hlt : (l.decimal.digits : Int) < Word.unsignedBound) :
    number? negative l.whole l.fraction l.exponentValue =
      doubleOf? negative l.decimal.digits l.decimal.exponent := by
  simp only [Literal.decimal, Nat.ofDigitChars_append] at hlt ⊢
  have hle := le_ofDigitChars (l.fraction.getD []) (Nat.ofDigitChars 10 l.whole 0)
  have hwhole : absorb 0 l.whole = (Nat.ofDigitChars 10 l.whole 0, l.whole.length) :=
    absorb_eq (by omega)
  rw [number?_marked negative h, hwhole, absorb_eq hlt]
  congr 1
  simp only
  omega

theorem exists_literal_double (x : Double) :
    ∃ l : Literal, l.Valid ∧ l.Marked ∧ l.decimal = x.written ∧
      x.text = if x.negative then '-' :: l.chars else l.chars := by
  have hl : ∃ l : Literal, l.Valid ∧ l.Marked ∧ l.decimal = x.written ∧
      (if x.mantissa = 0 then ['0', '.', '0'] else (Decimal.shortest x).text) = l.chars := by
    unfold Double.written
    split
    · exact exists_positional digits_zero digits_zero (by simp)
    · next hx => exact exists_literal_text (digits_shortest hx)
  obtain ⟨l, hv, hm, hd, ht⟩ := hl
  exact ⟨l, hv, hm, hd, by simp only [Double.text, ht]⟩

theorem Literal.Valid.readNumber_chars {l : Literal} (hl : l.Valid) {rest : List Char}
    (hr : NumberEnds rest) (negative : Bool) :
    readNumber ((if negative then '-' :: l.chars else l.chars) ++ rest) =
      (number? negative l.whole l.fraction l.exponentValue).map (·, rest) := by
  cases negative with
  | true => exact readUnsignedNumber_chars hl hr true
  | false =>
    have hread := readUnsignedNumber_chars hl hr false
    obtain ⟨d, ds, hd⟩ := List.exists_cons_of_ne_nil hl.whole.1
    have hdig := hl.whole.2 d (by simp [hd])
    simp only [Bool.false_eq_true, if_false]
    unfold readNumber
    split
    · next heq =>
      simp only [Literal.chars, hd, List.cons_append] at heq
      obtain ⟨rfl, -⟩ := List.cons.inj heq
      exact absurd hdig (by decide)
    · exact hread

/-- The text of a double is read as the number that its literal stands for. -/
theorem exists_literal_readNumber (x : Double) : ∃ l : Literal, l.Marked ∧ l.decimal = x.written ∧
    ∀ rest, NumberEnds rest → readNumber (x.text ++ rest) =
      (number? x.negative l.whole l.fraction l.exponentValue).map (·, rest) := by
  obtain ⟨l, hv, hm, hd, ht⟩ := exists_literal_double x
  exact ⟨l, hm, hd, fun rest hr => by rw [ht, hv.readNumber_chars hr]⟩

theorem reread?_eq_of_number? {x : Double} {n : Option Number} {r : Option Double}
    (hread : readNumber (x.text ++ []) = n.map (·, [])) (hn : n = r.map .double) :
    x.reread? = r := by
  rw [List.append_nil] at hread
  simp only [Double.reread?, hread, hn]
  cases r <;> rfl

/-- **The text of a double is read to its end, and as a double.** -/
theorem readNumber_text (x : Double) {rest : List Char} (hr : NumberEnds rest) :
    readNumber (x.text ++ rest) = x.reread?.map fun y => (.double y, rest) := by
  obtain ⟨l, hm, -, hread⟩ := exists_literal_readNumber x
  have hn := number?_marked x.negative hm
  rw [doubleOf?, ← Function.comp_def, ← Option.map_map] at hn
  rw [hread rest hr, reread?_eq_of_number? (hread [] trivial) hn, hn, Option.map_map]
  rfl

/-- What a double is read as, if its digits fit a word. -/
theorem Double.reread?_eq {x : Double} (h : (x.written.digits : Int) < Word.unsignedBound) :
    x.reread? = (Double.ofDecimal? x.written.digits x.written.exponent).map
      (Double.ofPlace x.negative) := by
  obtain ⟨l, hm, hd, hread⟩ := exists_literal_readNumber x
  have hn := number?_marked_of_lt x.negative hm (hd ▸ h)
  rw [doubleOf?, ← Function.comp_def, ← Option.map_map, hd] at hn
  exact reread?_eq_of_number? (hread [] trivial) hn

end CoinRelay.Json
