import CoinRelay.Proofs.Json.DoubleLiteral
import CoinRelay.Proofs.Json.Drift
import CoinRelay.Proofs.Json.Shortest
import Mathlib

/-! # The decimal in the text of a double

The text of a double has at most seventeen digits that count, and the double is nearest to what it
says (`Double.written_spec`). Either reading rounds the digits to themselves, or they lie next to
the double, in a power of ten that only depends on the powers of two and of ten that the double
lies between (`Double.Inside.written_cases`). -/

namespace CoinRelay.Json

open Double (valueAt gapAt Nearest Beside ratio rounded)

/-! ## The decimal in the text -/

namespace Decimal

theorem value_stripZeros (fuel : ℕ) (d : Decimal) : (stripZeros fuel d).value = d.value := by
  obtain ⟨j, hdigits, hexponent⟩ := stripZeros_spec fuel d
  rw [value, value, hexponent, ← hdigits, ← ten_pow_mul_zpow]
  push_cast
  ring

theorem length_toDigits_bounds {n : ℕ} (h : 0 < n) : ∃ l, (Nat.toDigits 10 n).length = l + 1 ∧
    10 ^ l ≤ n ∧ n < 10 ^ (l + 1) := by
  obtain ⟨l, hl⟩ := Nat.exists_eq_succ_of_ne_zero (Nat.length_toDigits_pos (b := 10) (n := n)).ne'
  refine ⟨l, hl, ?_, (Nat.length_toDigits_le_iff (by norm_num) l.succ_pos).1 hl.le⟩
  by_contra hlt
  rcases Nat.eq_zero_or_pos l with rfl | hpos
  · omega
  · have := (Nat.length_toDigits_le_iff (by norm_num) hpos).2 (not_le.1 hlt)
    omega

/-- A decimal is written as it is, unless it is a whole number with at most sixteen digits. -/
theorem written_cases {d : Decimal} (hd : 0 < d.digits) :
    (∃ v : ℕ, d.value = v ∧ v < 10 ^ 16 ∧ d.written = ⟨10 * v, -1⟩) ∨
      (d.written = d ∧ (0 ≤ d.exponent → 10 ^ 16 ≤ d.value)) := by
  obtain ⟨l, hl, hlow, hhigh⟩ := length_toDigits_bounds hd
  have hwhole : ∀ e : ℕ, d.exponent = e → d.value = (d.digits * 10 ^ e : ℕ) := by
    intro e he
    rw [value, he, zpow_natCast]
    push_cast
    rfl
  unfold written
  rw [hl]
  split
  · next h =>
    obtain ⟨e, he⟩ := Int.eq_ofNat_of_zero_le h.1
    refine .inl ⟨d.digits * 10 ^ e, hwhole e he, ?_, ?_⟩
    · calc d.digits * 10 ^ e < 10 ^ (l + 1) * 10 ^ e :=
            Nat.mul_lt_mul_of_pos_right hhigh (by positivity)
        _ = 10 ^ (l + 1 + e) := (pow_add ..).symm
        _ ≤ 10 ^ 16 := Nat.pow_le_pow_right (by norm_num) (by omega)
    · rw [he, show power 10 ((e : ℤ) + 1) = 10 ^ (e + 1) from rfl, pow_succ]
      congr 1
      ring
  · next h =>
    refine .inr ⟨rfl, fun hnonneg => ?_⟩
    obtain ⟨e, he⟩ := Int.eq_ofNat_of_zero_le hnonneg
    have hle : 10 ^ 16 ≤ d.digits * 10 ^ e := by
      calc 10 ^ 16 ≤ 10 ^ (l + e) := Nat.pow_le_pow_right (by norm_num) (by omega)
        _ = 10 ^ l * 10 ^ e := pow_add ..
        _ ≤ d.digits * 10 ^ e := Nat.mul_le_mul_right _ hlow
    rw [hwhole e he]
    exact_mod_cast hle

section
variable {x : Double} {n : ℕ} {d : Decimal} (hd : Hit x n d) (hn : n < 17)
include hd

theorem Hit.value_le : d.value ≤ 10 ^ scale x := by
  have hupper : (d.digits : ℚ) ≤ 10 ^ (n + 1) := by exact_mod_cast hd.upper
  calc d.value ≤ 10 ^ (n + 1) * 10 ^ d.exponent :=
        mul_le_mul_of_nonneg_right hupper (by positivity)
    _ = 10 ^ scale x := by
      rw [ten_pow_mul_zpow, hd.exponent]
      congr 1
      push_cast
      ring

theorem Hit.le_value : 10 ^ (scale x - 1) ≤ d.value := by
  have hlower : (10 : ℚ) ^ n ≤ d.digits := by exact_mod_cast hd.lower
  calc (10 : ℚ) ^ (scale x - 1) = 10 ^ n * 10 ^ d.exponent := by
        rw [ten_pow_mul_zpow, hd.exponent, sub_add_cancel]
    _ ≤ d.value := mul_le_mul_of_nonneg_right hlower (by positivity)

/-- Whole numbers with sixteen digits. -/
theorem Hit.scale_eq {v : ℕ} (hv : d.value = v) (hlow : 10 ^ 15 < v) (hhigh : v < 10 ^ 16) :
    scale x = 16 := by
  have hle := hd.value_le
  have hge := hd.le_value
  rw [hv] at hle hge
  have h15 : (10 : ℚ) ^ (15 : ℤ) < 10 ^ scale x := by
    refine lt_of_lt_of_le ?_ hle
    exact_mod_cast hlow
  have h16 : (10 : ℚ) ^ (scale x - 1) < 10 ^ (16 : ℤ) := by
    refine lt_of_le_of_lt hge ?_
    exact_mod_cast hhigh
  rw [zpow_lt_zpow_iff_right₀ (by norm_num)] at h15 h16
  omega

theorem Hit.digits_stripZeros_pos : 0 < (stripZeros 17 d).digits := by
  obtain ⟨j, hdigits, -⟩ := stripZeros_spec 17 d
  refine Nat.pos_of_ne_zero fun h => ?_
  have hlower := hd.lower
  rw [← hdigits, h, zero_mul] at hlower
  exact absurd hlower (not_le.2 (by positivity))

include hn

theorem Hit.digits_stripZeros_le : (stripZeros 17 d).digits ≤ 10 ^ 17 := by
  obtain ⟨j, hdigits, -⟩ := stripZeros_spec 17 d
  calc (stripZeros 17 d).digits ≤ (stripZeros 17 d).digits * 10 ^ j :=
        Nat.le_mul_of_pos_right _ (by positivity)
    _ ≤ 10 ^ (n + 1) := hdigits.trans_le hd.upper
    _ ≤ 10 ^ 17 := Nat.pow_le_pow_right (by norm_num) (by omega)

end

end Decimal

/-- The text of a double has at most seventeen digits in front of its last zero, and the double is
nearest to what it says. -/
theorem Double.written_spec {x : Double} (hx : 0 < x.magnitude) : 0 < x.written.digits ∧
    x.written.digits ≤ 10 ^ 17 ∧ Nearest x.written.value x.place := by
  obtain ⟨n, hn, d, hshort, hd⟩ := Decimal.exists_hit hx
  have hvalue := Decimal.value_stripZeros 17 d
  have hpos := hd.digits_stripZeros_pos
  have hnearest := hd.nearest
  rw [Double.written, if_neg (Double.mantissa_pos hx).ne', hshort]
  rcases Decimal.written_cases hpos with ⟨v, hv, hlt, hw⟩ | ⟨hw, -⟩
  · have hv' : (⟨10 * v, -1⟩ : Decimal).value = v := by
      rw [Decimal.value]
      push_cast
      ring
    have hvpos : (0 : ℚ) < v := by
      rw [← hv, Decimal.value]
      positivity
    rw [hw, hv', ← hv, hvalue]
    refine ⟨?_, by simp only; omega, hnearest⟩
    have : 0 < v := by exact_mod_cast hvpos
    simp only
    omega
  · rw [hw, hvalue]
    exact ⟨hpos, hd.digits_stripZeros_le hn, hnearest⟩

/-! ## Doubles between powers of two -/

/-- The double lies strictly between two powers of two: it is `j` times the gap there. -/
structure Double.Inside (x : Double) (b j : ℕ) : Prop where
  place : x.place = b * 2 ^ 52 + j
  lower : 2 ^ 52 < j
  upper : j < 2 ^ 53

namespace Double.Inside

section
variable {x : Double} {b j : ℕ} (h : Inside x b j)
include h

theorem magnitude_eq : x.magnitude = j * 2 ^ ((b : ℤ) - 1074) := by
  rw [magnitude, h.place, valueAt_add (.inr h.lower.le) h.upper.le]

theorem magnitude_pos : 0 < x.magnitude := by
  have hj : (0 : ℚ) < j := by exact_mod_cast (show 0 < j by have := h.lower; omega)
  rw [h.magnitude_eq]
  positivity

theorem narrowBelow : x.narrowBelow = false := by
  have := h.place
  have := h.lower
  have := h.upper
  rw [Bool.eq_false_iff, ne_eq, narrowBelow_eq_true]
  omega

theorem gaps {p : ℕ} (hp : p + 1 = x.place) :
    gapAt p + gapAt x.place = 2 * 2 ^ ((b : ℤ) - 1074) := by
  rw [gapAt_pred hp, h.narrowBelow, h.place, gapAt_add (.inr h.lower.le) h.upper]
  simp only [Bool.false_eq_true, if_false]
  ring

/-- Digits that a double is nearest to and that are not exact for sure are counted in a unit smaller
than the gap. -/
theorem one_lt_ratio {m : ℕ} {e : ℤ} (hn : Nearest (m * 10 ^ e) x.place) (hm : 2 ^ 53 < m) :
    1 < ratio b e := by
  rw [h.place] at hn
  have hmid := hn.le_mid le_rfl
  rw [mid_div h.lower.le h.upper] at hmid
  have hmq : (2 : ℚ) ^ 53 + 1 ≤ m := by exact_mod_cast hm
  have hj : (j : ℚ) + 1 ≤ 2 ^ 53 := by exact_mod_cast h.upper
  by_contra hle
  nlinarith

end

end Double.Inside

/-- The power of ten that digits are counted in, if they are not exact for sure, for doubles below
`10 ^ k` in a range between powers of two. -/
def Decimal.step (k : ℤ) (b : ℕ) : ℤ := if k = 16 ∨ ratio b (k - 16) ≤ 1 then k - 17 else k - 16

namespace Decimal

section
variable {x : Double} {b j n : ℕ} {d : Decimal} (hx : x.Inside b j) (hd : Hit x n d) (hn : n < 17)
include hx hd hn

/-- So many digits have no zeros at the end that could go. -/
theorem Hit.stripZeros_eq (hm : 2 ^ 53 < (stripZeros 17 d).digits) : stripZeros 17 d = d ∧
    (d.exponent = scale x - 16 ∧ 1 < ratio b (scale x - 16) ∨
      d.exponent = scale x - 17 ∧ ratio b (scale x - 16) ≤ 1) := by
  obtain ⟨i, hdigits, hexponent⟩ := stripZeros_spec 17 d
  obtain ⟨p, hp⟩ := Double.exists_pred hx.magnitude_pos
  have hnearest := hd.nearest
  rw [← value_stripZeros 17] at hnearest
  have hratio := hx.one_lt_ratio hnearest hm
  have hfirst : n = 16 → ratio b (scale x - 16) ≤ 1 := by
    rintro rfl
    have hgaps := gaps_le_of_onGrid?_eq_none hx.magnitude_pos hp (hd.first 15 (by norm_num))
    rw [hx.gaps hp, show scale x - 1 - (15 : ℕ) = scale x - 16 by push_cast; ring] at hgaps
    rw [ratio, zpow_neg, ← div_eq_mul_inv, div_le_one (by positivity)]
    linarith
  have hlt : 15 + i < n + 1 := by
    rw [← Nat.pow_lt_pow_iff_right (show 1 < 10 by norm_num), pow_add]
    calc 10 ^ 15 * 10 ^ i < (stripZeros 17 d).digits * 10 ^ i :=
          Nat.mul_lt_mul_of_pos_right ((by norm_num : 10 ^ 15 < 2 ^ 53).trans hm) (by positivity)
      _ ≤ 10 ^ (n + 1) := hdigits.trans_le hd.upper
  have hexp := hd.exponent
  obtain rfl : i = 0 := by
    by_contra hi
    have hstep : (stripZeros 17 d).exponent = scale x - 16 := by omega
    rw [hstep] at hratio
    exact absurd hratio (not_lt.2 (hfirst (by omega)))
  have hself : stripZeros 17 d = d := by
    rw [pow_zero, mul_one] at hdigits
    rw [Nat.cast_zero, add_zero] at hexponent
    cases hs : stripZeros 17 d
    cases d
    simp_all
  refine ⟨hself, ?_⟩
  rw [hself] at hratio
  obtain rfl | rfl : n = 15 ∨ n = 16 := by omega
  · have hstep : d.exponent = scale x - 16 := by omega
    exact .inl ⟨hstep, hstep ▸ hratio⟩
  · exact .inr ⟨by omega, hfirst rfl⟩

omit hn in
/-- A whole number with at most sixteen digits is written for the double that it is. -/
theorem Hit.magnitude_eq {v : ℕ} (hv : d.value = v) (hlt : v < 10 ^ 16) : x.magnitude = v := by
  have hnearest := hd.nearest
  rw [hv] at hnearest
  have hexact : ∀ {p}, valueAt p = v → x.magnitude = v := by
    intro p hp
    have hself := Double.nearest_valueAt p
    rw [hp] at hself
    rw [Double.magnitude, hnearest.unique hself, hp]
  rcases le_or_gt v (2 ^ 53) with hsmall | hlarge
  · obtain ⟨p, hp⟩ := Double.exists_place hsmall 0
    exact hexact (by simpa using hp)
  rcases Nat.even_or_odd v with ⟨i, rfl⟩ | hodd
  · obtain ⟨p, hp⟩ := Double.exists_place (k := i) (by omega) 1
    refine hexact (p := p) ?_
    rw [hp]
    push_cast
    ring
  -- an odd number behind `2 ^ 53` is no double, but then the double is a whole number next to it
  · have hvalue : valueAt (1074 * 2 ^ 52 + 2 ^ 53) = 2 ^ 53 := by
      rw [Double.valueAt_add (.inr (by norm_num)) le_rfl]
      norm_num
    have hplace := hnearest.ge_of_ge (p := 1074 * 2 ^ 52 + 2 ^ 53) (by
      rw [hvalue]
      exact_mod_cast hlarge.le)
    have hb : 1074 ≤ b := by
      have := hx.place
      have := hx.upper
      omega
    obtain ⟨c, rfl⟩ := Nat.exists_eq_add_of_le hb
    have hmag : x.magnitude = (j * 2 ^ c : ℕ) := by
      rw [hx.magnitude_eq, show ((1074 + c : ℕ) : ℤ) - 1074 = c by push_cast; ring, zpow_natCast]
      push_cast
      rfl
    have hexp : d.exponent ≤ 0 := by
      by_contra hpos
      obtain ⟨e, he⟩ : ∃ e : ℕ, d.exponent = (e + 1 : ℕ) := ⟨d.exponent.toNat - 1, by omega⟩
      have hten : d.digits * 10 ^ (e + 1) = v := by
        rw [value, he, zpow_natCast] at hv
        exact_mod_cast hv
      have heven : Even (d.digits * 10 ^ (e + 1)) :=
        ((by decide : Even 10).pow_of_ne_zero e.succ_ne_zero).mul_left _
      rw [hten] at heven
      exact Nat.not_even_iff_odd.2 hodd heven
    have hclose := hd.close hx.narrowBelow
    have hone : (10 : ℚ) ^ d.exponent ≤ 1 := zpow_le_one_of_nonpos₀ (by norm_num) hexp
    rw [hv, hmag] at hclose
    have hdist : |((v : ℤ) : ℚ) - ((j * 2 ^ c : ℕ) : ℤ)| < 1 := by
      push_cast at hclose ⊢
      linarith
    have : |(v : ℤ) - (j * 2 ^ c : ℕ)| < 1 := by exact_mod_cast hdist
    rw [hmag]
    have := Int.abs_lt_one_iff.1 this
    congr 1
    omega

omit hn in
theorem Hit.beside (hmany : 2 ^ 53 < d.digits) (hupper : d.digits ≤ 10 ^ 17) :
    Beside x.place d.digits d.exponent := by
  refine ⟨?_, hmany, hupper⟩
  have hclose := hd.close hx.narrowBelow
  have hpos : (0 : ℚ) < 10 ^ d.exponent := by positivity
  rw [value, Double.magnitude] at hclose
  rw [← mul_div_cancel_right₀ (d.digits : ℚ) hpos.ne', ← sub_div, abs_div, abs_of_pos hpos,
    div_le_iff₀ hpos]
  linarith

omit hn in
/-- A whole number is written with one digit behind the point. -/
theorem Hit.beside_whole {v : ℕ} (hv : d.value = v) (hlow : 2 ^ 53 < 10 * v) (hhigh : v < 10 ^ 16) :
    Beside x.place (10 * v) (-1) := by
  refine ⟨?_, hlow, by omega⟩
  have hmag := hd.magnitude_eq hx hv hhigh
  rw [Double.magnitude] at hmag
  rw [hmag, zpow_neg_one, div_inv_eq_mul]
  push_cast
  rw [mul_comm, sub_self, abs_zero]
  norm_num

end

theorem rounded_eq {k : ℕ} (i : ℕ) (hk : k ≤ 2 ^ 53) : rounded (k * 2 ^ i) = (k * 2 ^ i : ℕ) := by
  rw [Double.rounded_mul_two_pow hk]
  push_cast
  rfl

end Decimal

/-- Either the digits in the text are exact, or they lie next to the double and their power of ten
only depends on its powers of two and of ten. -/
theorem Double.Inside.written_cases {x : Double} {b j : ℕ} (hx : x.Inside b j) :
    rounded x.written.digits = x.written.digits ∨
      (Beside x.place x.written.digits x.written.exponent ∧
        x.written.exponent = Decimal.step (Decimal.scale x) b) := by
  obtain ⟨n, hn, d, hshort, hd⟩ := Decimal.exists_hit hx.magnitude_pos
  have hvalue := Decimal.value_stripZeros 17 d
  obtain ⟨-, hupper, -⟩ := Double.written_spec hx.magnitude_pos
  rw [Double.written, if_neg (Double.mantissa_pos hx.magnitude_pos).ne', hshort] at hupper ⊢
  rcases Decimal.written_cases hd.digits_stripZeros_pos with ⟨v, hv, hlt, hw⟩ | ⟨hw, hlarge⟩
  · rw [hvalue] at hv
    rw [hw]
    simp only
    rcases le_or_gt (5 * v) (2 ^ 53) with hfew | hmany
    · left
      have := Decimal.rounded_eq 1 hfew
      rwa [show 5 * v * 2 ^ 1 = 10 * v by ring] at this
    · right
      have hscale := hd.scale_eq hv (by omega) hlt
      exact ⟨hd.beside_whole hx hv (by omega) hlt, by simp [Decimal.step, hscale]⟩
  rw [hw] at hupper ⊢
  rcases le_or_gt (Decimal.stripZeros 17 d).digits (2 ^ 53) with hfew | hmany
  · left
    simpa using Decimal.rounded_eq 0 hfew
  obtain ⟨hself, hstep⟩ := hd.stripZeros_eq hx hn hmany
  rw [hself] at hmany hupper hlarge ⊢
  have hbeside := hd.beside hx hmany hupper
  rcases hstep with ⟨hexp, hratio⟩ | ⟨hexp, hratio⟩
  · by_cases hscale : Decimal.scale x = 16
    · -- a whole number with seventeen digits below `10 ^ 16`: there is only one
      left
      have hzero : d.exponent = 0 := by omega
      have hge := hlarge hzero.ge
      have hle := hd.value_le
      rw [Decimal.value, hzero, zpow_zero, mul_one] at hge hle
      rw [hscale] at hle
      have hten : d.digits = 10 ^ 16 := by
        refine le_antisymm ?_ ?_
        · exact_mod_cast hle
        · exact_mod_cast hge
      rw [hten, rounded_ten_pow (by norm_num)]
      push_cast
      rfl
    · right
      refine ⟨hbeside, ?_⟩
      rw [hexp, Decimal.step, if_neg]
      exact fun h => h.elim hscale (not_le.2 hratio)
  · right
    refine ⟨hbeside, ?_⟩
    rw [hexp, Decimal.step, if_pos (.inr hratio)]

end CoinRelay.Json
