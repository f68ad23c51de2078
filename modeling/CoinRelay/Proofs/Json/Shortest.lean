import CoinRelay.Json.Decimal
import CoinRelay.Proofs.Json.Scaling
import Mathlib

/-! # Shortest decimals

A decimal reads back as a double exactly if the double is nearest to it (`readsBack_iff`). The
shortest one is found on the coarsest power of ten that has such a decimal, next to the double, and
the seventeenth digit always has one. -/

namespace CoinRelay.Json

open Double (valueAt gapAt Nearest)

namespace Decimal

/-- The number that a decimal stands for. -/
def value (d : Decimal) : ℚ := d.digits * 10 ^ d.exponent

theorem value_eq (d : Decimal) : d.digits * 10 ^ d.exponent = d.value := rfl

theorem value_floor (n : ℕ) (g : ℤ) : (⟨n, g⟩ : Decimal).value = n * 10 ^ g := rfl

theorem value_ceil (n : ℕ) (g : ℤ) : (⟨n + 1, g⟩ : Decimal).value = (n + 1) * 10 ^ g := by
  simp [value]

theorem compareScaled_lt {a b : ℕ} {i j : ℤ} :
    compareScaled a i b j = .lt ↔ (a : ℚ) * 10 ^ i < b * 2 ^ j := by
  have h10 : (0 : ℚ) < power 10 (-i) := by exact_mod_cast power_pos (show 0 < 10 by norm_num) (-i)
  have h2 : (0 : ℚ) < power 2 (-j) := by exact_mod_cast power_pos two_pos (-j)
  rw [compareScaled, Nat.compare_eq_lt, ten_zpow, two_zpow, ← mul_div_assoc, ← mul_div_assoc,
    div_lt_div_iff₀ h10 h2]
  exact_mod_cast Iff.rfl

theorem compareScaled_gt {a b : ℕ} {i j : ℤ} :
    compareScaled a i b j = .gt ↔ (b : ℚ) * 2 ^ j < a * 10 ^ i := by
  have h10 : (0 : ℚ) < power 10 (-i) := by exact_mod_cast power_pos (show 0 < 10 by norm_num) (-i)
  have h2 : (0 : ℚ) < power 2 (-j) := by exact_mod_cast power_pos two_pos (-j)
  rw [compareScaled, Nat.compare_eq_gt, ten_zpow, two_zpow, ← mul_div_assoc, ← mul_div_assoc,
    div_lt_div_iff₀ h2 h10]
  exact_mod_cast Iff.rfl

theorem compareScaled_eq {a b : ℕ} {i j : ℤ} :
    compareScaled a i b j = .eq ↔ (a : ℚ) * 10 ^ i = b * 2 ^ j := by
  have h10 : (power 10 (-i) : ℚ) ≠ 0 := by
    exact_mod_cast (power_pos (show 0 < 10 by norm_num) (-i)).ne'
  have h2 : (power 2 (-j) : ℚ) ≠ 0 := by exact_mod_cast (power_pos two_pos (-j)).ne'
  rw [compareScaled, Nat.compare_eq_eq, ten_zpow, two_zpow, ← mul_div_assoc, ← mul_div_assoc,
    div_eq_div_iff h10 h2]
  exact_mod_cast Iff.rfl

end Decimal

namespace Double

theorem narrowBelow_eq_true {x : Double} :
    x.narrowBelow = true ↔ x.place % 2 ^ 52 = 0 ∧ 2 ^ 53 ≤ x.place := by
  simp only [narrowBelow, Bool.and_eq_true, beq_iff_eq, decide_eq_true_eq]
  rfl

/-- The gap below a double is the one above it, or half of that. -/
theorem gapAt_pred {x : Double} {p : ℕ} (hp : p + 1 = x.place) :
    gapAt p = if x.narrowBelow then gapAt x.place / 2 else gapAt x.place := by
  have h52 : power 2 52 = 2 ^ 52 := rfl
  have hpred : exponentAt p =
      if x.narrowBelow then exponentAt x.place - 1 else exponentAt x.place := by
    unfold exponentAt
    rw [← hp, h52]
    split <;> split <;> split <;> simp only [narrowBelow_eq_true, ← hp] at * <;> omega
  unfold gapAt
  rw [hpred]
  split
  · rw [zpow_sub_one₀ two_ne_zero, div_eq_mul_inv]
  · rfl

/-- Halfway to the magnitude below. -/
theorem lowMid_eq {x : Double} {p : ℕ} (hp : p + 1 = x.place) :
    ((if x.narrowBelow then 4 * x.mantissa - 1 else 4 * x.mantissa - 2 : ℕ) : ℚ) *
      2 ^ (x.exponent - 2) = (valueAt p + x.magnitude) / 2 := by
  have hm : 0 < x.mantissa := by
    refine mantissa_pos ?_
    rw [magnitude, ← hp]
    exact valueAt_pos p.succ_pos
  have hvalue : x.magnitude = valueAt p + gapAt p := by rw [magnitude, ← hp, valueAt_succ]
  have hgap : x.magnitude = x.mantissa * gapAt x.place := rfl
  rw [show valueAt p = x.magnitude - gapAt p by rw [hvalue]; ring, gapAt_pred hp, hgap,
    zpow_sub₀ two_ne_zero, show (2 : ℚ) ^ x.exponent = gapAt x.place from rfl]
  split
  · rw [Nat.cast_sub (by omega)]
    push_cast
    ring
  · rw [Nat.cast_sub (by omega)]
    push_cast
    ring

/-- Halfway to the magnitude above. -/
theorem highMid_eq (x : Double) : ((4 * x.mantissa + 2 : ℕ) : ℚ) * 2 ^ (x.exponent - 2) =
    (x.magnitude + valueAt (x.place + 1)) / 2 := by
  have hgap : x.magnitude = x.mantissa * gapAt x.place := rfl
  rw [valueAt_succ, ← magnitude, hgap, zpow_sub₀ two_ne_zero,
    show (2 : ℚ) ^ x.exponent = gapAt x.place from rfl]
  push_cast
  ring

end Double

namespace Decimal

/-- **A decimal reads back as a double exactly if the double is nearest to it.** -/
theorem readsBack_iff {x : Double} (hx : 0 < x.magnitude) {d : Decimal} :
    d.readsBack x = true ↔ Nearest d.value x.place := by
  obtain ⟨p, hp⟩ := Double.exists_pred hx
  have heven : x.mantissa % 2 = 0 ↔ Even x.place := by
    rw [← Nat.even_iff]
    exact Double.even_mantissaAt x.place
  have hlow := Double.lowMid_eq hp
  have hhigh := Double.highMid_eq x
  rw [Double.nearest_succ_iff hp, ← Double.magnitude]
  simp only [readsBack, Bool.and_eq_true, Bool.or_eq_true, beq_iff_eq, compareScaled_gt,
    compareScaled_eq, compareScaled_lt, hlow, hhigh, heven, value_eq]
  rw [div_lt_iff₀ two_pos, lt_div_iff₀ two_pos, eq_div_iff two_ne_zero, eq_div_iff two_ne_zero,
    mul_comm 2, eq_comm (a := d.value * 2), and_comm (a := Even x.place),
    and_comm (a := Even x.place)]

/-! ## Multiples of a power of ten -/

theorem floorOn_bounds (x : Double) (g : ℤ) :
    floorOn x g * (10 : ℚ) ^ g ≤ x.magnitude ∧ x.magnitude < (floorOn x g + 1) * 10 ^ g := by
  have h10 : ∀ e, (0 : ℚ) < power 10 e := fun e => by
    exact_mod_cast power_pos (show 0 < 10 by norm_num) e
  have h2 : ∀ e, (0 : ℚ) < power 2 e := fun e => by exact_mod_cast power_pos two_pos e
  have hmag : x.magnitude = x.mantissa * (power 2 x.exponent / power 2 (-x.exponent)) := by
    rw [← two_zpow]
    rfl
  have hd : 0 < power 2 (-x.exponent) * power 10 g :=
    Nat.mul_pos (power_pos two_pos _) (power_pos (by norm_num) _)
  have hle := Nat.div_mul_le_self (x.mantissa * power 2 x.exponent * power 10 (-g))
    (power 2 (-x.exponent) * power 10 g)
  have hlt := Nat.lt_mul_div_succ (x.mantissa * power 2 x.exponent * power 10 (-g)) hd
  rw [← floorOn] at hle hlt
  rw [ten_zpow, hmag, ← mul_div_assoc, ← mul_div_assoc, ← mul_div_assoc]
  constructor
  · rw [div_le_div_iff₀ (h10 _) (h2 _)]
    have : (floorOn x g * (power 2 (-x.exponent) * power 10 g) : ℚ) ≤
        x.mantissa * power 2 x.exponent * power 10 (-g) := by exact_mod_cast hle
    linarith
  · rw [div_lt_div_iff₀ (h2 _) (h10 _)]
    have : (x.mantissa * power 2 x.exponent * power 10 (-g) : ℚ) <
        power 2 (-x.exponent) * power 10 g * (floorOn x g + 1) := by exact_mod_cast hlt
    linarith

theorem upperIsNearer_eq_true {x : Double} {n : ℕ} {g : ℤ} (h : upperIsNearer x n g = true) :
    (2 * n + 1) * (10 : ℚ) ^ g ≤ 2 * x.magnitude := by
  unfold upperIsNearer at h
  split at h
  · next hc =>
    have := compareScaled_lt.1 hc
    push_cast at this
    linarith [x.magnitude_eq]
  · cases h
  · next hc =>
    have := compareScaled_eq.1 hc
    push_cast at this
    linarith [x.magnitude_eq]

theorem upperIsNearer_eq_false {x : Double} {n : ℕ} {g : ℤ} (h : upperIsNearer x n g = false) :
    2 * x.magnitude ≤ (2 * n + 1) * (10 : ℚ) ^ g := by
  unfold upperIsNearer at h
  split at h
  · cases h
  · next hc =>
    have := compareScaled_gt.1 hc
    push_cast at this
    linarith [x.magnitude_eq]
  · next hc =>
    have := compareScaled_eq.1 hc
    push_cast at this
    linarith [x.magnitude_eq]

section
variable {x : Double} (hx : 0 < x.magnitude) {g : ℤ}
include hx

theorem onGrid?_eq_some {d : Decimal} (h : onGrid? x g = some d) : d.exponent = g ∧
    Nearest d.value x.place ∧ (x.narrowBelow = false → 2 * |d.value - x.magnitude| ≤ 10 ^ g) := by
  obtain ⟨hfloor, hceil⟩ := floorOn_bounds x g
  obtain ⟨p, hp⟩ := Double.exists_pred hx
  have hpos : (0 : ℚ) < 10 ^ g := by positivity
  have hlower := value_floor (floorOn x g) g
  have hupper := value_ceil (floorOn x g) g
  -- both gaps are the same, so the nearer multiple reads back if one of the two does
  have hgap : x.narrowBelow = false → gapAt p = gapAt x.place := fun hn => by
    simpa [hn] using Double.gapAt_pred hp
  unfold onGrid? at h
  simp only at h
  split at h
  · next hl hu =>
    split at h
    · next hnear =>
      cases h
      refine ⟨rfl, (readsBack_iff hx).1 hu, fun _ => ?_⟩
      have := upperIsNearer_eq_true hnear
      rw [hupper, abs_of_nonneg (by linarith)]
      linarith
    · next hnear =>
      cases h
      refine ⟨rfl, (readsBack_iff hx).1 hl, fun _ => ?_⟩
      have := upperIsNearer_eq_false (Bool.eq_false_of_not_eq_true hnear)
      rw [hlower, abs_of_nonpos (by linarith)]
      linarith
  · next hl hu =>
    cases h
    have hn := (readsBack_iff hx).1 hl
    refine ⟨rfl, hn, fun hnarrow => ?_⟩
    by_contra hfar
    have hbetween := (hn.between hp).1
    have hgappos := Double.gapAt_pos p
    rw [← Double.magnitude, hlower] at hbetween
    rw [hlower, abs_of_nonpos (by linarith)] at hfar
    refine absurd ((readsBack_iff hx).2 (Double.nearest_of_between hp ?_ ?_))
      (Bool.eq_false_iff.1 hu)
    · rw [← Double.magnitude, hupper]
      linarith
    · rw [← Double.magnitude, hupper, ← hgap hnarrow]
      linarith
  · next hl hu =>
    cases h
    have hn := (readsBack_iff hx).1 hu
    refine ⟨rfl, hn, fun hnarrow => ?_⟩
    by_contra hfar
    have hbetween := (hn.between hp).2
    have hgappos := Double.gapAt_pos x.place
    rw [← Double.magnitude, hupper, ← hgap hnarrow] at hbetween
    rw [hupper, abs_of_nonneg (by linarith)] at hfar
    refine absurd ((readsBack_iff hx).2 (Double.nearest_of_between hp ?_ ?_))
      (Bool.eq_false_iff.1 hl)
    · rw [← Double.magnitude, hlower]
      linarith
    · rw [← Double.magnitude, hlower]
      linarith
  · cases h

/-- Only a power of ten that is wide beside the gaps has no multiple that reads back. -/
theorem gaps_le_of_onGrid?_eq_none {p : ℕ} (hp : p + 1 = x.place) (h : onGrid? x g = none) :
    gapAt p + gapAt x.place ≤ 2 * 10 ^ g := by
  obtain ⟨hfloor, hceil⟩ := floorOn_bounds x g
  unfold onGrid? at h
  simp only at h
  split at h
  · split at h <;> cases h
  · cases h
  · cases h
  · next hl hu =>
    by_contra hwide
    have hgappos := Double.gapAt_pos p
    have hgappos' := Double.gapAt_pos x.place
    have hlower := value_floor (floorOn x g) g
    have hupper := value_ceil (floorOn x g) g
    by_cases hnear : x.magnitude - gapAt p / 2 < floorOn x g * 10 ^ g
    · refine absurd ((readsBack_iff hx).2 (Double.nearest_of_between hp ?_ ?_))
        (Bool.eq_false_iff.1 hl)
      · rwa [← Double.magnitude, hlower]
      · rw [← Double.magnitude, hlower]
        linarith
    · refine absurd ((readsBack_iff hx).2 (Double.nearest_of_between hp ?_ ?_))
        (Bool.eq_false_iff.1 hu)
      · rw [← Double.magnitude, hupper]
        linarith
      · rw [← Double.magnitude, hupper]
        linarith

end

/-! ## The number of digits -/

/-- The estimate of the decimal logarithm is right for all exponents of doubles. -/
theorem estimate_bounds : ∀ i ∈ List.range 2099,
    let l : ℤ := i - 1074
    let k : ℤ := l * 30103 / 100000 - 1
    power 10 k * power 2 (-l) ≤ power 2 l * power 10 (-k) ∧
      power 2 (l + 1) * power 10 (-(k + 4)) ≤ power 10 (k + 4) * power 2 (-(l + 1)) := by
  decide +kernel

theorem ten_zpow_le_two_zpow {i j : ℤ} :
    (10 : ℚ) ^ i ≤ 2 ^ j ↔ power 10 i * power 2 (-j) ≤ power 2 j * power 10 (-i) := by
  have h10 : (0 : ℚ) < power 10 (-i) := by exact_mod_cast power_pos (show 0 < 10 by norm_num) (-i)
  have h2 : (0 : ℚ) < power 2 (-j) := by exact_mod_cast power_pos two_pos (-j)
  rw [ten_zpow, two_zpow, div_le_div_iff₀ h10 h2]
  exact_mod_cast Iff.rfl

theorem two_zpow_le_ten_zpow {i j : ℤ} :
    (2 : ℚ) ^ j ≤ 10 ^ i ↔ power 2 j * power 10 (-i) ≤ power 10 i * power 2 (-j) := by
  have h10 : (0 : ℚ) < power 10 (-i) := by exact_mod_cast power_pos (show 0 < 10 by norm_num) (-i)
  have h2 : (0 : ℚ) < power 2 (-j) := by exact_mod_cast power_pos two_pos (-j)
  rw [ten_zpow, two_zpow, div_le_div_iff₀ h2 h10]
  exact_mod_cast Iff.rfl

/-- The binary logarithm of a double. -/
theorem log_bounds {x : Double} (hx : 0 < x.magnitude) :
    (2 : ℚ) ^ (x.exponent + x.mantissa.log2) ≤ x.magnitude ∧
      x.magnitude < 2 ^ (x.exponent + x.mantissa.log2 + 1) ∧
      ∃ i ∈ List.range 2099, x.exponent + x.mantissa.log2 = (i : ℤ) - 1074 := by
  have hm := Double.mantissa_pos hx
  have hlow : (2 : ℚ) ^ (x.mantissa.log2 : ℤ) ≤ x.mantissa := by
    exact_mod_cast Nat.log2_self_le hm.ne'
  have hhigh : (x.mantissa : ℚ) < 2 ^ ((x.mantissa.log2 : ℤ) + 1) := by
    exact_mod_cast Nat.lt_log2_self
  have hpos : (0 : ℚ) < 2 ^ x.exponent := by positivity
  refine ⟨?_, ?_, ?_⟩
  · rw [zpow_add₀ two_ne_zero, x.magnitude_eq, mul_comm]
    exact mul_le_mul_of_nonneg_right hlow hpos.le
  · rw [add_assoc, zpow_add₀ two_ne_zero, x.magnitude_eq, mul_comm]
    exact mul_lt_mul_of_pos_left hhigh hpos
  · obtain ⟨b, k, hn, hk, hk'⟩ := Double.exists_place_parts x.place
    obtain ⟨hmk, heb⟩ := Double.mantissaAt_add hk hk'
    rw [← hn] at hmk heb
    have hlt := x.place_lt
    have hlog : x.mantissa.log2 < 53 :=
      (Nat.log2_lt hm.ne').2 (by rw [Double.mantissa, hmk]; exact hk')
    refine ⟨b + x.mantissa.log2, List.mem_range.2 (by omega), ?_⟩
    rw [Double.exponent, heb]
    push_cast
    ring

/-- A double lies below the power of ten of its scale, and not below the one before. -/
theorem scale_bounds {x : Double} (hx : 0 < x.magnitude) :
    (10 : ℚ) ^ (scale x - 1) ≤ x.magnitude ∧ x.magnitude < 10 ^ scale x := by
  obtain ⟨hlow, hhigh, i, hi, hl⟩ := log_bounds hx
  obtain ⟨hest, hest'⟩ := estimate_bounds i hi
  rw [← ten_zpow_le_two_zpow] at hest
  rw [← two_zpow_le_ten_zpow] at hest'
  have habove : ∀ k : ℤ, compareScaled 1 k x.mantissa x.exponent = .gt ↔ x.magnitude < 10 ^ k := by
    intro k
    rw [compareScaled_gt, Nat.cast_one, one_mul, x.magnitude_eq]
  simp only [scale, hl]
  generalize ((i : ℤ) - 1074) * 30103 / 100000 - 1 = k at *
  rw [hl] at hlow hhigh
  cases hfind : (List.range 5).find? fun (j : ℕ) =>
      compareScaled 1 (k + j) x.mantissa x.exponent == .gt with
  | none =>
    rw [List.find?_range_eq_none] at hfind
    have h4 := hfind 4 (by norm_num)
    simp only [Bool.not_eq_true', beq_eq_false_iff_ne, ne_eq, habove] at h4
    exact absurd (hhigh.trans_le hest') h4
  | some j =>
    rw [List.find?_range_eq_some] at hfind
    obtain ⟨hj, -, hbefore⟩ := hfind
    rw [beq_iff_eq, habove] at hj
    refine ⟨?_, hj⟩
    rw [Option.getD_some]
    cases j with
    | zero =>
      rw [Nat.cast_zero, add_zero] at hj
      exact absurd (hest.trans hlow) (not_le.2 hj)
    | succ j =>
      have hlast := hbefore j (Nat.lt_succ_self j)
      simp only [Bool.not_eq_true', beq_eq_false_iff_ne, ne_eq, habove, not_lt] at hlast
      rwa [Nat.cast_succ, ← add_assoc, add_sub_cancel_right]

/-! ## The shortest decimal -/

theorem ten_pow_mul_zpow (n : ℕ) (e : ℤ) : (10 : ℚ) ^ n * 10 ^ e = 10 ^ (e + n) := by
  rw [add_comm, zpow_add₀ (by norm_num), zpow_natCast]

theorem digits_of_onGrid? {x : Double} {g : ℤ} {d : Decimal} (h : onGrid? x g = some d) :
    d.exponent = g ∧ (d.digits = floorOn x g ∨ d.digits = floorOn x g + 1) := by
  unfold onGrid? at h
  simp only at h
  split at h
  · split at h <;> cases h <;> simp
  · cases h
    simp
  · cases h
    simp
  · cases h

/-- Counted in the power of ten `n` places behind its first digit, a double has `n + 1` digits. -/
theorem floorOn_range {x : Double} (hx : 0 < x.magnitude) (n : ℕ) :
    10 ^ n ≤ floorOn x (scale x - 1 - n) ∧ floorOn x (scale x - 1 - n) < 10 ^ (n + 1) := by
  obtain ⟨hscale, hscale'⟩ := scale_bounds hx
  obtain ⟨hfloor, hfloor'⟩ := floorOn_bounds x (scale x - 1 - n)
  have hpos : (0 : ℚ) < 10 ^ (scale x - 1 - n) := by positivity
  have hpow : (10 : ℚ) ^ (scale x - 1) = 10 ^ n * 10 ^ (scale x - 1 - n) := by
    rw [ten_pow_mul_zpow, sub_add_cancel]
  have hpow' : (10 : ℚ) ^ scale x = 10 ^ (n + 1) * 10 ^ (scale x - 1 - n) := by
    rw [ten_pow_mul_zpow, Nat.cast_succ, ← add_assoc, sub_add_cancel, sub_add_cancel]
  rw [hpow] at hscale
  rw [hpow'] at hscale'
  constructor
  · have hlt := lt_of_mul_lt_mul_right (hscale.trans_lt hfloor') hpos.le
    exact Nat.le_of_lt_succ (by exact_mod_cast hlt)
  · have hlt := lt_of_mul_lt_mul_right (hfloor.trans_lt hscale') hpos.le
    exact_mod_cast hlt

/-- With the trailing zeros go as many units of the exponent. -/
theorem stripZeros_spec (fuel : ℕ) (d : Decimal) : ∃ j : ℕ,
    (stripZeros fuel d).digits * 10 ^ j = d.digits ∧
      (stripZeros fuel d).exponent = d.exponent + j := by
  induction fuel generalizing d with
  | zero => exact ⟨0, by simp [stripZeros]⟩
  | succ fuel ih =>
    simp only [stripZeros]
    split
    · next h =>
      obtain ⟨j, hdigits, hexponent⟩ := ih ⟨d.digits / 10, d.exponent + 1⟩
      refine ⟨j + 1, ?_, ?_⟩
      · rw [pow_succ, ← mul_assoc, hdigits]
        exact Nat.div_mul_cancel (Nat.dvd_of_mod_eq_zero h.2)
      · rw [hexponent]
        push_cast
        ring
    · exact ⟨0, by simp⟩

/-- The decimal reads back as the double, on the coarsest power of ten that has such a one: with `n`
digits behind the first. -/
structure Hit (x : Double) (n : ℕ) (d : Decimal) : Prop where
  exponent : d.exponent = scale x - 1 - n
  nearest : Nearest d.value x.place
  lower : 10 ^ n ≤ d.digits
  upper : d.digits ≤ 10 ^ (n + 1)
  close : x.narrowBelow = false → 2 * |d.value - x.magnitude| ≤ 10 ^ d.exponent
  first : ∀ i < n, onGrid? x (scale x - 1 - i) = none

theorem mantissa_lt (x : Double) : x.mantissa < 2 ^ 53 := by
  obtain ⟨b, k, hn, hk, hk'⟩ := Double.exists_place_parts x.place
  rw [Double.mantissa, hn, (Double.mantissaAt_add hk hk').1]
  exact hk'

theorem mantissa_of_narrowBelow {x : Double} (h : x.narrowBelow = true) : x.mantissa = 2 ^ 52 := by
  obtain ⟨hmod, hle⟩ := Double.narrowBelow_eq_true.1 h
  obtain ⟨b, k, hn, hk, hk'⟩ := Double.exists_place_parts x.place
  rw [Double.mantissa, hn, (Double.mantissaAt_add hk hk').1]
  omega

/-- The seventeenth digit is always enough. -/
theorem exists_hit {x : Double} (hx : 0 < x.magnitude) :
    ∃ n < 17, ∃ d, shortest x = stripZeros 17 d ∧ Hit x n d := by
  unfold shortest
  simp only
  cases hfind : (List.range 17).findSome? fun (n : ℕ) => onGrid? x (scale x - 1 - n) with
  | some d =>
    obtain ⟨before, n, after, hrange, hhit, hfirst⟩ := List.findSome?_eq_some_iff.1 hfind
    rw [List.range_eq_range'] at hrange
    obtain ⟨k, hk, rfl, hafter⟩ := List.range'_eq_append_iff.1 hrange
    obtain ⟨hn, hlt, -⟩ := List.range'_eq_cons_iff.1 hafter.symm
    obtain rfl : n = k := by omega
    obtain ⟨hexponent, hnearest, hclose⟩ := onGrid?_eq_some hx hhit
    obtain ⟨-, hdigits⟩ := digits_of_onGrid? hhit
    obtain ⟨hlower, hupper⟩ := floorOn_range hx n
    refine ⟨n, by omega, d, rfl, hexponent, hnearest, by omega, by omega, fun hn => ?_,
      fun i hi => ?_⟩
    · rw [hexponent]
      exact hclose hn
    · exact hfirst i (List.mem_range'_1.2 (by omega))
  | none =>
    exfalso
    obtain ⟨p, hp⟩ := Double.exists_pred hx
    have hnone := List.findSome?_eq_none_iff.1 hfind 16 (by simp)
    have hgaps := gaps_le_of_onGrid?_eq_none hx hp hnone
    have hscale := (scale_bounds hx).1
    have hgap := Double.gapAt_pos x.place
    have hpow : (10 : ℚ) ^ (scale x - 1) = 10 ^ 16 * 10 ^ (scale x - 1 - (16 : ℕ)) := by
      rw [ten_pow_mul_zpow, sub_add_cancel]
    have hmag : x.magnitude = x.mantissa * gapAt x.place := rfl
    rw [hpow, hmag] at hscale
    rw [Double.gapAt_pred hp] at hgaps
    generalize (10 : ℚ) ^ (scale x - 1 - (16 : ℕ)) = w at *
    split at hgaps
    · next hn =>
      rw [mantissa_of_narrowBelow hn] at hscale
      push_cast at hscale
      linarith
    · have hm : (x.mantissa : ℚ) ≤ 2 ^ 53 := by exact_mod_cast (mantissa_lt x).le
      have := mul_le_mul_of_nonneg_right hm hgap.le
      linarith

end Decimal

end CoinRelay.Json
