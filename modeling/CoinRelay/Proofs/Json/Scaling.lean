import CoinRelay.Proofs.Json.Magnitude
import Mathlib

/-! # Decimal literals as doubles

A literal is read with two roundings: its digits become a double, and a power of ten, itself a
double, scales it. Both keep the order, and powers of ten up to the twenty-second are exact. -/

namespace CoinRelay.Json.Double

/-! ## Doubles at their places -/

theorem place_ofPlace (negative : Bool) {n : ℕ} (h : n < 2 ^ 63) :
    (ofPlace negative n).place = n := by
  have hp : power 2 63 = 2 ^ 63 := rfl
  unfold place ofPlace
  rw [hp, UInt64.toNat_ofNat']
  cases negative
  · simp only [Bool.false_eq_true, if_false]
    omega
  · simp only [if_true]
    omega

theorem negative_ofPlace (negative : Bool) {n : ℕ} (h : n < 2 ^ 63) :
    (ofPlace negative n).negative = negative := by
  have hp : power 2 63 = 2 ^ 63 := rfl
  simp only [Double.negative, ofPlace, hp, UInt64.toNat_ofNat']
  cases negative
  · simp only [Bool.false_eq_true, if_false, decide_eq_false_iff_not]
    omega
  · simp only [if_true, decide_eq_true_eq]
    omega

theorem place_lt (x : Double) : x.place < 2 ^ 63 := Nat.mod_lt _ (by decide)

/-- The magnitude of a double. -/
def magnitude (x : Double) : ℚ := valueAt x.place

theorem magnitude_eq (x : Double) : x.magnitude = x.mantissa * 2 ^ x.exponent := rfl

theorem magnitude_ofPlace (negative : Bool) {n : ℕ} (h : n < 2 ^ 63) :
    (ofPlace negative n).magnitude = valueAt n := by
  rw [magnitude, place_ofPlace negative h]

theorem mantissa_pos {x : Double} (h : 0 < x.magnitude) : 0 < x.mantissa := by
  rw [magnitude_eq] at h
  by_contra h0
  rw [Nat.eq_zero_of_not_pos h0] at h
  simp at h

theorem exists_pred {x : Double} (h : 0 < x.magnitude) : ∃ p, p + 1 = x.place := by
  refine ⟨x.place - 1, Nat.sub_add_cancel (Nat.pos_of_ne_zero fun h0 => ?_)⟩
  rw [magnitude, h0, valueAt_zero] at h
  exact lt_irrefl _ h

theorem product_spec (x y : Double) : Nearest (x.magnitude * y.magnitude) (product x y) := by
  have h := nearest_spec (x.mantissa * y.mantissa * power 2 (x.exponent + y.exponent))
    (power_pos two_pos (-(x.exponent + y.exponent)))
  have heq : x.magnitude * y.magnitude =
      x.mantissa * y.mantissa * 2 ^ (x.exponent + y.exponent) := by
    rw [magnitude_eq, magnitude_eq, zpow_add₀ two_ne_zero]
    ring
  rw [heq, two_zpow, ← mul_div_assoc]
  exact_mod_cast h

theorem quotient_spec (x : Double) {y : Double} (hy : 0 < y.magnitude) :
    Nearest (x.magnitude / y.magnitude) (quotient x y) := by
  have h := nearest_spec (x.mantissa * power 2 (x.exponent - y.exponent))
    (Nat.mul_pos (mantissa_pos hy) (power_pos two_pos (-(x.exponent - y.exponent))))
  have heq : x.magnitude / y.magnitude =
      x.mantissa / y.mantissa * 2 ^ (x.exponent - y.exponent) := by
    rw [magnitude_eq, magnitude_eq, zpow_sub₀ two_ne_zero]
    exact mul_div_mul_comm ..
  rw [heq, two_zpow, div_mul_div_comm]
  exact_mod_cast h

/-! ## Rounded naturals -/

/-- A natural number, rounded to a magnitude. -/
def rounded (n : ℕ) : ℚ := valueAt (nearest n 1)

theorem nearest_one (n : ℕ) : Nearest (n : ℚ) (nearest n 1) := by
  simpa using nearest_spec n one_pos

theorem rounded_mono {m n : ℕ} (h : m ≤ n) : rounded m ≤ rounded n :=
  strictMono_valueAt.monotone ((nearest_one m).mono (nearest_one n) (by exact_mod_cast h))

theorem rounded_of_valueAt {n p : ℕ} (h : valueAt p = n) : rounded n = n := by
  have hp := nearest_valueAt p
  rw [h] at hp
  rw [rounded, (nearest_one n).unique hp, h]

theorem valueAt_limit : valueAt placeLimit = 2 ^ 1024 := by
  have h := valueAt_add (b := 2046) (k := 2 ^ 52) (.inr le_rfl) (by norm_num)
  rw [show placeLimit = 2046 * 2 ^ 52 + 2 ^ 52 by decide, h,
    show ((2046 : ℕ) : ℤ) - 1074 = (972 : ℕ) by norm_num, zpow_natCast, Nat.cast_pow, Nat.cast_two,
    ← pow_add]

theorem placeLimit_lt : placeLimit < 2 ^ 63 := by decide

theorem nearest_le_limit {n k : ℕ} (hk : k ≤ 308) (h : n ≤ 10 ^ k) : nearest n 1 ≤ placeLimit := by
  refine (nearest_one n).le_of_le ?_
  rw [valueAt_limit]
  calc (n : ℚ) ≤ 10 ^ k := by exact_mod_cast h
    _ ≤ 10 ^ 308 := pow_le_pow_right₀ (by norm_num) hk
    _ ≤ 2 ^ 1024 := by exact_mod_cast (show 10 ^ 308 ≤ 2 ^ 1024 by decide +kernel)

theorem magnitude_ofNat {n k : ℕ} (hk : k ≤ 308) (h : n ≤ 10 ^ k) :
    (ofNat n).magnitude = rounded n :=
  magnitude_ofPlace false ((nearest_le_limit hk h).trans_lt placeLimit_lt)

theorem magnitude_ofNat_of_lt {n : ℕ} (h : n < 2 ^ 64) : (ofNat n).magnitude = rounded n :=
  magnitude_ofNat (k := 20) (by norm_num) (h.le.trans (by norm_num))

/-- A number with few significant bits is a magnitude. -/
theorem exists_place {k : ℕ} (hk : k ≤ 2 ^ 53) (j : ℕ) : ∃ p, valueAt p = k * 2 ^ j := by
  rcases Nat.eq_zero_or_pos k with rfl | hpos
  · exact ⟨0, by rw [valueAt_zero]; simp⟩
  rcases hk.lt_or_eq with hlt | rfl
  · have hlog : k.log2 < 53 := (Nat.log2_lt hpos.ne').2 hlt
    have hlow : 2 ^ k.log2 ≤ k := Nat.log2_self_le hpos.ne'
    have hhigh : k < 2 ^ (k.log2 + 1) := Nat.lt_log2_self
    obtain ⟨s, hs⟩ : ∃ s, k.log2 + s = 52 := ⟨52 - k.log2, by omega⟩
    refine ⟨(1074 + j - s) * 2 ^ 52 + k * 2 ^ s, ?_⟩
    have hlow' : 2 ^ 52 ≤ k * 2 ^ s := by
      rw [← hs, pow_add]
      exact Nat.mul_le_mul_right _ hlow
    have hhigh' : k * 2 ^ s ≤ 2 ^ 53 := by
      rw [show 53 = k.log2 + 1 + s by omega, pow_add]
      exact Nat.mul_le_mul_right _ hhigh.le
    rw [valueAt_add (.inr hlow') hhigh',
      show ((1074 + j - s : ℕ) : ℤ) - 1074 = (j : ℤ) - s by omega, zpow_sub₀ two_ne_zero]
    push_cast
    rw [zpow_natCast, zpow_natCast]
    field_simp
  · refine ⟨(1074 + j) * 2 ^ 52 + 2 ^ 53, ?_⟩
    rw [valueAt_add (.inr (by norm_num)) le_rfl,
      show ((1074 + j : ℕ) : ℤ) - 1074 = j by omega, zpow_natCast]

theorem rounded_mul_two_pow {k : ℕ} (hk : k ≤ 2 ^ 53) (j : ℕ) :
    rounded (k * 2 ^ j) = k * 2 ^ j := by
  obtain ⟨p, hp⟩ := exists_place hk j
  have h := rounded_of_valueAt (n := k * 2 ^ j) (p := p) (by rw [hp]; push_cast; rfl)
  rw [h]
  push_cast
  rfl

theorem rounded_ten_pow {k : ℕ} (hk : k ≤ 22) : rounded (10 ^ k) = 10 ^ k := by
  have h5 : 5 ^ k ≤ 2 ^ 53 := (Nat.pow_le_pow_right (by norm_num) hk).trans (by norm_num)
  have h := rounded_mul_two_pow h5 k
  rw [← mul_pow] at h
  rw [show (10 : ℕ) = 5 * 2 by norm_num, h]
  push_cast
  rw [← mul_pow]
  norm_num

/-- Between two powers of two a number is rounded to a multiple of their distance's unit. -/
theorem exists_rounded_eq {m s : ℕ} (hlow : 2 ^ 52 * 2 ^ s ≤ m) (hhigh : m ≤ 2 ^ 53 * 2 ^ s) :
    ∃ k : ℕ, 2 ^ 52 ≤ k ∧ k ≤ 2 ^ 53 ∧ rounded m = k * 2 ^ s ∧ RoundsTo (m / 2 ^ s) k := by
  have hs : (0 : ℚ) < 2 ^ s := by positivity
  have hlow' : (2 : ℚ) ^ 52 ≤ m / 2 ^ s := by
    rw [le_div_iff₀ hs]
    exact_mod_cast hlow
  have hhigh' : (m : ℚ) / 2 ^ s ≤ 2 ^ 53 := by
    rw [div_le_iff₀ hs]
    exact_mod_cast hhigh
  have hexp : (2 : ℚ) ^ (((1074 + s : ℕ) : ℤ) - 1074) = 2 ^ s := by
    rw [show ((1074 + s : ℕ) : ℤ) - 1074 = s by omega, zpow_natCast]
  obtain ⟨k, hk⟩ := exists_roundsTo (show 0 ≤ (m : ℚ) / 2 ^ s by positivity)
  have hn := hk.nearest (b := 1074 + s) (.inr hlow') hhigh'
  have hk₁ : 2 ^ 52 ≤ k := hk.ge_of_ge (by exact_mod_cast hlow')
  have hk₂ : k ≤ 2 ^ 53 := hk.le_of_le (by exact_mod_cast hhigh')
  rw [hexp, div_mul_cancel₀ _ hs.ne'] at hn
  refine ⟨k, hk₁, hk₂, ?_, hk⟩
  rw [rounded, (nearest_one m).unique hn, valueAt_add (.inr hk₁) hk₂, hexp]

/-- Rounding a number changes it by a small part of it only. -/
theorem abs_rounded_sub_le (m : ℕ) : |rounded m - m| ≤ m / 2 ^ 53 := by
  by_cases hm : m ≤ 2 ^ 53
  · have h := rounded_mul_two_pow hm 0
    rw [pow_zero, pow_zero, mul_one, mul_one] at h
    rw [h, sub_self, abs_zero]
    positivity
  · have hpos : m ≠ 0 := by omega
    have hlog : 53 ≤ m.log2 := (Nat.le_log2 hpos).2 (by omega)
    obtain ⟨s, hs⟩ : ∃ s, m.log2 = 52 + s := ⟨m.log2 - 52, by omega⟩
    have hlow : 2 ^ 52 * 2 ^ s ≤ m := by
      rw [← pow_add, ← hs]
      exact Nat.log2_self_le hpos
    have hhigh : m ≤ 2 ^ 53 * 2 ^ s := by
      rw [← pow_add, show 53 + s = m.log2 + 1 by omega]
      exact Nat.lt_log2_self.le
    obtain ⟨k, -, -, hk, hround⟩ := exists_rounded_eq hlow hhigh
    have hp : (0 : ℚ) < 2 ^ s := by positivity
    have hlowq : (2 : ℚ) ^ 52 * 2 ^ s ≤ m := by exact_mod_cast hlow
    have hmul : (m : ℚ) / 2 ^ s * 2 ^ s = m := div_mul_cancel₀ _ hp.ne'
    have hupper := hround.upper
    have hlower := hround.lower
    push_cast at hupper hlower
    rw [hk, abs_le, le_div_iff₀ (by norm_num), neg_le, ← neg_sub, neg_neg]
    generalize (m : ℚ) / 2 ^ s = t at *
    constructor
    · rw [le_div_iff₀ (by norm_num)]
      nlinarith
    · nlinarith

theorem ten_pow_le_rounded {j k : ℕ} (hj : j ≤ 22) (h : j ≤ k) : 10 ^ j ≤ rounded (10 ^ k) := by
  rw [← rounded_ten_pow hj]
  exact rounded_mono (Nat.pow_le_pow_right (by norm_num) h)

theorem one_le_rounded_ten_pow (k : ℕ) : 1 ≤ rounded (10 ^ k) := by
  simpa using ten_pow_le_rounded (Nat.zero_le 22) (Nat.zero_le k)

theorem one_le_rounded {m : ℕ} (h : 0 < m) : 1 ≤ rounded m :=
  (one_le_rounded_ten_pow 0).trans (rounded_mono h)

/-! ## Scaling -/

theorem magnitude_powerOfTen {k : ℕ} (hk : k ≤ 308) : (powerOfTen k).magnitude = rounded (10 ^ k) :=
  magnitude_ofNat hk le_rfl

theorem negative_powerOfTen {k : ℕ} (hk : k ≤ 308) : (powerOfTen k).negative = false :=
  negative_ofPlace false ((nearest_le_limit hk le_rfl).trans_lt placeLimit_lt)

theorem magnitude_powerOfTen_pos {k : ℕ} (hk : k ≤ 308) : 0 < (powerOfTen k).magnitude := by
  rw [magnitude_powerOfTen hk]
  exact one_pos.trans_le (one_le_rounded_ten_pow k)

theorem quotient_le (x : Double) {k : ℕ} (hk : k ≤ 308) : quotient x (powerOfTen k) ≤ x.place := by
  refine (quotient_spec x (magnitude_powerOfTen_pos hk)).le_of_le ?_
  have hx : 0 ≤ x.magnitude := by
    rw [← valueAt_zero]
    exact strictMono_valueAt.monotone (Nat.zero_le _)
  refine div_le_self hx ?_
  rw [magnitude_powerOfTen hk]
  exact one_le_rounded_ten_pow k

theorem scale?_succ (steps : ℕ) (x : Double) (e : ℤ) : scale? (steps + 1) x e =
    if e.natAbs ≤ 308 then
      let n := if e < 0 then quotient x (powerOfTen e.natAbs) else product x (powerOfTen e.natAbs)
      if n < placeLimit then some n else none
    else if x.mantissa = 0 then some x.place
    else if 0 ≤ e then none
    else scale? steps (ofPlace false (quotient x (powerOfTen 308))) (e + 308) := rfl

theorem scale?_lt {steps : ℕ} {x : Double} {e : ℤ} {n : ℕ} (h : scale? steps x e = some n) :
    n < 2 ^ 63 := by
  induction steps generalizing x e with
  | zero =>
    cases h
    exact place_lt x
  | succ steps ih =>
    rw [scale?_succ] at h
    split at h
    · obtain ⟨hlt, hn⟩ := Option.ite_none_right_eq_some.1 h
      cases hn
      exact hlt.trans placeLimit_lt
    · split at h
      · cases h
        exact place_lt x
      · split at h
        · cases h
        · exact ih h

/-- A negative power of ten does not make a magnitude larger. -/
theorem scale?_le {steps : ℕ} {x : Double} {e : ℤ} {n : ℕ} (he : e < 0)
    (h : scale? steps x e = some n) : n ≤ x.place := by
  induction steps generalizing x e with
  | zero =>
    simp only [scale?, Option.some.injEq] at h
    exact h.ge
  | succ steps ih =>
    rw [scale?_succ] at h
    split at h
    · next hsmall =>
      dsimp only at h
      split at h
      · cases h
        exact quotient_le x hsmall
      · cases h
    · next hlarge =>
      rw [if_neg (by omega : ¬ 0 ≤ e)] at h
      split at h
      · cases h
        exact le_rfl
      · have hq := quotient_le x (le_refl 308)
        have hn := ih (by omega) h
        rw [place_ofPlace false (hq.trans_lt (place_lt x))] at hn
        exact hn.trans hq

/-- What a literal with a usual exponent is read as. -/
theorem nearest_of_ofDecimal? {m : ℕ} {e : ℤ} {n : ℕ} (hm : m < 2 ^ 64) (he : e.natAbs ≤ 308)
    (h : ofDecimal? m e = some n) : n < placeLimit ∧
      (e < 0 → Nearest (rounded m / rounded (10 ^ e.natAbs)) n) ∧
      (0 ≤ e → Nearest (rounded m * rounded (10 ^ e.natAbs)) n) := by
  have hmag := magnitude_ofNat_of_lt hm
  have hfactor := magnitude_powerOfTen he
  rw [ofDecimal?, scale?_succ, if_pos he] at h
  rcases lt_or_ge e 0 with hneg | hnonneg
  · simp only [if_pos hneg] at h
    split at h
    · next hlt =>
      cases h
      refine ⟨hlt, fun _ => ?_, fun hge => absurd hneg (not_lt.2 hge)⟩
      rw [← hmag, ← hfactor]
      exact quotient_spec _ (magnitude_powerOfTen_pos he)
    · cases h
  · simp only [if_neg (not_lt.2 hnonneg)] at h
    split at h
    · next hlt =>
      cases h
      refine ⟨hlt, fun hlt => absurd hlt (not_lt.2 hnonneg), fun _ => ?_⟩
      rw [← hmag, ← hfactor]
      exact product_spec _ _
    · cases h

theorem natAbs_zpow {e : ℤ} (h : e < 0) : ((10 : ℚ) ^ e.natAbs)⁻¹ = 10 ^ e := by
  rw [← zpow_natCast, ← zpow_neg]
  congr 1
  omega

/-- Up to the twenty-second power of ten only the digits and the result are rounded. -/
theorem nearest_of_ofDecimal?_of_le {m : ℕ} {e : ℤ} {n : ℕ} (hm : m < 2 ^ 64)
    (he : e.natAbs ≤ 22) (h : ofDecimal? m e = some n) : Nearest (rounded m * 10 ^ e) n := by
  obtain ⟨-, hneg, hnonneg⟩ := nearest_of_ofDecimal? hm (by omega) h
  rw [rounded_ten_pow he] at hneg hnonneg
  rcases lt_or_ge e 0 with hlt | hge
  · have := hneg hlt
    rwa [div_eq_mul_inv, natAbs_zpow hlt] at this
  · have := hnonneg hge
    rwa [← zpow_natCast, Int.natAbs_of_nonneg hge] at this

/-! ## Literals outside the range of amounts -/

/-- A literal well below a magnitude of at most one is not read as a larger double. -/
theorem le_of_ofDecimal? {m : ℕ} {e : ℤ} {n p : ℕ} (hm : m < 2 ^ 64) (hpos : 0 < m)
    (hlow : 1 / 2 ≤ valueAt p) (hhigh : valueAt p ≤ 1) (hle : (m : ℚ) * 10 ^ e ≤ 9 / 10 * valueAt p)
    (h : ofDecimal? m e = some n) : n ≤ p := by
  have hone : (1 : ℚ) ≤ m := by exact_mod_cast hpos
  have he : e < 0 := by
    by_contra hge
    have : (1 : ℚ) ≤ 10 ^ e := one_le_zpow₀ (by norm_num) (not_lt.1 hge)
    nlinarith
  have hround := (abs_le.1 (abs_rounded_sub_le m)).2
  by_cases hsmall : e.natAbs ≤ 308
  · refine ((nearest_of_ofDecimal? hm hsmall h).2.1 he).le_of_le ?_
    have hpow := (abs_le.1 (abs_rounded_sub_le (10 ^ e.natAbs))).1
    have hten : (0 : ℚ) < ((10 ^ e.natAbs : ℕ) : ℚ) := by positivity
    have hle' : (m : ℚ) ≤ 9 / 10 * valueAt p * (10 ^ e.natAbs : ℕ) := by
      rw [← natAbs_zpow he, ← div_eq_mul_inv, div_le_iff₀ (by positivity)] at hle
      exact_mod_cast hle
    have hpow' : (1 - 1 / 2 ^ 53) * ((10 ^ e.natAbs : ℕ) : ℚ) ≤ rounded (10 ^ e.natAbs) := by
      linarith
    have hscale := mul_le_mul_of_nonneg_left hpow' (by linarith : 0 ≤ valueAt p)
    rw [div_le_iff₀ (one_pos.trans_le (one_le_rounded_ten_pow _))]
    linarith
  · have hmag := magnitude_ofNat_of_lt hm
    have hmantissa := mantissa_pos (hmag ▸ one_pos.trans_le (one_le_rounded hpos))
    rw [ofDecimal?, scale?_succ, if_neg hsmall, if_neg hmantissa.ne', if_neg (not_le.2 he)] at h
    have hstep := scale?_le (by omega) h
    rw [place_ofPlace false ((quotient_le _ le_rfl).trans_lt (place_lt _))] at hstep
    have hquotient := quotient_spec (ofNat m) (magnitude_powerOfTen_pos (le_refl 308))
    refine hstep.trans (hquotient.le_of_le ?_)
    rw [hmag, magnitude_powerOfTen le_rfl,
      div_le_iff₀ (one_pos.trans_le (one_le_rounded_ten_pow _))]
    have hten := ten_pow_le_rounded (le_refl 22) (show 22 ≤ 308 by norm_num)
    have hmq : (m : ℚ) < 2 ^ 64 := by exact_mod_cast hm
    have hscale := mul_le_mul hlow hten (by norm_num) (by linarith)
    linarith

/-- Literals beyond the signed words are read as doubles beyond them. -/
theorem le_valueAt_of_ofDecimal? {m : ℕ} {e : ℤ} {n : ℕ} (hm : m < 2 ^ 64)
    (hle : 2 ^ 63 + 2 ^ 10 ≤ (m : ℚ) * 10 ^ e) (h : ofDecimal? m e = some n) :
    2 ^ 63 ≤ valueAt n := by
  have hmq : (m : ℚ) < 2 ^ 64 := by exact_mod_cast hm
  have hpos : 0 < m := by
    by_contra h0
    rw [Nat.eq_zero_of_not_pos h0] at hle
    norm_num at hle
  have he : 0 ≤ e := by
    by_contra hneg
    have : (10 : ℚ) ^ e ≤ 10 ^ (-1 : ℤ) := zpow_le_zpow_right₀ (by norm_num) (by omega)
    have : (m : ℚ) * 10 ^ e ≤ 2 ^ 64 * 10 ^ (-1 : ℤ) := by gcongr
    norm_num at this hle
    linarith
  have hround := (abs_le.1 (abs_rounded_sub_le m)).1
  have hvalue : valueAt (1084 * 2 ^ 52 + 2 ^ 53) = 2 ^ 63 := by
    rw [valueAt_add (.inr (by norm_num)) le_rfl]
    norm_num
  by_cases hexact : e.natAbs ≤ 22
  · -- just below `2 ^ 63` there is no other magnitude
    have hnear : Nearest (2 ^ 63 - 1) (1084 * 2 ^ 52 + 2 ^ 53) := by
      have hr : RoundsTo (2 ^ 53 - 1 / 2 ^ 10) ((2 ^ 53 : ℕ) : ℤ) :=
        ⟨.inl (by norm_num), .inl (by norm_num)⟩
      have := hr.nearest (b := 1084) (.inr (by norm_num)) (by norm_num)
      norm_num at this ⊢
      exact this
    have hn := nearest_of_ofDecimal?_of_le hm hexact h
    rw [← hvalue]
    refine strictMono_valueAt.monotone (hnear.mono hn ?_)
    have hten : (0 : ℚ) < 10 ^ e := by positivity
    nlinarith
  · by_cases hsmall : e.natAbs ≤ 308
    · have hn := (nearest_of_ofDecimal? hm hsmall h).2.2 he
      have hten := ten_pow_le_rounded (le_refl 22) (show 22 ≤ e.natAbs by omega)
      have hone := one_le_rounded hpos
      rw [← hvalue]
      refine strictMono_valueAt.monotone (hn.ge_of_ge ?_)
      rw [hvalue]
      nlinarith
    · have hmag := magnitude_ofNat_of_lt hm
      have hmantissa := mantissa_pos (hmag ▸ one_pos.trans_le (one_le_rounded hpos))
      rw [ofDecimal?, scale?_succ, if_neg hsmall, if_neg hmantissa.ne', if_pos he] at h
      cases h

end CoinRelay.Json.Double
