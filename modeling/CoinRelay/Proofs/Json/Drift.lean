import CoinRelay.Proofs.Json.Scaling
import Mathlib

/-! # Reading a double anew

The text of a double may be read as its neighbour, since its digits are rounded before they are
scaled. But a double that was read so is read as itself from then on: a second step in the same
direction would need a gap between doubles that no power of two and no power of ten leave
(`no_second_step`). -/

namespace CoinRelay.Json.Double

theorem RoundsTo.neg {s : ℚ} {k : ℤ} (h : RoundsTo s k) : RoundsTo (-s) (-k) where
  below := by
    rcases h.above with h | ⟨h, hk⟩
    · exact .inl (by push_cast; linarith)
    · exact .inr ⟨by push_cast; linarith, hk.neg⟩
  above := by
    rcases h.below with h | ⟨h, hk⟩
    · exact .inl (by push_cast; linarith)
    · exact .inr ⟨by push_cast; linarith, hk.neg⟩

/-- A whole number that is rounded to a multiple of `2 * c` moves by at most `c`, and by all of `c`
to an even multiple only. -/
theorem RoundsTo.of_div {m k c : ℤ} (hc : 0 < c) (h : RoundsTo (m / (2 * c)) k) :
    2 * c * k - m < c ∨ 2 * c * k - m = c ∧ Even k := by
  have hcq : (0 : ℚ) < 2 * c := by exact_mod_cast (show 0 < 2 * c by omega)
  rcases h.below with h | ⟨h, hk⟩
  · left
    have : (2 * (k : ℚ) - 1) * (2 * c) < 2 * m := by
      rwa [← mul_div_assoc, lt_div_iff₀ hcq] at h
    have : (2 * k - 1) * (2 * c) < 2 * m := by exact_mod_cast this
    linarith
  · right
    have : (2 * (k : ℚ) - 1) * (2 * c) = 2 * m := by
      rwa [← mul_div_assoc, eq_div_iff hcq.ne'] at h
    have : (2 * k - 1) * (2 * c) = 2 * m := by exact_mod_cast this
    exact ⟨by linarith, hk⟩

/-- Let the numbers `m₀` and `m₁` be the whole numbers next to `t` and `t + ρ`, and let them be
rounded to multiples of `2 * c₀` and `2 * c₁`, with units that are equal or differ by the factor two
at a number between. If the first is moved beyond the middle to the second, then the second is not
moved as far in the same direction. -/
theorem no_second_step {ρ : ℚ} (t : ℚ) {m₀ m₁ k₀ k₁ : ℤ} (c₀ c₁ : ℤ) (hρ : 1 < ρ) (hρ₃ : ρ ≠ 3)
    (hρc : ρ ≠ 2 * c₁ - 1) (hc₀ : 0 < c₀) (hc₁ : 0 < c₁)
    (hm₀ : |(m₀ : ℚ) - t| ≤ 1 / 2) (hm₁ : |(m₁ : ℚ) - (t + ρ)| ≤ 1 / 2)
    (hk₀ : RoundsTo (m₀ / (2 * c₀)) k₀) (hk₁ : RoundsTo (m₁ / (2 * c₁)) k₁)
    (hunits : c₀ = c₁ ∨ (c₁ = 2 * c₀ ∧ ∃ b, 2 * c₀ * k₀ ≤ 2 * c₁ * b ∧ 2 * c₁ * b ≤ m₁) ∨
      (c₀ = 2 * c₁ ∧ ∃ b, 2 * c₀ * k₀ ≤ 2 * c₀ * b ∧ 2 * c₀ * b ≤ m₁))
    (hlt : 2 * c₀ * k₀ < 2 * c₁ * k₁) (h₀ : t + ρ / 2 ≤ (2 * c₀ * k₀ : ℤ)) :
    ((2 * c₁ * k₁ : ℤ) : ℚ) < t + ρ + ρ / 2 := by
  by_contra h₁
  rw [not_lt] at h₁
  rw [abs_le] at hm₀ hm₁
  have hstep₀ := hk₀.of_div hc₀
  have hstep₁ := hk₁.of_div hc₁
  generalize hw₀ : 2 * c₀ * k₀ = w₀ at *
  generalize hw₁ : 2 * c₁ * k₁ = w₁ at *
  -- the second number is moved up, so it lies halfway to the next multiple at least
  have hup : m₁ < w₁ := by
    have : (m₁ : ℚ) < w₁ := by linarith
    exact_mod_cast this
  have hunit : w₀ + c₁ ≤ m₁ := by
    have hle : w₁ - m₁ ≤ c₁ := hstep₁.elim le_of_lt fun h => h.1.le
    rcases hunits with rfl | ⟨rfl, b, hlow, hhigh⟩ | ⟨rfl, b, hlow, hhigh⟩
    · have hk : k₀ < k₁ := by nlinarith
      nlinarith
    · have hk : b < k₁ := by nlinarith
      nlinarith
    · have hk : 2 * b < k₁ := by nlinarith
      nlinarith
  have hunitq : (w₀ : ℚ) + c₁ ≤ m₁ := by exact_mod_cast hunit
  -- and it is exactly halfway, for otherwise the gap is one less than the unit
  obtain ⟨htie₁, heven₁⟩ : w₁ - m₁ = c₁ ∧ Even k₁ := by
    refine hstep₁.resolve_left fun h => hρc ?_
    have : (w₁ : ℚ) - m₁ + 1 ≤ c₁ := by exact_mod_cast (show w₁ - m₁ + 1 ≤ c₁ by omega)
    linarith
  have hle₀ : (w₀ : ℚ) - m₀ ≤ c₀ := by
    exact_mod_cast hstep₀.elim le_of_lt fun h => h.1.le
  rcases hunits with rfl | ⟨rfl, b, hlow, hhigh⟩ | ⟨rfl, b, hlow, hhigh⟩
  · obtain ⟨htie₀, heven₀⟩ : w₀ - m₀ = c₀ ∧ Even k₀ := by
      refine hstep₀.resolve_left fun h => hρc ?_
      have : (w₀ : ℚ) - m₀ + 1 ≤ c₀ := by exact_mod_cast (show w₀ - m₀ + 1 ≤ c₀ by omega)
      linarith
    -- two even multiples are two units apart
    have hk : k₀ + 2 ≤ k₁ := by
      have hk : k₀ < k₁ := by nlinarith
      obtain ⟨i, rfl⟩ := heven₀
      obtain ⟨j, rfl⟩ := heven₁
      omega
    have hfar : m₀ + 4 * c₀ ≤ m₁ := by nlinarith
    have hfarq : (m₀ : ℚ) + 4 * c₀ ≤ m₁ := by exact_mod_cast hfar
    have hone : (c₀ : ℚ) ≤ 1 := by linarith
    obtain rfl : c₀ = 1 := by
      have : c₀ ≤ 1 := by exact_mod_cast hone
      omega
    push_cast at *
    exact hρ₃ (by linarith)
  · push_cast at *
    have hone : (c₀ : ℚ) ≤ 1 := by linarith
    obtain rfl : c₀ = 1 := by
      have : c₀ ≤ 1 := by exact_mod_cast hone
      omega
    push_cast at *
    exact hρ₃ (by linarith)
  · have hk : 2 * b + 2 ≤ k₁ := by
      have hk : 2 * b < k₁ := by nlinarith
      obtain ⟨j, rfl⟩ := heven₁
      omega
    have hfar : w₀ + 3 * c₁ ≤ m₁ := by nlinarith
    have hfarq : (w₀ : ℚ) + 3 * c₁ ≤ m₁ := by exact_mod_cast hfar
    have htieq : (w₁ : ℚ) - m₁ = c₁ := by exact_mod_cast htie₁
    have hone : (1 : ℚ) ≤ c₁ := by exact_mod_cast hc₁
    linarith

/-! ## Units of rounded digits -/

/-- Digits that are rounded: to a multiple of a power of two, by the place of their first bit. -/
theorem exists_unit {m : ℕ} (hlow : 2 ^ 53 ≤ m) (hhigh : m ≤ 10 ^ 17) :
    ∃ s : ℕ, s < 4 ∧ 2 ^ 52 * 2 ^ (s + 1) ≤ m ∧ m < 2 ^ 53 * 2 ^ (s + 1) := by
  obtain ⟨s, hs⟩ : ∃ s, m.log2 = 53 + s :=
    ⟨m.log2 - 53, by have := (Nat.le_log2 (by omega)).2 hlow; omega⟩
  have hlog₁ := Nat.log2_self_le (show m ≠ 0 by omega)
  have hlog₂ : m < 2 ^ (m.log2 + 1) := Nat.lt_log2_self
  refine ⟨s, ?_, ?_, ?_⟩
  · by_contra hge
    have : 2 ^ 57 ≤ 2 ^ m.log2 := Nat.pow_le_pow_right (by norm_num) (by omega)
    omega
  · rwa [← pow_add, show 52 + (s + 1) = m.log2 by omega]
  · rw [← pow_add, show 53 + (s + 1) = m.log2 + 1 by omega]
    exact hlog₂

/-- Powers of two and of ten have no other prime divisors than two and five. -/
theorem zpow_mul_zpow_ne {p r : ℕ} [hp : Fact p.Prime] (h10 : ¬ p ∣ 10) (hr : p ∣ r) (hr₀ : r ≠ 0)
    (a e : ℤ) : (2 : ℚ) ^ a * 10 ^ e ≠ r := by
  intro h
  have h2 : ¬ p ∣ 2 := fun h2 => h10 (h2.trans (by norm_num))
  have hv := congrArg (padicValRat p) h
  have hv₂ : padicValRat p 2 = 0 := by
    exact_mod_cast congrArg Nat.cast (padicValNat.eq_zero_of_not_dvd h2)
  have hv₁₀ : padicValRat p 10 = 0 := by
    exact_mod_cast congrArg Nat.cast (padicValNat.eq_zero_of_not_dvd h10)
  rw [padicValRat.mul (by positivity) (by positivity), padicValRat.zpow, padicValRat.zpow, hv₂,
    hv₁₀, padicValRat.of_nat] at hv
  have hpos := one_le_padicValNat_of_dvd hr₀ hr
  omega

/-- The gaps that a second step would need. -/
theorem gap_ne {a e : ℤ} {s : ℕ} (hs : s < 4) (hgap : 1 < (2 : ℚ) ^ a * 10 ^ e) :
    (2 : ℚ) ^ a * 10 ^ e ≠ 3 ∧ (2 : ℚ) ^ a * 10 ^ e ≠ 2 * (2 ^ s : ℕ) - 1 := by
  have h3 : (2 : ℚ) ^ a * 10 ^ e ≠ (3 : ℕ) :=
    zpow_mul_zpow_ne (p := 3) (by norm_num) (by norm_num) (by norm_num) a e
  have h7 : (2 : ℚ) ^ a * 10 ^ e ≠ (7 : ℕ) :=
    have : Fact (Nat.Prime 7) := ⟨by norm_num⟩
    zpow_mul_zpow_ne (p := 7) (by norm_num) (by norm_num) (by norm_num) a e
  have h15 : (2 : ℚ) ^ a * 10 ^ e ≠ (15 : ℕ) :=
    zpow_mul_zpow_ne (p := 3) (by norm_num) (by norm_num) (by norm_num) a e
  push_cast at h3 h7 h15
  refine ⟨h3, ?_⟩
  interval_cases s <;> norm_num
  · exact hgap.ne'
  · exact h3
  · exact h7
  · exact h15

/-! ## Digits next to a magnitude -/

/-- The magnitude at the place, counted in the power of ten, lies next to the digits, and these are
too many to be a double for sure. -/
structure Beside (n m : ℕ) (e : ℤ) : Prop where
  near : |(m : ℚ) - valueAt n / 10 ^ e| ≤ 1 / 2
  lower : 2 ^ 53 < m
  upper : m ≤ 10 ^ 17

/-- The gap between the doubles of one exponent, counted in a power of ten. -/
def ratio (b : ℕ) (e : ℤ) : ℚ := 2 ^ ((b : ℤ) - 1074) * 10 ^ (-e)

theorem valueAt_div {b j : ℕ} (hlow : b = 0 ∨ 2 ^ 52 ≤ j) (hhigh : j ≤ 2 ^ 53) (e : ℤ) :
    valueAt (b * 2 ^ 52 + j) / 10 ^ e = j * ratio b e := by
  rw [valueAt_add hlow hhigh, ratio, zpow_neg]
  ring

theorem gapAt_div {b j : ℕ} (hlow : b = 0 ∨ 2 ^ 52 ≤ j) (hhigh : j < 2 ^ 53) (e : ℤ) :
    gapAt (b * 2 ^ 52 + j) / 10 ^ e = ratio b e := by
  rw [gapAt_add hlow hhigh, ratio, zpow_neg]
  rfl

/-- Twice the middle of the gap above a magnitude. -/
theorem mid_div {b j : ℕ} (hlow : 2 ^ 52 ≤ j) (hhigh : j < 2 ^ 53) (e : ℤ) :
    valueAt (b * 2 ^ 52 + j) / 10 ^ e + valueAt (b * 2 ^ 52 + j + 1) / 10 ^ e =
      (2 * j + 1) * ratio b e := by
  rw [add_assoc, valueAt_div (.inr hlow) hhigh.le, valueAt_div (.inr (hlow.trans j.le_succ)) hhigh]
  push_cast
  ring

/-- What is nearest above a place lies above the middle of the gap there. -/
theorem Nearest.mid_le {w : ℚ} {e : ℤ} {n p : ℕ} (h : Nearest (w * 10 ^ e) n) (hp : p < n) :
    valueAt p / 10 ^ e + valueAt (p + 1) / 10 ^ e ≤ 2 * w := by
  obtain ⟨q, rfl⟩ : ∃ q, n = q + 1 := ⟨n - 1, by omega⟩
  have hpos : (0 : ℚ) < 10 ^ e := by positivity
  have hq : valueAt p ≤ valueAt q := strictMono_valueAt.monotone (by omega)
  have hq' : valueAt (p + 1) ≤ valueAt (q + 1) := strictMono_valueAt.monotone (by omega)
  rw [← add_div, div_le_iff₀ hpos]
  rcases h.below q rfl with h | ⟨h, -⟩ <;> linarith

theorem Nearest.le_mid {w : ℚ} {e : ℤ} {n p : ℕ} (h : Nearest (w * 10 ^ e) n) (hp : n ≤ p) :
    2 * w ≤ valueAt p / 10 ^ e + valueAt (p + 1) / 10 ^ e := by
  have hpos : (0 : ℚ) < 10 ^ e := by positivity
  have hq : valueAt n ≤ valueAt p := strictMono_valueAt.monotone hp
  have hq' : valueAt (n + 1) ≤ valueAt (p + 1) := strictMono_valueAt.monotone (by omega)
  rw [← add_div, le_div_iff₀ hpos]
  rcases h.above with h | ⟨h, -⟩ <;> linarith

section
variable {b j m : ℕ} {e : ℤ} (hb : Beside (b * 2 ^ 52 + j) m e)
include hb

theorem Beside.abs_sub_le (hlow : 2 ^ 52 < j) (hhigh : j < 2 ^ 53) :
    |(m : ℚ) - j * ratio b e| ≤ 1 / 2 := by
  rw [← valueAt_div (.inr hlow.le) hhigh.le]
  exact hb.near

theorem Beside.one_lt_ratio (hlow : 2 ^ 52 < j) (hhigh : j < 2 ^ 53) : 1 < ratio b e := by
  have hnear := (abs_le.1 (hb.abs_sub_le hlow hhigh)).2
  have hm : (2 : ℚ) ^ 53 + 1 ≤ m := by exact_mod_cast hb.lower
  have hj : (j : ℚ) + 1 ≤ 2 ^ 53 := by exact_mod_cast hhigh
  by_contra hle
  nlinarith

theorem Beside.ratio_lt (hlow : 2 ^ 52 < j) (hhigh : j < 2 ^ 53) : ratio b e < 23 := by
  have hnear := (abs_le.1 (hb.abs_sub_le hlow hhigh)).1
  have hm : (m : ℚ) ≤ 10 ^ 17 := by exact_mod_cast hb.upper
  have hj : (2 : ℚ) ^ 52 ≤ j := by exact_mod_cast hlow.le
  by_contra hge
  nlinarith

end

/-- The unit of digits and the multiple of it that they are rounded to. -/
structure Unit (m s k : ℕ) : Prop where
  small : s < 4
  lower : 2 ^ 52 * 2 ^ (s + 1) ≤ m
  upper : m < 2 ^ 53 * 2 ^ (s + 1)
  least : 2 ^ 52 ≤ k
  most : k ≤ 2 ^ 53
  value : rounded m = (2 * 2 ^ s * k : ℤ)
  rounds : RoundsTo ((m : ℤ) / (2 * (2 ^ s : ℤ))) k

theorem Beside.exists_unit {n m : ℕ} {e : ℤ} (hb : Beside n m e) : ∃ s k, Unit m s k := by
  obtain ⟨s, hs, hlow, hhigh⟩ := Double.exists_unit hb.lower.le hb.upper
  obtain ⟨k, hleast, hmost, hk, hround⟩ := exists_rounded_eq hlow hhigh.le
  refine ⟨s, k, hs, hlow, hhigh, hleast, hmost, ?_, ?_⟩
  · rw [hk, pow_succ]
    push_cast
    ring
  · push_cast
    rwa [← pow_succ']

theorem Unit.abs_rounded_sub_le {m s k : ℕ} (h : Unit m s k) : |rounded m - m| ≤ 2 ^ s := by
  have hupper := h.rounds.upper
  have hlower := h.rounds.lower
  have hp : (0 : ℚ) < 2 ^ s := by positivity
  have hm : (m : ℚ) / (2 * 2 ^ s) * (2 * 2 ^ s) = m := div_mul_cancel₀ _ (by positivity)
  rw [h.value, abs_le]
  push_cast at *
  generalize (m : ℚ) / (2 * 2 ^ s) = t at *
  constructor <;> nlinarith

/-- Of two numbers that are read as different doubles the smaller one is rounded to a smaller
number. -/
theorem Unit.lt_of_nearest {m₀ m₁ s₀ s₁ k₀ k₁ n₀ n₁ : ℕ} {e : ℤ} (h₀ : Unit m₀ s₀ k₀)
    (h₁ : Unit m₁ s₁ k₁) (hn₀ : Nearest (rounded m₀ * 10 ^ e) n₀)
    (hn₁ : Nearest (rounded m₁ * 10 ^ e) n₁) (hlt : n₀ < n₁) :
    (2 * 2 ^ s₀ * k₀ : ℤ) < 2 * 2 ^ s₁ * k₁ := by
  by_contra hge
  have hback : rounded m₁ ≤ rounded m₀ := by
    rw [h₀.value, h₁.value]
    exact_mod_cast not_lt.1 hge
  have hpos : (0 : ℚ) < 10 ^ e := by positivity
  exact absurd hlt (not_lt.2 (hn₁.mono hn₀ (mul_le_mul_of_nonneg_right hback hpos.le)))

theorem Unit.lower_cast {m s k : ℕ} (h : Unit m s k) : (2 : ℚ) ^ 53 * 2 ^ s ≤ m := by
  have hle : 2 ^ 53 * 2 ^ s ≤ m := by
    rw [← pow_add, show 53 + s = 52 + (s + 1) by omega, pow_add]
    exact h.lower
  exact_mod_cast hle

section
variable {b j m n : ℕ} {e : ℤ} (hb : Beside (b * 2 ^ 52 + j) m e) (hlow : 2 ^ 52 < j)
  (hhigh : j < 2 ^ 53) (hn : Nearest (rounded m * 10 ^ e) n)
include hb hlow hhigh hn

/-! What the digits of a double are read as is the double or one of its neighbours. -/

theorem Beside.le_succ : n ≤ b * 2 ^ 52 + j + 1 := by
  obtain ⟨s, k, hu⟩ := hb.exists_unit
  have hρ := hb.one_lt_ratio hlow hhigh
  have hnear := abs_le.1 (hb.abs_sub_le hlow hhigh)
  have hround := abs_le.1 hu.abs_rounded_sub_le
  have hunit := hu.lower_cast
  have hj : (j : ℚ) + 1 ≤ 2 ^ 53 := by exact_mod_cast hhigh
  have hpos : (0 : ℚ) < 10 ^ e := by positivity
  by_contra hfar
  have hmid := hn.mid_le (p := b * 2 ^ 52 + j + 1) (by omega)
  have hgap : ratio b e ≤ gapAt (b * 2 ^ 52 + (j + 1)) / 10 ^ e := by
    rw [← gapAt_div (.inr hlow.le) hhigh]
    exact div_le_div_of_nonneg_right (gapAt_mono (by omega)) hpos.le
  rw [valueAt_succ (b * 2 ^ 52 + j + 1), add_div, add_assoc, valueAt_div (.inr (by omega)) hhigh]
    at hmid
  generalize gapAt (b * 2 ^ 52 + (j + 1)) = g at hgap hmid
  push_cast at hmid
  have hm : (m : ℚ) ≤ (2 ^ 53 - 1) * ratio b e + 1 / 2 := by nlinarith
  linarith

theorem Beside.le_succ_of_nearest : b * 2 ^ 52 + j ≤ n + 1 := by
  obtain ⟨s, k, hu⟩ := hb.exists_unit
  have hρ := hb.one_lt_ratio hlow hhigh
  have hρ' := hb.ratio_lt hlow hhigh
  have hnear := abs_le.1 (hb.abs_sub_le hlow hhigh)
  have hround := abs_le.1 hu.abs_rounded_sub_le
  have hunit := hu.lower_cast
  have hpos : (0 : ℚ) < 10 ^ e := by positivity
  by_contra hfar
  obtain ⟨i, rfl⟩ : ∃ i, j = i + 1 := ⟨j - 1, by omega⟩
  obtain ⟨p, hp⟩ : ∃ p, b * 2 ^ 52 + i = p + 1 := ⟨b * 2 ^ 52 + i - 1, by omega⟩
  have hmid := hn.le_mid (p := p) (by omega)
  have hvalue : valueAt (p + 1) / 10 ^ e = i * ratio b e := by
    rw [← hp, valueAt_div (.inr (by omega)) (by omega)]
  have hsucc : valueAt (p + 1) / 10 ^ e = valueAt p / 10 ^ e + gapAt p / 10 ^ e := by
    rw [valueAt_succ, add_div]
  push_cast at hnear
  by_cases hleast : i = 2 ^ 52
  · -- below a power of two the gaps are half as wide, but there the digits are few
    have hgap := div_le_div_of_nonneg_right (gapAt_succ_le p) hpos.le
    rw [← hp, gapAt_div (.inr (by omega)) (by omega), mul_div_assoc] at hgap
    have hi : (i : ℚ) = 2 ^ 52 := by exact_mod_cast hleast
    rw [hi] at hnear hvalue
    linarith
  · have hgap : gapAt p / 10 ^ e = ratio b e := by
      obtain ⟨h, rfl⟩ : ∃ h, i = h + 1 := ⟨i - 1, by omega⟩
      obtain rfl : p = b * 2 ^ 52 + h := by omega
      exact gapAt_div (.inr (by omega)) (by omega) e
    have hi : (i : ℚ) + 2 ≤ 2 ^ 53 := by exact_mod_cast hhigh
    have hm := mul_le_mul_of_nonneg_right hi (one_pos.trans hρ).le
    linarith only [hm, hmid, hvalue, hsucc, hgap, hnear.1, hnear.2, hround.1, hunit, hρ]

end

/-! ## Two steps -/

/-- Numbers that are not far apart have the same unit, unless a power of two lies between. -/
theorem Unit.eq_or_succ {m₀ m₁ s₀ s₁ k₀ k₁ : ℕ} (h₀ : Unit m₀ s₀ k₀) (h₁ : Unit m₁ s₁ k₁)
    (hle : m₀ ≤ m₁) (hclose : m₁ ≤ m₀ + 24) : s₀ = s₁ ∨ s₁ = s₀ + 1 := by
  obtain ⟨hs₀, hlow₀, hup₀, -⟩ := h₀
  obtain ⟨hs₁, hlow₁, hup₁, -⟩ := h₁
  interval_cases s₀ <;> interval_cases s₁ <;> omega

section
variable {b j m₀ m₁ n : ℕ} {e : ℤ} (hb₀ : Beside (b * 2 ^ 52 + j) m₀ e)
  (hb₁ : Beside (b * 2 ^ 52 + (j + 1)) m₁ e) (hlow : 2 ^ 52 < j) (hhigh : j + 1 < 2 ^ 53)
include hb₀ hb₁ hlow hhigh

theorem Beside.digits_le : m₀ ≤ m₁ ∧ m₁ ≤ m₀ + 24 := by
  have hρ := hb₀.one_lt_ratio hlow (by omega)
  have hρ' := hb₀.ratio_lt hlow (by omega)
  have hnear₀ := abs_le.1 (hb₀.abs_sub_le hlow (by omega))
  have hnear₁ := abs_le.1 (hb₁.abs_sub_le (by omega) hhigh)
  push_cast at hnear₁
  constructor
  · have : (m₀ : ℚ) ≤ m₁ := by linarith
    exact_mod_cast this
  · have : (m₁ : ℚ) ≤ m₀ + 24 := by linarith
    exact_mod_cast this

/-- A double that was reached from below is read as itself. -/
theorem Beside.stays_of_up (hx : Nearest (rounded m₀ * 10 ^ e) (b * 2 ^ 52 + (j + 1)))
    (hy : Nearest (rounded m₁ * 10 ^ e) n) : n = b * 2 ^ 52 + (j + 1) := by
  obtain ⟨hle, hclose⟩ := hb₀.digits_le hb₁ hlow hhigh
  have hpos : (0 : ℚ) < 10 ^ e := by positivity
  have hge : b * 2 ^ 52 + (j + 1) ≤ n :=
    hx.mono hy (mul_le_mul_of_nonneg_right (rounded_mono hle) hpos.le)
  by_contra hne
  obtain ⟨s₀, k₀, hu₀⟩ := hb₀.exists_unit
  obtain ⟨s₁, k₁, hu₁⟩ := hb₁.exists_unit
  have hρ := hb₀.one_lt_ratio hlow (by omega)
  obtain ⟨hρ₃, hρs⟩ := gap_ne hu₁.small hρ
  have hmid₀ := hx.mid_le (p := b * 2 ^ 52 + j) (by omega)
  have hmid₁ := hy.mid_le (p := b * 2 ^ 52 + (j + 1)) (by omega)
  rw [mid_div hlow.le (by omega), hu₀.value] at hmid₀
  rw [mid_div (by omega) hhigh, hu₁.value] at hmid₁
  have hnear₀ := hb₀.abs_sub_le hlow (by omega)
  have hnear₁ := hb₁.abs_sub_le (by omega) hhigh
  have hlt := hu₀.lt_of_nearest hu₁ hx hy (by omega)
  refine absurd hmid₁ (not_le.2 ?_)
  have hstep := no_second_step (j * ratio b e) (2 ^ s₀) (2 ^ s₁) hρ hρ₃ ?_
    (by positivity) (by positivity) hnear₀ ?_ hu₀.rounds hu₁.rounds ?_ hlt ?_
  · push_cast at hstep ⊢
    linarith
  · push_cast at hρs ⊢
    exact hρs
  · rwa [Nat.cast_add_one, add_one_mul] at hnear₁
  · rcases hu₀.eq_or_succ hu₁ hle hclose with rfl | rfl
    · exact .inl rfl
    · refine .inr (.inl ⟨by ring, 2 ^ 52, ?_, ?_⟩)
      · have hk : (k₀ : ℤ) ≤ 2 ^ 53 := by exact_mod_cast hu₀.most
        exact (mul_le_mul_of_nonneg_left hk (by positivity)).trans_eq (by ring)
      · have hm : 2 * 2 ^ (s₀ + 1) * 2 ^ 52 ≤ m₁ :=
          le_of_eq_of_le (by ring) hu₁.lower
        exact_mod_cast hm
  · push_cast at hmid₀ ⊢
    linarith

/-- A double that was reached from above is read as itself. -/
theorem Beside.stays_of_down (hx : Nearest (rounded m₁ * 10 ^ e) (b * 2 ^ 52 + j))
    (hy : Nearest (rounded m₀ * 10 ^ e) n) : n = b * 2 ^ 52 + j := by
  obtain ⟨hle, hclose⟩ := hb₀.digits_le hb₁ hlow hhigh
  have hpos : (0 : ℚ) < 10 ^ e := by positivity
  have hge : n ≤ b * 2 ^ 52 + j :=
    hy.mono hx (mul_le_mul_of_nonneg_right (rounded_mono hle) hpos.le)
  by_contra hne
  obtain ⟨s₀, k₀, hu₀⟩ := hb₀.exists_unit
  obtain ⟨s₁, k₁, hu₁⟩ := hb₁.exists_unit
  have hρ := hb₀.one_lt_ratio hlow (by omega)
  obtain ⟨hρ₃, hρs⟩ := gap_ne hu₀.small hρ
  obtain ⟨i, rfl⟩ : ∃ i, j = i + 1 := ⟨j - 1, by omega⟩
  have hmid₁ := hx.le_mid (p := b * 2 ^ 52 + (i + 1)) le_rfl
  have hmid₀ := hy.le_mid (p := b * 2 ^ 52 + i) (by omega)
  rw [mid_div (by omega) (by omega), hu₀.value] at hmid₀
  rw [mid_div (by omega) (by omega), hu₁.value] at hmid₁
  have hnear₀ := hb₀.abs_sub_le hlow (by omega)
  have hnear₁ := hb₁.abs_sub_le (by omega) hhigh
  have hlt := hu₀.lt_of_nearest hu₁ hy hx (by omega)
  refine absurd hmid₀ (not_le.2 ?_)
  -- seen from the other side, this is the way up
  have hrounds₀ := hu₀.rounds.neg
  have hrounds₁ := hu₁.rounds.neg
  rw [← neg_div, ← Int.cast_neg] at hrounds₀ hrounds₁
  have hstep := no_second_step (-((i + 1 + 1 : ℕ) * ratio b e)) (2 ^ s₁) (2 ^ s₀) hρ hρ₃ ?_
    (by positivity) (by positivity) ?_ ?_ hrounds₁ hrounds₀ ?_ (by linarith) ?_
  · push_cast at hstep ⊢
    linarith
  · push_cast at hρs ⊢
    exact hρs
  · rwa [Int.cast_neg, ← neg_sub', abs_neg]
  · rw [← abs_neg] at hnear₀
    convert hnear₀ using 2
    push_cast
    ring
  · rcases hu₀.eq_or_succ hu₁ hle hclose with rfl | rfl
    · exact .inl rfl
    · refine .inr (.inr ⟨by ring, -2 ^ 52, ?_, ?_⟩)
      · have hk : (2 : ℤ) ^ 52 ≤ k₁ := by exact_mod_cast hu₁.least
        exact mul_le_mul_of_nonneg_left (neg_le_neg hk) (by positivity)
      · have hm : m₀ ≤ 2 * 2 ^ (s₀ + 1) * 2 ^ 52 :=
          hu₀.upper.le.trans_eq (by ring)
        have hmz : (m₀ : ℤ) ≤ 2 * 2 ^ (s₀ + 1) * 2 ^ 52 := by exact_mod_cast hm
        linarith
  · push_cast at hmid₁ ⊢
    linarith

end

/-- **A double that another one was read as is read as itself**, if the digits of both are counted
in the same power of ten. -/
theorem Beside.stays {b i j m m' n : ℕ} {e : ℤ} (hb : Beside (b * 2 ^ 52 + j) m e)
    (hb' : Beside (b * 2 ^ 52 + i) m' e) (hj : 2 ^ 52 < j) (hj' : j < 2 ^ 53) (hi : 2 ^ 52 < i)
    (hi' : i < 2 ^ 53) (hne : i ≠ j) (hx : Nearest (rounded m * 10 ^ e) (b * 2 ^ 52 + i))
    (hy : Nearest (rounded m' * 10 ^ e) n) : n = b * 2 ^ 52 + i := by
  have hup := hb.le_succ hj hj' hx
  have hdown := hb.le_succ_of_nearest hj hj' hx
  obtain rfl | rfl : i = j + 1 ∨ j = i + 1 := by omega
  · exact hb.stays_of_up hb' hj hi' hx hy
  · exact hb'.stays_of_down hb hi hj' hx hy

end CoinRelay.Json.Double
