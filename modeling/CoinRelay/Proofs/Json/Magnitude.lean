import CoinRelay.Json.Number
import Mathlib

/-! # Magnitudes of doubles

The magnitudes are counted by their places: each lies one gap above the one before, and the gaps are
powers of two that never shrink. `Double.nearest` finds the place of the magnitude nearest to a
fraction, and being nearest fixes the place and respects the order (`Nearest.mono`). -/

namespace CoinRelay.Json

theorem power_div_power {b : ℕ} (hb : 0 < b) (e : ℤ) :
    (power b e : ℚ) / power b (-e) = (b : ℚ) ^ e := by
  have hpos : (b : ℚ) ≠ 0 := by exact_mod_cast hb.ne'
  unfold power
  rcases Int.eq_nat_or_neg e with ⟨n, rfl | rfl⟩
  · simp
  · simp

theorem two_zpow (e : ℤ) : (2 : ℚ) ^ e = power 2 e / power 2 (-e) := by
  exact_mod_cast (power_div_power two_pos e).symm

theorem ten_zpow (e : ℤ) : (10 : ℚ) ^ e = power 10 e / power 10 (-e) := by
  exact_mod_cast (power_div_power (show 0 < 10 by norm_num) e).symm

namespace Double

/-- The magnitude at a place. -/
def valueAt (n : ℕ) : ℚ := mantissaAt n * 2 ^ exponentAt n

/-- What is between the magnitude at a place and the next one. -/
def gapAt (n : ℕ) : ℚ := 2 ^ exponentAt n

theorem gapAt_pos (n : ℕ) : 0 < gapAt n := by unfold gapAt; positivity

theorem valueAt_zero : valueAt 0 = 0 := by
  have h : mantissaAt 0 = 0 := by decide
  simp [valueAt, h]

/-- With the mantissa `k` and the exponent `q`, the place is the sum of two parts. The largest
mantissa of an exponent may also be written as the least one of the next. -/
theorem mantissaAt_add {b k : ℕ} (hlow : b = 0 ∨ 2 ^ 52 ≤ k) (hhigh : k < 2 ^ 53) :
    mantissaAt (b * 2 ^ 52 + k) = k ∧ exponentAt (b * 2 ^ 52 + k) = (b : ℤ) - 1074 := by
  have hp : power 2 52 = 2 ^ 52 := rfl
  unfold mantissaAt exponentAt
  rw [hp]
  by_cases hk : k < 2 ^ 52
  · obtain rfl : b = 0 := by omega
    have hn : 0 * 2 ^ 52 + k < 2 ^ 52 := by omega
    rw [if_pos hn, if_pos hn]
    omega
  · have hn : ¬ b * 2 ^ 52 + k < 2 ^ 52 := by omega
    rw [if_neg hn, if_neg hn]
    omega

theorem exists_place_parts (n : ℕ) :
    ∃ b k : ℕ, n = b * 2 ^ 52 + k ∧ (b = 0 ∨ 2 ^ 52 ≤ k) ∧ k < 2 ^ 53 := by
  by_cases hn : n < 2 ^ 52
  · exact ⟨0, n, by omega, .inl rfl, by omega⟩
  · exact ⟨n / 2 ^ 52 - 1, n % 2 ^ 52 + 2 ^ 52, by omega, .inr (by omega), by omega⟩

theorem valueAt_add {b k : ℕ} (hlow : b = 0 ∨ 2 ^ 52 ≤ k) (hhigh : k ≤ 2 ^ 53) :
    valueAt (b * 2 ^ 52 + k) = k * 2 ^ ((b : ℤ) - 1074) := by
  rcases hhigh.lt_or_eq with hk | rfl
  · obtain ⟨hm, he⟩ := mantissaAt_add hlow hk
    rw [valueAt, hm, he]
  · have hsplit : b * 2 ^ 52 + 2 ^ 53 = (b + 1) * 2 ^ 52 + 2 ^ 52 := by ring
    obtain ⟨hm, he⟩ := mantissaAt_add (b := b + 1) (k := 2 ^ 52) (.inr le_rfl) (by norm_num)
    have hexp : ((b + 1 : ℕ) : ℤ) - 1074 = (b : ℤ) - 1074 + 1 := by push_cast; ring
    rw [hsplit, valueAt, hm, he, hexp, zpow_add_one₀ two_ne_zero]
    push_cast
    ring

theorem gapAt_add {b k : ℕ} (hlow : b = 0 ∨ 2 ^ 52 ≤ k) (hhigh : k < 2 ^ 53) :
    gapAt (b * 2 ^ 52 + k) = 2 ^ ((b : ℤ) - 1074) := by
  rw [gapAt, (mantissaAt_add hlow hhigh).2]

theorem valueAt_succ (n : ℕ) : valueAt (n + 1) = valueAt n + gapAt n := by
  obtain ⟨b, k, rfl, hlow, hhigh⟩ := exists_place_parts n
  rw [gapAt_add hlow hhigh, valueAt_add hlow hhigh.le, add_assoc,
    valueAt_add (hlow.imp_right fun h => by omega) hhigh]
  push_cast
  ring

theorem strictMono_valueAt : StrictMono valueAt :=
  strictMono_nat_of_lt_succ fun n => by
    rw [valueAt_succ]
    exact lt_add_of_pos_right _ (gapAt_pos n)

theorem gapAt_mono : Monotone gapAt := by
  have hp : power 2 52 = 2 ^ 52 := rfl
  intro m n h
  refine zpow_le_zpow_right₀ one_le_two ?_
  unfold exponentAt
  rw [hp]
  split <;> split <;> omega

theorem gapAt_succ_le (n : ℕ) : gapAt (n + 1) ≤ 2 * gapAt n := by
  have hp : power 2 52 = 2 ^ 52 := rfl
  rw [gapAt, gapAt, mul_comm, ← zpow_add_one₀ two_ne_zero]
  refine zpow_le_zpow_right₀ one_le_two ?_
  unfold exponentAt
  rw [hp]
  split <;> split <;> omega

theorem valueAt_pos {n : ℕ} (h : 0 < n) : 0 < valueAt n := by
  rw [← valueAt_zero]
  exact strictMono_valueAt h

theorem le_floorAt_iff {k n : ℕ} : k ≤ floorAt n ↔ (k : ℚ) ≤ valueAt n := by
  have hpos : 0 < power 2 (-exponentAt n) := power_pos two_pos _
  have hposq : (0 : ℚ) < power 2 (-exponentAt n) := by exact_mod_cast hpos
  rw [floorAt, Nat.le_div_iff_mul_le hpos, valueAt, two_zpow, ← mul_div_assoc, le_div_iff₀ hposq]
  exact_mod_cast Iff.rfl

theorem even_mantissaAt (n : ℕ) : Even (mantissaAt n) ↔ Even n := by
  obtain ⟨b, k, rfl, hlow, hhigh⟩ := exists_place_parts n
  rw [(mantissaAt_add hlow hhigh).1, Nat.even_add]
  have hb : Even (b * 2 ^ 52) := (even_two.pow_of_ne_zero (by norm_num)).mul_left b
  tauto

/-! ## Being nearest -/

/-- No magnitude is nearer to `t` than the one at the place, and it is even if another one is as
near. -/
structure Nearest (t : ℚ) (n : ℕ) : Prop where
  below : ∀ p, p + 1 = n →
    valueAt p + valueAt n < 2 * t ∨ valueAt p + valueAt n = 2 * t ∧ Even n
  above : 2 * t < valueAt n + valueAt (n + 1) ∨ 2 * t = valueAt n + valueAt (n + 1) ∧ Even n

theorem nearest_succ_iff {t : ℚ} {p n : ℕ} (hp : p + 1 = n) : Nearest t n ↔
    (valueAt p + valueAt n < 2 * t ∨ valueAt p + valueAt n = 2 * t ∧ Even n) ∧
      (2 * t < valueAt n + valueAt (n + 1) ∨ 2 * t = valueAt n + valueAt (n + 1) ∧ Even n) := by
  constructor
  · intro h
    exact ⟨h.below p hp, h.above⟩
  · rintro ⟨hbelow, habove⟩
    refine ⟨fun q hq => ?_, habove⟩
    obtain rfl : q = p := by omega
    exact hbelow

/-- Within half a gap there is no nearer magnitude. -/
theorem nearest_of_between {t : ℚ} {p n : ℕ} (hp : p + 1 = n) (hlow : valueAt n - gapAt p / 2 < t)
    (hhigh : t < valueAt n + gapAt n / 2) : Nearest t n := by
  have hsucc := valueAt_succ p
  rw [hp] at hsucc
  rw [nearest_succ_iff hp, valueAt_succ]
  exact ⟨.inl (by linarith), .inl (by linarith)⟩

/-- What is nearest to a number is at most half a gap away. -/
theorem Nearest.between {t : ℚ} {p n : ℕ} (hp : p + 1 = n) (h : Nearest t n) :
    valueAt n - gapAt p / 2 ≤ t ∧ t ≤ valueAt n + gapAt n / 2 := by
  have hsucc := valueAt_succ p
  rw [hp] at hsucc
  rw [nearest_succ_iff hp, valueAt_succ] at h
  constructor
  · rcases h.1 with h | ⟨h, -⟩ <;> linarith
  · rcases h.2 with h | ⟨h, -⟩ <;> linarith

theorem Nearest.mono {s t : ℚ} {m n : ℕ} (hm : Nearest s m) (hn : Nearest t n) (h : s ≤ t) :
    m ≤ n := by
  by_contra hlt
  obtain ⟨p, rfl⟩ : ∃ p, m = p + 1 := ⟨m - 1, by omega⟩
  have hnp : valueAt n ≤ valueAt p := strictMono_valueAt.monotone (by omega)
  have hsucc : valueAt (n + 1) ≤ valueAt (p + 1) := strictMono_valueAt.monotone (by omega)
  rcases hm.below p rfl with hb | ⟨hb, hme⟩
  · rcases hn.above with ha | ⟨ha, -⟩ <;> linarith
  · rcases hn.above with ha | ⟨ha, hne⟩
    · linarith
    · -- both are ties, of neighbours, and two neighbours are not both even
      obtain rfl : n = p := strictMono_valueAt.injective (by linarith)
      exact absurd hme (by simpa [Nat.even_add_one] using hne)

theorem Nearest.unique {t : ℚ} {m n : ℕ} (hm : Nearest t m) (hn : Nearest t n) : m = n :=
  le_antisymm (hm.mono hn le_rfl) (hn.mono hm le_rfl)

theorem nearest_valueAt (n : ℕ) : Nearest (valueAt n) n where
  below := by
    rintro p rfl
    have h := strictMono_valueAt (Nat.lt_succ_self p)
    exact .inl (by linarith)
  above := by
    have h := strictMono_valueAt (Nat.lt_succ_self n)
    exact .inl (by linarith)

/-- A fraction below a magnitude is not rounded beyond it. -/
theorem Nearest.le_of_le {t : ℚ} {n p : ℕ} (h : Nearest t n) (hp : t ≤ valueAt p) : n ≤ p :=
  h.mono (nearest_valueAt p) hp

theorem Nearest.ge_of_ge {t : ℚ} {n p : ℕ} (h : Nearest t n) (hp : valueAt p ≤ t) : p ≤ n :=
  (nearest_valueAt p).mono h hp

/-! ## Rounding to whole numbers -/

/-- No whole number is nearer to `s`, and it is even if another one is as near. -/
structure RoundsTo (s : ℚ) (k : ℤ) : Prop where
  below : 2 * (k : ℚ) - 1 < 2 * s ∨ 2 * (k : ℚ) - 1 = 2 * s ∧ Even k
  above : 2 * s < 2 * (k : ℚ) + 1 ∨ 2 * s = 2 * (k : ℚ) + 1 ∧ Even k

theorem RoundsTo.lower {s : ℚ} {k : ℤ} (h : RoundsTo s k) : 2 * (k : ℚ) - 1 ≤ 2 * s :=
  h.below.elim le_of_lt fun h => h.1.le

theorem RoundsTo.upper {s : ℚ} {k : ℤ} (h : RoundsTo s k) : 2 * s ≤ 2 * (k : ℚ) + 1 :=
  h.above.elim le_of_lt fun h => h.1.le

theorem RoundsTo.ge_of_ge {s : ℚ} {k i : ℕ} (h : RoundsTo s k) (hi : (i : ℚ) ≤ s) : i ≤ k := by
  have hle : (2 * i : ℚ) ≤ 2 * k + 1 := by
    have := h.upper
    push_cast at this
    linarith
  have : 2 * i ≤ 2 * k + 1 := by exact_mod_cast hle
  omega

theorem RoundsTo.le_of_le {s : ℚ} {k i : ℕ} (h : RoundsTo s k) (hi : s ≤ i) : k ≤ i := by
  have hle : (2 * k : ℚ) ≤ 2 * i + 1 := by
    have := h.lower
    push_cast at this
    linarith
  have : 2 * k ≤ 2 * i + 1 := by exact_mod_cast hle
  omega

theorem roundsTo_roundEven (n : ℕ) {d : ℕ} (hd : 0 < d) :
    RoundsTo (n / d) (roundEven n d : ℕ) := by
  have hdq : (0 : ℚ) < d := by exact_mod_cast hd
  have hs : (n : ℚ) / d = (n / d : ℕ) + (n % d : ℕ) / d := by
    have hdiv : (n : ℚ) = d * (n / d : ℕ) + (n % d : ℕ) := by
      exact_mod_cast (Nat.div_add_mod n d).symm
    field_simp
    linarith
  have hlt : ((n % d : ℕ) : ℚ) / d < 1 := by
    rw [div_lt_one hdq]
    exact_mod_cast Nat.mod_lt n hd
  have hnonneg : 0 ≤ ((n % d : ℕ) : ℚ) / d := by positivity
  rw [hs]
  unfold roundEven
  clear hs
  generalize n / d = m
  generalize n % d = r at *
  split
  · next hup =>
    refine ⟨?_, .inl (by push_cast; linarith)⟩
    rcases hup with h | ⟨h, hodd⟩
    · have h : (1 : ℚ) < 2 * (r / d) := by
        rw [← mul_div_assoc, one_lt_div hdq]
        exact_mod_cast h
      exact .inl (by push_cast; linarith)
    · have h : 2 * ((r : ℚ) / d) = 1 := by
        rw [← mul_div_assoc, div_eq_one_iff_eq hdq.ne']
        exact_mod_cast h
      refine .inr ⟨by push_cast; linarith, ?_⟩
      rw [Int.even_iff]
      omega
  · next hup =>
    rw [not_or, not_and_or] at hup
    refine ⟨.inl (by push_cast; linarith), ?_⟩
    have h : 2 * ((r : ℚ) / d) ≤ 1 := by
      rw [← mul_div_assoc, div_le_one hdq]
      exact_mod_cast not_lt.1 hup.1
    rcases h.lt_or_eq with h | h
    · exact .inl (by push_cast; linarith)
    · refine .inr ⟨by push_cast; linarith, ?_⟩
      rw [← mul_div_assoc, div_eq_one_iff_eq hdq.ne'] at h
      have h : 2 * r = d := by exact_mod_cast h
      rw [Int.even_iff]
      omega

/-- Rounding in units of one exponent finds the nearest magnitude. -/
theorem RoundsTo.nearest {s : ℚ} {b k : ℕ} (h : RoundsTo s k) (hlow : b = 0 ∨ 2 ^ 52 ≤ s)
    (hhigh : s ≤ 2 ^ 53) : Nearest (s * 2 ^ ((b : ℤ) - 1074)) (b * 2 ^ 52 + k) := by
  have hk : b = 0 ∨ 2 ^ 52 ≤ k :=
    hlow.imp_right fun hs => h.ge_of_ge (by exact_mod_cast hs)
  have hk' : k ≤ 2 ^ 53 := h.le_of_le (by exact_mod_cast hhigh)
  have hu : (0 : ℚ) < 2 ^ ((b : ℤ) - 1074) := by positivity
  have heven : Even (k : ℤ) → Even (b * 2 ^ 52 + k) := by
    intro hek
    have hb : Even (b * 2 ^ 52) := (even_two.pow_of_ne_zero (by norm_num)).mul_left b
    exact hb.add (by exact_mod_cast hek)
  generalize hq : (2 : ℚ) ^ ((b : ℤ) - 1074) = u at hu ⊢
  have hvalue : valueAt (b * 2 ^ 52 + k) = k * u := by rw [valueAt_add hk hk', hq]
  constructor
  · intro p hp
    by_cases hleast : b = 0 ∨ 2 ^ 52 < k
    · obtain ⟨j, rfl⟩ : ∃ j, k = j + 1 := ⟨k - 1, by omega⟩
      obtain rfl : p = b * 2 ^ 52 + j := by omega
      rw [hvalue, valueAt_add (by omega) (by omega), hq]
      push_cast
      rcases h.below with hb | ⟨hb, hek⟩
      · push_cast at hb
        exact .inl (by nlinarith)
      · push_cast at hb
        exact .inr ⟨by linear_combination u * hb, heven hek⟩
    · -- the least mantissa of an exponent: `s` is not below it
      obtain rfl : k = 2 ^ 52 := by omega
      have hs := hlow.resolve_left (by omega)
      have hp' : valueAt p < valueAt (b * 2 ^ 52 + 2 ^ 52) := strictMono_valueAt (by omega)
      rw [hvalue] at hp' ⊢
      push_cast at hp' ⊢
      exact .inl (by nlinarith)
  · rw [valueAt_succ, hvalue]
    rcases hk'.lt_or_eq with hlt | rfl
    · rw [gapAt_add hk hlt, hq]
      rcases h.above with ha | ⟨ha, hek⟩
      · push_cast at ha
        exact .inl (by nlinarith)
      · push_cast at ha
        exact .inr ⟨by linear_combination u * ha, heven hek⟩
    · have hgap := gapAt_pos (b * 2 ^ 52 + 2 ^ 53)
      generalize gapAt (b * 2 ^ 52 + 2 ^ 53) = g at hgap ⊢
      push_cast
      exact .inl (by nlinarith)

theorem exists_roundsTo {s : ℚ} (hs : 0 ≤ s) : ∃ k : ℕ, RoundsTo s k := by
  have h := roundsTo_roundEven s.num.toNat s.den_pos
  have hnum : ((s.num.toNat : ℕ) : ℚ) = s.num := by
    exact_mod_cast Int.toNat_of_nonneg (Rat.num_nonneg.2 hs)
  rw [hnum, Rat.num_div_den] at h
  exact ⟨_, h⟩

/-! ## The nearest magnitude of a fraction -/

theorem power_le_iff {a b : ℕ} (hb : 0 < b) (e : ℤ) :
    b * power 2 e ≤ a * power 2 (-e) ↔ (2 : ℚ) ^ e ≤ a / b := by
  have hbq : (0 : ℚ) < b := by exact_mod_cast hb
  have hp : (0 : ℚ) < power 2 (-e) := by exact_mod_cast power_pos two_pos (-e)
  rw [two_zpow, div_le_div_iff₀ hp hbq]
  norm_cast
  rw [mul_comm]

theorem logRatio_spec {a b : ℕ} (ha : 0 < a) (hb : 0 < b) :
    (2 : ℚ) ^ logRatio a b ≤ a / b ∧ (a : ℚ) / b < 2 ^ (logRatio a b + 1) := by
  have hbq : (0 : ℚ) < b := by exact_mod_cast hb
  have ha₁ : (2 : ℚ) ^ (a.log2 : ℤ) ≤ a := by exact_mod_cast Nat.log2_self_le ha.ne'
  have ha₂ : (a : ℚ) < 2 ^ ((a.log2 : ℤ) + 1) := by exact_mod_cast Nat.lt_log2_self
  have hb₁ : (2 : ℚ) ^ (b.log2 : ℤ) ≤ b := by exact_mod_cast Nat.log2_self_le hb.ne'
  have hb₂ : (b : ℚ) < 2 ^ ((b.log2 : ℤ) + 1) := by exact_mod_cast Nat.lt_log2_self
  unfold logRatio
  simp only [power_le_iff hb]
  generalize (a.log2 : ℤ) = i at *
  generalize (b.log2 : ℤ) = j at *
  have hj : (0 : ℚ) < 2 ^ j := by positivity
  split
  · next h =>
    refine ⟨h, ?_⟩
    rw [div_lt_iff₀ hbq]
    calc (a : ℚ) < 2 ^ (i + 1) := ha₂
      _ = 2 ^ (i - j + 1) * 2 ^ j := by rw [← zpow_add₀ two_ne_zero]; ring_nf
      _ ≤ 2 ^ (i - j + 1) * b := by gcongr
  · next h =>
    rw [sub_add_cancel]
    refine ⟨?_, not_le.1 h⟩
    rw [le_div_iff₀ hbq]
    calc (2 : ℚ) ^ (i - j - 1) * b ≤ 2 ^ (i - j - 1) * 2 ^ (j + 1) := by gcongr
      _ = 2 ^ i := by rw [← zpow_add₀ two_ne_zero]; ring_nf
      _ ≤ a := ha₁

/-- **Rounding a fraction finds the nearest magnitude.** -/
theorem nearest_spec (a : ℕ) {b : ℕ} (hb : 0 < b) : Nearest ((a : ℚ) / b) (nearest a b) := by
  unfold nearest
  split
  · next ha =>
    subst ha
    simpa [valueAt_zero] using nearest_valueAt 0
  · next ha =>
    obtain ⟨hlow, hhigh⟩ := logRatio_spec (Nat.pos_of_ne_zero ha) hb
    simp only
    generalize logRatio a b = l at hlow hhigh
    generalize hq : max (l - 52) (-1074) = q
    obtain ⟨c, rfl⟩ : ∃ c : ℕ, q = (c : ℤ) - 1074 := ⟨(q + 1074).toNat, by omega⟩
    have hbq : (0 : ℚ) < b := by exact_mod_cast hb
    have hd : 0 < b * power 2 ((c : ℤ) - 1074) := Nat.mul_pos hb (power_pos two_pos _)
    have hround := roundsTo_roundEven (a * power 2 (-((c : ℤ) - 1074))) hd
    have hs : ((a * power 2 (-((c : ℤ) - 1074)) : ℕ) : ℚ) / (b * power 2 ((c : ℤ) - 1074) : ℕ) =
        a / b * 2 ^ (-((c : ℤ) - 1074)) := by
      rw [two_zpow, neg_neg]
      push_cast
      exact (div_mul_div_comm ..).symm
    rw [hs] at hround
    have hscale : (a : ℚ) / b * 2 ^ (-((c : ℤ) - 1074)) * 2 ^ ((c : ℤ) - 1074) = a / b := by
      rw [mul_assoc, ← zpow_add₀ two_ne_zero, neg_add_cancel, zpow_zero, mul_one]
    rw [show ((c : ℤ) - 1074 + 1074).toNat = c by omega, ← hscale]
    refine hround.nearest ?_ ?_
    · by_cases hc : c = 0
      · exact .inl hc
      · right
        calc (2 : ℚ) ^ 52 = 2 ^ (l + -((c : ℤ) - 1074)) := by
              rw [show l + -((c : ℤ) - 1074) = (52 : ℕ) by omega, zpow_natCast]
          _ = 2 ^ l * 2 ^ (-((c : ℤ) - 1074)) := zpow_add₀ two_ne_zero ..
          _ ≤ a / b * 2 ^ (-((c : ℤ) - 1074)) := by gcongr
    · calc (a : ℚ) / b * 2 ^ (-((c : ℤ) - 1074))
          ≤ 2 ^ (l + 1) * 2 ^ (-((c : ℤ) - 1074)) := by gcongr
        _ = 2 ^ (l + 1 + -((c : ℤ) - 1074)) := (zpow_add₀ two_ne_zero ..).symm
        _ ≤ 2 ^ ((53 : ℕ) : ℤ) := zpow_le_zpow_right₀ one_le_two (by omega)
        _ = 2 ^ 53 := zpow_natCast ..

end Double

end CoinRelay.Json
