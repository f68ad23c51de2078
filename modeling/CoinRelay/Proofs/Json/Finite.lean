import CoinRelay.Proofs.Json.Settled
import Mathlib

/-! # Finite doubles

A double that was read is finite, and the text of a finite double is always read: the two roundings
on the way do not lead beyond the last place. -/

namespace CoinRelay.Json

namespace Double

/-- The double is a number: its place is not behind the last one. -/
def Finite (x : Double) : Prop := x.place < placeLimit

/-! ## What is read is finite -/

theorem finite_ofPlace {n : ℕ} (negative : Bool) (h : n < placeLimit) :
    (ofPlace negative n).Finite := by
  rw [Finite, place_ofPlace negative (h.trans placeLimit_lt)]
  exact h

theorem finite_ofNat {m : ℕ} (h : m < 2 ^ 64) : (ofNat m).Finite := by
  obtain ⟨p, hp⟩ := exists_place (k := 1) (by norm_num) 64
  have hm : (m : ℚ) ≤ valueAt p := by
    rw [hp]
    exact_mod_cast (show m ≤ 1 * 2 ^ 64 by omega)
  have hlt : valueAt p < valueAt placeLimit := by
    rw [hp, valueAt_limit, Nat.cast_one, one_mul]
    exact pow_lt_pow_right₀ one_lt_two (by norm_num)
  exact finite_ofPlace false
    (((nearest_one m).le_of_le hm).trans_lt (strictMono_valueAt.lt_iff_lt.1 hlt))

theorem scale?_lt_placeLimit {steps : ℕ} {x : Double} {e : ℤ} {n : ℕ} (hx : x.Finite)
    (h : scale? steps x e = some n) : n < placeLimit := by
  induction steps generalizing x e with
  | zero =>
    cases h
    exact hx
  | succ steps ih =>
    rw [scale?_succ] at h
    split at h
    · obtain ⟨hlt, hn⟩ := Option.ite_none_right_eq_some.1 h
      cases hn
      exact hlt
    · split at h
      · cases h
        exact hx
      · split at h
        · cases h
        · exact ih (finite_ofPlace false ((quotient_le x le_rfl).trans_lt hx)) h

theorem ofDecimal?_lt_placeLimit {m : ℕ} {e : ℤ} {n : ℕ} (hm : m < 2 ^ 64)
    (h : ofDecimal? m e = some n) : n < placeLimit :=
  scale?_lt_placeLimit (finite_ofNat hm) h

end Double

theorem absorb_lt {n : ℕ} (h : n < 2 ^ 64) (ds : List Char) : (absorb n ds).1 < 2 ^ 64 := by
  induction ds generalizing n with
  | nil => exact h
  | cons d ds ih =>
    simp only [absorb]
    split
    · next hlt =>
      refine ih ?_
      simp only [Word.unsignedBound] at hlt
      omega
    · exact h

theorem finite_of_doubleOf? {negative : Bool} {m : ℕ} {e : ℤ} {x : Double} (hm : m < 2 ^ 64)
    (h : doubleOf? negative m e = some (.double x)) : x.Finite := by
  obtain ⟨n, hn, hx⟩ := Option.map_eq_some_iff.1 h
  cases hx
  exact Double.finite_ofPlace negative (Double.ofDecimal?_lt_placeLimit hm hn)

theorem finite_of_number? {negative : Bool} {whole : List Char} {fraction : Option (List Char)}
    {exponent : Option ℤ} {x : Double}
    (h : number? negative whole fraction exponent = some (.double x)) : x.Finite := by
  have hw := absorb_lt (n := 0) (by norm_num) whole
  have hf := absorb_lt hw (fraction.getD [])
  unfold number? at h
  dsimp only at h
  split at h
  · split at h
    · exact finite_of_doubleOf? hw h
    · split at h
      · cases h
      · exact finite_of_doubleOf? hw h
  · exact finite_of_doubleOf? hf h

theorem finite_of_readUnsignedNumber {negative : Bool} {cs rest : List Char} {x : Double}
    (h : readUnsignedNumber negative cs = some (.double x, rest)) : x.Finite := by
  simp only [readUnsignedNumber, Option.bind_eq_bind, Option.bind_eq_some_iff] at h
  obtain ⟨whole, -, h⟩ := h
  split at h
  · cases h
  · obtain ⟨fraction, -, h⟩ := Option.bind_eq_some_iff.1 h
    obtain ⟨exponent, -, h⟩ := Option.bind_eq_some_iff.1 h
    obtain ⟨n, hn, h⟩ := Option.bind_eq_some_iff.1 h
    cases h
    exact finite_of_number? hn

/-- **A double that is read is finite.** -/
theorem finite_of_readNumber {cs rest : List Char} {x : Double}
    (h : readNumber cs = some (.double x, rest)) : x.Finite := by
  unfold readNumber at h
  split at h <;> exact finite_of_readUnsignedNumber h

namespace Double

/-! ## Finite doubles are read -/

/-- Halfway between the last two magnitudes. -/
def ceiling : ℕ := 2 ^ 1024 - 2 ^ 971 - 2 ^ 970

/-- Only decimals of the last magnitude lie beyond that. -/
theorem le_ceiling {n : ℕ} {t : ℚ} (hn : n + 1 < placeLimit) (h : Nearest t n) : t ≤ ceiling := by
  have hvalue : ∀ k : ℕ, 2 ^ 52 ≤ k → k ≤ 2 ^ 53 →
      valueAt (2045 * 2 ^ 52 + k) = (k * 2 ^ 971 : ℕ) := by
    intro k hlow hhigh
    rw [valueAt_add (.inr hlow) hhigh, show ((2045 : ℕ) : ℤ) - 1074 = (971 : ℕ) by norm_num,
      zpow_natCast, Nat.cast_mul, Nat.cast_pow, Nat.cast_two]
  have hlast := hvalue (2 ^ 53 - 1) (by norm_num) (by norm_num)
  have hbelow := hvalue (2 ^ 53 - 2) (by norm_num) (by norm_num)
  rw [show placeLimit = 2046 * 2 ^ 52 + 2 ^ 52 by decide] at hn
  have hmono : valueAt n ≤ valueAt (2045 * 2 ^ 52 + (2 ^ 53 - 2)) :=
    strictMono_valueAt.monotone (by omega)
  have hmono' : valueAt (n + 1) ≤ valueAt (2045 * 2 ^ 52 + (2 ^ 53 - 1)) :=
    strictMono_valueAt.monotone (by omega)
  have hsum : 2 * t ≤ valueAt n + valueAt (n + 1) := by
    rcases h.above with h | ⟨h, -⟩ <;> linarith
  have htop : (2 ^ 53 - 2) * 2 ^ 971 + (2 ^ 53 - 1) * 2 ^ 971 = 2 * ceiling := by decide +kernel
  have htop' := congrArg (Nat.cast (R := ℚ)) htop
  rw [Nat.cast_add, Nat.cast_mul 2, Nat.cast_two] at htop'
  rw [hlast] at hmono'
  rw [hbelow] at hmono
  linarith only [hsum, hmono, hmono', htop']

theorem product_mono {x x' y : Double} (h : x.magnitude ≤ x'.magnitude) :
    product x y ≤ product x' y := by
  have hy : 0 ≤ y.magnitude := by
    rw [← valueAt_zero]
    exact strictMono_valueAt.monotone (Nat.zero_le _)
  exact (product_spec x y).mono (product_spec x' y) (mul_le_mul_of_nonneg_right h hy)

/-- For each power of ten, the largest digits below the ceiling are not read out of range. -/
theorem product_lt_placeLimit : ∀ e < 309,
    product (ofNat (min (10 ^ 17) (ceiling / 10 ^ e))) (powerOfTen e) < placeLimit := by
  decide +kernel

theorem exists_scale?_of_neg (steps : ℕ) {x : Double} {e : ℤ} (hx : x.Finite) (he : e < 0) :
    ∃ n, scale? steps x e = some n := by
  induction steps generalizing x e with
  | zero => exact ⟨_, rfl⟩
  | succ steps ih =>
    rw [scale?_succ]
    split
    · next hsmall =>
      have hlt := (quotient_le x hsmall).trans_lt hx
      exact ⟨quotient x (powerOfTen e.natAbs), by simp only [if_pos hlt]⟩
    · next hlarge =>
      -- a division keeps the double finite and the exponent negative
      rw [if_neg (by omega : ¬ 0 ≤ e)]
      split
      · exact ⟨_, rfl⟩
      · exact ih (finite_ofPlace false ((quotient_le x le_rfl).trans_lt hx)) (by omega)

/-- A decimal with at most seventeen digits is read if it is not beyond the ceiling. -/
theorem exists_ofDecimal? {m : ℕ} {e : ℤ} (hpos : 0 < m) (hm : m ≤ 10 ^ 17)
    (hle : (m : ℚ) * 10 ^ e ≤ ceiling) : ∃ n, ofDecimal? m e = some n := by
  have hfinite := finite_ofNat (m := m) (by omega)
  rcases lt_or_ge e 0 with hneg | hnonneg
  · exact exists_scale?_of_neg 4 hfinite hneg
  obtain ⟨k, rfl⟩ := Int.eq_ofNat_of_zero_le hnonneg
  have hle' : m * 10 ^ k ≤ ceiling := by
    rw [zpow_natCast] at hle
    exact_mod_cast hle
  have hk : k < 309 := by
    by_contra hge
    have hpow := Nat.pow_le_pow_right (show 0 < 10 by norm_num) (not_lt.1 hge)
    have hmul : 10 ^ k ≤ m * 10 ^ k := Nat.le_mul_of_pos_left _ hpos
    exact absurd (hpow.trans (hmul.trans hle')) (by decide +kernel)
  have hdigits : m ≤ min (10 ^ 17) (ceiling / 10 ^ k) :=
    le_min hm ((Nat.le_div_iff_mul_le (by positivity)).2 hle')
  have hmag : (ofNat m).magnitude ≤ (ofNat (min (10 ^ 17) (ceiling / 10 ^ k))).magnitude := by
    rw [magnitude_ofNat_of_lt (by omega), magnitude_ofNat_of_lt (by omega)]
    exact rounded_mono hdigits
  have hlt := (product_mono (y := powerOfTen k) hmag).trans_lt (product_lt_placeLimit k hk)
  refine ⟨product (ofNat m) (powerOfTen k), ?_⟩
  rw [ofDecimal?, scale?_succ, if_pos (by omega)]
  simp only [Int.natAbs_natCast, if_neg (not_lt.2 hnonneg), if_pos hlt]

theorem reread?_last : ∀ negative, (ofPlace negative (placeLimit - 1)).reread?.isSome := by
  decide +kernel

/-- **The text of a finite double is read.** -/
theorem Finite.exists_reread? {x : Double} (hx : x.Finite) : ∃ y, x.reread? = some y := by
  by_cases hlast : x.place + 1 = placeLimit
  · -- the one double beyond the ceiling, by evaluation
    have hlt := hx.trans placeLimit_lt
    have hlast' : x = ofPlace x.negative (placeLimit - 1) := eq_of_place
      (by rw [place_ofPlace _ (by omega)]; omega) (by rw [negative_ofPlace _ (by omega)])
    rw [hlast']
    exact Option.isSome_iff_exists.1 (reread?_last _)
  rcases Nat.eq_zero_or_pos x.mantissa with hzero | hmantissa
  · rw [reread?_eq (by rw [written, if_pos hzero]; decide), written, if_pos hzero]
    exact ⟨_, rfl⟩
  have hpos : 0 < x.magnitude := by
    rw [magnitude_eq]
    positivity
  obtain ⟨hdigits, hupper, hnearest⟩ := written_spec hpos
  have hplace : x.place + 1 < placeLimit := lt_of_le_of_ne hx hlast
  obtain ⟨n, hn⟩ := exists_ofDecimal? hdigits hupper (le_ceiling hplace hnearest)
  refine ⟨ofPlace x.negative n, ?_⟩
  rw [reread?_eq (by simp only [Word.unsignedBound]; omega), hn]
  rfl

end Double

end CoinRelay.Json
