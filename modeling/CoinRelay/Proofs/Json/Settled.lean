import CoinRelay.Proofs.Json.Written
import Mathlib

/-! # Doubles that were read settle

A double that was read from the text of another one is read as itself. Between two powers of two and
two powers of ten all texts count in one power of ten, so reading twice is what `Beside.stays` is
about. Powers of two and of ten are always read as themselves, and no step leads over them. -/

namespace CoinRelay.Json

open Double (valueAt gapAt Nearest Beside ratio rounded)

/-! ## One step -/

namespace Double

theorem eq_of_place {x y : Double} (hp : x.place = y.place) (hn : x.negative = y.negative) :
    x = y := by
  have h63 : power 2 63 = 2 ^ 63 := rfl
  have hx := x.bits.toNat_lt
  have hy := y.bits.toNat_lt
  simp only [place, h63] at hp
  simp only [Double.negative, h63, decide_eq_decide] at hn
  obtain ⟨m⟩ := x
  obtain ⟨n⟩ := y
  congr 1
  apply UInt64.toNat_inj.1
  simp only at hp hn hx hy
  omega

/-- What the text of a double is read as has the place that its decimal is read as, and its sign. -/
theorem of_reread? {x y : Double} (h : x.reread? = some y) :
    ofDecimal? x.written.digits x.written.exponent = some y.place ∧ y.negative = x.negative := by
  have hlt : (x.written.digits : ℤ) < Word.unsignedBound := by
    by_cases hx : x.mantissa = 0
    · rw [written, if_pos hx]
      decide
    · have hpos : 0 < x.magnitude := by
        rw [magnitude_eq]
        have : 0 < x.mantissa := Nat.pos_of_ne_zero hx
        positivity
      have := (written_spec hpos).2.1
      simp only [Word.unsignedBound]
      omega
  rw [reread?_eq hlt, Option.map_eq_some_iff] at h
  obtain ⟨n, hn, rfl⟩ := h
  have hplace : n < 2 ^ 63 := scale?_lt hn
  exact ⟨by rw [hn, place_ofPlace _ hplace], negative_ofPlace _ hplace⟩

/-- The power of ten in the text of an amount is an exact double. -/
theorem written_exponent {x : Double} (hx : 0 < x.magnitude) (hlow : 0 ≤ Decimal.scale x)
    (hhigh : Decimal.scale x ≤ 19) : x.written.exponent.natAbs ≤ 22 := by
  obtain ⟨n, hn, d, hshort, hd⟩ := Decimal.exists_hit hx
  have hpos := hd.digits_stripZeros_pos
  obtain ⟨j, -, hexponent⟩ := Decimal.stripZeros_spec 17 d
  have hvalue := Decimal.value_stripZeros 17 d
  have hexp := hd.exponent
  rw [written, if_neg (mantissa_pos hx).ne', hshort]
  rcases Decimal.written_cases hpos with ⟨v, -, -, hw⟩ | ⟨hw, -⟩
  · rw [hw]
    norm_num
  · have hle : (10 : ℚ) ^ (Decimal.stripZeros 17 d).exponent ≤ 10 ^ Decimal.scale x := by
      refine le_trans ?_ (hvalue.trans_le hd.value_le)
      refine le_mul_of_one_le_left (by positivity) ?_
      exact_mod_cast hpos
    rw [zpow_le_zpow_iff_right₀ (by norm_num)] at hle
    rw [hw]
    omega

namespace Inside

section
variable {x y : Double} {b j : ℕ} (hx : x.Inside b j) (hlow : 0 ≤ Decimal.scale x)
  (hhigh : Decimal.scale x ≤ 19) (h : x.reread? = some y)
include hx hlow hhigh h

/-- A double is read as itself, or from digits next to it. -/
theorem read : y.place = x.place ∨ ∃ m, Beside x.place m (Decimal.step (Decimal.scale x) b) ∧
    Nearest (rounded m * 10 ^ Decimal.step (Decimal.scale x) b) y.place := by
  obtain ⟨-, hupper, hnearest⟩ := written_spec hx.magnitude_pos
  have hread := nearest_of_ofDecimal?_of_le (by omega)
    (written_exponent hx.magnitude_pos hlow hhigh) (of_reread? h).1
  rcases hx.written_cases with hexact | ⟨hbeside, hstep⟩
  · left
    rw [hexact] at hread
    exact hread.unique hnearest
  · right
    rw [← hstep]
    exact ⟨_, hbeside, hread⟩

/-- A double is read as itself or as one of its neighbours. -/
theorem read_near : y.place ≤ x.place + 1 ∧ x.place ≤ y.place + 1 := by
  rcases hx.read hlow hhigh h with heq | ⟨m, hbeside, hnearest⟩
  · omega
  · rw [hx.place] at hbeside ⊢
    exact ⟨hbeside.le_succ hx.lower hx.upper hnearest,
      hbeside.le_succ_of_nearest hx.lower hx.upper hnearest⟩

/-- **Between two powers of two and two powers of ten, what was read is read as itself.** -/
theorem settles {z : Double} {i : ℕ} (hy : y.Inside b i)
    (hscale : Decimal.scale y = Decimal.scale x) (hz : y.reread? = some z) : z = y := by
  have hxsign := (of_reread? h).2
  have hzsign := (of_reread? hz).2
  rcases hx.read hlow hhigh h with heq | ⟨m, hbeside, hnearest⟩
  · obtain rfl := eq_of_place heq hxsign
    exact Option.some.inj (hz.symm.trans h)
  rcases hy.read (by omega) (by omega) hz with heq | ⟨m', hbeside', hnearest'⟩
  · exact eq_of_place heq hzsign
  rw [hscale] at hbeside' hnearest'
  rw [hx.place] at hbeside
  rw [hy.place] at hnearest hbeside'
  by_cases hne : i = j
  · obtain rfl : y = x := eq_of_place (by rw [hx.place, hy.place, hne]) hxsign
    exact Option.some.inj (hz.symm.trans h)
  · refine eq_of_place ?_ hzsign
    rw [hbeside.stays hbeside' hx.lower hx.upper hy.lower hy.upper hne hnearest hnearest', hy.place]

end

end Inside

/-! ## Landmarks -/

theorem reread?_twoPow : ∀ i < 65, (ofPlace false ((1022 + i) * 2 ^ 52)).reread? =
    some (ofPlace false ((1022 + i) * 2 ^ 52)) := by
  decide +kernel

theorem reread?_tenPow : ∀ k < 20, (powerOfTen k).reread? = some (powerOfTen k) := by
  decide +kernel

theorem valueAt_twoPow (i : ℕ) : valueAt ((1022 + i) * 2 ^ 52) = 2 ^ i / 2 := by
  rw [show (1022 + i) * 2 ^ 52 = (1021 + i) * 2 ^ 52 + 2 ^ 52 by ring, valueAt_add (.inr le_rfl)
    (by norm_num), show ((1021 + i : ℕ) : ℤ) - 1074 = i - 53 by push_cast; ring,
    zpow_sub₀ two_ne_zero, zpow_natCast]
  push_cast
  ring

/-- The double may be an amount: it is not negative, and from a half to the end of the signed
words. -/
structure Amountlike (x : Double) : Prop where
  sign : x.negative = false
  lower : 1022 * 2 ^ 52 ≤ x.place
  upper : x.place ≤ 1086 * 2 ^ 52

namespace Amountlike

section
variable {x : Double} (h : x.Amountlike)
include h

theorem magnitude_bounds : 1 / 2 ≤ x.magnitude ∧ x.magnitude ≤ 2 ^ 63 := by
  have hlow := valueAt_twoPow 0
  have hhigh := valueAt_twoPow 64
  have hl := strictMono_valueAt.monotone h.lower
  have hu := strictMono_valueAt.monotone h.upper
  norm_num at hlow hhigh hl hu ⊢
  rw [hlow] at hl
  rw [hhigh] at hu
  exact ⟨hl, hu⟩

theorem magnitude_pos : 0 < x.magnitude := by
  have := h.magnitude_bounds.1
  linarith

theorem scale_bounds : 0 ≤ Decimal.scale x ∧ Decimal.scale x ≤ 19 := by
  obtain ⟨hscale, hscale'⟩ := Decimal.scale_bounds h.magnitude_pos
  obtain ⟨hlow, hhigh⟩ := h.magnitude_bounds
  have hneg : (10 : ℚ) ^ (-1 : ℤ) < 10 ^ Decimal.scale x := by
    refine lt_trans ?_ (hlow.trans_lt hscale')
    norm_num
  have hlarge : (10 : ℚ) ^ (Decimal.scale x - 1) < 10 ^ (19 : ℤ) := by
    refine (hscale.trans hhigh).trans_lt ?_
    norm_num
  rw [zpow_lt_zpow_iff_right₀ (by norm_num)] at hneg hlarge
  omega

/-- Powers of two are read as themselves, and other doubles lie between two of them. -/
theorem reread?_or_inside : x.reread? = some x ∨ ∃ b j, x.Inside b j := by
  have hlow := h.lower
  have hhigh := h.upper
  by_cases hpow : x.place % 2 ^ 52 = 0
  · left
    obtain ⟨i, hi⟩ : ∃ i, x.place = (1022 + i) * 2 ^ 52 := ⟨x.place / 2 ^ 52 - 1022, by omega⟩
    have hlt : (1022 + i) * 2 ^ 52 < 2 ^ 63 := hi ▸ place_lt x
    obtain rfl : x = ofPlace false ((1022 + i) * 2 ^ 52) := eq_of_place
      (by rw [hi, place_ofPlace _ hlt]) (by rw [h.sign, negative_ofPlace _ hlt])
    exact reread?_twoPow i (by omega)
  · right
    exact ⟨x.place / 2 ^ 52 - 1, 2 ^ 52 + x.place % 2 ^ 52, by omega, by omega, by omega⟩

/-- Where the number of digits grows from one double to the next, the next is a power of ten. -/
theorem reread?_of_scale_lt {p : Double} (hp : p.Amountlike) (hplace : p.place + 1 = x.place)
    (hscale : Decimal.scale p ≠ Decimal.scale x) : x.reread? = some x := by
  obtain ⟨hpscale, hpscale'⟩ := Decimal.scale_bounds hp.magnitude_pos
  obtain ⟨hxscale, hxscale'⟩ := Decimal.scale_bounds h.magnitude_pos
  have hlt : p.magnitude < x.magnitude := strictMono_valueAt (by omega)
  have hlt' : Decimal.scale p < Decimal.scale x := by
    have : (10 : ℚ) ^ (Decimal.scale p - 1) < 10 ^ Decimal.scale x :=
      (hpscale.trans_lt hlt).trans hxscale'
    rw [zpow_lt_zpow_iff_right₀ (by norm_num)] at this
    omega
  obtain ⟨k, hk⟩ : ∃ k : ℕ, Decimal.scale x - 1 = k :=
    ⟨(Decimal.scale x - 1).toNat, by have := hp.scale_bounds; omega⟩
  have hk19 : k < 20 := by have := h.scale_bounds; omega
  have hten : (powerOfTen k).magnitude = 10 ^ k := by
    rw [magnitude_powerOfTen (by omega), rounded_ten_pow (by omega)]
  rw [hk, zpow_natCast, ← hten] at hxscale
  have hbelow : p.magnitude < (powerOfTen k).magnitude := by
    refine hpscale'.trans_le ?_
    rw [hten, ← zpow_natCast]
    exact zpow_le_zpow_right₀ (by norm_num) (by omega)
  have hle := strictMono_valueAt.le_iff_le.1 hxscale
  have hge := strictMono_valueAt.lt_iff_lt.1 hbelow
  obtain rfl : x = powerOfTen k :=
    eq_of_place (by omega) (by rw [h.sign, negative_powerOfTen (by omega)])
  exact reread?_tenPow k hk19

/-- **What an amount was read as is read as itself.** -/
theorem settles {y z : Double} (hy : x.reread? = some y) (hz : y.reread? = some z) : z = y := by
  rcases h.reread?_or_inside with hself | ⟨b, j, hx⟩
  · obtain rfl : x = y := Option.some.inj (hself.symm.trans hy)
    exact Option.some.inj (hz.symm.trans hself)
  obtain ⟨hlow, hhigh⟩ := h.scale_bounds
  obtain ⟨hup, hdown⟩ := hx.read_near hlow hhigh hy
  have hplace := hx.place
  have hxlow := hx.lower
  have hxhigh := hx.upper
  have hl := h.lower
  have hu := h.upper
  have hyamount : y.Amountlike := ⟨(of_reread? hy).2.trans h.sign, by omega, by omega⟩
  have hfixed : y.reread? = some y → z = y := fun hself => Option.some.inj (hz.symm.trans hself)
  rcases hyamount.reread?_or_inside with hself | ⟨c, i, hyin⟩
  · exact hfixed hself
  obtain rfl : c = b := by
    have := hyin.place
    have := hyin.lower
    have := hyin.upper
    omega
  by_cases hscale : Decimal.scale y = Decimal.scale x
  · exact hx.settles hlow hhigh hy hyin hscale hz
  rcases Nat.lt_trichotomy x.place y.place with hlt | heq | hgt
  · exact hfixed (hyamount.reread?_of_scale_lt h (by omega) (Ne.symm hscale))
  · obtain rfl : x = y := eq_of_place heq (of_reread? hy).2.symm
    exact hfixed hy
  · have hself := h.reread?_of_scale_lt hyamount (by omega) hscale
    obtain rfl : x = y := Option.some.inj (hself.symm.trans hy)
    exact hfixed hself

end

end Amountlike

/-! ## Doubles that are no amounts -/

/-- The double is negative, or it is below one, or too large for a signed word. -/
def NoAmount (x : Double) : Prop := x.negative = true ∨ x.magnitude < 1 ∨ 2 ^ 63 ≤ x.magnitude

/-- What a double well below a magnitude of at most one is read as is not larger. -/
theorem place_le_of_reread? {x y : Double} {p q : ℕ} (hx : x.place ≤ q) (hlow : 1 / 2 ≤ valueAt p)
    (hhigh : valueAt p ≤ 1) (hq : valueAt q + valueAt (q + 1) ≤ 2 * (9 / 10 * valueAt p))
    (h : x.reread? = some y) : y.place ≤ p := by
  have hread := (of_reread? h).1
  by_cases hzero : x.mantissa = 0
  · rw [written, if_pos hzero, show ofDecimal? 0 (-1) = some 0 by decide +kernel] at hread
    rw [← Option.some.inj hread]
    exact Nat.zero_le p
  have hpos : 0 < x.magnitude := by
    have : 0 < x.mantissa := Nat.pos_of_ne_zero hzero
    rw [magnitude_eq]
    positivity
  obtain ⟨hdigits, hupper, hnearest⟩ := written_spec hpos
  refine le_of_ofDecimal? (by omega) hdigits hlow hhigh ?_ hread
  have hmono := strictMono_valueAt.monotone hx
  have hmono' : valueAt (x.place + 1) ≤ valueAt (q + 1) := strictMono_valueAt.monotone (by omega)
  rw [Decimal.value_eq]
  rcases hnearest.above with h | ⟨h, -⟩ <;> linarith

theorem valueAt_below_one {k : ℕ} (hlow : 2 ^ 52 ≤ k) (hhigh : k ≤ 2 ^ 53) :
    valueAt (1021 * 2 ^ 52 + k) = k / 2 ^ 53 := by
  rw [valueAt_add (.inr hlow) hhigh, show ((1021 : ℕ) : ℤ) - 1074 = -53 by norm_num, zpow_neg,
    div_eq_mul_inv]
  rfl

/-- What a double below a half is read as lies below one, and so does what that is read as. -/
theorem magnitude_lt_of_reread? {x y : Double} (hx : x.place < 1022 * 2 ^ 52)
    (h : x.reread? = some y) :
    y.magnitude < 1 ∧ ∀ {z : Double}, y.reread? = some z → z.magnitude < 1 := by
  have hhalf := valueAt_twoPow 0
  have hone := valueAt_twoPow 1
  -- five eighths and fifteen sixteenths are doubles
  have h₁ := valueAt_below_one (k := 5629499534213120) (by norm_num) (by norm_num)
  have h₂ := valueAt_below_one (k := 8444249301319680) (by norm_num) (by norm_num)
  norm_num at hhalf hone h₁ h₂ hx
  have hlt : valueAt 4602678819172646911 < valueAt 4602678819172646912 :=
    strictMono_valueAt (by norm_num)
  have hle : valueAt 4603804719079489537 ≤ valueAt 4607182418800017408 :=
    strictMono_valueAt.monotone (by norm_num)
  have hy : y.place ≤ 4603804719079489536 := by
    refine place_le_of_reread? (q := 4602678819172646911) (by omega) ?_ ?_ ?_ h
    · rw [h₁]
      norm_num
    · rw [h₁]
      norm_num
    · change valueAt 4602678819172646911 + valueAt 4602678819172646912 ≤ _
      linarith
  have hbelow : ∀ {w : Double}, w.place ≤ 4606619468846596096 → w.magnitude < 1 := by
    intro w hw
    have := strictMono_valueAt.monotone hw
    rw [magnitude]
    linarith
  refine ⟨hbelow (by omega), fun {z} hz => hbelow ?_⟩
  refine place_le_of_reread? hy ?_ ?_ ?_ hz
  · rw [h₂]
    norm_num
  · rw [h₂]
    norm_num
  · change valueAt 4603804719079489536 + valueAt 4603804719079489537 ≤ _
    linarith

theorem le_magnitude {x : Double} (h : 1086 * 2 ^ 52 ≤ x.place) : 2 ^ 63 ≤ x.magnitude := by
  have hvalue := valueAt_twoPow 64
  have hmono := strictMono_valueAt.monotone h
  rw [show 1022 + 64 = 1086 by norm_num] at hvalue
  rw [hvalue] at hmono
  rw [magnitude]
  linarith

/-- What a double beyond the signed words is read as lies there, too. -/
theorem le_place_of_reread? {x y : Double} (hx : 1086 * 2 ^ 52 < x.place)
    (h : x.reread? = some y) : 1086 * 2 ^ 52 ≤ y.place := by
  have hvalue := valueAt_twoPow 64
  have hsucc := valueAt_succ (1086 * 2 ^ 52)
  have hgap : gapAt (1086 * 2 ^ 52) = 2 ^ 11 := by
    rw [show 1086 * 2 ^ 52 = 1085 * 2 ^ 52 + 2 ^ 52 by norm_num,
      gapAt_add (.inr le_rfl) (by norm_num)]
    norm_num
  norm_num at hvalue hsucc hgap hx ⊢
  have hpos : 0 < x.magnitude := valueAt_pos (by omega)
  obtain ⟨hdigits, hupper, hnearest⟩ := written_spec hpos
  obtain ⟨p, hp⟩ := exists_pred hpos
  have hmono : valueAt 4890909195324358656 ≤ valueAt p := strictMono_valueAt.monotone (by omega)
  have hmono' : valueAt 4890909195324358657 ≤ valueAt x.place :=
    strictMono_valueAt.monotone (by omega)
  have hread := le_valueAt_of_ofDecimal? (by omega) (by
    rw [Decimal.value_eq]
    rcases hnearest.below p hp with h | ⟨h, -⟩ <;> linarith) (of_reread? h).1
  refine strictMono_valueAt.le_iff_le.1 ?_
  rw [hvalue]
  norm_num at hread
  exact hread

/-- **What was read from the text of a double is read as itself, unless it is no amount anyway.** -/
theorem reread?_settles {x y z : Double} (hy : x.reread? = some y) (hz : y.reread? = some z) :
    z = y ∨ y.NoAmount ∧ z.NoAmount := by
  have hysign := (of_reread? hy).2
  have hzsign := (of_reread? hz).2
  cases hsign : x.negative with
  | true => exact .inr ⟨.inl (hysign.trans hsign), .inl (hzsign.trans (hysign.trans hsign))⟩
  | false =>
  rcases Nat.lt_or_ge x.place (1022 * 2 ^ 52) with hsmall | hlow
  · have hysmall := magnitude_lt_of_reread? hsmall hy
    exact .inr ⟨.inr (.inl hysmall.1), .inr (.inl (hysmall.2 hz))⟩
  rcases Nat.lt_or_ge (1086 * 2 ^ 52) x.place with hlarge | hhigh
  · have hylarge := le_place_of_reread? hlarge hy
    rcases hylarge.eq_or_lt with heq | hlt
    · have hyamount : y.Amountlike := ⟨hysign.trans hsign, by omega, by omega⟩
      rcases hyamount.reread?_or_inside with hself | ⟨b, j, hyin⟩
      · exact .inl (Option.some.inj (hz.symm.trans hself))
      · have := hyin.place
        have := hyin.lower
        have := hyin.upper
        omega
    · exact .inr ⟨.inr (.inr (le_magnitude hylarge)),
        .inr (.inr (le_magnitude (le_place_of_reread? hlt hz)))⟩
  · exact .inl (Amountlike.settles ⟨hsign, hlow, hhigh⟩ hy hz)

/-- The magnitude as a whole number. -/
theorem wholeMagnitude?_eq_some {x : Double} {n : ℕ} (h : x.wholeMagnitude? = some n) :
    (n : ℚ) = x.magnitude := by
  unfold wholeMagnitude? at h
  rw [magnitude_eq, two_zpow]
  split at h
  · next hexp =>
    cases h
    have hone : power 2 (-x.exponent) = 1 := by
      rw [power, Int.toNat_of_nonpos (by omega), Nat.pow_eq, pow_zero]
    rw [hone]
    push_cast
    ring
  · next hexp =>
    split at h
    · next hmod =>
      cases h
      have hone : power 2 x.exponent = 1 := by
        rw [power, Int.toNat_of_nonpos (by omega), Nat.pow_eq, pow_zero]
      rw [hone, Nat.cast_div (Nat.dvd_of_mod_eq_zero hmod)]
      · push_cast
        ring
      · exact_mod_cast (power_pos two_pos _).ne'
    · cases h

theorem integer?_eq_some {x : Double} {i : ℤ} (h : x.integer? = some i) :
    ∃ n : ℕ, (n : ℚ) = x.magnitude ∧ i = if x.negative then -(n : ℤ) else n := by
  cases hn : x.wholeMagnitude? with
  | none => simp [integer?, hn] at h
  | some n =>
    refine ⟨n, wholeMagnitude?_eq_some hn, ?_⟩
    simpa [integer?, hn] using h.symm

end Double

end CoinRelay.Json
