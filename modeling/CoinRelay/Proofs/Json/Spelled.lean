import CoinRelay.Proofs.Json.Settled
import CoinRelay.Proofs.Text.Spelled
import Mathlib

/-! # Integers in values

A value spells an integer as a whole number, as a numeral, or as a double that is equal to it. Where
integers are read, all spellings of a signed word count alike; the least one is not taken from a
double. -/

namespace CoinRelay.Json

/-! ## Doubles -/

namespace Double

/-- The number that the double is. -/
def value (x : Double) : ℚ := if x.negative then -x.magnitude else x.magnitude

theorem wholeMagnitude?_of_magnitude {x : Double} {n : ℕ} (h : x.magnitude = n) :
    x.wholeMagnitude? = some n := by
  rw [magnitude_eq, two_zpow] at h
  unfold wholeMagnitude?
  split
  · next hexp =>
    have hone : power 2 (-x.exponent) = 1 := by
      rw [power, Int.toNat_of_nonpos (by omega), Nat.pow_eq, pow_zero]
    rw [hone, Nat.cast_one, div_one] at h
    exact congrArg some (by exact_mod_cast h)
  · next hexp =>
    have hone : power 2 x.exponent = 1 := by
      rw [power, Int.toNat_of_nonpos (by omega), Nat.pow_eq, pow_zero]
    have hpos : 0 < power 2 (-x.exponent) := power_pos two_pos _
    have hne : (power 2 (-x.exponent) : ℚ) ≠ 0 := by exact_mod_cast hpos.ne'
    rw [hone, Nat.cast_one, mul_one_div, div_eq_iff hne] at h
    have hmul : x.mantissa = n * power 2 (-x.exponent) := by exact_mod_cast h
    rw [hmul, if_pos (Nat.mul_mod_left ..), Nat.mul_div_cancel _ hpos]

/-- The integer that is read off a double is the one that it is equal to. -/
theorem integer?_eq_some_iff {x : Double} {i : ℤ} : x.integer? = some i ↔ x.value = i := by
  constructor
  · intro h
    obtain ⟨n, hn, rfl⟩ := integer?_eq_some h
    unfold value
    split <;> simp [hn]
  · intro h
    have hnonneg : 0 ≤ x.magnitude := by
      rw [magnitude_eq]
      positivity
    unfold value at h
    unfold integer?
    split at h
    · next hneg =>
      have hi : i ≤ 0 := by exact_mod_cast (show (i : ℚ) ≤ 0 by linarith)
      obtain ⟨n, rfl⟩ := Int.exists_eq_neg_ofNat hi
      have hmagnitude : x.magnitude = n := by
        push_cast at h
        linarith
      simp [wholeMagnitude?_of_magnitude hmagnitude, hneg]
    · next hpos =>
      have hi : 0 ≤ i := by exact_mod_cast (show (0 : ℚ) ≤ i by linarith)
      obtain ⟨n, rfl⟩ := Int.eq_ofNat_of_zero_le hi
      have hmagnitude : x.magnitude = n := by
        push_cast at h
        exact h
      simp [wholeMagnitude?_of_magnitude hmagnitude, hpos]

end Double

/-! ## Values -/

/-- The value spells the integer. -/
inductive Spells : Json → Int → Prop where
  | whole (w : WholeNumber) : Spells (.num (.whole w)) w.val
  | double {x : Double} {n : Int} (h : x.value = n) : Spells (.num (.double x)) n
  | numeral {s : String} {n : Int} (h : Text.Spells s.toList n) : Spells (.str s) n

theorem spells_whole_iff {w : WholeNumber} {n : Int} :
    Spells (.num (.whole w)) n ↔ w.val = n :=
  ⟨fun h => by cases h; rfl, fun h => h ▸ .whole w⟩

theorem spells_double_iff {x : Double} {n : Int} :
    Spells (.num (.double x)) n ↔ x.integer? = some n := by
  rw [Double.integer?_eq_some_iff]
  exact ⟨fun h => by cases h with | double hx => exact hx, .double⟩

theorem spells_str_iff {s : String} {n : Int} :
    Spells (.str s) n ↔ Text.readSigned? (Text.trim s).toList = some n := by
  rw [Text.trim, String.toList_ofList, Text.readSigned?_trimChars]
  exact ⟨fun h => by cases h with | numeral hs => exact hs, .numeral⟩

/-- A value spells one integer at most. -/
theorem Spells.unique {v : Json} {m n : Int} (hm : v.Spells m) (hn : v.Spells n) : m = n := by
  cases hm with
  | whole w => exact spells_whole_iff.1 hn
  | double h =>
    exact Option.some.inj ((Double.integer?_eq_some_iff.2 h).symm.trans (spells_double_iff.1 hn))
  | numeral h =>
    exact Option.some.inj ((spells_str_iff.1 (.numeral h)).symm.trans (spells_str_iff.1 hn))

/-- Of the integers from zero upwards, the signed words are read, however they are spelled. -/
theorem toInteger?_eq_some_of_nonneg {v : Json} {n : Int} (hn : 0 ≤ n) :
    v.toInteger? = some n ↔ v.Spells n ∧ n < Word.signedBound := by
  cases v with
  | num m =>
    cases m with
    | whole w =>
      rw [spells_whole_iff, toInteger?]
      constructor
      · intro h
        split at h
        · next hlt => cases h; exact ⟨rfl, hlt⟩
        · cases h
      · rintro ⟨rfl, hlt⟩
        exact if_pos hlt
    | double x =>
      rw [spells_double_iff, toInteger?, Option.filter_eq_some_iff, decide_eq_true_eq]
      refine and_congr_right fun _ => ⟨fun h => h.2, fun h => ⟨?_, h⟩⟩
      simp only [Word.signedBound]
      omega
  | str s =>
    rw [spells_str_iff, toInteger?, Text.readInt64?, Option.filter_eq_some_iff]
    refine and_congr_right fun _ => ?_
    have hlow : -Word.signedBound ≤ n := by
      simp only [Word.signedBound]
      omega
    simp [Word.isSigned, hlow]
  | null | bool | arr | obj => exact ⟨nofun, fun h => nomatch h.1⟩

end CoinRelay.Json
