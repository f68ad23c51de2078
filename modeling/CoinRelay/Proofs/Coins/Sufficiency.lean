import CoinRelay.Proofs.Totals
import Mathlib

/-! # Enough coins

The total of coins stops at the largest amount, and no target lies above it. So a total that stopped
answers every question about a target as the exact sum would, wherever on the way it stopped. -/

namespace CoinRelay.Coins

/-! ## The exact sum -/

theorem exactTotal_eq_sum (coins : List Json) :
    exactTotal coins = ((coins.filterMap coinAmount?).map UInt64.toNat).sum := rfl

theorem exactTotal_perm {coins again : List Json} (h : again.Perm coins) :
    exactTotal again = exactTotal coins := by
  rw [exactTotal_eq_sum, exactTotal_eq_sum]
  exact ((h.filterMap coinAmount?).map UInt64.toNat).sum_eq

theorem exactTotal_append (coins more : List Json) :
    exactTotal (coins ++ more) = exactTotal coins + exactTotal more := by
  simp only [exactTotal_eq_sum, List.filterMap_append, List.map_append, List.sum_append]

/-! ## The total -/

theorem total_perm {coins again : List Json} (h : again.Perm coins) :
    total again = total coins := by
  apply UInt64.toNat_inj.1
  rw [toNat_total, toNat_total, exactTotal_perm h]

theorem total_le_append (coins more : List Json) : total coins ≤ total (coins ++ more) := by
  rw [UInt64.le_iff_toNat_le, toNat_total, toNat_total, exactTotal_append]
  omega

/-- A target is an amount, so it is covered by the total if it is covered by the exact sum. -/
theorem le_total_iff (coins : List Json) (target : Amount) :
    target ≤ total coins ↔ target.toNat ≤ exactTotal coins := by
  have htop := Amount.toNat_le_top target
  rw [UInt64.le_iff_toNat_le, toNat_total]
  omega

/-! ## Against a target -/

theorem resolve_eq_error {coins : List Json} {target : Amount}
    (h : exactTotal coins < target.toNat) :
    resolve coins target = .error .insufficientCoinTotal :=
  dif_neg fun hle => Nat.not_le.2 h ((le_total_iff coins target).1 hle)

/-- What is left is an ordinary difference: nothing is taken off that is not there. -/
theorem toNat_change (resolved : Selection.Resolved) :
    resolved.target.toNat ≤ resolved.selected.toNat ∧
      resolved.change.toNat = resolved.selected.toNat - resolved.target.toNat :=
  ⟨UInt64.le_iff_toNat_le.1 resolved.target_le_selected,
    UInt64.toNat_sub_of_le _ _ resolved.target_le_selected⟩

/-- **Sufficiency is decided on the true total.** The total of coins is the exact sum of the amounts
that can be read, cut at the largest amount; the order of the coins does not matter, and more coins
never come to less. Coins meet a target exactly if their exact sum does, and what is left then is
what the target leaves of the total. -/
theorem resolve_on_true_total (coins : List Json) (target : Amount) :
    let exact := ((coins.filterMap coinAmount?).map UInt64.toNat).sum
    let seen := min (2 ^ 64 - 1) exact
    (total coins).toNat = seen ∧
    (∀ again : List Json, again.Perm coins → total again = total coins) ∧
    (∀ more : List Json, total coins ≤ total (coins ++ more)) ∧
    ((∃ resolved, resolve coins target = .ok resolved) ↔ target.toNat ≤ exact) ∧
    (exact < target.toNat → resolve coins target = .error .insufficientCoinTotal) ∧
    ∀ resolved, resolve coins target = .ok resolved →
      resolved.selected = total coins ∧ resolved.target = target ∧ target.toNat ≤ seen ∧
        resolved.change.toNat = seen - target.toNat := by
  intro exact seen
  have hseen : (total coins).toNat = seen := by
    rw [toNat_total, Nat.min_comm]
    rfl
  refine ⟨hseen, fun _ => total_perm, total_le_append coins, ?_, resolve_eq_error, ?_⟩
  · constructor
    · rintro ⟨resolved, h⟩
      obtain ⟨hselected, htarget⟩ := resolve_eq_ok.1 h
      have hle := resolved.target_le_selected
      rw [hselected, htarget] at hle
      exact (le_total_iff coins target).1 hle
    · intro h
      have hle := (le_total_iff coins target).2 h
      exact ⟨⟨total coins, target, hle⟩, resolve_eq_ok.2 ⟨rfl, rfl⟩⟩
  · intro resolved h
    obtain ⟨hselected, htarget⟩ := resolve_eq_ok.1 h
    obtain ⟨hle, hchange⟩ := toNat_change resolved
    rw [hselected, htarget, hseen] at hle hchange
    exact ⟨hselected, htarget, hle, hchange⟩

end CoinRelay.Coins
