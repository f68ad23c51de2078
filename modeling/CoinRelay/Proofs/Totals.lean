import CoinRelay.Output

/-! # Totals of coins and outputs

The total of a selection is its exact sum cut at the largest amount, while a sum of outputs that
does not fit is no amount at all. So the balance of outputs against a selection is that of the exact
sums, wherever one of the two accumulations stops. -/

namespace CoinRelay

/-! ## Sums of amounts -/

/-- The sum of amounts as a natural number. -/
def Amount.sum (amounts : List Amount) : Nat := (amounts.map UInt64.toNat).foldr (· + ·) 0

@[simp] theorem Amount.sum_nil : Amount.sum [] = 0 := rfl

@[simp] theorem Amount.sum_cons (a : Amount) (rest : List Amount) :
    Amount.sum (a :: rest) = a.toNat + Amount.sum rest := rfl

/-- Stopping at the top along the way is the same as stopping at the end. -/
theorem Amount.toNat_foldl_add (amounts : List Amount) (start : Amount) :
    (amounts.foldl Amount.add start).toNat =
      min (start.toNat + Amount.sum amounts) Amount.top := by
  induction amounts generalizing start with
  | nil =>
    rw [List.foldl_nil, Amount.sum_nil, Nat.add_zero, Nat.min_eq_left (Amount.toNat_le_top start)]
  | cons a rest ih =>
    rw [List.foldl_cons, ih, Amount.toNat_add, Amount.sum_cons]
    omega

theorem Coins.exactTotal_eq (coins : List Json) :
    exactTotal coins = Amount.sum (amounts coins) := rfl

theorem Coins.toNat_total (coins : List Json) :
    (total coins).toNat = min (exactTotal coins) Amount.top := by
  rw [total, Amount.toNat_foldl_add, exactTotal_eq]
  simp

theorem Coins.resolve_eq_ok {coins : List Json} {target : Amount}
    {resolved : Selection.Resolved} : resolve coins target = .ok resolved ↔
      resolved.selected = total coins ∧ resolved.target = target := by
  obtain ⟨selected, needed, hle⟩ := resolved
  unfold resolve
  split
  · next h =>
    simp only [Except.ok.injEq, Selection.Resolved.mk.injEq]
    exact and_congr eq_comm eq_comm
  · next h =>
    simp only [reduceCtorEq, false_iff]
    rintro ⟨rfl, rfl⟩
    exact h hle

theorem Selection.toNat_total (selection : Selection) :
    selection.total.toNat = min selection.exactTotal Amount.top :=
  Coins.toNat_total selection.coins

theorem Selection.toNat_total_le (selection : Selection) :
    selection.total.toNat ≤ selection.exactTotal := by
  rw [Selection.toNat_total]
  exact Nat.min_le_left ..

/-! ## Sums of outputs -/

namespace Output

@[simp] theorem exactTotal_nil : exactTotal [] = 0 := rfl

@[simp] theorem exactTotal_cons (o : Output) (rest : List Output) :
    exactTotal (o :: rest) = o.amount.toNat + exactTotal rest := rfl

theorem exactTotal_append (first rest : List Output) :
    exactTotal (first ++ rest) = exactTotal first + exactTotal rest := by
  induction first with
  | nil => rw [List.nil_append, exactTotal_nil, Nat.zero_add]
  | cons o first ih => rw [List.cons_append, exactTotal_cons, exactTotal_cons, ih, Nat.add_assoc]

theorem exactTotal_replicate (n : Nat) (o : Output) :
    exactTotal (List.replicate n o) = n * o.amount.toNat := by
  induction n with
  | zero => rw [List.replicate_zero, exactTotal_nil, Nat.zero_mul]
  | succ n ih => rw [List.replicate_succ, exactTotal_cons, ih, Nat.succ_mul, Nat.add_comm]

/-- The checked sum is the exact one where that is an amount, and nothing otherwise. -/
theorem foldlM_add? (outputs : List Output) (start : Amount) :
    outputs.foldlM (fun sum o => sum.add? o.amount) start =
      if start.toNat + exactTotal outputs ≤ Amount.top then
        some (UInt64.ofNat (start.toNat + exactTotal outputs))
      else none := by
  induction outputs generalizing start with
  | nil => simp [exactTotal_nil, Amount.toNat_le_top]
  | cons o rest ih =>
    rw [List.foldlM_cons, exactTotal_cons, ← Nat.add_assoc]
    by_cases hfit : start.toNat + o.amount.toNat ≤ Amount.top
    · obtain ⟨sum, hadd, hsum⟩ := Amount.exists_add? hfit
      rw [hadd, Option.bind_eq_bind, Option.bind_some, ih, hsum]
    · have hlarge : ¬ start.toNat + o.amount.toNat + exactTotal rest ≤ Amount.top := by omega
      simp [Amount.add?, hfit, hlarge]

theorem total?_eq (outputs : List Output) :
    total? outputs =
      if exactTotal outputs ≤ Amount.top then some (UInt64.ofNat (exactTotal outputs))
      else none := by
  rw [total?, foldlM_add?]
  simp

end Output

/-! ## The balance -/

theorem Amount.toNat_sub? {a b : Amount} (h : b.toNat ≤ a.toNat) :
    a.sub? b = some (UInt64.ofNat (a.toNat - b.toNat)) := by
  rw [Amount.sub?, if_pos (UInt64.le_iff_toNat_le.2 h)]
  refine congrArg some (UInt64.toNat_inj.1 ?_)
  rw [UInt64.toNat_sub_of_le _ _ (UInt64.le_iff_toNat_le.2 h),
    UInt64.toNat_ofNat_of_lt' (by have := a.toNat_lt; simp only [UInt64.size]; omega)]

/-- **The balance is that of the exact sum**, also where that is no amount any more. -/
theorem remainder_eq (selected : Amount) (outputs : List Output) :
    remainder selected outputs =
      if Output.exactTotal outputs ≤ selected.toNat then
        .ok (UInt64.ofNat (selected.toNat - Output.exactTotal outputs))
      else .error .additionsExceedTotal := by
  have htop := Amount.toNat_le_top selected
  rw [remainder, Output.total?_eq]
  by_cases hfit : Output.exactTotal outputs ≤ Amount.top
  · have hsum : (UInt64.ofNat (Output.exactTotal outputs)).toNat = Output.exactTotal outputs :=
      UInt64.toNat_ofNat_of_lt' (by simp only [Amount.top] at hfit; simp only [UInt64.size]; omega)
    rw [if_pos hfit, Option.bind_some]
    by_cases hle : Output.exactTotal outputs ≤ selected.toNat
    · rw [Amount.toNat_sub? (by omega), if_pos hle, hsum]
    · have hlt : ¬ UInt64.ofNat (Output.exactTotal outputs) ≤ selected := by
        rw [UInt64.le_iff_toNat_le, hsum]
        exact hle
      simp [Amount.sub?, hlt, hle]
  · rw [if_neg hfit, if_neg (show ¬ Output.exactTotal outputs ≤ selected.toNat by omega)]
    rfl

/-! ## The outputs of a plan -/

/-- What the outputs of a plan come to: what the selection is worth, with the sizes together in the
place of the target. -/
theorem Outputs.exactTotal_ofPlan (plan : Plan) (resolved : Selection.Resolved) (address : String) :
    Output.exactTotal (Outputs.ofPlan plan resolved address).toList + resolved.target.toNat =
      resolved.selected.toNat + plan.size.toNat * plan.count.toNat := by
  have hle := UInt64.le_iff_toNat_le.1 resolved.target_le_selected
  have hchange : resolved.change.toNat = resolved.selected.toNat - resolved.target.toNat :=
    UInt64.toNat_sub_of_le _ _ resolved.target_le_selected
  have hlast : Output.exactTotal (Outputs.ofPlan plan resolved address).change.toList =
      resolved.change.toNat := by
    simp only [Outputs.ofPlan]
    split
    · next hzero => simp [hzero]
    · simp
  rw [Outputs.toList, Output.exactTotal_append, hlast, hchange]
  simp only [Outputs.ofPlan, Output.exactTotal_replicate]
  rw [Nat.mul_comm]
  omega

end CoinRelay
