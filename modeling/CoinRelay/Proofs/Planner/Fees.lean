import CoinRelay.Proofs.Planner.Runs

/-! # What the fees of a run decide

Fees decide how many plans a run can pay for, and nothing else: its plans are the first ones of the
run in which operations are free. A bound of zero on the fees should be none, but it is kept as the
largest amount, and fees can come to more than that. -/

namespace CoinRelay

/-! ## A phase without fees -/

/-- Of two budgets with the same operations, one that can pay the fee gives as much as one that need
not pay any. -/
theorem Budget.take?_of_free {budget ample rest : Budget} {wanted fee count : Amount}
    (hsame : ample.operations = budget.operations)
    (hfree : ample.take? wanted 0 = some (count, rest)) (hfee : fee ≤ budget.fees) :
    budget.take? wanted fee = some (count, ⟨rest.operations, budget.fees - fee⟩) := by
  obtain ⟨hoperations, -, hcount, rfl⟩ := take?_eq_some.1 hfree
  rw [hsame] at hoperations hcount
  exact take?_eq_some.2 ⟨hoperations, hfee, hcount, by rw [hsame]⟩

namespace Phase

/-- The phase with operations that cost nothing. -/
def free (phase : Phase) : Phase := { phase with fee := 0 }

/-- The plans of a phase are the first of those without fees, as many as there are fees for. -/
theorem plans_eq_take (phase : Phase) {budget ample : Budget} {candidates : List Candidate}
    {n : Nat} (hsame : ample.operations = budget.operations)
    (hn : ∀ k ≤ (phase.free.plans ample candidates).length,
      k ≤ n ↔ k * phase.fee.toNat ≤ budget.fees.toNat) :
    phase.plans budget candidates = (phase.free.plans ample candidates).take n := by
  induction candidates generalizing budget ample n with
  | nil => simp [Phase.plans]
  | cons c later ih =>
    cases hfree : ample.take? c.wanted phase.free.fee with
    | none =>
      have hnone : budget.operations = 0 := by
        simpa [free, hsame] using Budget.take?_eq_none.1 hfree
      have htake : budget.take? c.wanted phase.fee = none := Budget.take?_eq_none.2 (.inl hnone)
      simp only [Phase.plans, hfree, htake, List.take_nil]
    | some taken =>
      obtain ⟨count, rest⟩ := taken
      simp only [Phase.plans, hfree, List.length_cons] at hn ⊢
      cases n with
      | zero =>
        -- Not even one fee can be paid.
        have hfee : budget.fees < phase.fee := by
          have hone := (hn 1 (by omega)).not.1 (by omega)
          rw [UInt64.lt_iff_toNat_lt]
          omega
        have htake : budget.take? c.wanted phase.fee = none :=
          Budget.take?_eq_none.2 (.inr hfee)
        simp only [htake, List.take_zero]
      | succ n =>
        have hfee : phase.fee ≤ budget.fees := by
          have hone := (hn 1 (by omega)).1 (by omega)
          rw [UInt64.le_iff_toNat_le]
          omega
        have hrest : (budget.fees - phase.fee).toNat = budget.fees.toNat - phase.fee.toNat :=
          UInt64.toNat_sub_of_le _ _ hfee
        have hle := UInt64.le_iff_toNat_le.1 hfee
        simp only [Budget.take?_of_free hsame hfree hfee, List.take_succ_cons]
        refine congrArg₂ _ rfl (ih rfl fun k hk => ?_)
        have hsucc := hn (k + 1) (by omega)
        rw [Nat.succ_mul] at hsucc
        rw [hrest]
        omega

end Phase

/-! ## Runs that differ in their fees -/

namespace PlannerInput
variable {input : PlannerInput}

/-- The same run with other fees. -/
def withFees (input : PlannerInput) (split combine : Amount) : PlannerInput :=
  { input with splitFee := split, combineFee := combine }

theorem phase_withFees (input : PlannerInput) (split combine : Amount) :
    (input.withFees split combine).phase =
      { input.phase with fee := (input.withFees split combine).feeOf input.phase.operation } := by
  unfold phase
  change (if input.deficits.isEmpty then _ else _) = _
  split <;> rfl

/-- The plans that are made if operations are free. -/
def freePlans (input : PlannerInput) : List Plan := (input.withFees 0 0).plans

theorem freePlans_eq (input : PlannerInput) :
    input.freePlans = input.phase.free.plans (.ofInput input) input.candidates := by
  have hfee : (input.withFees 0 0).feeOf input.phase.operation = 0 := by
    cases input.phase.operation <;> rfl
  rw [freePlans, plans_eq, phase_withFees, hfee]
  rfl

/-- How many plans the fees of a run allow, of those that it makes without fees. -/
def payable (input : PlannerInput) : Nat :=
  if input.feeOf input.phase.operation = 0 then input.freePlans.length
  else min input.freePlans.length
    (input.startFees / (input.feeOf input.phase.operation).toNat)

theorem payable_le (input : PlannerInput) : input.payable ≤ input.freePlans.length := by
  unfold payable
  split
  · exact Nat.le_refl _
  · exact Nat.min_le_left ..

theorem le_payable_iff (input : PlannerInput) {k : Nat} (hk : k ≤ input.freePlans.length) :
    k ≤ input.payable ↔ k * (input.feeOf input.phase.operation).toNat ≤ input.startFees := by
  unfold payable
  split
  · next hfree =>
    rw [hfree, UInt64.toNat_zero, Nat.mul_zero]
    exact iff_of_true hk (Nat.zero_le _)
  · next hfee =>
    have hpos : 0 < (input.feeOf input.phase.operation).toNat :=
      Nat.pos_of_ne_zero fun hzero => hfee (UInt64.toNat_inj.1 hzero)
    rw [Nat.le_min, Nat.le_div_iff_mul_le hpos, and_iff_right hk]

/-- **Fees cut a run short.** -/
theorem plans_eq_take_payable (input : PlannerInput) :
    input.plans = input.freePlans.take input.payable := by
  rw [plans_eq, freePlans_eq]
  refine Phase.plans_eq_take _ rfl fun k hk => ?_
  rw [fee_phase, Budget.toNat_fees_ofInput]
  refine input.le_payable_iff ?_
  rw [freePlans_eq]
  exact hk

/-- **What a bound of zero is worth.** Two runs without a bound on their fees, which differ in
nothing but the fees, make the same plans exactly if no number of plans has fees within the largest
amount in one run and beyond it in the other. -/
theorem plans_withFees_eq_iff (input : PlannerInput) (split combine : Amount)
    (h : input.feeBudget = 0) : (input.withFees split combine).plans = input.plans ↔
      ∀ k ≤ input.freePlans.length,
        (k * ((input.withFees split combine).feeOf input.phase.operation).toNat ≤ Amount.top ↔
          k * (input.feeOf input.phase.operation).toNat ≤ Amount.top) := by
  have hfees : input.startFees = Amount.top := if_pos h
  have hfees' : (input.withFees split combine).startFees = Amount.top := if_pos h
  have hfree : (input.withFees split combine).freePlans = input.freePlans := rfl
  have hle := input.payable_le
  have hle' : (input.withFees split combine).payable ≤ input.freePlans.length :=
    (input.withFees split combine).payable_le
  have hiff {k : Nat} (hk : k ≤ input.freePlans.length) :
      k ≤ (input.withFees split combine).payable ↔
        k * ((input.withFees split combine).feeOf input.phase.operation).toNat ≤ Amount.top := by
    have h := (input.withFees split combine).le_payable_iff hk
    rwa [phase_withFees, hfees'] at h
  rw [plans_eq_take_payable, plans_eq_take_payable input, hfree, List.take_eq_take_iff,
    Nat.min_eq_left hle, Nat.min_eq_left hle']
  constructor
  · intro heq k hk
    rw [← hiff hk, heq, input.le_payable_iff hk, hfees]
  · intro hsame
    refine le_antisymm ?_ ?_
    · rw [input.le_payable_iff hle', hfees, ← hsame _ hle', ← hiff hle']
    · rw [hiff hle, hsame _ hle, ← hfees, ← input.le_payable_iff hle]

end PlannerInput

/-! ## Fees beyond the largest amount -/

/-- Two buckets without coins that should hold five each, and no bound on the fees. -/
def emptyPair : PlannerInput where
  buckets := [⟨1, 5, 0, ⟨0x4000000000000000⟩, 0⟩, ⟨2, 5, 0, ⟨0x4000000000000000⟩, 0⟩]
  maxOperations := 10
  feeBudget := 0
  splitFee := 0
  combineFee := 0

theorem deficits_emptyPair : emptyPair.deficits =
    [⟨⟨1, 5, 0, ⟨0x4000000000000000⟩, 0⟩, 5⟩, ⟨⟨2, 5, 0, ⟨0x4000000000000000⟩, 0⟩, 5⟩] :=
  List.mergeSort_of_pairwise (by decide)

theorem plans_emptyPair (fee : Amount) : (emptyPair.withFees fee fee).plans =
    (Phase.split (emptyPair.withFees fee fee)).plans (.ofInput emptyPair)
      [⟨⟨1, 5, 0, ⟨0x4000000000000000⟩, 0⟩, 5⟩, ⟨⟨2, 5, 0, ⟨0x4000000000000000⟩, 0⟩, 5⟩] := by
  have hdeficits : (emptyPair.withFees fee fee).deficits = emptyPair.deficits := rfl
  rw [PlannerInput.plans, hdeficits, deficits_emptyPair]
  rfl

theorem freePlans_emptyPair : emptyPair.freePlans =
    [⟨.split, 1, 5, 5, "low_watermark_buffer_deficit"⟩,
      ⟨.split, 2, 5, 10, "low_watermark_buffer_deficit"⟩] := by
  rw [PlannerInput.freePlans, plans_emptyPair]
  decide

namespace PlannerInput

/-- Two fees of seven are payable, so that the run is the one without fees. -/
theorem plans_withFees_of_seven :
    emptyPair.feeBudget = 0 ∧ (emptyPair.withFees 7 7).plans = emptyPair.plans := by
  refine ⟨rfl, (plans_withFees_eq_iff emptyPair 7 7 rfl).2 fun k hk => ?_⟩
  rw [freePlans_emptyPair] at hk
  have hseven : ((emptyPair.withFees 7 7).feeOf emptyPair.phase.operation).toNat = 7 := by
    cases emptyPair.phase.operation <;> rfl
  have hzero : (emptyPair.feeOf emptyPair.phase.operation).toNat = 0 := by
    cases emptyPair.phase.operation <;> rfl
  rw [hseven, hzero, Amount.top]
  simp only [List.length_cons, List.length_nil] at hk
  omega

/-- **An unlimited budget that gives out.** Two fees of two to the power 63 come to more than the
largest amount, and the second bucket gets no plan. -/
theorem second_plan_unpaid :
    let costly := emptyPair.withFees 9223372036854775808 9223372036854775808
    emptyPair.feeBudget = 0 ∧ costly.feeBudget = 0 ∧
      emptyPair.plans = [⟨.split, 1, 5, 5, "low_watermark_buffer_deficit"⟩,
        ⟨.split, 2, 5, 10, "low_watermark_buffer_deficit"⟩] ∧
      costly.plans = [⟨.split, 1, 5, 5, "low_watermark_buffer_deficit"⟩] := by
  refine ⟨rfl, rfl, freePlans_emptyPair, ?_⟩
  rw [plans_emptyPair]
  decide

end PlannerInput

end CoinRelay
