import CoinRelay.Proofs.Planner.Fees

/-! # More to spend, no less planned

A run with fewer operations or fewer fees than another serves the same candidates, but stops sooner.
Fewer fees cost it whole plans at the end. Fewer operations may besides leave the last plan with a
part of what it asks for otherwise. -/

namespace CoinRelay

/-! ## A budget below another -/

namespace Budget
variable {budget ample rest : Budget} {wanted fee count : Amount}

/-- What a budget can take from, a budget with no less can take from. -/
theorem exists_take?_of_le (hoperations : budget.operations ≤ ample.operations)
    (hfees : budget.fees ≤ ample.fees) (h : budget.take? wanted fee = some (count, rest)) :
    ∃ more left, ample.take? wanted fee = some (more, left) ∧ rest.fees ≤ left.fees := by
  obtain ⟨hsome, hfee, -, -⟩ := take?_eq_some.1 h
  have hany : ample.operations ≠ 0 := by
    rintro hnone
    rw [hnone] at hoperations
    exact hsome (UInt64.le_antisymm hoperations UInt64.zero_le)
  have hmore : ample.take? wanted fee = some (_, _) :=
    take?_eq_some.2 ⟨hany, UInt64.le_trans hfee hfees, rfl, rfl⟩
  refine ⟨_, _, hmore, ?_⟩
  have hpaid := fee_add_rest h
  have hpaid' := fee_add_rest hmore
  rw [UInt64.le_iff_toNat_le] at hfees ⊢
  omega

/-- With as many operations as another budget has, as many are taken and left. -/
theorem take?_same_operations {more : Amount} {left : Budget}
    (hsame : budget.operations = ample.operations)
    (h : budget.take? wanted fee = some (count, rest))
    (hmore : ample.take? wanted fee = some (more, left)) :
    count = more ∧ rest.operations = left.operations := by
  obtain ⟨-, -, rfl, rfl⟩ := take?_eq_some.1 h
  obtain ⟨-, -, rfl, rfl⟩ := take?_eq_some.1 hmore
  rw [hsame]
  exact ⟨rfl, rfl⟩

/-- With no more operations than another budget has, as many are taken and no more are left, or all
of them are taken and those are no more. -/
theorem take?_fewer_operations {more : Amount} {left : Budget}
    (hle : budget.operations ≤ ample.operations)
    (h : budget.take? wanted fee = some (count, rest))
    (hmore : ample.take? wanted fee = some (more, left)) :
    count = more ∧ rest.operations ≤ left.operations ∨
      count.toNat ≤ more.toNat ∧ rest.operations = 0 := by
  have hcount := toNat_count h
  have hcount' := toNat_count hmore
  have hrest := count_add_rest h
  have hleft := count_add_rest hmore
  rw [UInt64.le_iff_toNat_le] at hle
  by_cases hsame : count.toNat = more.toNat
  · refine .inl ⟨UInt64.toNat_inj.1 hsame, ?_⟩
    rw [UInt64.le_iff_toNat_le]
    omega
  · refine .inr ⟨by omega, UInt64.toNat_inj.1 ?_⟩
    rw [UInt64.toNat_zero]
    omega

end Budget

/-! ## Plans cut short -/

/-- A plan that asks for a part of what another one asks for. -/
structure Plan.PartOf (part whole : Plan) : Prop where
  operation_eq : part.operation = whole.operation
  size_eq : part.size = whole.size
  reason_eq : part.reason = whole.reason
  count_le : part.count.toNat ≤ whole.count.toNat
  target_le : part.target.toNat ≤ whole.target.toNat

/-- Plans that are the first of some others, the last of them perhaps in part. -/
structure CutShort (plans others : List Plan) : Prop where
  length_le : plans.length ≤ others.length
  same : ∀ i plan whole, plans[i]? = some plan → others[i]? = some whole →
    plan = whole ∨ i + 1 = plans.length ∧ plan.PartOf whole

namespace CutShort
variable {plans others : List Plan} {plan part whole : Plan}

theorem nil : CutShort [] others where
  length_le := Nat.zero_le _
  same := by simp

theorem last (h : part.PartOf whole) : CutShort [part] (whole :: others) where
  length_le := by simp
  same := by
    intro i plan found hplan hfound
    cases i with
    | zero =>
      cases hplan
      cases hfound
      exact .inr ⟨rfl, h⟩
    | succ i => simp at hplan

theorem cons (h : CutShort plans others) : CutShort (plan :: plans) (plan :: others) where
  length_le := Nat.succ_le_succ h.length_le
  same := by
    intro i found whole hfound hwhole
    cases i with
    | zero =>
      cases hfound
      cases hwhole
      exact .inl rfl
    | succ i =>
      refine (h.same i found whole hfound hwhole).imp_right ?_
      rintro ⟨hlast, hpart⟩
      exact ⟨congrArg (· + 1) hlast, hpart⟩

end CutShort

namespace Phase
variable {phase : Phase} {budget ample : Budget}

theorem partOf_plan (phase : Phase) (b : Bucket) {count more : Amount}
    (h : count.toNat ≤ more.toNat) : (phase.plan b count).PartOf (phase.plan b more) where
  operation_eq := rfl
  size_eq := rfl
  reason_eq := rfl
  count_le := h
  target_le := by
    simp only [plan, Amount.toNat_mul]
    exact min_le_min_right _ (Nat.mul_le_mul_left _ h)

theorem plans_of_no_operations (phase : Phase) (candidates : List Candidate)
    (h : budget.operations = 0) : phase.plans budget candidates = [] := by
  cases candidates with
  | nil => rfl
  | cons c later =>
    have hnone : budget.take? c.wanted phase.fee = none := Budget.take?_eq_none.2 (.inl h)
    simp only [Phase.plans, hnone]

/-- With no more of either to spend, a phase makes the same plans, cut short. -/
theorem plans_cutShort {candidates : List Candidate}
    (hoperations : budget.operations ≤ ample.operations) (hfees : budget.fees ≤ ample.fees) :
    CutShort (phase.plans budget candidates) (phase.plans ample candidates) := by
  induction candidates generalizing budget ample with
  | nil => exact .nil
  | cons c later ih =>
    cases htake : budget.take? c.wanted phase.fee with
    | none =>
      simp only [Phase.plans, htake]
      exact .nil
    | some taken =>
      obtain ⟨count, rest⟩ := taken
      obtain ⟨more, left, hmore, hpaid⟩ := Budget.exists_take?_of_le hoperations hfees htake
      simp only [Phase.plans, htake, hmore]
      -- Both make the same plan, or the poorer one spends its last operations on a part of it.
      rcases Budget.take?_fewer_operations hoperations htake hmore with ⟨rfl, hrest⟩ | ⟨hle, hnone⟩
      · exact (ih hrest hpaid).cons
      · rw [phase.plans_of_no_operations later hnone]
        exact .last (phase.partOf_plan c.bucket hle)

/-- With as many operations and no more fees, a phase makes the first of the same plans. -/
theorem plans_isPrefix {candidates : List Candidate}
    (hoperations : budget.operations = ample.operations) (hfees : budget.fees ≤ ample.fees) :
    phase.plans budget candidates <+: phase.plans ample candidates := by
  induction candidates generalizing budget ample with
  | nil => exact List.prefix_rfl
  | cons c later ih =>
    cases htake : budget.take? c.wanted phase.fee with
    | none =>
      simp only [Phase.plans, htake]
      exact List.nil_prefix
    | some taken =>
      obtain ⟨count, rest⟩ := taken
      obtain ⟨more, left, hmore, hpaid⟩ :=
        Budget.exists_take?_of_le (UInt64.le_of_eq hoperations) hfees htake
      obtain ⟨rfl, hrest⟩ := Budget.take?_same_operations hoperations htake hmore
      simp only [Phase.plans, htake, hmore]
      exact (List.prefix_cons_inj _).2 (ih hrest hpaid)

end Phase

/-! ## Runs with more to spend -/

namespace PlannerInput

/-- The same run with another bound on its operations. -/
def withOperations (input : PlannerInput) (n : Amount) : PlannerInput :=
  { input with maxOperations := n }

/-- The same run with another bound on its fees. -/
def withFeeBudget (input : PlannerInput) (n : Amount) : PlannerInput :=
  { input with feeBudget := n }

/-- A bound of zero on the fees allows no less than any other. -/
theorem startFees_withFeeBudget_le (input : PlannerInput) {fees ample : Amount} (hfees : fees ≠ 0)
    (hle : ample = 0 ∨ fees ≤ ample) :
    (input.withFeeBudget fees).startFees ≤ (input.withFeeBudget ample).startFees := by
  have hsmall : (input.withFeeBudget fees).startFees = fees.toNat := if_neg hfees
  rw [hsmall, startFees, withFeeBudget]
  split
  · exact Amount.toNat_le_top fees
  · next hsome => exact UInt64.le_iff_toNat_le.1 (hle.resolve_left hsome)

/-- **More to spend, no less planned.** Of two runs that differ in the bound on their operations
only, the one with the lower bound makes the plans of the other, cut short. Of two that differ in
the bound on their fees only, where zero is the highest, it makes the first plans of the other. -/
theorem plans_mono (input : PlannerInput) :
    (∀ few many, few ≤ many →
      CutShort (input.withOperations few).plans (input.withOperations many).plans) ∧
    ∀ fees ample, fees ≠ 0 → ample = 0 ∨ fees ≤ ample →
      (input.withFeeBudget fees).plans <+: (input.withFeeBudget ample).plans := by
  constructor
  · intro few many hle
    rw [plans_eq, plans_eq]
    exact Phase.plans_cutShort hle UInt64.le_rfl
  · intro fees ample hfees hle
    rw [plans_eq, plans_eq]
    refine Phase.plans_isPrefix rfl ?_
    rw [UInt64.le_iff_toNat_le, Budget.toNat_fees_ofInput, Budget.toNat_fees_ofInput]
    exact input.startFees_withFeeBudget_le hfees hle

/-- Of two plans for five coins each, three operations leave a part of the first, and fees of seven
leave the first. -/
theorem plans_mono_of_seven :
    let run := emptyPair.withFees 7 7
    (3 : Amount) ≤ 10 ∧ (7 : Amount) ≠ 0 ∧
      (run.withOperations 3).plans = [⟨.split, 1, 3, 3, "low_watermark_buffer_deficit"⟩] ∧
      (run.withFeeBudget 7).plans = [⟨.split, 1, 5, 5, "low_watermark_buffer_deficit"⟩] ∧
      CutShort (run.withOperations 3).plans (run.withOperations 10).plans ∧
      (run.withFeeBudget 7).plans <+: (run.withFeeBudget 0).plans := by
  intro run
  have hdeficits : run.deficits = emptyPair.deficits := rfl
  have hthree : (run.withOperations 3).deficits = run.deficits := rfl
  have hseven : (run.withFeeBudget 7).deficits = run.deficits := rfl
  refine ⟨by decide, by decide, ?_, ?_, (plans_mono run).1 3 10 (by decide),
    (plans_mono run).2 7 0 (by decide) (.inl rfl)⟩
  · rw [plans, hthree, hdeficits, deficits_emptyPair]
    decide
  · rw [plans, hseven, hdeficits, deficits_emptyPair]
    decide

end PlannerInput

end CoinRelay
