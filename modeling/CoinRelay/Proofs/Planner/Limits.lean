import CoinRelay.Proofs.Planner.Runs

/-! # What a run keeps to

The plans of a run stay within its operations and fees, ask of each bucket no more than it misses or
has too many, and combine coins only where no bucket misses any. All sums and products are those of
natural numbers. -/

namespace CoinRelay.PlannerInput

/-- What the plans of a run must keep to. -/
structure Within (input : PlannerInput) (plans : List Plan) : Prop where
  operations_le : (plans.map (·.count.toNat)).sum ≤ input.maxOperations.toNat
  count_pos : ∀ plan ∈ plans, 1 ≤ plan.count.toNat
  count_le : ∀ plan ∈ plans, plan.count.toNat ≤ 1000
  /-- A bound of zero on the fees is none. -/
  fees_le : input.feeBudget ≠ 0 → ∀ plan ∈ plans,
    plans.length * (input.feeOf plan.operation).toNat ≤ input.feeBudget.toNat
  /-- The plans are for buckets of the input, each of which is taken at most once. -/
  matched : ∃ buckets, buckets.Subperm input.buckets ∧
    List.Forall₂ (fun b plan => plan.size = b.size ∧
      plan.count.toNat ≤ (b.wantedFor plan.operation).toNat) buckets plans
  one_operation : ∃ operation, ∀ plan ∈ plans, plan.operation = operation
  /-- No bucket that should hold coins misses any when coins are combined. -/
  combine_waits : ∀ plan ∈ plans, plan.operation = .combine →
    ∀ b ∈ input.buckets, b.target ≠ 0 →
      min Amount.top (b.target.toNat + b.buffer.toNat) ≤ b.current.toNat

theorem fees_plans_le (input : PlannerInput) :
    input.plans.length * input.phase.fee.toNat ≤ input.startFees := by
  obtain ⟨left, hserves⟩ := input.exists_serves
  have hfees := hserves.fees
  rw [Budget.toNat_fees_ofInput] at hfees
  omega

/-- The buckets of the candidates that are served, one for each plan. -/
theorem matched_plans (input : PlannerInput) : ∃ buckets, buckets.Subperm input.buckets ∧
    List.Forall₂ (fun b plan => plan.size = b.size ∧
      plan.count.toNat ≤ (b.wantedFor plan.operation).toNat) buckets input.plans := by
  obtain ⟨left, hserves⟩ := input.exists_serves
  refine ⟨(input.candidates.take input.plans.length).map (·.bucket), ?_, ?_⟩
  · have hperm := input.candidates_perm.map (·.bucket)
    rw [map_bucket_applicants] at hperm
    exact ((List.take_sublist ..).map _).subperm.trans
      (hperm.subperm.trans List.filter_sublist.subperm)
  · rw [List.forall₂_map_left_iff, List.forall₂_iff_zip]
    refine ⟨hserves.proposals.length_eq, fun {c plan} hzip => ?_⟩
    have hproposes := List.forall₂_zip hserves.proposals hzip
    have hc := mem_candidates.1 (List.mem_of_mem_take (List.of_mem_zip hzip).1)
    rw [operation_of_mem_plans (List.of_mem_zip hzip).2, ← hc.2.1]
    exact ⟨by rw [hproposes.eq_plan]; rfl, hproposes.count_le_wanted⟩

/-- **A run keeps to its limits.** -/
theorem plans_within (input : PlannerInput) : input.Within input.plans where
  operations_le := by
    obtain ⟨left, hserves⟩ := input.exists_serves
    have hoperations := hserves.operations
    simp only [Budget.ofInput] at hoperations
    omega
  count_pos := fun plan hplan => (exists_proposes hplan).elim fun _ h => h.2.count_pos
  count_le := fun plan hplan => (exists_proposes hplan).elim fun _ h => h.2.count_le
  fees_le := by
    intro hbudget plan hplan
    have hfees := input.fees_plans_le
    rw [startFees, if_neg hbudget, fee_phase] at hfees
    rw [operation_of_mem_plans hplan]
    exact hfees
  matched := input.matched_plans
  one_operation := ⟨input.phase.operation, fun _ => operation_of_mem_plans⟩
  combine_waits := by
    intro plan hplan hcombine b hb htarget
    rcases input.phase_cases with ⟨-, hphase, -⟩ | ⟨hnone, -, -⟩
    · rw [operation_of_mem_plans hplan, hphase] at hcombine
      cases hcombine
    · exact (Bucket.deficit_eq_zero_iff htarget).1 (hnone b hb)

end CoinRelay.PlannerInput
