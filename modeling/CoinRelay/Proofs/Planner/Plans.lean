import CoinRelay.Proofs.Handoff.Plans
import CoinRelay.Proofs.Planner.Runs

/-! # What the planner proposes

Every plan of a run is for a bucket of the input and asks for as many operations as a plan may, but
not for none. Its target is its total, stopped at the largest amount. The stages that read it count
in signed words, so a proposal is read as it is unless the coins of its bucket are worth nothing or
its total is beyond the signed words. -/

namespace CoinRelay
open Text

/-! ## Proposals as requests -/

/-- What holds of every proposal, whatever its phase and its bucket. -/
structure Plan.Proposed (plan : Plan) : Prop where
  count_pos : 0 < plan.count.toNat
  count_le : plan.count.toNat ≤ maxCount
  target_eq : plan.target = Amount.mul plan.size plan.count
  reason_trimmed : Trimmed plan.reason.toList

theorem Phase.Proposes.proposed {phase : Phase} {c : Candidate} {plan : Plan}
    (h : phase.Proposes c plan) (hreason : Trimmed phase.reason.toList) : plan.Proposed where
  count_pos := h.count_pos
  count_le := h.count_le
  target_eq := by rw [h.eq_plan]; rfl
  reason_trimmed := by rw [h.eq_plan]; exact hreason

theorem PlannerInput.proposed_of_mem_plans {input : PlannerInput} {plan : Plan}
    (h : plan ∈ input.plans) : plan.Proposed := by
  obtain ⟨c, -, hp⟩ := exists_proposes h
  refine hp.proposed ?_
  unfold phase
  split
  · simp only [Phase.combine]
    exact trimmed_of_any (by decide)
  · simp only [Phase.split]
    exact trimmed_of_any (by decide)

namespace Plan
variable {plan : Plan} {request : Fields}

/-- The plan asks for coins that are worth something, and for no more than a signed word in all. -/
def InRange (plan : Plan) : Prop :=
  0 < plan.size.toNat ∧ ((plan.size.toNat * plan.count.toNat : Nat) : Int) < Word.signedBound

instance : DecidablePred InRange := fun plan =>
  inferInstanceAs (Decidable (0 < plan.size.toNat ∧
    ((plan.size.toNat * plan.count.toNat : Nat) : Int) < Word.signedBound))

/-- In range the target is the exact total. -/
theorem Proposed.targetDerived (hp : plan.Proposed) (hr : plan.InRange) : plan.TargetDerived := by
  have htarget : plan.target.toNat = min (plan.size.toNat * plan.count.toNat) Amount.top := by
    rw [hp.target_eq, Amount.toNat_mul]
  have htotal := hr.2
  simp only [Word.signedBound] at htotal
  rw [TargetDerived, htarget, Amount.top]
  omega

theorem Proposed.valid (hp : plan.Proposed) (hr : plan.InRange) : plan.Valid := by
  have htarget := hp.targetDerived hr
  unfold TargetDerived at htarget
  exact {
    size_pos := hr.1
    count_pos := hp.count_pos
    count_le := hp.count_le
    total_lt := hr.2
    target_pos := by rw [htarget]; exact Nat.mul_pos hr.1 hp.count_pos
    target_lt := by rw [htarget]; exact hr.2
    reason_trimmed := hp.reason_trimmed }

/-- Out of range the values of the plan are refused before its target is looked at. -/
theorem Proposed.ofFields_members (hp : plan.Proposed) (hr : ¬ plan.InRange)
    (policy : TargetPolicy) : ofFields plan.members policy = .error .invalidPlanValues := by
  have hop := plan.ofName?_text_members
  have hget : plan.members.get? "size_base_units" = some (.ofUInt64 plan.size) := by
    simp [members, Fields.get?_cons]
  by_cases hsigned : (plan.size.toNat : Int) < Word.signedBound
  · have hsize := integerAt_ofUInt64 hget hsigned
    have hcount := integerAt_count hp.count_le
    have hbounds : (plan.size.toNat : Int) ≤ 0 ∨ (plan.count.toNat : Int) ≤ 0 ∨
        (maxCount : Int) < plan.count.toNat ∨
        Word.signedBound ≤ (plan.size.toNat : Int) * plan.count.toNat := by
      rcases not_and_or.1 hr with hzero | htotal
      · exact .inl (by omega)
      · rw [Int.natCast_mul, Int.not_lt] at htotal
        exact .inr (.inr (.inr htotal))
    exact ofFields_of_out_of_bounds hop hsize hcount hbounds
  · exact ofFields_of_no_size hop (integerAt_ofUInt64_of_large hget (Int.not_lt.1 hsigned))

/-- **Which proposals are read.** A request that carries a proposal of the planner is read under
every policy as exactly this plan, if the proposal is in range, and otherwise refused for its
values. -/
theorem parse_proposal {input : PlannerInput} (h : plan ∈ input.plans)
    (hget : request.get? "plan" = some plan.toJson) (policy : TargetPolicy) :
    Plan.parse request policy = if plan.InRange then .ok plan else .error .invalidPlanValues := by
  have hp := PlannerInput.proposed_of_mem_plans h
  by_cases hr : plan.InRange
  · rw [if_pos hr]
    exact (hp.valid hr).parse hget fun _ => hp.targetDerived hr
  · rw [if_neg hr]
    have hobject : request.objectAt? "plan" = some plan.members := by
      rw [Fields.objectAt?, hget]
      rfl
    rw [Plan.parse, hobject]
    exact hp.ofFields_members hr policy

end Plan

/-- A run for one bucket without coins that should hold a thousand of this size. -/
def emptyBucket (size : Amount) : PlannerInput where
  buckets := [⟨size, 1000, 0, ⟨0⟩, 0⟩]
  maxOperations := 1000
  feeBudget := 0
  splitFee := 0
  combineFee := 0

theorem plans_emptyBucket (size : Amount) : (emptyBucket size).plans =
    [⟨.split, size, 1000, Amount.mul size 1000, "low_watermark_buffer_deficit"⟩] := by
  have hdeficits : (emptyBucket size).deficits = [⟨⟨size, 1000, 0, ⟨0⟩, 0⟩, 1000⟩] :=
    List.mergeSort_singleton _
  have hbudget : Budget.ofInput (emptyBucket size) = ⟨1000, Amount.clamp Amount.top⟩ := rfl
  have htake : Budget.take? ⟨1000, Amount.clamp Amount.top⟩ 1000 0 =
      some (1000, ⟨0, Amount.clamp Amount.top⟩) := by
    decide
  have hfee : (Phase.split (emptyBucket size)).fee = 0 := rfl
  rw [PlannerInput.plans, hdeficits, hbudget]
  simp only [Phase.plans, hfee, htake]
  rfl

namespace Plan

/-- A thousand coins of ten are proposed, and the proposal is read. -/
theorem parse_proposal_of_ten :
    let proposal : Plan := ⟨.split, 10, 1000, 10000, "low_watermark_buffer_deficit"⟩
    proposal ∈ (emptyBucket 10).plans ∧ proposal.InRange ∧
      ∀ policy, Plan.parse [("plan", proposal.toJson)] policy = .ok proposal := by
  have hmem : (⟨.split, 10, 1000, 10000, "low_watermark_buffer_deficit"⟩ : Plan) ∈
      (emptyBucket 10).plans := by
    rw [plans_emptyBucket]
    decide
  refine ⟨hmem, by decide, fun policy => ?_⟩
  rw [parse_proposal hmem rfl policy]
  rfl

/-- **A proposal that no stage reads.** A thousand coins of ten to the sixteenth are proposed, for a
target beyond the signed words. -/
theorem refused_proposal :
    let proposal : Plan :=
      ⟨.split, 10000000000000000, 1000, 10000000000000000000, "low_watermark_buffer_deficit"⟩
    proposal ∈ (emptyBucket 10000000000000000).plans ∧
      ∀ policy, Plan.parse [("plan", proposal.toJson)] policy = .error .invalidPlanValues := by
  constructor
  · rw [plans_emptyBucket]
    decide
  · intro policy
    cases policy <;> decide

end Plan

end CoinRelay
