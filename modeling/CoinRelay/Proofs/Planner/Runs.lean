import CoinRelay.Planner
import CoinRelay.Proofs.Handoff.Checked
import Mathlib

/-! # Runs of the planner

A phase serves its candidates in order until its budget gives out. One take from the budget is
accounted for exactly, and by induction so is a whole run: `Phase.Serves` says what the plans take,
what they leave, and why the last candidates get none. -/

namespace CoinRelay

/-! ## Taking from a budget -/

namespace Budget
variable {budget rest : Budget} {wanted fee count : Amount}

theorem take?_eq_some : budget.take? wanted fee = some (count, rest) ↔
    budget.operations ≠ 0 ∧ fee ≤ budget.fees ∧
      count = min (min wanted budget.operations) (UInt64.ofNat Plan.maxCount) ∧
      rest = ⟨budget.operations - count, budget.fees - fee⟩ := by
  unfold take?
  split
  · next h =>
    simp only [reduceCtorEq, false_iff]
    rintro ⟨hoperations, hfee, -⟩
    rcases h with h | h
    · exact hoperations h
    · exact absurd h (UInt64.not_lt.2 hfee)
  · next h =>
    obtain ⟨hoperations, hfee⟩ := not_or.1 h
    simp only [Option.some.injEq, Prod.mk.injEq]
    constructor
    · rintro ⟨rfl, rfl⟩
      exact ⟨hoperations, UInt64.not_lt.1 hfee, rfl, rfl⟩
    · rintro ⟨-, -, rfl, rfl⟩
      exact ⟨rfl, rfl⟩

theorem take?_eq_none :
    budget.take? wanted fee = none ↔ budget.operations = 0 ∨ budget.fees < fee := by
  unfold take?
  split <;> simp_all

theorem toNat_count (h : budget.take? wanted fee = some (count, rest)) :
    count.toNat = min (min wanted.toNat budget.operations.toNat) Plan.maxCount := by
  obtain ⟨-, -, rfl, -⟩ := take?_eq_some.1 h
  rw [UInt64.toNat_min, UInt64.toNat_min]
  rfl

theorem count_pos (h : budget.take? wanted fee = some (count, rest)) (hwanted : wanted ≠ 0) :
    0 < count.toNat := by
  have hoperations : budget.operations.toNat ≠ 0 :=
    fun hzero => (take?_eq_some.1 h).1 (UInt64.toNat_inj.1 hzero)
  have hwanted : wanted.toNat ≠ 0 := fun hzero => hwanted (UInt64.toNat_inj.1 hzero)
  rw [toNat_count h, Plan.maxCount]
  omega

/-- What is taken and what is left make up the operations. -/
theorem count_add_rest (h : budget.take? wanted fee = some (count, rest)) :
    count.toNat + rest.operations.toNat = budget.operations.toNat := by
  have hle : count.toNat ≤ budget.operations.toNat := by
    rw [toNat_count h]
    omega
  obtain ⟨-, -, -, rfl⟩ := take?_eq_some.1 h
  simp only [UInt64.toNat_sub_of_le _ _ (UInt64.le_iff_toNat_le.2 hle)]
  omega

/-- The fee and what is left make up the fees. -/
theorem fee_add_rest (h : budget.take? wanted fee = some (count, rest)) :
    fee.toNat + rest.fees.toNat = budget.fees.toNat := by
  obtain ⟨-, hfee, -, rfl⟩ := take?_eq_some.1 h
  have hle := UInt64.le_iff_toNat_le.1 hfee
  simp only [UInt64.toNat_sub_of_le _ _ hfee]
  omega

end Budget

/-- The fees that a run may pay in all. -/
def PlannerInput.startFees (input : PlannerInput) : Nat :=
  if input.feeBudget = 0 then Amount.top else input.feeBudget.toNat

theorem Budget.toNat_fees_ofInput (input : PlannerInput) :
    (ofInput input).fees.toNat = input.startFees := by
  unfold ofInput PlannerInput.startFees
  split
  · rw [Amount.toNat_clamp, Nat.min_self]
  · rfl

/-! ## Serving candidates -/

/-- What a phase may propose for a candidate. -/
structure Phase.Proposes (phase : Phase) (c : Candidate) (plan : Plan) : Prop where
  eq_plan : plan = phase.plan c.bucket plan.count
  count_pos : 0 < plan.count.toNat
  count_le_wanted : plan.count.toNat ≤ c.wanted.toNat
  count_le : plan.count.toNat ≤ Plan.maxCount

/-- A budget is spent on plans for the first candidates, down to what is left of it. -/
structure Phase.Serves (phase : Phase) (candidates : List Candidate) (budget left : Budget)
    (plans : List Plan) : Prop where
  operations : (plans.map (·.count.toNat)).sum + left.operations.toNat = budget.operations.toNat
  fees : plans.length * phase.fee.toNat + left.fees.toNat = budget.fees.toNat
  proposals : List.Forall₂ phase.Proposes (candidates.take plans.length) plans
  /-- Only the last plan may ask for less than it could, and then no operation is left. -/
  full : ∀ i c plan, candidates[i]? = some c → plans[i]? = some plan →
    plan.count.toNat = min c.wanted.toNat Plan.maxCount ∨
      i + 1 = plans.length ∧ left.operations = 0
  /-- No candidate is passed over while something is left. -/
  stops : plans.length < candidates.length → left.operations = 0 ∨ left.fees < phase.fee

namespace Phase
variable {phase : Phase} {budget rest left : Budget} {c : Candidate} {later : List Candidate}
  {count : Amount} {plans : List Plan}

theorem Serves.nil : phase.Serves [] budget budget [] where
  operations := by simp
  fees := by simp
  proposals := .nil
  full := by simp
  stops := by simp

theorem Serves.stop (h : budget.take? c.wanted phase.fee = none) :
    phase.Serves (c :: later) budget budget [] where
  operations := by simp
  fees := by simp
  proposals := .nil
  full := by simp
  stops := fun _ => Budget.take?_eq_none.1 h

/-- A budget without operations makes no plans. -/
theorem Serves.eq_nil {candidates : List Candidate}
    (h : phase.Serves candidates budget left plans) (hnone : budget.operations = 0) :
    plans = [] ∧ left.operations = 0 := by
  have hsum := h.operations
  rw [hnone, UInt64.toNat_zero] at hsum
  refine ⟨?_, UInt64.toNat_inj.1 (by rw [UInt64.toNat_zero]; omega)⟩
  cases plans with
  | nil => rfl
  | cons plan plans =>
    obtain ⟨c, later, hc, -, -⟩ := List.forall₂_cons_right_iff.1 h.proposals
    have hpos := hc.count_pos
    simp only [List.map_cons, List.sum_cons] at hsum
    omega

theorem Serves.cons (htake : budget.take? c.wanted phase.fee = some (count, rest))
    (hwanted : c.wanted ≠ 0) (h : phase.Serves later rest left plans) :
    phase.Serves (c :: later) budget left (phase.plan c.bucket count :: plans) where
  operations := by
    have hcount := Budget.count_add_rest htake
    have hsum := h.operations
    simp only [List.map_cons, List.sum_cons, Phase.plan]
    omega
  fees := by
    have hfee := Budget.fee_add_rest htake
    have hfees := h.fees
    rw [List.length_cons, Nat.succ_mul]
    omega
  proposals := by
    have hcount := Budget.toNat_count htake
    have hproposes : phase.Proposes c (phase.plan c.bucket count) := {
      eq_plan := rfl
      count_pos := Budget.count_pos htake hwanted
      count_le_wanted := by simp only [Phase.plan]; omega
      count_le := by simp only [Phase.plan]; omega }
    exact .cons hproposes h.proposals
  full := by
    intro i found plan hfound hplan
    cases i with
    | succ i =>
      refine (h.full i found plan (by simpa using hfound) (by simpa using hplan)).imp_right ?_
      rintro ⟨hlast, hleft⟩
      exact ⟨by rw [List.length_cons]; omega, hleft⟩
    | zero =>
      obtain rfl : c = found := by simpa using hfound
      obtain rfl : phase.plan c.bucket count = plan := by simpa using hplan
      have hcount := Budget.toNat_count htake
      have hrest := Budget.count_add_rest htake
      by_cases hfull : count.toNat = min c.wanted.toNat Plan.maxCount
      · exact .inl hfull
      · -- The operations fell short, so that none are left for later candidates.
        have hnone : rest.operations = 0 :=
          UInt64.toNat_inj.1 (by rw [UInt64.toNat_zero]; omega)
        obtain ⟨rfl, hleft⟩ := h.eq_nil hnone
        exact .inr ⟨rfl, hleft⟩
  stops := fun hlt => h.stops (by simpa using hlt)

/-- Candidates and plans stand at the same places. -/
theorem Serves.proposes {candidates : List Candidate} {plan : Plan} {i : Nat}
    (h : phase.Serves candidates budget left plans) (hc : candidates[i]? = some c)
    (hplan : plans[i]? = some plan) : phase.Proposes c plan := by
  obtain ⟨hi, -⟩ := List.getElem?_eq_some_iff.1 hplan
  rw [← List.getElem?_take_of_lt hi] at hc
  exact List.forall₂_zip h.proposals
    (List.mem_of_getElem? (List.getElem?_zip_eq_some.2 ⟨hc, hplan⟩))

/-- **The account of a phase.** -/
theorem exists_serves {candidates : List Candidate} (hwanted : ∀ c ∈ candidates, c.wanted ≠ 0)
    (budget : Budget) :
    ∃ left, phase.Serves candidates budget left (phase.plans budget candidates) := by
  induction candidates generalizing budget with
  | nil => exact ⟨budget, .nil⟩
  | cons c later ih =>
    obtain ⟨hc, hlater⟩ := List.forall_mem_cons.1 hwanted
    unfold Phase.plans
    split
    · next hnone => exact ⟨budget, .stop hnone⟩
    · next count rest htake =>
      obtain ⟨left, h⟩ := ih hlater rest
      exact ⟨left, h.cons htake hc⟩

end Phase

/-! ## The two phases -/

namespace Bucket

theorem toNat_deficit (b : Bucket) : b.deficit.toNat =
    if b.target = 0 then 0
    else min (b.target.toNat + b.buffer.toNat) Amount.top - b.current.toNat := by
  unfold deficit
  split
  · rfl
  · rw [Amount.toNat_sub, Amount.toNat_add]

/-- A bucket misses nothing if it holds its target and buffer, or as many coins as can be
counted. -/
theorem deficit_eq_zero_iff {b : Bucket} (htarget : b.target ≠ 0) :
    b.deficit = 0 ↔ min Amount.top (b.target.toNat + b.buffer.toNat) ≤ b.current.toNat := by
  rw [← UInt64.toNat_inj, toNat_deficit, if_neg htarget, UInt64.toNat_zero]
  omega

theorem toNat_excess (b : Bucket) : b.excess.toNat = b.current.toNat - b.ceiling.toNat :=
  Amount.toNat_sub ..

/-- How many operations of a kind a bucket could use. -/
def wantedFor (b : Bucket) : Operation → Amount
  | .split => b.deficit
  | .combine => b.excess

end Bucket

namespace PlannerInput
variable {input : PlannerInput} {c : Candidate} {plan : Plan}

/-- The buckets that could use an operation of a kind, as they stand in the input. -/
def applicants (input : PlannerInput) (operation : Operation) : List Candidate :=
  (input.buckets.filter (·.wantedFor operation ≠ 0)).map fun b => ⟨b, b.wantedFor operation⟩

theorem map_bucket_applicants (input : PlannerInput) (operation : Operation) :
    (input.applicants operation).map (·.bucket) =
      input.buckets.filter (·.wantedFor operation ≠ 0) := by
  rw [applicants, List.map_map]
  exact List.map_id _

theorem deficits_eq (input : PlannerInput) :
    input.deficits = (input.applicants .split).mergeSort urgentFirst := by
  rw [deficits, List.filter_map]
  rfl

theorem excesses_eq (input : PlannerInput) :
    input.excesses = (input.applicants .combine).mergeSort smallFirst := by
  rw [excesses, List.filter_map]
  rfl

theorem mem_applicants {operation : Operation} : c ∈ input.applicants operation ↔
    c.bucket ∈ input.buckets ∧ c.wanted = c.bucket.wantedFor operation ∧ c.wanted ≠ 0 := by
  simp only [applicants, List.mem_map, List.mem_filter, decide_eq_true_eq]
  constructor
  · rintro ⟨b, ⟨hb, hne⟩, rfl⟩
    exact ⟨hb, rfl, hne⟩
  · rintro ⟨hb, hwanted, hne⟩
    exact ⟨c.bucket, ⟨hb, hwanted ▸ hne⟩, by rw [← hwanted]⟩

/-- The phase of a run that makes its plans. -/
def phase (input : PlannerInput) : Phase :=
  if input.deficits.isEmpty then .combine input else .split input

/-- The candidates of that phase, in the order in which they are served. -/
def candidates (input : PlannerInput) : List Candidate :=
  if input.deficits.isEmpty then input.excesses else input.deficits

/-- The fee of an operation of a kind. -/
def feeOf (input : PlannerInput) : Operation → Amount
  | .split => input.splitFee
  | .combine => input.combineFee

theorem plans_eq (input : PlannerInput) :
    input.plans = input.phase.plans (.ofInput input) input.candidates := by
  unfold plans phase candidates
  split <;> rfl

theorem isEmpty_deficits_iff (input : PlannerInput) :
    input.deficits.isEmpty ↔ ∀ b ∈ input.buckets, b.deficit = 0 := by
  rw [deficits_eq, List.isEmpty_iff, ← List.length_eq_zero_iff, List.length_mergeSort,
    List.length_eq_zero_iff, applicants, List.map_eq_nil_iff, List.filter_eq_nil_iff]
  constructor
  · intro h b hb
    by_contra hne
    exact h b hb (decide_eq_true hne)
  · intro h b hb hne
    exact of_decide_eq_true hne (h b hb)

/-- A run splits if a bucket misses coins, and otherwise combines. -/
theorem phase_cases (input : PlannerInput) :
    ((∃ b ∈ input.buckets, b.deficit ≠ 0) ∧
        input.phase = .split input ∧ input.candidates = input.deficits) ∨
      ((∀ b ∈ input.buckets, b.deficit = 0) ∧
        input.phase = .combine input ∧ input.candidates = input.excesses) := by
  have hempty := input.isEmpty_deficits_iff
  unfold phase candidates
  by_cases h : input.deficits.isEmpty
  · exact .inr ⟨hempty.1 h, if_pos h, if_pos h⟩
  · refine .inl ⟨?_, if_neg h, if_neg h⟩
    by_contra hnone
    exact h (hempty.2 fun b hb => by_contra fun hne => hnone ⟨b, hb, hne⟩)

theorem phase_eq_split (hmisses : ∃ b ∈ input.buckets, b.deficit ≠ 0) :
    input.phase = .split input := by
  obtain ⟨b, hb, hne⟩ := hmisses
  rcases input.phase_cases with ⟨-, hphase, -⟩ | ⟨hnone, -, -⟩
  · exact hphase
  · exact absurd (hnone b hb) hne

theorem phase_eq_combine (hnone : ∀ b ∈ input.buckets, b.deficit = 0) :
    input.phase = .combine input := by
  rcases input.phase_cases with ⟨⟨b, hb, hne⟩, -, -⟩ | ⟨-, hphase, -⟩
  · exact absurd (hnone b hb) hne
  · exact hphase

/-- The candidates are the buckets that could use the operation of the run, in some order. -/
theorem candidates_perm (input : PlannerInput) :
    input.candidates.Perm (input.applicants input.phase.operation) := by
  rcases input.phase_cases with ⟨-, hphase, hcandidates⟩ | ⟨-, hphase, hcandidates⟩
  · rw [hphase, hcandidates, deficits_eq]
    exact List.mergeSort_perm ..
  · rw [hphase, hcandidates, excesses_eq]
    exact List.mergeSort_perm ..

theorem mem_candidates : c ∈ input.candidates ↔ c.bucket ∈ input.buckets ∧
    c.wanted = c.bucket.wantedFor input.phase.operation ∧ c.wanted ≠ 0 := by
  rw [input.candidates_perm.mem_iff, mem_applicants]

theorem fee_phase (input : PlannerInput) : input.phase.fee = input.feeOf input.phase.operation := by
  unfold phase
  split <;> rfl

/-- **The account of a run.** -/
theorem exists_serves (input : PlannerInput) :
    ∃ left, input.phase.Serves input.candidates (.ofInput input) left input.plans := by
  rw [plans_eq]
  exact Phase.exists_serves (fun c hc => (mem_candidates.1 hc).2.2) _

/-- Every plan of a run is proposed for one of its candidates. -/
theorem exists_proposes (h : plan ∈ input.plans) :
    ∃ c ∈ input.candidates, input.phase.Proposes c plan := by
  obtain ⟨left, hserves⟩ := input.exists_serves
  obtain ⟨c, hc, hproposes⟩ := exists_of_forall₂ hserves.proposals h
  exact ⟨c, List.mem_of_mem_take hc, hproposes⟩

theorem operation_of_mem_plans (h : plan ∈ input.plans) :
    plan.operation = input.phase.operation := by
  obtain ⟨c, -, hproposes⟩ := exists_proposes h
  rw [hproposes.eq_plan]
  rfl

end PlannerInput

end CoinRelay
