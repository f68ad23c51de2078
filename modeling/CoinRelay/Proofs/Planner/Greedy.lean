import CoinRelay.Proofs.Json.Scaling
import CoinRelay.Proofs.Planner.Limits

/-! # A run serves in order

The buckets that miss coins queue by need, and if none does, those with too many by size. A run
serves the queue from its head and passes over no one: each plan is as large as one may be, until
the operations or the fees are used up. -/

namespace CoinRelay

/-! ## Stable sorting -/

/-- The items in ascending order of a key, and those with one key as they stood. -/
structure StablySorted {α κ : Type} [LinearOrder κ] (key : α → κ) (items sorted : List α) :
    Prop where
  perm : sorted.Perm items
  ascending : sorted.Pairwise fun a b => key a ≤ key b
  ties : ∀ k, sorted.filter (key · = k) = items.filter (key · = k)

theorem stablySorted_mergeSort {α κ : Type} [LinearOrder κ] {key : α → κ}
    {before : α → α → Bool} (hbefore : ∀ a b, before a b ↔ key a ≤ key b) (items : List α) :
    StablySorted key items (items.mergeSort before) := by
  have htrans : ∀ a b c, before a b → before b c → before a c := by
    intro a b c hab hbc
    exact (hbefore a c).2 (((hbefore a b).1 hab).trans ((hbefore b c).1 hbc))
  have htotal : ∀ a b, before a b || before b a := by
    intro a b
    rw [Bool.or_eq_true, hbefore, hbefore]
    exact le_total ..
  have hperm := List.mergeSort_perm items before
  refine ⟨hperm, ?_, fun k => ?_⟩
  · exact (List.pairwise_mergeSort htrans htotal items).imp fun h => (hbefore _ _).1 h
  · -- The items with the key are in order as they stand, so sorting keeps them in that order.
    have htied : (items.filter (key · = k)).Pairwise fun a b => before a b := by
      rw [List.pairwise_filter]
      refine List.pairwise_of_forall fun a b ha hb => (hbefore a b).2 ?_
      rw [of_decide_eq_true ha, of_decide_eq_true hb]
    have hsub := (List.sublist_mergeSort htrans htotal htied List.filter_sublist).filter (key · = k)
    simp only [List.filter_filter, Bool.and_self] at hsub
    exact (hsub.eq_of_length (hperm.filter _).length_eq.symm).symm

/-! ## The queue -/

/-- The computed ratio of what a bucket misses to its target. -/
def Bucket.ratio (b : Bucket) : ℚ := Json.Double.valueAt b.urgency

namespace Candidate

/-- Orders by ratio, the largest first, and then by size. -/
def needKey (c : Candidate) : ℚᵒᵈ ×ₗ ℕ :=
  toLex (OrderDual.toDual c.bucket.ratio, c.bucket.size.toNat)

def sizeKey (c : Candidate) : ℕ := c.bucket.size.toNat

end Candidate

namespace PlannerInput
variable {input : PlannerInput}

theorem urgentFirst_iff (a b : Candidate) : urgentFirst a b ↔ a.needKey ≤ b.needKey := by
  have hlt : b.bucket.urgency < a.bucket.urgency ↔ b.bucket.ratio < a.bucket.ratio :=
    Json.Double.strictMono_valueAt.lt_iff_lt.symm
  have heq : a.bucket.urgency = b.bucket.urgency ↔ a.bucket.ratio = b.bucket.ratio :=
    Json.Double.strictMono_valueAt.injective.eq_iff.symm
  simp only [urgentFirst, Bool.or_eq_true, Bool.and_eq_true, decide_eq_true_eq, beq_iff_eq, hlt,
    heq, UInt64.le_iff_toNat_le, Candidate.needKey, Prod.Lex.toLex_le_toLex,
    OrderDual.toDual_lt_toDual, OrderDual.toDual_inj]

theorem smallFirst_iff (a b : Candidate) : smallFirst a b ↔ a.sizeKey ≤ b.sizeKey := by
  rw [smallFirst, decide_eq_true_eq, UInt64.le_iff_toNat_le]
  rfl

/-- Who is served in a run, in which order, and with what. -/
inductive Queued (input : PlannerInput) : Phase → List Candidate → Prop
  | splits {queue : List Candidate} (some_misses : ∃ b ∈ input.buckets, b.deficit ≠ 0)
      (sorted : StablySorted Candidate.needKey (input.applicants .split) queue) :
      Queued input (.split input) queue
  | combines {queue : List Candidate} (none_misses : ∀ b ∈ input.buckets, b.deficit = 0)
      (sorted : StablySorted Candidate.sizeKey (input.applicants .combine) queue) :
      Queued input (.combine input) queue

theorem queued (input : PlannerInput) : input.Queued input.phase input.candidates := by
  rcases input.phase_cases with ⟨hsome, hphase, hcandidates⟩ | ⟨hnone, hphase, hcandidates⟩
  · rw [hphase, hcandidates, deficits_eq]
    exact .splits hsome (stablySorted_mergeSort urgentFirst_iff _)
  · rw [hphase, hcandidates, excesses_eq]
    exact .combines hnone (stablySorted_mergeSort smallFirst_iff _)

/-! ## Serving the queue -/

/-- The plans serve a queue from its head, as far as operations and fees go. -/
structure Greedy (input : PlannerInput) (phase : Phase) (queue : List Candidate)
    (plans : List Plan) : Prop where
  proposals : List.Forall₂ phase.Proposes (queue.take plans.length) plans
  full : ∀ i c plan, queue[i]? = some c → plans[i]? = some plan →
    plan.count.toNat = min c.wanted.toNat 1000 ∨
      plan.count.toNat < min c.wanted.toNat 1000 ∧ i + 1 = plans.length ∧
        (plans.map (·.count.toNat)).sum = input.maxOperations.toNat
  fees_le : plans.length * phase.fee.toNat ≤ input.startFees
  stops : plans.length < queue.length →
    (plans.map (·.count.toNat)).sum = input.maxOperations.toNat ∨
      input.startFees - plans.length * phase.fee.toNat < phase.fee.toNat

/-- **A run is greedy.** It serves the queue in order and passes over no one. -/
theorem plans_greedy (input : PlannerInput) :
    ∃ phase queue, input.Queued phase queue ∧ input.Greedy phase queue input.plans := by
  refine ⟨input.phase, input.candidates, input.queued, ?_⟩
  obtain ⟨left, hserves⟩ := input.exists_serves
  have hoperations := hserves.operations
  have hfees := hserves.fees
  rw [Budget.toNat_fees_ofInput] at hfees
  have hspent (hnone : left.operations = 0) :
      (input.plans.map (·.count.toNat)).sum = input.maxOperations.toNat := by
    rw [hnone] at hoperations
    exact hoperations
  refine { proposals := hserves.proposals, full := ?_, fees_le := input.fees_plans_le, stops := ?_ }
  · intro i c plan hc hplan
    have hproposes := hserves.proposes hc hplan
    have hle : plan.count.toNat ≤ min c.wanted.toNat 1000 :=
      Nat.le_min.2 ⟨hproposes.count_le_wanted, hproposes.count_le⟩
    rcases hserves.full i c plan hc hplan with hfull | ⟨hlast, hnone⟩
    · exact .inl hfull
    · rcases hle.eq_or_lt with hfull | hlt
      · exact .inl hfull
      · exact .inr ⟨hlt, hlast, hspent hnone⟩
  · intro hlt
    rcases hserves.stops hlt with hnone | hfee
    · exact .inl (hspent hnone)
    · rw [UInt64.lt_iff_toNat_lt] at hfee
      exact .inr (by omega)

end PlannerInput

end CoinRelay
