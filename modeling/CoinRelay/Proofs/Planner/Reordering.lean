import CoinRelay.Proofs.Planner.Fees
import CoinRelay.Proofs.Planner.Greedy

/-! # The order of the buckets

A run serves its buckets by need and by size, and where no two of them hold coins of one size this
leaves no choice. Then the plans do not depend on the order in which the input lists the buckets. -/

namespace CoinRelay

/-- Items without a common key can be sorted in one way only. -/
theorem StablySorted.eq_of_perm {α κ : Type} [LinearOrder κ] {key : α → κ}
    {items others sorted resorted : List α} (h : StablySorted key items sorted)
    (h' : StablySorted key others resorted) (hperm : items.Perm others)
    (hdistinct : ∀ a ∈ items, ∀ b ∈ items, key a = key b → a = b) : sorted = resorted := by
  have hsame : sorted.Perm resorted := h.perm.trans (hperm.trans h'.perm.symm)
  refine hsame.eq_of_pairwise ?_ h.ascending h'.ascending
  intro a b ha hb hab hba
  have hb' : b ∈ items := hperm.mem_iff.2 (h'.perm.mem_iff.1 hb)
  exact hdistinct a (h.perm.mem_iff.1 ha) b hb' (le_antisymm hab hba)

namespace PlannerInput
variable {input : PlannerInput} {buckets : List Bucket}

/-- The same run with other buckets. -/
def withBuckets (input : PlannerInput) (buckets : List Bucket) : PlannerInput :=
  { input with buckets := buckets }

theorem applicants_withBuckets_perm (hperm : buckets.Perm input.buckets) (operation : Operation) :
    ((input.withBuckets buckets).applicants operation).Perm (input.applicants operation) :=
  (hperm.filter _).map _

/-- Where sizes are distinct, an applicant is known by the size of its coins. -/
theorem eq_of_mem_applicants (hsizes : (input.buckets.map (·.size)).Nodup) {operation : Operation}
    {a b : Candidate} (ha : a ∈ input.applicants operation) (hb : b ∈ input.applicants operation)
    (hsize : a.bucket.size = b.bucket.size) : a = b := by
  obtain ⟨habucket, hawanted, -⟩ := mem_applicants.1 ha
  obtain ⟨hbbucket, hbwanted, -⟩ := mem_applicants.1 hb
  have hbucket : a.bucket = b.bucket := List.inj_on_of_nodup_map hsizes habucket hbbucket hsize
  rw [hbucket, ← hbwanted] at hawanted
  cases a
  cases b
  exact congrArg₂ Candidate.mk hbucket hawanted

/-- The queue for splits does not depend on how the buckets are listed. -/
theorem deficits_withBuckets (hperm : buckets.Perm input.buckets)
    (hsizes : (buckets.map (·.size)).Nodup) :
    (input.withBuckets buckets).deficits = input.deficits := by
  rw [deficits_eq, deficits_eq]
  refine (stablySorted_mergeSort urgentFirst_iff _).eq_of_perm
    (stablySorted_mergeSort urgentFirst_iff _) (applicants_withBuckets_perm hperm _) ?_
  intro a ha b hb hkey
  -- A common key of need and size has a common size in it.
  have hsize : a.bucket.size.toNat = b.bucket.size.toNat := congrArg (fun k => (ofLex k).2) hkey
  exact eq_of_mem_applicants hsizes ha hb (UInt64.toNat_inj.1 hsize)

/-- The queue for combines does not, either. -/
theorem excesses_withBuckets (hperm : buckets.Perm input.buckets)
    (hsizes : (buckets.map (·.size)).Nodup) :
    (input.withBuckets buckets).excesses = input.excesses := by
  rw [excesses_eq, excesses_eq]
  refine (stablySorted_mergeSort smallFirst_iff _).eq_of_perm
    (stablySorted_mergeSort smallFirst_iff _) (applicants_withBuckets_perm hperm _) ?_
  intro a ha b hb hkey
  exact eq_of_mem_applicants hsizes ha hb (UInt64.toNat_inj.1 hkey)

/-- **The order of the buckets does not matter.** Two runs that list buckets of distinct sizes in
different orders, and differ in nothing else, make the same plans in the same order. -/
theorem plans_withBuckets (hperm : buckets.Perm input.buckets)
    (hsizes : (buckets.map (·.size)).Nodup) :
    (input.withBuckets buckets).plans = input.plans := by
  unfold plans
  rw [deficits_withBuckets hperm hsizes, excesses_withBuckets hperm hsizes]
  rfl

/-- Two buckets in equal need, listed by falling size. -/
theorem plans_withBuckets_of_reverse :
    emptyPair.buckets.reverse.Perm emptyPair.buckets ∧
      (emptyPair.buckets.reverse.map (·.size)).Nodup ∧
      emptyPair.buckets.reverse ≠ emptyPair.buckets ∧
      (emptyPair.withBuckets emptyPair.buckets.reverse).plans =
        [⟨.split, 1, 5, 5, "low_watermark_buffer_deficit"⟩,
          ⟨.split, 2, 5, 10, "low_watermark_buffer_deficit"⟩] := by
  have hsizes : (emptyPair.buckets.reverse.map (·.size)).Nodup := by decide
  refine ⟨List.reverse_perm _, hsizes, by decide, ?_⟩
  rw [plans_withBuckets (List.reverse_perm _) hsizes]
  exact freePlans_emptyPair

end PlannerInput

end CoinRelay
