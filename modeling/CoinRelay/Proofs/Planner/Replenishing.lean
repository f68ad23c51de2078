import CoinRelay.Proofs.Planner.Reordering
import CoinRelay.Proofs.Planner.Watermarks

/-! # Splitting until nothing is missing

The splits of a run bring coins to the buckets they are made for, one split to a bucket if no two
buckets hold coins of one size. None brings more than its bucket misses, so the shortage falls by
just what is brought. A run that may split at all brings something while anything is missing, so
that runs that follow one another come to an end. -/

namespace CoinRelay

/-! ## One bucket -/

namespace Bucket

/-- The bucket after the coins of a plan came in, if they are of its size. There is none if they are
more than can be counted. -/
def receive? (b : Bucket) (plan : Plan) : Option Bucket :=
  if plan.size = b.size then (b.current.add? plan.count).map b.holding else some b

/-- A bucket to which coins are brought: up to its target and buffer, if any are. -/
structure Grows (b grown : Bucket) : Prop where
  eq_holding : grown = b.holding grown.current
  le_current : b.current.toNat ≤ grown.current.toNat
  stays_or_le : grown.current = b.current ∨
    grown.current.toNat ≤ min Amount.top (b.target.toNat + b.buffer.toNat)

variable {b grown later : Bucket} {plan : Plan}

theorem Grows.refl (b : Bucket) : b.Grows b := ⟨rfl, Nat.le_refl _, .inl rfl⟩

theorem Grows.trans (h : b.Grows grown) (h' : grown.Grows later) : b.Grows later := by
  obtain ⟨heq, hle, hbound⟩ := h
  obtain ⟨heq', hle', hbound'⟩ := h'
  rw [heq] at heq' hbound'
  refine ⟨heq', hle.trans hle', ?_⟩
  rcases hbound' with hsame | hbound'
  · rw [hsame]
    exact hbound
  · exact .inr hbound'

theorem Grows.size_eq (h : b.Grows grown) : grown.size = b.size := by
  rw [h.eq_holding]
  rfl

/-- A bucket can take what it misses, and then misses that much less. -/
theorem exists_receive? (hsize : plan.size = b.size) (hle : plan.count.toNat ≤ b.deficit.toNat) :
    ∃ grown, b.receive? plan = some grown ∧ b.Grows grown ∧
      grown.deficit.toNat + plan.count.toNat = b.deficit.toNat := by
  have htop := Amount.toNat_le_top b.current
  have hdeficit := b.toNat_deficit
  have hfits : b.current.toNat + plan.count.toNat ≤ Amount.top := by
    split at hdeficit <;> omega
  obtain ⟨n, hadd, hn⟩ := Amount.exists_add? hfits
  have hgrown : (b.holding n).deficit.toNat = if b.target = 0 then 0
      else min (b.target.toNat + b.buffer.toNat) Amount.top - n.toNat := toNat_deficit _
  refine ⟨b.holding n, ?_, ⟨rfl, ?_, ?_⟩, ?_⟩
  · rw [receive?, if_pos hsize, hadd]
    rfl
  · simp only [holding]
    omega
  · simp only [holding]
    by_cases hnone : plan.count.toNat = 0
    · exact .inl (UInt64.toNat_inj.1 (by omega))
    · refine .inr ?_
      split at hdeficit <;> omega
  · by_cases htarget : b.target = 0
    · rw [if_pos htarget] at hdeficit hgrown
      omega
    · rw [if_neg htarget] at hdeficit hgrown
      omega

end Bucket

/-! ## All buckets -/

/-- What is missing in all. -/
def shortage (buckets : List Bucket) : Nat := (buckets.map (·.deficit.toNat)).sum

/-- The buckets after the coins of a plan came in. -/
def Plan.deliver? (plan : Plan) (buckets : List Bucket) : Option (List Bucket) :=
  buckets.mapM (·.receive? plan)

/-- The buckets after the coins of some plans came in, one plan after the other. -/
def deliverAll? (plans : List Plan) (buckets : List Bucket) : Option (List Bucket) :=
  plans.foldlM (fun held plan => plan.deliver? held) buckets

/-- Plans for distinct buckets, none for more than its bucket misses. -/
structure Wanted (buckets : List Bucket) (plans : List Plan) : Prop where
  sizes : (plans.map (·.size)).Nodup
  fits : ∀ plan ∈ plans, ∃ b ∈ buckets, b.size = plan.size ∧
    plan.count.toNat ≤ b.deficit.toNat

section
variable {buckets grown later before after : List Bucket} {b taken : Bucket} {plan : Plan}
  {plans : List Plan}

theorem shortage_append (buckets later : List Bucket) :
    shortage (buckets ++ later) = shortage buckets + shortage later := by
  simp [shortage]

theorem shortage_cons (b : Bucket) (later : List Bucket) :
    shortage (b :: later) = b.deficit.toNat + shortage later := rfl

theorem shortage_eq_zero_iff : shortage buckets = 0 ↔ ∀ b ∈ buckets, b.deficit = 0 := by
  simp [shortage, List.sum_eq_zero_iff, ← UInt64.toNat_inj]

theorem mapM_eq_some_of_forall₂ {α β : Type} {f : α → Option β} {xs : List α} {ys : List β}
    (h : List.Forall₂ (fun x y => f x = some y) xs ys) : xs.mapM f = some ys := by
  induction h with
  | nil => rfl
  | cons hxy _ ih => simp [hxy, ih]

theorem map_eq_of_forall₂ {α β κ : Type} {R : α → β → Prop} {f : α → κ} {g : β → κ} {xs : List α}
    {ys : List β} (h : List.Forall₂ R xs ys) (heq : ∀ x y, R x y → f x = g y) :
    xs.map f = ys.map g := by
  induction h with
  | nil => rfl
  | cons hxy _ ih => rw [List.map_cons, List.map_cons, heq _ _ hxy, ih]

theorem forall₂_grows_trans (h : List.Forall₂ Bucket.Grows buckets grown)
    (h' : List.Forall₂ Bucket.Grows grown later) : List.Forall₂ Bucket.Grows buckets later := by
  induction h generalizing later with
  | nil => exact h'
  | cons hb _ ih =>
    cases h' with
    | cons hb' hlater => exact .cons (hb.trans hb') (ih hlater)

theorem forall₂_grows_of_one (h : b.Grows taken) :
    List.Forall₂ Bucket.Grows (before ++ b :: after) (before ++ taken :: after) :=
  List.rel_append (List.forall₂_same.2 fun other _ => .refl other)
    (.cons h (List.forall₂_same.2 fun other _ => .refl other))

/-- A plan is delivered to the one bucket of its size, and the others stay as they are. -/
theorem deliver?_eq_some (hsizes : ((before ++ b :: after).map (·.size)).Nodup)
    (hsize : b.size = plan.size) (h : b.receive? plan = some taken) :
    plan.deliver? (before ++ b :: after) = some (before ++ taken :: after) := by
  rw [List.map_append, List.map_cons, List.nodup_append, List.nodup_cons] at hsizes
  obtain ⟨-, ⟨hafter, -⟩, hbefore⟩ := hsizes
  refine mapM_eq_some_of_forall₂ (List.rel_append ?_ (.cons h ?_))
  · refine List.forall₂_same.2 fun other hother => if_neg fun hsame => ?_
    exact hbefore _ (List.mem_map_of_mem hother) _ List.mem_cons_self (hsame.symm.trans hsize.symm)
  · refine List.forall₂_same.2 fun other hother => if_neg fun hsame => ?_
    rw [hsize, hsame] at hafter
    exact hafter (List.mem_map_of_mem hother)

/-- Later plans are for other buckets, so that they are wanted as before. -/
theorem Wanted.tail (h : Wanted (before ++ b :: after) (plan :: plans))
    (hsize : b.size = plan.size) : Wanted (before ++ taken :: after) plans := by
  have hplan : plan.size ∉ plans.map (·.size) := (List.nodup_cons.1 h.sizes).1
  refine ⟨(List.nodup_cons.1 h.sizes).2, fun next hnext => ?_⟩
  obtain ⟨other, hother, hsame, hfits⟩ := h.fits next (List.mem_cons_of_mem _ hnext)
  have hne : other ≠ b := by
    rintro rfl
    rw [← hsize, hsame] at hplan
    exact hplan (List.mem_map_of_mem hnext)
  refine ⟨other, ?_, hsame, hfits⟩
  simp only [List.mem_append, List.mem_cons, hne, false_or] at hother ⊢
  exact hother.imp_right .inr

theorem Wanted.exists_deliver? (hsizes : (buckets.map (·.size)).Nodup)
    (h : Wanted buckets (plan :: plans)) :
    ∃ grown, plan.deliver? buckets = some grown ∧ List.Forall₂ Bucket.Grows buckets grown ∧
      Wanted grown plans ∧ shortage grown + plan.count.toNat = shortage buckets := by
  obtain ⟨b, hb, hsize, hle⟩ := h.fits plan List.mem_cons_self
  obtain ⟨before, after, rfl⟩ := List.append_of_mem hb
  obtain ⟨taken, hreceive, hgrows, hdeficit⟩ := Bucket.exists_receive? hsize.symm hle
  refine ⟨_, deliver?_eq_some hsizes hsize hreceive, forall₂_grows_of_one hgrows, h.tail hsize, ?_⟩
  rw [shortage_append, shortage_append, shortage_cons, shortage_cons]
  omega

/-- **All plans are delivered**, and the shortage falls by what they bring. -/
theorem Wanted.exists_deliverAll? (hsizes : (buckets.map (·.size)).Nodup)
    (h : Wanted buckets plans) :
    ∃ grown, deliverAll? plans buckets = some grown ∧ List.Forall₂ Bucket.Grows buckets grown ∧
      shortage grown + (plans.map (·.count.toNat)).sum = shortage buckets := by
  induction plans generalizing buckets with
  | nil => exact ⟨buckets, rfl, List.forall₂_same.2 fun b _ => .refl b, rfl⟩
  | cons plan plans ih =>
    obtain ⟨held, hheld, hgrows, hwanted, hshortage⟩ := h.exists_deliver? hsizes
    rw [map_eq_of_forall₂ hgrows fun _ _ h => h.size_eq.symm] at hsizes
    obtain ⟨grown, hgrown, hgrows', hshortage'⟩ := ih hsizes hwanted
    refine ⟨grown, ?_, forall₂_grows_trans hgrows hgrows', ?_⟩
    · rw [deliverAll?, List.foldlM_cons, hheld]
      exact hgrown
    · rw [List.map_cons, List.sum_cons]
      omega

end

/-! ## Runs that follow one another -/

namespace PlannerInput
variable {input next : PlannerInput}

/-- The split plans of a run. -/
def splits (input : PlannerInput) : List Plan := input.plans.filter (·.operation = .split)

/-- The input of the next run, once the splits of this one are carried out. -/
def round? (input : PlannerInput) : Option PlannerInput :=
  (deliverAll? input.splits input.buckets).map input.withBuckets

/-- The input of the run that follows a number of runs. -/
def rounds? (input : PlannerInput) : Nat → Option PlannerInput
  | 0 => some input
  | n + 1 => input.round?.bind fun next => next.rounds? n

/-- The buckets are told apart by their sizes, and the bounds allow a split. -/
structure Splittable (input : PlannerInput) : Prop where
  sizes : (input.buckets.map (·.size)).Nodup
  operations : input.maxOperations ≠ 0
  fee : input.feeBudget = 0 ∨ input.splitFee ≤ input.feeBudget

theorem mem_splits {plan : Plan} :
    plan ∈ input.splits ↔ plan ∈ input.plans ∧ plan.operation = .split := by
  rw [splits, List.mem_filter, decide_eq_true_eq]

/-- The splits of a run are for distinct buckets, none for more than its bucket misses. -/
theorem wanted_splits (hsizes : (input.buckets.map (·.size)).Nodup) :
    Wanted input.buckets input.splits := by
  obtain ⟨buckets, hsub, hmatched⟩ := input.matched_plans
  have hplans : buckets.map (·.size) = input.plans.map (·.size) :=
    map_eq_of_forall₂ hmatched fun _ _ h => h.1.symm
  obtain ⟨chosen, hperm, hchosen⟩ := hsub
  refine ⟨(List.filter_sublist.map _).nodup ?_, ?_⟩
  · rw [← hplans, ← (hperm.map _).nodup_iff]
    exact (hchosen.map _).nodup hsizes
  · intro plan hplan
    obtain ⟨hplan, hsplit⟩ := mem_splits.1 hplan
    obtain ⟨b, hb, hsize, hle⟩ := exists_of_forall₂ hmatched hplan
    rw [hsplit] at hle
    exact ⟨b, hchosen.subset (hperm.mem_iff.2 hb), hsize.symm, hle⟩

theorem operation_ne_split_of_none (hnone : ∀ b ∈ input.buckets, b.deficit = 0) {plan : Plan}
    (hplan : plan ∈ input.plans) : plan.operation ≠ .split := by
  intro hsplit
  rw [operation_of_mem_plans hplan, phase_eq_combine hnone] at hsplit
  cases hsplit

/-- The fee of one split is within the bound on the fees. -/
theorem splitFee_le_startFees (hfee : input.feeBudget = 0 ∨ input.splitFee ≤ input.feeBudget) :
    input.splitFee.toNat ≤ input.startFees := by
  unfold startFees
  split
  · exact Amount.toNat_le_top _
  · next hbound => exact UInt64.le_iff_toNat_le.1 (hfee.resolve_left hbound)

/-- A run whose bounds allow a split makes one if a bucket misses coins. -/
theorem Splittable.exists_split (h : input.Splittable)
    (hmisses : ∃ b ∈ input.buckets, b.deficit ≠ 0) : ∃ plan, plan ∈ input.splits := by
  have hphase := phase_eq_split hmisses
  obtain ⟨b, hb, hne⟩ := hmisses
  obtain ⟨left, hserves⟩ := input.exists_serves
  cases hplans : input.plans with
  | cons plan later =>
    have hplan : plan ∈ input.plans := hplans ▸ List.mem_cons_self
    refine ⟨plan, mem_splits.2 ⟨hplan, ?_⟩⟩
    rw [operation_of_mem_plans hplan, hphase]
    rfl
  | nil =>
    -- Nothing would be spent, and what there is at the start is enough for a first plan.
    have hcandidate : (⟨b, b.deficit⟩ : Candidate) ∈ input.candidates := by
      rw [mem_candidates, hphase]
      exact ⟨hb, rfl, hne⟩
    rw [hplans, hphase] at hserves
    have hspent := hserves.operations
    have hpaid := hserves.fees
    rw [Budget.toNat_fees_ofInput] at hpaid
    rcases hserves.stops (List.length_pos_of_mem hcandidate) with hused | hfee
    · rw [hused, List.map_nil, List.sum_nil] at hspent
      exact absurd (UInt64.toNat_inj.1 hspent.symm) h.operations
    · have hle := splitFee_le_startFees h.fee
      rw [UInt64.lt_iff_toNat_lt] at hfee
      simp only [Phase.split, List.length_nil] at hfee hpaid
      omega

/-! ## Convergence -/

/-- What one run does to the next. -/
structure Progresses (input next : PlannerInput) : Prop where
  only_buckets : next = input.withBuckets next.buckets
  grows : List.Forall₂ Bucket.Grows input.buckets next.buckets
  shortage_eq : shortage next.buckets + (input.splits.map (·.count.toNat)).sum =
    shortage input.buckets
  brings : (∃ b ∈ input.buckets, b.deficit ≠ 0) → 0 < (input.splits.map (·.count.toNat)).sum

/-- The next run has the same bounds, and its buckets have the same sizes. -/
theorem Splittable.following (h : input.Splittable) (hnext : input.Progresses next) :
    next.Splittable := by
  obtain ⟨hsizes, hoperations, hfee⟩ := h
  rw [map_eq_of_forall₂ hnext.grows fun _ _ h => h.size_eq.symm] at hsizes
  rw [hnext.only_buckets]
  exact ⟨hsizes, hoperations, hfee⟩

/-- A run can be carried out, and brings something while anything is missing. -/
theorem Splittable.exists_round? (h : input.Splittable) :
    ∃ next, input.round? = some next ∧ input.Progresses next := by
  obtain ⟨grown, hgrown, hgrows, hshortage⟩ :=
    (wanted_splits h.sizes).exists_deliverAll? h.sizes
  refine ⟨input.withBuckets grown, ?_, rfl, hgrows, hshortage, fun hmisses => ?_⟩
  · rw [round?, hgrown]
    rfl
  · obtain ⟨plan, hplan⟩ := h.exists_split hmisses
    obtain ⟨c, -, hproposes⟩ := exists_proposes (mem_splits.1 hplan).1
    exact hproposes.count_pos.trans_le
      (List.single_le_sum (fun _ _ => Nat.zero_le _) _ (List.mem_map_of_mem hplan))

/-- As many runs as coins are missing are enough. -/
theorem Splittable.exists_rounds? (h : input.Splittable) {n : Nat}
    (hn : shortage input.buckets ≤ n) :
    ∃ settled, input.rounds? n = some settled ∧
      ∀ plan ∈ settled.plans, plan.operation ≠ .split := by
  induction n generalizing input with
  | zero =>
    have hnone : ∀ b ∈ input.buckets, b.deficit = 0 := shortage_eq_zero_iff.1 (by omega)
    exact ⟨input, rfl, fun _ => operation_ne_split_of_none hnone⟩
  | succ n ih =>
    obtain ⟨next, hround, hnext⟩ := h.exists_round?
    have hle : shortage next.buckets ≤ n := by
      -- A run lowers the shortage by one at least, unless there is none already.
      have hshortage := hnext.shortage_eq
      by_cases hmisses : ∃ b ∈ input.buckets, b.deficit ≠ 0
      · have hbrings := hnext.brings hmisses
        omega
      · have hnone : shortage input.buckets = 0 := by
          rw [shortage_eq_zero_iff]
          intro b hb
          by_contra hne
          exact hmisses ⟨b, hb, hne⟩
        omega
    obtain ⟨settled, hrounds, hsettled⟩ := ih (h.following hnext) hle
    refine ⟨settled, ?_, hsettled⟩
    rw [rounds?, hround]
    exact hrounds

/-- **Splitting converges.** Carrying out the splits of a run overfills no bucket and lowers the
shortage by what they bring, which is something while anything is missing. After as many runs as
coins are missing at first, or more, no split is proposed any longer. -/
theorem splitting_converges (h : input.Splittable) :
    (∃ next, input.round? = some next ∧ input.Progresses next ∧ next.Splittable) ∧
      ∀ n, shortage input.buckets ≤ n → ∃ settled, input.rounds? n = some settled ∧
        ∀ plan ∈ settled.plans, plan.operation ≠ .split := by
  obtain ⟨next, hround, hnext⟩ := h.exists_round?
  exact ⟨⟨next, hround, hnext, h.following hnext⟩, fun _ => h.exists_rounds?⟩

/-- Two buckets that miss five coins each, and three operations in a run. -/
theorem splitting_converges_of_three :
    let input : PlannerInput := { emptyPair with maxOperations := 3 }
    input.Splittable ∧ shortage input.buckets = 10 ∧
      (∃ next, input.round? = some next ∧ input.Progresses next ∧ next.Splittable) ∧
      ∃ settled, input.rounds? 10 = some settled ∧
        ∀ plan ∈ settled.plans, plan.operation ≠ .split := by
  intro input
  have hsplittable : input.Splittable := ⟨by decide, by decide, .inl rfl⟩
  have hshortage : shortage input.buckets = 10 := by decide
  have hconverges := splitting_converges hsplittable
  exact ⟨hsplittable, hshortage, hconverges.1, hconverges.2 10 (by rw [hshortage])⟩

end PlannerInput

end CoinRelay
