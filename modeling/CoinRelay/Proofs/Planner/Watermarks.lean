import CoinRelay.Proofs.Json.Scaling
import CoinRelay.Proofs.Planner.Runs

/-! # Combining and splitting in turn

Splits fill a bucket up to its target and buffer, combines empty it down to its ceiling, and the two
are set independently. Where the ceiling is the lower one, a run may split what the run before has
combined. So the settings of a bucket decide whether it is spared that. -/

namespace CoinRelay

/-! ## What is served -/

namespace PlannerInput
variable {input : PlannerInput} {b : Bucket} {plan : Plan}

/-- The buckets that get a plan, with their plans. -/
def served (input : PlannerInput) : List (Bucket × Plan) :=
  (input.candidates.map (·.bucket)).zip input.plans

theorem exists_of_mem_served (h : (b, plan) ∈ input.served) :
    ∃ c ∈ input.candidates, c.bucket = b ∧ input.phase.Proposes c plan := by
  obtain ⟨left, hserves⟩ := input.exists_serves
  obtain ⟨i, hi⟩ := List.mem_iff_getElem?.1 h
  obtain ⟨hb, hplan⟩ := List.getElem?_zip_eq_some.1 hi
  rw [List.getElem?_map] at hb
  obtain ⟨c, hc, hbucket⟩ := Option.map_eq_some_iff.1 hb
  exact ⟨c, List.mem_of_getElem? hc, hbucket, hserves.proposes hc hplan⟩

theorem count_of_mem_served (h : (b, plan) ∈ input.served) :
    0 < plan.count.toNat ∧ plan.count.toNat ≤ (b.wantedFor plan.operation).toNat := by
  obtain ⟨c, hc, rfl, hproposes⟩ := exists_of_mem_served h
  rw [operation_of_mem_plans (List.of_mem_zip h).2, ← (mem_candidates.1 hc).2.1]
  exact ⟨hproposes.count_pos, hproposes.count_le_wanted⟩

/-- Combining leaves a bucket at its ceiling or above. -/
theorem ceiling_add_count_le (h : (b, plan) ∈ input.served) (hcombine : plan.operation = .combine) :
    b.ceiling.toNat + plan.count.toNat ≤ b.current.toNat := by
  obtain ⟨hpos, hle⟩ := count_of_mem_served h
  rw [hcombine, Bucket.wantedFor, Bucket.toNat_excess] at hle
  omega

/-- A bucket that misses nothing is not split for. -/
theorem operation_ne_split (h : (b, plan) ∈ input.served) (hnone : b.deficit = 0) :
    plan.operation ≠ .split := by
  intro hsplit
  obtain ⟨hpos, hle⟩ := count_of_mem_served h
  rw [hsplit, Bucket.wantedFor, hnone, UInt64.toNat_zero] at hle
  omega

/-- A run for one bucket, without a bound on the fees. -/
def single (b : Bucket) (maxOperations : Amount) : PlannerInput where
  buckets := [b]
  maxOperations
  feeBudget := 0
  splitFee := 0
  combineFee := 0

theorem single_of_deficit {k : Amount} (hmisses : b.deficit ≠ 0) :
    (single b k).phase = .split (single b k) ∧ (single b k).candidates = [⟨b, b.deficit⟩] := by
  have hbuckets : (single b k).buckets = [b] := rfl
  rcases (single b k).phase_cases with ⟨-, hphase, hcandidates⟩ | ⟨hnone, -, -⟩
  · refine ⟨hphase, ?_⟩
    rw [hcandidates, deficits_eq, applicants, hbuckets]
    simp [Bucket.wantedFor, hmisses]
  · exact absurd (hnone b (by simp [hbuckets])) hmisses

theorem single_of_excess {k : Amount} (hnone : b.deficit = 0) (hexcess : b.excess ≠ 0) :
    (single b k).phase = .combine (single b k) ∧ (single b k).candidates = [⟨b, b.excess⟩] := by
  have hbuckets : (single b k).buckets = [b] := rfl
  rcases (single b k).phase_cases with ⟨⟨found, hfound, hmisses⟩, -, -⟩ | ⟨-, hphase, hcandidates⟩
  · obtain rfl : found = b := by simpa [hbuckets] using hfound
    exact absurd hnone hmisses
  · refine ⟨hphase, ?_⟩
    rw [hcandidates, excesses_eq, applicants, hbuckets]
    simp [Bucket.wantedFor, hexcess]

/-- A bucket with too many coins is combined for if it is the only one. -/
theorem exists_combine_of_single (hnone : b.deficit = 0) (hexcess : b.excess ≠ 0) :
    ∃ plan, (b, plan) ∈ (single b 1).served ∧ plan.operation = .combine := by
  obtain ⟨hphase, hone⟩ := single_of_excess (k := 1) hnone hexcess
  obtain ⟨left, hserves⟩ := (single b 1).exists_serves
  rw [hone, hphase] at hserves
  cases hplans : (single b 1).plans with
  | nil =>
    -- Without a plan the one operation would be left, and no fee stops the run.
    rw [hplans] at hserves
    have hoperations := hserves.operations
    rcases hserves.stops Nat.zero_lt_one with hused | hfee
    · rw [hused] at hoperations
      exact absurd hoperations Nat.zero_ne_one
    · exact absurd hfee (UInt64.not_lt.2 UInt64.zero_le)
  | cons plan later =>
    refine ⟨plan, ?_, ?_⟩
    · rw [served, hone, hplans]
      exact List.mem_cons_self
    · rw [operation_of_mem_plans (hplans ▸ List.mem_cons_self), hphase]
      rfl

end PlannerInput

/-! ## Settings that spare a bucket -/

namespace Bucket
variable {b : Bucket}

/-- The bucket with another number of coins. -/
def holding (b : Bucket) (n : Amount) : Bucket := { b with current := n }

theorem deficit_holding_eq_zero_iff (htarget : b.target ≠ 0) {n : Amount} :
    (b.holding n).deficit = 0 ↔ min Amount.top (b.target.toNat + b.buffer.toNat) ≤ n.toNat :=
  deficit_eq_zero_iff htarget

theorem toNat_excess_holding (b : Bucket) (n : Amount) :
    (b.holding n).excess.toNat = n.toNat - b.ceiling.toNat :=
  toNat_excess _

/-- However many coins a bucket with these settings holds, a run that combines some leaves its
target and buffer, so that a following run does not split for it. -/
def Spared (b : Bucket) : Prop :=
  ∀ (input : PlannerInput) (n : Amount) (plan : Plan), (b.holding n, plan) ∈ input.served →
    plan.operation = .combine →
      b.target.toNat + b.buffer.toNat ≤ n.toNat - plan.count.toNat ∧
        ∀ (next : PlannerInput) (later : Plan),
          (b.holding (n - plan.count), later) ∈ next.served → later.operation ≠ .split

theorem spared_of_le_ceiling (htarget : b.target ≠ 0)
    (hle : min Amount.top (b.target.toNat + b.buffer.toNat) ≤ b.ceiling.toNat) : b.Spared := by
  intro input n plan h hcombine
  obtain ⟨hpos, -⟩ := PlannerInput.count_of_mem_served h
  have hkept : b.ceiling.toNat + plan.count.toNat ≤ n.toNat :=
    PlannerInput.ceiling_add_count_le h hcombine
  have hn := Amount.toNat_le_top n
  have hleft : (n - plan.count).toNat = n.toNat - plan.count.toNat :=
    UInt64.toNat_sub_of_le _ _ (UInt64.le_iff_toNat_le.2 (by omega))
  refine ⟨by omega, fun next later hlater => PlannerInput.operation_ne_split hlater ?_⟩
  rw [deficit_holding_eq_zero_iff htarget, hleft]
  omega

/-- A bucket that holds just its target and buffer may be combined for if its ceiling is lower. -/
theorem le_ceiling_of_spared (htarget : b.target ≠ 0) (h : b.Spared) :
    min Amount.top (b.target.toNat + b.buffer.toNat) ≤ b.ceiling.toNat := by
  by_contra hlow
  obtain ⟨n, hn⟩ : ∃ n : Amount, n.toNat = min (b.target.toNat + b.buffer.toNat) Amount.top :=
    ⟨_, Amount.toNat_clamp _⟩
  have hnone : (b.holding n).deficit = 0 := by
    rw [deficit_holding_eq_zero_iff htarget]
    omega
  have hexcess : (b.holding n).excess ≠ 0 := by
    intro hzero
    have hcount := b.toNat_excess_holding n
    rw [hzero, UInt64.toNat_zero] at hcount
    omega
  obtain ⟨plan, hserved, hcombine⟩ := PlannerInput.exists_combine_of_single hnone hexcess
  have hpos := (PlannerInput.count_of_mem_served hserved).1
  have hkept := (h _ _ _ hserved hcombine).1
  omega

/-- **Who is spared.** Combining leaves a bucket at its ceiling or above, and a bucket that should
hold coins is spared exactly if its ceiling reaches its target and buffer. -/
theorem spared_iff (htarget : b.target ≠ 0) :
    (∀ (input : PlannerInput) (n : Amount) (plan : Plan), (b.holding n, plan) ∈ input.served →
      plan.operation = .combine → b.ceiling.toNat + plan.count.toNat ≤ n.toNat) ∧
    (b.Spared ↔ min Amount.top (b.target.toNat + b.buffer.toNat) ≤ b.ceiling.toNat) :=
  ⟨fun _ _ _ h hcombine => PlannerInput.ceiling_add_count_le h hcombine,
    le_ceiling_of_spared htarget, spared_of_le_ceiling htarget⟩

/-- Twice the target is more than enough for a buffer of one. -/
theorem spared_of_twice_target :
    let b : Bucket := ⟨1, 5, 1, ⟨0x4000000000000000⟩, 12⟩
    b.target ≠ 0 ∧ b.ceiling = 10 ∧ b.Spared := by
  refine ⟨by decide, by decide, (spared_iff (by decide)).2.2 ?_⟩
  decide

/-- **To and fro.** With a target and a buffer of ten each, and one and a half times the target as
the ceiling, a run combines five of twenty coins, and the run after it splits five again. -/
theorem combine_leaves_shortage :
    let b : Bucket := ⟨1, 10, 10, ⟨0x3FF8000000000000⟩, 20⟩
    (PlannerInput.single b 100).plans = [⟨.combine, 1, 5, 5, "excess_only_policy"⟩] ∧
      ¬b.target.toNat + b.buffer.toNat ≤ b.current.toNat - 5 ∧
      (PlannerInput.single (b.holding 15) 100).plans =
        [⟨.split, 1, 5, 5, "low_watermark_buffer_deficit"⟩] := by
  intro b
  obtain ⟨hcombine, hexcess⟩ := PlannerInput.single_of_excess (b := b) (k := 100)
    (by decide) (by decide)
  obtain ⟨hsplit, hdeficit⟩ := PlannerInput.single_of_deficit (b := b.holding 15) (k := 100)
    (by decide)
  rw [PlannerInput.plans_eq, hcombine, hexcess, PlannerInput.plans_eq, hsplit, hdeficit]
  decide

/-- A factor that covers target and buffer spares a bucket, as long as both are exact in doubles. -/
theorem spared_of_factor (htarget : b.target ≠ 0)
    (hexact : b.target.toNat + b.buffer.toNat ≤ 2 ^ 53)
    (hfactor : (b.excessFactor.negative || b.excessFactor.isNaN) = false)
    (hcovers : (b.target.toNat + b.buffer.toNat : ℚ) ≤
      b.target.toNat * b.excessFactor.magnitude) : b.Spared := by
  obtain ⟨place, hplace⟩ := Json.Double.exists_place hexact 0
  have hrounded := Json.Double.rounded_mul_two_pow (k := b.target.toNat) (by omega) 0
  rw [pow_zero, mul_one] at hplace
  rw [pow_zero, pow_zero, mul_one, mul_one] at hrounded
  have hspec := Json.Double.product_spec (.ofNat b.target.toNat) b.excessFactor
  rw [Json.Double.magnitude_ofNat_of_lt b.target.toNat_lt, hrounded] at hspec
  have hle := hspec.ge_of_ge (p := place) (by rw [hplace]; exact_mod_cast hcovers)
  have hfloor := Json.Double.le_floorAt_iff.2
    (hplace.symm.le.trans (Json.Double.strictMono_valueAt.monotone hle))
  refine spared_of_le_ceiling htarget ?_
  rw [ceiling, if_neg (by simp [hfactor]), Amount.toNat_clamp]
  omega

end Bucket

end CoinRelay
