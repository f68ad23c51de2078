import CoinRelay.Plan

/-!
# Planning operations

Coins are kept in buckets, one per coin size. The planner looks at how many coins each bucket holds
and proposes plans: splits for the buckets that have too few, or, only if no bucket has, combines
for those that have too many. The operations and the fees of a run are bounded, and the neediest
bucket comes first.
-/

namespace CoinRelay

/-- The coins of one size: how many there are and how many there should be. -/
structure Bucket where
  size : Amount
  /-- How many coins there should be; zero means none are wanted. -/
  target : Amount
  /-- How many more are made when some are. -/
  buffer : Amount
  /-- Coins beyond this multiple of the target are too many. -/
  excessFactor : Json.Double
  current : Amount
deriving DecidableEq

namespace Bucket

/-- How many coins are missing to target and buffer together. A bucket with target zero misses
none. -/
def deficit (b : Bucket) : Amount :=
  if b.target = 0 then 0 else Amount.sub (Amount.add b.target b.buffer) b.current

/-- How badly coins are missing: the deficit as a multiple of the target, in doubles. It is counted
by its place among them, whose order is that of the values. -/
def urgency (b : Bucket) : Nat :=
  Json.Double.quotient (.ofNat b.deficit.toNat) (.ofNat b.target.toNat)

/-- The number of coins from which on there are too many: the multiple of the target, in doubles and
cut to a whole number in range. -/
def ceiling (b : Bucket) : Amount :=
  if b.excessFactor.negative || b.excessFactor.isNaN then 0
  else
    Amount.clamp (Json.Double.floorAt (Json.Double.product (.ofNat b.target.toNat) b.excessFactor))

def excess (b : Bucket) : Amount := Amount.sub b.current b.ceiling

end Bucket

structure PlannerInput where
  buckets : List Bucket
  maxOperations : Amount
  /-- Zero means that fees are not bounded. -/
  feeBudget : Amount
  splitFee : Amount
  combineFee : Amount
deriving DecidableEq

/-! ## What is left to spend -/

/-- The operations and fees that a run may still use. -/
structure Budget where
  operations : Amount
  fees : Amount
deriving DecidableEq

namespace Budget

def ofInput (input : PlannerInput) : Budget where
  operations := input.maxOperations
  fees := if input.feeBudget = 0 then Amount.clamp Amount.top else input.feeBudget

/-- Takes as many operations as wanted, available and allowed in one plan, for one fee. There is
nothing to take when the operations are used up or the fee does not fit. -/
def take? (budget : Budget) (wanted fee : Amount) : Option (Amount × Budget) :=
  if budget.operations = 0 ∨ budget.fees < fee then none
  else
    let count := min (min wanted budget.operations) (UInt64.ofNat Plan.maxCount)
    some (count, ⟨budget.operations - count, budget.fees - fee⟩)

end Budget

/-! ## The plans of a run -/

/-- A bucket that a plan could help, and the number of operations it wants. -/
structure Candidate where
  bucket : Bucket
  wanted : Amount
deriving DecidableEq

/-- One phase of a run: the operation, its reason and its fee. -/
structure Phase where
  operation : Operation
  reason : String
  fee : Amount

namespace Phase

def split (input : PlannerInput) : Phase :=
  ⟨.split, "low_watermark_buffer_deficit", input.splitFee⟩

def combine (input : PlannerInput) : Phase :=
  ⟨.combine, "excess_only_policy", input.combineFee⟩

def plan (phase : Phase) (bucket : Bucket) (count : Amount) : Plan where
  operation := phase.operation
  size := bucket.size
  count
  target := Amount.mul bucket.size count
  reason := phase.reason

/-- Plans for the candidates in order, up to the first for which nothing is left. -/
def plans (phase : Phase) : Budget → List Candidate → List Plan
  | _, [] => []
  | budget, c :: rest =>
    match budget.take? c.wanted phase.fee with
    | none => []
    | some (count, budget) => phase.plan c.bucket count :: phase.plans budget rest

end Phase

namespace PlannerInput

/-- More urgent first; of equally urgent buckets the one with smaller coins. -/
def urgentFirst (a b : Candidate) : Bool :=
  b.bucket.urgency < a.bucket.urgency ||
    (a.bucket.urgency == b.bucket.urgency && a.bucket.size ≤ b.bucket.size)

def smallFirst (a b : Candidate) : Bool := a.bucket.size ≤ b.bucket.size

/-- The buckets with a deficit, the most urgent first. -/
def deficits (input : PlannerInput) : List Candidate :=
  ((input.buckets.map fun b => ⟨b, b.deficit⟩).filter
    fun (c : Candidate) => c.wanted ≠ 0).mergeSort urgentFirst

/-- The buckets with an excess, the smallest coins first. -/
def excesses (input : PlannerInput) : List Candidate :=
  ((input.buckets.map fun b => ⟨b, b.excess⟩).filter
    fun (c : Candidate) => c.wanted ≠ 0).mergeSort smallFirst

/-- The plans of a run: splits where coins are missing, otherwise combines. -/
def plans (input : PlannerInput) : List Plan :=
  if input.deficits.isEmpty then
    (Phase.combine input).plans (.ofInput input) input.excesses
  else
    (Phase.split input).plans (.ofInput input) input.deficits

end PlannerInput

/-! ## Reading the input -/

/-- Exactly an unsigned word: a whole number, written as one. -/
def Json.toAmount? : Json → Option Amount
  | .num n => n.toUInt64?
  | _ => none

def Json.toDouble? : Json → Option Json.Double
  | .num n => some n.toDouble
  | _ => none

namespace Fields

def onlyKeys (fields : Fields) (keys : List String) : Bool := fields.all fun m => m.1 ∈ keys

def amountAt? (fields : Fields) (key : String) : Option Amount :=
  (fields.get? key).bind Json.toAmount?

def amountOrZero? (fields : Fields) (key : String) : Option Amount :=
  match fields.get? key with
  | none => some 0
  | some v => v.toAmount?

end Fields

/-- A bucket is an object with exactly its five fields, or an array of their values. -/
def Bucket.ofJson? : Json → Option Bucket
  | .arr [size, target, buffer, excessFactor, current] => do
    return {
      size := ← size.toAmount?
      target := ← target.toAmount?
      buffer := ← buffer.toAmount?
      excessFactor := ← excessFactor.toDouble?
      current := ← current.toAmount? }
  | .obj fields => do
    guard (Fields.onlyKeys fields ["size_base_units", "target_count", "split_buffer_count",
      "combine_when_excess_factor", "current_count"])
    return {
      size := ← Fields.amountAt? fields "size_base_units"
      target := ← Fields.amountAt? fields "target_count"
      buffer := ← Fields.amountAt? fields "split_buffer_count"
      excessFactor := ← (Fields.get? fields "combine_when_excess_factor").bind Json.toDouble?
      current := ← Fields.amountAt? fields "current_count" }
  | _ => none

namespace PlannerInput

def buckets? (v : Json) : Option (List Bucket) :=
  v.array?.bind fun items => items.mapM Bucket.ofJson?

/-- The input is an object, or an array of its values in order. The buckets and the bound on
operations are required, the bounds on fees default to zero. -/
def ofJson? : Json → Option PlannerInput
  | .arr (buckets :: maxOperations :: fees) => do
    guard (fees.length ≤ 3)
    let fees ← fees.mapM Json.toAmount?
    return {
      buckets := ← buckets? buckets
      maxOperations := ← maxOperations.toAmount?
      feeBudget := fees.getD 0 0
      splitFee := fees.getD 1 0
      combineFee := fees.getD 2 0 }
  | .obj fields => do
    guard (Fields.onlyKeys fields ["buckets", "max_operations_per_run", "max_fee_budget_base_units",
      "split_fee_base_units", "combine_fee_base_units"])
    return {
      buckets := ← (Fields.get? fields "buckets").bind buckets?
      maxOperations := ← Fields.amountAt? fields "max_operations_per_run"
      feeBudget := ← Fields.amountOrZero? fields "max_fee_budget_base_units"
      splitFee := ← Fields.amountOrZero? fields "split_fee_base_units"
      combineFee := ← Fields.amountOrZero? fields "combine_fee_base_units" }
  | _ => none

end PlannerInput

end CoinRelay
