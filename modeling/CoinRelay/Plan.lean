import CoinRelay.Amount
import CoinRelay.Rejection
import CoinRelay.Request

/-!
# Operation plans

A plan asks for a number of outputs of one size, by splitting large coins or combining small ones.
`Plan.parse` reads it from a request; the target of the selection is derived, derived when it is
absent, or required, as the stage demands.
-/

namespace CoinRelay

inductive Operation where
  | split
  | combine
deriving DecidableEq, Repr

def Operation.name : Operation → String
  | .split => "split"
  | .combine => "combine"

def Operation.ofName? : String → Option Operation
  | "split" => some .split
  | "combine" => some .combine
  | _ => none

/-- A plan: `count` outputs of `size` base units each, for which coins worth `target` are needed. -/
structure Plan where
  operation : Operation
  size : Amount
  count : Amount
  target : Amount
  reason : String
deriving DecidableEq, Repr

namespace Plan

/-- The most outputs that one plan may ask for. -/
def maxCount : Nat := 1000

def toJson (plan : Plan) : Json := .obj [
  ("op_count", .ofUInt64 plan.count),
  ("op_type", .str plan.operation.name),
  ("reason", .str plan.reason),
  ("size_base_units", .ofUInt64 plan.size),
  ("target_total_base_units", .ofUInt64 plan.target)]

/-- How the target of a plan is found. -/
inductive TargetPolicy where
  /-- Always size times count, whatever the request says. -/
  | derive
  /-- Size times count where the request names no target. -/
  | deriveWhenAbsent
  /-- The request names the target. -/
  | required
deriving DecidableEq, Repr

/-- An integer field of a plan; zero when it is absent. -/
def integerAt (plan : Fields) (key : String) : Except Rejection Int :=
  match plan.present? key with
  | none => .ok 0
  | some v =>
    match v.toInteger? with
    | some n => .ok n
    | none => .error .invalidPlanValues

/-- The target under a policy, where `derived` is size times count. -/
def targetOf (plan : Fields) (derived : Int) : TargetPolicy → Except Rejection Int
  | .derive => .ok derived
  | .deriveWhenAbsent =>
    match plan.present? "target_total_base_units" with
    | none => .ok derived
    | some _ => integerAt plan "target_total_base_units"
  | .required => integerAt plan "target_total_base_units"

/-- Reads the fields of a plan. Size, count and target are positive, there are at most `maxCount`
outputs, and their total fits a signed word. -/
def ofFields (plan : Fields) (policy : TargetPolicy) : Except Rejection Plan := do
  let some operation := Operation.ofName? (plan.text "op_type") | throw .unsupportedOperation
  let size ← integerAt plan "size_base_units"
  let count ← integerAt plan "op_count"
  if size ≤ 0 ∨ count ≤ 0 ∨ maxCount < count ∨ Word.signedBound ≤ size * count then
    throw .invalidPlanValues
  let target ← targetOf plan (size * count) policy
  if target ≤ 0 then
    throw .invalidPlanValues
  return {
    operation
    size := UInt64.ofNat size.toNat
    count := UInt64.ofNat count.toNat
    target := UInt64.ofNat target.toNat
    reason := plan.text "reason" }

def parse (request : Fields) (policy : TargetPolicy) : Except Rejection Plan :=
  match request.objectAt? "plan" with
  | none => .error .missingPlan
  | some plan => ofFields plan policy

end Plan

end CoinRelay
