import CoinRelay.Json.Printer
import CoinRelay.Rejection

/-!
# Outcomes

What a stage answers: it executed the operation and holds a spend bundle, or it skipped it for a
reason and reports the requests that were on their way. An outcome is written in two ways: on the
wire with its own keys first, and as a JSON value with all keys in order.
-/

namespace CoinRelay

inductive Outcome where
  | executed (reason : String) (operationId : Option String) (spendBundle : String)
  | skipped (reason : String) (operationId : Option String) (partials : Fields)

namespace Outcome

/-- Skipped without anything to report. -/
def skip (reason : String) : Outcome := .skipped reason none []

/-- Refused before anything was delegated. -/
def ofRejection (rejection : Rejection) : Outcome := skip rejection.reason

def isExecuted : Outcome → Bool
  | .executed .. => true
  | .skipped .. => false

def status : Outcome → String
  | .executed .. => "executed"
  | .skipped .. => "skipped"

def reason : Outcome → String
  | .executed reason _ _ => reason
  | .skipped reason _ _ => reason

def operationId : Outcome → Option String
  | .executed _ operationId _ => operationId
  | .skipped _ operationId _ => operationId

def spendBundle? : Outcome → Option String
  | .executed _ _ spendBundle => some spendBundle
  | .skipped .. => none

/-- What a skipped operation reports; an executed one reports nothing. -/
def partials : Outcome → Fields
  | .executed .. => []
  | .skipped _ _ partials => partials

def partial? (outcome : Outcome) (key : String) : Option Json := outcome.partials.get? key

/-- Reports a value under a key. What a deeper stage reported under that key stays. -/
def withPartial (outcome : Outcome) (key : String) (value : Json) : Outcome :=
  match outcome with
  | .skipped reason operationId partials =>
    .skipped reason operationId (partials.insertIfNew key value)
  | .executed .. => outcome

/-! ## Written forms -/

/-- The members in the order of the wire: the outcome's own, then what it reports. A reported key
may repeat one of the own ones. -/
def members (outcome : Outcome) : List (String × Json) :=
  [("status", .str outcome.status), ("reason", .str outcome.reason),
    ("operation_id", .ofText? outcome.operationId)] ++
  (outcome.spendBundle?.map fun hex => ("spend_bundle_hex", Json.str hex)).toList ++
  outcome.partials

def wire (outcome : Outcome) : String := (Json.obj outcome.members).text

/-- The outcome as a value; of repeated keys the reported one stays. -/
def toJson (outcome : Outcome) : Json := .ofMembers outcome.members

end Outcome

end CoinRelay
