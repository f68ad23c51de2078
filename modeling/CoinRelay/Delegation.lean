import CoinRelay.CommandLine
import CoinRelay.Duration
import CoinRelay.Outcome
import CoinRelay.Request

/-!
# Delegation

A request is delegated to a command, which answers with a JSON object or fails. `DelegationError`
holds the ways to fail and their texts; `Outcome.ofReply` turns the object into an outcome. An
answer counts as executed only if it carries a spend bundle and does not call itself skipped.
-/

namespace CoinRelay

/-- Why a delegation gave no answer. -/
inductive DelegationError where
  /-- The configured command is no command line. -/
  | invalidCommand (raw : String)
  | spawn (cause : String)
  | transfer (cause : String)
  | timeout (limit : Duration)
  /-- The command failed; without a code it was killed. -/
  | exit (code : Option Int) (detail : String)
  | invalidJson
deriving DecidableEq, Repr

namespace DelegationError

/-- The most characters of an error's text that a reason carries. -/
def maxDetail : Nat := 1024

def message : DelegationError → String
  | .invalidCommand raw => "invalid_command_line:" ++ raw
  | .spawn cause => "spawn_error:" ++ cause
  | .transfer cause => "io_error:" ++ cause
  | .timeout limit => "timeout after " ++ limit.text
  | .exit _ detail => detail
  | .invalidJson => "invalid_json"

def cap (detail : String) : String := String.ofList (detail.toList.take maxDetail)

def reason (tag : String) : DelegationError → String
  | .invalidJson => tag ++ "_invalid_json"
  | error => tag ++ "_failed:" ++ cap error.message

def isTimeout : DelegationError → Bool
  | .timeout _ => true
  | _ => false

end DelegationError

abbrev Reply := Except DelegationError Fields

/-- Reads the output of a command. No output at all is an empty object. -/
def parseReply (stdout : String) : Reply :=
  match Text.trimChars stdout.toList with
  | [] => .ok []
  | cs =>
    match Json.read? cs with
    | some (.obj body) => .ok body
    | _ => .error .invalidJson

/-- The outcome that an answer stands for. Where `status` is absent the answer counts as executed,
where `reason` is absent it is derived from the hop's tag. -/
def Outcome.ofReply (tag : String) (body : Fields) : Outcome :=
  let status := ((body.get? "status").map Json.scalarText).getD "executed"
  let reason := ((body.get? "reason").map Json.scalarText).getD (tag ++ "_success")
  let operationId := (body.present? "operation_id").map Json.scalarText
  if status = "skipped" then
    .skipped reason operationId
      ((((body.erase "status").erase "reason").erase "operation_id").erase "spend_bundle_hex")
  else
    match body.present? "spend_bundle_hex" with
    | some hex => .executed reason operationId (Text.trim hex.scalarText)
    | none => skip (tag ++ "_missing_spend_bundle_hex")

end CoinRelay
