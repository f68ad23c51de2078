import CoinRelay.Config
import CoinRelay.Handoff
import CoinRelay.Host.FileTree
import CoinRelay.SpendBundle

/-!
# Running a stage

A stage makes its handoff and delegates it to the command of its hop. A run keeps its history, so
that what answers a call may depend on the calls before it. Whatever goes wrong on the way, the
outcome names the reason and reports the request that was handed on.
-/

namespace CoinRelay

/-- A request that is delegated to the command of a hop. -/
structure Call where
  hop : Hop
  command : CommandLine
  request : Json
  timeout : Duration

/-- The calls so far, the time that they took, and the files as they have left them. -/
structure History where
  calls : List Call := []
  elapsed : Duration := ⟨0⟩
  files : Host.FileTree := {}

def History.record (history : History) (call : Call) : History :=
  { history with calls := history.calls ++ [call] }

/-- A computation that delegates. -/
abbrev Run := StateM History

/-- What answers a call. The call is already part of the history. -/
abbrev Delegate := Call → Run Reply

/-- What a stage needs beside its request. -/
structure Surroundings where
  config : Config
  files : Files
  delegate : Delegate

/-- Why a hop gave no answer. -/
inductive HopFailure where
  | notConfigured
  | failed (reason : String)
deriving DecidableEq, Repr

/-- The reason that an outcome gives for a failure of a hop. -/
def HopFailure.reasonOn (hop : Hop) : HopFailure → String
  | .notConfigured => hop.notConfigured
  | .failed reason => reason

namespace Surroundings

/-- Delegates a request to the command that answers a hop. -/
def invoke (s : Surroundings) (hop : Hop) (request : Json) : Run (Except HopFailure Fields) := do
  match s.config.resolve hop with
  | .error error => return .error (.failed (error.reason hop.tag))
  | .ok none => return .error .notConfigured
  | .ok (some command) =>
    let call : Call := ⟨hop, command, request, s.config.timeout⟩
    modify (·.record call)
    match ← s.delegate call with
    | .ok body => return .ok body
    | .error error => return .error (.failed (error.reason hop.tag))

/-- Delegates a request to a hop. A skipped outcome reports the request under `key`. -/
def forward (s : Surroundings) (hop : Hop) (request : Json) (key : String) : Run Outcome := do
  let outcome := match ← s.invoke hop request with
    | .ok body => Outcome.ofReply hop.tag body
    | .error failure => .skip (failure.reasonOn hop)
  return outcome.withPartial key request

/-- Forwards a handoff to a hop, or stops with the reason of its rejection. -/
def handOn (s : Surroundings) (hop : Hop) (key : String) (handoff : Except Rejection Fields) :
    Run Outcome :=
  match handoff with
  | .error rejection => return .ofRejection rejection
  | .ok fields => s.forward hop (.obj fields) key

/-- The coins for a job: those in the request, or else those that the coin selector answers with.
Without either there is an outcome that says why. -/
def coinsFor (s : Surroundings) (request : Fields) (job : Handoff.Job) :
    Run (Except Outcome Selection) := do
  match Selection.ofJson? (request.get? "selected_coins") with
  | some selection => return .ok selection
  | none =>
    let question := Json.obj (Handoff.toSelector job)
    match ← s.invoke .coinSelector question with
    | .ok answer => return (Handoff.selectorCoins answer).mapError .ofRejection
    | .error .notConfigured =>
      return .error ((Outcome.skip Hop.coinSelector.notConfigured).withPartial
        "coin_selection_request" question)
    | .error (.failed reason) => return .error (.skip reason)

/-- Attaches coins to a job and hands it on to the bundle signer. -/
def build (s : Surroundings) (request : Fields) : Run Outcome := do
  match Handoff.Job.parse s.files request .deriveWhenAbsent with
  | .error rejection => return .ofRejection rejection
  | .ok job =>
    match ← s.coinsFor request job with
    | .error outcome => return outcome
    | .ok selection =>
      s.handOn .bundleSigner "sign_request" (Handoff.toBundleSigner job selection)

/-- An executed outcome without a real spend bundle counts as skipped. -/
def checkBundle (request : Json) (outcome : Outcome) : Outcome :=
  match outcome with
  | .executed _ _ spendBundle =>
    if SpendBundle.isHex spendBundle then outcome
    else (Outcome.skip "invalid_spend_bundle_hex").withPartial "submit_request" request
  | .skipped .. => outcome

/-- Hands checked additions on for signing, and checks the spend bundle that comes back. -/
def submit (s : Surroundings) (request : Fields) : Run Outcome := do
  match Handoff.toSignSubmit s.files request with
  | .error rejection => return .ofRejection rejection
  | .ok fields =>
    return checkBundle (.obj fields) (← s.forward .signSubmit (.obj fields) "submit_request")

def route (s : Surroundings) (request : Fields) : Run Outcome :=
  match Handoff.toExecutor request with
  | .error rejection => return .ofRejection rejection
  | .ok (source, fields) => s.forward source.executor (.obj fields) "worker_request"

def run (s : Surroundings) (stage : Stage) (request : Fields) : Run Outcome :=
  match stage with
  | .route => s.route request
  | .worker => s.handOn .signer "signer_request" (Handoff.toSigner s.files request)
  | .signer => s.handOn .signerBackend "backend_request" (Handoff.toBackend s.files request)
  | .builder => s.build request
  | .rawEngine => s.handOn .sdkSubmit "sign_tx_request" (Handoff.toSubmission s.files request)
  | .submit => s.submit request

end Surroundings

end CoinRelay
