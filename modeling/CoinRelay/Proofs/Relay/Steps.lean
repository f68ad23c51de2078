import CoinRelay.Proofs.Chain.Calls
import CoinRelay.Proofs.Handoff.Stages
import CoinRelay.Proofs.Outcome.Wire

/-! # One stage after the other

A stage stops by itself, or it hands one request on and concludes from the answer (`run_cases`).
Whatever it writes of its own accord is of a few kinds only (`Written`); the rest of a handoff comes
from the request, or from the answer to the builder's question for coins. -/

namespace CoinRelay
open Text Handoff

/-- The key under which a stage reports what it hands on. -/
def Stage.requestKey : Stage → String
  | .route => "worker_request"
  | .worker => "signer_request"
  | .signer => "backend_request"
  | .builder => "sign_request"
  | .rawEngine => "sign_tx_request"
  | .submit => "submit_request"

theorem Stage.requestKey_foreign (stage : Stage) : stage.requestKey ∉ Outcome.ownKeys := by
  cases stage <;> decide

namespace Surroundings

/-- How a stage stops by itself: with a reason, or with a question for coins that nobody answers. -/
inductive Stops (s : Surroundings) (request : Fields) : Outcome → Prop where
  | refused (reason : String) : Stops s request (.skip reason)
  | unasked {job : Job} (hj : Job.parse s.files request .deriveWhenAbsent = .ok job) :
    Stops s request ((Outcome.skip Hop.coinSelector.notConfigured).withPartial
      "coin_selection_request" (.obj (toSelector job)))

variable {s : Surroundings} {stage : Stage} {request fields : Fields} {hop : Hop}
variable {h h' : History}

/-! ## Delegating -/

/-- What a hop reports for the answer to its request. -/
def conclusion (hop : Hop) (key : String) (request : Json) (answer : Except HopFailure Fields) :
    Outcome :=
  (match answer with
    | .ok body => Outcome.ofReply hop.tag body
    | .error failure => .skip (failure.reasonOn hop)).withPartial key request

theorem run_forward (s : Surroundings) (hop : Hop) (request : Json) (key : String) (h : History) :
    (s.forward hop request key).run h =
      (conclusion hop key request ((s.invoke hop request).run h).1,
        ((s.invoke hop request).run h).2) := by
  simp only [forward, StateT.run_bind]
  rfl

theorem run_invoke {command : CommandLine} {request : Json}
    (hc : s.config.resolve hop = .ok (some command)) (h : History) :
    let call : Call := ⟨hop, command, request, s.config.timeout⟩
    let replied := (s.delegate call).run (h.record call)
    (s.invoke hop request).run h =
      (replied.1.mapError fun error => .failed (error.reason hop.tag), replied.2) := by
  intro call replied
  have hreplied : (s.delegate call).run (h.record call) = replied := rfl
  clear_value replied
  simp only [invoke, hc, StateT.run_bind, StateT.run_modify, pure_bind]
  rw [hreplied]
  obtain ⟨answer, after⟩ := replied
  cases answer <;> rfl

/-- The command of a hop answers a request with a body. -/
def Replies (s : Surroundings) (hop : Hop) (request : Json) (h : History) (body : Fields) : Prop :=
  ∃ command, s.config.resolve hop = .ok (some command) ∧
    ((s.delegate ⟨hop, command, request, s.config.timeout⟩).run
      (h.record ⟨hop, command, request, s.config.timeout⟩)).1 = .ok body

/-- A hop fails on a request: what is configured for it is no command line, or the delegation to its
command ends in an error. -/
def Fails (s : Surroundings) (hop : Hop) (request : Json) (h : History) (error : DelegationError) :
    Prop :=
  s.config.resolve hop = .error error ∨
    ∃ command, s.config.resolve hop = .ok (some command) ∧
      ((s.delegate ⟨hop, command, request, s.config.timeout⟩).run
        (h.record ⟨hop, command, request, s.config.timeout⟩)).1 = .error error

theorem resolves_or_fails (s : Surroundings) (hop : Hop) (request : Json) (h : History) :
    s.config.resolve hop = .ok none ∨ (∃ error, s.Fails hop request h error) ∨
      ∃ body, s.Replies hop request h body := by
  cases hc : s.config.resolve hop with
  | error error => exact .inr (.inl ⟨error, .inl hc⟩)
  | ok found =>
    cases found with
    | none => exact .inl rfl
    | some command =>
      cases ha : ((s.delegate ⟨hop, command, request, s.config.timeout⟩).run
        (h.record ⟨hop, command, request, s.config.timeout⟩)).1 with
      | error error => exact .inr (.inl ⟨error, .inr ⟨command, hc, ha⟩⟩)
      | ok body => exact .inr (.inr ⟨body, command, hc, ha⟩)

theorem invoke_of_no_command {request : Json} (hc : s.config.resolve hop = .ok none) :
    ((s.invoke hop request).run h).1 = .error .notConfigured := by
  simp only [invoke, hc]
  rfl

theorem invoke_of_fails {request : Json} {error : DelegationError}
    (hf : s.Fails hop request h error) :
    ((s.invoke hop request).run h).1 = .error (.failed (error.reason hop.tag)) := by
  rcases hf with hc | ⟨command, hc, ha⟩
  · simp only [invoke, hc]
    rfl
  · rw [run_invoke hc]
    dsimp only
    rw [ha]
    rfl

theorem invoke_of_replies {request : Json} {body : Fields} (hr : s.Replies hop request h body) :
    ((s.invoke hop request).run h).1 = .ok body := by
  obtain ⟨command, hc, ha⟩ := hr
  rw [run_invoke hc]
  dsimp only
  rw [ha]
  rfl

/-- An answer comes from the delegate, with the history that it leaves. -/
theorem delegated_of_invoke {request : Json} {body : Fields}
    (hb : (s.invoke hop request).run h = (.ok body, h')) :
    ∃ command, s.config.resolve hop = .ok (some command) ∧
      (s.delegate ⟨hop, command, request, s.config.timeout⟩).run
        (h.record ⟨hop, command, request, s.config.timeout⟩) = (.ok body, h') := by
  have hanswer : ((s.invoke hop request).run h).1 = .ok body := by rw [hb]
  rcases resolves_or_fails s hop request h with hc | ⟨error, hf⟩ | ⟨found, hr⟩
  · rw [invoke_of_no_command hc] at hanswer
    cases hanswer
  · rw [invoke_of_fails hf] at hanswer
    cases hanswer
  · rw [invoke_of_replies hr] at hanswer
    cases hanswer
    obtain ⟨command, hc, ha⟩ := hr
    rw [run_invoke hc] at hb
    exact ⟨command, hc, Prod.ext ha (Prod.mk.inj hb).2⟩

theorem reply_of_invoke {request : Json} {body : Fields}
    (hb : ((s.invoke hop request).run h).1 = .ok body) :
    ∃ command h', s.config.resolve hop = .ok (some command) ∧
      ((s.delegate ⟨hop, command, request, s.config.timeout⟩).run h').1 = .ok body := by
  obtain ⟨command, hc, hdelegated⟩ := delegated_of_invoke (Prod.ext hb rfl)
  exact ⟨command, _, hc, congrArg Prod.fst hdelegated⟩

/-! ## What a stage hands on -/

/-- What a stage makes of the outcome of its handoff: the last one looks at the spend bundle. -/
def review : Stage → Json → Outcome → Outcome
  | .submit, request, outcome => checkBundle request outcome
  | _, _, outcome => outcome

/-- A stage that hands fields on answers with what it makes of the outcome. -/
theorem run_of_hands (hh : s.Hands request stage h hop fields h') :
    let answer := (s.invoke hop (.obj fields)).run h'
    (s.run stage request).run h =
      (review stage (.obj fields) (conclusion hop stage.requestKey (.obj fields) answer.1),
        answer.2) := by
  intro answer
  cases hh with
  | route hf =>
    simp only [run, route, hf]
    exact run_forward ..
  | worker hf =>
    simp only [run, hf]
    exact run_forward ..
  | signer hf =>
    simp only [run, hf]
    exact run_forward ..
  | builder hj hc hf =>
    simp only [run, build, hj, StateT.run_bind, hc]
    show StateT.run (s.handOn .bundleSigner "sign_request" _) h' = _
    rw [hf]
    exact run_forward ..
  | rawEngine hf =>
    simp only [run, hf]
    exact run_forward ..
  | submit hf =>
    simp only [run, submit, hf, StateT.run_bind, run_forward]
    rfl

/-! ## Coins for a job -/

/-- What is left of a question for coins that gets no answer. Only where nobody could be asked does
it stand in the outcome. -/
def unanswered (question : Json) : HopFailure → Outcome
  | .notConfigured => (Outcome.skip Hop.coinSelector.notConfigured).withPartial
    "coin_selection_request" question
  | .failed reason => .skip reason

theorem run_coinsFor {job : Job} (hno : Selection.ofJson? (request.get? "selected_coins") = none)
    (h : History) :
    let question := Json.obj (toSelector job)
    let answer := (s.invoke .coinSelector question).run h
    (s.coinsFor request job).run h =
      (match answer.1 with
        | .ok body => (selectorCoins body).mapError .ofRejection
        | .error failure => .error (unanswered question failure), answer.2) := by
  intro question answer
  have hanswer : (s.invoke .coinSelector question).run h = answer := rfl
  clear_value answer
  simp only [coinsFor, hno, StateT.run_bind]
  rw [hanswer]
  obtain ⟨found, after⟩ := answer
  cases found with
  | ok body => rfl
  | error failure => cases failure <;> rfl

/-- The coins for a job are those of the request, or those of an answer. -/
theorem coins_of_coinsFor {job : Job} {selection : Selection}
    (hs : ((s.coinsFor request job).run h).1 = .ok selection) :
    request.get? "selected_coins" = some selection.toJson ∨
      ∃ command h' body, ((s.delegate ⟨.coinSelector, command, .obj (toSelector job),
        s.config.timeout⟩).run h').1 = .ok body ∧
        ∃ key, body.get? key = some selection.toJson := by
  cases hno : Selection.ofJson? (request.get? "selected_coins") with
  | some found =>
    simp only [coinsFor, hno] at hs
    cases hs
    exact .inl (ofJson?_eq_some.1 hno)
  | none =>
    rw [run_coinsFor hno] at hs
    dsimp only at hs
    split at hs
    · next body hb =>
      obtain ⟨command, h', -, hreply⟩ := reply_of_invoke hb
      refine .inr ⟨command, h', body, hreply, ?_⟩
      unfold selectorCoins at hs
      split at hs
      · next found hfound =>
        cases hs
        rcases Option.or_eq_some_iff.1 (ofJson?_eq_some.1 hfound) with hget | ⟨-, hget⟩
        · exact ⟨_, hget⟩
        · exact ⟨_, hget⟩
      · cases hs
    · cases hs

/-! ## Three ways to end -/

/-- A stage refuses a request for a cause. The builder may have asked for coins before. -/
inductive Refuses (s : Surroundings) (request : Fields) :
    Stage → History → Rejection → History → Prop where
  | route {cause h} (hf : toExecutor request = .error cause) : Refuses s request .route h cause h
  | worker {cause h} (hf : toSigner s.files request = .error cause) :
    Refuses s request .worker h cause h
  | signer {cause h} (hf : toBackend s.files request = .error cause) :
    Refuses s request .signer h cause h
  | job {cause h} (hj : Job.parse s.files request .deriveWhenAbsent = .error cause) :
    Refuses s request .builder h cause h
  | coins {job body cause h h'} (hj : Job.parse s.files request .deriveWhenAbsent = .ok job)
      (hno : Selection.ofJson? (request.get? "selected_coins") = none)
      (hb : (s.invoke .coinSelector (.obj (toSelector job))).run h = (.ok body, h'))
      (hf : selectorCoins body = .error cause) :
    Refuses s request .builder h cause h'
  | total {job selection cause h h'} (hj : Job.parse s.files request .deriveWhenAbsent = .ok job)
      (hc : (s.coinsFor request job).run h = (.ok selection, h'))
      (hf : toBundleSigner job selection = .error cause) :
    Refuses s request .builder h cause h'
  | rawEngine {cause h} (hf : toSubmission s.files request = .error cause) :
    Refuses s request .rawEngine h cause h
  | submit {cause h} (hf : toSignSubmit s.files request = .error cause) :
    Refuses s request .submit h cause h

/-- The builder's question for coins gets no answer. -/
inductive Unanswered (s : Surroundings) (request : Fields) :
    Stage → History → HopFailure → History → Prop where
  | mk {job failure h h'} (hj : Job.parse s.files request .deriveWhenAbsent = .ok job)
      (hno : Selection.ofJson? (request.get? "selected_coins") = none)
      (hb : (s.invoke .coinSelector (.obj (toSelector job))).run h = (.error failure, h')) :
    Unanswered s request .builder h failure h'

/-- A stage refuses a request, is left without an answer, or hands fields on. -/
theorem run_kinds (s : Surroundings) (stage : Stage) (request : Fields) (h : History) :
    (∃ cause h', s.Refuses request stage h cause h') ∨
      (∃ failure h', s.Unanswered request stage h failure h') ∨
      ∃ hop fields h', s.Hands request stage h hop fields h' := by
  cases stage with
  | route =>
    cases hf : toExecutor request with
    | error cause => exact .inl ⟨cause, h, .route hf⟩
    | ok found => exact .inr (.inr ⟨_, _, _, .route hf⟩)
  | worker =>
    cases hf : toSigner s.files request with
    | error cause => exact .inl ⟨cause, h, .worker hf⟩
    | ok fields => exact .inr (.inr ⟨_, _, _, .worker hf⟩)
  | signer =>
    cases hf : toBackend s.files request with
    | error cause => exact .inl ⟨cause, h, .signer hf⟩
    | ok fields => exact .inr (.inr ⟨_, _, _, .signer hf⟩)
  | builder =>
    cases hj : Job.parse s.files request .deriveWhenAbsent with
    | error cause => exact .inl ⟨cause, h, .job hj⟩
    | ok job =>
      have hands : ∀ selection h', (s.coinsFor request job).run h = (.ok selection, h') →
          (∃ cause h', s.Refuses request .builder h cause h') ∨
            ∃ hop fields h', s.Hands request .builder h hop fields h' := by
        intro selection h' hc
        cases hf : toBundleSigner job selection with
        | error cause => exact .inl ⟨cause, h', .total hj hc hf⟩
        | ok fields => exact .inr ⟨_, _, _, .builder hj hc hf⟩
      cases hcoins : Selection.ofJson? (request.get? "selected_coins") with
      | some selection =>
        have hc : (s.coinsFor request job).run h = (.ok selection, h) := by
          simp only [coinsFor, hcoins]
          rfl
        exact (hands selection h hc).imp_right .inr
      | none =>
        cases hb : (s.invoke .coinSelector (.obj (toSelector job))).run h with
        | mk answer h' =>
          cases answer with
          | error failure => exact .inr (.inl ⟨failure, h', .mk hj hcoins hb⟩)
          | ok body =>
            cases hs : selectorCoins body with
            | error cause => exact .inl ⟨cause, h', .coins hj hcoins hb hs⟩
            | ok selection =>
              have hc : (s.coinsFor request job).run h = (.ok selection, h') := by
                rw [run_coinsFor hcoins, hb]
                simp [hs, Except.mapError]
              exact (hands selection h' hc).imp_right .inr
  | rawEngine =>
    cases hf : toSubmission s.files request with
    | error cause => exact .inl ⟨cause, h, .rawEngine hf⟩
    | ok fields => exact .inr (.inr ⟨_, _, _, .rawEngine hf⟩)
  | submit =>
    cases hf : toSignSubmit s.files request with
    | error cause => exact .inl ⟨cause, h, .submit hf⟩
    | ok fields => exact .inr (.inr ⟨_, _, _, .submit hf⟩)

theorem run_coinsFor_of_no_coins {job : Job} {body : Fields} {cause : Rejection}
    (hno : Selection.ofJson? (request.get? "selected_coins") = none)
    (hb : (s.invoke .coinSelector (.obj (toSelector job))).run h = (.ok body, h'))
    (hf : selectorCoins body = .error cause) :
    (s.coinsFor request job).run h = (.error (.ofRejection cause), h') := by
  rw [run_coinsFor hno, hb]
  simp [hf, Except.mapError]

/-- A stage that refuses answers with the cause and leaves the rest alone. -/
theorem run_of_refuses {cause : Rejection} (hr : s.Refuses request stage h cause h') :
    (s.run stage request).run h = (.ofRejection cause, h') := by
  cases hr with
  | route hf => simp only [run, route, hf]; rfl
  | worker hf => simp only [run, hf]; rfl
  | signer hf => simp only [run, hf]; rfl
  | job hj => simp only [run, build, hj]; rfl
  | coins hj hno hb hf =>
    simp only [run, build, hj, StateT.run_bind, run_coinsFor_of_no_coins hno hb hf]
    rfl
  | total hj hc hf =>
    simp only [run, build, hj, StateT.run_bind, hc]
    show StateT.run (s.handOn .bundleSigner "sign_request" _) h' = _
    rw [hf]
    rfl
  | rawEngine hf => simp only [run, hf]; rfl
  | submit hf => simp only [run, submit, hf]; rfl

theorem run_builder_of_unanswered {job : Job} {failure : HopFailure}
    (hj : Job.parse s.files request .deriveWhenAbsent = .ok job)
    (hno : Selection.ofJson? (request.get? "selected_coins") = none)
    (hb : (s.invoke .coinSelector (.obj (toSelector job))).run h = (.error failure, h')) :
    (s.run .builder request).run h = (unanswered (.obj (toSelector job)) failure, h') := by
  simp only [run, build, hj, StateT.run_bind]
  rw [run_coinsFor hno, hb]
  rfl

theorem run_of_unanswered {failure : HopFailure} (hu : s.Unanswered request stage h failure h') :
    ∃ outcome, s.Stops request outcome ∧ (s.run stage request).run h = (outcome, h') := by
  cases hu with
  | mk hj hno hb =>
    refine ⟨_, ?_, run_builder_of_unanswered hj hno hb⟩
    cases failure with
    | notConfigured => exact .unasked hj
    | failed reason => exact .refused reason

/-- **A stage stops by itself or hands fields on.** -/
theorem run_cases (s : Surroundings) (stage : Stage) (request : Fields) (h : History) :
    s.Stops request ((s.run stage request).run h).1 ∨
      ∃ hop fields h', s.Hands request stage h hop fields h' := by
  rcases run_kinds s stage request h with ⟨cause, h', hr⟩ | ⟨failure, h', hu⟩ | hands
  · rw [run_of_refuses hr]
    exact .inl (.refused cause.reason)
  · obtain ⟨outcome, hstops, hrun⟩ := run_of_unanswered hu
    rw [hrun]
    exact .inl hstops
  · exact .inr hands

end Surroundings

end CoinRelay
