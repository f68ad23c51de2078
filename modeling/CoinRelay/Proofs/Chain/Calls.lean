import CoinRelay.Chain
import CoinRelay.Proofs.Json.Members

/-! # The calls of a run

A stage makes at most one handoff, and the builder may ask for coins before. `Sends` lists what each
stage may send; a property of all calls of a run follows from the property of what is sent and from
that of the stages behind it. -/

namespace CoinRelay

/-- Whatever calls a computation adds to the history have a property. -/
def Run.Records {α : Type} (P : Call → Prop) (m : Run α) : Prop :=
  ∀ h : History, (∀ call ∈ h.calls, P call) → ∀ call ∈ (m.run h).2.calls, P call

namespace Run
variable {α β : Type} {P : Call → Prop}

theorem records_pure (a : α) : Records P (pure a) := fun _ hcalls => hcalls

theorem Records.bind {m : Run α} {f : α → Run β} (hm : m.Records P) (hf : ∀ a, (f a).Records P) :
    (m >>= f).Records P := fun h hcalls => hf _ _ (hm h hcalls)

theorem records_record {call : Call} (hcall : P call) :
    Records P (modify (·.record call) : Run Unit) := by
  intro h hcalls c hc
  have hc : c ∈ h.calls ++ [call] := hc
  rcases List.mem_append.1 hc with hc | hc
  · exact hcalls c hc
  · rw [List.mem_singleton.1 hc]
    exact hcall

end Run

/-- What a stage may send over which hop, as the answer to a request. -/
inductive Sends (files : Files) (request : Fields) : Stage → Hop → Fields → Prop where
  | route {source fields} (h : Handoff.toExecutor request = .ok (source, fields)) :
    Sends files request .route source.executor fields
  | worker {fields} (h : Handoff.toSigner files request = .ok fields) :
    Sends files request .worker .signer fields
  | signer {fields} (h : Handoff.toBackend files request = .ok fields) :
    Sends files request .signer .signerBackend fields
  | question {job} (h : Handoff.Job.parse files request .deriveWhenAbsent = .ok job) :
    Sends files request .builder .coinSelector (Handoff.toSelector job)
  | builder {job selection fields}
      (hj : Handoff.Job.parse files request .deriveWhenAbsent = .ok job)
      (h : Handoff.toBundleSigner job selection = .ok fields) :
    Sends files request .builder .bundleSigner fields
  | rawEngine {fields} (h : Handoff.toSubmission files request = .ok fields) :
    Sends files request .rawEngine .sdkSubmit fields
  | submit {fields} (h : Handoff.toSignSubmit files request = .ok fields) :
    Sends files request .submit .signSubmit fields

namespace Surroundings

/-- With a history, a stage hands fields on over a hop. The builder may have asked for coins
before. -/
inductive Hands (s : Surroundings) (request : Fields) :
    Stage → History → Hop → Fields → History → Prop where
  | route {source fields h} (hf : Handoff.toExecutor request = .ok (source, fields)) :
    Hands s request .route h source.executor fields h
  | worker {fields h} (hf : Handoff.toSigner s.files request = .ok fields) :
    Hands s request .worker h .signer fields h
  | signer {fields h} (hf : Handoff.toBackend s.files request = .ok fields) :
    Hands s request .signer h .signerBackend fields h
  | builder {job selection fields h h'}
      (hj : Handoff.Job.parse s.files request .deriveWhenAbsent = .ok job)
      (hc : (s.coinsFor request job).run h = (.ok selection, h'))
      (hf : Handoff.toBundleSigner job selection = .ok fields) :
    Hands s request .builder h .bundleSigner fields h'
  | rawEngine {fields h} (hf : Handoff.toSubmission s.files request = .ok fields) :
    Hands s request .rawEngine h .sdkSubmit fields h
  | submit {fields h} (hf : Handoff.toSignSubmit s.files request = .ok fields) :
    Hands s request .submit h .signSubmit fields h

variable {P : Call → Prop} {s : Surroundings}

theorem Hands.sends {request fields : Fields} {stage : Stage} {hop : Hop} {h h' : History}
    (hh : s.Hands request stage h hop fields h') : Sends s.files request stage hop fields := by
  cases hh with
  | route hf => exact .route hf
  | worker hf => exact .worker hf
  | signer hf => exact .signer hf
  | builder hj _ hf => exact .builder hj hf
  | rawEngine hf => exact .rawEngine hf
  | submit hf => exact .submit hf

/-- A handoff that is sent over a hop has a property, and so has every call behind it. -/
def Safe (P : Call → Prop) (s : Surroundings) (hop : Hop) (fields : Fields) : Prop :=
  ∀ command, s.config.resolve hop = .ok (some command) →
    let call : Call := ⟨hop, command, .obj fields, s.config.timeout⟩
    P call ∧ (s.delegate call).Records P

theorem records_invoke {hop : Hop} {fields : Fields} (h : s.Safe P hop fields) :
    (s.invoke hop (.obj fields)).Records P := by
  unfold invoke
  split
  · exact Run.records_pure _
  · exact Run.records_pure _
  · next command hc =>
    obtain ⟨hcall, hbehind⟩ := h command hc
    refine Run.Records.bind (Run.records_record hcall) fun _ => Run.Records.bind hbehind ?_
    intro reply
    cases reply <;> exact Run.records_pure _

theorem records_forward {hop : Hop} {fields : Fields} {key : String} (h : s.Safe P hop fields) :
    (s.forward hop (.obj fields) key).Records P :=
  (records_invoke h).bind fun _ => Run.records_pure _

theorem records_handOn {hop : Hop} {key : String} {handoff : Except Rejection Fields}
    (h : ∀ fields, handoff = .ok fields → s.Safe P hop fields) :
    (s.handOn hop key handoff).Records P := by
  unfold handOn
  split
  · exact Run.records_pure _
  · exact records_forward (h _ rfl)

theorem records_coinsFor {request : Fields} {job : Handoff.Job}
    (h : s.Safe P .coinSelector (Handoff.toSelector job)) :
    (s.coinsFor request job).Records P := by
  unfold coinsFor
  split
  · exact Run.records_pure _
  · refine (records_invoke h).bind fun answer => ?_
    split <;> exact Run.records_pure _

/-- **The calls of a stage** have a property if it holds of what the stage hands on, of the builder's
question, and of all calls behind them. -/
theorem records_run_of_hands {stage : Stage} {request : Fields}
    (hquestion : ∀ job, Sends s.files request stage .coinSelector (Handoff.toSelector job) →
      s.Safe P .coinSelector (Handoff.toSelector job))
    (hhands : ∀ h hop fields h', s.Hands request stage h hop fields h' → s.Safe P hop fields) :
    (s.run stage request).Records P := by
  intro h
  cases stage with
  | route =>
    simp only [run, route]
    split
    · exact Run.records_pure _ h
    · next source fields hr => exact records_forward (hhands h _ _ _ (.route hr)) h
  | worker => exact records_handOn (fun fields hf => hhands h _ _ _ (.worker hf)) h
  | signer => exact records_handOn (fun fields hf => hhands h _ _ _ (.signer hf)) h
  | builder =>
    intro hcalls
    simp only [run, build]
    split
    · exact hcalls
    · next job hj =>
      have hcoins : ∀ call ∈ ((s.coinsFor request job).run h).2.calls, P call :=
        records_coinsFor (hquestion job (.question hj)) h hcalls
      rw [StateT.run_bind]
      -- the coins are those that were found with this history
      cases hc : (s.coinsFor request job).run h with
      | mk coins h' =>
        rw [hc] at hcoins
        cases coins with
        | error outcome => exact hcoins
        | ok selection =>
          exact records_handOn (fun fields hf => hhands h _ _ _ (.builder hj hc hf)) h' hcoins
  | rawEngine => exact records_handOn (fun fields hf => hhands h _ _ _ (.rawEngine hf)) h
  | submit =>
    simp only [run, submit]
    split
    · exact Run.records_pure _ h
    · next fields hf =>
      exact ((records_forward (hhands h _ _ _ (.submit hf))).bind fun _ => Run.records_pure _) h

theorem records_run {stage : Stage} {request : Fields}
    (h : ∀ hop fields, Sends s.files request stage hop fields → s.Safe P hop fields) :
    (s.run stage request).Records P :=
  records_run_of_hands (fun _ hsends => h _ _ hsends) fun _ _ _ _ hh => h _ _ hh.sends

end Surroundings

/-! ## Chains -/

namespace Chain
variable {config : Config} {files : Files} {program : String} {external : External}
variable {P : Call → Prop}

/-- Requests may be given to stages so that all that is sent has a property, and what a stage of
this program receives of it may be given to that stage again. -/
def Closed (config : Config) (files : Files) (program : String) (P : Call → Prop)
    (Admissible : Stage → Fields → Prop) : Prop :=
  ∀ stage request hop fields command, Admissible stage request →
    Sends files request stage hop fields → config.resolve hop = .ok (some command) →
    P ⟨hop, command, .obj fields, config.timeout⟩ ∧
      (command.program = program → ∀ next received, stageOf? command = some next →
        parseRequest? (Json.obj fields).text = some received → Admissible next received)

/-- A step of the chain: the calls behind a call. -/
theorem records_delegate {budget : Nat} {call : Call}
    (h : call.command.program = program → ∀ stage request, stageOf? call.command = some stage →
      parseRequest? call.request.text = some request → ∀ n, n < budget →
      (Surroundings.run ⟨config, files, delegate config files program external n⟩ stage
        request).Records P) :
    (delegate config files program external budget call).Records P := by
  cases budget with
  | zero => exact Run.records_pure _
  | succ n =>
    unfold delegate
    split
    · next hp =>
      split
      · exact Run.records_pure _
      · next stage hs =>
        split
        · exact Run.records_pure _
        · next request hr =>
          exact (h hp stage request hs hr n (Nat.lt_succ_self n)).bind fun _ => Run.records_pure _
    · exact fun _ hcalls => hcalls

/-- **All calls of a chain** have a property if it is closed under what the stages send. -/
theorem records_run {Admissible : Stage → Fields → Prop}
    (hclosed : Closed config files program P Admissible) (budget : Nat) {stage : Stage}
    {request : Fields} (h : Admissible stage request) :
    (Surroundings.run ⟨config, files, delegate config files program external budget⟩ stage
      request).Records P := by
  induction budget using Nat.strongRecOn generalizing stage request with
  | ind budget ih =>
    refine Surroundings.records_run fun hop fields hsends command hc => ?_
    obtain ⟨hcall, hnext⟩ := hclosed stage request hop fields command h hsends hc
    refine ⟨hcall, records_delegate ?_⟩
    intro hp next received hs hr n hn
    exact ih n hn (hnext hp next received hs hr)

end Chain

end CoinRelay
