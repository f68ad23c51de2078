import CoinRelay.Proofs.Relay.Received

/-! # What becomes of a forwarded request

A hop has no command, fails, or replies. Forwarding tells these apart, and reports the request
wherever nothing was executed. The builder's question for coins does not go that way: it is reported
only where nobody could be asked. -/

namespace CoinRelay
open Handoff

/-- A reason carries the tag and as much of the error's text as fits; output that is no JSON object
has a reason of its own. -/
theorem DelegationError.reason_cases (tag : String) (error : DelegationError) :
    (error = .invalidJson ∧ error.reason tag = tag ++ "_invalid_json") ∨
      (error ≠ .invalidJson ∧ error.reason tag =
        tag ++ "_failed:" ++ String.ofList (error.message.toList.take 1024)) := by
  cases error with
  | invalidJson => exact .inl ⟨rfl, rfl⟩
  | _ => exact .inr ⟨nofun, rfl⟩

namespace Outcome

theorem isExecuted_withPartial (outcome : Outcome) (key : String) (value : Json) :
    (outcome.withPartial key value).isExecuted = outcome.isExecuted := by
  cases outcome <;> rfl

/-- Under the new key a skipped outcome reports the new value, unless it reported one before. -/
theorem partial?_withPartial_skipped (reason : String) (id : Option String) (partials : Fields)
    (key : String) (value : Json) (k : String) :
    ((skipped reason id partials).withPartial key value).partial? k =
      (partials.get? k).or (if k = key then some value else none) := by
  refine (Fields.get?_insertIfNew partials key value k).trans ?_
  rw [Fields.get?_cons, Fields.get?_nil]

end Outcome

namespace Surroundings
variable {s : Surroundings} {hop : Hop} {request : Json} {key : String} {h : History}
variable {body : Fields} {error : DelegationError}

/-! ## Forwarding -/

theorem forward_of_no_command (hc : s.config.resolve hop = .ok none) :
    ((s.forward hop request key).run h).1 = .skipped hop.notConfigured none [(key, request)] := by
  rw [run_forward, invoke_of_no_command hc]
  rfl

theorem forward_of_fails (hf : s.Fails hop request h error) :
    ((s.forward hop request key).run h).1 =
      .skipped (error.reason hop.tag) none [(key, request)] := by
  rw [run_forward, invoke_of_fails hf]
  rfl

theorem forward_of_replies (hr : s.Replies hop request h body) :
    ((s.forward hop request key).run h).1 =
      (Outcome.ofReply hop.tag body).withPartial key request := by
  rw [run_forward, invoke_of_replies hr]
  rfl

theorem forward_of_skipped (hr : s.Replies hop request h body)
    (hskipped : Outcome.replyStatus body = "skipped") :
    ((s.forward hop request key).run h).1 =
      (Outcome.skipped (Outcome.replyReason hop.tag body) (Outcome.replyOperation body)
        (Outcome.replyPartials body)).withPartial key request := by
  rw [forward_of_replies hr, Outcome.ofReply_of_skipped hskipped]

theorem forward_of_no_bundle (hr : s.Replies hop request h body)
    (hstatus : Outcome.replyStatus body ≠ "skipped")
    (hhex : body.present? "spend_bundle_hex" = none) :
    ((s.forward hop request key).run h).1 =
      .skipped (hop.tag ++ "_missing_spend_bundle_hex") none [(key, request)] := by
  rw [forward_of_replies hr, Outcome.ofReply_of_no_bundle hstatus hhex]
  rfl

theorem isExecuted_forward (s : Surroundings) (hop : Hop) (request : Json) (key : String)
    (h : History) :
    ((s.forward hop request key).run h).1.isExecuted = true ↔
      ∃ body, s.Replies hop request h body ∧ Outcome.replyStatus body ≠ "skipped" ∧
        body.present? "spend_bundle_hex" ≠ none := by
  have hreplied : ∀ body, s.Replies hop request h body →
      (((s.forward hop request key).run h).1.isExecuted = true ↔
        Outcome.replyStatus body ≠ "skipped" ∧ body.present? "spend_bundle_hex" ≠ none) := by
    intro body hr
    rw [forward_of_replies hr, Outcome.isExecuted_withPartial, Outcome.isExecuted_ofReply]
  constructor
  · intro he
    rcases resolves_or_fails s hop request h with hc | ⟨error, hf⟩ | ⟨body, hr⟩
    · rw [forward_of_no_command hc] at he
      cases he
    · rw [forward_of_fails hf] at he
      cases he
    · exact ⟨body, hr, (hreplied body hr).1 he⟩
  · rintro ⟨body, hr, hexecuted⟩
    exact (hreplied body hr).2 hexecuted

/-- A skipped answer reports what it had to report, and the request where it leaves room for it. -/
theorem partial?_forward_of_skipped (hr : s.Replies hop request h body)
    (hskipped : Outcome.replyStatus body = "skipped") (k : String) :
    ((s.forward hop request key).run h).1.partial? k =
      (if k ∈ Outcome.ownKeys then none else body.get? k).or
        (if k = key then some request else none) := by
  rw [forward_of_skipped hr hskipped, Outcome.partial?_withPartial_skipped,
    Outcome.get?_replyPartials]

/-- **The request is not lost**: where nothing was executed it is reported under its key, unless the
answer itself reports something there. -/
theorem reported_of_not_executed (s : Surroundings) (hop : Hop) (request : Json) (key : String)
    (h : History) (hno : ((s.forward hop request key).run h).1.isExecuted = false) :
    ((s.forward hop request key).run h).1.partial? key = some request ∨
      ∃ body value, s.Replies hop request h body ∧ Outcome.replyStatus body = "skipped" ∧
        key ∉ Outcome.ownKeys ∧ body.get? key = some value ∧
        ((s.forward hop request key).run h).1.partial? key = some value := by
  have halone : ∀ reason, ((s.forward hop request key).run h).1 =
      .skipped reason none [(key, request)] →
        ((s.forward hop request key).run h).1.partial? key = some request := by
    intro reason ho
    rw [ho]
    exact (Fields.get?_cons key request [] key).trans (if_pos rfl)
  rcases resolves_or_fails s hop request h with hc | ⟨error, hf⟩ | ⟨body, hr⟩
  · exact .inl (halone _ (forward_of_no_command hc))
  · exact .inl (halone _ (forward_of_fails hf))
  · by_cases hstatus : Outcome.replyStatus body = "skipped"
    · have hkey : ((s.forward hop request key).run h).1.partial? key = _ :=
        partial?_forward_of_skipped hr hstatus key
      rw [if_pos rfl] at hkey
      cases hfound : if key ∈ Outcome.ownKeys then none else body.get? key with
      | none =>
        rw [hfound] at hkey
        exact .inl hkey
      | some value =>
        rw [hfound] at hkey
        obtain ⟨hforeign, hget⟩ := Option.ite_none_left_eq_some.1 hfound
        exact .inr ⟨body, value, hr, hstatus, hforeign, hget, hkey⟩
    · cases hhex : body.present? "spend_bundle_hex" with
      | none => exact .inl (halone _ (forward_of_no_bundle hr hstatus hhex))
      | some hex =>
        have hexecuted := (isExecuted_forward s hop request key h).2
          ⟨body, hr, hstatus, by simp [hhex]⟩
        exact absurd (hexecuted.symm.trans hno) nofun

/-- **Forwarding classifies whatever comes back and never loses the request.** It executed exactly
if the hop's command answers with a spend bundle under any status but `skipped`. Otherwise the
request is reported under its key, and only an answer that calls itself skipped and uses the key
itself is preferred to it. Such an answer keeps its reason, its operation and all that it reports;
everything else reports the request alone, for a reason that says what went wrong. -/
theorem forward_classifies (s : Surroundings) (hop : Hop) (request : Json) (key : String)
    (h : History) :
    let outcome := ((s.forward hop request key).run h).1
    (outcome.isExecuted = true ↔
      ∃ body, s.Replies hop request h body ∧ Outcome.replyStatus body ≠ "skipped" ∧
        body.present? "spend_bundle_hex" ≠ none) ∧
    (outcome.isExecuted = false →
      outcome.partial? key = some request ∨
        ∃ body value, s.Replies hop request h body ∧ Outcome.replyStatus body = "skipped" ∧
          key ∉ Outcome.ownKeys ∧ body.get? key = some value ∧
          outcome.partial? key = some value) ∧
    (∀ body, s.Replies hop request h body → Outcome.replyStatus body = "skipped" →
      (∃ partials, outcome = .skipped (Outcome.replyReason hop.tag body)
        (Outcome.replyOperation body) partials) ∧
      ∀ k, outcome.partial? k = (if k ∈ Outcome.ownKeys then none else body.get? k).or
        (if k = key then some request else none)) ∧
    (∀ body, s.Replies hop request h body → Outcome.replyStatus body ≠ "skipped" →
      body.present? "spend_bundle_hex" = none →
      outcome = .skipped (hop.tag ++ "_missing_spend_bundle_hex") none [(key, request)]) ∧
    (s.config.resolve hop = .ok none →
      outcome = .skipped hop.notConfigured none [(key, request)]) ∧
    ∀ error, s.Fails hop request h error → ∃ reason,
      outcome = .skipped reason none [(key, request)] ∧
        ((error = .invalidJson ∧ reason = hop.tag ++ "_invalid_json") ∨
          (error ≠ .invalidJson ∧ reason =
            hop.tag ++ "_failed:" ++ String.ofList (error.message.toList.take 1024))) := by
  intro outcome
  refine ⟨isExecuted_forward s hop request key h, reported_of_not_executed s hop request key h,
    ?_, ?_, forward_of_no_command, ?_⟩
  · intro body hr hskipped
    exact ⟨⟨_, forward_of_skipped hr hskipped⟩, partial?_forward_of_skipped hr hskipped⟩
  · intro body hr hstatus hhex
    exact forward_of_no_bundle hr hstatus hhex
  · intro error hf
    exact ⟨error.reason hop.tag, forward_of_fails hf, error.reason_cases hop.tag⟩

/-- A busy child that reports its queue under the key of the request is left alone. -/
example : ((busy.forward .signer (.str "request") "queue").run {}).1 =
    .skipped "busy" none [("queue", .arr [.ofUInt64 3])] := rfl

/-! ## The question for coins -/

/-- **Which failed questions are reported.** A builder that asks for coins and gets no answer gives
the reason of the failure, as forwarding does on the same hop. Forwarding reports the question with
it each time; the builder does so exactly if no command is configured for the hop, and otherwise
reports nothing. -/
theorem question_reported_iff {request : Fields} {job : Job}
    (hj : Job.parse s.files request .deriveWhenAbsent = .ok job)
    (hno : Selection.ofJson? (request.get? "selected_coins") = none)
    (hunanswered : ∀ body, ¬ s.Replies .coinSelector (.obj (toSelector job)) h body) :
    let question := Json.obj (toSelector job)
    let outcome := ((s.run .builder request).run h).1
    (outcome.partial? "coin_selection_request" = some question ↔
      s.config.resolve .coinSelector = .ok none) ∧
    (s.config.resolve .coinSelector = .ok none → outcome =
      .skipped "coin_selector_not_configured" none [("coin_selection_request", question)]) ∧
    (∀ error, s.Fails .coinSelector question h error →
      outcome = .skipped (error.reason "coin_selection") none []) ∧
    ((s.forward .coinSelector question "coin_selection_request").run h).1 =
      .skipped outcome.reason none [("coin_selection_request", question)] := by
  intro question outcome
  have hstops : ∀ failure, ((s.invoke .coinSelector question).run h).1 = .error failure →
      outcome = unanswered question failure :=
    fun failure hb => congrArg Prod.fst (run_builder_of_unanswered hj hno (Prod.ext hb rfl))
  have hnobody : s.config.resolve .coinSelector = .ok none → outcome =
      .skipped "coin_selector_not_configured" none [("coin_selection_request", question)] :=
    fun hc => hstops _ (invoke_of_no_command hc)
  have hfailed : ∀ error, s.Fails .coinSelector question h error →
      outcome = .skipped (error.reason "coin_selection") none [] :=
    fun error hf => hstops _ (invoke_of_fails hf)
  refine ⟨?_, hnobody, hfailed, ?_⟩
  · constructor
    · intro hreported
      rcases resolves_or_fails s .coinSelector question h with hc | ⟨error, hf⟩ | ⟨body, hr⟩
      · exact hc
      · rw [hfailed error hf] at hreported
        cases hreported
      · exact absurd hr (hunanswered body)
    · intro hc
      rw [hnobody hc]
      rfl
  · rcases resolves_or_fails s .coinSelector question h with hc | ⟨error, hf⟩ | ⟨body, hr⟩
    · rw [hnobody hc, forward_of_no_command hc]
      rfl
    · rw [hfailed error hf, forward_of_fails hf]
      rfl
    · exact absurd hr (hunanswered body)

/-- Every hop has the same command, or none, and whoever is asked exits with a complaint. -/
def offline (command : Option String) : Surroundings where
  config := { commands := fun _ => command }
  files := anywhere
  delegate := fun _ => return .error (.exit (some 1) "rpc down")

theorem not_replies_offline (command : Option String) (hop : Hop) (request : Json) (h : History)
    (body : Fields) : ¬ (offline command).Replies hop request h body := by
  rintro ⟨_, -, ha⟩
  cases ha

/-- What is asked where the coins are still to be found. -/
def coinlessQuestion : Fields := [
  ("asset_id", .str "xch"),
  ("network", .str "testnet11"),
  ("receive_address", .str "xch1receive"),
  ("target_total_base_units", .ofUInt64 20)]

theorem question_reported_of_offline :
    (((offline none).run .builder coinlessRequest).run {}).1 =
        .skipped "coin_selector_not_configured" none
          [("coin_selection_request", .obj coinlessQuestion)] ∧
      (((offline "child").forward .coinSelector (.obj coinlessQuestion)
        "coin_selection_request").run {}).1 =
          .skipped "coin_selection_failed:rpc down" none
            [("coin_selection_request", .obj coinlessQuestion)] := by
  have hj : Job.parse anywhere coinlessRequest .deriveWhenAbsent = .ok _ := rfl
  have hnone := question_reported_iff (s := offline none) hj rfl (not_replies_offline _ _ _ {})
  have hchild := question_reported_iff (s := offline "child") hj rfl (not_replies_offline _ _ _ {})
  exact ⟨hnone.2.1 rfl, hchild.2.2.2⟩

/-- The builder's question fails, and nothing is left of it. -/
theorem question_lost_of_offline :
    (∃ job, Job.parse anywhere coinlessRequest .deriveWhenAbsent = .ok job ∧
      Selection.ofJson? (coinlessRequest.get? "selected_coins") = none ∧
      toSelector job = coinlessQuestion) ∧
    (offline "child").Fails .coinSelector (.obj coinlessQuestion) {}
      (.exit (some 1) "rpc down") ∧
    (((offline "child").run .builder coinlessRequest).run {}).1 =
      .skipped "coin_selection_failed:rpc down" none [] ∧
    (((offline "child").run .builder coinlessRequest).run {}).1.partial?
      "coin_selection_request" = none :=
  ⟨⟨_, rfl, rfl, rfl⟩, .inr ⟨_, rfl, rfl⟩, rfl, rfl⟩

end Surroundings

end CoinRelay
