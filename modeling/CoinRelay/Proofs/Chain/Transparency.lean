import CoinRelay.Proofs.Config.Restart
import CoinRelay.Proofs.Relay.Received

/-! # The chain is transparent

What the last stage answers goes back through every stage before it. Each of them reads the outcome
that was written, and adds to a skipped one the request that it had handed on, under a key of its
own and only where a deeper stage has not used that key. -/

namespace CoinRelay

/-- The keys under which a stage and all behind it report, the last one first. -/
def Stage.requestKeys : Stage → List String
  | .submit => []
  | .rawEngine => ["sign_tx_request"]
  | .builder => ["sign_tx_request", "sign_request"]
  | .signer => ["sign_tx_request", "sign_request", "backend_request"]
  | .worker => ["sign_tx_request", "sign_request", "backend_request", "signer_request"]
  | .route => ["sign_tx_request", "sign_request", "backend_request", "signer_request",
    "worker_request"]

/-- The outcome with more reported, in order. -/
def Outcome.reporting (outcome : Outcome) (sent : Fields) : Outcome :=
  sent.foldl (fun o m => o.withPartial m.1 m.2) outcome

namespace Outcome

theorem reporting_executed (reason : String) (id : Option String) (hex : String) (sent : Fields) :
    (executed reason id hex).reporting sent = .executed reason id hex := by
  induction sent with
  | nil => rfl
  | cons m rest ih => exact ih

theorem forall_mem_withPartial {R : Json → Prop} {outcome : Outcome} {key : String} {value : Json}
    (h : ∀ m ∈ outcome.partials, R m.2) (hv : R value) :
    ∀ m ∈ (outcome.withPartial key value).partials, R m.2 := by
  cases outcome with
  | executed reason id hex => exact h
  | skipped reason id partials =>
    intro m hm
    rcases Fields.mem_insertIfNew hm with rfl | hm
    · exact hv
    · exact h m hm

/-- What was reported first stays. -/
theorem reporting_skipped (reason : String) (id : Option String) (partials sent : Fields) :
    ∃ all, (skipped reason id partials).reporting sent = .skipped reason id all ∧
      ∀ key, all.get? key = (partials.get? key).or (sent.get? key) := by
  induction sent generalizing partials with
  | nil => exact ⟨partials, rfl, fun key => by rw [Fields.get?_nil, Option.or_none]⟩
  | cons m rest ih =>
    obtain ⟨all, hall, hget⟩ := ih (partials.insertIfNew m.1 m.2)
    refine ⟨all, hall, fun key => ?_⟩
    rw [hget, Fields.get?_insertIfNew, Option.or_assoc, Fields.get?_cons, Fields.get?_cons,
      Fields.get?_nil]
    split <;> rfl

end Outcome

namespace Chain
open Handoff Surroundings
variable {config : Config} {files : Files} {program : String} {external : External}

/-! ## Answers within a chain -/

/-- The surroundings of a stage behind which stages may nest within a budget. -/
def within (config : Config) (files : Files) (program : String) (external : External)
    (budget : ℕ) : Surroundings :=
  ⟨config, files, delegate config files program external budget⟩

@[simp] theorem config_within (budget : ℕ) :
    (within config files program external budget).config = config := rfl

/-- A call of this program is answered with the text of an outcome. -/
theorem run_within {budget : ℕ} (call : Call) {stage : Stage} {request : Fields}
    (hp : call.command.program = program) (hs : stageOf? call.command = some stage)
    (hr : parseRequest? call.request.text = some request) (h : History) :
    ((within config files program external (budget + 1)).delegate call).run h =
      (parseReply (((within config files program external budget).run stage
        request).run h).1.wire,
        (((within config files program external budget).run stage request).run h).2) := by
  simp only [within, delegate, if_pos hp, hs, hr]
  rfl

theorem run_leaving {budget : ℕ} (call : Call) (hp : call.command.program ≠ program)
    (h : History) : ((within config files program external (budget + 1)).delegate call).run h =
      (external h.calls call, h) := by
  simp only [within, delegate, if_neg hp]
  rfl

/-- What answers a call within a chain: a stage of this program, or a program from outside. -/
theorem reply_of_within {budget : ℕ} {call : Call} {body : Fields} {h k : History}
    (hb : ((within config files program external budget).delegate call).run h = (.ok body, k)) :
    (call.command.program = program ∧ ∃ n stage request, budget = n + 1 ∧
      stageOf? call.command = some stage ∧ parseRequest? call.request.text = some request ∧
      parseReply (((within config files program external n).run stage request).run h).1.wire =
        .ok body ∧
      k = (((within config files program external n).run stage request).run h).2) ∨
    (call.command.program ≠ program ∧ external h.calls call = .ok body ∧ k = h) := by
  cases budget with
  | zero => cases hb
  | succ n =>
    by_cases hp : call.command.program = program
    · refine .inl ⟨hp, n, ?_⟩
      cases hs : stageOf? call.command with
      | none =>
        simp only [within, delegate, if_pos hp, hs] at hb
        cases hb
      | some stage =>
        cases hr : parseRequest? call.request.text with
        | none =>
          simp only [within, delegate, if_pos hp, hs, hr] at hb
          cases hb
        | some request =>
          rw [run_within call hp hs hr] at hb
          obtain ⟨hread, rfl⟩ := Prod.mk.inj hb
          exact ⟨stage, request, rfl, rfl, rfl, hread, rfl⟩
    · rw [run_leaving call hp] at hb
      obtain ⟨hanswer, rfl⟩ := Prod.mk.inj hb
      exact .inr ⟨hp, hanswer, rfl⟩

/-- What leaves the chain is answered without doubles. -/
def WholeAnswers (external : External) : Prop :=
  ∀ calls call body, external calls call = .ok body → (Json.obj body).Whole

theorem received_eq {fields received : Fields} (hf : fields.Holds Json.Whole)
    (hr : parseRequest? (Json.obj fields).text = some received) : received = fields := by
  obtain ⟨hcanonical, hexact⟩ := Json.whole_obj_iff.2 hf
  have hreread := rereadMembers?_of_parseRequest? hf.ascending hr
  rw [Json.rereadMembers?_of_steady hcanonical.2 (Json.ExactMembers.allDoubles hexact)] at hreread
  exact (Option.some.inj hreread).symm

/-- A clean outcome that fits is answered by its members, which stand for it under every tag. -/
theorem reply_of_clean {outcome : Outcome} (h : outcome.Clean Json.Whole)
    (hfits : (Json.obj outcome.members).depth ≤ Json.maxDepth) :
    ∃ body, parseReply outcome.wire = .ok body ∧ body.Holds Json.Whole ∧
      ∀ tag, Outcome.ofReply tag body = outcome := by
  have hmembers : ∀ m ∈ outcome.members, m.2.Whole :=
    (Outcome.forall_mem_members ⟨trivial, trivial⟩ fun _ => ⟨trivial, trivial⟩).2 h.values
  refine ⟨_, (h.mono fun _ hv => hv.1).parseReply_wire
    (fun m hm => (h.values m hm).2.allDoubles) hfits, ?_, h.ofReply_members⟩
  exact ⟨Fields.ascending_ofList _, fun m hm => hmembers m (Json.mem_ofList hm)⟩

theorem holds_of_parseReply {outcome : Outcome} (h : outcome.Clean Json.Whole) {body : Fields}
    (hb : parseReply outcome.wire = .ok body) : body.Holds Json.Whole := by
  by_cases hfits : (Json.obj outcome.members).depth ≤ Json.maxDepth
  · obtain ⟨_, hread, hholds, -⟩ := reply_of_clean h hfits
    cases hread.symm.trans hb
    exact hholds
  · rw [Outcome.wire, parseReply_text, if_neg hfits] at hb
    cases hb

/-- Whatever a stage of the chain sends without doubles is answered without doubles. -/
theorem answersOn_within (hexternal : WholeAnswers external) (budget : ℕ) (hop : Hop) :
    (within config files program external budget).AnswersOn hop Json.Whole Json.Whole := by
  -- on the budget: a stage is answered by stages with less of it, so its own outcome is clean
  induction budget using Nat.strongRecOn generalizing hop with
  | ind budget ih =>
    intro fields command h body hf hb
    rcases reply_of_within (Prod.ext hb rfl) with
      ⟨-, n, stage, received, hn, -, hr, hread, -⟩ | ⟨-, hanswer, -⟩
    · obtain rfl := received_eq hf hr
      have hclean : Outcome.Clean Json.Whole
          (((within config files program external n).run stage received).run h).1 :=
        clean_run written_whole (fun _ h => Json.whole_obj_iff.2 h) hf (ih n (by omega) _)
          (ih n (by omega)) stage h
      exact holds_of_parseReply hclean hread
    · exact Json.whole_obj_iff.1 (hexternal _ _ body hanswer)

theorem clean_within (hexternal : WholeAnswers external) (budget : ℕ) {request : Fields}
    (hr : request.Holds Json.Whole) (stage : Stage) (h : History) : Outcome.Clean Json.Whole
      (((within config files program external budget).run stage request).run h).1 :=
  clean_run written_whole (fun _ h => Json.whole_obj_iff.2 h) hr
    (answersOn_within hexternal budget _) (answersOn_within hexternal budget) stage h

/-! ## The way to the last stage -/

/-- A stage that is run on a request, with what happened before and the budget behind it. -/
structure Visit where
  stage : Stage
  request : Fields
  history : History
  budget : ℕ

/-- What a visit ends with. -/
def Visit.outcome (config : Config) (files : Files) (program : String) (external : External)
    (v : Visit) : Outcome :=
  (((within config files program external v.budget).run v.stage v.request).run v.history).1

/-- The history that a visit leaves. -/
def Visit.ending (config : Config) (files : Files) (program : String) (external : External)
    (v : Visit) : History :=
  (((within config files program external v.budget).run v.stage v.request).run v.history).2

/-- A stage before the last one hands fields on to a stage of this program. -/
inductive Enters (config : Config) (files : Files) (program : String) (external : External) :
    Visit → Fields → Visit → Prop where
  | mk {stage next : Stage} {request fields received : Fields} {h h' : History} {budget : ℕ}
      {hop : Hop} {command : CommandLine} (hstage : stage ≠ .submit)
      (hh : (within config files program external (budget + 1)).Hands request stage h hop fields h')
      (hc : config.resolve hop = .ok (some command)) (hp : command.program = program)
      (hs : stageOf? command = some next)
      (hr : parseRequest? (Json.obj fields).text = some received) :
    Enters config files program external ⟨stage, request, h, budget + 1⟩ fields
      ⟨next, received, h'.record ⟨hop, command, .obj fields, config.timeout⟩, budget⟩

/-- A handoff within the chain: the key under which it is reported, what was sent, and where it
led. -/
structure Handover where
  key : String
  sent : Fields
  entered : Visit

/-- The handoffs between two visits, the deepest one first. -/
inductive Leads (config : Config) (files : Files) (program : String) (external : External) :
    Visit → List Handover → Visit → Prop where
  | here (v : Visit) : Leads config files program external v [] v
  | step {v next last : Visit} {fields : Fields} {behind : List Handover}
      (he : Enters config files program external v fields next)
      (hl : Leads config files program external next behind last) :
    Leads config files program external v (behind ++ [⟨v.stage.requestKey, fields, next⟩]) last

/-- What the stages on the way report. -/
def reported (handovers : List Handover) : Fields := handovers.map fun o => (o.key, .obj o.sent)

section
variable {v next last : Visit} {fields : Fields} {handovers : List Handover}

theorem Enters.holds (hexternal : WholeAnswers external)
    (he : Enters config files program external v fields next) (hv : v.request.Holds Json.Whole) :
    fields.Holds Json.Whole ∧ next.request = fields := by
  cases he with
  | mk _ hh _ _ _ hr =>
    have hf := hh.holds written_whole hv (answersOn_within hexternal _ _)
    exact ⟨hf, received_eq hf hr⟩

/-- **One step back.** A stage takes the outcome of the next one for what it is, and reports its own
handoff beside it. -/
theorem Enters.outcome_eq (he : Enters config files program external v fields next)
    (hclean : (next.outcome config files program external).Clean Json.Whole)
    (hfits : (Json.obj (next.outcome config files program external).members).depth ≤
      Json.maxDepth) :
    v.outcome config files program external =
      (next.outcome config files program external).withPartial v.stage.requestKey
        (.obj fields) := by
  cases he with
  | @mk stage nextStage request fields received h h' budget hop command hstage hh hc hp hs hr =>
    unfold Visit.outcome at hclean hfits ⊢
    dsimp only at hclean hfits ⊢
    obtain ⟨body, hread, -, hmeans⟩ := reply_of_clean hclean hfits
    have hanswer : (((within config files program external (budget + 1)).invoke hop
        (.obj fields)).run h').1 = .ok body := by
      rw [run_invoke hc, config_within,
        run_within ⟨hop, command, .obj fields, config.timeout⟩ hp hs hr]
      dsimp only
      rw [hread]
      rfl
    rw [run_of_hands hh]
    dsimp only
    rw [hanswer, conclusion, hmeans hop.tag]
    cases stage with
    | submit => exact absurd rfl hstage
    | _ => rfl

/-- **The whole way back.** The outcome of the last visit comes back with what was handed on. -/
theorem Leads.outcome_eq (hexternal : WholeAnswers external)
    (hl : Leads config files program external v handovers last)
    (hv : v.request.Holds Json.Whole)
    (hfits : ∀ o ∈ handovers, (Json.obj (o.entered.outcome config files program
      external).members).depth ≤ Json.maxDepth) :
    v.outcome config files program external =
      (last.outcome config files program external).reporting (reported handovers) := by
  induction hl with
  | here v => rfl
  | @step v next last fields behind he _ ih =>
    obtain ⟨hf, hrequest⟩ := he.holds hexternal hv
    have hnext : next.request.Holds Json.Whole := hrequest ▸ hf
    have hbehind := ih hnext fun o ho => hfits o (List.mem_append_left _ ho)
    have hfit := hfits ⟨v.stage.requestKey, fields, next⟩ (by simp)
    rw [he.outcome_eq (clean_within hexternal _ hnext _ _) hfit, hbehind, reported, reported,
      List.map_append, Outcome.reporting, Outcome.reporting, List.foldl_append]
    rfl

/-! ### How the first visit ends -/

theorem outcome_surroundings (stage : Stage) (request : Fields) (h : History) :
    (((surroundings config files program external).run stage request).run h).1 =
      Visit.outcome config files program external ⟨stage, request, h, nesting⟩ := rfl

theorem ending_surroundings (stage : Stage) (request : Fields) (h : History) :
    (((surroundings config files program external).run stage request).run h).2 =
      Visit.ending config files program external ⟨stage, request, h, nesting⟩ := rfl

theorem Enters.ending_eq (he : Enters config files program external v fields next) :
    v.ending config files program external = next.ending config files program external := by
  cases he with
  | @mk stage nextStage request fields received h h' budget hop command _ hh hc hp hs hr =>
    unfold Visit.ending
    dsimp only
    rw [run_of_hands hh, run_invoke hc, config_within,
      run_within ⟨hop, command, .obj fields, config.timeout⟩ hp hs hr]

/-- The last visit leaves the history of all. -/
theorem Leads.ending_eq (hl : Leads config files program external v handovers last) :
    v.ending config files program external = last.ending config files program external := by
  induction hl with
  | here v => rfl
  | step he _ ih => exact he.ending_eq.trans ih

/-- A stage that hands on to a program from outside leaves this call behind. -/
theorem ending_of_leaving {stage : Stage} {request : Fields} {h h' : History} {budget : ℕ}
    {hop : Hop} {command : CommandLine}
    (hh : (within config files program external (budget + 1)).Hands request stage h hop fields h')
    (hc : config.resolve hop = .ok (some command)) (hp : command.program ≠ program) :
    Visit.ending config files program external ⟨stage, request, h, budget + 1⟩ =
      h'.record ⟨hop, command, .obj fields, config.timeout⟩ := by
  unfold Visit.ending
  dsimp only
  rw [run_of_hands hh, run_invoke hc, config_within,
    run_leaving ⟨hop, command, .obj fields, config.timeout⟩ hp]

/-! ### Which stages lie on the way -/

/-- Every hop that this program can answer stays in it. -/
structure BuiltInHops (config : Config) (program : String) : Prop where
  entry : config.entryPoint = some program
  hops : ∀ hop stage, hop.builtin? = some stage → config.commands hop = none

theorem stageOf?_stageArguments (config : Config) (program : String) (stage : Stage) :
    stageOf? ⟨program, config.stageArguments stage⟩ = some stage := by
  simp only [stageOf?, Config.stageArguments, List.getLast?_concat]
  cases stage <;> rfl

theorem BuiltInHops.resolve_eq (hb : BuiltInHops config program) {hop : Hop} {stage : Stage}
    (hhop : hop.builtin? = some stage) :
    config.resolve hop = .ok (some ⟨program, config.stageArguments stage⟩) :=
  Config.resolve_builtin (hb.hops hop stage hhop) hb.entry hhop

/-- A built-in hop leads to its own stage. -/
theorem BuiltInHops.next_eq (hb : BuiltInHops config program) {hop : Hop} {stage next : Stage}
    {command : CommandLine} (hhop : hop.builtin? = some stage)
    (hc : config.resolve hop = .ok (some command)) (hs : stageOf? command = some next) :
    next = stage := by
  rw [hb.resolve_eq hhop] at hc
  cases hc
  rw [stageOf?_stageArguments] at hs
  exact (Option.some.inj hs).symm

/-- Behind the route, a stage reports under the keys of the next stage and its own. -/
theorem Enters.requestKeys_eq (hb : BuiltInHops config program)
    (he : Enters config files program external v fields next) (hroute : v.stage ≠ .route) :
    v.stage.requestKeys = next.stage.requestKeys ++ [v.stage.requestKey] ∧
      next.stage ≠ .route := by
  cases he with
  | mk hstage hh hc _ hs _ =>
    cases hh with
    | route _ => exact absurd rfl hroute
    | submit _ => exact absurd rfl hstage
    | _ =>
      obtain rfl := hb.next_eq rfl hc hs
      exact ⟨rfl, nofun⟩

theorem Leads.keys_eq (hb : BuiltInHops config program)
    (hl : Leads config files program external v handovers last) (hlast : last.stage = .submit)
    (hroute : v.stage ≠ .route) : handovers.map Handover.key = v.stage.requestKeys := by
  induction hl with
  | here v =>
    rw [hlast]
    rfl
  | @step v next last fields behind he _ ih =>
    obtain ⟨hkeys, hnext⟩ := he.requestKeys_eq hb hroute
    rw [List.map_append, ih hlast hnext, hkeys]
    rfl

/-- The executor of a key source starts a stage of this program. -/
def Starts (config : Config) (program : String) (source : KeySource) (stage : Stage) : Prop :=
  ∃ command, config.resolve source.executor = .ok (some command) ∧ command.program = program ∧
    stageOf? command = some stage

theorem Starts.unique {source : KeySource} {stage stage' : Stage}
    (h : Starts config program source stage) (h' : Starts config program source stage') :
    stage = stage' := by
  obtain ⟨command, hc, -, hs⟩ := h
  obtain ⟨command', hc', -, hs'⟩ := h'
  cases hc.symm.trans hc'
  exact Option.some.inj (hs.symm.trans hs')

theorem BuiltInHops.starts_worker (hb : BuiltInHops config program) :
    Starts config program .chiaKeys .worker :=
  ⟨_, hb.resolve_eq rfl, rfl, stageOf?_stageArguments config program .worker⟩

/-- The route enters the stage that the executor of its key source starts, with a request for that
source. -/
theorem Enters.of_route (hexternal : WholeAnswers external)
    (he : Enters config files program external v fields next) (hstage : v.stage = .route)
    (hv : v.request.Holds Json.Whole) :
    ∃ source, KeySource.ofName? (v.request.text "selected_source") = some source ∧
      KeySource.ofName? (next.request.text "selected_source") = some source ∧
      Starts config program source next.stage := by
  obtain ⟨-, hrequest⟩ := he.holds hexternal hv
  cases he with
  | mk _ hh hc hp hs _ =>
    cases hh with
    | @route source _ _ hf =>
      obtain ⟨-, -, hsource, -⟩ := toExecutor_eq_ok.1 hf
      refine ⟨source, hsource, ?_, _, hc, hp, hs⟩
      have hget := (ascending_toExecutor hv.ascending hf).2
      dsimp only at hrequest ⊢
      rw [hrequest, Fields.text_of_get?_str hget (trimmed_name source), ofName?_name]
    | _ => cases hstage

/-- The worker and the signer hand on nothing but requests for the keyring. -/
theorem Enters.ofName?_of_keyring (he : Enters config files program external v fields next)
    (hstage : v.stage = .worker ∨ v.stage = .signer) :
    KeySource.ofName? (v.request.text "selected_source") = some .chiaKeys := by
  cases he with
  | mk _ hh _ _ _ _ =>
    cases hh with
    | worker hf =>
      obtain ⟨-, -, hsource, -⟩ := toSigner_eq_ok.1 hf
      exact hsource
    | signer hf => exact (toBackend_eq_ok.1 hf).1
    | _ => simp at hstage

theorem Leads.ofName?_of_keyring (hl : Leads config files program external v handovers last)
    (hlast : last.stage = .submit) (hstage : v.stage = .worker ∨ v.stage = .signer) :
    KeySource.ofName? (v.request.text "selected_source") = some .chiaKeys := by
  cases hl with
  | here v => simp [hlast] at hstage
  | step he _ => exact he.ofName?_of_keyring hstage

/-- **The keys of a route.** A route that gets as far as the last stage enters the worker for the
keyring, and for another source a stage behind the signer. The keys are those of the stage that it
enters, and its own. -/
theorem Leads.keys_of_route (hb : BuiltInHops config program) (hexternal : WholeAnswers external)
    (hl : Leads config files program external v handovers last) (hlast : last.stage = .submit)
    (hroute : v.stage = .route) (hv : v.request.Holds Json.Whole) :
    ∃ source stage, KeySource.ofName? (v.request.text "selected_source") = some source ∧
      Starts config program source stage ∧
      (source = .chiaKeys ∧ stage = .worker ∨
        source ≠ .chiaKeys ∧ stage ∈ [.builder, .rawEngine, .submit]) ∧
      handovers.map Handover.key = stage.requestKeys ++ ["worker_request"] := by
  induction hl with
  | here v =>
    rw [hroute] at hlast
    cases hlast
  | @step v next last fields behind he hl ih =>
    obtain ⟨source, hsource, hforwarded, hstarts⟩ := he.of_route hexternal hroute hv
    obtain ⟨hf, hrequest⟩ := he.holds hexternal hv
    -- a route that starts a route passes the same source on, and never gets any further
    have hleaves : next.stage ≠ .route := by
      intro hagain
      obtain ⟨source', stage, hsource', hstarts', hstage, -⟩ :=
        ih hlast hagain (hrequest ▸ hf)
      cases hforwarded.symm.trans hsource'
      rw [hstarts'.unique hstarts, hagain] at hstage
      simp at hstage
    refine ⟨source, next.stage, hsource, hstarts, ?_, ?_⟩
    · by_cases hkeyring : source = .chiaKeys
      · rw [hkeyring] at hstarts
        exact .inl ⟨hkeyring, hstarts.unique hb.starts_worker⟩
      · have hrefused : ¬ (next.stage = .worker ∨ next.stage = .signer) := by
          intro hstage
          have hnamed := hl.ofName?_of_keyring hlast hstage
          exact hkeyring (Option.some.inj (hforwarded.symm.trans hnamed))
        refine .inr ⟨hkeyring, ?_⟩
        cases hstage : next.stage with
        | route => exact absurd hstage hleaves
        | worker => exact absurd (.inl hstage) hrefused
        | signer => exact absurd (.inr hstage) hrefused
        | _ => simp
    · rw [List.map_append, hl.keys_eq hb hlast hleaves, List.map_singleton, hroute]
      rfl

/-- **The chain is transparent.** Where a route request gets as far as the last stage and no outcome
on the way nests too deep, an executed outcome of the last stage is the outcome of the route. A
skipped one comes back with its own report, and beside it the handoffs of all stages on the way,
each under the stage's key unless that key is taken. For a key of the keyring these are all five.
For another source the executor may start a stage behind the signer, and then they are the keys of
that stage and the route's. -/
theorem route_transparent (hb : BuiltInHops config program) (hexternal : WholeAnswers external)
    {request : Fields} (hr : (Json.obj request).Whole) {h : History}
    (hl : Leads config files program external ⟨.route, request, h, nesting⟩ handovers last)
    (hlast : last.stage = .submit)
    (hfits : ∀ o ∈ handovers, (Json.obj (o.entered.outcome config files program
      external).members).depth ≤ Json.maxDepth) :
    let outcome := (((surroundings config files program external).run .route request).run h).1
    (∀ reason id hex, last.outcome config files program external = .executed reason id hex →
      outcome = .executed reason id hex) ∧
    (∀ reason id partials,
      last.outcome config files program external = .skipped reason id partials →
        ∃ all, outcome = .skipped reason id all ∧ all.Ascending ∧
          ∀ key, all.get? key = (partials.get? key).or ((reported handovers).get? key)) ∧
    (∃ source stage, KeySource.ofName? (request.text "selected_source") = some source ∧
      Starts config program source stage ∧
      (source = .chiaKeys ∧ stage = .worker ∨
        source ≠ .chiaKeys ∧ stage ∈ [.builder, .rawEngine, .submit]) ∧
      handovers.map Handover.key = stage.requestKeys ++ ["worker_request"]) ∧
    (request.text "selected_source" = "chia_keys" → handovers.map Handover.key =
      ["sign_tx_request", "sign_request", "backend_request", "signer_request",
        "worker_request"]) := by
  intro outcome
  have hrequest := Json.whole_obj_iff.1 hr
  have heq : outcome =
      (last.outcome config files program external).reporting (reported handovers) :=
    hl.outcome_eq hexternal hrequest hfits
  have hkeys := hl.keys_of_route hb hexternal hlast rfl hrequest
  refine ⟨fun reason id hex hexecuted => ?_, fun reason id partials hskipped => ?_, hkeys,
    fun hnamed => ?_⟩
  · rw [heq, hexecuted]
    exact Outcome.reporting_executed reason id hex _
  · obtain ⟨all, hall, hget⟩ := Outcome.reporting_skipped reason id partials (reported handovers)
    have houtcome : outcome = .skipped reason id all := by rw [heq, hskipped, hall]
    have hclean : outcome.Clean Json.Whole := clean_within hexternal nesting hrequest .route h
    rw [houtcome] at hclean
    exact ⟨all, houtcome, hclean.ascending, hget⟩
  · obtain ⟨source, stage, hsource, -, hstage, hkeys⟩ := hkeys
    dsimp only at hsource
    rw [hnamed] at hsource
    obtain rfl := Option.some.inj (hsource.symm.trans (ofName?_name .chiaKeys))
    obtain ⟨-, rfl⟩ | ⟨hother, -⟩ := hstage
    · exact hkeys
    · exact absurd rfl hother

/-! ### A way that is short enough -/

/-- Outcomes fit on the whole way if the last one does and the handoffs leave room for one more
container. -/
theorem Leads.fits (hexternal : WholeAnswers external)
    (hl : Leads config files program external v handovers last)
    (hv : v.request.Holds Json.Whole)
    (hlast : ∀ m ∈ (last.outcome config files program external).partials,
      m.2.depth < Json.maxDepth)
    (hsent : ∀ o ∈ handovers, (Json.obj o.sent).depth < Json.maxDepth) :
    (∀ m ∈ (v.outcome config files program external).partials, m.2.depth < Json.maxDepth) ∧
      ∀ o ∈ handovers, (Json.obj (o.entered.outcome config files program
        external).members).depth ≤ Json.maxDepth := by
  induction hl with
  | here v => exact ⟨hlast, nofun⟩
  | @step v next last fields behind he _ ih =>
    obtain ⟨hf, hrequest⟩ := he.holds hexternal hv
    have hnext : next.request.Holds Json.Whole := hrequest ▸ hf
    obtain ⟨hpartials, hbehind⟩ :=
      ih hnext hlast fun o ho => hsent o (List.mem_append_left _ ho)
    have hfit := Outcome.depth_members_le.2 hpartials
    constructor
    · rw [he.outcome_eq (clean_within hexternal _ hnext _ _) hfit]
      exact Outcome.forall_mem_withPartial (R := fun v => v.depth < Json.maxDepth) hpartials
        (hsent ⟨v.stage.requestKey, fields, next⟩ (by simp))
    · intro o ho
      rcases List.mem_append.1 ho with ho | ho
      · exact hbehind o ho
      · rw [List.mem_singleton.1 ho]
        exact hfit

theorem enters_of_hands (hb : BuiltInHops config program) {stage next : Stage} {hop : Hop}
    (hhop : hop.builtin? = some next) {request : Fields} {h h' : History} {budget : ℕ}
    (hh : (within config files program external (budget + 1)).Hands request stage h hop fields h')
    (hf : fields.Holds Plain) :
    ∃ k, Enters config files program external ⟨stage, request, h, budget + 1⟩ fields
      ⟨next, fields, k, budget⟩ := by
  obtain ⟨⟨hcanonical, hexact⟩, hdepth⟩ := holds_plain_iff.1 hf
  have hstage : stage ≠ .submit := by
    rintro rfl
    cases hh
    cases hhop
  exact ⟨_, .mk hstage hh (hb.resolve_eq hhop) rfl (stageOf?_stageArguments config program next)
    (parseRequest?_text_of_exact hcanonical hexact (hdepth.trans (by decide)))⟩

end

/-! ### A route that ends with a busy signer -/

/-- Only the hops that this program cannot answer have commands. -/
def outerConfig : Config where
  commands
    | .coinSelector => some "coin-selector"
    | .signSubmit => some "sign-submit"
    | _ => none
  entryPoint := some "coin-ops"

/-- One coin is there, and the signer is busy. -/
def outside : External := fun _ call => .ok (stockedReply call)

/-- A request to split two outputs of 10 off with a key of the keyring. -/
def Keyring.request : Fields := [
  ("asset_id", .str "xch"),
  ("key_id", .str "key-main-1"),
  ("network", .str "testnet11"),
  ("plan", .obj [("op_count", .ofUInt64 2), ("op_type", .str "split"),
    ("size_base_units", .ofUInt64 10)]),
  ("receive_address", .str "xch1receive"),
  ("selected_source", .str "chia_keys"),
  ("signer_selection", .obj [("key_id", .str "key-main-1"),
    ("keyring_yaml_path", .str "keyring.yaml")])]

namespace Keyring

def plan : Plan := ⟨.split, 10, 2, 20, ""⟩

def job : Job := ⟨⟨"key-main-1", "testnet11", "xch1receive", "keyring.yaml", "xch"⟩, "", plan⟩

def coins : Selection := ⟨[.obj [("amount", .ofUInt64 50)]], by simp⟩

/-- What the worker, the signer, the builder and the engine hand on. -/
def toSigner : Fields := [
  ("asset_id", .str "xch"),
  ("chia_keys_dir", .str ""),
  ("key_id", .str "key-main-1"),
  ("keyring_yaml_path", .str "keyring.yaml"),
  ("market_id", .str ""),
  ("network", .str "testnet11"),
  ("plan", plan.toJson),
  ("receive_address", .str "xch1receive"),
  ("selected_source", .str "chia_keys")]

def toBackend : Fields := signingFields job.identity "" plan.toJson

def toBundleSigner : Fields := toBackend ++ [("selected_coins", coins.toJson)]

def toSubmission : Fields := job.submission coins ⟨50, 20, by decide⟩

theorem holds_request : request.Holds Plain := by
  have hrequest : request.Ascending := Fields.ascending_of_keys rfl (by decide)
  have hplan : Fields.Ascending [("op_count", .ofUInt64 2), ("op_type", .str "split"),
      ("size_base_units", .ofUInt64 10)] := Fields.ascending_of_keys rfl (by decide)
  have hsigner : Fields.Ascending [("key_id", .str "key-main-1"),
      ("keyring_yaml_path", .str "keyring.yaml")] :=
    Fields.ascending_of_keys rfl (by decide)
  refine holds_plain_iff.2 ⟨Json.whole_obj_iff.2 ⟨hrequest, ?_⟩, by decide⟩
  simp [request, Json.whole_obj_iff, Fields.holds_iff, hplan, hsigner]

theorem holds_toSigner : toSigner.Holds Plain :=
  CoinRelay.holds_toSigner written_plain (show Handoff.toSigner anywhere request = _ from rfl)

theorem holds_toBackend : toBackend.Holds Plain :=
  CoinRelay.holds_toBackend written_plain (show Handoff.toBackend anywhere toSigner = _ from rfl)

theorem holds_toBundleSigner : toBundleSigner.Holds Plain :=
  CoinRelay.holds_toBundleSigner written_plain
    (holds_coinReply.of_get? (show coinReply.get? "coins" = _ from rfl))
    (show Handoff.toBundleSigner job coins = _ from rfl)

theorem holds_toSubmission : toSubmission.Holds Plain :=
  CoinRelay.holds_toSubmission written_plain holds_toBundleSigner
    (show Handoff.toSubmission anywhere toBundleSigner = _ from rfl)

/-- The builder finds the coin. -/
theorem run_coinsFor (budget : ℕ) (h : History) : ∃ k,
    ((within outerConfig anywhere "coin-ops" outside (budget + 1)).coinsFor toBackend job).run h =
      (.ok coins, k) := by
  have hno : Selection.ofJson? (toBackend.get? "selected_coins") = none := rfl
  have hc : outerConfig.resolve .coinSelector = .ok (some ⟨"coin-selector", []⟩) := rfl
  rw [Surroundings.run_coinsFor hno, run_invoke hc, config_within, run_leaving _ (by decide)]
  exact ⟨_, rfl⟩

theorem builtInHops_outerConfig : BuiltInHops outerConfig "coin-ops" where
  entry := rfl
  hops := by
    intro hop stage h
    cases hop <;> cases h <;> rfl

/-- The request gets as far as the last stage. -/
theorem leads : ∃ handovers k, Leads outerConfig anywhere "coin-ops" outside
    ⟨.route, request, {}, nesting⟩ handovers ⟨.submit, toSubmission, k, 59⟩ ∧
      reported handovers = [("sign_tx_request", .obj toSubmission),
        ("sign_request", .obj toBundleSigner), ("backend_request", .obj toBackend),
        ("signer_request", .obj toSigner), ("worker_request", .obj request)] ∧
      ∀ o ∈ handovers, o.sent.Holds Plain := by
  have hb := builtInHops_outerConfig
  obtain ⟨k₁, e₁⟩ : ∃ k, Enters outerConfig anywhere "coin-ops" outside
      ⟨.route, request, {}, 63 + 1⟩ request ⟨.worker, request, k, 63⟩ :=
    enters_of_hands hb rfl (.route rfl) holds_request
  obtain ⟨k₂, e₂⟩ : ∃ k, Enters outerConfig anywhere "coin-ops" outside
      ⟨.worker, request, k₁, 62 + 1⟩ toSigner ⟨.signer, toSigner, k, 62⟩ :=
    enters_of_hands hb rfl (.worker rfl) holds_toSigner
  obtain ⟨k₃, e₃⟩ : ∃ k, Enters outerConfig anywhere "coin-ops" outside
      ⟨.signer, toSigner, k₂, 61 + 1⟩ toBackend ⟨.builder, toBackend, k, 61⟩ :=
    enters_of_hands hb rfl (.signer rfl) holds_toBackend
  obtain ⟨k, hcoins⟩ := run_coinsFor 60 k₃
  obtain ⟨k₄, e₄⟩ : ∃ k, Enters outerConfig anywhere "coin-ops" outside
      ⟨.builder, toBackend, k₃, 60 + 1⟩ toBundleSigner ⟨.rawEngine, toBundleSigner, k, 60⟩ :=
    enters_of_hands hb rfl (.builder rfl hcoins rfl) holds_toBundleSigner
  obtain ⟨k₅, e₅⟩ : ∃ k, Enters outerConfig anywhere "coin-ops" outside
      ⟨.rawEngine, toBundleSigner, k₄, 59 + 1⟩ toSubmission ⟨.submit, toSubmission, k, 59⟩ :=
    enters_of_hands hb rfl (.rawEngine rfl) holds_toSubmission
  refine ⟨_, k₅, .step e₁ (.step e₂ (.step e₃ (.step e₄ (.step e₅ (.here _))))), rfl, ?_⟩
  simp [holds_toSubmission, holds_toBundleSigner, holds_toBackend, holds_toSigner, holds_request]

/-- The route ends with a call for signing. -/
theorem exists_signSubmit_call : ∃ call ∈ (((surroundings outerConfig anywhere "coin-ops"
    outside).run .route request).run {}).2.calls, call.hop = .signSubmit := by
  obtain ⟨_, k, hl, -⟩ := leads
  obtain ⟨fields, hf⟩ : ∃ fields, toSignSubmit anywhere toSubmission = .ok fields := ⟨_, rfl⟩
  have hh : (within outerConfig anywhere "coin-ops" outside (58 + 1)).Hands toSubmission .submit k
      .signSubmit fields k := .submit hf
  have hc : outerConfig.resolve .signSubmit = .ok (some ⟨"sign-submit", []⟩) := rfl
  have hleaves : "sign-submit" ≠ "coin-ops" := by decide
  rw [ending_surroundings, hl.ending_eq, ending_of_leaving hh hc hleaves]
  exact ⟨_, List.mem_concat_self, rfl⟩

end Keyring

theorem wholeAnswers_outside : WholeAnswers outside := by
  intro calls call body hb
  cases hb
  exact (holds_plain_iff.1 (holds_stockedReply call)).1

theorem depth_lt_of_plain {fields : Fields} (h : fields.Holds Plain) :
    (Json.obj fields).depth < Json.maxDepth :=
  Nat.lt_of_le_of_lt (holds_plain_iff.1 h).2 (by decide)

/-- What the last stage reports of a busy signer. -/
def busyReport (sent : Fields) : Fields :=
  Fields.insertIfNew [("queue", .arr [.ofUInt64 3])] "submit_request" (.obj sent)

theorem outcome_of_busy_signer {request sent : Fields}
    (hf : toSignSubmit anywhere request = .ok sent)
    (hc : config.resolve .signSubmit = .ok (some ⟨"sign-submit", []⟩)) (k : History)
    (budget : ℕ) : Visit.outcome config anywhere "coin-ops" outside
      ⟨.submit, request, k, budget + 1⟩ = .skipped "busy" none (busyReport sent) := by
  have hh : (within config anywhere "coin-ops" outside (budget + 1)).Hands request .submit k
      .signSubmit sent k := .submit hf
  have hleaves : "sign-submit" ≠ "coin-ops" := by decide
  rw [Visit.outcome, run_of_hands hh, run_invoke hc, config_within, run_leaving _ hleaves]
  rfl

theorem depth_busyReport {sent : Fields} (hs : sent.Holds Plain) :
    ∀ m ∈ busyReport sent, m.2.depth < Json.maxDepth := by
  intro m hm
  rcases Fields.mem_insertIfNew hm with rfl | hm
  · exact depth_lt_of_plain hs
  · rw [List.mem_singleton.1 hm]
    decide

theorem route_transparent_of_busy_signer :
    ∃ all, (((surroundings outerConfig anywhere "coin-ops" outside).run .route
        Keyring.request).run {}).1 = .skipped "busy" none all ∧
      all.get? "queue" = some (.arr [.ofUInt64 3]) ∧
      all.get? "worker_request" = some (.obj Keyring.request) := by
  obtain ⟨handovers, k, hl, hreported, hsent⟩ := Keyring.leads
  obtain ⟨sent, hf⟩ : ∃ sent, toSignSubmit anywhere Keyring.toSubmission = .ok sent := ⟨_, rfl⟩
  have hlast := outcome_of_busy_signer hf (show outerConfig.resolve .signSubmit = _ from rfl) k 58
  have hplain : sent.Holds Plain := holds_toSignSubmit written_plain Keyring.holds_toSubmission hf
  have hrequest := (holds_plain_iff.1 Keyring.holds_request).1
  have hfits := hl.fits wholeAnswers_outside (Json.whole_obj_iff.1 hrequest)
    (by rw [hlast]; exact depth_busyReport hplain)
    fun o ho => depth_lt_of_plain (hsent o ho)
  have htransparent := route_transparent Keyring.builtInHops_outerConfig wholeAnswers_outside
    hrequest hl rfl hfits.2
  obtain ⟨all, hall, -, hget⟩ := htransparent.2.1 _ _ _ hlast
  refine ⟨all, hall, ?_, ?_⟩
  · rw [hget, busyReport, Fields.get?_insertIfNew]
    rfl
  · rw [hget, busyReport, Fields.get?_insertIfNew, hreported]
    rfl

/-! ### A route that passes the keyring by -/

/-- The executor of a mnemonic may be the last stage itself. -/
def shortcutConfig : Config where
  commands
    | .mnemonicExecutor => some "coin-ops submit"
    | .signSubmit => some "sign-submit"
    | _ => none
  entryPoint := some "coin-ops"

theorem builtInHops_shortcutConfig : BuiltInHops shortcutConfig "coin-ops" where
  entry := rfl
  hops := by
    intro hop stage h
    cases hop <;> cases h <;> rfl

/-- A request with its own additions, for a key that the program does not hold. -/
def spendRequest : Fields := [
  ("additions", additionsJson [⟨"xch1receive", 1⟩]),
  ("asset_id", .str "xch"),
  ("key_id", .str "key-main-1"),
  ("keyring_yaml_path", .str "keyring.yaml"),
  ("network", .str "testnet11"),
  ("plan", Plan.toJson ⟨.split, 10, 2, 20, "low"⟩),
  ("receive_address", .str "xch1receive"),
  ("selected_coins", .arr [.obj [("amount", .ofUInt64 50)]]),
  ("selected_source", .str "mnemonic_import")]

theorem canonical_spendRequest : (Json.obj spendRequest).Canonical := by
  have hcoin : Fields.Ascending [("amount", .ofUInt64 50)] :=
    Fields.ascending_of_keys rfl (by decide)
  refine ⟨Fields.ascending_of_keys rfl (by decide), ?_⟩
  simp [spendRequest, additionsJson, Json.CanonicalMembers, Json.CanonicalItems, Json.Canonical,
    Json.ofUInt64, Output.canonical_toJson, Plan.canonical_toJson]
  exact hcoin

theorem exact_spendRequest : (Json.obj spendRequest).Exact := by
  simp [spendRequest, additionsJson, Json.Exact, Json.ExactMembers, Json.ExactItems, Json.ofUInt64,
    Output.toJson, Plan.exact_toJson]

theorem holds_spendRequest : spendRequest.Holds Plain :=
  holds_plain_iff.2 ⟨⟨canonical_spendRequest, exact_spendRequest⟩, by decide⟩

/-- From the route the request goes to the last stage at once, as it is. -/
theorem leads_of_shortcut : ∃ k, Leads shortcutConfig anywhere "coin-ops" outside
    ⟨.route, spendRequest, {}, nesting⟩
    [⟨"worker_request", spendRequest, ⟨.submit, spendRequest, k, 63⟩⟩]
    ⟨.submit, spendRequest, k, 63⟩ := by
  have hroute : toExecutor spendRequest = .ok (.mnemonicImport, spendRequest) := rfl
  have hreceived := parseRequest?_text_of_exact canonical_spendRequest exact_spendRequest
    (by decide)
  obtain ⟨k, he⟩ : ∃ k, Enters shortcutConfig anywhere "coin-ops" outside
      ⟨.route, spendRequest, {}, 63 + 1⟩ spendRequest ⟨.submit, spendRequest, k, 63⟩ :=
    ⟨_, .mk nofun (.route hroute) rfl rfl rfl hreceived⟩
  exact ⟨k, .step he (.here _)⟩

/-- An executor that starts the last stage leaves out the handoffs of the stages between. -/
theorem handoffs_missing_of_shortcut :
    ¬ ∀ (config : Config) (files : Files) (program : String) (external : External)
        (request : Fields) (h : History) (handovers : List Handover) (last : Visit),
      BuiltInHops config program → WholeAnswers external → (Json.obj request).Whole →
      Leads config files program external ⟨.route, request, h, nesting⟩ handovers last →
      last.stage = .submit →
      (∀ o ∈ handovers, (Json.obj (o.entered.outcome config files program
        external).members).depth ≤ Json.maxDepth) →
      ∀ reason id partials,
        last.outcome config files program external = .skipped reason id partials →
        ∃ all, (((surroundings config files program external).run .route request).run h).1 =
            .skipped reason id all ∧
          ∀ key ∈ ["sign_tx_request", "sign_request", "backend_request", "signer_request",
            "worker_request"], ∃ sent, all.get? key = some sent := by
  intro hclaim
  obtain ⟨k, hl⟩ := leads_of_shortcut
  obtain ⟨sent, hf⟩ : ∃ sent, toSignSubmit anywhere spendRequest = .ok sent := ⟨_, rfl⟩
  have hlast := outcome_of_busy_signer hf (show shortcutConfig.resolve .signSubmit = _ from rfl)
    k 62
  have hplain : sent.Holds Plain := holds_toSignSubmit written_plain holds_spendRequest hf
  have hrequest := (holds_plain_iff.1 holds_spendRequest).1
  have hfits := (hl.fits wholeAnswers_outside (Json.whole_obj_iff.1 hrequest)
    (by rw [hlast]; exact depth_busyReport hplain)
    (List.forall_mem_singleton.2 (depth_lt_of_plain holds_spendRequest))).2
  obtain ⟨all, hall, hkeys⟩ := hclaim _ _ _ _ _ _ _ _ builtInHops_shortcutConfig
    wholeAnswers_outside hrequest hl rfl hfits _ _ _ hlast
  have houtcome := hl.outcome_eq wholeAnswers_outside (Json.whole_obj_iff.1 hrequest) hfits
  rw [hlast] at houtcome
  rw [outcome_surroundings] at hall
  -- beside the report of the last stage there is nothing but the handoff of the route
  obtain ⟨missing, hmissing⟩ := hkeys "sign_tx_request" (by simp)
  obtain ⟨told, htold, hget⟩ := Outcome.reporting_skipped "busy" none (busyReport sent)
    (reported [⟨"worker_request", spendRequest, ⟨.submit, spendRequest, k, 63⟩⟩])
  cases hall.symm.trans (houtcome.trans htold)
  rw [hget, busyReport, Fields.get?_insertIfNew] at hmissing
  cases hmissing

end Chain

end CoinRelay
