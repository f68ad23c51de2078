import CoinRelay.Proofs.Chain.Transparency
import CoinRelay.Proofs.Handoff.Coins

/-! # Conservation of value along the chain

Between the first stage and the signer every request passes as text, and each stage reads the plan
anew. Still the additions that are sent for signing are the outputs of the plan and the change of
the coins beside them, whatever target the first request named: the worker derives it, and no later
stage can lose it. -/

namespace CoinRelay
open Text

/-- The outputs of a plan and the change beside them, if there is any, all to one address. -/
def Plan.outputs (plan : Plan) (change : Amount) (address : String) : List Output :=
  List.replicate plan.count.toNat ⟨address, plan.size⟩ ++
    (if change = 0 then [] else [⟨address, change⟩])

theorem Plan.address_of_mem_outputs (plan : Plan) {change : Amount} {address : String} {o : Output}
    (h : o ∈ plan.outputs change address) : o.address = address := by
  unfold Plan.outputs at h
  rcases List.mem_append.1 h with h | h
  · rw [List.eq_of_mem_replicate h]
  · split at h
    · cases h
    · rw [List.mem_singleton.1 h]

namespace Handoff

/-- The additions of a request are the outputs of its plan and the change of its coins. -/
structure Conserves (request : Fields) (plan : Plan) (address : String) (change : Amount)
    (selection : Selection) : Prop where
  hasPlan : request.get? "plan" = some plan.toJson
  hasAddress : request.get? "receive_address" = some (.str address)
  hasCoins : request.get? "selected_coins" = some selection.toJson
  hasAdditions : request.get? "additions" = some (additionsJson (plan.outputs change address))
  derived : plan.TargetDerived
  total : Output.exactTotal (plan.outputs change address) = min selection.exactTotal Amount.top

/-- What a request must have beside, so that the next stage finds the same. -/
structure Tracked (request : Fields) (plan : Plan) (address : String) (change : Amount)
    (selection : Selection) : Prop extends Conserves request plan address change selection where
  valid : plan.Valid
  trimmed : Trimmed address.toList
  canonical : ∀ coin ∈ selection.coins, coin.Canonical
  settled : ∀ coin ∈ selection.coins, coin.Settled

/-- The coins of the request were read from text. -/
def SettledCoins (request : Fields) : Prop :=
  ∀ selection, requestCoins request = .ok selection → ∀ coin ∈ selection.coins, coin.Settled

theorem settledCoins_of_parseRequest? {fields received : Fields} (ha : fields.Ascending)
    (hr : parseRequest? (Json.obj fields).text = some received) : SettledCoins received := by
  intro selection hs coin hcoin
  have hget := requestCoins_eq_ok.1 hs
  rw [get?_of_parseRequest? ha hr, Option.bind_eq_some_iff] at hget
  obtain ⟨v, -, hv⟩ := hget
  obtain ⟨items, hitems⟩ := Json.exists_rereadItems?_of_arr hv
  obtain ⟨sent, -, hsent⟩ := exists_of_forall₂ (Json.rereadItems?_eq_some.1 hitems) hcoin
  exact Json.settled_of_reread? hsent

/-- The engine conserves what it is given, if the target of its plan is derived. -/
theorem tracked_of_toSubmission {files : Files} {request fields : Fields}
    (hd : PlanDerived .required request) (hcanonical : ∀ m ∈ request, m.2.Canonical)
    (hsettled : SettledCoins request) (h : toSubmission files request = .ok fields) :
    ∃ plan address change selection, Tracked fields plan address change selection := by
  obtain ⟨job, selection, resolved, hj, hs, hr, rfl⟩ := toSubmission_eq_ok.1 h
  obtain ⟨hi, hp, -⟩ := Job.parse_eq_ok.1 hj
  have hderived := hd job.plan hp
  have houtputs : job.outputs resolved =
      job.plan.outputs resolved.change job.identity.receiveAddress := job.outputs_eq resolved
  refine ⟨job.plan, job.identity.receiveAddress, resolved.change, selection, {
    hasPlan := job.get?_plan ..
    hasAddress := ?_
    hasCoins := job.get?_coins ..
    hasAdditions := ?_
    derived := hderived
    total := ?_
    valid := Plan.valid_of_parse hp
    trimmed := (Identity.valid_of_parse hi).trimmed _ (by simp)
    canonical := ?_
    settled := hsettled selection hs }⟩
  · exact job.get?_identity selection resolved ("receive_address", .str job.identity.receiveAddress)
      (by simp [Identity.toFields])
  · rw [← houtputs]
    exact job.get?_additions ..
  · rw [← houtputs, ← Selection.toNat_total]
    exact Job.exactTotal_outputs_of_derived hr hderived
  · have hget := requestCoins_eq_ok.1 hs
    have hmem := hcanonical _ (Fields.mem_of_get? hget)
    exact Json.canonicalItems_iff.1 hmem

/-- The next stage receives coins of the same amounts, if these were read from text before. -/
theorem exists_coins_of_parseRequest? {fields received : Fields} {selection : Selection}
    (ha : fields.Ascending) (hr : parseRequest? (Json.obj fields).text = some received)
    (hget : fields.get? "selected_coins" = some selection.toJson)
    (hcanonical : ∀ coin ∈ selection.coins, coin.Canonical)
    (hsettled : ∀ coin ∈ selection.coins, coin.Settled) :
    ∃ again : Selection, received.get? "selected_coins" = some again.toJson ∧
      again.exactTotal = selection.exactTotal ∧ (∀ coin ∈ again.coins, coin.Canonical) ∧
      ∀ coin ∈ again.coins, coin.Settled := by
  obtain ⟨w, hw⟩ := Json.exists_reread?_of_get? (rereadMembers?_of_parseRequest? ha hr) hget
  obtain ⟨items, hitems, rfl⟩ := Option.map_eq_some_iff.1 hw
  have hall := Json.rereadItems?_eq_some.1 hitems
  have hne : items ≠ [] := by
    rintro rfl
    exact selection.nonempty (List.forall₂_nil_right_iff.1 hall)
  refine ⟨⟨items, hne⟩, ?_, ?_, ?_, ?_⟩
  · rw [get?_of_parseRequest? ha hr, hget]
    exact hw
  · have hworth := Json.map_worth_rereadItems? hitems hcanonical hsettled
    rw [Selection.exactTotal_eq_worth, hworth, ← Selection.exactTotal_eq_worth]
  · intro coin hcoin
    obtain ⟨sent, -, hsent⟩ := exists_of_forall₂ hall hcoin
    exact Json.canonical_reread? hsent
  · intro coin hcoin
    obtain ⟨sent, -, hsent⟩ := exists_of_forall₂ hall hcoin
    exact Json.settled_of_reread? hsent

/-- The next stage receives the same plan, address and additions, and coins of the same amounts. -/
theorem Tracked.received {fields received : Fields} {plan : Plan} {address : String}
    {change : Amount} {selection : Selection} (h : Tracked fields plan address change selection)
    (ha : fields.Ascending) (hr : parseRequest? (Json.obj fields).text = some received) :
    ∃ again, Tracked received plan address change again := by
  obtain ⟨again, hcoins, htotal, hcanonical, hsettled⟩ :=
    exists_coins_of_parseRequest? ha hr h.hasCoins h.canonical h.settled
  exact ⟨again, {
    hasPlan := get?_of_parseRequest?_of_steady ha hr plan.reread?_toJson h.hasPlan
    hasAddress := get?_of_parseRequest?_of_steady ha hr rfl h.hasAddress
    hasCoins := hcoins
    hasAdditions := get?_of_parseRequest?_of_steady ha hr (reread?_additionsJson _) h.hasAdditions
    derived := h.derived
    total := by rw [htotal]; exact h.total
    valid := h.valid
    trimmed := h.trimmed
    canonical := hcanonical
    settled := hsettled }⟩

/-- The last stage hands on what it is given. -/
theorem Tracked.signSubmit {files : Files} {request fields : Fields} {plan : Plan}
    {address : String} {change : Amount} {selection : Selection}
    (h : Tracked request plan address change selection)
    (hf : toSignSubmit files request = .ok fields) :
    fields.Ascending ∧ Tracked fields plan address change selection := by
  obtain ⟨identity, additions, coins, hi, ha, hs, -, rfl⟩ := toSignSubmit_eq_ok.1 hf
  refine ⟨ascending_signSubmission .., ?_⟩
  have haddress : identity.receiveAddress = address := by
    rw [(Identity.parse_eq_ok.1 hi).2.2.1]
    exact Fields.text_of_get?_str h.hasAddress h.trimmed
  have hadditions : additions = plan.outputs change address := by
    refine eq_of_parseAdditions_additionsJson h.hasAdditions (fun o ho => ?_) ha
    rw [plan.address_of_mem_outputs ho]
    exact h.trimmed
  have hcoins : coins.toJson = selection.toJson :=
    Option.some.inj ((requestCoins_eq_ok.1 hs).symm.trans h.hasCoins)
  have hplan : (request.get? "plan").getD .null = plan.toJson := by rw [h.hasPlan]; rfl
  refine { h with hasPlan := ?_, hasAddress := ?_, hasCoins := ?_, hasAdditions := ?_ }
  · rw [← hplan]
    simp [signSubmission, signingFields, Fields.get?_cons]
  · rw [← haddress]
    simp [signSubmission, signingFields, Fields.get?_cons]
  · rw [← hcoins]
    simp [signSubmission, signingFields, Fields.get?_cons]
  · rw [← hadditions]
    simp [signSubmission, Fields.get?_cons]

end Handoff

namespace Chain
open Handoff
variable {config : Config} {files : Files} {program : String}

/-! ## Requests that a stage may be given -/

/-- Every hop that this program can answer stays in it, and the executors of the other key sources
do not enter it behind the signer. -/
structure BuiltIn (config : Config) (program : String) : Prop where
  entry : config.entryPoint = some program
  hops : ∀ hop stage, hop.builtin? = some stage → config.commands hop = none
  executors : ∀ hop ∈ [Hop.mnemonicExecutor, .generateKeyExecutor], ∀ command stage,
    config.resolve hop = .ok (some command) → command.program = program →
    stageOf? command = some stage → stage ∈ [Stage.route, .worker, .signer]

theorem BuiltIn.next_eq (hb : BuiltIn config program) {hop : Hop} {stage next : Stage}
    {command : CommandLine} (hhop : hop.builtin? = some stage)
    (hc : config.resolve hop = .ok (some command)) (hs : stageOf? command = some next) :
    next = stage :=
  BuiltInHops.next_eq ⟨hb.entry, hb.hops⟩ hhop hc hs

/-- The target of the plan cannot be lost any more, once the worker has derived it. -/
def Admissible (files : Files) : Stage → Fields → Prop
  | .route, request => request.Ascending
  | .worker, _ => True
  | .signer, request => requireKeyring request = .ok () → PlanDerived .deriveWhenAbsent request
  | .builder, request => PlanDerived .deriveWhenAbsent request
  | .rawEngine, request => PlanDerived .required request ∧ (∀ m ∈ request, m.2.Canonical) ∧
    SettledCoins request
  | .submit, request => ∀ fields, toSignSubmit files request = .ok fields →
    fields.Ascending ∧ ∃ plan address change selection, Tracked fields plan address change selection

/-- A request that was read and whose plan derives its target may be given to any stage, if it may
be given to the last one. -/
theorem admissible_of_derived {fields received : Fields} (ha : fields.Ascending)
    (hr : parseRequest? (Json.obj fields).text = some received)
    (hplan : ∀ policy, PlanDerived policy received) (hlast : Admissible files .submit received)
    (stage : Stage) : Admissible files stage received := by
  have hasc := ascending_of_parseRequest? ha hr
  cases stage with
  | route => exact hasc.1
  | worker => trivial
  | signer => exact fun _ => hplan _
  | builder => exact hplan _
  | rawEngine => exact ⟨hplan _, hasc.2, settledCoins_of_parseRequest? ha hr⟩
  | submit => exact hlast

/-- A request that conserves may be given to any stage. -/
theorem admissible_of_tracked {fields received : Fields} {plan : Plan} {address : String}
    {change : Amount} {selection : Selection} (h : Tracked fields plan address change selection)
    (ha : fields.Ascending) (hr : parseRequest? (Json.obj fields).text = some received)
    (stage : Stage) : Admissible files stage received := by
  refine admissible_of_derived ha hr (fun _ =>
    planDerived_of_parseRequest? ha hr h.valid h.derived h.hasPlan) ?_ stage
  intro next hnext
  obtain ⟨again, htracked⟩ := h.received ha hr
  obtain ⟨hnextasc, hnexttracked⟩ := htracked.signSubmit hnext
  exact ⟨hnextasc, plan, address, change, again, hnexttracked⟩

/-- So may a question for coins, which has no plan and no additions. -/
theorem admissible_of_question {job : Job} {received : Fields}
    (hr : parseRequest? (Json.obj (toSelector job)).text = some received) (stage : Stage) :
    Admissible files stage received := by
  have ha := ascending_toSelector job
  refine admissible_of_derived ha hr ?_ ?_ stage
  · intro policy plan hp
    obtain ⟨members, hm, -⟩ := Plan.parse_eq_ok.1 hp
    rw [Fields.objectAt?, get?_of_parseRequest? ha hr] at hm
    simp [toSelector, Fields.get?_cons] at hm
  · intro next hnext
    obtain ⟨-, additions, -, -, hadd, -, -⟩ := toSignSubmit_eq_ok.1 hnext
    obtain ⟨items, hitems, -⟩ := parseAdditions_eq_ok.1 hadd
    have hget := (Fields.listAt?_eq_some.1 hitems).1
    rw [get?_of_parseRequest? ha hr] at hget
    simp [toSelector, Fields.get?_cons] at hget

/-- What is sent for signing conserves. -/
def SendsConserving (call : Call) : Prop :=
  call.hop = .signSubmit → ∃ fields plan address change selection,
    call.request = .obj fields ∧ Conserves fields plan address change selection

theorem sendsConserving_of_ne {hop : Hop} {command : CommandLine} {request : Json}
    {timeout : Duration} (h : hop ≠ .signSubmit) :
    SendsConserving ⟨hop, command, request, timeout⟩ :=
  fun he => absurd he h

/-- **The step of the chain**: whatever a stage makes of a request that it may be given, the next
stage may be given too. -/
theorem closed_admissible (hb : BuiltIn config program) :
    Closed config files program SendsConserving (Admissible files) := by
  intro stage request hop fields command h hsends hc
  cases hsends with
  | @route source fields he =>
    obtain ⟨ha, hsource⟩ := ascending_toExecutor h he
    refine ⟨sendsConserving_of_ne (by cases source <;> decide), fun hp next received hs hr => ?_⟩
    have hasc := (ascending_of_parseRequest? ha hr).1
    cases source with
    | chiaKeys =>
      obtain rfl := hb.next_eq rfl hc hs
      trivial
    | mnemonicImport | generateNewKey =>
      have hnext := hb.executors _ (by simp [KeySource.executor]) command next hc hp hs
      simp only [List.mem_cons, List.not_mem_nil, or_false] at hnext
      rcases hnext with rfl | rfl | rfl
      · exact hasc
      · trivial
      · intro hkeyring
        have hget := get?_of_parseRequest?_of_steady ha hr rfl hsource
        cases source_of_requireKeyring hget hkeyring
  | worker hf =>
    obtain ⟨ha, plan, hp, hget⟩ := toSigner_plan hf
    obtain ⟨members, -, hm⟩ := Plan.parse_eq_ok.1 hp
    refine ⟨sendsConserving_of_ne (by decide), fun _ next received hs hr => ?_⟩
    obtain rfl := hb.next_eq rfl hc hs
    exact fun _ => planDerived_of_parseRequest? ha hr (Plan.valid_of_parse hp)
      (Plan.targetDerived_of_derive hm) hget
  | signer hf =>
    obtain ⟨ha, hkeyring, plan, hp, hget⟩ := toBackend_plan hf
    refine ⟨sendsConserving_of_ne (by decide), fun _ next received hs hr => ?_⟩
    obtain rfl := hb.next_eq rfl hc hs
    exact planDerived_of_parseRequest? ha hr (Plan.valid_of_parse hp) (h hkeyring plan hp) hget
  | question hj =>
    exact ⟨sendsConserving_of_ne (by decide),
      fun _ next received _ hr => admissible_of_question hr next⟩
  | builder hj hf =>
    obtain ⟨ha, hget⟩ := toBundleSigner_plan hf
    have hp := (Job.parse_eq_ok.1 hj).2.1
    refine ⟨sendsConserving_of_ne (by decide), fun _ next received hs hr => ?_⟩
    obtain rfl := hb.next_eq rfl hc hs
    exact ⟨planDerived_of_parseRequest? ha hr (Plan.valid_of_parse hp) (h _ hp) hget,
      (ascending_of_parseRequest? ha hr).2, settledCoins_of_parseRequest? ha hr⟩
  | rawEngine hf =>
    obtain ⟨hderived, hcanonical, hsettled⟩ := h
    obtain ⟨plan, address, change, selection, htracked⟩ :=
      tracked_of_toSubmission hderived hcanonical hsettled hf
    refine ⟨sendsConserving_of_ne (by decide), fun _ next received _ hr => ?_⟩
    obtain ⟨job, coins, resolved, -, -, -, rfl⟩ := toSubmission_eq_ok.1 hf
    exact admissible_of_tracked htracked (job.ascending_submission coins resolved) hr next
  | submit hf =>
    obtain ⟨ha, plan, address, change, selection, htracked⟩ := h _ hf
    exact ⟨fun _ => ⟨_, plan, address, change, selection, rfl, htracked.toConserves⟩,
      fun _ next received _ hr => admissible_of_tracked htracked ha hr next⟩

/-- **Value is conserved along the chain.** -/
theorem signSubmit_calls_conserve (hb : BuiltIn config program) (external : External)
    {stage : Stage} {request : Fields} (hstage : stage = .route ∨ stage = .worker)
    (hr : request.Ascending) :
    ∀ call ∈ (((surroundings config files program external).run stage request).run {}).2.calls,
      call.hop = .signSubmit → ∃ fields plan address change selection,
        call.request = .obj fields ∧ Conserves fields plan address change selection := by
  have hadmissible : Admissible files stage request := by
    rcases hstage with rfl | rfl
    · exact hr
    · trivial
  exact records_run (closed_admissible hb) nesting hadmissible {} (by simp)

theorem builtIn_outerConfig : BuiltIn outerConfig "coin-ops" where
  entry := Keyring.builtInHops_outerConfig.entry
  hops := Keyring.builtInHops_outerConfig.hops
  executors := by
    intro hop hmem command stage hc
    simp only [List.mem_cons, List.not_mem_nil, or_false] at hmem
    rcases hmem with rfl | rfl <;> cases hc

/-- A route for a key of the keyring ends with a call for signing, which conserves. -/
theorem signSubmit_calls_conserve_of_outerConfig :
    BuiltIn outerConfig "coin-ops" ∧ Keyring.request.Ascending ∧
      ∃ call ∈ (((surroundings outerConfig anywhere "coin-ops" outside).run .route
          Keyring.request).run {}).2.calls, call.hop = .signSubmit ∧
        ∃ fields plan address change selection, call.request = .obj fields ∧
          Conserves fields plan address change selection := by
  have ha : Keyring.request.Ascending := Keyring.holds_request.ascending
  obtain ⟨call, hmem, hhop⟩ := Keyring.exists_signSubmit_call
  exact ⟨builtIn_outerConfig, ha, call, hmem, hhop,
    signSubmit_calls_conserve builtIn_outerConfig outside (.inl rfl) ha call hmem hhop⟩

/-- The last stage sends on for signing what it makes of the request that the route has given it. -/
theorem mem_calls_of_shortcut {fields : Fields}
    (hsubmit : toSignSubmit anywhere spendRequest = .ok fields) :
    ⟨.signSubmit, ⟨"sign-submit", []⟩, .obj fields, shortcutConfig.timeout⟩ ∈
      (((surroundings shortcutConfig anywhere "coin-ops" outside).run .route
        spendRequest).run {}).2.calls := by
  obtain ⟨k, hl⟩ := leads_of_shortcut
  have hh : (within shortcutConfig anywhere "coin-ops" outside (62 + 1)).Hands spendRequest .submit
      k .signSubmit fields k := .submit hsubmit
  have hsign : shortcutConfig.resolve .signSubmit = .ok (some ⟨"sign-submit", []⟩) := rfl
  have hleaves : "sign-submit" ≠ "coin-ops" := by decide
  rw [ending_surroundings, hl.ending_eq, ending_of_leaving hh hsign hleaves]
  exact List.mem_concat_self

/-- Through the executors of other key sources a request can reach the last stage with additions of
its own. -/
theorem signSubmit_call_of_shortcut :
    ¬ ∀ (config : Config) (files : Files) (program : String) (external : External) (stage : Stage)
        (request : Fields), config.entryPoint = some program →
      (∀ hop stage, hop.builtin? = some stage → config.commands hop = none) →
      stage = .route ∨ stage = .worker → request.Ascending →
      ∀ call ∈ (((surroundings config files program external).run stage request).run {}).2.calls,
        call.hop = .signSubmit → ∃ fields plan address change selection,
          call.request = .obj fields ∧ Conserves fields plan address change selection := by
  intro hall
  have hsubmit : toSignSubmit anywhere spendRequest = .ok (signSubmission spendRequest
      ⟨"key-main-1", "testnet11", "xch1receive", "keyring.yaml", "xch"⟩ [⟨"xch1receive", 1⟩]
      ⟨[.obj [("amount", .ofUInt64 50)]], by simp⟩) := rfl
  obtain ⟨fields, plan, address, change, selection, hfields, hc⟩ := hall _ _ _ _ .route _ rfl
    builtInHops_shortcutConfig.hops (.inl rfl) canonical_spendRequest.1 _
    (mem_calls_of_shortcut hsubmit) rfl
  cases hfields
  -- the plan makes two outputs, but there is only one addition
  have hplan := hc.hasPlan
  rw [show Fields.get? _ "plan" = some (Plan.toJson ⟨.split, 10, 2, 20, "low"⟩) from rfl] at hplan
  have hadditions := hc.hasAdditions
  rw [show Fields.get? _ "additions" = some (.arr [_]) from rfl] at hadditions
  have hcount : plan.count.toNat = 2 := by
    simp [Plan.toJson, Json.ofUInt64, Json.WholeNumber.ofUInt64] at hplan
    omega
  have hlength := congrArg List.length (Json.arr.inj (Option.some.inj hadditions))
  simp [Plan.outputs, hcount] at hlength

end Chain

end CoinRelay
