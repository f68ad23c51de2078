import CoinRelay.Proofs.Chain.Transparency
import CoinRelay.Proofs.Relay.OwnCalls

/-! # A chain comes to an end

Where no configured command enters the chain again, every hop of this program leads to a stage whose
own hops come later. So a chain is at an end after seven calls, whatever lies behind them: the calls
are in the order of the hops, and only the coin selector may be left for another one. -/

namespace CoinRelay
open Handoff

/-- The hops over which a stage delegates. -/
def Stage.hops : Stage → List Hop
  | .route => [.chiaKeysExecutor, .mnemonicExecutor, .generateKeyExecutor]
  | .worker => [.signer]
  | .signer => [.signerBackend]
  | .builder => [.coinSelector, .bundleSigner]
  | .rawEngine => [.sdkSubmit]
  | .submit => [.signSubmit]

theorem Hop.rank_lt_seven (hop : Hop) : hop.rank < 7 := by
  cases hop <;> decide

/-- The hops of a stage come behind the hop that leads to it. -/
theorem Hop.rank_lt_of_builtin {hop next : Hop} {stage : Stage} (hb : hop.builtin? = some stage)
    (hn : next ∈ stage.hops) : hop.rank < next.rank := by
  cases hop <;> cases hb <;> cases next <;> revert hn <;> decide

namespace Surroundings
variable {config : Config} {files : Files} {d d' : Delegate} {stage : Stage} {request : Fields}

/-! ## A stage asks over its own hops only -/

/-- Delegates that answer all calls over a hop alike. -/
def AgreeOn (config : Config) (d d' : Delegate) (hop : Hop) : Prop :=
  ∀ command value, config.resolve hop = .ok (some command) →
    d ⟨hop, command, value, config.timeout⟩ = d' ⟨hop, command, value, config.timeout⟩

theorem invoke_congr {hop : Hop} (h : AgreeOn config d d' hop) (value : Json) :
    invoke ⟨config, files, d⟩ hop value = invoke ⟨config, files, d'⟩ hop value := by
  unfold invoke
  cases hc : config.resolve hop with
  | error error => rfl
  | ok found =>
    cases found with
    | none => rfl
    | some command => simp only [h command value hc]

theorem handOn_congr {hop : Hop} (h : AgreeOn config d d' hop) (key : String)
    (handoff : Except Rejection Fields) :
    handOn ⟨config, files, d⟩ hop key handoff = handOn ⟨config, files, d'⟩ hop key handoff := by
  unfold handOn forward
  simp only [invoke_congr h]

theorem run_congr (h : ∀ hop ∈ stage.hops, AgreeOn config d d' hop) :
    run ⟨config, files, d⟩ stage request = run ⟨config, files, d'⟩ stage request := by
  cases stage with
  | route =>
    simp only [run, route]
    split
    · rfl
    · next source fields _ =>
      have hexecutor : source.executor ∈ Stage.route.hops := by cases source <;> decide
      simp only [forward, invoke_congr (h _ hexecutor)]
  | builder =>
    simp only [run, build, coinsFor, invoke_congr (h .coinSelector (by decide)),
      handOn_congr (h .bundleSigner (by decide))]
  | submit =>
    simp only [run, submit, forward, invoke_congr (h .signSubmit (by decide))]
  | worker => exact handOn_congr (h .signer (by decide)) ..
  | signer => exact handOn_congr (h .signerBackend (by decide)) ..
  | rawEngine => exact handOn_congr (h .sdkSubmit (by decide)) ..

end Surroundings

namespace Chain
open Surroundings
variable {config : Config} {files : Files} {program : String} {external : External}

/-- The chain can be entered, but no configured command enters it again. -/
structure EntersOnce (config : Config) (program : String) : Prop where
  entry : config.entryPoint = some program
  others : ∀ hop raw command, config.commands hop = some raw →
    CommandLine.parse? raw = some command → command.program ≠ program

/-- A command of this program is the built-in one. -/
theorem EntersOnce.builtin (ho : EntersOnce config program) {hop : Hop} {command : CommandLine}
    (hc : config.resolve hop = .ok (some command)) (hp : command.program = program) :
    ∃ stage, hop.builtin? = some stage ∧ stageOf? command = some stage := by
  unfold Config.resolve at hc
  cases hraw : config.commands hop with
  | some raw =>
    cases hparse : CommandLine.parse? raw with
    | none => simp [hraw, hparse] at hc
    | some found =>
      simp only [hraw, hparse] at hc
      cases hc
      exact absurd hp (ho.others hop raw _ hraw hparse)
  | none =>
    simp only [hraw, Config.builtin?, ho.entry] at hc
    cases hb : hop.builtin? with
    | none => simp [hb] at hc
    | some stage =>
      simp only [hb] at hc
      cases hc
      exact ⟨stage, rfl, stageOf?_stageArguments config program stage⟩

/-! ## How deep a chain is -/

/-- A chain that is one stage deep: behind the stage something else answers. -/
def answering (config : Config) (files : Files) (program : String) (external : External)
    (deeper : Delegate) : Delegate := fun call =>
  if call.command.program = program then
    match stageOf? call.command with
    | none => return .error (.invalidCommand call.command.display)
    | some stage =>
      match parseRequest? call.request.text with
      | none => return .error .invalidJson
      | some request => do
        return parseReply (← Surroundings.run ⟨config, files, deeper⟩ stage request).wire
  else return external (← get).calls call

theorem delegate_succ (budget : ℕ) : delegate config files program external (budget + 1) =
    answering config files program external (delegate config files program external budget) := rfl

theorem delegate_add (budget n : ℕ) : delegate config files program external (n + budget) =
    (answering config files program external)^[n]
      (delegate config files program external budget) := by
  induction n with
  | zero => rw [Nat.zero_add, Function.iterate_zero_apply]
  | succ n ih => rw [Nat.add_right_comm, delegate_succ, ih, Function.iterate_succ_apply']

/-- What a chain answers to a call depends on what answers behind the stage that the call names. -/
theorem answering_congr {d d' : Delegate} {call : Call}
    (h : ∀ stage, call.command.program = program → stageOf? call.command = some stage →
      ∀ request, Surroundings.run ⟨config, files, d⟩ stage request =
        Surroundings.run ⟨config, files, d'⟩ stage request) :
    answering config files program external d call =
      answering config files program external d' call := by
  unfold answering
  split
  · next hp =>
    split
    · rfl
    · next stage hs =>
      split
      · rfl
      · next request _ => rw [h stage hp hs request]
  · rfl

/-- The further a hop is on the way, the less has to lie behind it. -/
theorem agreeOn_iterate (ho : EntersOnce config program) {n : ℕ} (d d' : Delegate) {hop : Hop}
    (hn : 7 ≤ n + hop.rank) :
    AgreeOn config ((answering config files program external)^[n] d)
      ((answering config files program external)^[n] d') hop := by
  -- on the number of stages: every hop behind is further on the way
  induction n generalizing hop with
  | zero =>
    have hrank := hop.rank_lt_seven
    omega
  | succ n ih =>
    intro command value hc
    rw [Function.iterate_succ_apply', Function.iterate_succ_apply']
    refine answering_congr ?_
    intro stage hp hs request
    obtain ⟨next, hb, hnext⟩ := ho.builtin hc hp
    cases hs.symm.trans hnext
    refine run_congr fun behind hbehind => ih ?_
    have hrank := Hop.rank_lt_of_builtin hb hbehind
    omega

/-- No stage gets to see what lies behind seven calls. -/
theorem run_iterate (ho : EntersOnce config program) (d d' : Delegate) (stage : Stage)
    (request : Fields) :
    Surroundings.run ⟨config, files, (answering config files program external)^[7] d⟩ stage
        request =
      Surroundings.run ⟨config, files, (answering config files program external)^[7] d'⟩ stage
        request :=
  run_congr fun _ _ => agreeOn_iterate ho d d' (Nat.le_add_right _ _)

theorem answering_iterate (ho : EntersOnce config program) (d d' : Delegate) :
    (answering config files program external)^[8] d =
      (answering config files program external)^[8] d' := by
  funext call
  rw [Function.iterate_succ_apply', Function.iterate_succ_apply']
  exact answering_congr fun stage _ _ request => run_iterate ho d d' stage request

/-- The chain answers what it would answer with itself behind it, and nothing else does. -/
theorem answering_eq_self_iff (ho : EntersOnce config program) {d : Delegate} :
    answering config files program external d = d ↔
      d = delegate config files program external nesting := by
  have hnesting : delegate config files program external nesting =
      (answering config files program external)^[8] d := by
    rw [answering_iterate ho d (delegate config files program external 56), ← delegate_add]
    rfl
  constructor
  · intro hd
    rw [hnesting]
    exact ((Function.iterate_fixed hd 8).symm)
  · intro hd
    rw [hd, ← delegate_succ, show nesting + 1 = 8 + 57 from rfl, delegate_add, hnesting]
    exact answering_iterate ho ..

/-! ## The order of the calls -/

/-- Calls in the order of their hops, where only the coin selector may be left for another one. -/
structure Ordered (program : String) (calls : List Call) : Prop where
  ascending : calls.Pairwise fun a b => a.hop.rank < b.hop.rank
  inside : calls.Pairwise fun a _ => a.command.program = program ∨ a.hop = .coinSelector

theorem ordered_nil (program : String) : Ordered program [] :=
  ⟨List.Pairwise.nil, List.Pairwise.nil⟩

theorem Ordered.cons {call : Call} {behind : List Call} (hbehind : Ordered program behind)
    (hrank : ∀ c ∈ behind, call.hop.rank < c.hop.rank)
    (hinside : behind = [] ∨ call.command.program = program ∨ call.hop = .coinSelector) :
    Ordered program (call :: behind) := by
  refine ⟨List.pairwise_cons.2 ⟨hrank, hbehind.ascending⟩,
    List.pairwise_cons.2 ⟨?_, hbehind.inside⟩⟩
  intro c hc
  rcases hinside with rfl | hinside
  · cases hc
  · exact hinside

/-- There are no more calls than there are places on the way. -/
theorem Ordered.length_le {calls : List Call} (h : Ordered program calls) : calls.length ≤ 7 := by
  have hranks : (calls.map fun call => call.hop.rank).Pairwise (· < ·) :=
    List.pairwise_map.2 h.ascending
  have hnodup : (calls.map fun call => call.hop.rank).Nodup := hranks.imp Nat.ne_of_lt
  have hsub : (calls.map fun call => call.hop.rank) ⊆ List.range 7 := by
    intro rank hrank
    obtain ⟨call, -, rfl⟩ := List.mem_map.1 hrank
    exact List.mem_range.2 call.hop.rank_lt_seven
  simpa using (hnodup.subperm hsub).length_le

/-- What a stage adds to the calls: calls in order, behind every hop that leads to the stage. -/
def AddsInOrder (program : String) (stage : Stage) (h k : History) : Prop :=
  ∃ made, k.calls = h.calls ++ made ∧ Ordered program made ∧
    ∀ call ∈ made, ∀ hop : Hop, hop.builtin? = some stage → hop.rank < call.hop.rank

section
variable {budget : ℕ} {stage : Stage} {request : Fields} {call : Call}

theorem calls_leaving (hp : call.command.program ≠ program) (h : History) :
    ((within config files program external budget).perform [call] h).calls = h.calls ++ [call] := by
  cases budget with
  | zero => rfl
  | succ n =>
    show (((within config files program external (n + 1)).delegate call).run
      (h.record call)).2.calls = _
    rw [run_leaving call hp]
    rfl

/-- One call adds itself and what lies behind its hop. -/
theorem ordered_call (ho : EntersOnce config program)
    (hc : config.resolve call.hop = .ok (some call.command))
    (hstages : ∀ n < budget, ∀ stage request h, AddsInOrder program stage h
      (((within config files program external n).run stage request).run h).2) (h : History) :
    ∃ behind, ((within config files program external budget).perform [call] h).calls =
        h.calls ++ call :: behind ∧
      Ordered program (call :: behind) ∧ ∀ c ∈ behind, call.hop.rank < c.hop.rank := by
  have hnothing : Ordered program [call] := (ordered_nil program).cons nofun (.inl rfl)
  by_cases hp : call.command.program = program
  · cases budget with
    | zero => exact ⟨[], rfl, hnothing, nofun⟩
    | succ n =>
      show ∃ behind, (((within config files program external (n + 1)).delegate call).run
        (h.record call)).2.calls = _ ∧ _
      obtain ⟨stage, hb, hs⟩ := ho.builtin hc hp
      cases hr : parseRequest? call.request.text with
      | none =>
        simp only [within, delegate, if_pos hp, hs, hr]
        exact ⟨[], rfl, hnothing, nofun⟩
      | some received =>
        obtain ⟨behind, hcalls, hordered, hrank⟩ :=
          hstages n (Nat.lt_succ_self n) stage received (h.record call)
        have hlater : ∀ c ∈ behind, call.hop.rank < c.hop.rank := fun c hc => hrank c hc _ hb
        refine ⟨behind, ?_, hordered.cons hlater (.inr (.inl hp)), hlater⟩
        rw [run_within call hp hs hr, List.append_cons]
        exact hcalls
  · exact ⟨[], calls_leaving hp h, hnothing, nofun⟩

theorem hop_mem_of_hands {s : Surroundings} {hop : Hop} {fields : Fields} {h h' : History}
    (hh : s.Hands request stage h hop fields h') : hop ∈ stage.hops ∧ hop ≠ .coinSelector := by
  cases hh with
  | @route source => cases source <;> decide
  | _ => decide

/-- What a stage hands on, and all behind it, comes behind the question for coins. -/
theorem ordered_forwarded (ho : EntersOnce config program)
    (hstages : ∀ n < budget, ∀ stage request h, AddsInOrder program stage h
      (((within config files program external n).run stage request).run h).2)
    {forwarded : Option Call} {h : History}
    (hforwarded : ∀ call, forwarded = some call → ∃ hop fields h',
      (within config files program external budget).Hands request stage h hop fields h' ∧
        (within config files program external budget).callOf? hop fields = some call)
    (k : History) :
    ∃ made, ((within config files program external budget).perform forwarded.toList k).calls =
        k.calls ++ made ∧
      Ordered program made ∧
      ∀ c ∈ made, ∃ hop ∈ stage.hops, hop ≠ .coinSelector ∧ hop.rank ≤ c.hop.rank := by
  cases forwarded with
  | none => exact ⟨[], (List.append_nil _).symm, ordered_nil program, nofun⟩
  | some call =>
    obtain ⟨hop, fields, h', hh, hcall⟩ := hforwarded call rfl
    obtain ⟨command, hc, hmade⟩ := callOf?_eq_some.1 hcall
    have hhop : call.hop = hop := congrArg Call.hop hmade
    have hresolved : config.resolve call.hop = .ok (some call.command) := by
      rw [hmade]
      exact hc
    obtain ⟨hmem, hne⟩ := hop_mem_of_hands hh
    obtain ⟨behind, hcalls, hordered, hlater⟩ := ordered_call ho hresolved hstages k
    refine ⟨_, hcalls, hordered, ?_⟩
    rw [hhop] at hlater
    intro c hc
    rcases List.mem_cons.1 hc with rfl | hc
    · exact ⟨hop, hmem, hne, Nat.le_of_eq (congrArg Hop.rank hhop.symm)⟩
    · exact ⟨hop, hmem, hne, Nat.le_of_lt (hlater c hc)⟩

/-- The builder asks outside of the chain. -/
theorem question_leaves (ho : EntersOnce config program) {question : Call}
    (hasked : (within config files program external budget).asked? stage request =
      some question) :
    stage = .builder ∧ question.hop = .coinSelector ∧ question.command.program ≠ program := by
  obtain ⟨hstage, job, -, -, hquestion⟩ := asked?_eq_some.1 hasked
  obtain ⟨command, hc, rfl⟩ := callOf?_eq_some.1 hquestion
  refine ⟨hstage, rfl, ?_⟩
  intro hp
  obtain ⟨next, hb, -⟩ := ho.builtin hc hp
  cases hb

/-- **Every stage adds its calls in order.** -/
theorem addsInOrder_within (ho : EntersOnce config program) (budget : ℕ) (stage : Stage)
    (request : Fields) (h : History) : AddsInOrder program stage h
      (((within config files program external budget).run stage request).run h).2 := by
  -- on the budget: what lies behind a call is added by stages with less of it
  induction budget using Nat.strongRecOn generalizing stage request h with
  | ind budget ih =>
    obtain ⟨forwarded, hhistory, hforwarded, -⟩ :=
      history_run (within config files program external budget) stage request h
    have hforward := ordered_forwarded ho ih fun call => (hforwarded call).1
    rw [hhistory, perform_append]
    cases hasked : (within config files program external budget).asked? stage request with
    | none =>
      obtain ⟨made, hcalls, hordered, hlow⟩ := hforward h
      refine ⟨made, hcalls, hordered, ?_⟩
      intro c hc hop hb
      obtain ⟨first, hmem, -, hle⟩ := hlow c hc
      exact Nat.lt_of_lt_of_le (Hop.rank_lt_of_builtin hb hmem) hle
    | some question =>
      obtain ⟨rfl, hhop, hp⟩ := question_leaves ho hasked
      obtain ⟨made, hcalls, hordered, hlow⟩ := hforward (perform _ [question] h)
      have hlater : ∀ c ∈ made, question.hop.rank < c.hop.rank := by
        intro c hc
        obtain ⟨first, hmem, hne, hle⟩ := hlow c hc
        simp only [Stage.hops, List.mem_cons, List.not_mem_nil, or_false] at hmem
        rw [hmem.resolve_left hne] at hle
        rw [hhop]
        exact hle
      refine ⟨question :: made, ?_, hordered.cons hlater (.inr (.inr hhop)), ?_⟩
      · rw [Option.toList_some, hcalls, calls_leaving hp, List.append_assoc,
          List.singleton_append]
      · intro c hc hop hb
        have hfirst : hop.rank < question.hop.rank := by
          rw [hhop]
          exact Hop.rank_lt_of_builtin hb (by decide)
        rcases List.mem_cons.1 hc with rfl | hc
        · exact hfirst
        · exact hfirst.trans (hlater c hc)

end

/-- **A chain comes to an end.** Seven calls deep, a stage makes no difference between what lies
behind, so that the budget is never used up; and the chain is the only delegate that answers with
itself behind every stage. The calls that are made are in the order of the hops, at most seven, and
none follows a call to a program from outside other than the coin selector. -/
theorem chain_terminates (ho : EntersOnce config program) (files : Files) (external : External)
    (stage : Stage) (request : Fields) (h : History) :
    (∀ deeper, Surroundings.run
        ⟨config, files, (answering config files program external)^[7] deeper⟩ stage request =
      (surroundings config files program external).run stage request) ∧
    (∀ d, answering config files program external d = d ↔
      d = delegate config files program external nesting) ∧
    ∃ made, (((surroundings config files program external).run stage request).run h).2.calls =
        h.calls ++ made ∧
      made.Pairwise (fun a b => a.hop.rank < b.hop.rank) ∧ made.length ≤ 7 ∧
      made.Pairwise (fun a _ => a.command.program = program ∨ a.hop = .coinSelector) := by
  refine ⟨fun deeper => ?_, fun d => answering_eq_self_iff ho, ?_⟩
  · have hnesting : delegate config files program external nesting =
        (answering config files program external)^[7]
          (delegate config files program external 57) := delegate_add 57 7
    rw [surroundings, hnesting]
    exact run_iterate ho ..
  · obtain ⟨made, hcalls, hordered, -⟩ := addsInOrder_within ho nesting stage request h
    exact ⟨made, hcalls, hordered.ascending, hordered.length_le, hordered.inside⟩

theorem entersOnce_outerConfig : EntersOnce outerConfig "coin-ops" where
  entry := rfl
  others := by
    intro hop raw command hraw hparse
    cases hop <;> cases hraw <;> cases hparse <;> decide

/-- A route for a key of the keyring gets as far as the call for signing, in order. -/
theorem chain_terminates_of_outerConfig :
    ∃ made, (((surroundings outerConfig anywhere "coin-ops" outside).run .route
        Keyring.request).run {}).2.calls = made ∧
      made.Pairwise (fun a b => a.hop.rank < b.hop.rank) ∧ made.length ≤ 7 ∧
      ∃ call ∈ made, call.hop = .signSubmit := by
  obtain ⟨-, -, made, hcalls, hascending, hlength, -⟩ :=
    chain_terminates entersOnce_outerConfig anywhere outside .route Keyring.request {}
  have hsigned := Keyring.exists_signSubmit_call
  rw [hcalls] at hsigned
  exact ⟨made, hcalls, hascending, hlength, hsigned⟩

end Chain

end CoinRelay
