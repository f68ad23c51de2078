import CoinRelay.Proofs.Relay.Received

/-! # The calls that a stage makes

A stage refuses a request before it calls anyone, or it hands one request on and calls once. Only
the builder may call before, to ask for coins; then what it is answered may still make it refuse.
Nothing is called twice. -/

namespace CoinRelay
open Handoff

namespace Surroundings
variable {s : Surroundings} {stage : Stage} {request fields : Fields} {hop : Hop}
variable {h h' : History}

/-! ## Calls and what they leave behind -/

/-- The call that delegates fields over a hop, if a command answers it. -/
def callOf? (s : Surroundings) (hop : Hop) (fields : Fields) : Option Call :=
  match s.config.resolve hop with
  | .ok (some command) => some ⟨hop, command, .obj fields, s.config.timeout⟩
  | _ => none

theorem callOf?_eq_some {call : Call} :
    s.callOf? hop fields = some call ↔ ∃ command, s.config.resolve hop = .ok (some command) ∧
      call = ⟨hop, command, .obj fields, s.config.timeout⟩ := by
  unfold callOf?
  split
  · next command hc => simp [hc, eq_comm]
  · next hno =>
    simp only [reduceCtorEq, false_iff, not_exists, not_and]
    intro command hc
    exact absurd hc (hno command)

/-- The history after calls, one behind the other. -/
def perform (s : Surroundings) (calls : List Call) (h : History) : History :=
  calls.foldl (fun h call => ((s.delegate call).run (h.record call)).2) h

theorem perform_append (calls more : List Call) (h : History) :
    s.perform (calls ++ more) h = s.perform more (s.perform calls h) :=
  List.foldl_append

/-- What answers a call makes no calls of its own. -/
def Quiet (s : Surroundings) : Prop :=
  ∀ call h, ((s.delegate call).run h).2.calls = h.calls

theorem Quiet.calls_perform (hq : s.Quiet) (calls : List Call) (h : History) :
    (s.perform calls h).calls = h.calls ++ calls := by
  induction calls generalizing h with
  | nil => simp [perform]
  | cons call rest ih =>
    have hcall : ((s.delegate call).run (h.record call)).2.calls = h.calls ++ [call] := hq call _
    have hrest := ih ((s.delegate call).run (h.record call)).2
    rw [hcall, List.append_assoc] at hrest
    exact hrest

/-- Delegating makes the one call that it can make, or none. -/
theorem history_invoke (s : Surroundings) (hop : Hop) (fields : Fields) (h : History) :
    ((s.invoke hop (.obj fields)).run h).2 = s.perform (s.callOf? hop fields).toList h := by
  cases hc : s.config.resolve hop with
  | error error => simp only [invoke, callOf?, hc]; rfl
  | ok found =>
    cases found with
    | none => simp only [invoke, callOf?, hc]; rfl
    | some command =>
      rw [run_invoke hc]
      simp only [callOf?, hc]
      rfl

/-! ## The question for coins -/

/-- The call with which a stage asks for coins: the builder's, once it has a job and finds no coins
in the request. -/
def asked? (s : Surroundings) (stage : Stage) (request : Fields) : Option Call :=
  match stage, Job.parse s.files request .deriveWhenAbsent with
  | .builder, .ok job =>
    if (Selection.ofJson? (request.get? "selected_coins")).isSome then none
    else s.callOf? .coinSelector (toSelector job)
  | _, _ => none

theorem asked?_eq_some {call : Call} : s.asked? stage request = some call ↔
    stage = .builder ∧ ∃ job, Job.parse s.files request .deriveWhenAbsent = .ok job ∧
      Selection.ofJson? (request.get? "selected_coins") = none ∧
      s.callOf? .coinSelector (toSelector job) = some call := by
  unfold asked?
  split
  · next job hj =>
    split
    · next hsome =>
      simp only [reduceCtorEq, false_iff, true_and, not_exists, not_and]
      intro _ _ hno
      simp [hno] at hsome
    · next hnone =>
      rw [Bool.not_eq_true, Option.isSome_eq_false_iff, Option.isNone_iff_eq_none] at hnone
      simp [hj, hnone]
  · next hother =>
    simp only [reduceCtorEq, false_iff, not_and, not_exists]
    rintro rfl job hj
    exact absurd hj (hother job rfl)

theorem asked?_of_job {job : Job} (hj : Job.parse s.files request .deriveWhenAbsent = .ok job)
    (hno : Selection.ofJson? (request.get? "selected_coins") = none) :
    s.asked? .builder request = s.callOf? .coinSelector (toSelector job) := by
  simp [asked?, hj, hno]

theorem asked?_of_ne (hstage : stage ≠ .builder) : s.asked? stage request = none := by
  cases stage with
  | builder => exact absurd rfl hstage
  | _ => rfl

/-- Looking for coins makes no other call than that. -/
theorem history_coinsFor {job : Job} (hj : Job.parse s.files request .deriveWhenAbsent = .ok job)
    (h : History) :
    ((s.coinsFor request job).run h).2 = s.perform (s.asked? .builder request).toList h := by
  cases hcoins : Selection.ofJson? (request.get? "selected_coins") with
  | some selection =>
    simp only [coinsFor, asked?, hj, hcoins]
    rfl
  | none =>
    rw [run_coinsFor hcoins, asked?_of_job hj hcoins]
    exact history_invoke ..

/-! ## The history behind a run -/

theorem Hands.history_eq (hh : s.Hands request stage h hop fields h') :
    h' = s.perform (s.asked? stage request).toList h := by
  cases hh with
  | builder hj hc _ =>
    have hasked := history_coinsFor hj h
    rw [hc] at hasked
    exact hasked
  | _ => rw [asked?_of_ne (by decide)]; rfl

theorem history_question {job : Job} {answer : Except HopFailure Fields}
    (hj : Job.parse s.files request .deriveWhenAbsent = .ok job)
    (hno : Selection.ofJson? (request.get? "selected_coins") = none)
    (hb : (s.invoke .coinSelector (.obj (toSelector job))).run h = (answer, h')) :
    h' = s.perform (s.asked? .builder request).toList h := by
  have hasked := history_invoke s .coinSelector (toSelector job) h
  rw [hb] at hasked
  rw [asked?_of_job hj hno]
  exact hasked

theorem Refuses.history_eq {cause : Rejection} (hr : s.Refuses request stage h cause h') :
    h' = s.perform (s.asked? stage request).toList h := by
  cases hr with
  | job hj =>
    have hasked : s.asked? .builder request = none := by simp [asked?, hj]
    rw [hasked]
    rfl
  | coins hj hno hb _ => exact history_question hj hno hb
  | total hj hc _ =>
    have hasked := history_coinsFor hj h
    rw [hc] at hasked
    exact hasked
  | _ => rw [asked?_of_ne (by decide)]; rfl

theorem Unanswered.history_eq {failure : HopFailure}
    (hu : s.Unanswered request stage h failure h') :
    h' = s.perform (s.asked? stage request).toList h := by
  cases hu with
  | mk hj hno hb => exact history_question hj hno hb

theorem history_of_unanswered {failure : HopFailure}
    (hu : s.Unanswered request stage h failure h') :
    ((s.run stage request).run h).2 = h' := by
  obtain ⟨outcome, -, hrun⟩ := run_of_unanswered hu
  rw [hrun]

/-- A stage hands one thing on, and only if it does not refuse and is not left without coins. -/
theorem Hands.unique {hop' : Hop} {fields' : Fields} {k : History}
    (hh : s.Hands request stage h hop fields h') (hk : s.Hands request stage h hop' fields' k) :
    hop = hop' ∧ fields = fields' := by
  cases hh with
  | builder hj hc hf =>
    cases hk with
    | builder hj' hc' hf' =>
      cases hj.symm.trans hj'
      cases hc.symm.trans hc'
      cases hf.symm.trans hf'
      exact ⟨rfl, rfl⟩
  | _ =>
    cases hk
    simp_all

theorem Refuses.not_hands {cause : Rejection} (hr : s.Refuses request stage h cause h')
    {k : History} : ¬ s.Hands request stage h hop fields k := by
  intro hh
  cases hr with
  | coins hj hno hb hf =>
    cases hh with
    | builder hj' hc hf' =>
      cases hj.symm.trans hj'
      rw [run_coinsFor_of_no_coins hno hb hf] at hc
      cases hc
  | total hj hc hf =>
    cases hh with
    | builder hj' hc' hf' =>
      cases hj.symm.trans hj'
      cases hc.symm.trans hc'
      cases hf.symm.trans hf'
  | _ =>
    cases hh
    simp_all

theorem Unanswered.not_hands {failure : HopFailure} (hu : s.Unanswered request stage h failure h')
    {k : History} : ¬ s.Hands request stage h hop fields k := by
  intro hh
  cases hu with
  | mk hj hno hb =>
    cases hh with
    | builder hj' hc hf =>
      cases hj.symm.trans hj'
      rw [run_coinsFor hno, hb] at hc
      cases hc

/-- All that a run leaves behind is what its calls leave behind: the question for coins, and then
the call that hands on. -/
theorem history_run (s : Surroundings) (stage : Stage) (request : Fields) (h : History) :
    ∃ forwarded : Option Call,
      ((s.run stage request).run h).2 =
        s.perform ((s.asked? stage request).toList ++ forwarded.toList) h ∧
      (∀ call, forwarded = some call ↔
        ∃ hop fields h', s.Hands request stage h hop fields h' ∧ s.callOf? hop fields = some call) ∧
      ∀ cause h', s.Refuses request stage h cause h' → forwarded = none := by
  rcases run_kinds s stage request h with
    ⟨cause, h', hr⟩ | ⟨failure, h', hu⟩ | ⟨hop, fields, h', hh⟩
  · refine ⟨none, ?_, ?_, fun _ _ _ => rfl⟩
    · rw [run_of_refuses hr, perform_append]
      exact hr.history_eq
    · intro call
      simp only [reduceCtorEq, false_iff, not_exists, not_and]
      intro hop fields k hh
      exact absurd hh hr.not_hands
  · refine ⟨none, ?_, ?_, fun _ _ _ => rfl⟩
    · rw [history_of_unanswered hu, perform_append]
      exact hu.history_eq
    · intro call
      simp only [reduceCtorEq, false_iff, not_exists, not_and]
      intro hop fields k hh
      exact absurd hh hu.not_hands
  · refine ⟨s.callOf? hop fields, ?_, ?_, ?_⟩
    · rw [run_of_hands hh, perform_append, ← hh.history_eq]
      exact history_invoke s hop fields h'
    · intro call
      constructor
      · intro hcall
        exact ⟨hop, fields, h', hh, hcall⟩
      · rintro ⟨hop', fields', k, hk, hcall⟩
        obtain ⟨rfl, rfl⟩ := hh.unique hk
        exact hcall
    · intro cause k hr
      exact absurd hh hr.not_hands

/-- The builder refuses after its question only for what it was answered. -/
theorem Refuses.cause_of_asked {cause : Rejection} (hr : s.Refuses request stage h cause h')
    {call : Call} (hasked : s.asked? stage request = some call) :
    cause = .noUnspentCoins ∨ cause = .insufficientCoinTotal := by
  obtain ⟨rfl, job, hjob, -, -⟩ := asked?_eq_some.1 hasked
  cases hr with
  | job hj => cases hj.symm.trans hjob
  | coins hj hno hb hf =>
    unfold selectorCoins at hf
    split at hf
    · cases hf
    · cases hf
      exact .inl rfl
  | total hj hc hf =>
    simp only [toBundleSigner, Selection.resolve, Coins.resolve] at hf
    split at hf
    · cases hf
    · cases hf
      exact .inr rfl

/-- **What a stage calls.** Its calls are the builder's question for coins, which is asked exactly
where a job finds no coins in the request and a command answers, and one call that hands the stage's
own request on over its own hop; each goes to the command that answers the hop, within the
configured time. A stage that refuses never makes the second call, makes the first one only where
it refuses the coins of the answer, and reports nothing but the cause. -/
theorem calls_of_run (s : Surroundings) (stage : Stage) (request : Fields) (h : History) :
    ((∃ cause h', s.Refuses request stage h cause h') ∨
      (∃ failure h', s.Unanswered request stage h failure h') ∨
      ∃ hop fields h', s.Hands request stage h hop fields h') ∧
    ∃ asked forwarded : Option Call,
      ((s.run stage request).run h).2 = s.perform (asked.toList ++ forwarded.toList) h ∧
      (s.Quiet → ((s.run stage request).run h).2.calls =
        h.calls ++ (asked.toList ++ forwarded.toList)) ∧
      (∀ call, asked = some call ↔
        stage = .builder ∧ ∃ job, Job.parse s.files request .deriveWhenAbsent = .ok job ∧
          Selection.ofJson? (request.get? "selected_coins") = none ∧
          s.callOf? .coinSelector (toSelector job) = some call) ∧
      (∀ call, forwarded = some call ↔
        ∃ hop fields h', s.Hands request stage h hop fields h' ∧ s.callOf? hop fields = some call) ∧
      ∀ cause h', s.Refuses request stage h cause h' →
        forwarded = none ∧
        (∀ call, asked = some call → cause = .noUnspentCoins ∨ cause = .insufficientCoinTotal) ∧
        ((s.run stage request).run h).1 = .skipped cause.reason none [] := by
  refine ⟨run_kinds s stage request h, ?_⟩
  obtain ⟨forwarded, hhistory, hforwarded, hrefused⟩ := history_run s stage request h
  refine ⟨s.asked? stage request, forwarded, hhistory, ?_, fun call => asked?_eq_some, hforwarded,
    ?_⟩
  · intro hq
    rw [hhistory, hq.calls_perform]
  · intro cause h' hr
    refine ⟨hrefused cause h' hr, fun call hasked => hr.cause_of_asked hasked, ?_⟩
    rw [run_of_refuses hr]
    rfl

/-- A job for 60 units where the only coin that can be found is one of 50. -/
def shortRequest : Fields := (splitRequest 30 2 60 50).erase "selected_coins"

theorem calls_of_run_of_stocked :
    let ran := (stocked.run .builder shortRequest).run {}
    ran.1 = .skipped "insufficient_selected_coin_total" none [] ∧
      ran.2.calls.map Call.hop = [.coinSelector] := by
  have hq : stocked.Quiet := fun call h => rfl
  have hr : stocked.Refuses shortRequest .builder {} .insufficientCoinTotal _ :=
    .total rfl rfl rfl
  obtain ⟨-, asked, forwarded, -, hcalls, hasked, -, hrefused⟩ :=
    calls_of_run stocked .builder shortRequest {}
  obtain ⟨rfl, -, houtcome⟩ := hrefused _ _ hr
  refine ⟨houtcome, ?_⟩
  rw [hcalls hq, (hasked _).2 ⟨rfl, _, rfl, rfl, rfl⟩]
  rfl

end Surroundings

end CoinRelay
