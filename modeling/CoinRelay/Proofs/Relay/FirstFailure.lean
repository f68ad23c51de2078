import CoinRelay.Proofs.Handoff.Ranked
import CoinRelay.Proofs.Relay.OwnCalls

/-! # The first failure wins

A stage that gets its answers refuses a request exactly if one of its checks fails, and then reports
the cause of the check that decides. For the builder the coins that are checked may come from the
answer to its question. -/

namespace CoinRelay
open Handoff

namespace Surroundings
variable {s : Surroundings} {stage : Stage} {request fields : Fields} {hop : Hop}
variable {h h' : History}

/-- Where the builder takes its coins from: from the request if it brings any along, and otherwise
from the answer to the question that its job makes. -/
def coinsAt (s : Surroundings) (request : Fields) (h : History) : Option Json :=
  let brought := request.get? "selected_coins"
  match Selection.ofJson? brought, Job.parse s.files request .deriveWhenAbsent with
  | none, .ok job =>
    match ((s.invoke .coinSelector (.obj (toSelector job))).run h).1 with
    | .ok answer => (answer.get? "selected_coins").or (answer.get? "coins")
    | .error _ => brought
  | _, _ => brought

theorem coinsAt_of_answer {job : Job} {answer : Fields}
    (hj : Job.parse s.files request .deriveWhenAbsent = .ok job)
    (hno : Selection.ofJson? (request.get? "selected_coins") = none)
    (hb : (s.invoke .coinSelector (.obj (toSelector job))).run h = (.ok answer, h')) :
    s.coinsAt request h = (answer.get? "selected_coins").or (answer.get? "coins") := by
  simp only [coinsAt, hno, hj, hb]

/-- Coins that are found for a job are those that the checks look at. -/
theorem coinsAt_of_coinsFor {job : Job} {selection : Selection}
    (hj : Job.parse s.files request .deriveWhenAbsent = .ok job)
    (hc : (s.coinsFor request job).run h = (.ok selection, h')) :
    Selection.ofJson? (s.coinsAt request h) = some selection := by
  cases hbrought : Selection.ofJson? (request.get? "selected_coins") with
  | some found =>
    simp only [coinsFor, hbrought] at hc
    cases hc
    simp only [coinsAt, hbrought]
  | none =>
    rw [run_coinsFor hbrought] at hc
    cases hb : (s.invoke .coinSelector (.obj (toSelector job))).run h with
    | mk found k =>
      rw [hb] at hc
      cases found with
      | error failure => cases hc
      | ok answer =>
        rw [coinsAt_of_answer hj hbrought hb]
        dsimp only at hc
        unfold selectorCoins at hc
        split at hc
        · next found hfound =>
          cases hc
          exact hfound
        · cases hc

theorem handoff_of_hands (hh : s.Hands request stage h hop fields h') :
    stage.handoff s.files request (s.coinsAt request h) = .ok fields := by
  cases hh with
  | route hf => simp only [Stage.handoff, hf, Except.map]
  | worker hf | signer hf | rawEngine hf | submit hf => exact hf
  | builder hj hc hf =>
    simp only [Stage.handoff, toBuilt, hj, Check.coinsIn, coinsAt_of_coinsFor hj hc]
    exact hf

theorem handoff_of_refuses {cause : Rejection} (hr : s.Refuses request stage h cause h') :
    stage.handoff s.files request (s.coinsAt request h) = .error cause := by
  cases hr with
  | route hf => simp only [Stage.handoff, hf, Except.map]
  | worker hf | signer hf | rawEngine hf | submit hf => exact hf
  | job hj =>
    simp only [Stage.handoff, toBuilt, hj]
    rfl
  | coins hj hno hb hf =>
    simp only [Stage.handoff, toBuilt, hj, coinsAt_of_answer hj hno hb]
    show selectorCoins _ >>= _ = _
    rw [hf]
    rfl
  | total hj hc hf =>
    simp only [Stage.handoff, toBuilt, hj, Check.coinsIn, coinsAt_of_coinsFor hj hc]
    exact hf

/-! ## What an answered stage makes of its request -/

section
variable (hanswered : ∀ failure h', ¬ s.Unanswered request stage h failure h')
include hanswered

theorem hands_of_handoff (hok : stage.handoff s.files request (s.coinsAt request h) = .ok fields) :
    ∃ hop fields h', s.Hands request stage h hop fields h' := by
  rcases run_kinds s stage request h with ⟨cause, h', hr⟩ | ⟨failure, h', hu⟩ | hands
  · rw [handoff_of_refuses hr] at hok
    cases hok
  · exact absurd hu (hanswered failure h')
  · exact hands

theorem run_of_handoff {cause : Rejection}
    (herror : stage.handoff s.files request (s.coinsAt request h) = .error cause) :
    ((s.run stage request).run h).1 = .ofRejection cause := by
  rcases run_kinds s stage request h with
    ⟨found, h', hr⟩ | ⟨failure, h', hu⟩ | ⟨hop, fields, h', hh⟩
  · rw [handoff_of_refuses hr] at herror
    cases herror
    rw [run_of_refuses hr]
  · exact absurd hu (hanswered failure h')
  · rw [handoff_of_hands hh] at herror
    cases herror

end

/-- **The first failure wins.** A stage whose question for coins, if it has one, is answered accepts
a request exactly if all its checks pass. Otherwise just one of the checks that fail decides, the
one of the lowest rank and among its like the first, and its cause is all that the stage reports. -/
theorem run_of_first_failure (s : Surroundings) (stage : Stage) (request : Fields) (h : History)
    (hanswered : ∀ failure h', ¬ s.Unanswered request stage h failure h') :
    let checks := stage.checks s.files request (s.coinsAt request h)
    ((∃ hop fields h', s.Hands request stage h hop fields h') ↔ ∀ c ∈ checks, c.Passes) ∧
    ((∃ c ∈ checks, ¬ c.Passes) → ∃ c : Check, c.Decides checks ∧
      (∀ d : Check, d.Decides checks → d = c) ∧
      ((s.run stage request).run h).1 = .ofRejection c.cause) := by
  intro checks
  rcases stage.handoff_cases s.files request (s.coinsAt request h) with
    ⟨hpass, fields, hok⟩ | ⟨c, hdecides, herror⟩
  · refine ⟨iff_of_true (hands_of_handoff hanswered hok) hpass, ?_⟩
    rintro ⟨d, hd, hfails⟩
    exact absurd (hpass d hd) hfails
  · refine ⟨iff_of_false ?_ ?_, fun _ => ⟨c, hdecides, fun d hd => hd.unique hdecides,
      run_of_handoff hanswered herror⟩⟩
    · rintro ⟨hop, fields, h', hh⟩
      rw [handoff_of_hands hh] at herror
      cases herror
    · intro hpass
      exact hdecides.fails (hpass c hdecides.mem)

/-- A request with three faults: a foreign asset, no plan and no coins. -/
def faultyRequest : Fields :=
  (((splitRequest 30 2 60 50).insert "asset_id" (.str "cat")).erase "plan").erase "selected_coins"

theorem run_of_faultyRequest :
    ((stocked.run .builder faultyRequest).run {}).1 =
      .skipped "asset_not_supported_yet" none [] := by
  have hunasked : ∀ failure h', ¬ stocked.Unanswered faultyRequest .builder {} failure h' := by
    rintro failure h' ⟨-, -, hb⟩
    cases hb
  obtain ⟨-, hfirst⟩ := run_of_first_failure stocked .builder faultyRequest {} hunasked
  have hforeign : ¬ (assetCheck faultyRequest).Passes :=
    (by decide : lowerAscii (faultyRequest.text "asset_id") ∉ nativeAssetIds)
  have hranked : Check.Ranked (namesCheck faultyRequest .missingKeyOrNetworkOrAddress _ ::
      keyringChecks anywhere _ ++ assetCheck faultyRequest :: _) :=
    @Stage.ranked_checks anywhere faultyRequest (stocked.coinsAt faultyRequest {}) .builder
  have hdecides := hranked.decides ?_ hforeign
  · obtain ⟨c, -, hunique, hrun⟩ := hfirst ⟨_, hdecides.mem, hforeign⟩
    rw [hrun, ← hunique _ hdecides]
    rfl
  · simp only [namesCheck, keyringChecks, List.forall_mem_cons]
    exact ⟨by decide, by decide, rfl, nofun⟩

end Surroundings

end CoinRelay
