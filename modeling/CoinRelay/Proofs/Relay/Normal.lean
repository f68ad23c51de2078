import CoinRelay.Proofs.Chain.Acceptance
import CoinRelay.Proofs.Relay.OwnCalls

/-! # Handoffs that are handed on again

Route, builder, engine and the last stage write a request in the form in which they checked it, and
what they derive they write beside it. So each of them reads its own handoff as it was meant,
derives the same again, and hands on what it was given. -/

namespace CoinRelay
open Handoff Text

/-- Setting a key to the value that it has changes nothing. -/
theorem Fields.Ascending.insert_eq_self {fields : Fields} (h : fields.Ascending) {key : String}
    {v : Json} (hget : fields.get? key = some v) : fields.insert key v = fields := by
  refine (h.insert key v).ext h fun k => ?_
  by_cases hk : k = key
  · rw [hk, Fields.get?_insert_self, hget]
  · rw [Fields.get?_insert_of_ne _ _ hk]

namespace Handoff
variable {files : Files} {request fields : Fields}

/-! ## Route -/

theorem get?_routed (request : Fields) (source : KeySource) :
    (routed request source).get? "selected_source" = some (.str source.name) ∧
      (routed request source).get? "key_id" = some (.str (request.text "key_id")) ∧
      (routed request source).get? "network" = some (.str (request.text "network")) := by
  refine ⟨?_, ?_, Fields.get?_insert_self ..⟩
  · rw [routed, Fields.get?_insert_of_ne _ _ (by decide), Fields.get?_insert_of_ne _ _ (by decide),
      Fields.get?_insert_self]
  · rw [routed, Fields.get?_insert_of_ne _ _ (by decide), Fields.get?_insert_self]

theorem routed_eq_self {source : KeySource} (ha : fields.Ascending)
    (hsource : fields.get? "selected_source" = some (.str source.name))
    (hkey : fields.get? "key_id" = some (.str (fields.text "key_id")))
    (hnetwork : fields.get? "network" = some (.str (fields.text "network"))) :
    routed fields source = fields := by
  rw [routed, ha.insert_eq_self hsource, ha.insert_eq_self hkey, ha.insert_eq_self hnetwork]

theorem toExecutor_again {source : KeySource} (hr : request.Ascending)
    (h : toExecutor request = .ok (source, fields)) : toExecutor fields = .ok (source, fields) := by
  obtain ⟨ha, -⟩ := ascending_toExecutor hr h
  obtain ⟨hkey, hnetwork, -, rfl⟩ := toExecutor_eq_ok.1 h
  obtain ⟨hgetSource, hgetKey, hgetNetwork⟩ := get?_routed request source
  have htextSource := Fields.text_of_get?_str hgetSource (trimmed_name source)
  have htextKey := Fields.text_of_get?_str hgetKey (request.trimmed_text _)
  have htextNetwork := Fields.text_of_get?_str hgetNetwork (request.trimmed_text _)
  have hsame := routed_eq_self ha hgetSource (htextKey ▸ hgetKey) (htextNetwork ▸ hgetNetwork)
  exact toExecutor_eq_ok.2 ⟨by rwa [htextKey], by rwa [htextNetwork],
    by rw [htextSource, ofName?_name], hsame.symm⟩

/-! ## Builder and engine -/

theorem toBundleSigner_coins {job : Job} {selection : Selection}
    (h : toBundleSigner job selection = .ok fields) :
    job.Carried fields ∧ fields.get? "selected_coins" = some selection.toJson := by
  obtain ⟨-, rfl⟩ := toBundleSigner_eq_ok.1 h
  exact ⟨job.carried_append _, by simp [signingFields, Fields.get?_cons]⟩

theorem Job.carried_submission (job : Job) (selection : Selection)
    (resolved : Selection.Resolved) : job.Carried (job.submission selection resolved) := by
  intro m hm
  simp only [signingFields, List.mem_cons, List.not_mem_nil, or_false] at hm
  rcases hm with rfl | rfl | rfl | rfl | rfl | rfl | rfl <;>
    simp [Job.submission, signingFields, Fields.get?_cons]

theorem toSubmission_again (h : toSubmission files request = .ok fields) :
    toSubmission files fields = .ok fields := by
  obtain ⟨job, selection, resolved, hj, -, hr, rfl⟩ := toSubmission_eq_ok.1 h
  have hagain : Job.parse files (job.submission selection resolved) .required = .ok job :=
    (Job.valid_of_parse hj).parse (job.carried_submission selection resolved) (by decide)
  exact toSubmission_eq_ok.2 ⟨job, selection, resolved, hagain,
    requestCoins_eq_ok.2 (job.get?_coins selection resolved), hr, rfl⟩

/-! ## The last stage -/

/-- Additions that were read can be written and read again. -/
theorem sendable_of_parseAdditions {additions : List Output}
    (h : parseAdditions request = .ok additions) :
    additions ≠ [] ∧ ∀ o ∈ additions, o.Sendable := by
  obtain ⟨items, hitems, hall⟩ := parseAdditions_eq_ok.1 h
  constructor
  · rintro rfl
    exact (Fields.listAt?_eq_some.1 hitems).2 (List.forall₂_nil_right_iff.1 hall)
  · intro o ho
    obtain ⟨item, -, hitem⟩ := exists_of_forall₂ hall ho
    obtain ⟨⟨members, rfl, haddress, hamount⟩, hne, hpos⟩ := Output.ofAddition_eq_ok.1 hitem
    obtain ⟨v, -, hv⟩ := Option.bind_eq_some_iff.1 hamount
    exact ⟨⟨hne, haddress ▸ members.trimmed_text _⟩, hpos, (Json.toInteger?_bounds hv).2⟩

theorem toSignSubmit_again (h : toSignSubmit files request = .ok fields) :
    toSignSubmit files fields = .ok fields := by
  obtain ⟨identity, additions, selection, hi, ha, -, hle, rfl⟩ := toSignSubmit_eq_ok.1 h
  obtain ⟨hne, hsendable⟩ := sendable_of_parseAdditions ha
  have hwritten : ∀ m ∈ identity.toFields,
      (signSubmission request identity additions selection).get? m.1 = some m.2 := by
    simp [Identity.toFields, signSubmission, signingFields, Fields.get?_cons]
  have hadditions : parseAdditions (signSubmission request identity additions selection) =
      .ok additions :=
    parseAdditions_additionsJson (by simp [signSubmission, Fields.get?_cons]) hne hsendable
  have hcoins : requestCoins (signSubmission request identity additions selection) =
      .ok selection :=
    requestCoins_eq_ok.2 (by simp [signSubmission, signingFields, Fields.get?_cons])
  have hmarket : (signSubmission request identity additions selection).text "market_id" =
      request.text "market_id" :=
    Fields.text_of_get?_str (by simp [signSubmission, signingFields, Fields.get?_cons])
      (request.trimmed_text _)
  have hplan : (signSubmission request identity additions selection).get? "plan" =
      some ((request.get? "plan").getD .null) := by
    simp [signSubmission, signingFields, Fields.get?_cons]
  refine toSignSubmit_eq_ok.2 ⟨identity, additions, selection,
    (Identity.valid_of_parse hi).parse hwritten, hadditions, hcoins, hle, ?_⟩
  conv_rhs => rw [signSubmission, hmarket, hplan]
  rfl

end Handoff

namespace Surroundings
variable {s again : Surroundings} {stage : Stage} {request fields : Fields} {hop : Hop}
variable {h h' : History}

/-! ## The same stage once more -/

theorem coinsFor_of_coins {job : Job} {selection : Selection}
    (hcoins : fields.get? "selected_coins" = some selection.toJson) (h : History) :
    (s.coinsFor fields job).run h = (.ok selection, h) := by
  simp only [coinsFor, ofJson?_eq_some.2 hcoins]
  rfl

theorem asked?_of_coins {selection : Selection}
    (hcoins : fields.get? "selected_coins" = some selection.toJson) :
    s.asked? .builder fields = none := by
  cases hasked : s.asked? .builder fields with
  | none => rfl
  | some call =>
    obtain ⟨-, job, -, hno, -⟩ := asked?_eq_some.1 hasked
    rw [ofJson?_eq_some.2 hcoins] at hno
    cases hno

/-- The builder finds the coins in its own handoff, wherever it had them from. -/
theorem builder_hands_again (hfiles : again.files = s.files)
    (hh : s.Hands request .builder h hop fields h') (k : History) :
    again.Hands fields .builder k hop fields k ∧ again.asked? .builder fields = none := by
  cases hh with
  | builder hj hc hf =>
    obtain ⟨hcarried, hcoins⟩ := toBundleSigner_coins hf
    have hread : Job.parse again.files fields .deriveWhenAbsent = .ok _ :=
      hfiles ▸ (Job.valid_of_parse hj).parse hcarried (by decide)
    exact ⟨.builder hread (coinsFor_of_coins hcoins k) hf, asked?_of_coins hcoins⟩

/-- **A handoff is in normal form.** Whatever route, builder, engine or the last stage hand on for a
request, on the same files they hand on just that for what they handed on. This is the only call
that they can then make: the builder does not ask for coins again, wherever it had them from. -/
theorem hands_again (hstage : stage ∈ [Stage.route, .builder, .rawEngine, .submit])
    (hr : request.Ascending) (hh : s.Hands request stage h hop fields h')
    (hfiles : again.files = s.files) (k : History) :
    again.Hands fields stage k hop fields k ∧ again.asked? stage fields = none ∧
      ((again.run stage fields).run k).2 = again.perform (again.callOf? hop fields).toList k := by
  have hagain : again.Hands fields stage k hop fields k ∧ again.asked? stage fields = none := by
    cases hh with
    | route hf => exact ⟨.route (toExecutor_again hr hf), rfl⟩
    | worker | signer => simp at hstage
    | builder hj hc hf => exact builder_hands_again hfiles (.builder hj hc hf) k
    | rawEngine hf => exact ⟨.rawEngine (hfiles ▸ toSubmission_again hf), rfl⟩
    | submit hf => exact ⟨.submit (hfiles ▸ toSignSubmit_again hf), rfl⟩
  refine ⟨hagain.1, hagain.2, ?_⟩
  rw [run_of_hands hagain.1]
  exact history_invoke again hop fields k

/-- The builder asks for coins and attaches them; on what it handed on it no longer asks. -/
theorem hands_again_of_stocked :
    ∃ fields h', stocked.Hands coinlessRequest .builder {} .bundleSigner fields h' ∧
      h'.calls.map Call.hop = [.coinSelector] ∧
      stocked.Hands fields .builder {} .bundleSigner fields {} ∧
      ((stocked.run .builder fields).run {}).2.calls.map Call.hop = [.bundleSigner] := by
  have hr : coinlessRequest.Ascending := ((holds_splitRequest 10 2 20 50).erase _).ascending
  have hj : Job.parse anywhere coinlessRequest .deriveWhenAbsent = .ok _ := rfl
  have hh : stocked.Hands coinlessRequest .builder {} .bundleSigner _ _ := .builder hj rfl rfl
  obtain ⟨hagain, -, hcalls⟩ := hands_again (by decide) hr hh (rfl : stocked.files = _) {}
  refine ⟨_, _, hh, rfl, hagain, ?_⟩
  rw [hcalls]
  rfl

end Surroundings

end CoinRelay
