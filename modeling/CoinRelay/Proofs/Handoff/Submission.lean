import CoinRelay.Relay
import CoinRelay.Proofs.Handoff.Additions
import CoinRelay.Proofs.Handoff.Plans
import CoinRelay.Proofs.Totals

/-! # The engine and the last stage

The engine turns a plan and its coins into additions, and the last stage lets additions out only
where the coins cover them. Both read the same fields but not the same numbers: the engine computes
with whole words, while the last stage reads signed ones. -/

namespace CoinRelay
open Text

theorem Selection.resolve_eq_ok {selection : Selection} {target : Amount}
    {resolved : Selection.Resolved} : selection.resolve target = .ok resolved ↔
      resolved.selected = selection.total ∧ resolved.target = target :=
  Coins.resolve_eq_ok

namespace Handoff

theorem Job.parse_eq_ok {files : Files} {request : Fields} {policy : Plan.TargetPolicy}
    {job : Job} :
    Job.parse files request policy = .ok job ↔
      Identity.parse files request = .ok job.identity ∧ Plan.parse request policy = .ok job.plan ∧
      job.marketId = request.text "market_id" := by
  simp only [Job.parse, bind_eq_ok, pure, Except.pure, Except.ok.injEq]
  constructor
  · rintro ⟨identity, hi, plan, hp, rfl⟩
    exact ⟨hi, hp, rfl⟩
  · rintro ⟨hi, hp, hm⟩
    exact ⟨_, hi, _, hp, by rw [← hm]⟩

/-! ## What the engine hands on -/

/-- The outputs that the engine makes of a job and the coins for it. -/
def Job.outputs (job : Job) (resolved : Selection.Resolved) : List Output :=
  (Outputs.ofPlan job.plan resolved job.identity.receiveAddress).toList

/-- The engine's handoff, once everything is checked. -/
def Job.submission (job : Job) (selection : Selection) (resolved : Selection.Resolved) : Fields :=
  ("additions", additionsJson (job.outputs resolved)) ::
    signingFields job.identity job.marketId job.plan.toJson ++
    [("selected_coins", selection.toJson),
      ("selected_total_base_units", .ofUInt64 resolved.selected)]

theorem toSubmission_eq_ok {files : Files} {request fields : Fields} :
    toSubmission files request = .ok fields ↔ ∃ job selection resolved,
      Job.parse files request .required = .ok job ∧ requestCoins request = .ok selection ∧
      selection.resolve job.plan.target = .ok resolved ∧
      fields = job.submission selection resolved := by
  simp only [toSubmission, bind_eq_ok, pure, Except.pure, Except.ok.injEq]
  constructor
  · rintro ⟨job, hj, selection, hs, resolved, hr, rfl⟩
    exact ⟨job, selection, resolved, hj, hs, hr, rfl⟩
  · rintro ⟨job, selection, resolved, hj, hs, hr, rfl⟩
    exact ⟨job, hj, selection, hs, resolved, hr, rfl⟩

namespace Job
variable (job : Job) (selection : Selection) (resolved : Selection.Resolved)

theorem get?_additions : (job.submission selection resolved).get? "additions" =
    some (additionsJson (job.outputs resolved)) := by
  simp [submission, Fields.get?_cons]

theorem get?_plan :
    (job.submission selection resolved).get? "plan" = some job.plan.toJson := by
  simp [submission, signingFields, Fields.get?_cons]

theorem get?_coins :
    (job.submission selection resolved).get? "selected_coins" = some selection.toJson := by
  simp [submission, signingFields, Fields.get?_cons]

theorem get?_total : (job.submission selection resolved).get? "selected_total_base_units" =
    some (.ofUInt64 resolved.selected) := by
  simp [submission, signingFields, Fields.get?_cons]

theorem get?_identity :
    ∀ m ∈ job.identity.toFields, (job.submission selection resolved).get? m.1 = some m.2 := by
  simp [Identity.toFields, submission, signingFields, Fields.get?_cons]

theorem outputs_eq : job.outputs resolved =
    List.replicate job.plan.count.toNat ⟨job.identity.receiveAddress, job.plan.size⟩ ++
      (if resolved.change = 0 then [] else [⟨job.identity.receiveAddress, resolved.change⟩]) := by
  unfold outputs Outputs.toList Outputs.ofPlan
  dsimp only
  split <;> rfl

variable {job selection resolved}

/-- With coins for its target the outputs of a job come to the selection, and beyond it to whatever
its plan makes beyond the target. -/
theorem exactTotal_outputs (hr : selection.resolve job.plan.target = .ok resolved) :
    Output.exactTotal (job.outputs resolved) + job.plan.target.toNat =
      selection.total.toNat + job.plan.size.toNat * job.plan.count.toNat := by
  obtain ⟨hselected, htarget⟩ := Selection.resolve_eq_ok.1 hr
  have hsum := Outputs.exactTotal_ofPlan job.plan resolved job.identity.receiveAddress
  rwa [hselected, htarget] at hsum

theorem exactTotal_outputs_of_derived (hr : selection.resolve job.plan.target = .ok resolved)
    (hderived : job.plan.TargetDerived) :
    Output.exactTotal (job.outputs resolved) = selection.total.toNat := by
  have hsum := exactTotal_outputs hr
  rwa [← hderived, Nat.add_right_cancel_iff] at hsum

end Job

/-! A request to split one coin, on files that are all there. -/

def anywhere : Files := ⟨"/home", fun _ => true, fun _ => none⟩

def splitRequest (size count target coin : Amount) : Fields := [
  ("asset_id", .str "xch"),
  ("key_id", .str "key-main-1"),
  ("keyring_yaml_path", .str "keyring.yaml"),
  ("network", .str "testnet11"),
  ("plan", .obj [("op_count", .ofUInt64 count), ("op_type", .str "split"),
    ("size_base_units", .ofUInt64 size), ("target_total_base_units", .ofUInt64 target)]),
  ("receive_address", .str "xch1receive"),
  ("selected_coins", .arr [.obj [("amount", .ofUInt64 coin)]])]

/-- **What the engine's additions come to**: the selection, and beyond it whatever the outputs of
the plan come to beyond its target. -/
theorem submission_accounts_for_target {files : Files} {request fields : Fields}
    (h : toSubmission files request = .ok fields) :
    ∃ plan selection outputs,
      Plan.parse request .required = .ok plan ∧ requestCoins request = .ok selection ∧
      fields.get? "additions" = some (additionsJson outputs) ∧
      fields.get? "plan" = some plan.toJson ∧
      fields.get? "selected_coins" = some selection.toJson ∧
      fields.get? "selected_total_base_units" = some (.ofUInt64 selection.total) ∧
      Output.exactTotal outputs + plan.target.toNat =
        selection.total.toNat + plan.size.toNat * plan.count.toNat ∧
      (Output.exactTotal outputs = selection.total.toNat ↔ plan.TargetDerived) := by
  obtain ⟨job, selection, resolved, hj, hs, hr, rfl⟩ := toSubmission_eq_ok.1 h
  have hsum := Job.exactTotal_outputs hr
  refine ⟨job.plan, selection, job.outputs resolved, (Job.parse_eq_ok.1 hj).2.1, hs,
    job.get?_additions .., job.get?_plan .., job.get?_coins .., ?_, hsum, ?_⟩
  · rw [job.get?_total, (Selection.resolve_eq_ok.1 hr).1]
  · unfold Plan.TargetDerived
    omega

theorem submission_accounts_for_target_of_five :
    ∃ fields outputs, toSubmission anywhere (splitRequest 10 2 5 50) = .ok fields ∧
      fields.get? "additions" = some (additionsJson outputs) ∧
      Output.exactTotal outputs + 5 = 50 + 10 * 2 := by
  have h : toSubmission anywhere (splitRequest 10 2 5 50) = .ok _ := rfl
  obtain ⟨plan, selection, outputs, hp, hs, ha, -, -, -, hsum, -⟩ :=
    submission_accounts_for_target h
  have hplan : Plan.parse (splitRequest 10 2 5 50) .required = .ok ⟨.split, 10, 2, 5, ""⟩ := rfl
  have hcoins : requestCoins (splitRequest 10 2 5 50) =
      .ok ⟨[.obj [("amount", .ofUInt64 50)]], by simp⟩ := rfl
  cases hp.symm.trans hplan
  cases hs.symm.trans hcoins
  exact ⟨_, outputs, h, ha, hsum⟩

/-- With a target below what the outputs of the plan come to, the additions exceed the selection. -/
theorem submission_exceeds_selection :
    ¬ ∀ (files : Files) (request fields : Fields) (outputs : List Output) (selected : Amount),
      toSubmission files request = .ok fields →
      fields.get? "additions" = some (additionsJson outputs) →
      fields.get? "selected_total_base_units" = some (.ofUInt64 selected) →
      Output.exactTotal outputs = selected.toNat := by
  intro hall
  have h := hall anywhere (splitRequest 10 2 5 50) _
    [⟨"xch1receive", 10⟩, ⟨"xch1receive", 10⟩, ⟨"xch1receive", 45⟩] 50 rfl rfl rfl
  exact absurd h (by decide)

/-! ## What the last stage lets out -/

/-- The last handoff, once everything is checked. -/
def signSubmission (request : Fields) (identity : Identity) (additions : List Output)
    (selection : Selection) : Fields :=
  ("additions", additionsJson additions) ::
    signingFields identity (request.text "market_id") ((request.get? "plan").getD .null) ++
    [("selected_coins", selection.toJson)]

theorem toSignSubmit_eq {files : Files} {request : Fields} {identity : Identity}
    {additions : List Output} {selection : Selection}
    (hi : Identity.parse files request = .ok identity)
    (ha : parseAdditions request = .ok additions) (hs : requestCoins request = .ok selection) :
    toSignSubmit files request =
      if Output.exactTotal additions ≤ selection.total.toNat then
        .ok (signSubmission request identity additions selection)
      else .error .additionsExceedTotal := by
  simp only [toSignSubmit, hi, ha, hs, remainder_eq, bind, Except.bind]
  by_cases hle : Output.exactTotal additions ≤ selection.total.toNat
  · rw [if_pos hle, if_pos hle]
    rfl
  · rw [if_neg hle, if_neg hle]

theorem toSignSubmit_eq_ok {files : Files} {request fields : Fields} :
    toSignSubmit files request = .ok fields ↔ ∃ identity additions selection,
      Identity.parse files request = .ok identity ∧ parseAdditions request = .ok additions ∧
      requestCoins request = .ok selection ∧
      Output.exactTotal additions ≤ selection.total.toNat ∧
      fields = signSubmission request identity additions selection := by
  constructor
  · intro h
    have hchecks := h
    simp only [toSignSubmit, bind_eq_ok] at hchecks
    obtain ⟨identity, hi, additions, ha, selection, hs, -⟩ := hchecks
    rw [toSignSubmit_eq hi ha hs] at h
    split at h
    · next hle =>
      cases h
      exact ⟨identity, additions, selection, hi, ha, hs, hle, rfl⟩
    · cases h
  · rintro ⟨identity, additions, selection, hi, ha, hs, hle, rfl⟩
    rw [toSignSubmit_eq hi ha hs, if_pos hle]

/-- The additions that the last stage lets out, the coins that pay for them, and the request that
both come from. -/
structure Covered (request fields : Fields) (additions : List Output) (selection : Selection) :
    Prop where
  written : fields.get? "additions" = some (additionsJson additions)
  coins : fields.get? "selected_coins" = some selection.toJson
  inOrder : ∃ items, request.get? "additions" = some (.arr items) ∧
    List.Forall₂ Output.Reads items additions
  payable : ∀ o ∈ additions, o.address ≠ "" ∧ 0 < o.amount.toNat
  covered : Output.exactTotal additions ≤ selection.exactTotal

theorem covered_signSubmission {request : Fields} {identity : Identity} {additions : List Output}
    {selection : Selection} (ha : parseAdditions request = .ok additions)
    (hle : Output.exactTotal additions ≤ selection.total.toNat) :
    Covered request (signSubmission request identity additions selection) additions selection := by
  obtain ⟨items, hitems, hread⟩ := parseAdditions_eq_ok.1 ha
  have hall := hread.imp fun _ _ => Output.ofAddition_eq_ok.1
  refine ⟨?_, ?_, ⟨items, (Fields.listAt?_eq_some.1 hitems).1, hall.imp fun _ _ h => h.1⟩, ?_,
    Nat.le_trans hle selection.toNat_total_le⟩
  · simp [signSubmission, Fields.get?_cons]
  · simp [signSubmission, signingFields, Fields.get?_cons]
  · intro o ho
    obtain ⟨item, -, h⟩ := exists_of_forall₂ hall ho
    exact h.2

end Handoff

/-- **No overspend leaves the last stage.** A request that passes the other checks is handed on for
signing exactly when the coins cover its additions; the rest is refused before anything is
delegated. -/
theorem submit_forwards_iff_covered {s : Surroundings} {request : Fields} {identity : Identity}
    {additions : List Output} {selection : Selection}
    (hi : Identity.parse s.files request = .ok identity)
    (ha : parseAdditions request = .ok additions)
    (hs : Handoff.requestCoins request = .ok selection) :
    ((∃ fields, Handoff.toSignSubmit s.files request = .ok fields) ↔
      Output.exactTotal additions ≤ selection.total.toNat) ∧
    (∀ fields, Handoff.toSignSubmit s.files request = .ok fields →
      Handoff.Covered request fields additions selection ∧
      s.run .submit request = (do
        let outcome ← s.forward .signSubmit (.obj fields) "submit_request"
        return Surroundings.checkBundle (.obj fields) outcome)) ∧
    (¬ Output.exactTotal additions ≤ selection.total.toNat →
      s.run .submit request = pure (.ofRejection .additionsExceedTotal)) := by
  have heq := Handoff.toSignSubmit_eq hi ha hs
  refine ⟨?_, ?_, ?_⟩
  · rw [heq]
    split
    · next hle => exact ⟨fun _ => hle, fun _ => ⟨_, rfl⟩⟩
    · next hgt => exact ⟨fun ⟨_, h⟩ => (nomatch h), fun hle => absurd hle hgt⟩
  · intro fields hf
    have hrun : s.run .submit request = (do
        let outcome ← s.forward .signSubmit (.obj fields) "submit_request"
        return Surroundings.checkBundle (.obj fields) outcome) := by
      simp only [Surroundings.run, Surroundings.submit, hf]
    refine ⟨?_, hrun⟩
    rw [heq] at hf
    split at hf
    · next hle =>
      cases hf
      exact Handoff.covered_signSubmission ha hle
    · cases hf
  · intro hgt
    rw [if_neg hgt] at heq
    simp only [Surroundings.run, Surroundings.submit, heq]

/-- One output paid with one coin. -/
def Handoff.payRequest (amount coin : Amount) : Fields :=
  ("additions", additionsJson [⟨"xch1receive", amount⟩]) :: splitRequest 10 2 20 coin

/-- A coin of 50 pays for 50 units and not for 51. -/
theorem submit_forwards_fifty_of_fifty :
    (∃ fields, Handoff.toSignSubmit Handoff.anywhere (Handoff.payRequest 50 50) = .ok fields) ∧
      Surroundings.run ⟨{}, Handoff.anywhere, fun _ => pure (.ok [])⟩ .submit
        (Handoff.payRequest 51 50) = pure (.ofRejection .additionsExceedTotal) := by
  let s : Surroundings := ⟨{}, Handoff.anywhere, fun _ => pure (.ok [])⟩
  let identity : Identity := ⟨"key-main-1", "testnet11", "xch1receive", "keyring.yaml", "xch"⟩
  let selection : Selection := ⟨[.obj [("amount", .ofUInt64 50)]], by simp⟩
  have hi50 : Identity.parse Handoff.anywhere (Handoff.payRequest 50 50) = .ok identity := rfl
  have hi51 : Identity.parse Handoff.anywhere (Handoff.payRequest 51 50) = .ok identity := rfl
  have ha50 : parseAdditions (Handoff.payRequest 50 50) = .ok [⟨"xch1receive", 50⟩] := rfl
  have ha51 : parseAdditions (Handoff.payRequest 51 50) = .ok [⟨"xch1receive", 51⟩] := rfl
  have hs50 : Handoff.requestCoins (Handoff.payRequest 50 50) = .ok selection := rfl
  have hs51 : Handoff.requestCoins (Handoff.payRequest 51 50) = .ok selection := rfl
  exact ⟨(submit_forwards_iff_covered (s := s) hi50 ha50 hs50).1.2 (by decide),
    (submit_forwards_iff_covered (s := s) hi51 ha51 hs51).2.2 (by decide)⟩

namespace Handoff

/-! ## From the engine to the last stage -/

/-- A request passes every check of the last stage, and its balance leaves a remainder. -/
def PassesLast (files : Files) (request : Fields) (left : Amount) : Prop :=
  ∃ identity additions selection, Identity.parse files request = .ok identity ∧
    parseAdditions request = .ok additions ∧ requestCoins request = .ok selection ∧
    remainder selection.total additions = .ok left

theorem Job.identity_submission {files : Files} {request : Fields} {policy : Plan.TargetPolicy}
    {job : Job} (h : Job.parse files request policy = .ok job) (selection : Selection)
    (resolved : Selection.Resolved) :
    Identity.parse files (job.submission selection resolved) = .ok job.identity :=
  (Identity.valid_of_parse (Job.parse_eq_ok.1 h).1).parse (job.get?_identity selection resolved)

theorem Job.mem_outputs {job : Job} {resolved : Selection.Resolved} {o : Output} :
    o ∈ job.outputs resolved ↔ o.address = job.identity.receiveAddress ∧
      ((0 < job.plan.count.toNat ∧ o.amount = job.plan.size) ∨
        (resolved.change ≠ 0 ∧ o.amount = resolved.change)) := by
  obtain ⟨address, amount⟩ := o
  rw [job.outputs_eq, List.mem_append, List.mem_replicate]
  split
  · next h => simp [h]; grind
  · next h => simp [h]; grind

/-- Every output is sent on if the change is a signed word. -/
theorem Job.sendable_outputs {files : Files} {request : Fields} {policy : Plan.TargetPolicy}
    {job : Job} {resolved : Selection.Resolved} (h : Job.parse files request policy = .ok job)
    (hc : (resolved.change.toNat : Int) < Word.signedBound) :
    ∀ o ∈ job.outputs resolved, o.Sendable := by
  intro o ho
  obtain ⟨hi, hp, -⟩ := Job.parse_eq_ok.1 h
  have hvalid := Identity.valid_of_parse hi
  have hplan := Plan.valid_of_parse hp
  obtain ⟨haddr, hamount⟩ := Job.mem_outputs.1 ho
  have haddress : o.address ≠ "" ∧ Trimmed o.address.toList := by
    rw [haddr]
    exact ⟨hvalid.present _ (by simp), hvalid.trimmed _ (by simp)⟩
  rcases hamount with ⟨hcount, hsize⟩ | ⟨hne, hchange⟩
  · refine ⟨haddress, hsize ▸ hplan.size_pos, ?_⟩
    have hmul := Nat.le_mul_of_pos_right job.plan.size.toNat hcount
    have := hplan.total_lt
    rw [hsize]
    omega
  · refine ⟨haddress, ?_, hchange ▸ hc⟩
    rw [hchange]
    exact Nat.pos_of_ne_zero fun h0 => hne (UInt64.toNat_inj.1 h0)

/-- **What the engine hands on, the last stage accepts** exactly when the change is a signed word;
then nothing remains. Larger change is written as it is, but no reader of additions takes it. -/
theorem submission_accepted_iff {files : Files} {request fields : Fields}
    (h : toSubmission files request = .ok fields) :
    ∃ job selection resolved, Job.parse files request .required = .ok job ∧
      requestCoins request = .ok selection ∧ selection.resolve job.plan.target = .ok resolved ∧
      (job.plan.TargetDerived →
        ((resolved.change.toNat : Int) < Word.signedBound →
          PassesLast files fields 0 ∧ ∃ next, toSignSubmit files fields = .ok next) ∧
        (Word.signedBound ≤ resolved.change.toNat →
          toSignSubmit files fields = .error .invalidAdditions)) := by
  obtain ⟨job, selection, resolved, hj, hs, hr, rfl⟩ := toSubmission_eq_ok.1 h
  refine ⟨job, selection, resolved, hj, hs, hr, ?_⟩
  intro hderived
  have hplan := Plan.valid_of_parse (Job.parse_eq_ok.1 hj).2.1
  have hi := Job.identity_submission hj selection resolved
  have hcoins := requestCoins_eq_ok.2 (job.get?_coins selection resolved)
  constructor
  · intro hc
    have hne : job.outputs resolved ≠ [] := by
      have hcount := hplan.count_pos
      rw [job.outputs_eq]
      intro hnil
      have hlen := congrArg List.length (List.append_eq_nil_iff.1 hnil).1
      simp at hlen
      omega
    have ha := parseAdditions_additionsJson (job.get?_additions selection resolved) hne
      (Job.sendable_outputs hj hc)
    have hbalance := Job.exactTotal_outputs_of_derived hr hderived
    refine ⟨⟨_, _, _, hi, ha, hcoins, ?_⟩, ?_⟩
    · rw [remainder_eq, hbalance, if_pos (Nat.le_refl _), Nat.sub_self]
      rfl
    · rw [toSignSubmit_eq hi ha hcoins, if_pos (Nat.le_of_eq hbalance)]
      exact ⟨_, rfl⟩
  · intro hlarge
    have hne : resolved.change ≠ 0 := by
      intro h0
      simp [h0, Word.signedBound] at hlarge
    have ha := parseAdditions_additionsJson_of_large (job.get?_additions selection resolved)
      (o := ⟨job.identity.receiveAddress, resolved.change⟩)
      (Job.mem_outputs.2 ⟨rfl, .inr ⟨hne, rfl⟩⟩) hlarge
    simp only [toSignSubmit, hi, ha, bind, Except.bind]

theorem submission_accepted_of_fifty :
    ∃ fields, toSubmission anywhere (splitRequest 10 2 20 50) = .ok fields ∧
      PassesLast anywhere fields 0 := by
  have h : toSubmission anywhere (splitRequest 10 2 20 50) = .ok _ := rfl
  obtain ⟨job, selection, resolved, hj, hs, hr, haccepted⟩ := submission_accepted_iff h
  have hjob : Job.parse anywhere (splitRequest 10 2 20 50) .required = .ok
      ⟨⟨"key-main-1", "testnet11", "xch1receive", "keyring.yaml", "xch"⟩, "", .split, 10, 2, 20,
        ""⟩ := rfl
  have hcoins : requestCoins (splitRequest 10 2 20 50) =
      .ok ⟨[.obj [("amount", .ofUInt64 50)]], by simp⟩ := rfl
  cases hj.symm.trans hjob
  cases hs.symm.trans hcoins
  have hresolved : Selection.resolve ⟨[.obj [("amount", .ofUInt64 50)]], by simp⟩ 20 =
      .ok ⟨50, 20, by decide⟩ := rfl
  cases hr.symm.trans hresolved
  exact ⟨_, h, ((haccepted rfl).1 (by decide)).1⟩

/-- A single coin of the largest amount, with one base unit split off, leaves change that the engine
writes and the last stage refuses. -/
theorem submission_refused_of_largest_coin :
    ¬ ∀ (files : Files) (request fields : Fields) (job : Job),
      Job.parse files request .required = .ok job → job.plan.TargetDerived →
      toSubmission files request = .ok fields → PassesLast files fields 0 := by
  intro hall
  have hjob : Job.parse anywhere (splitRequest 1 1 1 18446744073709551615) .required = .ok
      ⟨⟨"key-main-1", "testnet11", "xch1receive", "keyring.yaml", "xch"⟩, "", .split, 1, 1, 1,
        ""⟩ := rfl
  have hsubmission : toSubmission anywhere (splitRequest 1 1 1 18446744073709551615) = .ok _ := rfl
  obtain ⟨identity, additions, selection, -, ha, -, -⟩ := hall _ _ _ _ hjob rfl hsubmission
  cases ha

end Handoff

end CoinRelay
