import CoinRelay.Proofs.Chain.Transparency

/-! # Where a spend bundle comes from

Only the last stage looks at a spend bundle. A stage before it passes on what the answer of its hop
says, so along a chain a spend bundle is real unless a program from outside answers in the place of
a stage that would have looked at it. -/

namespace CoinRelay
open Handoff Text

variable {reason hex tag : String} {id : Option String}

namespace Outcome

theorem withPartial_eq_executed {outcome : Outcome} {key : String} {value : Json} :
    outcome.withPartial key value = .executed reason id hex ↔
      outcome = .executed reason id hex := by
  cases outcome with
  | executed => rfl
  | skipped => simp [withPartial]

/-! ## The status on the wire -/

/-- Nothing is reported under the key of the status. -/
def Unclaimed (outcome : Outcome) : Prop := ∀ m ∈ outcome.partials, m.1 ≠ "status"

theorem Unclaimed.withPartial {outcome : Outcome} (h : outcome.Unclaimed) {key : String}
    (value : Json) (hkey : key ≠ "status") : (outcome.withPartial key value).Unclaimed := by
  cases outcome with
  | executed => exact h
  | skipped =>
    intro m hm
    rcases Fields.mem_insertIfNew hm with rfl | hm
    · exact hkey
    · exact h m hm

theorem unclaimed_ofReply (tag : String) (body : Fields) : (ofReply tag body).Unclaimed := by
  intro m hm hstatus
  rcases ofReply_cases tag body with ⟨-, ho⟩ | ⟨hex, -, -, ho⟩ | ⟨-, -, ho⟩ <;> rw [ho] at hm
  · exact key_of_mem_replyPartials hm (by simp [hstatus, ownKeys])
  · cases hm
  · cases hm

theorem Unclaimed.tail_members {outcome : Outcome} (h : outcome.Unclaimed) :
    ∀ m ∈ outcome.members.tail, m.1 ≠ "status" := by
  intro m hm
  cases outcome with
  | executed =>
    simp only [members, spendBundle?, partials, List.cons_append, List.nil_append, List.tail_cons,
      Option.map_some, Option.toList_some, List.append_nil, List.mem_cons, List.not_mem_nil,
      or_false] at hm
    rcases hm with rfl | rfl | rfl <;> simp
  | skipped =>
    rcases List.mem_cons.1 hm with rfl | hm
    · simp
    · rcases List.mem_cons.1 hm with rfl | hm
      · simp
      · exact h m hm

/-- Then the reader finds the outcome's own status. -/
theorem Unclaimed.status_of_wire {outcome : Outcome} (h : outcome.Unclaimed) {body : Fields}
    (hb : parseReply outcome.wire = .ok body) :
    body.get? "status" = some (.str outcome.status) := by
  have hmembers : outcome.members = ("status", .str outcome.status) :: outcome.members.tail := rfl
  rw [wire, parseReply_text] at hb
  split at hb
  · split at hb
    · next again hagain =>
      cases hb
      rw [hmembers] at hagain
      obtain ⟨rest, hrest, rfl⟩ := Option.map_eq_some_iff.1 hagain
      have hnone : (Fields.ofList rest).get? "status" = none := by
        rw [Option.eq_none_iff_forall_ne_some]
        intro v hv
        have hkey : "status" ∈ rest.map Prod.fst :=
          List.mem_map_of_mem (Json.mem_ofList (Fields.mem_of_get? hv))
        rw [Json.keys_rereadMembers? hrest] at hkey
        obtain ⟨m, hm, hstatus⟩ := List.mem_map.1 hkey
        exact h.tail_members m hm hstatus
      rw [Fields.get?_ofList_cons, hnone]
      rfl
    · cases hb
  · cases hb

theorem clean_of_silent {Q : Json → Prop} {outcome : Outcome} (hsilent : outcome.partials = [])
    (htrimmed : ∀ text, outcome.spendBundle? = some text → Trimmed text.toList) :
    outcome.Clean Q where
  ascending := hsilent ▸ List.Pairwise.nil
  foreign := fun key _ => by rw [partial?, hsilent, Fields.get?_nil]
  trimmed := htrimmed
  values := by simp [hsilent]

/-- An executed outcome is read only where one was written. -/
theorem Unclaimed.executed_of_wire {outcome : Outcome} (h : outcome.Unclaimed)
    (htrimmed : ∀ text, outcome.spendBundle? = some text → Trimmed text.toList) {body : Fields}
    (hb : parseReply outcome.wire = .ok body)
    (he : ofReply tag body = .executed reason id hex) : outcome = .executed reason id hex := by
  by_cases hsilent : outcome.partials = []
  · -- there are only texts to read back
    have hclean : outcome.Clean Json.Canonical := clean_of_silent hsilent htrimmed
    have hread := hclean.parseReply_wire (by simp [hsilent])
      (depth_members_le.2 (by simp [hsilent]))
    rw [hb] at hread
    rwa [Except.ok.inj hread, hclean.ofReply_members] at he
  · have hskipped : outcome.status = "skipped" := by
      cases outcome with
      | executed => exact absurd rfl hsilent
      | skipped => rfl
    have hstatus : replyStatus body = "skipped" := by
      rw [replyStatus, h.status_of_wire hb, hskipped]
      rfl
    rw [ofReply_of_skipped hstatus] at he
    cases he

end Outcome

namespace Surroundings
variable {s : Surroundings} {stage : Stage} {request : Fields} {hop : Hop} {h k : History}

/-! ## What a stage makes of an answer -/

/-- A stage hands a request on over a hop and is answered; this is the history then. -/
def Answered (s : Surroundings) (request : Fields) (stage : Stage) (h : History) (hop : Hop)
    (body : Fields) (k : History) : Prop :=
  ∃ fields h', s.Hands request stage h hop fields h' ∧
    (s.invoke hop (.obj fields)).run h' = (.ok body, k)

theorem checkBundle_eq_executed {value : Json} {outcome : Outcome} :
    checkBundle value outcome = .executed reason id hex ↔
      outcome = .executed reason id hex ∧ SpendBundle.isHex hex = true := by
  cases outcome with
  | skipped => simp [checkBundle]
  | executed _ _ text =>
    by_cases hreal : SpendBundle.isHex text = true
    · simp only [checkBundle, hreal, if_true, Outcome.executed.injEq]
      constructor
      · rintro ⟨rfl, rfl, rfl⟩
        exact ⟨⟨rfl, rfl, rfl⟩, hreal⟩
      · rintro ⟨hsame, -⟩
        exact hsame
    · simp only [checkBundle, hreal, Outcome.skip, Outcome.withPartial, Outcome.executed.injEq]
      constructor
      · intro hskipped
        cases hskipped
      · rintro ⟨⟨-, -, rfl⟩, hhex⟩
        exact absurd hhex hreal

theorem conclusion_eq_executed {key : String} {value : Json} {answer : Except HopFailure Fields} :
    conclusion hop key value answer = .executed reason id hex ↔
      ∃ body, answer = .ok body ∧ Outcome.ofReply hop.tag body = .executed reason id hex := by
  unfold conclusion
  rw [Outcome.withPartial_eq_executed]
  cases answer with
  | ok body => simp
  | error failure => simp [Outcome.skip]

/-- An executed outcome is what the answer says, and the last stage has looked at its spend
bundle. -/
theorem answered_of_executed
    (he : ((s.run stage request).run h).1 = .executed reason id hex) :
    (stage = .submit → SpendBundle.isHex hex = true) ∧
      ∃ hop body, s.Answered request stage h hop body ((s.run stage request).run h).2 ∧
        Outcome.ofReply hop.tag body = .executed reason id hex := by
  rcases run_cases s stage request h with hstops | ⟨hop, fields, h', hh⟩
  · rw [he] at hstops
    cases hstops
  · rw [run_of_hands hh] at he ⊢
    dsimp only at he ⊢
    have hconclusion : conclusion hop stage.requestKey (.obj fields)
        ((s.invoke hop (.obj fields)).run h').1 = .executed reason id hex := by
      cases stage with
      | submit => exact (checkBundle_eq_executed.1 he).1
      | _ => exact he
    obtain ⟨body, hbody, hmeans⟩ := conclusion_eq_executed.1 hconclusion
    refine ⟨?_, hop, body, ⟨fields, h', hh, Prod.ext hbody rfl⟩, hmeans⟩
    rintro rfl
    exact (checkBundle_eq_executed.1 he).2

theorem trimmed_run {text : String}
    (ht : ((s.run stage request).run h).1.spendBundle? = some text) : Trimmed text.toList := by
  cases ho : ((s.run stage request).run h).1 with
  | executed reason id hex =>
    obtain ⟨-, hop, body, -, hmeans⟩ := answered_of_executed ho
    rw [ho] at ht
    cases ht
    exact Outcome.trimmed_ofReply (by rw [hmeans]; rfl)
  | skipped =>
    rw [ho] at ht
    cases ht

theorem unclaimed_run (s : Surroundings) (stage : Stage) (request : Fields) (h : History) :
    ((s.run stage request).run h).1.Unclaimed := by
  have hskip : ∀ text, (Outcome.skip text).Unclaimed := fun _ => nofun
  rcases run_cases s stage request h with hstops | ⟨hop, fields, h', hh⟩
  · generalize ((s.run stage request).run h).1 = outcome at hstops ⊢
    cases hstops with
    | refused text => exact hskip text
    | unasked _ => exact (hskip _).withPartial _ (by decide)
  · have hconclusion : ∀ answer,
        (conclusion hop stage.requestKey (.obj fields) answer).Unclaimed := by
      intro answer
      refine Outcome.Unclaimed.withPartial ?_ _ (by cases stage <;> decide)
      cases answer with
      | ok body => exact Outcome.unclaimed_ofReply hop.tag body
      | error failure => exact hskip _
    rw [run_of_hands hh]
    cases stage with
    | submit =>
      simp only [review, checkBundle]
      split
      · split
        · exact hconclusion _
        · exact (hskip _).withPartial _ (by decide)
      · exact hconclusion _
    | _ => exact hconclusion _

theorem Hands.hop_not_mem {fields : Fields} {h' : History} (hstage : stage ≠ .submit)
    (hh : s.Hands request stage h hop fields h') : hop ∉ [Hop.coinSelector, .signSubmit] := by
  cases hh with
  | @route source => cases source <;> decide
  | submit => exact absurd rfl hstage
  | _ => decide

end Surroundings

namespace Chain
open Surroundings
variable {config : Config} {files : Files} {program : String} {external : External}

/-! ## Along a chain -/

/-- The last call went to a program from outside, in the place of a stage, and was answered with
this outcome. -/
def EndsOutside (program : String) (external : External) (calls : List Call)
    (outcome : Outcome) : Prop :=
  ∃ call body, calls.getLast? = some call ∧ call.command.program ≠ program ∧
    call.hop ∉ [Hop.coinSelector, .signSubmit] ∧ external calls call = .ok body ∧
    Outcome.ofReply call.hop.tag body = outcome

theorem spendBundle_within (budget : ℕ) {stage : Stage} {request : Fields} {h : History}
    (he : (((within config files program external budget).run stage request).run h).1 =
      .executed reason id hex) :
    SpendBundle.isHex hex = true ∨
      EndsOutside program external
        (((within config files program external budget).run stage request).run h).2.calls
        (.executed reason id hex) := by
  -- on the budget: what a stage of this program answers was executed by a stage with less of it
  induction budget using Nat.strongRecOn generalizing stage request h with
  | ind budget ih =>
    obtain ⟨hsubmit, hop, body, ⟨fields, h', hh, hinvoke⟩, hmeans⟩ := answered_of_executed he
    by_cases hstage : stage = .submit
    · exact .inl (hsubmit hstage)
    · obtain ⟨command, -, hdelegated⟩ := delegated_of_invoke hinvoke
      rcases reply_of_within hdelegated with
        ⟨-, n, next, received, hn, -, -, hread, hk⟩ | ⟨hp, hanswer, hk⟩
      · have hbehind := (unclaimed_run _ next received _).executed_of_wire
          (fun _ => trimmed_run) hread hmeans
        rw [hk]
        exact ih n (by omega) hbehind
      · rw [hk]
        exact .inr ⟨_, body, List.getLast?_concat, hp, hh.hop_not_mem hstage, hanswer, hmeans⟩

/-- **Executed means a real spend bundle**, as far as this program can see to it. The last stage
executes nothing else. Every other stage executes what the answer of its hop says, and no more; so
along a chain the spend bundle is real, or the last call went to a program from outside in the place
of a stage, and the outcome is what that program answered. -/
theorem spendBundle_of_executed (s : Surroundings) (config : Config) (files : Files)
    (program : String) (external : External) (stage : Stage) (request : Fields) (h : History)
    (reason hex : String) (id : Option String) :
    (((s.run stage request).run h).1 = .executed reason id hex →
      (stage = .submit → SpendBundle.isHex hex = true) ∧
      ∃ hop body, s.Answered request stage h hop body ((s.run stage request).run h).2 ∧
        Outcome.ofReply hop.tag body = .executed reason id hex) ∧
    (let ran := ((surroundings config files program external).run stage request).run h
    ran.1 = .executed reason id hex →
      SpendBundle.isHex hex = true ∨
        EndsOutside program external ran.2.calls (.executed reason id hex)) := by
  refine ⟨answered_of_executed, ?_⟩
  intro ran he
  exact spendBundle_within nesting he

/-! ### A child that takes any text for a spend bundle -/

def childReply (text : String) : Fields := [("spend_bundle_hex", .str text)]

/-- Every hop is answered by a child that executed, and this is the spend bundle. -/
def child (text : String) : Surroundings where
  config := { commands := fun _ => some "child" }
  files := anywhere
  delegate := fun _ => return .ok (childReply text)

theorem executed_without_spendBundle :
    ¬ ∀ (s : Surroundings) (stage : Stage) (request : Fields) (h : History) (reason hex : String)
      (id : Option String), ((s.run stage request).run h).1 = .executed reason id hex →
        SpendBundle.isHex hex = true := by
  intro hall
  have hreal := hall (child "not hex") .rawEngine (splitRequest 10 2 20 50) {}
    "sdk_submit_success" "not hex" none rfl
  exact absurd hreal (by decide)

theorem spendBundle_of_child :
    (SpendBundle.isHex "0x00ff" = true ∧
      ∃ hop body, (child " 0x00ff ").Answered Keyring.toSubmission .submit {} hop body
        (((child " 0x00ff ").run .submit Keyring.toSubmission).run {}).2) ∧
    EndsOutside "coin-ops" (fun _ _ => .ok (childReply "not hex"))
      (((surroundings (child "").config anywhere "coin-ops" fun _ _ =>
        .ok (childReply "not hex")).run .rawEngine (splitRequest 10 2 20 50)).run {}).2.calls
      (.executed "sdk_submit_success" none "not hex") := by
  constructor
  · obtain ⟨hreal, hop, body, hanswered, -⟩ := (spendBundle_of_executed (child " 0x00ff ")
      (child "").config anywhere "coin-ops" (fun _ _ => .ok []) .submit Keyring.toSubmission {}
      "sign_submit_success" "0x00ff" none).1 rfl
    exact ⟨hreal rfl, hop, body, hanswered⟩
  · have hends := (spendBundle_of_executed (child "") (child "").config anywhere "coin-ops"
      (fun _ _ => .ok (childReply "not hex")) .rawEngine (splitRequest 10 2 20 50) {}
      "sdk_submit_success" "not hex" none).2 rfl
    exact hends.resolve_left (by decide)

end Chain

end CoinRelay
