import CoinRelay.Proofs.Relay.Steps

/-! # What a stage writes

The values of a handoff are the stage's own or come from what it was given. So a property of values
that its own ones have goes from requests and answers over to the handoffs, and to what the outcome
reports. -/

namespace CoinRelay
open Handoff

/-- Every value that a stage writes of its own accord is of some kind. -/
structure Written (R : Json → Prop) : Prop where
  null : R .null
  str : ∀ text, R (.str text)
  word : ∀ n, R (.ofUInt64 n)
  plan : ∀ plan : Plan, R plan.toJson
  additions : ∀ outputs, R (additionsJson outputs)

theorem written_canonical : Written Json.Canonical where
  null := trivial
  str := fun _ => trivial
  word := fun _ => trivial
  plan := Plan.canonical_toJson
  additions := canonical_additionsJson

theorem written_exact : Written Json.Exact where
  null := trivial
  str := fun _ => trivial
  word := fun _ => trivial
  plan := Plan.exact_toJson
  additions := exact_additionsJson

theorem written_allDoubles (P : Json.Double → Prop) : Written (Json.AllDoubles P) where
  null := trivial
  str := fun _ => trivial
  word := fun _ => trivial
  plan := fun plan => plan.exact_toJson.allDoubles
  additions := fun outputs => (exact_additionsJson outputs).allDoubles

theorem written_depth {room : ℕ} (h : 2 ≤ room) : Written fun v => v.depth ≤ room where
  null := Nat.zero_le room
  str := fun _ => Nat.zero_le room
  word := fun _ => Nat.zero_le room
  plan := fun plan => show 1 ≤ room from Nat.le_of_succ_le h
  additions := fun outputs => by
    refine (Nat.add_le_add_right (Json.depthItems_le.2 fun v hv => ?_) 1).trans h
    obtain ⟨o, -, rfl⟩ := List.mem_map.1 hv
    exact Nat.le_refl 1

theorem Written.and {R R' : Json → Prop} (h : Written R) (h' : Written R') :
    Written fun v => R v ∧ R' v where
  null := ⟨h.null, h'.null⟩
  str := fun text => ⟨h.str text, h'.str text⟩
  word := fun n => ⟨h.word n, h'.word n⟩
  plan := fun plan => ⟨h.plan plan, h'.plan plan⟩
  additions := fun outputs => ⟨h.additions outputs, h'.additions outputs⟩

/-- Canonical and without doubles: a value that is read as it was written. -/
def Json.Whole (v : Json) : Prop := v.Canonical ∧ v.Exact

theorem Json.whole_obj_iff {fields : Fields} :
    (Json.obj fields).Whole ↔ fields.Holds Json.Whole := by
  constructor
  · rintro ⟨hcanonical, hexact⟩
    have hholds := Json.canonical_obj_iff.1 hcanonical
    exact ⟨hholds.ascending, fun m hm =>
      ⟨hholds.values m hm, Json.exactMembers_iff.1 hexact m hm⟩⟩
  · intro h
    exact ⟨Json.canonical_obj_iff.2 (h.mono fun _ hv => hv.1),
      Json.exactMembers_iff.2 fun m hm => (h.values m hm).2⟩

theorem Json.whole_arr_iff {items : List Json} :
    (Json.arr items).Whole ↔ ∀ v ∈ items, v.Whole := by
  simp only [Whole, Canonical, Exact, canonicalItems_iff, exactItems_iff, ← forall_and]

@[simp] theorem Json.whole_null : Json.null.Whole := ⟨trivial, trivial⟩

@[simp] theorem Json.whole_str (text : String) : (Json.str text).Whole := ⟨trivial, trivial⟩

@[simp] theorem Json.whole_ofUInt64 (n : UInt64) : (Json.ofUInt64 n).Whole := ⟨trivial, trivial⟩

theorem written_whole : Written Json.Whole := written_canonical.and written_exact

theorem written_parsed {room : ℕ} (h : 2 ≤ room) : Written (Json.Parsed room) := by
  have hall := (written_canonical.and (written_depth h)).and
    (written_allDoubles Json.Double.Finite)
  exact {
    null := ⟨trivial, Nat.zero_le room, trivial⟩
    str := fun _ => ⟨trivial, Nat.zero_le room, trivial⟩
    word := fun _ => ⟨trivial, Nat.zero_le room, trivial⟩
    plan := fun plan => ⟨(hall.plan plan).1.1, (hall.plan plan).1.2, (hall.plan plan).2⟩
    additions := fun outputs =>
      ⟨(hall.additions outputs).1.1, (hall.additions outputs).1.2, (hall.additions outputs).2⟩ }

/-! ## Handoffs -/

section
variable {R : Json → Prop} {files : Files} {request fields : Fields}

theorem holds_toExecutor (hR : Written R) (hr : request.Holds R) {source : KeySource}
    (h : toExecutor request = .ok (source, fields)) : fields.Holds R := by
  obtain ⟨-, -, -, rfl⟩ := toExecutor_eq_ok.1 h
  exact ((hr.insert _ (hR.str _)).insert _ (hR.str _)).insert _ (hR.str _)

theorem holds_toSigner (hR : Written R) (h : toSigner files request = .ok fields) :
    fields.Holds R := by
  obtain ⟨signer, plan, -, -, -, -, -, -, -, -, rfl⟩ := toSigner_eq_ok.1 h
  refine ⟨ascending_signerFields .., ?_⟩
  simp [signerFields, hR.str, hR.plan]

theorem values_signingFields (hR : Written R) (identity : Identity) (marketId : String)
    {plan : Json} (hplan : R plan) : ∀ m ∈ signingFields identity marketId plan, R m.2 := by
  simp [signingFields, hR.str, hplan]

theorem holds_toBackend (hR : Written R) (h : toBackend files request = .ok fields) :
    fields.Holds R := by
  refine ⟨(toBackend_plan h).1, ?_⟩
  obtain ⟨-, job, -, rfl⟩ := toBackend_eq_ok.1 h
  exact values_signingFields hR _ _ (hR.plan job.plan)

theorem holds_toSelector (hR : Written R) (job : Job) : (toSelector job).Holds R :=
  ⟨ascending_toSelector job, by simp [toSelector, hR.str, hR.word]⟩

theorem holds_toBundleSigner (hR : Written R) {job : Job} {selection : Selection}
    (hcoins : R selection.toJson) (h : toBundleSigner job selection = .ok fields) :
    fields.Holds R := by
  refine ⟨(toBundleSigner_plan h).1, ?_⟩
  obtain ⟨-, rfl⟩ := toBundleSigner_eq_ok.1 h
  simp only [List.forall_mem_append, List.forall_mem_singleton]
  exact ⟨values_signingFields hR _ _ (hR.plan _), hcoins⟩

theorem holds_toSubmission (hR : Written R) (hr : request.Holds R)
    (h : toSubmission files request = .ok fields) : fields.Holds R := by
  obtain ⟨job, selection, resolved, -, hs, -, rfl⟩ := toSubmission_eq_ok.1 h
  refine ⟨job.ascending_submission selection resolved, ?_⟩
  simp only [Job.submission, List.cons_append, List.forall_mem_cons, List.forall_mem_append,
    List.not_mem_nil, false_implies, implies_true, and_true]
  exact ⟨hR.additions _, values_signingFields hR _ _ (hR.plan _),
    hr.of_get? (requestCoins_eq_ok.1 hs), hR.word _⟩

theorem holds_toSignSubmit (hR : Written R) (hr : request.Holds R)
    (h : toSignSubmit files request = .ok fields) : fields.Holds R := by
  obtain ⟨identity, additions, selection, -, -, hs, -, rfl⟩ := toSignSubmit_eq_ok.1 h
  refine ⟨ascending_signSubmission .., ?_⟩
  have hplan : R ((request.get? "plan").getD .null) := by
    cases hget : request.get? "plan" with
    | none => exact hR.null
    | some plan => exact hr.of_get? hget
  simp only [signSubmission, List.cons_append, List.forall_mem_cons, List.forall_mem_append,
    List.not_mem_nil, false_implies, implies_true, and_true]
  exact ⟨hR.additions _, values_signingFields hR _ _ hplan, hr.of_get? (requestCoins_eq_ok.1 hs)⟩

end

namespace Surroundings
variable {s : Surroundings} {R Q : Json → Prop} {stage : Stage} {request fields : Fields}
variable {hop : Hop} {h h' : History}

/-- On a hop, fields with values of one kind are answered with values of another. -/
def AnswersOn (s : Surroundings) (hop : Hop) (R Q : Json → Prop) : Prop :=
  ∀ (fields : Fields) command h body, fields.Holds R →
    ((s.delegate ⟨hop, command, .obj fields, s.config.timeout⟩).run h).1 = .ok body → body.Holds Q

/-- What a stage hands on has values of a kind, if the request and the answers to questions for
coins have. -/
theorem Hands.holds (hh : s.Hands request stage h hop fields h') (hR : Written R)
    (hr : request.Holds R) (hcoins : s.AnswersOn .coinSelector R R) : fields.Holds R := by
  cases hh with
  | route hf => exact holds_toExecutor hR hr hf
  | worker hf => exact holds_toSigner hR hf
  | signer hf => exact holds_toBackend hR hf
  | builder hj hc hf =>
    refine holds_toBundleSigner hR ?_ hf
    rcases coins_of_coinsFor (congrArg Prod.fst hc) with hget | ⟨command, k, body, hb, key, hget⟩
    · exact hr.of_get? hget
    · exact (hcoins _ command k body (holds_toSelector hR _) hb).of_get? hget
  | rawEngine hf => exact holds_toSubmission hR hr hf
  | submit hf => exact holds_toSignSubmit hR hr hf

/-! ## Outcomes -/

theorem clean_conclusion {key : String} {request : Json} {answer : Except HopFailure Fields}
    (hkey : key ∉ Outcome.ownKeys) (hr : Q request)
    (ha : ∀ body, answer = .ok body → body.Holds Q) :
    (conclusion hop key request answer).Clean Q := by
  cases answer with
  | error failure => exact (Outcome.clean_skip Q _).withPartial hkey hr
  | ok body =>
    have hbody := ha body rfl
    exact (Outcome.clean_ofReply hop.tag hbody.ascending hbody.values).withPartial hkey hr

theorem clean_review {outcome : Outcome} {request : Json} (h : outcome.Clean Q) (hr : Q request)
    (stage : Stage) : (Surroundings.review stage request outcome).Clean Q := by
  cases stage with
  | submit =>
    cases outcome with
    | executed reason id hex =>
      simp only [Surroundings.review, checkBundle]
      split
      · exact h
      · exact (Outcome.clean_skip Q _).withPartial (by decide) hr
    | skipped reason id partials => exact h
  | _ => exact h

/-- **Every outcome of a stage is clean**, and what it reports is of a kind, if handoffs and answers
are. -/
theorem clean_run (hR : Written R) (hobj : ∀ fields : Fields, fields.Holds R → Q (.obj fields))
    (hr : request.Holds R) (hcoins : s.AnswersOn .coinSelector R R)
    (ha : ∀ hop, s.AnswersOn hop R Q) (stage : Stage) (h : History) :
    ((s.run stage request).run h).1.Clean Q := by
  rcases run_cases s stage request h with hstop | ⟨hop, fields, h', hh⟩
  · generalize ((s.run stage request).run h).1 = outcome at hstop
    cases hstop with
    | refused reason => exact Outcome.clean_skip Q reason
    | unasked hj =>
      exact (Outcome.clean_skip Q _).withPartial (by decide) (hobj _ (holds_toSelector hR _))
  · have hfields := hh.holds hR hr hcoins
    rw [run_of_hands hh]
    -- the answer is to fields of the kind, so it is of the other kind
    refine clean_review (clean_conclusion stage.requestKey_foreign (hobj fields hfields) ?_)
      (hobj fields hfields) stage
    intro body hb
    obtain ⟨command, k, -, hreply⟩ := reply_of_invoke hb
    exact ha hop fields command k body hfields hreply

end Surroundings

end CoinRelay
