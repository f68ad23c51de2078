import CoinRelay.Proofs.Json.Parsed
import CoinRelay.Proofs.Outcome.Replies

/-! # Outcomes on the wire

An outcome and its reader use the same four keys, so what an outcome reports must stay clear of them
(`Outcome.Clean`). A clean outcome is what its reader takes it for. -/

namespace CoinRelay
open Text

/-! ## Answers as text -/

/-- **What the stage before reads** of members that are written as an answer, in whatever order. -/
theorem parseReply_text (members : Fields) :
    parseReply (Json.obj members).text =
      if (Json.obj members).depth ≤ Json.maxDepth then
        match Json.rereadMembers? members with
        | some again => .ok (Fields.ofList again)
        | none => .error .invalidJson
      else .error .invalidJson := by
  have htrim := (Json.trimmed_render_obj members).trimChars
  obtain ⟨cs, hcs⟩ := Json.renderMembers_end members
  have hcons : (Json.obj members).render = '{' :: (cs ++ ['}']) := by
    rw [Json.render, hcs]
  have hread := Json.read?_render (.obj members)
  rw [hcons] at htrim hread
  rw [parseReply, Json.text, String.toList_ofList, hcons, htrim]
  simp only [hread, Json.reread?]
  by_cases hdepth : (Json.obj members).depth ≤ Json.maxDepth
  · simp only [if_pos hdepth]
    cases Json.rereadMembers? members <;> rfl
  · simp only [if_neg hdepth]

theorem parseReply_text_of_exact {fields : Fields} (hc : (Json.obj fields).Canonical)
    (he : (Json.obj fields).Exact) (hd : (Json.obj fields).depth ≤ Json.maxDepth) :
    parseReply (Json.obj fields).text = .ok fields := by
  have hreread := Json.rereadMembers?_of_steady hc.2 (Json.ExactMembers.allDoubles he)
  rw [parseReply_text, if_pos hd, hreread]
  simp only [hc.1.ofList_eq]

namespace Outcome

/-- What is reported has keys in order that are not the outcome's own and values of some kind, and
the spend bundle is trimmed. -/
structure Clean (Q : Json → Prop) (outcome : Outcome) : Prop where
  ascending : outcome.partials.Ascending
  foreign : ∀ key ∈ ownKeys, outcome.partial? key = none
  trimmed : ∀ hex, outcome.spendBundle? = some hex → Trimmed hex.toList
  values : ∀ m ∈ outcome.partials, Q m.2

theorem clean_skip (Q : Json → Prop) (reason : String) : (skip reason).Clean Q where
  ascending := List.Pairwise.nil
  foreign := fun _ _ => rfl
  trimmed := nofun
  values := nofun

theorem Clean.mono {Q Q' : Json → Prop} {outcome : Outcome} (h : outcome.Clean Q)
    (hQ : ∀ v, Q v → Q' v) : outcome.Clean Q' where
  ascending := h.ascending
  foreign := h.foreign
  trimmed := h.trimmed
  values := fun m hm => hQ m.2 (h.values m hm)

theorem Clean.withPartial {Q : Json → Prop} {outcome : Outcome} (h : outcome.Clean Q) {key : String}
    {value : Json} (hkey : key ∉ ownKeys) (hvalue : Q value) :
    (outcome.withPartial key value).Clean Q := by
  cases outcome with
  | executed reason id hex => exact h
  | skipped reason id partials =>
    refine ⟨h.ascending.insertIfNew key value, fun k hk => ?_, nofun, ?_⟩
    · have hne : k ≠ key := fun he => hkey (he ▸ hk)
      show (partials.insertIfNew key value).get? k = none
      rw [Fields.get?_insertIfNew, Fields.get?_cons, if_neg hne, Fields.get?_nil, Option.or_none]
      exact h.foreign k hk
    · intro m hm
      rcases Fields.mem_insertIfNew hm with rfl | hm
      · exact hvalue
      · exact h.values m hm

/-! ## What a reply stands for -/

theorem partials_ofReply_sublist (tag : String) (body : Fields) :
    (ofReply tag body).partials.Sublist body := by
  rcases ofReply_cases tag body with ⟨-, ho⟩ | ⟨hex, -, -, ho⟩ | ⟨-, -, ho⟩ <;> rw [ho]
  · exact replyPartials_sublist body
  · exact List.nil_sublist body
  · exact List.nil_sublist body

theorem partial?_ofReply {key : String} (tag : String) (body : Fields) (hkey : key ∈ ownKeys) :
    (ofReply tag body).partial? key = none := by
  rcases ofReply_cases tag body with ⟨-, ho⟩ | ⟨hex, -, -, ho⟩ | ⟨-, -, ho⟩ <;> rw [ho]
  · exact (get?_replyPartials body key).trans (if_pos hkey)
  · rfl
  · rfl

theorem trimmed_ofReply {tag hex : String} {body : Fields}
    (h : (ofReply tag body).spendBundle? = some hex) : Trimmed hex.toList := by
  rcases ofReply_cases tag body with ⟨-, ho⟩ | ⟨value, -, -, ho⟩ | ⟨-, -, ho⟩ <;> rw [ho] at h <;>
    cases h
  exact trimmed_trim _

/-- Whatever an answer says, the outcome that it stands for is clean. -/
theorem clean_ofReply {Q : Json → Prop} (tag : String) {body : Fields} (ha : body.Ascending)
    (hQ : ∀ m ∈ body, Q m.2) : (ofReply tag body).Clean Q where
  ascending := ha.sublist (partials_ofReply_sublist tag body)
  foreign := fun _ hkey => partial?_ofReply tag body hkey
  trimmed := fun _ h => trimmed_ofReply h
  values := fun m hm => hQ m ((partials_ofReply_sublist tag body).subset hm)

/-! ## What the reader finds -/

/-- Under a key the reader finds what is reported, else the outcome's own member. -/
theorem get?_ofList_members (outcome : Outcome) (key : String) :
    (Fields.ofList outcome.members).get? key =
      ((Fields.ofList outcome.partials).get? key).or
        (if key = "spend_bundle_hex" then outcome.spendBundle?.map Json.str
        else if key = "operation_id" then some (.ofText? outcome.operationId)
        else if key = "reason" then some (.str outcome.reason)
        else if key = "status" then some (.str outcome.status)
        else none) := by
  have hown : (Fields.ofList [("status", .str outcome.status), ("reason", .str outcome.reason),
      ("operation_id", .ofText? outcome.operationId)]).get? key =
      if key = "operation_id" then some (.ofText? outcome.operationId)
      else if key = "reason" then some (.str outcome.reason)
      else if key = "status" then some (.str outcome.status) else none := by
    simp only [Fields.get?_ofList_cons, Fields.get?_cons, Fields.get?_nil]
    split
    · rfl
    split
    · rfl
    split <;> rfl
  rw [members, Fields.get?_ofList_append, Fields.get?_ofList_append, hown]
  congr 1
  cases outcome with
  | executed reason id hex =>
    show (Fields.get? [("spend_bundle_hex", .str hex)] key).or _ = _
    rw [Fields.get?_cons]
    split <;> rfl
  | skipped reason id partials =>
    show (if _ then _ else _) = _
    by_cases hhex : key = "spend_bundle_hex"
    · subst hhex
      rfl
    · rw [if_neg hhex]

/-- The reader takes the members of a clean outcome for the outcome. -/
theorem Clean.ofReply_members {Q : Json → Prop} {outcome : Outcome} (h : outcome.Clean Q)
    (tag : String) : ofReply tag (Fields.ofList outcome.members) = outcome := by
  have hget := get?_ofList_members outcome
  rw [h.ascending.ofList_eq] at hget
  -- nothing is reported under the four keys, so there the reader finds the own members
  have hown : ∀ key ∈ ownKeys, outcome.partials.get? key = none := h.foreign
  have hstatus := hget "status"
  have hreason := hget "reason"
  have hid := hget "operation_id"
  have hhex := hget "spend_bundle_hex"
  rw [hown _ (by simp [ownKeys]), Option.none_or] at hstatus hreason hid hhex
  simp only [String.reduceEq, if_false, if_true] at hstatus hreason hid hhex
  have gstatus : replyStatus (Fields.ofList outcome.members) = outcome.status := by
    rw [replyStatus, hstatus]
    rfl
  have greason : replyReason tag (Fields.ofList outcome.members) = outcome.reason := by
    rw [replyReason, hreason]
    rfl
  have gid : replyOperation (Fields.ofList outcome.members) = outcome.operationId := by
    rw [replyOperation, Fields.present?, hid]
    cases outcome.operationId <;> rfl
  cases outcome with
  | executed reason id hex =>
    have hpresent : (Fields.ofList (members (.executed reason id hex))).present?
        "spend_bundle_hex" = some (.str hex) := by
      rw [Fields.present?, hhex]
      rfl
    rw [ofReply_of_bundle (by rw [gstatus]; simp [status]) hpresent, greason, gid]
    exact congrArg _ (trim_eq_self (h.trimmed hex rfl))
  | skipped reason id partials =>
    rw [ofReply_of_skipped gstatus, greason, gid]
    -- what is left when the four keys are erased is what was reported
    have hpartials : replyPartials (Fields.ofList (members (.skipped reason id partials))) =
        partials := by
      refine Fields.Ascending.ext ((Fields.ascending_ofList _).sublist (replyPartials_sublist _))
        h.ascending fun key => ?_
      rw [get?_replyPartials]
      split
      · next hkey => exact (hown key hkey).symm
      · next hkey =>
        simp only [ownKeys, List.mem_cons, List.not_mem_nil, or_false, not_or] at hkey
        obtain ⟨hs, hr, hi, hh⟩ := hkey
        rw [hget, if_neg hh, if_neg hi, if_neg hr, if_neg hs]
        exact Option.or_none
    exact congrArg _ hpartials

/-! ## The text on the wire -/

/-- The outcome's own members are texts, or nothing at all. -/
theorem forall_mem_members {R : Json → Prop} (hnull : R .null) (hstr : ∀ text, R (.str text))
    {outcome : Outcome} :
    (∀ m ∈ outcome.members, R m.2) ↔ ∀ m ∈ outcome.partials, R m.2 := by
  have hid : R (.ofText? outcome.operationId) := by
    cases outcome.operationId with
    | none => exact hnull
    | some id => exact hstr id
  cases outcome with
  | executed reason id hex =>
    simp [members, spendBundle?, partials, hid, hstr]
  | skipped reason id partials =>
    simp [members, spendBundle?, Outcome.partials, hid, hstr]

theorem depth_members_le {outcome : Outcome} :
    (Json.obj outcome.members).depth ≤ Json.maxDepth ↔
      ∀ m ∈ outcome.partials, m.2.depth < Json.maxDepth := by
  rw [show Json.maxDepth = 126 + 1 from rfl, Json.depth_obj_le,
    forall_mem_members (R := fun v => v.depth ≤ 126) (Nat.zero_le _) fun _ => Nat.zero_le _]
  simp only [Nat.lt_succ_iff]

/-- The text of an outcome is read as its members, if it nests no deeper than it may and what is
reported is read back as it is. -/
theorem parseReply_wire_of_steady {outcome : Outcome}
    (hcanonical : ∀ m ∈ outcome.partials, m.2.Canonical)
    (hsteady : ∀ m ∈ outcome.partials, m.2.Steady)
    (hdepth : ∀ m ∈ outcome.partials, m.2.depth < Json.maxDepth) :
    parseReply outcome.wire = .ok (Fields.ofList outcome.members) := by
  have hc : ∀ m ∈ outcome.members, m.2.Canonical :=
    (forall_mem_members trivial fun _ => trivial).2 hcanonical
  have hs : ∀ m ∈ outcome.members, m.2.Steady :=
    (forall_mem_members trivial fun _ => trivial).2 hsteady
  have hreread : Json.rereadMembers? outcome.members = some outcome.members :=
    Json.rereadMembers?_of_steady (Json.canonicalMembers_iff.2 hc)
      (Json.allDoublesMembers_iff.2 hs)
  rw [wire, parseReply_text, if_pos (depth_members_le.2 hdepth), hreread]

/-- The text of a clean outcome is read as its members. -/
theorem Clean.parseReply_wire {outcome : Outcome} (h : outcome.Clean Json.Canonical)
    (hsteady : ∀ m ∈ outcome.partials, m.2.Steady)
    (hdepth : (Json.obj outcome.members).depth ≤ Json.maxDepth) :
    parseReply outcome.wire = .ok (Fields.ofList outcome.members) :=
  parseReply_wire_of_steady h.values hsteady (depth_members_le.1 hdepth)

end Outcome

end CoinRelay
