import CoinRelay.Proofs.Outcome.Replies

/-! # Answers with nulls

A null among the members that decide an answer counts as an absent member, but for the reason: a
null reason is the text `null`, where an absent one is derived from the tag of the hop. -/

namespace CoinRelay

namespace Fields
variable {fields : Fields} {keys : List String}

/-- The members without the one under a key, if that is null. -/
def withoutNull (fields : Fields) (key : String) : Fields :=
  if (fields.get? key).any Json.isNull then fields.erase key else fields

/-- The members without those under some keys that are null. -/
def withoutNulls (fields : Fields) (keys : List String) : Fields := keys.foldl withoutNull fields

theorem present?_of_null {key : String} (h : fields.get? key = some .null) :
    fields.present? key = none := by
  rw [present?, h]
  rfl

theorem present?_of_ne_null {key : String} (h : fields.get? key ≠ some .null) :
    fields.present? key = fields.get? key := by
  rw [present?]
  cases hv : fields.get? key with
  | none => rfl
  | some v =>
    cases v with
    | null => exact absurd hv h
    | _ => rfl

theorem withoutNull_of_null {key : String} (h : fields.get? key = some .null) :
    fields.withoutNull key = fields.erase key := by
  rw [withoutNull, h]
  rfl

theorem withoutNull_of_ne_null {key : String} (h : fields.get? key ≠ some .null) :
    fields.withoutNull key = fields := by
  refine if_neg fun hany => h ?_
  cases hv : fields.get? key with
  | none => simp [hv] at hany
  | some v => cases v <;> simp_all [Json.isNull]

theorem get?_withoutNull (fields : Fields) (key k : String) :
    (fields.withoutNull key).get? k = if k = key then fields.present? key else fields.get? k := by
  by_cases hnull : fields.get? key = some .null
  · rw [withoutNull_of_null hnull, get?_erase, present?_of_null hnull]
  · rw [withoutNull_of_ne_null hnull, present?_of_ne_null hnull]
    split
    · next hk => rw [hk]
    · rfl

theorem present?_withoutNull (fields : Fields) (key k : String) :
    (fields.withoutNull key).present? k = fields.present? k := by
  rw [present?, get?_withoutNull]
  split
  · next hk => simp [hk, present?]
  · rfl

theorem present?_withoutNulls (fields : Fields) (keys : List String) (key : String) :
    (fields.withoutNulls keys).present? key = fields.present? key := by
  induction keys generalizing fields with
  | nil => rfl
  | cons k rest ih => exact (ih (fields.withoutNull k)).trans (present?_withoutNull fields k key)

theorem get?_withoutNulls (fields : Fields) (keys : List String) (key : String) :
    (fields.withoutNulls keys).get? key =
      if key ∈ keys then fields.present? key else fields.get? key := by
  induction keys generalizing fields with
  | nil => rfl
  | cons k rest ih =>
    have hrest := ih (fields.withoutNull k)
    rw [present?_withoutNull, get?_withoutNull] at hrest
    refine hrest.trans ?_
    by_cases hk : key = k
    · simp [hk]
    · simp [hk]

theorem get?_withoutNulls_of_ne_null {key : String} (h : fields.get? key ≠ some .null) :
    (fields.withoutNulls keys).get? key = fields.get? key := by
  rw [get?_withoutNulls, present?_of_ne_null h, ite_self]

end Fields

namespace Outcome
open Text

variable {tag : String} {body : Fields} {keys : List String}

/-- The outcome for another reason. -/
def withReason (outcome : Outcome) (reason : String) : Outcome :=
  match outcome with
  | .executed _ id hex => .executed reason id hex
  | .skipped _ id partials => .skipped reason id partials

/-- The reason of an answer is looked at if the answer calls itself skipped or brings a spend
bundle; without either the outcome has a reason of its own. -/
def ReasonHeard (body : Fields) : Prop :=
  replyStatus body = "skipped" ∨ body.present? "spend_bundle_hex" ≠ none

/-! ## What is left of an answer -/

theorem replyPartials_erase {key : String} (hkey : key ∈ ownKeys) :
    replyPartials (body.erase key) = replyPartials body := by
  simp only [replyPartials, Fields.erase, List.filter_filter]
  refine List.filter_congr fun m _ => ?_
  simp only [ownKeys, List.mem_cons, List.not_mem_nil, or_false] at hkey
  rcases hkey with rfl | rfl | rfl | rfl <;> grind

theorem replyPartials_withoutNulls (h : keys ⊆ ownKeys) :
    replyPartials (body.withoutNulls keys) = replyPartials body := by
  induction keys generalizing body with
  | nil => rfl
  | cons key rest ih =>
    obtain ⟨hkey, hrest⟩ := List.cons_subset.1 h
    have hfirst : replyPartials (body.withoutNull key) = replyPartials body := by
      unfold Fields.withoutNull
      split
      · exact replyPartials_erase hkey
      · rfl
    rw [← hfirst]
    exact ih hrest

theorem replyOperation_withoutNulls (body : Fields) (keys : List String) :
    replyOperation (body.withoutNulls keys) = replyOperation body := by
  rw [replyOperation, Fields.present?_withoutNulls, replyOperation]

/-- A null is no status `skipped`, and neither is an absent one. -/
theorem replyStatus_withoutNulls (body : Fields) (keys : List String) :
    replyStatus (body.withoutNulls keys) = "skipped" ↔ replyStatus body = "skipped" := by
  by_cases hnull : body.get? "status" = some .null
  · have hbefore : replyStatus body ≠ "skipped" := by
      rw [replyStatus, hnull]
      decide
    have hafter : replyStatus (body.withoutNulls keys) ≠ "skipped" := by
      rw [replyStatus, Fields.get?_withoutNulls, Fields.present?_of_null hnull, hnull]
      split <;> decide
    exact iff_of_false hafter hbefore
  · rw [replyStatus, Fields.get?_withoutNulls_of_ne_null hnull, replyStatus]

theorem reasonHeard_withoutNulls (body : Fields) (keys : List String) :
    ReasonHeard (body.withoutNulls keys) ↔ ReasonHeard body := by
  rw [ReasonHeard, ReasonHeard, replyStatus_withoutNulls, Fields.present?_withoutNulls]

theorem replyReason_withoutNulls_of_null (hkey : "reason" ∈ keys)
    (hnull : body.get? "reason" = some .null) :
    replyReason tag (body.withoutNulls keys) = tag ++ "_success" := by
  rw [replyReason, Fields.get?_withoutNulls, if_pos hkey, Fields.present?_of_null hnull]
  rfl

theorem replyReason_withoutNulls (h : ¬ ("reason" ∈ keys ∧ body.get? "reason" = some .null)) :
    replyReason tag (body.withoutNulls keys) = replyReason tag body := by
  by_cases hkey : "reason" ∈ keys
  · have hnull : body.get? "reason" ≠ some .null := fun hnull => h ⟨hkey, hnull⟩
    rw [replyReason, Fields.get?_withoutNulls_of_ne_null hnull, replyReason]
  · rw [replyReason, Fields.get?_withoutNulls, if_neg hkey, replyReason]

/-! ## What it stands for -/

theorem reason_ofReply (h : ReasonHeard body) :
    (ofReply tag body).reason = replyReason tag body := by
  rcases ofReply_cases tag body with ⟨-, ho⟩ | ⟨hex, -, -, ho⟩ | ⟨hstatus, hhex, -⟩
  · rw [ho, reason]
  · rw [ho, reason]
  · exact absurd h (by simp [ReasonHeard, hstatus, hhex])

/-- Without the nulls an answer stands for the same outcome, save for its reason. -/
theorem ofReply_withoutNulls (h : keys ⊆ ownKeys) :
    ofReply tag (body.withoutNulls keys) =
      (ofReply tag body).withReason (ofReply tag (body.withoutNulls keys)).reason := by
  have hskipped := replyStatus_withoutNulls body keys
  have hpresent := Fields.present?_withoutNulls body keys "spend_bundle_hex"
  rcases ofReply_cases tag body with ⟨hstatus, ho⟩ | ⟨hex, hstatus, hhex, ho⟩ | ⟨hstatus, hhex, ho⟩
  · rw [ho, ofReply_of_skipped (hskipped.2 hstatus), replyOperation_withoutNulls,
      replyPartials_withoutNulls h]
    rfl
  · rw [ho, ofReply_of_bundle (mt hskipped.1 hstatus) (hpresent.trans hhex),
      replyOperation_withoutNulls]
    rfl
  · rw [ho, ofReply_of_no_bundle (mt hskipped.1 hstatus) (hpresent.trans hhex)]
    rfl

theorem withReason_reason (outcome : Outcome) : outcome.withReason outcome.reason = outcome := by
  cases outcome <;> rfl

/-- **When a null counts as absent.** Of an answer's own members that are null any may be left out,
and the outcome stays the same, unless one of them is a reason that is looked at. Then the outcomes
differ, but in nothing but the reason: the null is the text `null`, and without it the reason comes
from the tag. -/
theorem null_absent_iff (h : keys ⊆ ownKeys) :
    (ofReply tag (body.withoutNulls keys) = ofReply tag body ↔
      ¬ ("reason" ∈ keys ∧ body.get? "reason" = some .null ∧ ReasonHeard body)) ∧
    ("reason" ∈ keys → body.get? "reason" = some .null → ReasonHeard body →
      (ofReply tag body).reason = "null" ∧
      ofReply tag (body.withoutNulls keys) =
        (ofReply tag body).withReason (tag ++ "_success")) := by
  have hsame := @ofReply_withoutNulls tag body keys h
  have hnulls : "reason" ∈ keys → body.get? "reason" = some .null → ReasonHeard body →
      (ofReply tag body).reason = "null" ∧
      (ofReply tag (body.withoutNulls keys)).reason = tag ++ "_success" := by
    intro hkey hnull hheard
    rw [reason_ofReply hheard, reason_ofReply ((reasonHeard_withoutNulls body keys).2 hheard),
      replyReason_withoutNulls_of_null hkey hnull, replyReason, hnull]
    exact ⟨rfl, rfl⟩
  refine ⟨⟨?_, ?_⟩, ?_⟩
  · rintro heq ⟨hkey, hnull, hheard⟩
    obtain ⟨hbefore, hafter⟩ := hnulls hkey hnull hheard
    rw [heq, hbefore] at hafter
    -- `null` is shorter than any derived reason
    have hlength := congrArg String.length hafter
    rw [String.length_append] at hlength
    have hsuccess : "_success".length = 8 := by decide
    have hnull : "null".length = 4 := by decide
    omega
  · intro hno
    by_cases hheard : ReasonHeard body
    · have hreason : replyReason tag (body.withoutNulls keys) = replyReason tag body :=
        replyReason_withoutNulls fun ⟨hkey, hnull⟩ => hno ⟨hkey, hnull, hheard⟩
      rw [hsame, reason_ofReply ((reasonHeard_withoutNulls body keys).2 hheard), hreason,
        ← reason_ofReply hheard, withReason_reason]
    · simp only [ReasonHeard, not_or, Classical.not_not] at hheard
      obtain ⟨hstatus, hhex⟩ := hheard
      rw [ofReply_of_no_bundle hstatus hhex, ofReply_of_no_bundle
        (mt (replyStatus_withoutNulls body keys).1 hstatus)
        ((Fields.present?_withoutNulls body keys _).trans hhex)]
  · intro hkey hnull hheard
    obtain ⟨hbefore, hafter⟩ := hnulls hkey hnull hheard
    rw [hafter] at hsame
    exact ⟨hbefore, hsame⟩

/-- A child that executed and leaves its own members null. -/
def terseReply : Fields := [
  ("operation_id", .null),
  ("reason", .null),
  ("spend_bundle_hex", .str "00ff"),
  ("status", .null)]

theorem null_absent_of_terse :
    ofReply "signer" (terseReply.withoutNulls ["status", "operation_id"]) =
        ofReply "signer" terseReply ∧
      (ofReply "signer" terseReply).reason = "null" ∧
      ofReply "signer" (terseReply.withoutNulls ownKeys) =
        .executed "signer_success" none "00ff" := by
  have hheard : ReasonHeard terseReply := .inr nofun
  have hsome := @null_absent_iff "signer" terseReply ["status", "operation_id"] (by decide)
  have hall := @null_absent_iff "signer" terseReply ownKeys (List.Subset.refl ownKeys)
  exact ⟨hsome.1.2 fun hreason => absurd hreason.1 (by decide), hall.2 (by decide) rfl hheard⟩

/-- Its null reason becomes a text that nobody wrote. -/
theorem null_heard_of_terse :
    ofReply "signer" terseReply = .executed "null" none "00ff" ∧
      ofReply "signer" (terseReply.withoutNulls ownKeys) =
        .executed "signer_success" none "00ff" ∧
      ofReply "signer" (terseReply.withoutNulls ownKeys) ≠ ofReply "signer" terseReply := by
  refine ⟨rfl, rfl, fun heq => ?_⟩
  exact absurd (congrArg reason heq) (by decide)

end Outcome

end CoinRelay
