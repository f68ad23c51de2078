import CoinRelay.Delegation

/-! # What an answer is taken for

An answer is told apart by two of its members: the text of its status and whether it brings a spend
bundle. Only the status `skipped` is heard as a refusal. Under any other status, even one that names
a failure, a spend bundle makes the answer count as executed. -/

namespace CoinRelay.Outcome
open Text

variable {tag : String} {body : Fields}

/-! ## The members that decide -/

/-- The keys of an outcome's own members. -/
def ownKeys : List String := ["status", "reason", "operation_id", "spend_bundle_hex"]

/-- The status of an answer as text. Without one the answer counts as executed. -/
def replyStatus (body : Fields) : String :=
  ((body.get? "status").map Json.scalarText).getD "executed"

/-- The reason of an answer as text. -/
def replyReason (tag : String) (body : Fields) : String :=
  ((body.get? "reason").map Json.scalarText).getD (tag ++ "_success")

/-- The operation of an answer as text. -/
def replyOperation (body : Fields) : Option String :=
  (body.present? "operation_id").map Json.scalarText

/-- What an answer reports beside its own members. -/
def replyPartials (body : Fields) : Fields :=
  (((body.erase "status").erase "reason").erase "operation_id").erase "spend_bundle_hex"

theorem get?_replyPartials (body : Fields) (key : String) :
    (replyPartials body).get? key = if key ∈ ownKeys then none else body.get? key := by
  simp only [replyPartials, Fields.get?_erase, ownKeys, List.mem_cons, List.not_mem_nil, or_false]
  by_cases hstatus : key = "status"
  · simp [hstatus]
  by_cases hreason : key = "reason"
  · simp [hreason]
  by_cases hid : key = "operation_id"
  · simp [hid]
  by_cases hhex : key = "spend_bundle_hex"
  · simp [hhex]
  · simp [hstatus, hreason, hid, hhex]

theorem replyPartials_sublist (body : Fields) : (replyPartials body).Sublist body :=
  ((List.filter_sublist.trans List.filter_sublist).trans List.filter_sublist).trans
    List.filter_sublist

theorem key_of_mem_replyPartials {m : String × Json} (h : m ∈ replyPartials body) :
    m.1 ∉ ownKeys := by
  simp only [replyPartials, Fields.erase, List.mem_filter, bne_iff_ne, ne_eq] at h
  obtain ⟨⟨⟨⟨-, hstatus⟩, hreason⟩, hid⟩, hhex⟩ := h
  simp [ownKeys, hstatus, hreason, hid, hhex]

/-- A status that is not null counts with its text. -/
theorem replyStatus_of_present {status : Json} (h : body.present? "status" = some status) :
    replyStatus body = status.scalarText := by
  rw [replyStatus, (Option.filter_eq_some_iff.1 h).1]
  rfl

/-! ## The three outcomes -/

theorem ofReply_of_skipped (h : replyStatus body = "skipped") :
    ofReply tag body =
      .skipped (replyReason tag body) (replyOperation body) (replyPartials body) :=
  if_pos h

theorem ofReply_of_bundle {hex : Json} (h : replyStatus body ≠ "skipped")
    (hhex : body.present? "spend_bundle_hex" = some hex) :
    ofReply tag body =
      .executed (replyReason tag body) (replyOperation body) (trim hex.scalarText) := by
  refine (if_neg h).trans ?_
  rw [hhex]
  rfl

theorem ofReply_of_no_bundle (h : replyStatus body ≠ "skipped")
    (hhex : body.present? "spend_bundle_hex" = none) :
    ofReply tag body = skip (tag ++ "_missing_spend_bundle_hex") := by
  refine (if_neg h).trans ?_
  rw [hhex]

/-- An answer stands for one of the three. -/
theorem ofReply_cases (tag : String) (body : Fields) :
    (replyStatus body = "skipped" ∧ ofReply tag body =
      .skipped (replyReason tag body) (replyOperation body) (replyPartials body)) ∨
    (∃ hex, replyStatus body ≠ "skipped" ∧ body.present? "spend_bundle_hex" = some hex ∧
      ofReply tag body =
        .executed (replyReason tag body) (replyOperation body) (trim hex.scalarText)) ∨
    (replyStatus body ≠ "skipped" ∧ body.present? "spend_bundle_hex" = none ∧
      ofReply tag body = skip (tag ++ "_missing_spend_bundle_hex")) := by
  by_cases hskipped : replyStatus body = "skipped"
  · exact .inl ⟨hskipped, ofReply_of_skipped hskipped⟩
  · cases hhex : body.present? "spend_bundle_hex" with
    | some hex => exact .inr (.inl ⟨hex, hskipped, rfl, ofReply_of_bundle hskipped hhex⟩)
    | none => exact .inr (.inr ⟨hskipped, rfl, ofReply_of_no_bundle hskipped hhex⟩)

theorem not_isExecuted_iff {outcome : Outcome} :
    ¬ outcome.isExecuted = true ↔ ∀ reason id hex, outcome ≠ .executed reason id hex := by
  cases outcome <;> simp [isExecuted]

/-- An answer counts as executed if it brings a spend bundle and does not call itself skipped. -/
theorem isExecuted_ofReply (tag : String) (body : Fields) :
    (ofReply tag body).isExecuted = true ↔
      replyStatus body ≠ "skipped" ∧ body.present? "spend_bundle_hex" ≠ none := by
  rcases ofReply_cases tag body with ⟨hskipped, ho⟩ | ⟨hex, hstatus, hhex, ho⟩ | ⟨-, hhex, ho⟩
  · simp [ho, isExecuted, hskipped]
  · simp [ho, isExecuted, hstatus, hhex]
  · simp [ho, isExecuted, skip, hhex]

/-- **When a refusal is heard.** An answer with a status of its own is not taken for executed
exactly if the text of the status is `skipped` or there is no spend bundle. A skipped answer keeps
its reason, its operation and all its other members. Any other refusal that brings a spend bundle
becomes a success with that bundle. -/
theorem refusal_heard_iff {status : Json} (h : body.present? "status" = some status) :
    ((∀ reason id hex, ofReply tag body ≠ .executed reason id hex) ↔
      status.scalarText = "skipped" ∨ body.present? "spend_bundle_hex" = none) ∧
    (status.scalarText = "skipped" → ∃ partials,
      ofReply tag body = .skipped (replyReason tag body) (replyOperation body) partials ∧
        ∀ key, partials.get? key = if key ∈ ownKeys then none else body.get? key) ∧
    ∀ hex, status.scalarText ≠ "skipped" → body.present? "spend_bundle_hex" = some hex →
      ofReply tag body =
        .executed (replyReason tag body) (replyOperation body) (trim hex.scalarText) := by
  have hstatus := replyStatus_of_present h
  refine ⟨?_, ?_, ?_⟩
  · rw [← not_isExecuted_iff, isExecuted_ofReply, hstatus, Classical.not_and_iff_not_or_not,
      Classical.not_not, Classical.not_not]
  · intro hskipped
    exact ⟨_, ofReply_of_skipped (hstatus.trans hskipped), get?_replyPartials body⟩
  · intro hex hskipped hhex
    exact ofReply_of_bundle (hstatus ▸ hskipped) hhex

/-- A signer that failed and still returns what it has built. -/
def failedReply : Fields := [
  ("reason", .str "rejected"),
  ("spend_bundle_hex", .str "00ff"),
  ("status", .str "failed")]

theorem refusal_heard_of_failed :
    (∀ reason id hex, ofReply "sign_submit" (failedReply.erase "spend_bundle_hex") ≠
      .executed reason id hex) ∧
    (∃ partials, ofReply "sign_submit" (failedReply.insert "status" (.str "skipped")) =
      .skipped "rejected" none partials) := by
  have hfailed : (failedReply.erase "spend_bundle_hex").present? "status" =
      some (.str "failed") := rfl
  have hskipped : (failedReply.insert "status" (.str "skipped")).present? "status" =
      some (.str "skipped") := rfl
  obtain ⟨partials, ho, -⟩ := (@refusal_heard_iff "sign_submit" _ _ hskipped).2.1 rfl
  exact ⟨(refusal_heard_iff hfailed).1.2 (.inr rfl), partials, ho⟩

/-- The failure is taken for a success. -/
theorem refusal_missed_of_failed :
    failedReply.present? "status" = some (.str "failed") ∧
      ofReply "sign_submit" failedReply = .executed "rejected" none "00ff" :=
  ⟨rfl, rfl⟩

end CoinRelay.Outcome
