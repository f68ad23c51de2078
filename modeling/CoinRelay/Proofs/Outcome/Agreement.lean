import CoinRelay.Proofs.Outcome.Wire

/-! # Two written forms of one outcome

An outcome goes out as a text with its own members first, where a key may come twice, and as a value
that has every key once. Whoever reads the text finds the value, and so does who reads the text of
the value. -/

namespace CoinRelay.Outcome

variable {outcome : Outcome}

/-- What holds of the reported values, of texts and of nothing holds of the whole value. -/
theorem forall_mem_toJson {R : Json → Prop} (hnull : R .null) (hstr : ∀ text, R (.str text))
    (h : ∀ m ∈ outcome.partials, R m.2) : ∀ m ∈ Fields.ofList outcome.members, R m.2 :=
  fun m hm => (forall_mem_members hnull hstr).2 h m (Json.mem_ofList hm)

/-- The text of the value is read as the value. -/
theorem parseReply_text_toJson (hcanonical : ∀ m ∈ outcome.partials, m.2.Canonical)
    (hexact : ∀ m ∈ outcome.partials, m.2.Exact)
    (hdepth : ∀ m ∈ outcome.partials, m.2.depth < Json.maxDepth) :
    parseReply outcome.toJson.text = .ok (Fields.ofList outcome.members) := by
  refine parseReply_text_of_exact ?_ ?_ ?_
  · exact Json.canonical_obj_iff.2
      ⟨Fields.ascending_ofList _, forall_mem_toJson trivial (fun _ => trivial) hcanonical⟩
  · exact Json.exactMembers_iff.2 (forall_mem_toJson trivial (fun _ => trivial) hexact)
  · have hle : ∀ m ∈ outcome.partials, m.2.depth ≤ 126 := fun m hm =>
      Nat.le_of_lt_succ (hdepth m hm)
    exact Json.depth_obj_le.2
      (forall_mem_toJson (R := fun v => v.depth ≤ 126) (Nat.zero_le _) (fun _ => Nat.zero_le _) hle)

/-- **Both forms are read alike.** An outcome that reports values without doubles, with room for one
more container around them, has one value: the wire is read as this value, and so is the text of the
value itself. Under each key it has what is reported there, be it a key of the outcome's own, and
otherwise the outcome's own member. -/
theorem written_forms_agree (outcome : Outcome) (hcanonical : (Json.obj outcome.partials).Canonical)
    (hexact : (Json.obj outcome.partials).Exact)
    (hdepth : ∀ m ∈ outcome.partials, m.2.depth ≤ 126) :
    ∃ fields : Fields, outcome.toJson = .obj fields ∧ parseReply outcome.wire = .ok fields ∧
      parseReply outcome.toJson.text = .ok fields ∧
      ∀ key, fields.get? key = (outcome.partial? key).or
        (if key = "spend_bundle_hex" then outcome.spendBundle?.map Json.str
        else if key = "operation_id" then some (.ofText? outcome.operationId)
        else if key = "reason" then some (.str outcome.reason)
        else if key = "status" then some (.str outcome.status)
        else none) := by
  obtain ⟨hascending, hvalues⟩ := Json.canonical_obj_iff.1 hcanonical
  have hexacts : ∀ m ∈ outcome.partials, m.2.Exact := Json.exactMembers_iff.1 hexact
  have hlt : ∀ m ∈ outcome.partials, m.2.depth < Json.maxDepth := fun m hm =>
    Nat.lt_succ_of_le (hdepth m hm)
  refine ⟨Fields.ofList outcome.members, rfl, ?_, ?_, fun key => ?_⟩
  · exact parseReply_wire_of_steady hvalues (fun m hm => (hexacts m hm).allDoubles) hlt
  · exact parseReply_text_toJson hvalues hexacts hlt
  · rw [get?_ofList_members, hascending.ofList_eq, partial?]

/-- Skipped, but what is reported calls itself executed. -/
def contradicting : Outcome := .skipped "busy" none
  [("reason", .arr [.ofUInt64 3, .null]), ("status", .str "executed")]

theorem written_forms_agree_of_contradicting :
    ∃ fields : Fields, parseReply contradicting.wire = .ok fields ∧
      parseReply contradicting.toJson.text = .ok fields ∧
      fields.get? "status" = some (.str "executed") ∧
      fields.get? "operation_id" = some .null := by
  have hascending : Fields.Ascending contradicting.partials :=
    Fields.ascending_of_keys (show _ = ["reason", "status"] from rfl) (by decide)
  obtain ⟨fields, -, hwire, htext, hget⟩ := written_forms_agree contradicting
    (Json.canonical_obj_iff.2 ⟨hascending, by simp [contradicting, partials, Json.Canonical,
      Json.CanonicalItems, Json.ofUInt64]⟩)
    (by simp [contradicting, partials, Json.Exact, Json.ExactItems, Json.ExactMembers,
      Json.ofUInt64])
    (by simp [contradicting, partials, Json.depth, Json.depthItems, Json.ofUInt64])
  exact ⟨fields, hwire, htext, hget "status", hget "operation_id"⟩

end CoinRelay.Outcome
