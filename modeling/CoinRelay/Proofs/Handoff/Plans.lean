import CoinRelay.Proofs.Handoff.Checked
import CoinRelay.Proofs.Json.Members

/-! # Plans in handoffs

A plan that is read keeps its bounds, and a plan within its bounds is read back from the fields it
is written to. Its target comes back too, unless the reader derives the target anew. -/

namespace CoinRelay
open Text

namespace Plan

/-- A plan within its bounds. -/
structure Valid (plan : Plan) : Prop where
  size_pos : 0 < plan.size.toNat
  count_pos : 0 < plan.count.toNat
  count_le : plan.count.toNat ≤ maxCount
  total_lt : ((plan.size.toNat * plan.count.toNat : Nat) : Int) < Word.signedBound
  target_pos : 0 < plan.target.toNat
  target_lt : (plan.target.toNat : Int) < Word.signedBound
  reason_trimmed : Trimmed plan.reason.toList

/-- A plan within its bounds is not refused for its size and its count. -/
theorem Valid.not_out_of_bounds {plan : Plan} (hv : plan.Valid) :
    ¬ ((plan.size.toNat : Int) ≤ 0 ∨ (plan.count.toNat : Int) ≤ 0 ∨
      (maxCount : Int) < plan.count.toNat ∨
      Word.signedBound ≤ (plan.size.toNat : Int) * plan.count.toNat) := by
  have hs := hv.size_pos
  have hc := hv.count_pos
  have hm := hv.count_le
  have ht := hv.total_lt
  rw [Int.natCast_mul] at ht
  rw [not_or, not_or, not_or]
  exact ⟨by omega, by omega, by omega, Int.not_le.2 ht⟩

/-- The target is what the outputs of the plan come to. -/
def TargetDerived (plan : Plan) : Prop :=
  plan.target.toNat = plan.size.toNat * plan.count.toNat

theorem integerAt_bounds {fields : Fields} {key : String} {n : Int}
    (h : integerAt fields key = .ok n) : -Word.signedBound ≤ n ∧ n < Word.signedBound := by
  unfold integerAt at h
  split at h
  · cases h
    decide
  · split at h
    · next hn => cases h; exact Json.toInteger?_bounds hn
    · cases h

theorem targetOf_bounds {fields : Fields} {derived n : Int} {policy : TargetPolicy}
    (hd : derived < Word.signedBound) (h : targetOf fields derived policy = .ok n) :
    n < Word.signedBound := by
  cases policy with
  | derive => cases h; exact hd
  | deriveWhenAbsent =>
    simp only [targetOf] at h
    split at h
    · cases h; exact hd
    · exact (integerAt_bounds h).2
  | required => exact (integerAt_bounds h).2

/-- The plan that checked numbers make. -/
def ofIntegers (operation : Operation) (size count target : Int) (reason : String) : Plan where
  operation
  size := UInt64.ofNat size.toNat
  count := UInt64.ofNat count.toNat
  target := UInt64.ofNat target.toNat
  reason

/-- What a reader of plans accepts. -/
theorem ofFields_eq_ok {fields : Fields} {policy : TargetPolicy} {plan : Plan} :
    ofFields fields policy = .ok plan ↔ ∃ operation size count target,
      Operation.ofName? (fields.text "op_type") = some operation ∧
      integerAt fields "size_base_units" = .ok size ∧ integerAt fields "op_count" = .ok count ∧
      ¬ (size ≤ 0 ∨ count ≤ 0 ∨ maxCount < count ∨ Word.signedBound ≤ size * count) ∧
      targetOf fields (size * count) policy = .ok target ∧ 0 < target ∧
      plan = ofIntegers operation size count target (fields.text "reason") := by
  constructor
  · intro h
    unfold ofFields at h
    split at h
    · next operation hop =>
      simp only [bind_eq_ok] at h
      obtain ⟨size, hsize, count, hcount, h⟩ := h
      split at h
      · cases h
      · next hbounds =>
        simp only [bind_eq_ok] at h
        obtain ⟨target, htarget, h⟩ := h
        split at h
        · cases h
        · next hpos =>
          cases h
          exact ⟨operation, size, count, target, hop, hsize, hcount, hbounds, htarget,
            Int.not_le.1 hpos, rfl⟩
    · cases h
  · rintro ⟨operation, size, count, target, hop, hsize, hcount, hbounds, htarget, hpos, rfl⟩
    have htgt : ¬ target ≤ 0 := by omega
    simp only [ofFields, hop, hsize, hcount, bind, Except.bind, if_neg hbounds, htarget,
      if_neg htgt]
    rfl

/-- Size and count are checked together, before the target is looked at. -/
theorem ofFields_of_out_of_bounds {fields : Fields} {policy : TargetPolicy} {operation : Operation}
    {size count : Int} (hop : Operation.ofName? (fields.text "op_type") = some operation)
    (hsize : integerAt fields "size_base_units" = .ok size)
    (hcount : integerAt fields "op_count" = .ok count)
    (hbounds : size ≤ 0 ∨ count ≤ 0 ∨ maxCount < count ∨ Word.signedBound ≤ size * count) :
    ofFields fields policy = .error .invalidPlanValues := by
  simp only [ofFields, hop, hsize, hcount, bind, Except.bind, if_pos hbounds]
  rfl

theorem ofFields_of_no_size {fields : Fields} {policy : TargetPolicy} {operation : Operation}
    {cause : Rejection} (hop : Operation.ofName? (fields.text "op_type") = some operation)
    (hsize : integerAt fields "size_base_units" = .error cause) :
    ofFields fields policy = .error cause := by
  simp only [ofFields, hop, hsize, bind, Except.bind]

/-- The words of a plan are the integers that were read. -/
theorem toNat_ofIntegers (operation : Operation) {size count target : Int} (reason : String)
    (hbounds : ¬ (size ≤ 0 ∨ count ≤ 0 ∨ maxCount < count ∨ Word.signedBound ≤ size * count))
    (hsize : size < Word.signedBound) (hpos : 0 < target) (htarget : target < Word.signedBound) :
    let plan := ofIntegers operation size count target reason
    (plan.size.toNat : Int) = size ∧ (plan.count.toNat : Int) = count ∧
      (plan.target.toNat : Int) = target := by
  have hcount : count < Word.signedBound := by
    simp only [maxCount, Word.signedBound] at hbounds ⊢
    omega
  exact ⟨toNat_ofNat_toNat (by omega) hsize, toNat_ofNat_toNat (by omega) hcount,
    toNat_ofNat_toNat hpos htarget⟩

/-- The integers that a plan is read from are its words. -/
theorem integers_of_ofFields {fields : Fields} {policy : TargetPolicy} {plan : Plan}
    (h : ofFields fields policy = .ok plan) :
    Operation.ofName? (fields.text "op_type") = some plan.operation ∧
    integerAt fields "size_base_units" = .ok ↑plan.size.toNat ∧
    integerAt fields "op_count" = .ok ↑plan.count.toNat ∧
    ¬ ((plan.size.toNat : Int) ≤ 0 ∨ (plan.count.toNat : Int) ≤ 0 ∨
      maxCount < (plan.count.toNat : Int) ∨
      Word.signedBound ≤ (plan.size.toNat : Int) * plan.count.toNat) ∧
    targetOf fields ((plan.size.toNat : Int) * plan.count.toNat) policy = .ok ↑plan.target.toNat ∧
    0 < (plan.target.toNat : Int) ∧ (plan.target.toNat : Int) < Word.signedBound ∧
    plan.reason = fields.text "reason" := by
  obtain ⟨operation, size, count, target, hop, hsize, hcount, hbounds, htarget, hpos, rfl⟩ :=
    ofFields_eq_ok.1 h
  have hlt := targetOf_bounds (Int.not_le.1 fun hle => hbounds (.inr (.inr (.inr hle)))) htarget
  obtain ⟨hs, hc, ht⟩ := toNat_ofIntegers operation (fields.text "reason") hbounds
    (integerAt_bounds hsize).2 hpos hlt
  rw [hs, hc, ht]
  exact ⟨hop, hsize, hcount, hbounds, htarget, hpos, hlt, rfl⟩

/-- **A plan that is read is within its bounds.** -/
theorem valid_of_ofFields {fields : Fields} {policy : TargetPolicy} {plan : Plan}
    (h : ofFields fields policy = .ok plan) : plan.Valid := by
  obtain ⟨-, -, -, hbounds, -, hpos, hlt, hreason⟩ := integers_of_ofFields h
  simp only [not_or, Int.not_le, Int.not_lt] at hbounds
  obtain ⟨hspos, hcpos, hcmax, htotal⟩ := hbounds
  exact {
    size_pos := by omega
    count_pos := by omega
    count_le := by omega
    total_lt := by rw [Int.natCast_mul]; exact htotal
    target_pos := by omega
    target_lt := hlt
    reason_trimmed := by rw [hreason]; exact fields.trimmed_text _ }

theorem targetDerived_of_derive {fields : Fields} {plan : Plan}
    (h : ofFields fields .derive = .ok plan) : plan.TargetDerived := by
  obtain ⟨-, -, -, -, htarget, -⟩ := integers_of_ofFields h
  have htotal := Except.ok.inj htarget
  rw [← Int.natCast_mul, Int.natCast_inj] at htotal
  exact htotal.symm

/-! ## Plans that are written -/

/-- The fields that a plan is written to. -/
def members (plan : Plan) : Fields := [
  ("op_count", .ofUInt64 plan.count),
  ("op_type", .str plan.operation.name),
  ("reason", .str plan.reason),
  ("size_base_units", .ofUInt64 plan.size),
  ("target_total_base_units", .ofUInt64 plan.target)]

theorem ofName?_name (operation : Operation) :
    Operation.ofName? operation.name = some operation := by
  cases operation <;> rfl

theorem trimmed_name (operation : Operation) : Trimmed operation.name.toList := by
  cases operation <;> exact trimmed_of_any (by decide)

theorem integerAt_of_present {fields : Fields} {key : String} {v : Json} {n : Int}
    (hv : fields.present? key = some v) (hn : v.toInteger? = some n) :
    integerAt fields key = .ok n := by
  unfold integerAt
  rw [hv]
  dsimp only
  rw [hn]

theorem integerAt_ofUInt64 {fields : Fields} {key : String} {n : UInt64}
    (h : fields.get? key = some (.ofUInt64 n)) (hn : (n.toNat : Int) < Word.signedBound) :
    integerAt fields key = .ok n.toNat := by
  have hpresent : fields.present? key = some (.ofUInt64 n) := by
    rw [Fields.present?, h]
    rfl
  have hread : (Json.ofUInt64 n).toInteger? = some (n.toNat : Int) := by
    rw [Json.toInteger?_ofUInt64, if_pos hn]
  exact integerAt_of_present hpresent hread

theorem integerAt_of_no_integer {fields : Fields} {key : String} {v : Json}
    (hv : fields.present? key = some v) (hn : v.toInteger? = none) :
    integerAt fields key = .error .invalidPlanValues := by
  unfold integerAt
  rw [hv]
  dsimp only
  rw [hn]

/-- An amount that is no signed word is no integer to a reader of plans. -/
theorem integerAt_ofUInt64_of_large {fields : Fields} {key : String} {n : UInt64}
    (h : fields.get? key = some (.ofUInt64 n)) (hn : Word.signedBound ≤ n.toNat) :
    integerAt fields key = .error .invalidPlanValues := by
  have hpresent : fields.present? key = some (.ofUInt64 n) := by
    rw [Fields.present?, h]
    rfl
  have hread : (Json.ofUInt64 n).toInteger? = none := by
    rw [Json.toInteger?_ofUInt64, if_neg (Int.not_lt.2 hn)]
  exact integerAt_of_no_integer hpresent hread

theorem ofName?_text_members (plan : Plan) :
    Operation.ofName? (plan.members.text "op_type") = some plan.operation := by
  have hget : plan.members.get? "op_type" = some (.str plan.operation.name) := by
    simp [members, Fields.get?_cons]
  rw [Fields.text_of_get?_str hget (trimmed_name _), ofName?_name]

theorem integerAt_count {plan : Plan} (h : plan.count.toNat ≤ maxCount) :
    integerAt plan.members "op_count" = .ok plan.count.toNat :=
  integerAt_ofUInt64 (by simp [members, Fields.get?_cons]) (by
    simp only [maxCount] at h
    simp only [Word.signedBound]
    omega)

/-- **A plan is read back from its fields**, by a reader that derives the target as well if the
target is derived. -/
theorem Valid.ofFields_members {plan : Plan} (hv : plan.Valid) {policy : TargetPolicy}
    (hp : policy = .derive → plan.TargetDerived) : ofFields plan.members policy = .ok plan := by
  have hsize : integerAt plan.members "size_base_units" = .ok plan.size.toNat :=
    integerAt_ofUInt64 (by simp [members, Fields.get?_cons]) (by
      have hmul := Nat.le_mul_of_pos_right plan.size.toNat hv.count_pos
      have := hv.total_lt
      omega)
  have hcount := integerAt_count hv.count_le
  have htarget : integerAt plan.members "target_total_base_units" = .ok plan.target.toNat :=
    integerAt_ofUInt64 (by simp [members, Fields.get?_cons]) hv.target_lt
  refine ofFields_eq_ok.2 ⟨plan.operation, plan.size.toNat, plan.count.toNat, plan.target.toNat,
    plan.ofName?_text_members, hsize, hcount, hv.not_out_of_bounds, ?_, ?_, ?_⟩
  · cases policy with
    | derive =>
      rw [targetOf, ← Int.natCast_mul, ← hp rfl]
    | deriveWhenAbsent => exact htarget
    | required => exact htarget
  · exact Int.natCast_pos.2 hv.target_pos
  · have hreason : plan.members.text "reason" = plan.reason :=
      Fields.text_of_get?_str (by simp [members, Fields.get?_cons]) hv.reason_trimmed
    simp [ofIntegers, hreason]

theorem canonical_toJson (plan : Plan) : plan.toJson.Canonical := by
  refine ⟨Fields.ascending_of_keys (show _ = ["op_count", "op_type", "reason", "size_base_units",
    "target_total_base_units"] from rfl) (by decide), ?_⟩
  simp [Json.CanonicalMembers, Json.Canonical, Json.ofUInt64]

theorem exact_toJson (plan : Plan) : plan.toJson.Exact := by
  simp [toJson, Json.Exact, Json.ExactMembers, Json.ofUInt64]

/-- A plan is not changed on its way to the next stage. -/
theorem reread?_toJson (plan : Plan) : plan.toJson.reread? = some plan.toJson :=
  plan.canonical_toJson.reread?_eq plan.exact_toJson

/-! ## Plans of requests -/

theorem parse_eq_ok {request : Fields} {policy : TargetPolicy} {plan : Plan} :
    parse request policy = .ok plan ↔
      ∃ fields, request.objectAt? "plan" = some fields ∧ ofFields fields policy = .ok plan := by
  unfold parse
  cases request.objectAt? "plan" <;> simp

theorem valid_of_parse {request : Fields} {policy : TargetPolicy} {plan : Plan}
    (h : parse request policy = .ok plan) : plan.Valid := by
  obtain ⟨fields, -, hf⟩ := parse_eq_ok.1 h
  exact valid_of_ofFields hf

theorem Valid.parse {plan : Plan} (hv : plan.Valid) {policy : TargetPolicy} {request : Fields}
    (hget : request.get? "plan" = some plan.toJson) (hp : policy = .derive → plan.TargetDerived) :
    Plan.parse request policy = .ok plan := by
  refine parse_eq_ok.2 ⟨plan.members, ?_, hv.ofFields_members hp⟩
  rw [Fields.objectAt?, hget]
  rfl

end Plan

end CoinRelay
