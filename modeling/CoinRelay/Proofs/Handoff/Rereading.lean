import CoinRelay.Proofs.Handoff.Plans

/-! # Plans in their own words

A plan may be written in many ways: its numbers as numerals, its target left out, blanks around its
texts. Read once and written again it has one form, in which every later reader finds the same plan.
Only a reader that derives targets puts size times count in the place of the one it finds. -/

namespace CoinRelay

/-- The integer that a field states; `null` counts as an absent field. -/
def Fields.integer? (fields : Fields) (key : String) : Option Int :=
  (fields.present? key).bind Json.toInteger?

namespace Plan
variable {plan : Plan} {fields request again : Fields} {policy : TargetPolicy}

/-! ## What fields state -/

/-- Where the target of a plan comes from. -/
def TargetStated (plan : Plan) (fields : Fields) : TargetPolicy → Prop
  | .derive => plan.TargetDerived
  | .deriveWhenAbsent =>
    match fields.present? "target_total_base_units" with
    | none => plan.TargetDerived
    | some v => v.toInteger? = some (plan.target.toNat : Int)
  | .required => fields.integer? "target_total_base_units" = some (plan.target.toNat : Int)

/-- The fields state the plan: its words are the integers of its fields. -/
structure Stated (plan : Plan) (fields : Fields) (policy : TargetPolicy) : Prop where
  operation : Operation.ofName? (fields.text "op_type") = some plan.operation
  size : fields.integer? "size_base_units" = some (plan.size.toNat : Int)
  count : fields.integer? "op_count" = some (plan.count.toNat : Int)
  target : plan.TargetStated fields policy
  reason : plan.reason = fields.text "reason"

/-- An integer other than zero has to be stated. -/
theorem integerAt_eq_ok {key : String} {n : Int} (hn : n ≠ 0) :
    integerAt fields key = .ok n ↔ fields.integer? key = some n := by
  unfold integerAt Fields.integer?
  cases fields.present? key with
  | none => simp [hn.symm]
  | some v =>
    simp only [Option.bind_some]
    cases v.toInteger? <;> simp

theorem targetOf_eq_ok (hpos : 0 < plan.target.toNat) :
    targetOf fields ((plan.size.toNat : Int) * plan.count.toNat) policy = .ok ↑plan.target.toNat ↔
      plan.TargetStated fields policy := by
  have hne : (plan.target.toNat : Int) ≠ 0 := by omega
  have hderived : (.ok ((plan.size.toNat : Int) * plan.count.toNat) : Except Rejection Int) =
      .ok ↑plan.target.toNat ↔ plan.TargetDerived := by
    rw [Except.ok.injEq, ← Int.natCast_mul, Int.natCast_inj, eq_comm, TargetDerived]
  cases policy with
  | derive => exact hderived
  | required => exact integerAt_eq_ok hne
  | deriveWhenAbsent =>
    have hstated : integerAt fields "target_total_base_units" = .ok ↑plan.target.toNat ↔
        fields.integer? "target_total_base_units" = some ↑plan.target.toNat := integerAt_eq_ok hne
    unfold Fields.integer? at hstated
    unfold targetOf TargetStated
    cases hpresent : fields.present? "target_total_base_units" with
    | none => exact hderived
    | some v =>
      rw [hpresent] at hstated
      exact hstated

/-- **What is read.** A plan is read from fields exactly if they state it and it is within its
bounds. -/
theorem ofFields_eq_ok_iff :
    ofFields fields policy = .ok plan ↔ plan.Valid ∧ plan.Stated fields policy := by
  constructor
  · intro h
    have hv := valid_of_ofFields h
    have hspos := hv.size_pos
    have hcpos := hv.count_pos
    obtain ⟨hop, hsize, hcount, -, htarget, -, -, hreason⟩ := integers_of_ofFields h
    exact ⟨hv, {
      operation := hop
      size := (integerAt_eq_ok (by omega)).1 hsize
      count := (integerAt_eq_ok (by omega)).1 hcount
      target := (targetOf_eq_ok hv.target_pos).1 htarget
      reason := hreason }⟩
  · rintro ⟨hv, hop, hsize, hcount, htarget, hreason⟩
    have hspos := hv.size_pos
    have hcpos := hv.count_pos
    exact ofFields_eq_ok.2 ⟨plan.operation, plan.size.toNat, plan.count.toNat, plan.target.toNat,
      hop, (integerAt_eq_ok (by omega)).2 hsize, (integerAt_eq_ok (by omega)).2 hcount,
      hv.not_out_of_bounds, (targetOf_eq_ok hv.target_pos).2 htarget,
      Int.natCast_pos.2 hv.target_pos, by simp [ofIntegers, ← hreason]⟩

/-! ## What is read again -/

/-- The plan with size times count as its target, which is exact where the plan is within its
bounds. -/
def derived (plan : Plan) : Plan := { plan with target := plan.size * plan.count }

theorem Valid.targetDerived_derived (hv : plan.Valid) : plan.derived.TargetDerived := by
  have htotal := hv.total_lt
  simp only [Word.signedBound] at htotal
  rw [TargetDerived, derived, UInt64.toNat_mul]
  exact Nat.mod_eq_of_lt (by omega)

theorem Valid.derived (hv : plan.Valid) : plan.derived.Valid := by
  have htarget := hv.targetDerived_derived
  unfold TargetDerived at htarget
  exact { hv with
    target_pos := by rw [htarget]; exact Nat.mul_pos hv.size_pos hv.count_pos
    target_lt := by rw [htarget]; exact hv.total_lt }

/-- A plan that is read under some policy is read, with its target derived, under the policy that
derives it. -/
theorem ofFields_derive (h : ofFields fields policy = .ok plan) :
    ofFields fields .derive = .ok plan.derived := by
  obtain ⟨hv, hstated⟩ := ofFields_eq_ok_iff.1 h
  exact ofFields_eq_ok_iff.2 ⟨hv.derived, { hstated with target := hv.targetDerived_derived }⟩

/-- **Read and written again.** A request is read as a plan exactly if its fields state this plan
and it is within its bounds. Whatever carries the plan as it is written is then read as the same
plan, or as the plan with its target derived where the reader derives it. -/
theorem parse_rereads :
    (Plan.parse request policy = .ok plan ↔
      ∃ fields, request.objectAt? "plan" = some fields ∧ plan.Valid ∧ plan.Stated fields policy) ∧
    (Plan.parse request policy = .ok plan → ∀ again : Fields,
      again.get? "plan" = some plan.toJson →
        Plan.parse again .required = .ok plan ∧ Plan.parse again .deriveWhenAbsent = .ok plan ∧
          Plan.parse again .derive = .ok plan.derived ∧ plan.derived.TargetDerived) := by
  constructor
  · simp only [parse_eq_ok, ofFields_eq_ok_iff]
  · intro h again hget
    have hv := valid_of_parse h
    have hrequired : Plan.parse again .required = .ok plan := hv.parse hget nofun
    obtain ⟨fields, hfields, hread⟩ := parse_eq_ok.1 hrequired
    have hderive : Plan.parse again .derive = .ok plan.derived :=
      parse_eq_ok.2 ⟨fields, hfields, ofFields_derive hread⟩
    exact ⟨hrequired, hv.parse hget nofun, hderive, hv.targetDerived_derived⟩

/-- Three coins of ten, with the size as a numeral between blanks, the count as a double and no
target. -/
theorem parse_rereads_of_numeral :
    let request : Fields := [("plan", .obj [("op_count", .num (.double ⟨0x4008000000000000⟩)),
      ("op_type", .str " split "), ("reason", .str " low "), ("size_base_units", .str " 10 "),
      ("target_total_base_units", .null)])]
    let plan : Plan := ⟨.split, 10, 3, 30, "low"⟩
    Plan.parse request .deriveWhenAbsent = .ok plan ∧
      Plan.parse [("plan", plan.toJson)] .required = .ok plan ∧
      Plan.parse [("plan", plan.toJson)] .deriveWhenAbsent = .ok plan ∧
      Plan.parse [("plan", plan.toJson)] .derive = .ok plan.derived ∧
      plan.derived.TargetDerived := by
  intro request plan
  have hread : Plan.parse request .deriveWhenAbsent = .ok plan := by decide
  exact ⟨hread, parse_rereads.2 hread [("plan", plan.toJson)] rfl⟩

end Plan

end CoinRelay
