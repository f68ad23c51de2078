import CoinRelay.Proofs.Handoff.Checked
import CoinRelay.Proofs.Json.Members

/-! # Additions and coins in handoffs

Additions are read one by one and in order. They are written with their amounts as they are, but
read as signed integers only: an amount in the upper half of the words is written and not read. -/

namespace CoinRelay
open Text

namespace Output

/-- The item of a list has the address and the amount of the output. -/
def Reads (item : Json) (output : Output) : Prop :=
  ∃ fields : Fields, item = .obj fields ∧ output.address = fields.text "address" ∧
    (fields.get? "amount").bind Json.toInteger? = some (output.amount.toNat : Int)

theorem ofAddition_of_amount {fields : Fields} {amount : Int}
    (h : (fields.get? "amount").bind Json.toInteger? = some amount) :
    ofAddition (.obj fields) =
      if 0 < amount ∧ fields.text "address" ≠ "" then
        .ok ⟨fields.text "address", UInt64.ofNat amount.toNat⟩
      else .error .invalidAdditions := by
  unfold ofAddition
  dsimp only [Json.object?]
  rw [h]

theorem ofAddition_of_no_amount {fields : Fields}
    (h : (fields.get? "amount").bind Json.toInteger? = none) :
    ofAddition (.obj fields) = .error .invalidAdditions := by
  unfold ofAddition
  dsimp only [Json.object?]
  rw [h]

/-- An addition is accepted for a positive amount to some address. -/
theorem ofAddition_eq_ok {item : Json} {output : Output} :
    ofAddition item = .ok output ↔
      Reads item output ∧ output.address ≠ "" ∧ 0 < output.amount.toNat := by
  constructor
  · intro h
    cases item with
    | obj fields =>
      cases hamount : (Fields.get? fields "amount").bind Json.toInteger? with
      | none =>
        rw [ofAddition_of_no_amount hamount] at h
        cases h
      | some amount =>
        rw [ofAddition_of_amount hamount] at h
        split at h
        · next hok =>
          obtain ⟨hpos, haddr⟩ := hok
          obtain ⟨v, -, hv⟩ := Option.bind_eq_some_iff.1 hamount
          have hword := toNat_ofNat_toNat hpos (Json.toInteger?_bounds hv).2
          cases h
          refine ⟨⟨fields, rfl, rfl, ?_⟩, haddr, ?_⟩
          · rw [hamount, hword]
          · dsimp only
            omega
        · cases h
    | null | bool | num | str | arr => cases h
  · rintro ⟨⟨fields, rfl, haddr, hamount⟩, hne, hpos⟩
    rw [haddr] at hne
    rw [ofAddition_of_amount hamount, if_pos ⟨Int.natCast_pos.2 hpos, hne⟩, ← haddr,
      Int.toNat_natCast, UInt64.ofNat_toNat]

/-- A refused addition has but one cause. -/
theorem ofAddition_eq_error {item : Json} {cause : Rejection} (h : ofAddition item = .error cause) :
    cause = .invalidAdditions := by
  cases item with
  | obj fields =>
    cases hamount : (Fields.get? fields "amount").bind Json.toInteger? with
    | none =>
      rw [ofAddition_of_no_amount hamount] at h
      cases h
      rfl
    | some amount =>
      rw [ofAddition_of_amount hamount] at h
      split at h
      · cases h
      · cases h; rfl
  | null | bool | num | str | arr => cases h; rfl

/-- An output that a later reader of additions accepts. -/
structure Sendable (output : Output) : Prop where
  address : output.address ≠ "" ∧ Trimmed output.address.toList
  positive : 0 < output.amount.toNat
  signed : (output.amount.toNat : Int) < Word.signedBound

/-- The fields that an output is written to. -/
def members (output : Output) : Fields :=
  [("address", .str output.address), ("amount", .ofUInt64 output.amount)]

theorem get?_address (output : Output) :
    output.members.get? "address" = some (.str output.address) := by
  simp [members, Fields.get?_cons]

theorem get?_amount (output : Output) :
    output.members.get? "amount" = some (.ofUInt64 output.amount) := by
  simp [members, Fields.get?_cons]

theorem Sendable.ofAddition_toJson {output : Output} (h : output.Sendable) :
    ofAddition output.toJson = .ok output := by
  refine ofAddition_eq_ok.2 ⟨⟨output.members, rfl, ?_, ?_⟩, h.address.1, h.positive⟩
  · exact (Fields.text_of_get?_str output.get?_address h.address.2).symm
  · rw [get?_amount, Option.bind_some, Json.toInteger?_ofUInt64, if_pos h.signed]

/-- What is read of an output that was written is the output. -/
theorem eq_of_ofAddition_toJson {output found : Output} (ht : Trimmed output.address.toList)
    (h : ofAddition output.toJson = .ok found) : found = output := by
  obtain ⟨⟨fields, hfields, haddress, hamount⟩, -, -⟩ := ofAddition_eq_ok.1 h
  obtain rfl : output.members = fields := Json.obj.inj hfields
  rw [Fields.text_of_get?_str output.get?_address ht] at haddress
  rw [get?_amount, Option.bind_some, Json.toInteger?_ofUInt64] at hamount
  split at hamount
  · simp only [Option.some.injEq, Int.natCast_inj, UInt64.toNat_inj] at hamount
    cases found
    cases output
    exact congrArg₂ Output.mk haddress hamount.symm
  · cases hamount

/-- An amount in the upper half of the words is not read back. -/
theorem ofAddition_toJson_of_large {output : Output}
    (hl : Word.signedBound ≤ output.amount.toNat) :
    ofAddition output.toJson = .error .invalidAdditions := by
  show ofAddition (.obj output.members) = _
  refine ofAddition_of_no_amount ?_
  rw [get?_amount, Option.bind_some, Json.toInteger?_ofUInt64, if_neg (Int.not_lt.2 hl)]

theorem canonical_toJson (output : Output) : output.toJson.Canonical := by
  refine ⟨Fields.ascending_of_keys (show _ = ["address", "amount"] from rfl)
    (by decide), ?_⟩
  simp [Json.CanonicalMembers, Json.Canonical, Json.ofUInt64]

theorem exact_toJson (output : Output) : output.toJson.Exact := by
  simp [toJson, Json.Exact, Json.ExactMembers, Json.ofUInt64]

end Output

/-! ## Lists of additions -/

theorem Fields.listAt?_eq_some {request : Fields} {key : String} {items : List Json} :
    request.listAt? key = some items ↔ request.get? key = some (.arr items) ∧ items ≠ [] := by
  unfold Fields.listAt?
  rw [Option.filter_eq_some_iff, Option.bind_eq_some_iff]
  constructor
  · rintro ⟨⟨v, hv, ha⟩, hne⟩
    cases v <;> cases ha
    exact ⟨hv, by simpa using hne⟩
  · rintro ⟨hv, hne⟩
    exact ⟨⟨_, hv, rfl⟩, by simpa using hne⟩

theorem parseAdditions_eq_ok {request : Fields} {outputs : List Output} :
    parseAdditions request = .ok outputs ↔ ∃ items, request.listAt? "additions" = some items ∧
      List.Forall₂ (fun item output => Output.ofAddition item = .ok output) items outputs := by
  unfold parseAdditions
  cases request.listAt? "additions" <;> simp [mapM_eq_ok]

namespace Handoff

/-- Additions that are written are read back, if all of them can be. -/
theorem parseAdditions_additionsJson {request : Fields} {outputs : List Output}
    (hget : request.get? "additions" = some (additionsJson outputs)) (hne : outputs ≠ [])
    (hs : ∀ o ∈ outputs, o.Sendable) : parseAdditions request = .ok outputs := by
  refine parseAdditions_eq_ok.2 ⟨outputs.map Output.toJson, ?_, ?_⟩
  · exact Fields.listAt?_eq_some.2 ⟨hget, by simpa using hne⟩
  · rw [List.forall₂_map_left_iff, List.forall₂_same]
    exact fun o ho => (hs o ho).ofAddition_toJson

/-- Of additions that were written, nothing else is read. -/
theorem eq_of_parseAdditions_additionsJson {request : Fields} {outputs found : List Output}
    (hget : request.get? "additions" = some (additionsJson outputs))
    (ht : ∀ o ∈ outputs, Trimmed o.address.toList) (h : parseAdditions request = .ok found) :
    found = outputs := by
  obtain ⟨items, hitems, hall⟩ := parseAdditions_eq_ok.1 h
  rw [(Fields.listAt?_eq_some.1 hitems).1, additionsJson] at hget
  obtain rfl : items = outputs.map Output.toJson := Json.arr.inj (Option.some.inj hget)
  rw [List.forall₂_map_left_iff] at hall
  clear hitems hget h
  induction hall with
  | nil => rfl
  | cons ho _ ih =>
    rw [Output.eq_of_ofAddition_toJson (ht _ (by simp)) ho, ih fun o ho => ht o (by simp [ho])]

/-- A single amount that is too large spoils the list. -/
theorem parseAdditions_additionsJson_of_large {request : Fields} {outputs : List Output}
    (hget : request.get? "additions" = some (additionsJson outputs)) {o : Output}
    (ho : o ∈ outputs) (hl : Word.signedBound ≤ o.amount.toNat) :
    parseAdditions request = .error .invalidAdditions := by
  have hlist : request.listAt? "additions" = some (outputs.map Output.toJson) :=
    Fields.listAt?_eq_some.2 ⟨hget, by simpa using List.ne_nil_of_mem ho⟩
  unfold parseAdditions
  rw [hlist]
  exact mapM_eq_error (fun _ _ => Output.ofAddition_eq_error) (List.mem_map_of_mem ho)
    (Output.ofAddition_toJson_of_large hl)

theorem canonical_additionsJson (outputs : List Output) : (additionsJson outputs).Canonical := by
  refine Json.canonicalItems_iff.2 fun v hv => ?_
  obtain ⟨o, -, rfl⟩ := List.mem_map.1 hv
  exact o.canonical_toJson

theorem exact_additionsJson (outputs : List Output) : (additionsJson outputs).Exact := by
  refine Json.exactItems_iff.2 fun v hv => ?_
  obtain ⟨o, -, rfl⟩ := List.mem_map.1 hv
  exact o.exact_toJson

/-- Additions are not changed on their way to the next stage. -/
theorem reread?_additionsJson (outputs : List Output) :
    (additionsJson outputs).reread? = some (additionsJson outputs) :=
  (canonical_additionsJson outputs).reread?_eq (exact_additionsJson outputs)

/-! ## Coins -/

theorem ofJson?_eq_some {v : Option Json} {selection : Selection} :
    Selection.ofJson? v = some selection ↔ v = some selection.toJson := by
  unfold Selection.ofJson?
  split
  · next coins =>
    split
    · next hne =>
      simp only [Option.some.injEq, Selection.toJson, Json.arr.injEq]
      exact ⟨fun h => h ▸ rfl, fun h => by cases selection; subst h; rfl⟩
    · next hnil =>
      simp only [reduceCtorEq, Option.some.injEq, Selection.toJson, Json.arr.injEq, false_iff]
      exact fun h => hnil (h ▸ selection.nonempty)
  · next hno =>
    simp only [reduceCtorEq, false_iff]
    exact fun h => hno _ h

theorem requestCoins_eq_ok {request : Fields} {selection : Selection} :
    requestCoins request = .ok selection ↔
      request.get? "selected_coins" = some selection.toJson := by
  rw [← ofJson?_eq_some]
  unfold requestCoins
  cases Selection.ofJson? (request.get? "selected_coins") <;> simp

end Handoff

end CoinRelay
