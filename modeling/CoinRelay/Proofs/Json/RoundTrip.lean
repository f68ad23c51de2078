import CoinRelay.Proofs.Json.DoubleLiteral
import CoinRelay.Proofs.Json.Quoted

/-! # Written values read back

Reading the text of a value gives the value again, with the keys of every object in order and with
every double read back from its own text (`Json.reread?`), as long as containers nest no deeper than
the reader allows (`read?_render`). A canonical value without doubles is read back as it is. -/

namespace CoinRelay.Json

/-! ## What a text is read as -/

mutual

/-- The value that the text of a value is read as. -/
def reread? : Json → Option Json
  | .num (.double x) => x.reread?.map fun y => .num (.double y)
  | .arr items => (rereadItems? items).map .arr
  | .obj members => (rereadMembers? members).map fun ms => .obj (Fields.ofList ms)
  | .null => some .null
  | .bool b => some (.bool b)
  | .num (.whole n) => some (.num (.whole n))
  | .str s => some (.str s)

def rereadItems? : List Json → Option (List Json)
  | [] => some []
  | v :: rest => (reread? v).bind fun w => (rereadItems? rest).map (w :: ·)

def rereadMembers? : List (String × Json) → Option (List (String × Json))
  | [] => some []
  | (k, v) :: rest => (reread? v).bind fun w => (rereadMembers? rest).map ((k, w) :: ·)

end

/-! ## The first character of a text -/

/-- A character that may begin the text of a value. -/
def beginsValue (c : Char) : Bool := !isGap c && c != ']' && c != '}'

theorem beginsValue_of_isDigit {c : Char} (h : c.isDigit = true) : beginsValue c = true := by
  simp only [beginsValue, isGap, Bool.and_eq_true, Bool.not_eq_true', Bool.or_eq_false_iff,
    decide_eq_false_iff_not, bne_iff_ne]
  refine ⟨⟨⟨⟨⟨?_, ?_⟩, ?_⟩, ?_⟩, ?_⟩, ?_⟩ <;> (rintro rfl; revert h; decide)

/-- The text of a number begins with a digit or a minus sign. -/
theorem number_render_cons (n : Number) :
    ∃ c cs, n.render = c :: cs ∧ (c.isDigit = true ∨ c = '-') := by
  cases n with
  | whole w =>
    simp only [Number.render, renderInt]
    split
    · exact ⟨'-', _, rfl, .inr rfl⟩
    · obtain ⟨d, ds, hd⟩ := List.exists_cons_of_ne_nil (Literal.digits_toDigits w.val.natAbs).1
      exact ⟨d, ds, hd, .inl ((Literal.digits_toDigits w.val.natAbs).2 d (by simp [hd]))⟩
  | double x =>
    obtain ⟨l, hv, -, -, ht⟩ := exists_literal_double x
    obtain ⟨d, ds, hd⟩ := List.exists_cons_of_ne_nil hv.whole.1
    simp only [Number.render, ht]
    split
    · exact ⟨'-', _, rfl, .inr rfl⟩
    · exact ⟨d, _, by simp only [Literal.chars, hd, List.cons_append]; rfl,
        .inl (hv.whole.2 d (by simp [hd]))⟩

theorem render_cons (v : Json) : ∃ c cs, v.render = c :: cs ∧ beginsValue c = true := by
  cases v with
  | null => exact ⟨'n', _, rfl, by decide⟩
  | bool b => cases b <;> exact ⟨_, _, rfl, by decide⟩
  | num n =>
    obtain ⟨c, cs, hc, h | rfl⟩ := number_render_cons n
    · exact ⟨c, cs, hc, beginsValue_of_isDigit h⟩
    · exact ⟨'-', cs, hc, by decide⟩
  | str s => exact ⟨'"', _, rfl, by decide⟩
  | arr items => exact ⟨'[', _, rfl, by decide⟩
  | obj members => exact ⟨'{', _, rfl, by decide⟩

theorem skipGap_cons {c : Char} (h : isGap c = false) (cs : List Char) :
    skipGap (c :: cs) = c :: cs := by
  simp [skipGap, h]

theorem skipGap_render (v : Json) (rest : List Char) :
    skipGap (v.render ++ rest) = v.render ++ rest := by
  obtain ⟨c, cs, hc, hb⟩ := render_cons v
  rw [hc, List.cons_append, skipGap_cons]
  simp only [beginsValue, Bool.and_eq_true, Bool.not_eq_true'] at hb
  exact hb.1.1

/-! ## Reading step by step -/

/-- What begins with a digit or a minus sign is read as a number. -/
theorem readValue_cons_number {c : Char} (hc : c.isDigit = true ∨ c = '-') (fuel depth : Nat)
    (cs : List Char) : readValue (fuel + 1) depth (c :: cs) =
      (readNumber (c :: cs)).map fun r => (.num r.1, r.2) := by
  have hne : c ≠ 'n' ∧ c ≠ 't' ∧ c ≠ 'f' ∧ c ≠ '"' ∧ c ≠ '[' ∧ c ≠ '{' := by
    rcases hc with hc | rfl
    · refine ⟨?_, ?_, ?_, ?_, ?_, ?_⟩ <;> (rintro rfl; revert hc; decide)
    · decide
  rw [readValue]
  all_goals
    intro rest' heq
    simp_all

theorem readValue_number (n : Number) {r : Option (Number × List Char)} {rest : List Char}
    (fuel depth : Nat) (h : readNumber (n.render ++ rest) = r) :
    readValue (fuel + 1) depth (n.render ++ rest) = r.map fun p => (.num p.1, p.2) := by
  obtain ⟨c, cs, hc, hb⟩ := number_render_cons n
  rw [hc, List.cons_append] at h ⊢
  rw [readValue_cons_number hb, h]

theorem readValue_arr (fuel depth : Nat) {c : Char} (hc : beginsValue c = true) (cs : List Char) :
    readValue (fuel + 1) (depth + 1) ('[' :: c :: cs) =
      (readItems fuel depth (c :: cs)).map fun r => (.arr r.1, r.2) := by
  simp only [beginsValue, Bool.and_eq_true, Bool.not_eq_true', bne_iff_ne] at hc
  rw [readValue, skipGap_cons hc.1.1]
  split
  · next heq => exact absurd (List.cons.inj heq).1 hc.1.2
  · rfl

theorem readValue_obj (fuel depth : Nat) {c : Char} (hc : beginsValue c = true) (cs : List Char) :
    readValue (fuel + 1) (depth + 1) ('{' :: c :: cs) =
      (readMembers fuel depth (c :: cs)).map fun r => (.obj (Fields.ofList r.1), r.2) := by
  simp only [beginsValue, Bool.and_eq_true, Bool.not_eq_true', bne_iff_ne] at hc
  rw [readValue, skipGap_cons hc.1.1]
  split
  · next heq => exact absurd (List.cons.inj heq).1 hc.2
  · rfl

theorem renderItems_cons (v : Json) (items : List Json) :
    ∃ c cs, renderItems (v :: items) = c :: cs ∧ beginsValue c = true := by
  obtain ⟨c, cs, hc, hb⟩ := render_cons v
  cases items with
  | nil => exact ⟨c, _, by simp only [renderItems, hc, List.cons_append]; rfl, hb⟩
  | cons w items => exact ⟨c, _, by simp only [renderItems, hc, List.cons_append]; rfl, hb⟩

theorem skipGap_renderItems (v : Json) (items : List Json) (rest : List Char) :
    skipGap (renderItems (v :: items) ++ rest) = renderItems (v :: items) ++ rest := by
  obtain ⟨c, cs, hc, hb⟩ := renderItems_cons v items
  rw [hc, List.cons_append, skipGap_cons]
  simp only [beginsValue, Bool.and_eq_true, Bool.not_eq_true'] at hb
  exact hb.1.1

theorem renderMembers_cons (m : String × Json) (members : List (String × Json)) :
    ∃ cs, renderMembers (m :: members) = '"' :: cs := by
  obtain ⟨k, v⟩ := m
  cases members with
  | nil => exact ⟨_, rfl⟩
  | cons w members => exact ⟨_, rfl⟩

theorem skipGap_renderMembers (m : String × Json) (members : List (String × Json))
    (rest : List Char) :
    skipGap (renderMembers (m :: members) ++ rest) = renderMembers (m :: members) ++ rest := by
  obtain ⟨cs, hc⟩ := renderMembers_cons m members
  rw [hc, List.cons_append, skipGap_cons (by decide)]

theorem readMembers_quote (fuel depth : Nat) (k : String) (cs : List Char) :
    readMembers (fuel + 1) depth (quote k ++ ':' :: cs) =
      match readValue fuel depth (skipGap cs) with
      | none => none
      | some (v, rest) =>
        match skipGap rest with
        | ',' :: rest =>
          (readMembers fuel depth (skipGap rest)).map fun r => ((k, v) :: r.1, r.2)
        | '}' :: rest => some ([(k, v)], rest)
        | _ => none := by
  have hk := readString_flatMap k.toList (':' :: cs)
  have hcolon : skipGap (':' :: cs) = ':' :: cs := skipGap_cons (by decide) cs
  have h := readMembers.eq_def (fuel + 1) depth (quote k ++ ':' :: cs)
  simp only [quote, List.cons_append, List.append_assoc, List.nil_append, hk, hcolon,
    String.ofList_toList] at h ⊢
  exact h

/-! ## Reading what was written -/

mutual

theorem readValue_render : ∀ (v : Json) {fuel : Nat} (depth : Nat) (rest : List Char),
    v.render.length ≤ fuel → NumberEnds rest →
    readValue fuel depth (v.render ++ rest) =
      if v.depth ≤ depth then v.reread?.map (·, rest) else none
  | .null, fuel + 1, depth, rest, _, _ => by simp [render, readValue, Json.depth, reread?]
  | .bool true, fuel + 1, depth, rest, _, _ => by simp [render, readValue, Json.depth, reread?]
  | .bool false, fuel + 1, depth, rest, _, _ => by simp [render, readValue, Json.depth, reread?]
  | .num (.whole n), fuel + 1, depth, rest, _, hr => by
    have h := readValue_number (.whole n) fuel depth (readNumber_renderInt n hr)
    simpa [render, Json.depth, reread?] using h
  | .num (.double x), fuel + 1, depth, rest, _, hr => by
    have h := readValue_number (.double x) fuel depth (readNumber_text x hr)
    simpa [render, Json.depth, reread?, Function.comp_def] using h
  | .str s, fuel + 1, depth, rest, _, _ => by
    have h := readString_flatMap s.toList rest
    simp [render, quote, readValue, Json.depth, reread?, h]
  | .arr [], fuel + 1, depth, rest, _, _ => by
    cases depth <;> simp [render, renderItems, readValue, Json.depth, depthItems, reread?,
      rereadItems?, skipGap, isGap]
  | .arr (v :: items), fuel + 1, depth, rest, hf, _ => by
    obtain ⟨c, cs, hc, hb⟩ := renderItems_cons v items
    have hlen : (renderItems (v :: items)).length ≤ fuel := by simpa [render] using hf
    cases depth with
    | zero => simp [render, readValue, Json.depth]
    | succ depth =>
      have h := readItems_render (v :: items) depth rest (by simp) hlen
      rw [hc, List.cons_append] at h
      rw [render, hc, List.cons_append, List.cons_append, readValue_arr fuel depth hb, h]
      simp only [Json.depth, Nat.add_le_add_iff_right, reread?]
      split <;> simp [Function.comp_def]
  | .obj [], fuel + 1, depth, rest, _, _ => by
    cases depth <;> simp [render, renderMembers, readValue, Json.depth, depthMembers, reread?,
      rereadMembers?, skipGap, isGap, Fields.ofList]
  | .obj (m :: members), fuel + 1, depth, rest, hf, _ => by
    obtain ⟨cs, hc⟩ := renderMembers_cons m members
    have hlen : (renderMembers (m :: members)).length ≤ fuel := by simpa [render] using hf
    cases depth with
    | zero => simp [render, readValue, Json.depth]
    | succ depth =>
      have h := readMembers_render (m :: members) depth rest (by simp) hlen
      rw [hc, List.cons_append] at h
      rw [render, hc, List.cons_append, List.cons_append, readValue_obj fuel depth (by decide), h]
      simp only [Json.depth, Nat.add_le_add_iff_right, reread?]
      split <;> simp [Function.comp_def]
  | v, 0, depth, rest, hf, _ => by
    obtain ⟨c, cs, hc, -⟩ := render_cons v
    simp [hc] at hf

theorem readItems_render : ∀ (items : List Json) {fuel : Nat} (depth : Nat) (rest : List Char),
    items ≠ [] → (renderItems items).length ≤ fuel →
    readItems fuel depth (renderItems items ++ rest) =
      if depthItems items ≤ depth then (rereadItems? items).map (·, rest) else none
  | [], _, _, _, hne, _ => absurd rfl hne
  | [v], fuel + 1, depth, rest, _, hf => by
    have hlen : v.render.length ≤ fuel := by simpa [renderItems] using hf
    have hv := readValue_render v depth (']' :: rest) hlen (NumberEnds.cons (.inr (.inl rfl)) rest)
    simp only [renderItems, List.append_assoc, List.singleton_append, readItems, hv, depthItems,
      Nat.max_zero, rereadItems?]
    by_cases hd : v.depth ≤ depth
    · cases v.reread? <;> simp [hd, skipGap, isGap]
    · simp [hd]
  | v :: w :: items, fuel + 1, depth, rest, _, hf => by
    obtain ⟨c, cs, hc, hb⟩ := renderItems_cons w items
    have hlen : v.render.length ≤ fuel ∧ (renderItems (w :: items)).length ≤ fuel := by
      simp only [renderItems, List.length_append, List.length_cons] at hf
      omega
    have hv := readValue_render v depth _ hlen.1
      (NumberEnds.cons (.inl rfl) (renderItems (w :: items) ++ rest))
    have hr := readItems_render (w :: items) depth rest (by simp) hlen.2
    have hgap := skipGap_cons (show isGap ',' = false by decide) (renderItems (w :: items) ++ rest)
    have hw : renderItems (v :: w :: items) = v.render ++ ',' :: renderItems (w :: items) := rfl
    rw [hw, List.append_assoc, List.cons_append, readItems, hv, depthItems, rereadItems?]
    by_cases hd : v.depth ≤ depth
    · cases v.reread? with
      | none => simp [hd]
      | some v' =>
        rw [if_pos hd]
        simp only [Option.map_some, hgap, skipGap_renderItems, hr, Nat.max_le, hd,
          true_and, Option.bind_some]
        split <;> simp [Function.comp_def]
    · rw [if_neg hd]
      exact (if_neg fun hle => hd (Nat.max_le.1 hle).1).symm
  | v :: items, 0, depth, rest, _, hf => by
    obtain ⟨c, cs, hc, -⟩ := renderItems_cons v items
    simp [hc] at hf

theorem readMembers_render : ∀ (members : List (String × Json)) {fuel : Nat} (depth : Nat)
    (rest : List Char), members ≠ [] → (renderMembers members).length ≤ fuel →
    readMembers fuel depth (renderMembers members ++ rest) =
      if depthMembers members ≤ depth then (rereadMembers? members).map (·, rest) else none
  | [], _, _, _, hne, _ => absurd rfl hne
  | [(k, v)], fuel + 1, depth, rest, _, hf => by
    have hlen : v.render.length ≤ fuel := by
      simp only [renderMembers, List.length_append, List.length_cons] at hf
      omega
    have hv := readValue_render v depth ('}' :: rest) hlen (NumberEnds.cons (.inr (.inr rfl)) rest)
    rw [renderMembers, List.append_assoc, List.cons_append, List.append_assoc,
      List.singleton_append, readMembers_quote, skipGap_render, hv, depthMembers, depthMembers,
      Nat.max_zero, rereadMembers?,
      rereadMembers?]
    by_cases hd : v.depth ≤ depth
    · cases v.reread? <;> simp [hd, skipGap, isGap]
    · simp [hd]
  | (k, v) :: m :: members, fuel + 1, depth, rest, _, hf => by
    have hlen : v.render.length ≤ fuel ∧ (renderMembers (m :: members)).length ≤ fuel := by
      simp only [renderMembers, List.length_append, List.length_cons] at hf
      omega
    have hv := readValue_render v depth _ hlen.1
      (NumberEnds.cons (.inl rfl) (renderMembers (m :: members) ++ rest))
    have hr := readMembers_render (m :: members) depth rest (by simp) hlen.2
    have hgap := skipGap_cons (show isGap ',' = false by decide)
      (renderMembers (m :: members) ++ rest)
    have hw : renderMembers ((k, v) :: m :: members) =
        quote k ++ ':' :: (v.render ++ ',' :: renderMembers (m :: members)) := rfl
    rw [hw, List.append_assoc, List.cons_append, List.append_assoc, List.cons_append,
      readMembers_quote, skipGap_render, hv, depthMembers, rereadMembers?]
    by_cases hd : v.depth ≤ depth
    · cases v.reread? with
      | none => simp [hd]
      | some v' =>
        rw [if_pos hd]
        simp only [Option.map_some, hgap, skipGap_renderMembers, hr, Nat.max_le, hd,
          true_and, Option.bind_some]
        split <;> simp [Function.comp_def]
    · rw [if_neg hd]
      exact (if_neg fun hle => hd (Nat.max_le.1 hle).1).symm
  | m :: members, 0, depth, rest, _, hf => by
    obtain ⟨cs, hc⟩ := renderMembers_cons m members
    simp [hc] at hf

end

/-- **A written value is read back**, unless it nests too deep or holds a double that is not. -/
theorem read?_render (v : Json) :
    read? v.render = if v.depth ≤ maxDepth then v.reread? else none := by
  have hlen : v.render.length ≤ 2 * v.render.length + 1 := by omega
  have h := readValue_render v maxDepth [] hlen trivial
  rw [List.append_nil] at h
  have hgap : skipGap v.render = v.render := by simpa using skipGap_render v []
  rw [read?, hgap, h]
  by_cases hd : v.depth ≤ maxDepth
  · cases v.reread? <;> simp [hd, skipGap]
  · simp [hd]

end CoinRelay.Json
