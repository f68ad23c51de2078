import CoinRelay.Proofs.Text.Trimmed

/-! # Objects that are written and read back

Reading an object back keeps its keys and reads every value back on its own. In a canonical value
nothing moves, and where it holds no double nothing changes at all. -/

namespace CoinRelay

namespace Fields

/-! ## Members in order stay as they are -/

theorem insert_append {fields : Fields} {key : String} (value : Json)
    (h : ∀ m ∈ fields, m.1 < key) : fields.insert key value = fields ++ [(key, value)] := by
  induction fields with
  | nil => rfl
  | cons m rest ih =>
    obtain ⟨k, v⟩ := m
    have hk : k < key := h (k, v) (by simp)
    have hne : key ≠ k := fun he => Std.lt_irrefl (he ▸ hk)
    have hlt : ¬ key < k := fun hlt => Std.lt_irrefl (String.lt_trans hk hlt)
    rw [Fields.insert, if_neg hne, if_neg hlt, ih fun m hm => h m (by simp [hm])]
    rfl

theorem foldl_insert {rest fields : Fields} (h : Ascending (fields ++ rest)) :
    rest.foldl (fun fields m => insert fields m.1 m.2) fields = fields ++ rest := by
  induction rest generalizing fields with
  | nil => simp
  | cons m rest ih =>
    have hm : ∀ a ∈ fields, a.1 < m.1 := fun a ha =>
      (List.pairwise_append.1 h).2.2 a ha m (by simp)
    have hnext : Ascending ((fields ++ [m]) ++ rest) := by simpa using h
    rw [List.foldl_cons, insert_append m.2 hm, ih hnext]
    simp

theorem Ascending.ofList_eq {fields : Fields} (h : fields.Ascending) : ofList fields = fields :=
  foldl_insert (show Ascending ([] ++ fields) from h)

theorem ascending_of_keys {fields : Fields} {keys : List String} (hk : fields.map Prod.fst = keys)
    (h : keys.Pairwise (· < ·)) : fields.Ascending := by
  rw [← hk] at h
  exact List.pairwise_map.1 h

theorem Ascending.of_keys {fields others : Fields} (h : fields.Ascending)
    (hk : others.map Prod.fst = fields.map Prod.fst) : others.Ascending :=
  ascending_of_keys hk (List.pairwise_map.2 h)

theorem mem_of_get? {fields : Fields} {key : String} {v : Json} (h : fields.get? key = some v) :
    (key, v) ∈ fields := by
  induction fields with
  | nil => cases h
  | cons m rest ih =>
    obtain ⟨k, u⟩ := m
    rw [get?_cons] at h
    split at h
    · next hk =>
      cases h
      rw [hk]
      exact List.mem_cons_self
    · exact List.mem_cons_of_mem _ (ih h)

/-! ## What a key finds in members that were put together -/

theorem get?_insertIfNew (fields : Fields) (key : String) (value : Json) (k : String) :
    (fields.insertIfNew key value).get? k = (fields.get? k).or (get? [(key, value)] k) := by
  unfold insertIfNew
  rw [get?_cons, get?_nil]
  by_cases hk : k = key
  · subst hk
    cases h : fields.get? k <;> simp [h]
  · rw [if_neg hk, Option.or_none]
    split
    · rfl
    · exact get?_insert_of_ne fields value hk

theorem Ascending.insertIfNew {fields : Fields} (h : fields.Ascending) (key : String)
    (value : Json) : (fields.insertIfNew key value).Ascending := by
  unfold Fields.insertIfNew
  split
  · exact h
  · exact h.insert key value

theorem mem_insertIfNew {fields : Fields} {key : String} {value : Json} {m : String × Json}
    (h : m ∈ fields.insertIfNew key value) : m = (key, value) ∨ m ∈ fields := by
  unfold insertIfNew at h
  split at h
  · exact .inr h
  · exact mem_insert h

theorem get?_foldl_insert (members fields : Fields) (key : String) :
    (members.foldl (fun fields m => insert fields m.1 m.2) fields).get? key =
      ((ofList members).get? key).or (fields.get? key) := by
  induction members generalizing fields with
  | nil => rfl
  | cons m rest ih =>
    have hlist : ofList (m :: rest) =
        rest.foldl (fun fields m => insert fields m.1 m.2) [(m.1, m.2)] := rfl
    rw [List.foldl_cons, ih, hlist, ih, Option.or_assoc, get?_cons, get?_nil]
    by_cases hk : key = m.1
    · subst hk
      rw [get?_insert_self, if_pos rfl]
      rfl
    · rw [get?_insert_of_ne _ _ hk, if_neg hk]
      rfl

/-- Of equal keys the last one is found. -/
theorem get?_ofList_append (members more : Fields) (key : String) :
    (ofList (members ++ more)).get? key =
      ((ofList more).get? key).or ((ofList members).get? key) := by
  rw [ofList, List.foldl_append]
  exact get?_foldl_insert more (ofList members) key

theorem get?_ofList_cons (m : String × Json) (rest : Fields) (key : String) :
    (ofList (m :: rest)).get? key = ((ofList rest).get? key).or (get? [m] key) :=
  get?_ofList_append [m] rest key

theorem get?_eq_none_of_lt {fields : Fields} {key : String} (h : ∀ m ∈ fields, key < m.1) :
    fields.get? key = none := by
  induction fields with
  | nil => rfl
  | cons m rest ih =>
    have hne : key ≠ m.1 := fun he => Std.lt_irrefl (he ▸ h m List.mem_cons_self)
    rw [get?_cons, if_neg hne]
    exact ih fun a ha => h a (List.mem_cons_of_mem _ ha)

/-- Objects in which every key finds the same are equal. -/
theorem Ascending.ext {fields others : Fields} (hf : fields.Ascending) (ho : others.Ascending)
    (h : ∀ key, fields.get? key = others.get? key) : fields = others := by
  induction fields generalizing others with
  | nil =>
    cases others with
    | nil => rfl
    | cons m rest =>
      have hm := h m.1
      rw [get?_nil, get?_cons, if_pos rfl] at hm
      cases hm
  | cons m rest ih =>
    obtain ⟨hfirst, hrest⟩ := List.pairwise_cons.1 hf
    have hm := h m.1
    rw [get?_cons, if_pos rfl] at hm
    cases others with
    | nil => cases hm
    | cons m' rest' =>
      obtain ⟨hfirst', hrest'⟩ := List.pairwise_cons.1 ho
      have hm' := h m'.1
      rw [get?_cons, get?_cons, if_pos rfl] at hm'
      -- the smaller of the first keys is found on one side only
      have hkey : m.1 = m'.1 := by
        refine Std.le_antisymm (String.not_lt.1 fun hlt => ?_) (String.not_lt.1 fun hlt => ?_)
        · have hnone := get?_eq_none_of_lt fun a ha => String.lt_trans hlt (hfirst a ha)
          rw [if_neg fun he => Std.lt_irrefl (he ▸ hlt), hnone] at hm'
          cases hm'
        · have hnone := get?_eq_none_of_lt fun a ha => String.lt_trans hlt (hfirst' a ha)
          rw [get?_cons, if_neg fun he => Std.lt_irrefl (he ▸ hlt), hnone] at hm
          cases hm
      rw [get?_cons, if_pos hkey] at hm
      have hvalue : m = m' := Prod.ext hkey (Option.some.inj hm)
      subst hvalue
      rw [ih hrest hrest' fun key => ?_]
      by_cases hk : key = m.1
      · rw [hk, get?_eq_none_of_lt hfirst, get?_eq_none_of_lt hfirst']
      · have hboth := h key
        rwa [get?_cons, get?_cons, if_neg hk, if_neg hk] at hboth

end Fields

namespace Json

/-! ## Reading members back -/

theorem rereadMembers?_cons_eq_some {m : String × Json} {rest ms : Fields} :
    rereadMembers? (m :: rest) = some ms ↔ ∃ w rs, m.2.reread? = some w ∧
      rereadMembers? rest = some rs ∧ ms = (m.1, w) :: rs := by
  obtain ⟨k, v⟩ := m
  simp only [rereadMembers?, Option.bind_eq_some_iff, Option.map_eq_some_iff]
  constructor
  · rintro ⟨w, hw, rs, hrs, rfl⟩
    exact ⟨w, rs, hw, hrs, rfl⟩
  · rintro ⟨w, rs, hw, hrs, rfl⟩
    exact ⟨w, hw, rs, hrs, rfl⟩

theorem keys_rereadMembers? {members ms : Fields} (h : rereadMembers? members = some ms) :
    ms.map Prod.fst = members.map Prod.fst := by
  induction members generalizing ms with
  | nil => simp_all [rereadMembers?]
  | cons m rest ih =>
    obtain ⟨w, rs, -, hrs, rfl⟩ := rereadMembers?_cons_eq_some.1 h
    simp [ih hrs]

/-- Every value of an object is read back on its own. -/
theorem get?_rereadMembers? {members ms : Fields} (h : rereadMembers? members = some ms)
    (key : String) : ms.get? key = (members.get? key).bind reread? := by
  induction members generalizing ms with
  | nil => simp_all [rereadMembers?]
  | cons m rest ih =>
    obtain ⟨w, rs, hw, hrs, rfl⟩ := rereadMembers?_cons_eq_some.1 h
    rw [Fields.get?_cons, Fields.get?_cons, ih hrs]
    split <;> simp [hw]

theorem exists_reread?_of_get? {members ms : Fields} (h : rereadMembers? members = some ms)
    {key : String} {v : Json} (hv : members.get? key = some v) : ∃ w, v.reread? = some w := by
  induction members generalizing ms with
  | nil => cases hv
  | cons m rest ih =>
    obtain ⟨w, rs, hw, hrs, -⟩ := rereadMembers?_cons_eq_some.1 h
    rw [Fields.get?_cons] at hv
    split at hv
    · cases hv
      exact ⟨w, hw⟩
    · exact ih hrs hv

theorem reread?_obj {members : Fields} (ha : members.Ascending) :
    (Json.obj members).reread? = (rereadMembers? members).map .obj := by
  rw [reread?]
  cases h : rereadMembers? members with
  | none => rfl
  | some ms => simp [(ha.of_keys (keys_rereadMembers? h)).ofList_eq]

theorem exists_of_mem_rereadMembers? {members ms : List (String × Json)}
    (h : rereadMembers? members = some ms) {m : String × Json} (hm : m ∈ ms) :
    ∃ v : Json, v.reread? = some m.2 := by
  induction members generalizing ms with
  | nil =>
    cases h
    cases hm
  | cons m' rest ih =>
    obtain ⟨w, rs, hw, hrs, rfl⟩ := rereadMembers?_cons_eq_some.1 h
    rcases List.mem_cons.1 hm with rfl | hm
    · exact ⟨m'.2, hw⟩
    · exact ih hrs hm

/-- What a value is read as is of its kind. -/
theorem reread?_cases {v w : Json} (h : v.reread? = some w) :
    (∃ x y : Double, v = .num (.double x) ∧ w = .num (.double y) ∧ x.reread? = some y) ∨
      (∃ items ws, v = .arr items ∧ w = .arr ws ∧ rereadItems? items = some ws) ∨
      (∃ members ms, v = .obj members ∧ w = .obj (Fields.ofList ms) ∧
        rereadMembers? members = some ms) ∨
      (w = v ∧ (∀ x, v ≠ .num (.double x)) ∧ (∀ items, v ≠ .arr items) ∧ v.object? = none) := by
  cases v with
  | num n =>
    cases n with
    | whole n => cases h; simp [object?]
    | double x =>
      obtain ⟨y, hy, rfl⟩ := Option.map_eq_some_iff.1 h
      exact .inl ⟨x, y, rfl, rfl, hy⟩
  | arr items =>
    obtain ⟨ws, hws, rfl⟩ := Option.map_eq_some_iff.1 h
    exact .inr (.inl ⟨items, ws, rfl, rfl, hws⟩)
  | obj members =>
    obtain ⟨ms, hms, rfl⟩ := Option.map_eq_some_iff.1 h
    exact .inr (.inr (.inl ⟨members, ms, rfl, rfl, hms⟩))
  | null | bool | str => cases h; simp [object?]

theorem object?_reread? {v w : Json} (h : v.reread? = some w) :
    w.object? = v.object?.bind fun members => (rereadMembers? members).map Fields.ofList := by
  rcases reread?_cases h with ⟨x, y, rfl, rfl, -⟩ | ⟨items, ws, rfl, rfl, -⟩ |
    ⟨members, ms, rfl, rfl, hms⟩ | ⟨rfl, -, -, hnone⟩
  · rfl
  · rfl
  · simp [object?, hms]
  · simp [hnone]

theorem exists_rereadItems?_of_arr {v : Json} {ws : List Json} (h : v.reread? = some (.arr ws)) :
    ∃ items, rereadItems? items = some ws := by
  rcases reread?_cases h with ⟨x, y, -, hw, -⟩ | ⟨items, ws', -, hw, hws⟩ |
    ⟨members, ms, -, hw, -⟩ | ⟨rfl, -, hne, -⟩
  · cases hw
  · cases hw
    exact ⟨items, hws⟩
  · cases hw
  · exact absurd rfl (hne ws)

/-! ## What is read back is canonical -/

theorem canonicalMembers_iff {members : Fields} :
    CanonicalMembers members ↔ ∀ m ∈ members, m.2.Canonical := by
  induction members with
  | nil => simp [CanonicalMembers]
  | cons m rest ih => simp [CanonicalMembers, ih]

theorem canonicalItems_iff {items : List Json} :
    CanonicalItems items ↔ ∀ v ∈ items, v.Canonical := by
  induction items with
  | nil => simp [CanonicalItems]
  | cons v rest ih => simp [CanonicalItems, ih]

theorem mem_ofList {members : Fields} {m : String × Json} (h : m ∈ Fields.ofList members) :
    m ∈ members := by
  have hfold : ∀ (rest fields : Fields),
      m ∈ rest.foldl (fun fields m => Fields.insert fields m.1 m.2) fields →
        m ∈ rest ∨ m ∈ fields := by
    intro rest
    induction rest with
    | nil => exact fun _ h => .inr h
    | cons a rest ih =>
      intro fields h
      rcases ih _ h with h | h
      · exact .inl (by simp [h])
      · rcases Fields.mem_insert h with rfl | h
        · exact .inl (by simp)
        · exact .inr h
  simpa using hfold members [] h

mutual

theorem canonical_reread? : ∀ {v w : Json}, v.reread? = some w → w.Canonical
  | .null, w, h | .bool _, w, h | .num (.whole _), w, h | .str _, w, h => by
    cases h; trivial
  | .num (.double x), w, h => by
    obtain ⟨y, -, rfl⟩ := Option.map_eq_some_iff.1 h
    trivial
  | .arr items, w, h => by
    obtain ⟨ws, hws, rfl⟩ := Option.map_eq_some_iff.1 h
    exact canonical_rereadItems? hws
  | .obj members, w, h => by
    obtain ⟨ms, hms, rfl⟩ := Option.map_eq_some_iff.1 h
    have hc := canonicalMembers_iff.1 (canonical_rereadMembers? hms)
    exact ⟨Fields.ascending_ofList ms,
      canonicalMembers_iff.2 fun m hm => hc m (mem_ofList hm)⟩

theorem canonical_rereadItems? : ∀ {items ws : List Json}, rereadItems? items = some ws →
    CanonicalItems ws
  | [], ws, h => by cases h; trivial
  | v :: rest, ws, h => by
    obtain ⟨w, hw, h⟩ := Option.bind_eq_some_iff.1 h
    obtain ⟨rs, hrs, rfl⟩ := Option.map_eq_some_iff.1 h
    exact ⟨canonical_reread? hw, canonical_rereadItems? hrs⟩

theorem canonical_rereadMembers? : ∀ {members ms : List (String × Json)},
    rereadMembers? members = some ms → CanonicalMembers ms
  | [], ms, h => by cases h; trivial
  | (k, v) :: rest, ms, h => by
    obtain ⟨w, hw, h⟩ := Option.bind_eq_some_iff.1 h
    obtain ⟨rs, hrs, rfl⟩ := Option.map_eq_some_iff.1 h
    exact ⟨canonical_reread? hw, canonical_rereadMembers? hrs⟩

end

/-! ## Values without doubles -/

mutual

/-- Every number in the value is whole. -/
def Exact : Json → Prop
  | .num (.double _) => False
  | .arr items => ExactItems items
  | .obj members => ExactMembers members
  | _ => True

def ExactItems : List Json → Prop
  | [] => True
  | v :: rest => v.Exact ∧ ExactItems rest

def ExactMembers : List (String × Json) → Prop
  | [] => True
  | (_, v) :: rest => v.Exact ∧ ExactMembers rest

end

theorem exactItems_iff {items : List Json} : ExactItems items ↔ ∀ v ∈ items, v.Exact := by
  induction items with
  | nil => simp [ExactItems]
  | cons v rest ih => simp [ExactItems, ih]

theorem exactMembers_iff {members : Fields} :
    ExactMembers members ↔ ∀ m ∈ members, m.2.Exact := by
  induction members with
  | nil => simp [ExactMembers]
  | cons m rest ih => simp [ExactMembers, ih]

/-! ## The doubles of a value -/

mutual

/-- Every double in the value has a property. -/
def AllDoubles (P : Double → Prop) : Json → Prop
  | .num (.double x) => P x
  | .arr items => AllDoublesItems P items
  | .obj members => AllDoublesMembers P members
  | _ => True

def AllDoublesItems (P : Double → Prop) : List Json → Prop
  | [] => True
  | v :: rest => v.AllDoubles P ∧ AllDoublesItems P rest

def AllDoublesMembers (P : Double → Prop) : List (String × Json) → Prop
  | [] => True
  | (_, v) :: rest => v.AllDoubles P ∧ AllDoublesMembers P rest

end

/-- Every double in the value is read back from its own text as it is. -/
def Steady (v : Json) : Prop := v.AllDoubles fun x => x.reread? = some x

theorem allDoublesItems_iff {P : Double → Prop} {items : List Json} :
    AllDoublesItems P items ↔ ∀ v ∈ items, v.AllDoubles P := by
  induction items with
  | nil => simp [AllDoublesItems]
  | cons v rest ih => simp [AllDoublesItems, ih]

theorem allDoublesMembers_iff {P : Double → Prop} {members : Fields} :
    AllDoublesMembers P members ↔ ∀ m ∈ members, m.2.AllDoubles P := by
  induction members with
  | nil => simp [AllDoublesMembers]
  | cons m rest ih => simp [AllDoublesMembers, ih]

mutual

theorem Exact.allDoubles {P : Double → Prop} : ∀ {v : Json}, v.Exact → v.AllDoubles P
  | .null, _ | .bool _, _ | .num (.whole _), _ | .str _, _ => trivial
  | .arr _, he => ExactItems.allDoubles he
  | .obj _, he => ExactMembers.allDoubles he

theorem ExactItems.allDoubles {P : Double → Prop} : ∀ {items : List Json}, ExactItems items →
    AllDoublesItems P items
  | [], _ => trivial
  | _ :: _, he => ⟨Exact.allDoubles he.1, ExactItems.allDoubles he.2⟩

theorem ExactMembers.allDoubles {P : Double → Prop} : ∀ {members : List (String × Json)},
    ExactMembers members → AllDoublesMembers P members
  | [], _ => trivial
  | (_, _) :: _, he => ⟨Exact.allDoubles he.1, ExactMembers.allDoubles he.2⟩

end

mutual

theorem Canonical.reread?_of_steady : ∀ {v : Json}, v.Canonical → v.Steady → v.reread? = some v
  | .null, _, _ | .bool _, _, _ | .num (.whole _), _, _ | .str _, _, _ => rfl
  | .num (.double x), _, hs => by
    rw [reread?, show x.reread? = some x from hs]
    rfl
  | .arr items, hc, hs => by rw [reread?, rereadItems?_of_steady hc hs]; rfl
  | .obj members, hc, hs => by
    rw [reread?, rereadMembers?_of_steady hc.2 hs]
    simp [hc.1.ofList_eq]

theorem rereadItems?_of_steady : ∀ {items : List Json}, CanonicalItems items →
    AllDoublesItems (fun x => x.reread? = some x) items → rereadItems? items = some items
  | [], _, _ => rfl
  | v :: rest, hc, hs => by
    rw [rereadItems?, hc.1.reread?_of_steady hs.1, rereadItems?_of_steady hc.2 hs.2]
    rfl

theorem rereadMembers?_of_steady : ∀ {members : List (String × Json)}, CanonicalMembers members →
    AllDoublesMembers (fun x => x.reread? = some x) members →
    rereadMembers? members = some members
  | [], _, _ => rfl
  | (k, v) :: rest, hc, hs => by
    rw [rereadMembers?, hc.1.reread?_of_steady hs.1, rereadMembers?_of_steady hc.2 hs.2]
    rfl

end

theorem Canonical.reread?_eq {v : Json} (hc : v.Canonical) (he : v.Exact) : v.reread? = some v :=
  hc.reread?_of_steady he.allDoubles

end Json

/-! ## Requests -/

theorem Json.renderMembers_end (members : Fields) :
    ∃ cs, Json.renderMembers members = cs ++ ['}'] := by
  induction members with
  | nil => exact ⟨[], rfl⟩
  | cons m rest ih =>
    obtain ⟨k, v⟩ := m
    cases rest with
    | nil => exact ⟨Json.quote k ++ ':' :: v.render, by simp [Json.renderMembers]⟩
    | cons m rest =>
      obtain ⟨cs, hcs⟩ := ih
      exact ⟨Json.quote k ++ ':' :: (v.render ++ ',' :: cs), by simp [Json.renderMembers, hcs]⟩

theorem Json.trimmed_render_obj (members : Fields) : Text.Trimmed (Json.obj members).render := by
  obtain ⟨cs, hcs⟩ := Json.renderMembers_end members
  rw [Json.render, hcs, ← List.cons_append]
  refine ⟨fun c hc => ?_, fun c hc => ?_⟩
  · obtain rfl : '{' = c := by simpa using hc
    decide
  · rw [List.getLast?_concat] at hc
    obtain rfl : '}' = c := by simpa using hc
    decide

/-- **What the next stage reads** of a request that is sent as text. -/
theorem parseRequest?_text {fields : Fields} (ha : fields.Ascending) :
    parseRequest? (Json.obj fields).text =
      if (Json.obj fields).depth ≤ Json.maxDepth then Json.rereadMembers? fields else none := by
  rw [parseRequest?, Json.text, String.toList_ofList, (Json.trimmed_render_obj fields).trimChars,
    Json.read?_render, Json.reread?_obj ha]
  split
  · cases Json.rereadMembers? fields <;> rfl
  · rfl

/-- A request whose doubles are read back as they are is received as it is. -/
theorem parseRequest?_text_of_steady {fields : Fields} (hc : (Json.obj fields).Canonical)
    (hs : (Json.obj fields).Steady) (hd : (Json.obj fields).depth ≤ Json.maxDepth) :
    parseRequest? (Json.obj fields).text = some fields := by
  rw [parseRequest?_text hc.1, if_pos hd]
  exact Json.rereadMembers?_of_steady hc.2 hs

theorem parseRequest?_text_of_exact {fields : Fields} (hc : (Json.obj fields).Canonical)
    (he : (Json.obj fields).Exact) (hd : (Json.obj fields).depth ≤ Json.maxDepth) :
    parseRequest? (Json.obj fields).text = some fields :=
  parseRequest?_text_of_steady hc he.allDoubles hd

theorem rereadMembers?_of_parseRequest? {fields received : Fields} (ha : fields.Ascending)
    (h : parseRequest? (Json.obj fields).text = some received) :
    Json.rereadMembers? fields = some received := by
  rw [parseRequest?_text ha] at h
  split at h
  · exact h
  · cases h

theorem ascending_of_parseRequest? {fields received : Fields} (ha : fields.Ascending)
    (h : parseRequest? (Json.obj fields).text = some received) :
    received.Ascending ∧ ∀ m ∈ received, m.2.Canonical := by
  have hms := rereadMembers?_of_parseRequest? ha h
  exact ⟨ha.of_keys (Json.keys_rereadMembers? hms),
    Json.canonicalMembers_iff.1 (Json.canonical_rereadMembers? hms)⟩

/-- What the next stage finds under a key. -/
theorem get?_of_parseRequest? {fields received : Fields} (ha : fields.Ascending)
    (h : parseRequest? (Json.obj fields).text = some received) (key : String) :
    received.get? key = (fields.get? key).bind Json.reread? :=
  Json.get?_rereadMembers? (rereadMembers?_of_parseRequest? ha h) key

/-- A value that is not changed by being written and read is what the next stage finds. -/
theorem get?_of_parseRequest?_of_steady {fields received : Fields} (ha : fields.Ascending)
    (h : parseRequest? (Json.obj fields).text = some received) {key : String} {v : Json}
    (hv : v.reread? = some v) (hget : fields.get? key = some v) : received.get? key = some v := by
  rw [get?_of_parseRequest? ha h, hget]
  exact hv

end CoinRelay
