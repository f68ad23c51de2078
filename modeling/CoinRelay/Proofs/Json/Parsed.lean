import CoinRelay.Delegation
import CoinRelay.Proofs.Json.Finite
import CoinRelay.Proofs.Json.Members

/-! # Values that were read

What the reader lets through is canonical, nests no deeper than there was room for, and holds finite
doubles only. The text of such a value is read again wherever its containers have room. -/

namespace CoinRelay

/-- Members in order, with values of some kind. -/
@[mk_iff]
structure Fields.Holds (R : Json → Prop) (fields : Fields) : Prop where
  ascending : fields.Ascending
  values : ∀ m ∈ fields, R m.2

namespace Fields.Holds
variable {R R' : Json → Prop} {fields : Fields}

theorem mono (h : fields.Holds R) (hR : ∀ v, R v → R' v) : fields.Holds R' :=
  ⟨h.ascending, fun m hm => hR m.2 (h.values m hm)⟩

theorem of_get? (h : fields.Holds R) {key : String} {v : Json} (hv : fields.get? key = some v) :
    R v :=
  h.values _ (Fields.mem_of_get? hv)

theorem insert (h : fields.Holds R) (key : String) {v : Json} (hv : R v) :
    (fields.insert key v).Holds R := by
  refine ⟨h.ascending.insert key v, fun m hm => ?_⟩
  rcases Fields.mem_insert hm with rfl | hm
  · exact hv
  · exact h.values m hm

theorem erase (h : fields.Holds R) (key : String) : (fields.erase key).Holds R :=
  ⟨h.ascending.erase key, fun m hm => h.values m (List.mem_of_mem_filter hm)⟩

end Fields.Holds

namespace Json

theorem canonical_obj_iff {fields : Fields} :
    (Json.obj fields).Canonical ↔ fields.Holds Json.Canonical := by
  rw [Canonical, canonicalMembers_iff]
  exact ⟨fun h => ⟨h.1, h.2⟩, fun h => ⟨h.ascending, h.values⟩⟩

/-! ## How deep containers nest -/

theorem depthItems_le {items : List Json} {n : ℕ} :
    depthItems items ≤ n ↔ ∀ v ∈ items, v.depth ≤ n := by
  induction items with
  | nil => simp [depthItems]
  | cons v rest ih => simp [depthItems, ih]

theorem depthMembers_le {members : Fields} {n : ℕ} :
    depthMembers members ≤ n ↔ ∀ m ∈ members, m.2.depth ≤ n := by
  induction members with
  | nil => simp [depthMembers]
  | cons m rest ih => simp [depthMembers, ih]

theorem depth_obj_le {members : Fields} {n : ℕ} :
    (Json.obj members).depth ≤ n + 1 ↔ ∀ m ∈ members, m.2.depth ≤ n := by
  rw [depth, Nat.add_le_add_iff_right, depthMembers_le]

theorem depth_lt_of_get? {fields : Fields} {key : String} {v : Json}
    (h : fields.get? key = some v) : v.depth < (Json.obj fields).depth :=
  Nat.lt_succ_of_le (depthMembers_le.1 le_rfl _ (Fields.mem_of_get? h))

/-! ## What has a text of the format -/

mutual

theorem exists_reread? : ∀ {v : Json}, v.AllDoubles Double.Finite → ∃ w, v.reread? = some w
  | .null, _ | .bool _, _ | .num (.whole _), _ | .str _, _ => ⟨_, rfl⟩
  | .num (.double x), h => by
    obtain ⟨y, hy⟩ := Double.Finite.exists_reread? h
    exact ⟨.num (.double y), by rw [reread?, hy]; rfl⟩
  | .arr items, h => by
    obtain ⟨ws, hws⟩ := exists_rereadItems? h
    exact ⟨.arr ws, by rw [reread?, hws]; rfl⟩
  | .obj members, h => by
    obtain ⟨ms, hms⟩ := exists_rereadMembers? h
    exact ⟨.obj (Fields.ofList ms), by rw [reread?, hms]; rfl⟩

theorem exists_rereadItems? : ∀ {items : List Json}, AllDoublesItems Double.Finite items →
    ∃ ws, rereadItems? items = some ws
  | [], _ => ⟨[], rfl⟩
  | v :: rest, h => by
    obtain ⟨w, hw⟩ := exists_reread? h.1
    obtain ⟨ws, hws⟩ := exists_rereadItems? h.2
    exact ⟨w :: ws, by rw [rereadItems?, hw, hws]; rfl⟩

theorem exists_rereadMembers? : ∀ {members : List (String × Json)},
    AllDoublesMembers Double.Finite members → ∃ ms, rereadMembers? members = some ms
  | [], _ => ⟨[], rfl⟩
  | (k, v) :: rest, h => by
    obtain ⟨w, hw⟩ := exists_reread? h.1
    obtain ⟨ms, hms⟩ := exists_rereadMembers? h.2
    exact ⟨(k, w) :: ms, by rw [rereadMembers?, hw, hms]; rfl⟩

end

/-! ## What the reader lets through -/

/-- What is known of a value that was read with room for so many containers. -/
structure Parsed (room : ℕ) (v : Json) : Prop where
  canonical : v.Canonical
  depth_le : v.depth ≤ room
  finite : v.AllDoubles Double.Finite

theorem Parsed.of_depth_le {room room' : ℕ} {v : Json} (h : v.Parsed room) (hd : v.depth ≤ room') :
    v.Parsed room' :=
  ⟨h.canonical, hd, h.finite⟩

theorem Parsed.mono {room room' : ℕ} {v : Json} (h : v.Parsed room) (hle : room ≤ room') :
    v.Parsed room' :=
  h.of_depth_le (h.depth_le.trans hle)

theorem parsed_arr {room : ℕ} {items : List Json} (h : ∀ v ∈ items, v.Parsed room) :
    (Json.arr items).Parsed (room + 1) where
  canonical := canonicalItems_iff.2 fun v hv => (h v hv).canonical
  depth_le := Nat.add_le_add_right (depthItems_le.2 fun v hv => (h v hv).depth_le) 1
  finite := allDoublesItems_iff.2 fun v hv => (h v hv).finite

theorem parsed_obj_iff {room : ℕ} {members : Fields} :
    (Json.obj members).Parsed (room + 1) ↔ members.Holds (Parsed room) := by
  constructor
  · intro h
    have hc := canonicalMembers_iff.1 h.canonical.2
    have hd := depth_obj_le.1 h.depth_le
    have hf := allDoublesMembers_iff.1 h.finite
    exact ⟨h.canonical.1, fun m hm => ⟨hc m hm, hd m hm, hf m hm⟩⟩
  · intro h
    exact {
      canonical := canonical_obj_iff.2 (h.mono fun _ hv => hv.canonical)
      depth_le := depth_obj_le.2 fun m hm => (h.values m hm).depth_le
      finite := allDoublesMembers_iff.2 fun m hm => (h.values m hm).finite }

theorem parsed_ofList {room : ℕ} {members : Fields} (h : ∀ m ∈ members, m.2.Parsed room) :
    (Json.obj (Fields.ofList members)).Parsed (room + 1) :=
  parsed_obj_iff.2 ⟨Fields.ascending_ofList members, fun m hm => h m (mem_ofList hm)⟩

theorem parsed_number {room : ℕ} {cs rest : List Char} {n : Number}
    (h : readNumber cs = some (n, rest)) : (Json.num n).Parsed room := by
  refine ⟨trivial, Nat.zero_le room, ?_⟩
  cases n with
  | whole n => trivial
  | double x => exact finite_of_readNumber h

mutual

theorem parsed_of_readValue : ∀ {fuel room : ℕ} {cs rest : List Char} {v : Json},
    readValue fuel room cs = some (v, rest) → v.Parsed room
  | 0, _, _, _, _, h => by cases h
  | fuel + 1, room, cs, rest, v, h => by
    have hscalar : ∀ {w : Json}, w.Canonical → w.depth = 0 → w.AllDoubles Double.Finite →
        w.Parsed room := fun hc hd hf => ⟨hc, hd ▸ Nat.zero_le room, hf⟩
    unfold readValue at h
    split at h
    · cases h
      exact hscalar trivial rfl trivial
    · cases h
      exact hscalar trivial rfl trivial
    · cases h
      exact hscalar trivial rfl trivial
    · obtain ⟨r, -, hr⟩ := Option.map_eq_some_iff.1 h
      cases hr
      exact hscalar trivial rfl trivial
    · split at h
      · cases h
      · split at h
        · cases h
          exact parsed_arr (by simp)
        · obtain ⟨r, hr, heq⟩ := Option.map_eq_some_iff.1 h
          cases heq
          exact parsed_arr (parsed_of_readItems hr)
    · split at h
      · cases h
      · split at h
        · cases h
          exact parsed_obj_iff.2 ⟨List.Pairwise.nil, by simp⟩
        · obtain ⟨r, hr, heq⟩ := Option.map_eq_some_iff.1 h
          cases heq
          exact parsed_ofList (parsed_of_readMembers hr)
    · obtain ⟨r, hr, heq⟩ := Option.map_eq_some_iff.1 h
      cases heq
      exact parsed_number hr

theorem parsed_of_readItems : ∀ {fuel room : ℕ} {cs rest : List Char} {items : List Json},
    readItems fuel room cs = some (items, rest) → ∀ v ∈ items, v.Parsed room
  | 0, _, _, _, _, h => by cases h
  | fuel + 1, room, cs, rest, items, h => by
    unfold readItems at h
    split at h
    · cases h
    · next v rest' hv =>
      have hfirst := parsed_of_readValue hv
      split at h
      · obtain ⟨r, hr, heq⟩ := Option.map_eq_some_iff.1 h
        cases heq
        exact List.forall_mem_cons.2 ⟨hfirst, parsed_of_readItems hr⟩
      · cases h
        exact List.forall_mem_singleton.2 hfirst
      · cases h

theorem parsed_of_readMembers : ∀ {fuel room : ℕ} {cs rest : List Char}
    {members : List (String × Json)}, readMembers fuel room cs = some (members, rest) →
    ∀ m ∈ members, m.2.Parsed room
  | 0, _, _, _, _, h => by cases h
  | fuel + 1, room, cs, rest, members, h => by
    unfold readMembers at h
    split at h
    · split at h
      · cases h
      · split at h
        · split at h
          · cases h
          · next v rest' hv =>
            have hfirst := parsed_of_readValue hv
            split at h
            · obtain ⟨r, hr, heq⟩ := Option.map_eq_some_iff.1 h
              cases heq
              exact List.forall_mem_cons.2 ⟨hfirst, parsed_of_readMembers hr⟩
            · cases h
              exact List.forall_mem_singleton.2 hfirst
            · cases h
        · cases h
    · cases h

end

theorem parsed_of_read? {cs : List Char} {v : Json} (h : read? cs = some v) :
    v.Parsed maxDepth := by
  unfold read? at h
  split at h
  · next hv =>
    split at h
    · cases h
      exact parsed_of_readValue hv
    · cases h
  · cases h

end Json

/-- **What is known of a request that was read.** -/
theorem parsed_of_parseRequest? {raw : String} {request : Fields}
    (h : parseRequest? raw = some request) : (Json.obj request).Parsed Json.maxDepth := by
  obtain ⟨v, hv, hobject⟩ := Option.bind_eq_some_iff.1 h
  cases v with
  | obj fields =>
    cases hobject
    exact Json.parsed_of_read? hv
  | _ => cases hobject

/-- **What is known of an answer that was read.** -/
theorem parsed_of_parseReply {stdout : String} {body : Fields} (h : parseReply stdout = .ok body) :
    (Json.obj body).Parsed Json.maxDepth := by
  unfold parseReply at h
  split at h
  · cases h
    exact Json.parsed_obj_iff.2 ⟨List.Pairwise.nil, by simp⟩
  · split at h
    · next hv =>
      cases h
      exact Json.parsed_of_read? hv
    · cases h

end CoinRelay
