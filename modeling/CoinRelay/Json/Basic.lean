import CoinRelay.Json.Number

/-!
# JSON values

A value of the data format that requests, answers and results are written in. An object is a list
of its members. In a *canonical* value every object lists its keys in strictly ascending order
(by code point, which is the order of their bytes), so that equal objects are equal lists;
`Fields.insert` keeps that order and `Fields.ofList` establishes it, the last of equal keys
winning.
-/

namespace CoinRelay

inductive Json where
  | null
  | bool (b : Bool)
  | num (n : Json.Number)
  | str (s : String)
  | arr (items : List Json)
  | obj (members : List (String × Json))
deriving Inhabited

/-- The members of an object. -/
abbrev Fields := List (String × Json)

namespace Fields

def get? (fields : Fields) (key : String) : Option Json :=
  fields.lookup key

/-- Sets the value under a key: in its place if the key is there, else before the first larger
key. -/
def insert (fields : Fields) (key : String) (value : Json) : Fields :=
  match fields with
  | [] => [(key, value)]
  | (k, v) :: rest =>
    if key = k then (key, value) :: rest
    else if key < k then (key, value) :: (k, v) :: rest
    else (k, v) :: insert rest key value

/-- Sets the value under a key that is absent; a key that is there keeps its value. -/
def insertIfNew (fields : Fields) (key : String) (value : Json) : Fields :=
  if (fields.get? key).isSome then fields else fields.insert key value

def erase (fields : Fields) (key : String) : Fields :=
  fields.filter fun m => m.1 != key

/-- The members in the order of their keys; of equal keys the last one stays. -/
def ofList (members : List (String × Json)) : Fields :=
  members.foldl (fun fields m => insert fields m.1 m.2) []

/-- The keys of the members ascend strictly. -/
def Ascending (fields : Fields) : Prop := fields.Pairwise fun a b => a.1 < b.1

/-! ### What a key finds -/

@[simp] theorem get?_nil (key : String) : get? [] key = none := rfl

theorem get?_cons (k : String) (v : Json) (rest : Fields) (key : String) :
    get? ((k, v) :: rest) key = if key = k then some v else get? rest key := by
  simp only [get?, List.lookup_cons]
  by_cases h : key = k
  · simp [h]
  · have hb : (key == k) = false := by simpa using h
    simp [h, hb]

@[simp] theorem get?_insert_self (fields : Fields) (key : String) (value : Json) :
    (fields.insert key value).get? key = some value := by
  fun_induction insert fields key value <;> simp_all [get?_cons]

theorem get?_insert_of_ne (fields : Fields) {key k : String} (value : Json) (h : k ≠ key) :
    (fields.insert key value).get? k = fields.get? k := by
  fun_induction insert fields key value <;> simp_all [get?_cons]

theorem get?_erase (fields : Fields) (key k : String) :
    (fields.erase key).get? k = if k = key then none else fields.get? k := by
  induction fields with
  | nil => simp [erase]
  | cons m rest ih =>
    obtain ⟨mk, mv⟩ := m
    simp only [erase] at ih ⊢
    by_cases hm : mk = key <;> by_cases hk : k = key <;> by_cases hkm : k = mk <;>
      simp_all [get?_cons]

/-! ### The order of the keys -/

theorem mem_insert {fields : Fields} {key : String} {value : Json} {m : String × Json}
    (h : m ∈ fields.insert key value) : m = (key, value) ∨ m ∈ fields := by
  fun_induction insert fields key value <;> simp_all <;> grind

theorem Ascending.insert {fields : Fields} (h : fields.Ascending) (key : String) (value : Json) :
    (fields.insert key value).Ascending := by
  induction fields with
  | nil => simp [Fields.insert, Ascending]
  | cons m rest ih =>
    obtain ⟨k, v⟩ := m
    obtain ⟨hk, hrest⟩ := List.pairwise_cons.1 h
    simp only [Fields.insert]
    split
    · next heq => subst heq; exact List.pairwise_cons.2 ⟨hk, hrest⟩
    · next hne =>
      split
      · next hlt =>
        refine List.pairwise_cons.2 ⟨fun m hm => ?_, h⟩
        rcases List.mem_cons.1 hm with rfl | hm
        · exact hlt
        · exact String.lt_trans hlt (hk m hm)
      · next hnlt =>
        refine List.pairwise_cons.2 ⟨fun m hm => ?_, ih hrest⟩
        rcases mem_insert hm with rfl | hm
        · exact Std.lt_of_le_of_ne (String.not_lt.1 hnlt) (Ne.symm hne)
        · exact hk m hm

theorem Ascending.erase {fields : Fields} (h : fields.Ascending) (key : String) :
    (fields.erase key).Ascending :=
  h.sublist List.filter_sublist

theorem ascending_ofList (members : List (String × Json)) : (ofList members).Ascending := by
  have step : ∀ (fields : Fields), fields.Ascending →
      (members.foldl (fun fields m => insert fields m.1 m.2) fields).Ascending := by
    induction members with
    | nil => exact fun _ h => h
    | cons m rest ih => exact fun fields h => ih _ (h.insert m.1 m.2)
  exact step [] List.Pairwise.nil

end Fields

namespace Json

def ofUInt64 (n : UInt64) : Json := .num (.whole (.ofUInt64 n))

/-- Optional text: `null` when it is absent. -/
def ofText? (text : Option String) : Json := (text.map Json.str).getD .null

/-- An object given by its members in any order. -/
def ofMembers (members : List (String × Json)) : Json := .obj (Fields.ofList members)

def object? : Json → Option Fields
  | .obj fields => some fields
  | _ => none

def array? : Json → Option (List Json)
  | .arr items => some items
  | _ => none

def isNull : Json → Bool
  | .null => true
  | _ => false

/-! ## Canonical values -/

mutual

/-- Every object in the value lists its keys in strictly ascending order. -/
def Canonical : Json → Prop
  | .arr items => CanonicalItems items
  | .obj members => Fields.Ascending members ∧ CanonicalMembers members
  | _ => True

def CanonicalItems : List Json → Prop
  | [] => True
  | v :: rest => v.Canonical ∧ CanonicalItems rest

def CanonicalMembers : List (String × Json) → Prop
  | [] => True
  | (_, v) :: rest => v.Canonical ∧ CanonicalMembers rest

end

mutual

/-- How many containers are nested in the value at the deepest place. -/
def depth : Json → Nat
  | .arr items => depthItems items + 1
  | .obj members => depthMembers members + 1
  | _ => 0

def depthItems : List Json → Nat
  | [] => 0
  | v :: rest => max v.depth (depthItems rest)

def depthMembers : List (String × Json) → Nat
  | [] => 0
  | (_, v) :: rest => max v.depth (depthMembers rest)

end

end Json

end CoinRelay
