import CoinRelay.Planner
import Mathlib.Tactic

/-! # What the planner can start from

The planner reads its input strictly: an object names every field that has no default, nothing is
under any other key, and a word is a whole number. -/

namespace CoinRelay

namespace Json

/-- An unsigned word, written as a whole number. -/
def IsWord (v : Json) : Prop := ∃ n : Amount, v = .ofUInt64 n

/-- Any number. -/
def IsNumber (v : Json) : Prop := ∃ n : Number, v = .num n

theorem toAmount?_eq_some_iff {v : Json} {n : Amount} :
    v.toAmount? = some n ↔ v = .ofUInt64 n := by
  constructor
  · intro h
    unfold toAmount? at h
    split at h
    · next number =>
      cases number with
      | double x => cases h
      | whole w =>
        obtain ⟨hnonneg, hn⟩ := Option.ite_none_right_eq_some.1 h
        have hupper := w.upper
        have hval : w.val = n.toNat := by
          rw [← Option.some.inj hn, UInt64.toNat_ofNat_of_lt'] <;>
            simp only [Word.unsignedBound, UInt64.size] at * <;> omega
        obtain ⟨val, lower, upper⟩ := w
        cases hval
        rfl
    · cases h
  · rintro rfl
    exact Number.toUInt64?_ofUInt64 n

theorem isSome_toAmount? {v : Json} : v.toAmount?.isSome ↔ v.IsWord := by
  rw [Option.isSome_iff_exists]
  exact exists_congr fun _ => toAmount?_eq_some_iff

theorem isSome_toDouble? {v : Json} : v.toDouble?.isSome ↔ v.IsNumber := by
  cases v <;> simp [toDouble?, IsNumber]

end Json

namespace Fields
variable {fields : Fields} {key : String}

/-- All keys are known. -/
def Known (fields : Fields) (keys : List String) : Prop := ∀ m ∈ fields, m.1 ∈ keys

theorem onlyKeys_iff {keys : List String} : fields.onlyKeys keys = true ↔ fields.Known keys := by
  simp only [onlyKeys, Known, List.all_eq_true, decide_eq_true_eq]

/-- There is a value of some kind under a key. -/
def Has (fields : Fields) (key : String) (kind : Json → Prop) : Prop :=
  ∃ v, fields.get? key = some v ∧ kind v

/-- What is under a key, if anything is, is of some kind. -/
def MayHave (fields : Fields) (key : String) (kind : Json → Prop) : Prop :=
  ∀ v, fields.get? key = some v → kind v

theorem isSome_bind_get? {α : Type} {read : Json → Option α} {kind : Json → Prop}
    (h : ∀ v, (read v).isSome ↔ kind v) :
    ((fields.get? key).bind read).isSome ↔ fields.Has key kind := by
  rw [Option.isSome_bind]
  cases hget : fields.get? key <;> simp [Has, hget, h]

theorem isSome_amountAt? : (fields.amountAt? key).isSome ↔ fields.Has key Json.IsWord :=
  isSome_bind_get? fun _ => Json.isSome_toAmount?

theorem isSome_amountOrZero? :
    (fields.amountOrZero? key).isSome ↔ fields.MayHave key Json.IsWord := by
  unfold amountOrZero?
  cases hget : fields.get? key <;> simp [MayHave, hget, Json.isSome_toAmount?]

end Fields

/-! ## Reads in a row -/

theorem isSome_bind_iff {α β : Type} {x : Option α} {f : α → Option β} {P : Prop}
    (h : ∀ a, (f a).isSome ↔ P) : (x >>= f).isSome ↔ x.isSome ∧ P := by
  cases x <;> simp [h]

theorem isSome_guard_bind_iff {β : Type} {b : Bool} {f : Unit → Option β} :
    ((guard (b = true) : Option Unit) >>= f).isSome ↔ b = true ∧ (f ()).isSome := by
  cases b <;> simp [guard]

theorem isSome_mapM_iff {α β : Type} {f : α → Option β} {items : List α} :
    (items.mapM f).isSome ↔ ∀ item ∈ items, (f item).isSome := by
  induction items with
  | nil => simp
  | cons item items ih =>
    rw [List.mapM_cons, isSome_bind_iff fun _ => isSome_bind_iff fun _ => iff_true_intro rfl, ih,
      and_true, List.forall_mem_cons]

/-! ## Buckets and inputs -/

namespace Bucket

/-- The fields of a bucket. -/
structure Described (fields : Fields) : Prop where
  known : fields.Known ["size_base_units", "target_count", "split_buffer_count",
    "combine_when_excess_factor", "current_count"]
  words : ∀ key ∈ ["size_base_units", "target_count", "split_buffer_count", "current_count"],
    fields.Has key Json.IsWord
  factor : fields.Has "combine_when_excess_factor" Json.IsNumber

/-- A value that describes a bucket: by its fields, or by their values in order. -/
def Describes : Json → Prop
  | .obj fields => Described fields
  | .arr [size, target, buffer, excessFactor, current] =>
    size.IsWord ∧ target.IsWord ∧ buffer.IsWord ∧ excessFactor.IsNumber ∧ current.IsWord
  | _ => False

theorem isSome_ofJson? {v : Json} : (ofJson? v).isSome ↔ Describes v := by
  unfold ofJson? Describes
  split
  · next size target buffer factor current =>
    rw [isSome_bind_iff fun _ => isSome_bind_iff fun _ => isSome_bind_iff fun _ =>
      isSome_bind_iff fun _ => isSome_bind_iff fun _ => iff_true_intro rfl]
    simp only [Json.isSome_toAmount?, Json.isSome_toDouble?, and_true]
  · next fields =>
    rw [isSome_guard_bind_iff, isSome_bind_iff fun _ => isSome_bind_iff fun _ =>
      isSome_bind_iff fun _ => isSome_bind_iff fun _ => isSome_bind_iff fun _ => iff_true_intro rfl]
    simp only [Fields.isSome_amountAt?, Fields.isSome_bind_get? fun _ => Json.isSome_toDouble?,
      Fields.onlyKeys_iff]
    constructor
    · rintro ⟨hknown, hsize, htarget, hbuffer, hfactor, hcurrent, -⟩
      exact ⟨hknown, by simp [hsize, htarget, hbuffer, hcurrent], hfactor⟩
    · rintro ⟨hknown, hwords, hfactor⟩
      simp only [List.forall_mem_cons] at hwords
      exact ⟨hknown, hwords.1, hwords.2.1, hwords.2.2.1, hfactor, hwords.2.2.2.1, trivial⟩
  · next hrow hobj =>
    split
    · exact absurd rfl (hobj _)
    · exact absurd rfl (hrow _ _ _ _ _)
    · simp

end Bucket

namespace PlannerInput

/-- A value that lists buckets. -/
def ListsBuckets (v : Json) : Prop :=
  ∃ items, v = .arr items ∧ ∀ item ∈ items, Bucket.Describes item

/-- The fields of an input. -/
structure Described (fields : Fields) : Prop where
  known : fields.Known ["buckets", "max_operations_per_run", "max_fee_budget_base_units",
    "split_fee_base_units", "combine_fee_base_units"]
  buckets : fields.Has "buckets" ListsBuckets
  operations : fields.Has "max_operations_per_run" Json.IsWord
  fees : ∀ key ∈ ["max_fee_budget_base_units", "split_fee_base_units", "combine_fee_base_units"],
    fields.MayHave key Json.IsWord

theorem isSome_buckets? {v : Json} : (buckets? v).isSome ↔ ListsBuckets v := by
  cases v with
  | arr items =>
    show (items.mapM Bucket.ofJson?).isSome ↔ _
    simp only [isSome_mapM_iff, Bucket.isSome_ofJson?, ListsBuckets, Json.arr.injEq,
      exists_eq_left']
  | _ => simp [buckets?, Json.array?, ListsBuckets]

/-- **What the planner accepts.** -/
theorem isSome_ofJson?_obj {fields : Fields} :
    (ofJson? (.obj fields)).isSome ↔ Described fields := by
  unfold ofJson?
  rw [isSome_guard_bind_iff, isSome_bind_iff fun _ => isSome_bind_iff fun _ =>
    isSome_bind_iff fun _ => isSome_bind_iff fun _ => isSome_bind_iff fun _ => iff_true_intro rfl]
  simp only [Fields.isSome_amountAt?, Fields.isSome_amountOrZero?,
    Fields.isSome_bind_get? fun _ => isSome_buckets?, Fields.onlyKeys_iff]
  constructor
  · rintro ⟨hknown, hbuckets, hoperations, hbudget, hsplit, hcombine, -⟩
    exact ⟨hknown, hbuckets, hoperations, by simp [hbudget, hsplit, hcombine]⟩
  · rintro ⟨hknown, hbuckets, hoperations, hfees⟩
    simp only [List.forall_mem_cons] at hfees
    exact ⟨hknown, hbuckets, hoperations, hfees.1, hfees.2.1, hfees.2.2.1, trivial⟩

end PlannerInput

end CoinRelay
