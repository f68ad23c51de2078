import CoinRelay.Handoff
import CoinRelay.Proofs.Text.Trimmed
import Mathlib.Data.List.Forall2

/-! # What passes the checks

A stage reads a request only through its checks. Here each check is turned around: what it accepts
is what it promises, and whatever keeps the promise is accepted. -/

namespace CoinRelay
open Text

/-! ## Checks one after the other -/

theorem bind_eq_ok {ε α β : Type} {x : Except ε α} {f : α → Except ε β} {b : β} :
    x >>= f = .ok b ↔ ∃ a, x = .ok a ∧ f a = .ok b := by
  cases x with
  | error e => simp [bind, Except.bind]
  | ok a => simp [bind, Except.bind]

/-- A list passes a check item by item and in order. -/
theorem mapM_eq_ok {ε α β : Type} {f : α → Except ε β} {xs : List α} {ys : List β} :
    xs.mapM f = .ok ys ↔ List.Forall₂ (fun x y => f x = .ok y) xs ys := by
  induction xs generalizing ys with
  | nil => cases ys <;> simp [pure, Except.pure]
  | cons x rest ih =>
    rw [List.mapM_cons, bind_eq_ok]
    simp only [bind_eq_ok, ih, pure, Except.pure, Except.ok.injEq]
    constructor
    · rintro ⟨y, hy, ys, hys, rfl⟩
      exact .cons hy hys
    · rintro (_ | ⟨hy, hys⟩)
      exact ⟨_, hy, _, hys, rfl⟩

/-- A check with a single cause refuses a list for one bad item. -/
theorem mapM_eq_error {ε α β : Type} {f : α → Except ε β} {cause : ε} {xs : List α} {x : α}
    (honly : ∀ x e, f x = .error e → e = cause) (hx : x ∈ xs) (hbad : f x = .error cause) :
    xs.mapM f = .error cause := by
  induction xs with
  | nil => cases hx
  | cons a rest ih =>
    rw [List.mapM_cons]
    cases ha : f a with
    | error e =>
      rw [honly a e ha]
      rfl
    | ok y =>
      rcases List.mem_cons.1 hx with rfl | hx
      · rw [hbad] at ha
        cases ha
      · rw [ih hx]
        rfl

/-- What a list is matched with has been matched with something. -/
theorem exists_of_forall₂ {α β : Type} {R : α → β → Prop} {xs : List α} {ys : List β}
    (h : List.Forall₂ R xs ys) {y : β} (hy : y ∈ ys) : ∃ x ∈ xs, R x y := by
  induction h with
  | nil => cases hy
  | cons hxy _ ih =>
    rcases List.mem_cons.1 hy with rfl | hy
    · exact ⟨_, by simp, hxy⟩
    · obtain ⟨x, hx, hr⟩ := ih hy
      exact ⟨x, by simp [hx], hr⟩

/-! ## Integers -/

namespace Json

theorem readInt64?_bounds {s : String} {n : Int} (h : Text.readInt64? s = some n) :
    -Word.signedBound ≤ n ∧ n < Word.signedBound := by
  have hn := (Option.filter_eq_some_iff.1 h).2
  simpa [Word.isSigned] using hn

/-- An integer that is read from a value is a signed word. -/
theorem toInteger?_bounds {v : Json} {n : Int} (h : v.toInteger? = some n) :
    -Word.signedBound ≤ n ∧ n < Word.signedBound := by
  cases v with
  | num m =>
    cases m with
    | whole w =>
      simp only [toInteger?] at h
      split at h
      · next hlt => cases h; exact ⟨w.lower, hlt⟩
      · cases h
    | double d =>
      have hn := (Option.filter_eq_some_iff.1 h).2
      simp only [decide_eq_true_eq] at hn
      exact ⟨Int.le_of_lt hn.1, hn.2⟩
  | str s => exact readInt64?_bounds h
  | null | bool | arr | obj => cases h

theorem toInteger?_ofUInt64 (n : UInt64) :
    (ofUInt64 n).toInteger? =
      if (n.toNat : Int) < Word.signedBound then some (n.toNat : Int) else none := rfl

end Json

/-- A positive signed word is the same number as an amount. -/
theorem toNat_ofNat_toNat {n : Int} (hpos : 0 < n) (hlt : n < Word.signedBound) :
    ((UInt64.ofNat n.toNat).toNat : Int) = n := by
  simp only [Word.signedBound] at hlt
  rw [UInt64.toNat_ofNat_of_lt' (by simp only [UInt64.size]; omega)]
  omega

/-! ## Identities -/

theorem requirePresent_eq_ok {texts : List String} {cause : Rejection} {u : Unit} :
    requirePresent texts cause = .ok u ↔ ∀ t ∈ texts, t ≠ "" := by
  unfold requirePresent
  split
  · next h =>
    obtain ⟨t, ht, he⟩ := List.any_eq_true.1 h
    simp only [reduceCtorEq, false_iff]
    exact fun hall => hall t ht (String.isEmpty_iff.1 he)
  · next h =>
    simp only [List.any_eq_true, not_exists, not_and, String.isEmpty_iff] at h
    simpa using h

theorem keyringLocator_eq_ok {files : Files} {path found : String} :
    keyringLocator files path = .ok found ↔
      found = path ∧ path ≠ "" ∧ files.holds (expandHome files.home path) = true := by
  unfold keyringLocator
  split
  · next h => simp [String.isEmpty_iff.1 h]
  · next h =>
    have hne : path ≠ "" := fun he => h (String.isEmpty_iff.2 he)
    split
    · next hh => simp [hne, hh, eq_comm]
    · next hh => simp [hh]

theorem nativeAsset_eq_ok {request : Fields} {asset : String} :
    nativeAsset request = .ok asset ↔
      asset = lowerAscii (request.text "asset_id") ∧ asset ∈ nativeAssetIds := by
  simp only [nativeAsset]
  split
  · next h =>
    constructor
    · intro he; cases he; exact ⟨rfl, h⟩
    · rintro ⟨rfl, -⟩; rfl
  · next h =>
    simp only [reduceCtorEq, false_iff]
    rintro ⟨rfl, hmem⟩
    exact h hmem

/-- The names of the native asset are written in lower case and without blanks around them. -/
theorem nativeAssetIds_plain : ∀ asset ∈ nativeAssetIds,
    lowerAscii asset = asset ∧ Text.trim asset = asset := by
  decide

namespace Identity

/-- Who may sign: names that are there and trimmed, a keyring that exists, and the native asset. -/
structure Valid (files : Files) (identity : Identity) : Prop where
  present : ∀ t ∈ [identity.keyId, identity.network, identity.receiveAddress], t ≠ ""
  trimmed : ∀ t ∈ [identity.keyId, identity.network, identity.receiveAddress,
    identity.keyringPath], Trimmed t.toList
  keyring : identity.keyringPath ≠ "" ∧
    files.holds (expandHome files.home identity.keyringPath) = true
  asset : identity.assetId ∈ nativeAssetIds

theorem parse_eq_ok {files : Files} {request : Fields} {identity : Identity} :
    parse files request = .ok identity ↔
      identity.keyId = request.text "key_id" ∧ identity.network = request.text "network" ∧
      identity.receiveAddress = request.text "receive_address" ∧
      identity.keyringPath = request.text "keyring_yaml_path" ∧
      identity.assetId = lowerAscii (request.text "asset_id") ∧ identity.Valid files := by
  simp only [parse, bind_eq_ok, requirePresent_eq_ok, keyringLocator_eq_ok, nativeAsset_eq_ok,
    pure, Except.pure, Except.ok.injEq]
  constructor
  · rintro ⟨_, hpresent, path, ⟨rfl, hpath⟩, asset, ⟨rfl, hasset⟩, rfl⟩
    refine ⟨rfl, rfl, rfl, rfl, rfl, hpresent, ?_, hpath, hasset⟩
    simp only [List.mem_cons, List.not_mem_nil, or_false]
    rintro t (rfl | rfl | rfl | rfl) <;> exact request.trimmed_text _
  · rintro ⟨hk, hn, hr, hp, ha, hvalid⟩
    obtain ⟨keyId, network, receiveAddress, keyringPath, assetId⟩ := identity
    subst hk hn hr hp ha
    exact ⟨(), hvalid.present, _, ⟨rfl, hvalid.keyring⟩, _, ⟨rfl, hvalid.asset⟩, rfl⟩

theorem valid_of_parse {files : Files} {request : Fields} {identity : Identity}
    (h : parse files request = .ok identity) : identity.Valid files :=
  (parse_eq_ok.1 h).2.2.2.2.2

/-- A request that writes a valid identity down is one from that identity. -/
theorem Valid.parse {files : Files} {request : Fields} {identity : Identity}
    (hv : identity.Valid files) (hw : ∀ m ∈ identity.toFields, request.get? m.1 = some m.2) :
    parse files request = .ok identity := by
  simp only [toFields, List.mem_cons, List.not_mem_nil, or_false, forall_eq_or_imp,
    forall_eq] at hw
  obtain ⟨ha, hk, hp, hn, hr⟩ := hw
  obtain ⟨hlower, htrim⟩ := nativeAssetIds_plain _ hv.asset
  have htrimmed := hv.trimmed
  simp only [List.mem_cons, List.not_mem_nil, or_false, forall_eq_or_imp, forall_eq] at htrimmed
  obtain ⟨htk, htn, htr, htp⟩ := htrimmed
  refine parse_eq_ok.2 ⟨?_, ?_, ?_, ?_, ?_, hv⟩
  · exact (Fields.text_of_get?_str hk htk).symm
  · exact (Fields.text_of_get?_str hn htn).symm
  · exact (Fields.text_of_get?_str hr htr).symm
  · exact (Fields.text_of_get?_str hp htp).symm
  · rw [Fields.text_of_get?_str ha (htrim ▸ Text.trimmed_trim _), hlower]

end Identity

end CoinRelay
