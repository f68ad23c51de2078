import CoinRelay.Proofs.Json.Members
import CoinRelay.Proofs.Json.Settled
import CoinRelay.Proofs.Totals
import Mathlib

/-! # Coins that are read again

The coins of a request pass from stage to stage as text. What counts of a coin is its amount. The
first reading may change an amount that is written as a double, but none after that does. -/

namespace CoinRelay

/-- The amount that a value stands for under the key of a coin. -/
def Json.amount? : Json → Option Amount
  | .num (.whole n) => if 0 ≤ n.val then some (UInt64.ofNat n.val.toNat) else none
  | .str s =>
    match Text.readUInt64? (Text.trim s) with
    | some n => some n
    | none => coinAmount?.asNatural (.str s)
  | v => coinAmount?.asNatural v

theorem coinAmount?_eq (coin : Json) :
    coinAmount? coin = (coin.object?.bind (Fields.get? · "amount")).bind Json.amount? := by
  unfold coinAmount?
  cases coin.object? with
  | none => rfl
  | some fields =>
    cases hv : fields.get? "amount" with
    | none => simp [hv]
    | some v =>
      simp only [Option.bind_eq_bind, Option.bind_some, hv]
      rfl

/-- What a coin counts for. -/
def Json.worth (coin : Json) : Nat := ((coinAmount? coin).map UInt64.toNat).getD 0

theorem Amount.sum_filterMap (coins : List Json) :
    Amount.sum (coins.filterMap coinAmount?) = (coins.map Json.worth).sum := by
  induction coins with
  | nil => rfl
  | cons coin rest ih =>
    rw [List.filterMap_cons, List.map_cons, List.sum_cons, ← ih, Json.worth]
    cases coinAmount? coin <;> simp

theorem Selection.exactTotal_eq_worth (selection : Selection) :
    selection.exactTotal = (selection.coins.map Json.worth).sum := by
  rw [Selection.exactTotal, Coins.exactTotal_eq, Coins.amounts, Amount.sum_filterMap]

namespace Json

theorem rereadItems?_eq_some {items ws : List Json} :
    rereadItems? items = some ws ↔ List.Forall₂ (fun v w => v.reread? = some w) items ws := by
  induction items generalizing ws with
  | nil =>
    rw [rereadItems?, List.forall₂_nil_left_iff, Option.some.injEq, eq_comm]
  | cons v rest ih =>
    simp only [rereadItems?, Option.bind_eq_some_iff, Option.map_eq_some_iff, ih]
    constructor
    · rintro ⟨w, hw, rs, hrs, rfl⟩
      exact .cons hw hrs
    · rintro (_ | ⟨hw, hrs⟩)
      exact ⟨_, hw, _, hrs, rfl⟩

/-- Only doubles are changed on the way, so far as amounts go. -/
theorem amount?_reread? {v w : Json} (h : v.reread? = some w) :
    (∃ x y : Double, v = .num (.double x) ∧ w = .num (.double y) ∧ x.reread? = some y) ∨
      (∀ y : Double, w ≠ .num (.double y)) ∧ w.amount? = v.amount? := by
  rcases reread?_cases h with ⟨x, y, rfl, rfl, hxy⟩ | ⟨items, ws, rfl, rfl, -⟩ |
    ⟨members, ms, rfl, rfl, -⟩ | ⟨rfl, hne, -, -⟩
  · exact .inl ⟨x, y, rfl, rfl, hxy⟩
  · exact .inr ⟨by simp, rfl⟩
  · exact .inr ⟨by simp, rfl⟩
  · exact .inr ⟨hne, rfl⟩

/-! ## Settled coins -/

/-- If the amount of the coin is a double, it was read from the text of a double. -/
def Settled (coin : Json) : Prop :=
  ∀ fields x, coin.object? = some fields → Fields.get? fields "amount" = some (.num (.double x)) →
    ∃ x₀ : Double, x₀.reread? = some x

theorem settled_of_reread? {coin again : Json} (h : coin.reread? = some again) : again.Settled := by
  intro fields x hf hx
  rw [object?_reread? h, Option.bind_eq_some_iff] at hf
  obtain ⟨members, -, hms⟩ := hf
  obtain ⟨ms, hread, rfl⟩ := Option.map_eq_some_iff.1 hms
  obtain ⟨v, hv⟩ := exists_of_mem_rereadMembers? hread (mem_ofList (Fields.mem_of_get? hx))
  rcases amount?_reread? hv with ⟨x₀, y, -, hy, hx₀⟩ | ⟨hne, -⟩
  · cases hy
    exact ⟨x₀, hx₀⟩
  · exact absurd rfl (hne x)

/-- A double that is no amount counts for nothing. -/
theorem eq_zero_of_noAmount {x : Double} (hx : x.NoAmount) {a : Amount}
    (h : (Json.num (.double x)).amount? = some a) : a = 0 := by
  simp only [amount?, coinAmount?.asNatural, toInteger?, Option.map_eq_some_iff,
    Option.filter_eq_some_iff, decide_eq_true_eq, Word.signedBound] at h
  obtain ⟨i, ⟨⟨hi, hrange⟩, hnonneg⟩, rfl⟩ := h
  obtain ⟨n, hmag, rfl⟩ := Double.integer?_eq_some hi
  obtain rfl : n = 0 := by
    rcases hx with hneg | hsmall | hlarge
    · rw [if_pos hneg] at hnonneg
      omega
    · rw [← hmag] at hsmall
      have : n < 1 := by exact_mod_cast hsmall
      omega
    · rw [← hmag] at hlarge
      have : 2 ^ 63 ≤ n := by exact_mod_cast hlarge
      have hlt := (of_decide_eq_true hrange).2
      split at hlt
      · next hneg =>
        rw [if_pos hneg] at hnonneg
        omega
      · omega
  cases x.negative <;> rfl

/-- What an amount counts for. -/
def count (v : Json) : Nat := (v.amount?.map UInt64.toNat).getD 0

theorem count_noAmount {x : Double} (hx : x.NoAmount) : (Json.num (.double x)).count = 0 := by
  unfold count
  cases h : (Json.num (.double x)).amount? with
  | none => rfl
  | some a =>
    rw [eq_zero_of_noAmount hx h]
    rfl

theorem count_reread? {v w : Json}
    (hs : ∀ x, v = .num (.double x) → ∃ x₀ : Double, x₀.reread? = some x)
    (h : v.reread? = some w) : w.count = v.count := by
  rcases amount?_reread? h with ⟨x, y, rfl, rfl, hxy⟩ | ⟨-, heq⟩
  · obtain ⟨x₀, hx₀⟩ := hs x rfl
    rcases Double.reread?_settles hx₀ hxy with rfl | ⟨hx, hy⟩
    · rfl
    · rw [count_noAmount hx, count_noAmount hy]
  · rw [count, heq, count]

theorem worth_eq (coin : Json) :
    coin.worth = ((coin.object?.bind (Fields.get? · "amount")).map count).getD 0 := by
  rw [worth, coinAmount?_eq]
  cases coin.object?.bind (Fields.get? · "amount") <;> rfl

theorem canonical_object? {coin : Json} {members : Fields} (hc : coin.Canonical)
    (h : coin.object? = some members) : members.Ascending := by
  cases coin with
  | obj fields =>
    cases h
    exact hc.1
  | _ => cases h

/-- Reading a settled coin again does not change what it counts for. -/
theorem worth_reread? {coin again : Json} (hc : coin.Canonical) (hs : coin.Settled)
    (h : coin.reread? = some again) : again.worth = coin.worth := by
  rw [worth_eq, worth_eq, object?_reread? h]
  cases hmembers : coin.object? with
  | none => rfl
  | some members =>
    have ha := canonical_object? hc hmembers
    obtain rfl : coin = .obj members := by
      cases coin <;> cases hmembers
      rfl
    rw [reread?_obj ha] at h
    obtain ⟨ms, hms, -⟩ := Option.map_eq_some_iff.1 h
    have hlist := (ha.of_keys (keys_rereadMembers? hms)).ofList_eq
    simp only [Option.bind_some, hms, Option.map_some, hlist, get?_rereadMembers? hms]
    cases hv : Fields.get? members "amount" with
    | none => rfl
    | some v =>
      obtain ⟨w, hw⟩ := exists_reread?_of_get? hms hv
      have hcount := count_reread? (fun x hx => hs members x rfl (by rw [hv, hx])) hw
      simp only [Option.bind_some, hw, Option.map_some, Option.getD_some, hcount]

/-- Settled coins that are read again still count for the same, one by one. -/
theorem map_worth_rereadItems? {items ws : List Json} (h : rereadItems? items = some ws)
    (hc : ∀ v ∈ items, v.Canonical) (hs : ∀ v ∈ items, v.Settled) :
    ws.map worth = items.map worth := by
  have hall := rereadItems?_eq_some.1 h
  clear h
  induction hall with
  | nil => rfl
  | @cons v w items ws hv _ ih =>
    rw [List.map_cons, List.map_cons, worth_reread? (hc v (by simp)) (hs v (by simp)) hv,
      ih (fun v hv => hc v (by simp [hv])) fun v hv => hs v (by simp [hv])]

end Json

end CoinRelay
