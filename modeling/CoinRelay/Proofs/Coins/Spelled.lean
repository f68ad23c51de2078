import CoinRelay.Proofs.Handoff.Checked
import CoinRelay.Proofs.Handoff.Coins
import CoinRelay.Proofs.Json.Spelled

/-! # How amounts are spelled

Amounts are words without a sign, but the reader of integers, which they fall back on, knows signed
words only. Whole numbers and numerals are read before it comes to that; doubles are not. So an
amount counts for the same in all its spellings, except that in the upper half of the words it
counts for nothing where it is written as a double. -/

namespace CoinRelay

namespace Json

/-- The integers that are read as amounts lie below this bound. -/
def amountBound : Json → Int
  | .num (.double _) => Word.signedBound
  | _ => Word.unsignedBound

theorem amountBound_le (v : Json) : v.amountBound ≤ Word.unsignedBound := by
  unfold amountBound
  split <;> decide

theorem asNatural_eq_some {v : Json} {a : Amount} :
    coinAmount?.asNatural v = some a ↔ v.Spells a.toNat ∧ (a.toNat : Int) < Word.signedBound := by
  rw [← toInteger?_eq_some_of_nonneg (Int.natCast_nonneg _)]
  simp only [coinAmount?.asNatural, Option.map_eq_some_iff, Option.filter_eq_some_iff,
    decide_eq_true_eq]
  constructor
  · rintro ⟨n, ⟨hn, hnonneg⟩, rfl⟩
    have hlt := (toInteger?_bounds hn).2
    simp only [Word.signedBound] at hlt
    rw [hn, UInt64.toNat_ofNat_of_lt' (by simp only [UInt64.size]; omega),
      Int.toNat_of_nonneg hnonneg]
  · intro hn
    exact ⟨a.toNat, ⟨hn, Int.natCast_nonneg _⟩, by simp⟩

theorem amount?_whole_eq_some {w : WholeNumber} {a : Amount} :
    (Json.num (.whole w)).amount? = some a ↔ w.val = a.toNat := by
  have hupper := w.upper
  simp only [Word.unsignedBound] at hupper
  unfold amount?
  dsimp only
  split
  · next hnonneg =>
    rw [Option.some.injEq, ← UInt64.toNat_inj,
      UInt64.toNat_ofNat_of_lt' (by simp only [UInt64.size]; omega)]
    omega
  · next hneg =>
    simp only [reduceCtorEq, false_iff]
    omega

/-- A numeral is read as an unsigned word, or else as a signed one, which only matters for a zero
behind a minus. -/
theorem amount?_str_eq_some {s : String} {a : Amount} :
    (Json.str s).amount? = some a ↔ (Json.str s).Spells a.toNat := by
  have hread : ∀ b : Amount, Text.readUInt64? (Text.trim s) = some b →
      (Json.str s).Spells b.toNat := by
    intro b hb
    obtain ⟨n, hn, hword⟩ := Option.bind_eq_some_iff.1 hb
    rw [spells_str_iff, Text.readSigned?_of_readUnsigned? hn, Word.toNat_of_ofNat? hword]
  unfold amount?
  dsimp only
  split
  · next b hb =>
    rw [Option.some.injEq]
    refine ⟨fun h => h ▸ hread b hb, fun h => ?_⟩
    have heq := (spells_str_iff.1 (hread b hb)).symm.trans (spells_str_iff.1 h)
    exact UInt64.toNat_inj.1 (Int.natCast_inj.1 (Option.some.inj heq))
  · next hno =>
    rw [asNatural_eq_some]
    refine and_iff_left_of_imp fun h => ?_
    rcases Nat.eq_zero_or_pos a.toNat with hzero | hpos
    · rw [hzero]
      decide
    · have hn := Text.readUnsigned?_of_readSigned? hpos (spells_str_iff.1 h)
      rw [Text.readUInt64?, hn, Option.bind_some, Word.ofNat?_toNat] at hno
      cases hno

theorem amount?_eq_some {v : Json} {a : Amount} :
    v.amount? = some a ↔ v.Spells a.toNat ∧ (a.toNat : Int) < v.amountBound := by
  have hword := Word.toNat_lt_unsignedBound a
  cases v with
  | num m =>
    cases m with
    | whole w =>
      exact (amount?_whole_eq_some.trans spells_whole_iff.symm).trans (and_iff_left hword).symm
    | double x => exact asNatural_eq_some
  | str s => exact amount?_str_eq_some.trans (and_iff_left hword).symm
  | null | bool | arr | obj => exact ⟨nofun, fun h => nomatch h.1⟩

end Json

/-! ## Coins -/

theorem coinAmount?_eq_some {coin : Json} {a : Amount} :
    coinAmount? coin = some a ↔ ∃ (fields : Fields) (v : Json), coin = .obj fields ∧
      fields.get? "amount" = some v ∧ v.Spells a.toNat ∧ (a.toNat : Int) < v.amountBound := by
  rw [coinAmount?_eq, Option.bind_eq_some_iff]
  simp only [Option.bind_eq_some_iff, Json.amount?_eq_some]
  constructor
  · rintro ⟨v, ⟨fields, hcoin, hget⟩, hspells⟩
    cases coin with
    | obj members =>
      cases hcoin
      exact ⟨fields, v, rfl, hget, hspells⟩
    | _ => cases hcoin
  · rintro ⟨fields, v, rfl, hget, hspells⟩
    exact ⟨v, ⟨fields, rfl, hget⟩, hspells⟩

/-- **The amount of a coin.** A coin whose amount spells an integer from zero upwards counts for it,
however it is spelled: a whole number or a numeral over the whole range of words, and a double over
the signed ones. Every other coin counts for nothing: an amount below zero or out of range, one that
spells no integer, a coin without an amount, or no coin at all. -/
theorem coinAmount?_of_spelled (coin : Json) :
    (∀ (fields : Fields) (v : Json) (n : Int), coin = .obj fields →
      fields.get? "amount" = some v → v.Spells n →
        (0 ≤ n → n < v.amountBound → ∃ a, coinAmount? coin = some a ∧ (a.toNat : Int) = n) ∧
        (n < 0 ∨ v.amountBound ≤ n → coinAmount? coin = none)) ∧
    ((∀ (fields : Fields) (v : Json) (n : Int), coin = .obj fields →
      fields.get? "amount" = some v → ¬ v.Spells n) → coinAmount? coin = none) := by
  constructor
  · intro fields v n hcoin hget hspells
    constructor
    · intro hnonneg hbound
      have hword : n < Word.unsignedBound := lt_of_lt_of_le hbound v.amountBound_le
      simp only [Word.unsignedBound] at hword
      have hn : ((UInt64.ofNat n.toNat).toNat : Int) = n := by
        rw [UInt64.toNat_ofNat_of_lt' (by simp only [UInt64.size]; omega),
          Int.toNat_of_nonneg hnonneg]
      refine ⟨UInt64.ofNat n.toNat, coinAmount?_eq_some.2 ⟨fields, v, hcoin, hget, ?_⟩, hn⟩
      rw [hn]
      exact ⟨hspells, hbound⟩
    · intro hout
      refine Option.eq_none_iff_forall_ne_some.2 fun a ha => ?_
      obtain ⟨found, w, hfound, hw, hagain, hbound⟩ := coinAmount?_eq_some.1 ha
      cases hcoin.symm.trans hfound
      cases hget.symm.trans hw
      have heq := hspells.unique hagain
      omega
  · intro hnone
    refine Option.eq_none_iff_forall_ne_some.2 fun a ha => ?_
    obtain ⟨fields, v, hcoin, hget, hspells, -⟩ := coinAmount?_eq_some.1 ha
    exact hnone fields v _ hcoin hget hspells

/-- Forty-two behind a plus and zeros, between blanks. -/
theorem coinAmount?_of_padded_numeral :
    ∃ a, coinAmount? (.obj [("amount", .str " +0042\n")]) = some a ∧ (a.toNat : Int) = 42 := by
  have hspells : Json.Spells (.str " +0042\n") 42 := .numeral
    ⟨[' '], ['+'], ['\n'], 2, by decide, .plus (by decide),
      List.all_eq_true.1 (by decide)⟩
  exact ((coinAmount?_of_spelled _).1 _ _ _ rfl rfl hspells).1 (by decide) (by decide)

/-- The double for ten to the nineteenth, which is a word without a sign. -/
def largeDouble : Json.Double := ⟨0x43e158e460913d00⟩

/-- An amount that counts as a whole number and as a numeral counts for nothing as a double. -/
theorem coinAmount?_of_largeDouble :
    ¬ ∀ (fields : Fields) (v : Json) (n : Int), fields.get? "amount" = some v → v.Spells n →
      0 ≤ n → n < 2 ^ 64 → ∃ a, coinAmount? (.obj fields) = some a ∧ (a.toNat : Int) = n := by
  intro hall
  have hspells : Json.Spells (.num (.double largeDouble)) 10000000000000000000 :=
    Json.spells_double_iff.2 (by decide)
  obtain ⟨a, ha, -⟩ := hall [("amount", .num (.double largeDouble))] _ _ rfl hspells
    (by decide) (by decide)
  have hnone : coinAmount? (.obj [("amount", .num (.double largeDouble))]) = none := by
    decide
  rw [hnone] at ha
  cases ha

end CoinRelay
