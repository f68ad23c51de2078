import CoinRelay.Text.Utf8
import Mathlib.Tactic

/-! # Bytes and the text that they spell

Strict reading accepts exactly the bytes that spell a text, and gives this text. -/

namespace CoinRelay.Text.Utf8

/-! ## Single bytes -/

theorem low_eq (b : UInt8) : low b = b.toNat % 64 := by
  rw [low, UInt8.toNat_and]
  exact Nat.and_two_pow_sub_one_eq_mod b.toNat 6

theorem continues_iff {b : UInt8} : continues b = true ↔ 0x80 ≤ b.toNat ∧ b.toNat < 0xC0 := by
  simp only [continues, Bool.and_eq_true, decide_eq_true_eq, UInt8.le_iff_toNat_le]
  exact and_congr_right' Nat.lt_succ_iff.symm

theorem second3_iff {b c : UInt8} : second3 b c = true ↔ (0x80 ≤ c.toNat ∧ c.toNat < 0xC0) ∧
    (b.toNat = 0xE0 → 0xA0 ≤ c.toNat) ∧ (b.toNat = 0xED → c.toNat < 0xA0) := by
  simp only [second3, beq_iff_eq, ← UInt8.toNat_inj]
  split_ifs <;> simp [continues_iff, UInt8.le_iff_toNat_le] at * <;> omega

theorem second4_iff {b c : UInt8} : second4 b c = true ↔ (0x80 ≤ c.toNat ∧ c.toNat < 0xC0) ∧
    (b.toNat = 0xF0 → 0x90 ≤ c.toNat) ∧ (b.toNat = 0xF4 → c.toNat < 0x90) := by
  simp only [second4, beq_iff_eq, ← UInt8.toNat_inj]
  split_ifs <;> simp [continues_iff, UInt8.le_iff_toNat_le] at * <;> omega

/-! ## Single characters -/

/-- The bytes of the character with the given number. -/
def units (n : ℕ) : List ℕ :=
  if n < 0x80 then [n]
  else if n < 0x800 then [n / 64 + 0xC0, n % 64 + 0x80]
  else if n < 0x10000 then [n / 4096 + 0xE0, n / 64 % 64 + 0x80, n % 64 + 0x80]
  else [n / 262144 + 0xF0, n / 4096 % 64 + 0x80, n / 64 % 64 + 0x80, n % 64 + 0x80]

theorem toNat_valid (c : Char) : c.toNat < 0xD800 ∨ 0xDFFF < c.toNat ∧ c.toNat < 0x110000 :=
  c.valid

theorem map_toNat_utf8EncodeChar (c : Char) :
    (String.utf8EncodeChar c).map UInt8.toNat = units c.toNat := by
  have hc := toNat_valid c
  change (if c.toNat ≤ 127 then _ else if c.toNat ≤ 2047 then _ else if c.toNat ≤ 65535 then _
    else _ : List UInt8).map UInt8.toNat = _
  unfold units
  split_ifs <;> simp [UInt8.toNat_ofNat'] <;> omega

theorem utf8EncodeChar_eq_iff {c : Char} {bytes : List UInt8} :
    String.utf8EncodeChar c = bytes ↔ units c.toNat = bytes.map UInt8.toNat := by
  rw [← map_toNat_utf8EncodeChar]
  exact (List.map_injective_iff.2 fun _ _ => UInt8.toNat_inj.1).eq_iff.symm

/-- A number that is a character has the bytes that are computed for it. -/
theorem utf8EncodeChar_ofNat {n : ℕ} {bytes : List UInt8}
    (hn : n < 0xD800 ∨ 0xDFFF < n ∧ n < 0x110000) (h : units n = bytes.map UInt8.toNat) :
    String.utf8EncodeChar (Char.ofNat n) = bytes := by
  have hvalid : n.isValidChar := hn
  rw [utf8EncodeChar_eq_iff, ← h, Char.ofNat, dif_pos hvalid]
  rfl

theorem utf8EncodeChar_one {b : UInt8} (hb : b.toNat < 0x80) :
    String.utf8EncodeChar (Char.ofNat b.toNat) = [b] := by
  refine utf8EncodeChar_ofNat (by omega) ?_
  rw [units, if_pos hb]
  rfl

theorem utf8EncodeChar_two {b x : UInt8} (hb : 0xC2 ≤ b.toNat ∧ b.toNat ≤ 0xDF)
    (hx : 0x80 ≤ x.toNat ∧ x.toNat < 0xC0) :
    String.utf8EncodeChar (Char.ofNat ((b.toNat - 0xC0) * 64 + x.toNat % 64)) = [b, x] := by
  refine utf8EncodeChar_ofNat (by omega) ?_
  rw [units, if_neg (by omega), if_pos (by omega), List.map_cons, List.map_singleton]
  congr <;> omega

theorem utf8EncodeChar_three {b x y : UInt8} (hb : 0xE0 ≤ b.toNat ∧ b.toNat ≤ 0xEF)
    (hx : (0x80 ≤ x.toNat ∧ x.toNat < 0xC0) ∧
      (b.toNat = 0xE0 → 0xA0 ≤ x.toNat) ∧ (b.toNat = 0xED → x.toNat < 0xA0))
    (hy : 0x80 ≤ y.toNat ∧ y.toNat < 0xC0) :
    String.utf8EncodeChar (Char.ofNat
      ((b.toNat - 0xE0) * 4096 + x.toNat % 64 * 64 + y.toNat % 64)) = [b, x, y] := by
  refine utf8EncodeChar_ofNat (by omega) ?_
  rw [units, if_neg (by omega), if_neg (by omega), if_pos (by omega), List.map_cons,
    List.map_cons, List.map_singleton]
  congr <;> omega

theorem utf8EncodeChar_four {b x y z : UInt8} (hb : 0xF0 ≤ b.toNat ∧ b.toNat ≤ 0xF4)
    (hx : (0x80 ≤ x.toNat ∧ x.toNat < 0xC0) ∧
      (b.toNat = 0xF0 → 0x90 ≤ x.toNat) ∧ (b.toNat = 0xF4 → x.toNat < 0x90))
    (hy : 0x80 ≤ y.toNat ∧ y.toNat < 0xC0) (hz : 0x80 ≤ z.toNat ∧ z.toNat < 0xC0) :
    String.utf8EncodeChar (Char.ofNat
      ((b.toNat - 0xF0) * 262144 + x.toNat % 64 * 4096 + y.toNat % 64 * 64 + z.toNat % 64)) =
      [b, x, y, z] := by
  refine utf8EncodeChar_ofNat (by omega) ?_
  rw [units, if_neg (by omega), if_neg (by omega), if_neg (by omega), List.map_cons,
    List.map_cons, List.map_cons, List.map_singleton]
  congr <;> omega

/-! ## Steps -/

/-- What a step takes for a character are the bytes of this character. -/
theorem utf8EncodeChar_of_step {b : UInt8} {t : List UInt8} {c : Char} {n : ℕ}
    (h : step b t = (some c, n)) :
    ∃ u rest, t = u ++ rest ∧ u.length = n ∧ String.utf8EncodeChar c = b :: u := by
  simp only [step, UInt8.lt_iff_toNat_lt, UInt8.le_iff_toNat_le, Bool.and_eq_true,
    decide_eq_true_eq, continues_iff, second3_iff, second4_iff, low_eq, UInt8.reduceToNat] at h
  split_ifs at h with hone htwo hthree hfour
  · cases h
    exact ⟨[], t, rfl, rfl, utf8EncodeChar_one hone⟩
  · split at h
    · next x rest =>
      split_ifs at h with hx <;> cases h
      exact ⟨[x], rest, rfl, rfl, utf8EncodeChar_two htwo hx⟩
    · cases h
  · split at h
    · next x y rest =>
      split_ifs at h with hx hy <;> cases h
      exact ⟨[x, y], rest, rfl, rfl, utf8EncodeChar_three hthree hx hy⟩
    all_goals cases h
  · split at h
    · next x y z rest =>
      split_ifs at h with hx hy hz <;> cases h
      exact ⟨[x, y, z], rest, rfl, rfl, utf8EncodeChar_four hfour hx hy hz⟩
    all_goals cases h
  · cases h

/-- A step takes the bytes of a character for this character, whatever follows them. -/
theorem step_utf8EncodeChar {c : Char} {b : UInt8} {u : List UInt8}
    (h : String.utf8EncodeChar c = b :: u) (rest : List UInt8) :
    step b (u ++ rest) = (some c, u.length) := by
  have hc := toNat_valid c
  have hread : ∀ {n : ℕ}, n = c.toNat → Char.ofNat n = c := by
    rintro _ rfl
    exact Char.ofNat_toNat c
  rw [utf8EncodeChar_eq_iff, units] at h
  simp only [step, UInt8.lt_iff_toNat_lt, UInt8.le_iff_toNat_le, Bool.and_eq_true,
    decide_eq_true_eq, continues_iff, second3_iff, second4_iff, low_eq, UInt8.reduceToNat]
  split_ifs at h with hone htwo hthree
  · obtain ⟨hb, hu⟩ := List.cons.inj h
    obtain rfl := List.map_eq_nil_iff.1 hu.symm
    rw [if_pos (by omega), hread hb.symm]
    rfl
  · obtain ⟨hb, hu⟩ := List.cons.inj h
    obtain ⟨x, u, rfl, hx, hu⟩ := List.map_eq_cons_iff.1 hu.symm
    obtain rfl := List.map_eq_nil_iff.1 hu
    rw [if_neg (by omega), if_pos (by omega)]
    dsimp only [List.cons_append]
    rw [if_pos (by omega), hread (by omega)]
    rfl
  · obtain ⟨hb, hu⟩ := List.cons.inj h
    obtain ⟨x, u, rfl, hx, hu⟩ := List.map_eq_cons_iff.1 hu.symm
    obtain ⟨y, u, rfl, hy, hu⟩ := List.map_eq_cons_iff.1 hu
    obtain rfl := List.map_eq_nil_iff.1 hu
    rw [if_neg (by omega), if_neg (by omega), if_pos (by omega)]
    dsimp only [List.cons_append]
    rw [if_pos (by omega), if_pos (by omega), hread (by omega)]
    rfl
  · obtain ⟨hb, hu⟩ := List.cons.inj h
    obtain ⟨x, u, rfl, hx, hu⟩ := List.map_eq_cons_iff.1 hu.symm
    obtain ⟨y, u, rfl, hy, hu⟩ := List.map_eq_cons_iff.1 hu
    obtain ⟨z, u, rfl, hz, hu⟩ := List.map_eq_cons_iff.1 hu
    obtain rfl := List.map_eq_nil_iff.1 hu
    rw [if_neg (by omega), if_neg (by omega), if_neg (by omega), if_pos (by omega)]
    dsimp only [List.cons_append]
    rw [if_pos (by omega), if_pos (by omega), if_pos (by omega), hread (by omega)]
    rfl

/-! ## Whole texts -/

theorem decodeFrom_append (u rest : List UInt8) :
    decodeFrom u.length (u ++ rest) = decode rest := by
  induction u with
  | nil => rfl
  | cons b u ih => exact ih

/-- The bytes of a character are read as this character, whatever follows them. -/
theorem decode_utf8EncodeChar (c : Char) (rest : List UInt8) :
    decode (String.utf8EncodeChar c ++ rest) = some c :: decode rest := by
  obtain ⟨b, u, hbytes⟩ := List.exists_cons_of_ne_nil (String.utf8EncodeChar_ne_nil (c := c))
  have hstep := step_utf8EncodeChar hbytes rest
  rw [hbytes, List.cons_append, decode, decodeFrom, hstep, decodeFrom_append]

theorem decode_flatMap (cs : List Char) :
    decode (cs.flatMap String.utf8EncodeChar) = cs.map some := by
  induction cs with
  | nil => rfl
  | cons c cs ih => rw [List.flatMap_cons, decode_utf8EncodeChar, ih, List.map_cons]

/-- Bytes without a fault are those of the characters that they are read as. -/
theorem eq_flatMap_of_decode {bytes : List UInt8} {cs : List Char}
    (h : decode bytes = cs.map some) : bytes = cs.flatMap String.utf8EncodeChar := by
  induction cs generalizing bytes with
  | nil =>
    cases bytes with
    | nil => rfl
    | cons b t => cases h
  | cons c cs ih =>
    cases bytes with
    | nil => cases h
    | cons b t =>
      rw [decode, decodeFrom, List.map_cons, List.cons.injEq] at h
      obtain ⟨u, rest, rfl, -, hbytes⟩ := utf8EncodeChar_of_step (Prod.ext h.1 rfl)
      rw [step_utf8EncodeChar hbytes, decodeFrom_append] at h
      rw [List.flatMap_cons, hbytes, ← ih h.2, List.cons_append]

theorem encode_eq (s : String) : encode s = s.toList.flatMap String.utf8EncodeChar := by
  rw [encode, String.toUTF8_eq_toByteArray, ← String.utf8Encode_toList, List.utf8Encode,
    List.toList_data_toByteArray]

theorem mapM_id_eq_some_iff {α : Type} {found : List (Option α)} {xs : List α} :
    found.mapM id = some xs ↔ found = xs.map some := by
  induction found generalizing xs with
  | nil =>
    rw [List.mapM_nil]
    cases xs <;> simp
  | cons x found ih =>
    rw [List.mapM_cons]
    cases x <;> cases xs <;> simp [Option.bind_eq_some_iff, ih, and_comm]

/-- **Strict reading undoes writing, and nothing else is read.** -/
theorem strict?_eq_some_iff {bytes : List UInt8} {s : String} :
    strict? bytes = some s ↔ bytes = encode s := by
  rw [strict?, Option.map_eq_some_iff, encode_eq]
  constructor
  · rintro ⟨cs, hcs, rfl⟩
    rw [eq_flatMap_of_decode (mapM_id_eq_some_iff.1 hcs), String.toList_ofList]
  · rintro rfl
    exact ⟨s.toList, mapM_id_eq_some_iff.2 (decode_flatMap s.toList), String.ofList_toList⟩

end CoinRelay.Text.Utf8
