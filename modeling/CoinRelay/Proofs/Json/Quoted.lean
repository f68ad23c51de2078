import CoinRelay.Json.Printer
import CoinRelay.Json.Reader

/-! # Quoted strings

A string that is written between quotes is read back character by character. -/

namespace CoinRelay.Json

theorem hexValue?_hexDigit : ∀ n, n < 16 → hexValue? (hexDigit n) = some n := by decide

theorem hexUnit?_control {n : Nat} (h : n < 32) :
    hexUnit? '0' '0' (hexDigit (n / 16)) (hexDigit (n % 16)) = some n := by
  have h0 : hexValue? '0' = some 0 := by decide
  have h1 := hexValue?_hexDigit (n / 16) (by omega)
  have h2 := hexValue?_hexDigit (n % 16) (by omega)
  simp only [hexUnit?, h0, h1, h2, Option.bind_eq_bind, Option.bind_some]
  congr 1
  omega

/-- The characters with an escape of a single letter. -/
def shortEscapes : List Char := ['"', '\\', '\n', '\r', '\t', Char.ofNat 8, Char.ofNat 12]

/-- A character without a meaning of its own stands for itself. -/
theorem readString_plain {c : Char} (hcontrol : 32 ≤ c.toNat) (hquote : c ≠ '"')
    (hbackslash : c ≠ '\\') (rest : List Char) :
    readString (c :: rest) = (readString rest).map fun r => (c :: r.1, r.2) := by
  have hplain : ¬ (c.toNat < 32 ∨ c = '\\') := not_or.2 ⟨Nat.not_lt.2 hcontrol, hbackslash⟩
  rw [readString, if_neg hplain]
  · exact hquote
  · exact fun _ _ _ _ _ hc => absurd hc hbackslash
  · exact fun _ _ hc => absurd hc hbackslash

theorem readString_escape (c : Char) (rest : List Char) :
    readString (escape c ++ rest) = (readString rest).map fun r => (c :: r.1, r.2) := by
  by_cases hs : c ∈ shortEscapes
  · simp only [shortEscapes, List.mem_cons, List.not_mem_nil, or_false] at hs
    rcases hs with rfl | rfl | rfl | rfl | rfl | rfl | rfl <;>
      simp [escape, readString, unescape?]
  · simp only [shortEscapes, List.mem_cons, List.not_mem_nil, or_false, not_or] at hs
    by_cases hc : c.toNat < 32
    · have hhigh : isHighSurrogate c.toNat = false := by simp [isHighSurrogate]; omega
      have hlow : isLowSurrogate c.toNat = false := by simp [isLowSurrogate]; omega
      simp only [escape, hs, if_false, hc, if_true, List.cons_append, List.nil_append]
      rw [readString]
      simp [hexUnit?_control hc, hhigh, hlow]
    · simp only [escape, hs, if_false, hc, List.cons_append, List.nil_append]
      exact readString_plain (Nat.not_lt.1 hc) hs.1 hs.2.1 rest

theorem readString_flatMap (cs rest : List Char) :
    readString (cs.flatMap escape ++ '"' :: rest) = some (cs, rest) := by
  induction cs with
  | nil => simp [readString]
  | cons c cs ih =>
    rw [List.flatMap_cons, List.append_assoc, readString_escape, ih]
    rfl

end CoinRelay.Json
