import CoinRelay.Proofs.Json.Accepted
import CoinRelay.Proofs.Json.Parsed

/-! # Texts that are printed

What is printed stands for what it is read back as, however deep it nests, and takes up one line. -/

namespace CoinRelay.Json

/-! ## Printed texts follow the grammar -/

/-- **What a printed value stands for.** -/
theorem denotes_render {v w : Json} {room : ℕ} (hd : v.depth ≤ room) (h : v.reread? = some w) :
    Denotes room (.value w) v.render := by
  have hread := readValue_render v room [] (Nat.le_refl _) trivial
  rw [if_pos hd, h] at hread
  obtain ⟨text, htext, hw⟩ := denotes_of_readValue hread
  rw [List.append_nil, List.append_nil] at htext
  rwa [htext]

/-! ## Lines -/

theorem hexDigit_ne_newline : ∀ n < 16, hexDigit n ≠ '\n' := by decide

theorem newline_not_mem_escape (c : Char) : '\n' ∉ escape c := by
  by_cases hs : c ∈ shortEscapes
  · simp only [shortEscapes, List.mem_cons, List.not_mem_nil, or_false] at hs
    rcases hs with rfl | rfl | rfl | rfl | rfl | rfl | rfl <;> decide
  · simp only [shortEscapes, List.mem_cons, List.not_mem_nil, or_false, not_or] at hs
    by_cases hc : c.toNat < 32
    · have hhigh := hexDigit_ne_newline (c.toNat / 16) (by omega)
      have hlow := hexDigit_ne_newline (c.toNat % 16) (by omega)
      simp [escape, hs, hc, hhigh.symm, hlow.symm]
    · simp [escape, hs, hc, Ne.symm hs.2.2.1]

theorem newline_not_mem_quote (s : String) : '\n' ∉ quote s := by
  simp [quote, newline_not_mem_escape]

theorem newline_not_mem_number (n : Number) : '\n' ∉ n.render := by
  intro hmem
  have hblank := not_isBlank_render n _ hmem
  revert hblank
  decide

mutual

/-- **A printed value takes up one line.** -/
theorem newline_not_mem_render : ∀ v : Json, '\n' ∉ v.render
  | .null | .bool true | .bool false => by decide
  | .num n => newline_not_mem_number n
  | .str s => newline_not_mem_quote s
  | .arr items => by simp [render, newline_not_mem_renderItems items]
  | .obj members => by simp [render, newline_not_mem_renderMembers members]

theorem newline_not_mem_renderItems : ∀ items : List Json, '\n' ∉ renderItems items
  | [] => by decide
  | [v] => by simp [renderItems, newline_not_mem_render v]
  | v :: w :: items => by
    simp [renderItems, newline_not_mem_render v, newline_not_mem_renderItems (w :: items)]

theorem newline_not_mem_renderMembers : ∀ members : List (String × Json),
    '\n' ∉ renderMembers members
  | [] => by decide
  | [(k, v)] => by simp [renderMembers, newline_not_mem_quote, newline_not_mem_render v]
  | (k, v) :: m :: members => by
    simp [renderMembers, newline_not_mem_quote, newline_not_mem_render v,
      newline_not_mem_renderMembers (m :: members)]

end

end CoinRelay.Json
