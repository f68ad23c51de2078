import CoinRelay.Request
import CoinRelay.Proofs.Json.RoundTrip

/-! # Trimmed text

Text is trimmed when no blank stands at either end. Trimming gives trimmed text and leaves trimmed
text alone, so the text of a field is not changed by being written as a string and read again. -/

namespace CoinRelay.Text

/-- No blank character stands at either end. -/
def Trimmed (cs : List Char) : Prop :=
  (∀ c ∈ cs.head?, isBlank c = false) ∧ ∀ c ∈ cs.getLast?, isBlank c = false

theorem dropWhile_isBlank {cs : List Char} (h : ∀ c ∈ cs.head?, isBlank c = false) :
    cs.dropWhile isBlank = cs := by
  cases cs with
  | nil => rfl
  | cons c cs => simp [h c (by simp)]

theorem Trimmed.trimChars {cs : List Char} (h : Trimmed cs) : trimChars cs = cs := by
  have hr : ∀ c ∈ cs.reverse.head?, isBlank c = false := by simpa using h.2
  simp only [Text.trimChars, dropWhile_isBlank h.1, dropWhile_isBlank hr, List.reverse_reverse]

theorem head?_dropWhile_isBlank (cs : List Char) :
    ∀ c ∈ (cs.dropWhile isBlank).head?, isBlank c = false := by
  intro c hc
  have h := List.head?_dropWhile_not isBlank cs
  simp only [Option.mem_def] at hc
  simpa [hc] using h

theorem trimmed_trimChars (cs : List Char) : Trimmed (trimChars cs) := by
  have hstart := head?_dropWhile_isBlank cs
  have hend := head?_dropWhile_isBlank (cs.dropWhile isBlank).reverse
  constructor
  · intro c hc
    -- what is left begins like the text of which only the end was cut off
    have hsplit :=
      List.takeWhile_append_dropWhile (p := isBlank) (l := (cs.dropWhile isBlank).reverse)
    have hrev := congrArg List.reverse hsplit
    rw [List.reverse_append, List.reverse_reverse] at hrev
    apply hstart c
    rw [← hrev]
    simp only [trimChars, Option.mem_def] at hc ⊢
    rw [List.head?_append, hc]
    rfl
  · simpa [trimChars] using hend

theorem trimmed_trim (s : String) : Trimmed (trim s).toList := by
  simpa [trim] using trimmed_trimChars s.toList

theorem trim_eq_self {s : String} (h : Trimmed s.toList) : trim s = s := by
  simp [trim, h.trimChars]

theorem trimmed_of_forall {cs : List Char} (h : ∀ c ∈ cs, isBlank c = false) : Trimmed cs :=
  ⟨fun c hc => h c (List.mem_of_head? hc), fun c hc => h c (List.mem_of_getLast? hc)⟩

theorem trimmed_of_any {cs : List Char} (h : cs.any isBlank = false) : Trimmed cs :=
  trimmed_of_forall fun c hc => by simpa using List.any_eq_false.1 h c hc

end CoinRelay.Text

namespace CoinRelay
open Text

/-! ## Texts of fields -/

theorem Json.Literal.Valid.not_isBlank {l : Json.Literal} (hl : l.Valid) :
    ∀ c ∈ l.chars, isBlank c = false := by
  intro c hc
  simp only [Json.Literal.chars, List.mem_append] at hc
  rcases hc with hc | hc | hc
  · exact not_isBlank_of_isDigit (hl.whole.2 c hc)
  · cases hf : l.fraction with
    | none => simp [hf, Json.Literal.fractionChars] at hc
    | some ds =>
      rw [hf] at hc
      rcases List.mem_cons.1 hc with rfl | hc
      · decide
      · exact not_isBlank_of_isDigit ((hl.fraction ds hf).2 c hc)
  · cases he : l.exponent with
    | none => simp [he, Json.Literal.exponentChars] at hc
    | some e =>
      obtain ⟨negative, ds⟩ := e
      rw [he] at hc
      rcases List.mem_cons.1 hc with rfl | hc
      · decide
      rcases List.mem_cons.1 hc with rfl | hc
      · cases negative <;> decide
      · exact not_isBlank_of_isDigit ((hl.exponent _ he).2 c hc)

theorem Json.not_isBlank_render (n : Json.Number) : ∀ c ∈ n.render, isBlank c = false := by
  intro c hc
  cases n with
  | whole w =>
    have hd : ∀ c ∈ Nat.toDigits 10 w.val.natAbs, isBlank c = false := fun c hc =>
      not_isBlank_of_isDigit ((Json.Literal.digits_toDigits _).2 c hc)
    simp only [Json.Number.render, Json.renderInt] at hc
    split at hc
    · rcases List.mem_cons.1 hc with rfl | hc
      · decide
      · exact hd c hc
    · exact hd c hc
  | double x =>
    obtain ⟨l, hv, -, -, ht⟩ := Json.exists_literal_double x
    simp only [Json.Number.render, ht] at hc
    split at hc
    · rcases List.mem_cons.1 hc with rfl | hc
      · decide
      · exact hv.not_isBlank c hc
    · exact hv.not_isBlank c hc

namespace Fields

/-- Whatever a field holds, its text is trimmed. -/
theorem trimmed_text (fields : Fields) (key : String) : Trimmed (fields.text key).toList := by
  unfold Fields.text
  split
  · exact trimmed_trim _
  · next n _ =>
    simpa [Json.text, Json.render] using trimmed_of_forall (Json.not_isBlank_render n)
  · next b _ => cases b <;> exact trimmed_of_any (by decide)
  · exact trimmed_of_forall (by simp)

theorem text_of_get?_str {fields : Fields} {key s : String} (h : fields.get? key = some (.str s))
    (ht : Trimmed s.toList) : fields.text key = s := by
  simp only [Fields.text, h]
  exact trim_eq_self ht

end Fields

end CoinRelay
