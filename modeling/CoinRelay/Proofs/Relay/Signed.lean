import CoinRelay.Proofs.Relay.Forwarded

/-! # What the last stage takes for a spend bundle

The last stage looks at the text of the spend bundle that a signer returns. It executes for
hexadecimal text of whole bytes and for nothing else, and skips what a signer calls skipped without
looking. -/

namespace CoinRelay
open Handoff Text

namespace SpendBundle

/-! ## Hexadecimal text -/

/-- Hexadecimal text of at least one byte: two digits for each byte, behind at most one mark. -/
def Hexadecimal (text : String) : Prop :=
  ∃ mark digits, text.toList = mark ++ digits ∧ mark ∈ [[], ['0', 'x'], ['0', 'X']] ∧
    digits ≠ [] ∧ 2 ∣ digits.length ∧ ∀ c ∈ digits, isHexDigit c = true

theorem exists_mark (cs : List Char) :
    ∃ mark ∈ [[], ['0', 'x'], ['0', 'X']], cs = mark ++ withoutMark cs := by
  unfold withoutMark
  split
  · exact ⟨['0', 'x'], by simp, rfl⟩
  · exact ⟨['0', 'X'], by simp, rfl⟩
  · exact ⟨[], by simp, rfl⟩

/-- Digits do not begin with a mark, since `x` is no digit. -/
theorem withoutMark_of_digits {digits : List Char} (h : ∀ c ∈ digits, isHexDigit c = true) :
    withoutMark digits = digits := by
  unfold withoutMark
  split
  · exact absurd (h 'x' (by simp)) (by decide)
  · exact absurd (h 'X' (by simp)) (by decide)
  · rfl

theorem withoutMark_append {mark digits : List Char}
    (hmark : mark ∈ [[], ['0', 'x'], ['0', 'X']]) (h : ∀ c ∈ digits, isHexDigit c = true) :
    withoutMark (mark ++ digits) = digits := by
  simp only [List.mem_cons, List.not_mem_nil, or_false] at hmark
  rcases hmark with rfl | rfl | rfl
  · exact withoutMark_of_digits h
  · rfl
  · rfl

theorem isHex_iff (text : String) : isHex text = true ↔ Hexadecimal text := by
  have hchecks : isHex text = true ↔ withoutMark text.toList ≠ [] ∧
      2 ∣ (withoutMark text.toList).length ∧
      ∀ c ∈ withoutMark text.toList, isHexDigit c = true := by
    simp [isHex, Nat.dvd_iff_mod_eq_zero, and_assoc]
  rw [hchecks]
  constructor
  · rintro ⟨hne, heven, hdigits⟩
    obtain ⟨mark, hmark, htext⟩ := exists_mark text.toList
    exact ⟨mark, _, htext, hmark, hne, heven, hdigits⟩
  · rintro ⟨mark, digits, htext, hmark, hne, heven, hdigits⟩
    rw [htext, withoutMark_append hmark hdigits]
    exact ⟨hne, heven, hdigits⟩

end SpendBundle

namespace Surroundings
open SpendBundle

variable {s : Surroundings} {request fields body : Fields} {h : History}

/-! ## The signer's answer -/

theorem checkBundle_of_hexadecimal {value : Json} {reason hex : String} {id : Option String}
    (hhex : Hexadecimal hex) :
    checkBundle value (.executed reason id hex) = .executed reason id hex :=
  if_pos ((isHex_iff hex).2 hhex)

theorem checkBundle_of_not_hexadecimal {value : Json} {reason hex : String} {id : Option String}
    (hhex : ¬ Hexadecimal hex) :
    checkBundle value (.executed reason id hex) =
      .skipped "invalid_spend_bundle_hex" none [("submit_request", value)] :=
  if_neg (mt (isHex_iff hex).1 hhex)

theorem run_submit_of_replies (hf : toSignSubmit s.files request = .ok fields)
    (hr : s.Replies .signSubmit (.obj fields) h body) :
    ((s.run .submit request).run h).1 = checkBundle (.obj fields)
      ((Outcome.ofReply "sign_submit" body).withPartial "submit_request" (.obj fields)) := by
  rw [run_of_hands (.submit hf), invoke_of_replies hr]
  rfl

theorem run_submit_of_skipped (hf : toSignSubmit s.files request = .ok fields)
    (hr : s.Replies .signSubmit (.obj fields) h body)
    (hskipped : Outcome.replyStatus body = "skipped") :
    ((s.run .submit request).run h).1 =
      .skipped (Outcome.replyReason "sign_submit" body) (Outcome.replyOperation body)
        ((Outcome.replyPartials body).insertIfNew "submit_request" (.obj fields)) := by
  rw [run_submit_of_replies hf hr, Outcome.ofReply_of_skipped hskipped]
  rfl

theorem run_submit_of_no_bundle (hf : toSignSubmit s.files request = .ok fields)
    (hr : s.Replies .signSubmit (.obj fields) h body)
    (hstatus : Outcome.replyStatus body ≠ "skipped")
    (hhex : body.present? "spend_bundle_hex" = none) :
    ((s.run .submit request).run h).1 =
      .skipped "sign_submit_missing_spend_bundle_hex" none [("submit_request", .obj fields)] := by
  rw [run_submit_of_replies hf hr, Outcome.ofReply_of_no_bundle hstatus hhex]
  rfl

theorem run_submit_of_bundle (hf : toSignSubmit s.files request = .ok fields)
    (hr : s.Replies .signSubmit (.obj fields) h body)
    (hstatus : Outcome.replyStatus body ≠ "skipped") {hex : Json}
    (hhex : body.present? "spend_bundle_hex" = some hex) :
    ((s.run .submit request).run h).1 = checkBundle (.obj fields)
      (.executed (Outcome.replyReason "sign_submit" body) (Outcome.replyOperation body)
        (trim hex.scalarText)) := by
  rw [run_submit_of_replies hf hr, Outcome.ofReply_of_bundle hstatus hhex]
  rfl

/-- **Exactly which answers of a signer the last stage accepts.** It executes for an answer that
does not call itself skipped and brings hexadecimal text between blanks, and keeps that text as it
is. Any other spend bundle of such an answer is refused, with the request that was handed on and
nothing else; so is an answer without one, for a reason of its own. An answer that calls itself
skipped is passed on, whatever it brings. -/
theorem submit_accepts_iff (hf : toSignSubmit s.files request = .ok fields)
    (hr : s.Replies .signSubmit (.obj fields) h body) :
    let outcome := ((s.run .submit request).run h).1
    (outcome.isExecuted = true ↔ Outcome.replyStatus body ≠ "skipped" ∧
      ∃ hex, body.present? "spend_bundle_hex" = some hex ∧ Hexadecimal (trim hex.scalarText)) ∧
    (∀ hex, Outcome.replyStatus body ≠ "skipped" → body.present? "spend_bundle_hex" = some hex →
      Hexadecimal (trim hex.scalarText) →
      outcome = .executed (Outcome.replyReason "sign_submit" body) (Outcome.replyOperation body)
        (trim hex.scalarText)) ∧
    (∀ hex, Outcome.replyStatus body ≠ "skipped" → body.present? "spend_bundle_hex" = some hex →
      ¬ Hexadecimal (trim hex.scalarText) →
      outcome = .skipped "invalid_spend_bundle_hex" none [("submit_request", .obj fields)]) ∧
    (Outcome.replyStatus body ≠ "skipped" → body.present? "spend_bundle_hex" = none →
      outcome = .skipped "sign_submit_missing_spend_bundle_hex" none
        [("submit_request", .obj fields)]) ∧
    (Outcome.replyStatus body = "skipped" →
      outcome = .skipped (Outcome.replyReason "sign_submit" body) (Outcome.replyOperation body)
        ((Outcome.replyPartials body).insertIfNew "submit_request" (.obj fields))) := by
  intro outcome
  have haccepted : ∀ hex, Outcome.replyStatus body ≠ "skipped" →
      body.present? "spend_bundle_hex" = some hex → Hexadecimal (trim hex.scalarText) →
      outcome = .executed (Outcome.replyReason "sign_submit" body) (Outcome.replyOperation body)
        (trim hex.scalarText) :=
    fun hex hstatus hhex hreal =>
      (run_submit_of_bundle hf hr hstatus hhex).trans (checkBundle_of_hexadecimal hreal)
  have hrefused : ∀ hex, Outcome.replyStatus body ≠ "skipped" →
      body.present? "spend_bundle_hex" = some hex → ¬ Hexadecimal (trim hex.scalarText) →
      outcome = .skipped "invalid_spend_bundle_hex" none [("submit_request", .obj fields)] :=
    fun hex hstatus hhex hreal =>
      (run_submit_of_bundle hf hr hstatus hhex).trans (checkBundle_of_not_hexadecimal hreal)
  have hmissing := run_submit_of_no_bundle hf hr
  have hskipped := run_submit_of_skipped hf hr
  refine ⟨⟨fun he => ?_, ?_⟩, haccepted, hrefused, hmissing, hskipped⟩
  · by_cases hstatus : Outcome.replyStatus body = "skipped"
    · rw [show outcome = _ from hskipped hstatus] at he
      cases he
    cases hhex : body.present? "spend_bundle_hex" with
    | none =>
      rw [show outcome = _ from hmissing hstatus hhex] at he
      cases he
    | some hex =>
      by_cases hreal : Hexadecimal (trim hex.scalarText)
      · exact ⟨hstatus, hex, rfl, hreal⟩
      · rw [hrefused hex hstatus hhex hreal] at he
        cases he
  · rintro ⟨hstatus, hex, hhex, hreal⟩
    rw [haccepted hex hstatus hhex hreal]
    rfl

/-- A signer that answers every request with the same body. -/
def signing (body : Fields) : Surroundings where
  config := { commands := fun _ => some "child" }
  files := anywhere
  delegate := fun _ => return .ok body

def signedReply (status hex : String) : Fields := [
  ("reason", .str "busy"),
  ("spend_bundle_hex", .str hex),
  ("status", .str status)]

theorem submit_accepts_of_signed :
    (((signing (signedReply "done" " 0XaBcD\n")).run .submit (payRequest 50 50)).run {}).1 =
        .executed "busy" none "0XaBcD" ∧
      ∃ fields, toSignSubmit anywhere (payRequest 50 50) = .ok fields ∧
        (((signing (signedReply "done" "0x0x")).run .submit (payRequest 50 50)).run {}).1 =
          .skipped "invalid_spend_bundle_hex" none [("submit_request", .obj fields)] := by
  have hf : toSignSubmit anywhere (payRequest 50 50) = .ok _ := rfl
  have hmarked := submit_accepts_iff (s := signing (signedReply "done" " 0XaBcD\n")) (h := {}) hf
    ⟨_, rfl, rfl⟩
  have htwice := submit_accepts_iff (s := signing (signedReply "done" "0x0x")) (h := {}) hf
    ⟨_, rfl, rfl⟩
  have htrim : trim (Json.str " 0XaBcD\n").scalarText = "0XaBcD" := by decide
  have hreal : Hexadecimal "0XaBcD" := (isHex_iff _).1 (by decide)
  have haccepted := hmarked.2.1 _ (by decide) rfl (htrim.symm ▸ hreal)
  rw [htrim] at haccepted
  exact ⟨haccepted, _, hf, htwice.2.2.1 _ (by decide) rfl (mt (isHex_iff _).2 (by decide))⟩

/-- The text of a skipped answer is no hexadecimal text, and nobody looks at it. -/
theorem submit_passes_on_of_busy :
    (signedReply "skipped" "zz").present? "spend_bundle_hex" = some (.str "zz") ∧
    ¬ Hexadecimal (trim (Json.scalarText (.str "zz"))) ∧
    ∃ fields, toSignSubmit anywhere (payRequest 50 50) = .ok fields ∧
      (signing (signedReply "skipped" "zz")).Replies .signSubmit (.obj fields) {}
        (signedReply "skipped" "zz") ∧
      (((signing (signedReply "skipped" "zz")).run .submit (payRequest 50 50)).run {}).1 =
        .skipped "busy" none [("submit_request", .obj fields)] :=
  ⟨rfl, mt (isHex_iff _).2 (by decide), _, rfl, ⟨_, rfl, rfl⟩, rfl⟩

end Surroundings

end CoinRelay
