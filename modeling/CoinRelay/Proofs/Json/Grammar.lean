import CoinRelay.Proofs.Json.Literal
import CoinRelay.Proofs.Json.Quoted

/-! # The grammar of texts

What a text is, whoever reads it: a relation between texts and the values that they stand for
(`Denotes`), with one rule for each form of a value. Strings and numbers come first. -/

namespace CoinRelay.Json
open Literal (Digits fractionChars)

/-- Blanks between the parts of a text. -/
def Gap (cs : List Char) : Prop := ∀ c ∈ cs, isGap c = true

/-! ## Strings -/

/-- What stands between the quotes of a string, and the characters that it stands for. -/
inductive Escaped : List Char → List Char → Prop where
  | nil : Escaped [] []
  | plain {c : Char} {cs s : List Char} (hcontrol : 32 ≤ c.toNat) (hquote : c ≠ '"')
      (hbackslash : c ≠ '\\') (h : Escaped cs s) : Escaped (c :: cs) (c :: s)
  | letter {c e : Char} {cs s : List Char} (hletter : unescape? c = some e) (h : Escaped cs s) :
    Escaped ('\\' :: c :: cs) (e :: s)
  | unit {a b c d : Char} {n : Nat} {cs s : List Char} (hn : hexUnit? a b c d = some n)
      (hhigh : isHighSurrogate n = false) (hlow : isLowSurrogate n = false) (h : Escaped cs s) :
    Escaped ('\\' :: 'u' :: a :: b :: c :: d :: cs) (Char.ofNat n :: s)
  | pair {a b c d a' b' c' d' : Char} {n m : Nat} {cs s : List Char}
      (hn : hexUnit? a b c d = some n) (hhigh : isHighSurrogate n = true)
      (hm : hexUnit? a' b' c' d' = some m) (hlow : isLowSurrogate m = true) (h : Escaped cs s) :
    Escaped ('\\' :: 'u' :: a :: b :: c :: d :: '\\' :: 'u' :: a' :: b' :: c' :: d' :: cs)
      (Char.ofNat (0x10000 + (n - 0xD800) * 0x400 + (m - 0xDC00)) :: s)

/-- Behind its opening quote a string is read up to its closing one. -/
theorem escaped_of_readString {cs s rest : List Char} (h : readString cs = some (s, rest)) :
    ∃ text, cs = text ++ '"' :: rest ∧ Escaped text s := by
  fun_induction readString cs generalizing s rest
  case case2 =>
    cases h
    exact ⟨[], rfl, .nil⟩
  case case5 hn hhigh _ _ _ _ _ _ hm hlow ih =>
    obtain ⟨r, hr, heq⟩ := Option.map_eq_some_iff.1 h
    cases heq
    obtain ⟨text, rfl, htext⟩ := ih hr
    exact ⟨_, rfl, .pair hn hhigh hm hlow htext⟩
  case case9 hn hhigh hlow ih =>
    obtain ⟨r, hr, heq⟩ := Option.map_eq_some_iff.1 h
    cases heq
    obtain ⟨text, rfl, htext⟩ := ih hr
    exact ⟨_, rfl, .unit hn (Bool.eq_false_iff.2 hhigh) (Bool.eq_false_iff.2 hlow) htext⟩
  case case11 hletter ih =>
    obtain ⟨r, hr, heq⟩ := Option.map_eq_some_iff.1 h
    cases heq
    obtain ⟨text, rfl, htext⟩ := ih hr
    exact ⟨_, rfl, .letter hletter htext⟩
  case case13 hquote _ _ hplain ih =>
    obtain ⟨r, hr, heq⟩ := Option.map_eq_some_iff.1 h
    cases heq
    obtain ⟨text, rfl, htext⟩ := ih hr
    rw [not_or, Nat.not_lt] at hplain
    exact ⟨_, rfl, .plain hplain.1 hquote hplain.2 htext⟩
  all_goals cases h

theorem Escaped.readString {text s : List Char} (h : Escaped text s) (rest : List Char) :
    Json.readString (text ++ '"' :: rest) = some (s, rest) := by
  induction h with
  | nil => simp [Json.readString]
  | plain hcontrol hquote hbackslash _ ih =>
    rw [List.cons_append, readString_plain hcontrol hquote hbackslash, ih]
    rfl
  | @letter c e _ _ hletter _ ih =>
    have hu : c ≠ 'u' := by
      rintro rfl
      cases hletter
    simp [Json.readString, hu, hletter, ih]
  | unit hn hhigh hlow _ ih =>
    simp only [List.cons_append, Json.readString, hn, hhigh, hlow, ih]
    rfl
  | pair hn hhigh hm hlow _ ih =>
    simp only [List.cons_append, Json.readString, hn, hhigh, hm, hlow, ih]
    rfl

/-! ## Numbers -/

/-- The exponent at the end of a number, and its value. -/
inductive ExponentText : List Char → Option Int → Prop where
  | absent : ExponentText [] none
  | present {mark : Char} {sign digits : List Char} (hmark : mark = 'e' ∨ mark = 'E')
      (hsign : sign ∈ [[], ['+'], ['-']]) (hdigits : Digits digits) :
    ExponentText (mark :: (sign ++ digits))
      (some ((if sign = ['-'] then -1 else 1) * (Nat.ofDigitChars 10 digits 0 : Int)))

/-- A number in decimal: whole digits without needless zeros in front, behind a minus or not, and
then perhaps a fraction and an exponent. What is out of the range of doubles stands for nothing. -/
inductive NumberText : List Char → Number → Prop where
  | mk {negative : Bool} {whole : List Char} {fraction : Option (List Char)} {tail : List Char}
      {exponent : Option Int} {n : Number} (hwhole : Digits whole)
      (hleading : whole.head? = some '0' → whole.length ≤ 1)
      (hfraction : ∀ ds ∈ fraction, Digits ds) (hexponent : ExponentText tail exponent)
      (hn : number? negative whole fraction exponent = some n) :
    NumberText ((if negative then ['-'] else []) ++ (whole ++ (fractionChars fraction ++ tail))) n

theorem digits_of_digits? {cs ds rest : List Char} (h : digits? cs = some (ds, rest)) :
    cs = ds ++ rest ∧ Digits ds := by
  unfold digits? at h
  split at h
  · cases h
  · next hne =>
    cases h
    exact ⟨(List.takeWhile_append_dropWhile ..).symm, hne, List.all_eq_true.1 List.all_takeWhile⟩

theorem digits_of_fraction? {cs rest : List Char} {f : Option (List Char)}
    (h : fraction? cs = some (f, rest)) :
    cs = fractionChars f ++ rest ∧ ∀ ds ∈ f, Digits ds := by
  unfold fraction? at h
  split at h
  · obtain ⟨r, hr, heq⟩ := Option.map_eq_some_iff.1 h
    cases heq
    obtain ⟨rfl, hdigits⟩ := digits_of_digits? hr
    exact ⟨rfl, by simpa using hdigits⟩
  · cases h
    exact ⟨rfl, by simp⟩

theorem exponentText_of_exponent? {cs rest : List Char} {e : Option Int}
    (h : exponent? cs = some (e, rest)) : ∃ tail, cs = tail ++ rest ∧ ExponentText tail e := by
  unfold exponent? at h
  split at h
  · next c cs =>
    split at h
    · next hmark =>
      dsimp only at h
      split at h
      all_goals
        obtain ⟨r, hr, heq⟩ := Option.map_eq_some_iff.1 h
        cases heq
        obtain ⟨rfl, hdigits⟩ := digits_of_digits? hr
      · exact ⟨c :: (['-'] ++ r.1), rfl, .present hmark (by simp) hdigits⟩
      · exact ⟨c :: (['+'] ++ r.1), rfl, .present hmark (by simp) hdigits⟩
      · exact ⟨c :: ([] ++ r.1), rfl, .present hmark (by simp) hdigits⟩
    · cases h
      exact ⟨[], rfl, .absent⟩
  · cases h
    exact ⟨[], rfl, .absent⟩

theorem numberText_of_readUnsignedNumber {negative : Bool} {cs rest : List Char} {n : Number}
    (h : readUnsignedNumber negative cs = some (n, rest)) :
    ∃ text, cs = text ++ rest ∧ NumberText ((if negative then ['-'] else []) ++ text) n := by
  simp only [readUnsignedNumber, Option.bind_eq_bind, Option.bind_eq_some_iff] at h
  obtain ⟨⟨whole, behind⟩, hwhole, h⟩ := h
  split at h
  · cases h
  · next hleading =>
    obtain ⟨⟨fraction, behind'⟩, hfraction, h⟩ := Option.bind_eq_some_iff.1 h
    obtain ⟨⟨exponent, behind''⟩, hexponent, h⟩ := Option.bind_eq_some_iff.1 h
    obtain ⟨n, hn, h⟩ := Option.bind_eq_some_iff.1 h
    cases h
    obtain ⟨rfl, hdigits⟩ := digits_of_digits? hwhole
    obtain ⟨rfl, hdigits'⟩ := digits_of_fraction? hfraction
    obtain ⟨tail, rfl, htail⟩ := exponentText_of_exponent? hexponent
    refine ⟨whole ++ (fractionChars fraction ++ tail), by simp, .mk hdigits (fun h0 => ?_) hdigits'
      htail hn⟩
    exact Nat.le_of_not_lt fun hlt => hleading ⟨h0, hlt⟩

theorem numberText_of_readNumber {cs rest : List Char} {n : Number}
    (h : readNumber cs = some (n, rest)) : ∃ text, cs = text ++ rest ∧ NumberText text n := by
  unfold readNumber at h
  split at h
  · obtain ⟨text, rfl, htext⟩ := numberText_of_readUnsignedNumber h
    exact ⟨'-' :: text, rfl, htext⟩
  · exact numberText_of_readUnsignedNumber h

/-! ## Numbers that are read -/

theorem NumberEnds.head {rest : List Char} (h : NumberEnds rest) :
    ∀ c ∈ rest.head?, c.isDigit = false ∧ c ≠ '.' := by
  cases rest with
  | nil => nofun
  | cons c rest =>
    rintro _ ⟨⟩
    exact ⟨h.1, h.2.1⟩

theorem ExponentText.exponent? {tail rest : List Char} {e : Option Int} (h : ExponentText tail e)
    (hr : NumberEnds rest) : Json.exponent? (tail ++ rest) = some (e, rest) := by
  cases h with
  | absent =>
    cases rest with
    | nil => rfl
    | cons c rest => simp [Json.exponent?, hr.2.2.1, hr.2.2.2]
  | @present mark sign digits hmark hsign hdigits =>
    have hread := digits?_append hdigits fun c hc => (hr.head c hc).1
    simp only [List.cons_append, List.append_assoc, Json.exponent?, if_pos hmark]
    simp only [List.mem_cons, List.not_mem_nil, or_false] at hsign
    rcases hsign with rfl | rfl | rfl
    · -- without a sign the first digit follows
      obtain ⟨d, ds, rfl⟩ := List.exists_cons_of_ne_nil hdigits.1
      have hd := hdigits.2 d (by simp)
      split
      · next heq =>
        rw [(List.cons.inj heq).1] at hd
        exact absurd hd (by decide)
      · next heq =>
        rw [(List.cons.inj heq).1] at hd
        exact absurd hd (by decide)
      · simp_all
    · simp [hread]
    · simp [hread]

/-- What follows the whole digits of a number is no digit, and behind a fraction it is no point. -/
theorem ExponentText.head {tail rest : List Char} {e : Option Int} (h : ExponentText tail e)
    (hr : NumberEnds rest) : ∀ c ∈ (tail ++ rest).head?, c.isDigit = false ∧ c ≠ '.' := by
  cases h with
  | absent => exact hr.head
  | present hmark _ _ =>
    rintro _ ⟨⟩
    rcases hmark with rfl | rfl <;> decide

theorem NumberText.readNumber {text rest : List Char} {n : Number} (h : NumberText text n)
    (hr : NumberEnds rest) : Json.readNumber (text ++ rest) = some (n, rest) := by
  cases h with
  | @mk negative whole fraction tail exponent n hwhole hleading hfraction hexponent hn =>
  have htail := hexponent.head hr
  have hhead : ∀ c ∈ (fractionChars fraction ++ (tail ++ rest)).head?, c.isDigit = false := by
    cases fraction with
    | none => exact fun c hc => (htail c hc).1
    | some ds =>
      rintro _ ⟨⟩
      decide
  have hzero : ¬ (whole.head? = some '0' ∧ 1 < whole.length) := fun ⟨h0, hlt⟩ =>
    Nat.not_le.2 hlt (hleading h0)
  have hread : readUnsignedNumber negative (whole ++ (fractionChars fraction ++ (tail ++ rest))) =
      some (n, rest) := by
    simp only [readUnsignedNumber, digits?_append hwhole hhead, fraction?_chars hfraction htail,
      hexponent.exponent? hr, if_neg hzero, hn, Option.bind_eq_bind, Option.bind_some]
    rfl
  cases negative with
  | true => simpa [Json.readNumber] using hread
  | false =>
    obtain ⟨d, ds, rfl⟩ := List.exists_cons_of_ne_nil hwhole.1
    have hd := hwhole.2 d (by simp)
    have hminus : d ≠ '-' := by
      rintro rfl
      exact absurd hd (by decide)
    simpa [Json.readNumber, hminus] using hread

/-! ## Values -/

/-- What a piece of a text may stand for: a value, a member of an object, or one or more items or
members up to the bracket that closes them. -/
inductive Piece where
  | value (v : Json)
  | member (key : String) (v : Json)
  | items (vs : List Json)
  | members (ms : List (String × Json))

/-- A text stands for a piece, with room for so many containers inside each other. Of members with
the same key the last one counts. -/
inductive Denotes : (room : Nat) → Piece → List Char → Prop where
  | nullWord {room : Nat} : Denotes room (.value .null) ['n', 'u', 'l', 'l']
  | trueWord {room : Nat} : Denotes room (.value (.bool true)) ['t', 'r', 'u', 'e']
  | falseWord {room : Nat} : Denotes room (.value (.bool false)) ['f', 'a', 'l', 's', 'e']
  | number {room : Nat} {n : Number} {cs : List Char} (h : NumberText cs n) :
    Denotes room (.value (.num n)) cs
  | string {room : Nat} {cs s : List Char} (h : Escaped cs s) :
    Denotes room (.value (.str (String.ofList s))) ('"' :: (cs ++ ['"']))
  | emptyArray {room : Nat} {g : List Char} (hg : Gap g) :
    Denotes (room + 1) (.value (.arr [])) ('[' :: (g ++ [']']))
  | array {room : Nat} {g cs : List Char} {vs : List Json} (hg : Gap g)
      (h : Denotes room (.items vs) cs) :
    Denotes (room + 1) (.value (.arr vs)) ('[' :: (g ++ cs))
  | emptyObject {room : Nat} {g : List Char} (hg : Gap g) :
    Denotes (room + 1) (.value (.obj [])) ('{' :: (g ++ ['}']))
  | object {room : Nat} {g cs : List Char} {ms : List (String × Json)} (hg : Gap g)
      (h : Denotes room (.members ms) cs) :
    Denotes (room + 1) (.value (.obj (Fields.ofList ms))) ('{' :: (g ++ cs))
  | lastItem {room : Nat} {g cs : List Char} {v : Json} (h : Denotes room (.value v) cs)
      (hg : Gap g) :
    Denotes room (.items [v]) (cs ++ (g ++ [']']))
  | item {room : Nat} {g g' cs more : List Char} {v : Json} {vs : List Json}
      (h : Denotes room (.value v) cs) (hg : Gap g) (hg' : Gap g')
      (hmore : Denotes room (.items vs) more) :
    Denotes room (.items (v :: vs)) (cs ++ (g ++ ',' :: (g' ++ more)))
  | member {room : Nat} {key s g g' cs : List Char} {v : Json} (hkey : Escaped key s) (hg : Gap g)
      (hg' : Gap g') (h : Denotes room (.value v) cs) :
    Denotes room (.member (String.ofList s) v) ('"' :: (key ++ '"' :: (g ++ ':' :: (g' ++ cs))))
  | lastMember {room : Nat} {g cs : List Char} {k : String} {v : Json}
      (h : Denotes room (.member k v) cs) (hg : Gap g) :
    Denotes room (.members [(k, v)]) (cs ++ (g ++ ['}']))
  | furtherMember {room : Nat} {g g' cs more : List Char} {k : String} {v : Json}
      {ms : List (String × Json)} (h : Denotes room (.member k v) cs) (hg : Gap g) (hg' : Gap g')
      (hmore : Denotes room (.members ms) more) :
    Denotes room (.members ((k, v) :: ms)) (cs ++ (g ++ ',' :: (g' ++ more)))

end CoinRelay.Json
