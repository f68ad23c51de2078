import CoinRelay.Proofs.Json.Grammar
import CoinRelay.Proofs.Text.Trimmed

/-! # Texts that are accepted

The reader accepts exactly the texts that stand for a value with room for its containers, and reads
them as this value. -/

namespace CoinRelay.Json

/-! ## What is read follows the grammar -/

theorem exists_gap (cs : List Char) : ∃ g, Gap g ∧ cs = g ++ skipGap cs :=
  ⟨cs.takeWhile isGap, List.all_eq_true.1 List.all_takeWhile,
    (List.takeWhile_append_dropWhile ..).symm⟩

mutual

theorem denotes_of_readValue : ∀ {fuel room : Nat} {cs rest : List Char} {v : Json},
    readValue fuel room cs = some (v, rest) →
      ∃ text, cs = text ++ rest ∧ Denotes room (.value v) text
  | 0, _, _, _, _, h => by cases h
  | fuel + 1, room, cs, rest, v, h => by
    unfold readValue at h
    split at h
    · cases h
      exact ⟨_, rfl, .nullWord⟩
    · cases h
      exact ⟨_, rfl, .trueWord⟩
    · cases h
      exact ⟨_, rfl, .falseWord⟩
    · obtain ⟨r, hr, heq⟩ := Option.map_eq_some_iff.1 h
      cases heq
      obtain ⟨text, rfl, htext⟩ := escaped_of_readString hr
      exact ⟨_, by simp, .string htext⟩
    · next behind =>
      obtain ⟨g, hg, hbehind⟩ := exists_gap behind
      split at h
      · cases h
      · split at h
        · next hclose =>
          cases h
          rw [hclose] at hbehind
          exact ⟨_, by simp [hbehind], .emptyArray hg⟩
        · obtain ⟨r, hr, heq⟩ := Option.map_eq_some_iff.1 h
          cases heq
          obtain ⟨text, htext, hitems⟩ := denotes_of_readItems hr
          rw [htext] at hbehind
          exact ⟨_, by simp [hbehind], .array hg hitems⟩
    · next behind =>
      obtain ⟨g, hg, hbehind⟩ := exists_gap behind
      split at h
      · cases h
      · split at h
        · next hclose =>
          cases h
          rw [hclose] at hbehind
          exact ⟨_, by simp [hbehind], .emptyObject hg⟩
        · obtain ⟨r, hr, heq⟩ := Option.map_eq_some_iff.1 h
          cases heq
          obtain ⟨text, htext, hmembers⟩ := denotes_of_readMembers hr
          rw [htext] at hbehind
          exact ⟨_, by simp [hbehind], .object hg hmembers⟩
    · obtain ⟨r, hr, heq⟩ := Option.map_eq_some_iff.1 h
      cases heq
      obtain ⟨text, rfl, htext⟩ := numberText_of_readNumber hr
      exact ⟨_, rfl, .number htext⟩

theorem denotes_of_readItems : ∀ {fuel room : Nat} {cs rest : List Char} {vs : List Json},
    readItems fuel room cs = some (vs, rest) →
      ∃ text, cs = text ++ rest ∧ Denotes room (.items vs) text
  | 0, _, _, _, _, h => by cases h
  | fuel + 1, room, cs, rest, vs, h => by
    unfold readItems at h
    split at h
    · cases h
    · next v behind hv =>
      obtain ⟨text, rfl, htext⟩ := denotes_of_readValue hv
      obtain ⟨g, hg, hbehind⟩ := exists_gap behind
      split at h
      · next behind' hcomma =>
        obtain ⟨r, hr, heq⟩ := Option.map_eq_some_iff.1 h
        cases heq
        obtain ⟨g', hg', hbehind'⟩ := exists_gap behind'
        obtain ⟨more, hmore, hitems⟩ := denotes_of_readItems hr
        rw [hmore] at hbehind'
        rw [hcomma, hbehind'] at hbehind
        exact ⟨_, by simp [hbehind], .item htext hg hg' hitems⟩
      · next hclose =>
        cases h
        rw [hclose] at hbehind
        exact ⟨_, by simp [hbehind], .lastItem htext hg⟩
      · cases h

theorem denotes_of_readMembers : ∀ {fuel room : Nat} {cs rest : List Char}
    {ms : List (String × Json)}, readMembers fuel room cs = some (ms, rest) →
      ∃ text, cs = text ++ rest ∧ Denotes room (.members ms) text
  | 0, _, _, _, _, h => by cases h
  | fuel + 1, room, cs, rest, ms, h => by
    unfold readMembers at h
    split at h
    · split at h
      · cases h
      · next key behind hkey =>
        obtain ⟨keyText, rfl, hkeyText⟩ := escaped_of_readString hkey
        obtain ⟨g, hg, hbehind⟩ := exists_gap behind
        split at h
        · next behindColon hcolon =>
          obtain ⟨g', hg', hbehindColon⟩ := exists_gap behindColon
          split at h
          · cases h
          · next v behind' hv =>
            obtain ⟨text, htext, hvalue⟩ := denotes_of_readValue hv
            rw [htext] at hbehindColon
            rw [hcolon, hbehindColon] at hbehind
            obtain ⟨g'', hg'', hbehind'⟩ := exists_gap behind'
            have hmember := Denotes.member hkeyText hg hg' hvalue
            split at h
            · next behindComma hcomma =>
              obtain ⟨r, hr, heq⟩ := Option.map_eq_some_iff.1 h
              cases heq
              obtain ⟨g₃, hg₃, hbehindComma⟩ := exists_gap behindComma
              obtain ⟨more, hmore, hmembers⟩ := denotes_of_readMembers hr
              rw [hmore] at hbehindComma
              rw [hcomma, hbehindComma] at hbehind'
              exact ⟨_, by simp [hbehind, hbehind'], .furtherMember hmember hg'' hg₃ hmembers⟩
            · next hclose =>
              cases h
              rw [hclose] at hbehind'
              exact ⟨_, by simp [hbehind, hbehind'], .lastMember hmember hg''⟩
            · cases h
        · cases h
    · cases h

end

/-! ## What follows the grammar is read -/

theorem skipGap_append {g : List Char} (hg : Gap g) (cs : List Char) :
    skipGap (g ++ cs) = skipGap cs :=
  List.dropWhile_append_of_pos hg

/-- A gap ends a number, whatever follows it. -/
theorem numberEnds_gap {g cs : List Char} (hg : Gap g) (hcs : NumberEnds cs) :
    NumberEnds (g ++ cs) := by
  cases g with
  | nil => exact hcs
  | cons c g =>
    have hc := hg c (by simp)
    simp only [isGap, Bool.or_eq_true, decide_eq_true_eq] at hc
    rcases hc with ((rfl | rfl) | rfl) | rfl <;> simp [NumberEnds]

theorem NumberText.begins {cs : List Char} {n : Number} (h : NumberText cs n) :
    ∃ c rest, cs = c :: rest ∧ (c.isDigit = true ∨ c = '-') := by
  cases h with
  | @mk negative whole _ _ _ _ hwhole =>
  obtain ⟨d, ds, rfl⟩ := List.exists_cons_of_ne_nil hwhole.1
  cases negative with
  | true => exact ⟨'-', _, rfl, .inr rfl⟩
  | false => exact ⟨d, _, rfl, .inl (hwhole.2 d (by simp))⟩

/-- No piece begins with a gap or a closing bracket. -/
theorem Denotes.begins {room : Nat} {p : Piece} {cs : List Char} (h : Denotes room p cs) :
    ∃ c rest, cs = c :: rest ∧ beginsValue c = true := by
  induction h with
  | number hn =>
    obtain ⟨c, rest, hcs, hc | rfl⟩ := hn.begins
    · exact ⟨c, rest, hcs, beginsValue_of_isDigit hc⟩
    · exact ⟨'-', rest, hcs, by decide⟩
  | lastItem _ _ ih | lastMember _ _ ih =>
    obtain ⟨c, rest, rfl, hc⟩ := ih
    exact ⟨c, _, rfl, hc⟩
  | item _ _ _ _ ih _ | furtherMember _ _ _ _ ih _ =>
    obtain ⟨c, rest, rfl, hc⟩ := ih
    exact ⟨c, _, rfl, hc⟩
  | _ => exact ⟨_, _, rfl, by decide⟩

/-- How the reader goes on behind a member. -/
def readBehindMember (fuel room : Nat) (m : String × Json) (rest : List Char) :
    Option (List (String × Json) × List Char) :=
  match skipGap rest with
  | ',' :: rest => (readMembers fuel room (skipGap rest)).map fun r => (m :: r.1, r.2)
  | '}' :: rest => some ([m], rest)
  | _ => none

/-- The reader takes a text for the piece that it stands for, and stops behind it. -/
def Accepted (room : Nat) (cs : List Char) : Piece → Prop
  | .value v => ∀ fuel rest, cs.length ≤ fuel → NumberEnds rest →
    readValue fuel room (cs ++ rest) = some (v, rest)
  | .items vs => ∀ fuel rest, cs.length ≤ fuel → readItems fuel room (cs ++ rest) = some (vs, rest)
  | .members ms => ∀ fuel rest, cs.length ≤ fuel →
    readMembers fuel room (cs ++ rest) = some (ms, rest)
  | .member k v => ∀ fuel rest, cs.length ≤ fuel → NumberEnds rest →
    readMembers (fuel + 1) room (cs ++ rest) = readBehindMember fuel room (k, v) rest

/-- A gap in front of a piece is skipped, and no more than that. -/
theorem Denotes.skipGap {room : Nat} {p : Piece} {cs g : List Char} (h : Denotes room p cs)
    (hg : Gap g) (rest : List Char) : Json.skipGap (g ++ (cs ++ rest)) = cs ++ rest := by
  obtain ⟨c, cs, rfl, hc⟩ := h.begins
  simp only [beginsValue, Bool.and_eq_true, Bool.not_eq_true'] at hc
  rw [skipGap_append hg, List.cons_append, skipGap_cons hc.1.1]

/-- A gap behind an opening bracket does not count. -/
theorem readValue_gap {c : Char} (hc : c = '[' ∨ c = '{') {g : List Char} (hg : Gap g)
    (fuel room : Nat) (cs : List Char) :
    readValue (fuel + 1) (room + 1) (c :: (g ++ cs)) =
      readValue (fuel + 1) (room + 1) (c :: cs) := by
  rcases hc with rfl | rfl <;> simp only [readValue, skipGap_append hg]

/-- **What follows the grammar is read.** -/
theorem Denotes.accepted {room : Nat} {p : Piece} {cs : List Char} (h : Denotes room p cs) :
    Accepted room cs p := by
  induction h with
  | nullWord | trueWord | falseWord =>
    rintro (_ | fuel) rest hf -
    · simp at hf
    · rfl
  | number hn =>
    obtain ⟨c, cs, rfl, hc⟩ := hn.begins
    rintro (_ | fuel) rest hf hr
    · simp at hf
    · have hread := hn.readNumber hr
      rw [List.cons_append] at hread ⊢
      rw [readValue_cons_number hc, hread]
      rfl
  | string hs =>
    rintro (_ | fuel) rest hf -
    · simp at hf
    · simp [readValue, hs.readString]
  | emptyArray hg | emptyObject hg =>
    rintro (_ | fuel) rest hf -
    · simp at hf
    · rw [List.cons_append, List.append_assoc, readValue_gap (by simp) hg]
      rfl
  | array hg h ih =>
    rintro (_ | fuel) rest hf -
    · simp at hf
    · have hitems := ih fuel rest (by simp at hf; omega)
      obtain ⟨c, cs, rfl, hc⟩ := h.begins
      rw [List.cons_append, List.append_assoc, readValue_gap (.inl rfl) hg, List.cons_append,
        readValue_arr fuel _ hc, ← List.cons_append, hitems]
      rfl
  | object hg h ih =>
    rintro (_ | fuel) rest hf -
    · simp at hf
    · have hmembers := ih fuel rest (by simp at hf; omega)
      obtain ⟨c, cs, rfl, hc⟩ := h.begins
      rw [List.cons_append, List.append_assoc, readValue_gap (.inr rfl) hg, List.cons_append,
        readValue_obj fuel _ hc, ← List.cons_append, hmembers]
      rfl
  | lastItem h hg ih =>
    rintro (_ | fuel) rest hf
    · simp at hf
    · have hvalue := ih fuel _ (by simp at hf; omega) (numberEnds_gap hg
        (NumberEnds.cons (.inr (.inl rfl)) rest))
      simp only [List.append_assoc, List.singleton_append, readItems, hvalue, skipGap_append hg]
      rfl
  | @item _ g g' _ more _ _ h hg hg' hmore ih ihmore =>
    rintro (_ | fuel) rest hf
    · simp at hf
    · have hvalue := ih fuel _ (by simp at hf; omega) (numberEnds_gap hg
        (NumberEnds.cons (.inl rfl) (g' ++ (more ++ rest))))
      have hitems := ihmore fuel rest (by simp at hf; omega)
      simp only [List.append_assoc, List.cons_append, readItems, hvalue, skipGap_append hg]
      rw [skipGap_cons (by decide)]
      simp only [hmore.skipGap hg', hitems]
      rfl
  | member hkey hg hg' h ih =>
    intro fuel rest hf hr
    have hvalue := ih fuel rest (by simp at hf; omega) hr
    simp only [List.append_assoc, List.cons_append, readMembers, hkey.readString, skipGap_append hg]
    rw [skipGap_cons (by decide)]
    simp only [h.skipGap hg', hvalue]
    rfl
  | lastMember h hg ih =>
    rintro (_ | fuel) rest hf
    · simp at hf
    · have hmember := ih fuel _ (by simp at hf; omega) (numberEnds_gap hg
        (NumberEnds.cons (.inr (.inr rfl)) rest))
      simp only [List.append_assoc, List.singleton_append, hmember, readBehindMember,
        skipGap_append hg]
      rfl
  | @furtherMember _ g g' _ more _ _ _ h hg hg' hmore ih ihmore =>
    rintro (_ | fuel) rest hf
    · simp at hf
    · have hmember := ih fuel _ (by simp at hf; omega) (numberEnds_gap hg
        (NumberEnds.cons (.inl rfl) (g' ++ (more ++ rest))))
      have hmembers := ihmore fuel rest (by simp at hf; omega)
      simp only [List.append_assoc, List.cons_append, hmember, readBehindMember,
        skipGap_append hg]
      rw [skipGap_cons (by decide)]
      simp only [hmore.skipGap hg', hmembers]
      rfl

/-! ## Whole texts -/

/-- **What the reader accepts.** A text is read as a value exactly if it stands for this value
between gaps, with room for its containers. -/
theorem read?_eq_some_iff {cs : List Char} {v : Json} : read? cs = some v ↔
    ∃ g text g', cs = g ++ (text ++ g') ∧ Gap g ∧ Gap g' ∧ Denotes maxDepth (.value v) text := by
  constructor
  · intro h
    unfold read? at h
    split at h
    · next found rest hread =>
      obtain ⟨hend, heq⟩ := Option.ite_none_right_eq_some.1 h
      cases heq
      obtain ⟨text, htext, hv⟩ := denotes_of_readValue hread
      obtain ⟨g, hg, hcs⟩ := exists_gap cs
      obtain ⟨g', hg', hrest⟩ := exists_gap rest
      rw [List.isEmpty_iff.1 hend, List.append_nil] at hrest
      rw [htext, hrest] at hcs
      exact ⟨g, text, g', hcs, hg, hg', hv⟩
    · cases h
  · rintro ⟨g, text, g', rfl, hg, hg', hv⟩
    have hends : NumberEnds g' := by
      have hnil : NumberEnds (g' ++ []) := numberEnds_gap hg' trivial
      rwa [List.append_nil] at hnil
    have hfuel : text.length ≤ 2 * (g ++ (text ++ g')).length + 1 := by
      simp only [List.length_append]
      omega
    have hskip : skipGap g' = [] := by
      have hnil := skipGap_append hg' []
      rwa [List.append_nil] at hnil
    have hread := hv.accepted _ g' hfuel hends
    unfold read?
    rw [hv.skipGap hg, hread]
    simp [hskip]

theorem isBlank_of_isGap {c : Char} (h : isGap c = true) : Text.isBlank c = true := by
  simp only [isGap, Bool.or_eq_true, decide_eq_true_eq] at h
  rcases h with ((rfl | rfl) | rfl) | rfl <;> decide

/-- Trimmed text has no gap at its ends. -/
theorem Gap.eq_nil_of_trimmed {g text g' : List Char} (hg : Gap g) (hg' : Gap g')
    (h : Text.Trimmed (g ++ (text ++ g'))) : g = [] ∧ g' = [] := by
  constructor
  · cases g with
    | nil => rfl
    | cons c g =>
      have hc := h.1 c rfl
      rw [isBlank_of_isGap (hg c (by simp))] at hc
      cases hc
  · rcases List.eq_nil_or_concat g' with rfl | ⟨g', c, rfl⟩
    · rfl
    · have hc := h.2 c (by simp)
      rw [isBlank_of_isGap (hg' c (by simp))] at hc
      cases hc

end CoinRelay.Json

namespace CoinRelay
open Text

/-- **What a request is.** A text is a request exactly if what is left of it without the blanks at
its ends stands for an object. -/
theorem parseRequest?_eq_some_iff {raw : String} {fields : Fields} :
    parseRequest? raw = some fields ↔
      Json.Denotes Json.maxDepth (.value (.obj fields)) (trimChars raw.toList) := by
  have hobject : parseRequest? raw = some fields ↔
      Json.read? (trimChars raw.toList) = some (.obj fields) := by
    unfold parseRequest?
    rw [Option.bind_eq_some_iff]
    constructor
    · rintro ⟨v, hv, hfields⟩
      cases v <;> cases hfields
      exact hv
    · exact fun h => ⟨_, h, rfl⟩
  rw [hobject, Json.read?_eq_some_iff]
  constructor
  · rintro ⟨g, text, g', htext, hg, hg', hv⟩
    have htrimmed := trimmed_trimChars raw.toList
    rw [htext] at htrimmed
    obtain ⟨rfl, rfl⟩ := hg.eq_nil_of_trimmed hg' htrimmed
    rw [htext]
    simpa using hv
  · intro h
    exact ⟨[], _, [], by simp, nofun, nofun, h⟩

end CoinRelay
