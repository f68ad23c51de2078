import CoinRelay.Proofs.Relay.Written

/-! # What a stage reports can be read

The outcome of a stage goes to the stage before as text. Its reader takes it for the same outcome,
but only where the text nests no deeper than a text may: whatever is reported stands one container
deeper than it did in the request, so a request that may just be read can lead to an outcome that
may not. -/

namespace CoinRelay
open Handoff

namespace Outcome

/-- The text of a clean outcome that reports nothing but finite doubles is read if there is room for
its containers. -/
theorem Clean.readable_iff {outcome : Outcome} {room : ℕ} (h : outcome.Clean (Json.Parsed room)) :
    (∃ body, parseReply outcome.wire = .ok body) ↔
      ∀ m ∈ outcome.partials, m.2.depth < Json.maxDepth := by
  have hfinite : ∀ m ∈ outcome.members, m.2.AllDoubles Json.Double.Finite :=
    (forall_mem_members trivial fun _ => trivial).2 fun m hm => (h.values m hm).finite
  obtain ⟨members, hmembers⟩ :=
    Json.exists_rereadMembers? (Json.allDoublesMembers_iff.2 hfinite)
  rw [wire, parseReply_text, hmembers, ← depth_members_le]
  split
  · next hdepth => exact ⟨fun _ => hdepth, fun _ => ⟨_, rfl⟩⟩
  · next hdepth =>
    constructor
    · rintro ⟨body, hbody⟩
      cases hbody
    · intro hd
      exact absurd hd hdepth

/-- A reported value without room for one more container makes the outcome unreadable. -/
theorem unreadable_of_partial {outcome : Outcome} {key : String} {v : Json}
    (hget : outcome.partial? key = some v) (hv : Json.maxDepth ≤ v.depth) :
    parseReply outcome.wire = .error .invalidJson := by
  have hdeep : ¬ (Json.obj outcome.members).depth ≤ Json.maxDepth := by
    rw [depth_members_le]
    intro hall
    exact absurd (hall _ (Fields.mem_of_get? hget)) (not_lt.2 hv)
  rw [wire, parseReply_text, if_neg hdeep]

end Outcome

namespace Surroundings
variable {s : Surroundings} {raw : String} {request : Fields}

/-! ## Reading undoes writing -/

/-- **Reading undoes writing.** An outcome reports nothing under the keys of its own members, and
its spend bundle is trimmed. Its reader takes it for the same outcome, whatever the tag of the hop,
if there is room for its containers and what it reports is steady, as values without doubles are. -/
theorem ofReply_wire_run (hr : (Json.obj request).Canonical)
    (ha : ∀ call h body, ((s.delegate call).run h).1 = .ok body → (Json.obj body).Canonical)
    (stage : Stage) (h : History) :
    let outcome := ((s.run stage request).run h).1
    (∀ key ∈ Outcome.ownKeys, outcome.partial? key = none) ∧
    (∀ hex, outcome.spendBundle? = some hex → Text.trim hex = hex) ∧
    ((∀ m ∈ outcome.partials, m.2.Steady ∧ m.2.depth < Json.maxDepth) →
      ∀ tag, (parseReply outcome.wire).map (Outcome.ofReply tag) = .ok outcome) := by
  intro outcome
  have hanswers : ∀ hop, s.AnswersOn hop Json.Canonical Json.Canonical := by
    intro hop fields command h body _ hb
    exact Json.canonical_obj_iff.1 (ha _ h body hb)
  have hclean : outcome.Clean Json.Canonical :=
    clean_run written_canonical (fun _ hf => Json.canonical_obj_iff.2 hf)
      (Json.canonical_obj_iff.1 hr) (hanswers _) hanswers stage h
  refine ⟨hclean.foreign, fun hex hhex => Text.trim_eq_self (hclean.trimmed hex hhex), ?_⟩
  intro hreported tag
  rw [hclean.parseReply_wire (fun m hm => (hreported m hm).1)
    (Outcome.depth_members_le.2 fun m hm => (hreported m hm).2)]
  exact congrArg Except.ok (hclean.ofReply_members tag)

/-- What a busy child answers. -/
def busyReply : Fields := [("queue", .arr [.ofUInt64 3]), ("reason", .str "busy"),
  ("status", .str "skipped")]

/-- Every hop is answered by a busy child. -/
def busy : Surroundings where
  config := { commands := fun _ => some "child" }
  files := anywhere
  delegate := fun _ => return .ok busyReply

/-- Values without doubles that nest no deeper than additions. -/
def Plain (v : Json) : Prop := v.Whole ∧ v.depth ≤ 2

theorem written_plain : Written Plain := written_whole.and (written_depth (Nat.le_refl 2))

theorem holds_plain_iff {fields : Fields} :
    fields.Holds Plain ↔ (Json.obj fields).Whole ∧ (Json.obj fields).depth ≤ 3 := by
  rw [Json.whole_obj_iff, Json.depth_obj_le]
  constructor
  · intro h
    exact ⟨h.mono fun _ hv => hv.1, fun m hm => (h.values m hm).2⟩
  · rintro ⟨hwhole, hdepth⟩
    exact ⟨hwhole.ascending, fun m hm => ⟨hwhole.values m hm, hdepth m hm⟩⟩

theorem holds_splitRequest (size count target coin : Amount) :
    (splitRequest size count target coin).Holds Plain := by
  have hrequest : (splitRequest size count target coin).Ascending :=
    Fields.ascending_of_keys (show _ = ["asset_id", "key_id", "keyring_yaml_path", "network",
      "plan", "receive_address", "selected_coins"] from rfl) (by decide)
  have hplan : Fields.Ascending [("op_count", .ofUInt64 count), ("op_type", .str "split"),
      ("size_base_units", .ofUInt64 size), ("target_total_base_units", .ofUInt64 target)] :=
    Fields.ascending_of_keys (show _ = ["op_count", "op_type", "size_base_units",
      "target_total_base_units"] from rfl) (by decide)
  have hcoin : Fields.Ascending [("amount", .ofUInt64 coin)] := List.pairwise_singleton _ _
  refine holds_plain_iff.2 ⟨Json.whole_obj_iff.2 ⟨hrequest, ?_⟩, Nat.le_refl 3⟩
  simp [splitRequest, Json.whole_arr_iff, Json.whole_obj_iff, Fields.holds_iff, hplan, hcoin]

theorem holds_busyReply : busyReply.Holds Plain := by
  have hreply : busyReply.Ascending := Fields.ascending_of_keys rfl (by decide)
  refine holds_plain_iff.2 ⟨Json.whole_obj_iff.2 ⟨hreply, ?_⟩, by decide⟩
  simp [busyReply, Json.whole_arr_iff]

theorem ofReply_wire_of_busy :
    (Json.obj (splitRequest 10 2 20 50)).Canonical ∧
      let outcome := ((busy.run .rawEngine (splitRequest 10 2 20 50)).run {}).1
      outcome.partial? "queue" = some (.arr [.ofUInt64 3]) ∧
        (parseReply outcome.wire).map (Outcome.ofReply "sdk_submit") = .ok outcome := by
  have hrequest := holds_splitRequest 10 2 20 50
  have hcanonical := (holds_plain_iff.1 hrequest).1.1
  let Q : Json → Prop := fun v => v.Exact ∧ v.depth ≤ 3
  have hclean : Outcome.Clean Q ((busy.run .rawEngine (splitRequest 10 2 20 50)).run {}).1 := by
    refine clean_run written_plain ?_ hrequest ?_ ?_ _ _
    · intro fields hf
      exact ⟨(holds_plain_iff.1 hf).1.2, (holds_plain_iff.1 hf).2⟩
    · intro fields command h body _ hb
      cases hb
      exact holds_busyReply
    · intro hop fields command h body _ hb
      cases hb
      exact holds_busyReply.mono fun v hv => ⟨hv.1.2, Nat.le_succ_of_le hv.2⟩
  refine ⟨hcanonical, rfl, (ofReply_wire_run hcanonical ?_ .rawEngine {}).2.2 ?_ _⟩
  · intro call h body hb
    cases hb
    exact (holds_plain_iff.1 holds_busyReply).1.1
  · intro m hm
    obtain ⟨hexact, hdepth⟩ := hclean.values m hm
    exact ⟨hexact.allDoubles, Nat.lt_of_le_of_lt hdepth (by decide)⟩

/-! ## Room for what is reported -/

/-- What was read gives outcomes that report nothing else. A handoff may take all the room that a
text has, and stands in the outcome as one of its values. -/
theorem clean_run_of_parsed (hr : (Json.obj request).Parsed Json.maxDepth)
    (ha : ∀ call h body, ((s.delegate call).run h).1 = .ok body →
      (Json.obj body).Parsed Json.maxDepth) (stage : Stage) (h : History) :
    ((s.run stage request).run h).1.Clean (Json.Parsed Json.maxDepth) := by
  have hrequest : request.Holds (Json.Parsed 126) := Json.parsed_obj_iff.1 hr
  exact clean_run (written_parsed (by norm_num)) (fun _ hf => Json.parsed_obj_iff.2 hf) hrequest
    (fun _ _ k body _ hb => Json.parsed_obj_iff.1 (ha _ k body hb))
    (fun _ _ _ k body _ hb => (Json.parsed_obj_iff.1 (ha _ k body hb)).mono fun _ hv =>
      hv.mono (by norm_num [Json.maxDepth])) stage h

/-- **When an outcome can be read.** For a request that was read and answers that were read, the
stage before reads the outcome exactly if every value in it leaves room for one more container; so
it does wherever the request and the coins that are answered leave that room. -/
theorem wire_readable_iff (hr : parseRequest? raw = some request)
    (ha : ∀ call h body, ((s.delegate call).run h).1 = .ok body →
      ∃ stdout, parseReply stdout = .ok body) (stage : Stage) (h : History) :
    let outcome := ((s.run stage request).run h).1
    ((∃ body, parseReply outcome.wire = .ok body) ↔
      ∀ m ∈ outcome.partials, m.2.depth < Json.maxDepth) ∧
    ((Json.obj request).depth < Json.maxDepth →
      (∀ call h body, call.hop = .coinSelector → ((s.delegate call).run h).1 = .ok body →
        (Json.obj body).depth < Json.maxDepth) →
      ∃ body, parseReply outcome.wire = .ok body) := by
  intro outcome
  have hparsed := parsed_of_parseRequest? hr
  have hbody : ∀ call h body, ((s.delegate call).run h).1 = .ok body →
      (Json.obj body).Parsed Json.maxDepth := by
    intro call h body hb
    obtain ⟨stdout, hstdout⟩ := ha call h body hb
    exact parsed_of_parseReply hstdout
  have hclean := clean_run_of_parsed hparsed hbody stage h
  refine ⟨hclean.readable_iff, fun hdepth hcoins => hclean.readable_iff.2 ?_⟩
  -- with room to spare everywhere, handoffs nest no deeper than the request before
  have hspare : request.Holds (Json.Parsed 125) :=
    Json.parsed_obj_iff.1 (hparsed.of_depth_le (Nat.le_of_lt_succ hdepth))
  have hshallow : outcome.Clean (Json.Parsed 126) :=
    clean_run (written_parsed (by norm_num)) (fun _ hf => Json.parsed_obj_iff.2 hf) hspare
      (fun _ _ k body _ hb => Json.parsed_obj_iff.1
        ((hbody _ k body hb).of_depth_le (Nat.le_of_lt_succ (hcoins _ k body rfl hb))))
      (fun _ _ _ k body _ hb => Json.parsed_obj_iff.1 (hbody _ k body hb)) stage h
  exact fun m hm => Nat.lt_succ_of_le (hshallow.values m hm).depth_le

theorem wire_readable_of_busy :
    parseRequest? (Json.obj (splitRequest 10 2 20 50)).text = some (splitRequest 10 2 20 50) ∧
      ∃ body, parseReply ((busy.run .rawEngine (splitRequest 10 2 20 50)).run {}).1.wire =
        .ok body := by
  obtain ⟨⟨hcanonical, hexact⟩, -⟩ := holds_plain_iff.1 (holds_splitRequest 10 2 20 50)
  obtain ⟨⟨hcanonical', hexact'⟩, -⟩ := holds_plain_iff.1 holds_busyReply
  have hread := parseRequest?_text_of_exact hcanonical hexact (by decide)
  refine ⟨hread, (wire_readable_iff hread ?_ .rawEngine {}).2 (by decide) ?_⟩
  · intro call h body hb
    cases hb
    exact ⟨_, parseReply_text_of_exact hcanonical' hexact' (by decide)⟩
  · intro call h body _ hb
    cases hb
    decide

/-- Arrays in arrays. -/
def nested : ℕ → Json
  | 0 => .null
  | n + 1 => .arr [nested n]

theorem whole_nested (n : ℕ) : (nested n).Whole := by
  induction n with
  | zero => exact Json.whole_null
  | succ n ih => exact Json.whole_arr_iff.2 (List.forall_mem_singleton.2 ih)

theorem depth_nested (n : ℕ) : (nested n).depth = n := by
  induction n with
  | zero => rfl
  | succ n ih => simp [nested, Json.depth, Json.depthItems, ih]

/-- One output paid with one coin that carries a note of so many arrays. -/
def noteRequest (room : ℕ) : Fields := [
  ("additions", additionsJson [⟨"xch1receive", 50⟩]),
  ("asset_id", .str "xch"),
  ("key_id", .str "key-main-1"),
  ("keyring_yaml_path", .str "keyring.yaml"),
  ("network", .str "testnet11"),
  ("receive_address", .str "xch1receive"),
  ("selected_coins", .arr [.obj [("amount", .ofUInt64 50), ("note", nested room)]])]

theorem parseRequest?_noteRequest {room : ℕ} (h : room ≤ 124) :
    parseRequest? (Json.obj (noteRequest room)).text = some (noteRequest room) := by
  have hrequest : (noteRequest room).Ascending :=
    Fields.ascending_of_keys (show _ = ["additions", "asset_id", "key_id", "keyring_yaml_path",
      "network", "receive_address", "selected_coins"] from rfl) (by decide)
  have hcoin : Fields.Ascending [("amount", .ofUInt64 50), ("note", nested room)] :=
    Fields.ascending_of_keys (show _ = ["amount", "note"] from rfl) (by decide)
  have hwhole : (Json.obj (noteRequest room)).Whole := by
    refine Json.whole_obj_iff.2 ⟨hrequest, ?_⟩
    simp [noteRequest, Json.whole_arr_iff, Json.whole_obj_iff, Fields.holds_iff,
      written_whole.additions, whole_nested, hcoin]
  refine parseRequest?_text_of_exact hwhole.1 hwhole.2 ?_
  have hadditions : (additionsJson [⟨"xch1receive", 50⟩]).depth = 2 := rfl
  simp [noteRequest, Json.depth, Json.depthMembers, Json.depthItems, hadditions, Json.ofUInt64,
    depth_nested, Json.maxDepth]
  omega

/-- A coin that leaves no room for containers can be read, but what the last stage reports of it
cannot. -/
theorem wire_unreadable_of_note :
    ¬ ∀ (s : Surroundings) (raw : String) (request : Fields), parseRequest? raw = some request →
      (∀ call h body, ((s.delegate call).run h).1 = .ok body →
        ∃ stdout, parseReply stdout = .ok body) →
      ∀ stage h, ∃ body, parseReply ((s.run stage request).run h).1.wire = .ok body := by
  intro hall
  let s : Surroundings := ⟨{}, anywhere, fun _ => return .error .invalidJson⟩
  have hrequest := parseRequest?_noteRequest (Nat.le_refl 124)
  obtain ⟨body, hbody⟩ := hall s _ _ hrequest (fun call h body hb => nomatch hb) .submit {}
  obtain ⟨fields, hf, hcoins⟩ : ∃ fields, toSignSubmit anywhere (noteRequest 124) = .ok fields ∧
      fields.get? "selected_coins" =
        some (.arr [.obj [("amount", .ofUInt64 50), ("note", nested 124)]]) := ⟨_, rfl, rfl⟩
  have hh : s.Hands (noteRequest 124) .submit {} .signSubmit fields {} := .submit hf
  have hget : Outcome.partial? ((s.run .submit (noteRequest 124)).run {}).1 "submit_request" =
      some (.obj fields) := by
    rw [run_of_hands hh]
    rfl
  have hdepth := Json.depth_lt_of_get? hcoins
  simp only [Json.depth, Json.depthItems, Json.depthMembers, depth_nested,
    Json.ofUInt64] at hdepth
  rw [Outcome.unreadable_of_partial hget hdepth] at hbody
  cases hbody

end Surroundings

end CoinRelay
