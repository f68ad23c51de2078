import CoinRelay.Proofs.Relay.Reported

/-! # What a stage sends is what is received

A request travels as text. A handoff copies what was read and adds little of its own, so it nests no
deeper than a text may and its doubles are those that were read: the other side reads the very
fields that were sent. -/

namespace CoinRelay
open Handoff

/-- The text of the call is read as the fields that were sent. -/
def Call.Received (call : Call) : Prop :=
  ∃ fields, call.request = .obj fields ∧ (Json.obj fields).depth ≤ Json.maxDepth ∧
    parseRequest? call.request.text = some fields

/-- A value of a request that was read, with doubles that are read back as they are. -/
def Json.Kept (v : Json) : Prop := v.Parsed 126 ∧ v.Steady

theorem written_kept : Written Json.Kept :=
  (written_parsed (by norm_num)).and (written_allDoubles _)

theorem Json.holds_kept {fields : Fields} (h : (Json.obj fields).Parsed Json.maxDepth)
    (hs : (Json.obj fields).Steady) : fields.Holds Json.Kept := by
  have hparsed := Json.parsed_obj_iff.1 h
  have hsteady := Json.allDoublesMembers_iff.1 hs
  exact ⟨hparsed.ascending, fun m hm => ⟨hparsed.values m hm, hsteady m hm⟩⟩

theorem received_of_kept {fields : Fields} (h : fields.Holds Json.Kept) (hop : Hop)
    (command : CommandLine) (timeout : Duration) :
    Call.Received ⟨hop, command, .obj fields, timeout⟩ := by
  have hparsed : (Json.obj fields).Parsed Json.maxDepth :=
    Json.parsed_obj_iff.2 (h.mono fun _ hv => hv.1)
  have hsteady : (Json.obj fields).Steady :=
    Json.allDoublesMembers_iff.2 fun m hm => (h.values m hm).2
  exact ⟨fields, rfl, hparsed.depth_le,
    parseRequest?_text_of_steady hparsed.canonical hsteady hparsed.depth_le⟩

namespace Surroundings
variable {s : Surroundings} {raw : String} {request : Fields}

/-- **What a stage sends is what is received.** The request and the coins that are answered were
read from text; doubles are taken to be read back as they are. The delegate may make calls of its
own, as a stage behind this one does, if what it receives leads to calls that are received too. -/
theorem calls_received (hr : parseRequest? raw = some request) (hs : (Json.obj request).Steady)
    (hcoins : ∀ call h body, call.hop = .coinSelector → ((s.delegate call).run h).1 = .ok body →
      (∃ stdout, parseReply stdout = .ok body) ∧ (Json.obj body).Steady)
    (hbehind : ∀ call h, call.Received → ∀ c ∈ ((s.delegate call).run h).2.calls,
      c ∈ h.calls ∨ c.Received)
    (stage : Stage) (h : History) :
    ∀ call ∈ ((s.run stage request).run h).2.calls, call ∈ h.calls ∨ call.Received := by
  have hrequest := Json.holds_kept (parsed_of_parseRequest? hr) hs
  have hanswers : s.AnswersOn .coinSelector Json.Kept Json.Kept := by
    intro fields command k body _ hb
    obtain ⟨⟨stdout, hstdout⟩, hsteady⟩ := hcoins _ k body rfl hb
    exact Json.holds_kept (parsed_of_parseReply hstdout) hsteady
  have hsafe : ∀ hop fields, fields.Holds Json.Kept →
      s.Safe (fun call => call ∈ h.calls ∨ call.Received) hop fields := by
    intro hop fields hf command _
    have hreceived := received_of_kept hf hop command s.config.timeout
    refine ⟨.inr hreceived, fun k hcalls call hcall => ?_⟩
    rcases hbehind _ k hreceived call hcall with hbefore | hnew
    · exact hcalls call hbefore
    · exact .inr hnew
  -- the old calls may be anything, so the invariant leaves them alone
  refine records_run_of_hands (fun job _ => ?_) (fun k hop fields k' hh => ?_) h fun _ => .inl
  · exact hsafe _ _ (holds_toSelector written_kept job)
  · exact hsafe _ _ (hh.holds written_kept hrequest hanswers)

/-- What a selector answers that has one coin of 50. -/
def coinReply : Fields := [("coins", .arr [.obj [("amount", .ofUInt64 50)]])]

/-- Whoever is asked for coins has one, and everyone else is busy. -/
def stockedReply (call : Call) : Fields :=
  if call.hop = .coinSelector then coinReply else busyReply

def stocked : Surroundings where
  config := { commands := fun _ => some "child" }
  files := anywhere
  delegate := fun call => pure (.ok (stockedReply call))

theorem holds_coinReply : coinReply.Holds Plain := by
  have hcoin : Fields.Ascending [("amount", .ofUInt64 50)] := List.pairwise_singleton _ _
  refine holds_plain_iff.2 ⟨Json.whole_obj_iff.2 ⟨List.pairwise_singleton _ _, ?_⟩, by decide⟩
  simp [coinReply, Json.whole_arr_iff, Json.whole_obj_iff, Fields.holds_iff, hcoin]

theorem holds_stockedReply (call : Call) : (stockedReply call).Holds Plain := by
  unfold stockedReply
  split
  · exact holds_coinReply
  · exact holds_busyReply

/-- A request to split coins that are still to be found. -/
def coinlessRequest : Fields := (splitRequest 10 2 20 50).erase "selected_coins"

theorem calls_received_of_stocked :
    let calls := ((stocked.run .builder coinlessRequest).run {}).2.calls
    calls.map Call.hop = [.coinSelector, .bundleSigner] ∧ ∀ call ∈ calls, call.Received := by
  have hrequest : coinlessRequest.Holds Plain := (holds_splitRequest 10 2 20 50).erase _
  obtain ⟨⟨hcanonical, hexact⟩, hdepth⟩ := holds_plain_iff.1 hrequest
  have hread := parseRequest?_text_of_exact hcanonical hexact (hdepth.trans (by decide))
  have hcoins : ∀ call h body, call.hop = .coinSelector →
      ((stocked.delegate call).run h).1 = .ok body →
        (∃ stdout, parseReply stdout = .ok body) ∧ (Json.obj body).Steady := by
    intro call h body _ hb
    cases hb
    obtain ⟨⟨hcanonical, hexact⟩, hdepth⟩ := holds_plain_iff.1 (holds_stockedReply call)
    exact ⟨⟨_, parseReply_text_of_exact hcanonical hexact (hdepth.trans (by decide))⟩,
      hexact.allDoubles⟩
  intro calls
  refine ⟨rfl, fun call hcall => ?_⟩
  have hreceived := calls_received hread hexact.allDoubles hcoins
    (fun _ _ _ _ hc => .inl hc) .builder {}
  exact (hreceived call hcall).resolve_left List.not_mem_nil

end Surroundings

end CoinRelay
