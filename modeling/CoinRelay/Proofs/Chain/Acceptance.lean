import CoinRelay.Proofs.Chain.Conservation

/-! # What one stage hands on the next one accepts

Every stage checks names, keyring, asset and plan anew. But whoever has read a job writes it in a
form that every later reader takes for the same job, so no request is refused late: what the first
stages let through gets as far as the engine. Only the network has to be named from the start, for
the worker does not ask for it. -/

namespace CoinRelay
open Handoff Text

/-- How a handoff arrives: as the object that was sent, or as what its text is read as. -/
inductive Delivered (sent : Fields) : Fields → Prop where
  | object : Delivered sent sent
  | text {got : Fields} (ha : sent.Ascending)
      (hr : parseRequest? (Json.obj sent).text = some got) : Delivered sent got

theorem Delivered.get?_eq {sent got : Fields} (hd : Delivered sent got) {key : String} {v : Json}
    (hv : v.reread? = some v) (hget : sent.get? key = some v) : got.get? key = some v := by
  cases hd with
  | object => exact hget
  | text ha hr => exact get?_of_parseRequest?_of_steady ha hr hv hget

namespace Handoff
variable {files : Files} {request fields sent got : Fields} {job : Job}

/-! ## Jobs that are handed on -/

/-- Who may sign, and a plan within its bounds. -/
structure Job.Valid (files : Files) (job : Job) : Prop where
  identity : job.identity.Valid files
  market : Trimmed job.marketId.toList
  plan : job.plan.Valid

/-- The fields of a request carry a job. -/
def Job.Carried (job : Job) (fields : Fields) : Prop :=
  ∀ m ∈ signingFields job.identity job.marketId job.plan.toJson, fields.get? m.1 = some m.2

theorem Job.valid_of_parse {policy : Plan.TargetPolicy}
    (h : Job.parse files request policy = .ok job) : job.Valid files := by
  obtain ⟨hi, hp, hm⟩ := Job.parse_eq_ok.1 h
  refine ⟨Identity.valid_of_parse hi, ?_, Plan.valid_of_parse hp⟩
  rw [hm]
  exact request.trimmed_text _

/-- **A job is read back** from a request that carries it. -/
theorem Job.Valid.parse (hv : job.Valid files) (hc : job.Carried fields)
    {policy : Plan.TargetPolicy} (hp : policy ≠ .derive) :
    Job.parse files fields policy = .ok job := by
  unfold Job.Carried at hc
  simp only [signingFields, List.mem_cons, List.not_mem_nil, or_false, forall_eq_or_imp,
    forall_eq] at hc
  obtain ⟨hasset, hkey, hkeyring, hmarket, hnetwork, hplan, haddress⟩ := hc
  refine Job.parse_eq_ok.2 ⟨hv.identity.parse ?_, hv.plan.parse hplan fun h => absurd h hp, ?_⟩
  · simp only [Identity.toFields, List.mem_cons, List.not_mem_nil, or_false, forall_eq_or_imp,
      forall_eq]
    exact ⟨hasset, hkey, hkeyring, hnetwork, haddress⟩
  · exact (Fields.text_of_get?_str hmarket hv.market).symm

theorem Job.carried_append (job : Job) (more : Fields) :
    job.Carried (signingFields job.identity job.marketId job.plan.toJson ++ more) := by
  intro m hm
  simp only [signingFields, List.mem_cons, List.not_mem_nil, or_false] at hm
  rcases hm with rfl | rfl | rfl | rfl | rfl | rfl | rfl <;>
    simp [signingFields, Fields.get?_cons]

/-- A job arrives as it was sent: it consists of texts and a plan. -/
theorem Job.Carried.delivered (hc : job.Carried sent) (hd : Delivered sent got) :
    job.Carried got := by
  intro m hm
  refine hd.get?_eq ?_ (hc m hm)
  simp only [signingFields, List.mem_cons, List.not_mem_nil, or_false] at hm
  rcases hm with rfl | rfl | rfl | rfl | rfl | rfl | rfl <;>
    first
    | exact job.plan.reread?_toJson
    | rfl

/-! ## What worker and engine promise -/

/-- The worker hands on a job, if a network is named. -/
theorem toSigner_carries (h : toSigner files request = .ok fields)
    (hnetwork : request.text "network" ≠ "") :
    ∃ job : Job, job.Valid files ∧ job.Carried fields ∧
      ∃ source, fields.get? "selected_source" = some (.str source) ∧ Trimmed source.toList ∧
        KeySource.ofName? source = some .chiaKeys := by
  obtain ⟨signer, plan, hsource, -, hkey, -, haddress, hpath, hasset, hplan, rfl⟩ :=
    toSigner_eq_ok.1 h
  refine ⟨⟨⟨request.text "key_id", request.text "network", request.text "receive_address",
    signer.text "keyring_yaml_path", lowerAscii (request.text "asset_id")⟩,
    request.text "market_id", plan⟩, ⟨⟨?_, ?_, hpath, hasset⟩, request.trimmed_text _,
    Plan.valid_of_parse hplan⟩, ?_, _, rfl, request.trimmed_text _, hsource⟩
  · simp only [List.mem_cons, List.not_mem_nil, or_false, forall_eq_or_imp, forall_eq]
    exact ⟨hkey, hnetwork, haddress⟩
  · simp only [List.mem_cons, List.not_mem_nil, or_false]
    rintro t (rfl | rfl | rfl | rfl) <;> exact Fields.trimmed_text ..
  · intro m hm
    simp only [signingFields, List.mem_cons, List.not_mem_nil, or_false] at hm
    rcases hm with rfl | rfl | rfl | rfl | rfl | rfl | rfl <;>
      simp [signerFields, Fields.get?_cons]

/-- With a network named, the signer reads the same job and hands it on in turn. -/
theorem toBackend_of_toSigner (h : toSigner files request = .ok fields)
    (hnetwork : request.text "network" ≠ "") (hd : Delivered fields got) :
    ∃ job : Job, job.Carried fields ∧
      toBackend files got = .ok (signingFields job.identity job.marketId job.plan.toJson) := by
  obtain ⟨job, hv, hc, name, hget, hname, hsource⟩ := toSigner_carries h hnetwork
  have hgot : got.text "selected_source" = name :=
    Fields.text_of_get?_str (hd.get?_eq rfl hget) hname
  have hread : Job.parse files got .deriveWhenAbsent = .ok job :=
    hv.parse (hc.delivered hd) (by decide)
  exact ⟨job, hc, toBackend_eq_ok.2 ⟨by rw [hgot]; exact hsource, job, hread, rfl⟩⟩

/-- Without one the signer looks no further. -/
theorem toBackend_of_no_network
    (hsource : KeySource.ofName? (request.text "selected_source") = some .chiaKeys)
    (hnetwork : request.text "network" = "") :
    toBackend files request = .error .missingKeyOrNetwork := by
  have hkeyring : requireKeyring request = .ok () := requireKeyring_eq_ok.2 hsource
  have hpresent : requirePresent [request.text "key_id", request.text "network"]
      .missingKeyOrNetwork = .error .missingKeyOrNetwork := by
    simp [requirePresent, hnetwork]
  simp only [toBackend, hkeyring, hpresent, bind, Except.bind]

/-- The engine accepts a request, with this job and coins that are worth this much. -/
def EngineAccepts (files : Files) (request : Fields) (job : Job) (total : Amount) : Prop :=
  ∃ selection submission, Job.parse files request .required = .ok job ∧
    requestCoins request = .ok selection ∧ selection.total = total ∧
    toSubmission files request = .ok submission ∧
    submission.get? "plan" = some job.plan.toJson ∧
    submission.get? "selected_total_base_units" = some (.ofUInt64 total)

theorem engineAccepts_of_carried {selection : Selection} (hv : job.Valid files)
    (hc : job.Carried request)
    (hcoins : request.get? "selected_coins" = some selection.toJson)
    (htarget : job.plan.target ≤ selection.total) :
    EngineAccepts files request job selection.total := by
  have hj : Job.parse files request .required = .ok job := hv.parse hc (by decide)
  have hs : requestCoins request = .ok selection := requestCoins_eq_ok.2 hcoins
  have hr : selection.resolve job.plan.target = .ok ⟨selection.total, job.plan.target, htarget⟩ :=
    Selection.resolve_eq_ok.2 ⟨rfl, rfl⟩
  exact ⟨selection, _, hj, hs, rfl, toSubmission_eq_ok.2 ⟨job, selection, _, hj, hs, hr, rfl⟩,
    job.get?_plan .., job.get?_total ..⟩

end Handoff

namespace Surroundings
variable {s : Surroundings} {request : Fields}

/-! ## From stage to stage -/

theorem signer_accepts {source : KeySource} {payload received fields got : Fields}
    (hroute : toExecutor request = .ok (source, payload)) (hpayload : Delivered payload received)
    (hworker : toSigner s.files received = .ok fields) (hd : Delivered fields got) :
    ∃ next, toBackend s.files got = .ok next := by
  obtain ⟨-, hnetwork, -, rfl⟩ := toExecutor_eq_ok.1 hroute
  -- route has checked the network, which the worker does not
  have hreceived : received.text "network" = request.text "network" :=
    Fields.text_of_get?_str (hpayload.get?_eq rfl (Fields.get?_insert_self ..))
      (request.trimmed_text _)
  obtain ⟨job, -, hnext⟩ := toBackend_of_toSigner hworker (by rw [hreceived]; exact hnetwork) hd
  exact ⟨_, hnext⟩

theorem builder_reads {fields got : Fields} (hsigner : toBackend s.files request = .ok fields)
    (hd : Delivered fields got) :
    ∃ job, Job.parse s.files request .deriveWhenAbsent = .ok job ∧
      fields = signingFields job.identity job.marketId job.plan.toJson ∧
      Job.parse s.files got .deriveWhenAbsent = .ok job := by
  obtain ⟨-, job, hj, rfl⟩ := toBackend_eq_ok.1 hsigner
  have hc : job.Carried (signingFields job.identity job.marketId job.plan.toJson) := by
    simpa using job.carried_append []
  exact ⟨job, hj, rfl, (Job.valid_of_parse hj).parse (hc.delivered hd) (by decide)⟩

theorem engine_accepts {h h' : History} {hop : Hop} {fields : Fields}
    (hh : s.Hands request .builder h hop fields h') :
    ∃ job selection, Job.parse s.files request .deriveWhenAbsent = .ok job ∧
      (s.coinsFor request job).run h = (.ok selection, h') ∧
      EngineAccepts s.files fields job selection.total ∧
      ∀ got, Delivered fields got →
        (∀ coin ∈ selection.coins, coin.Canonical ∧ coin.Settled) →
          EngineAccepts s.files got job selection.total := by
  cases hh with
  | @builder job selection _ _ _ hj hcoins hf =>
    obtain ⟨⟨resolved, hr⟩, rfl⟩ := toBundleSigner_eq_ok.1 hf
    obtain ⟨hselected, htarget⟩ := Selection.resolve_eq_ok.1 hr
    have hcovered : job.plan.target ≤ selection.total := by
      rw [← hselected, ← htarget]
      exact resolved.target_le_selected
    have hv := Job.valid_of_parse hj
    have hc := job.carried_append [("selected_coins", selection.toJson)]
    have hget : Fields.get? (signingFields job.identity job.marketId job.plan.toJson ++
        [("selected_coins", selection.toJson)]) "selected_coins" = some selection.toJson := by
      simp [signingFields, Fields.get?_cons]
    have haccepts := engineAccepts_of_carried hv hc hget hcovered
    refine ⟨job, selection, hj, hcoins, haccepts, ?_⟩
    intro got hd hsettled
    cases hd with
    | object => exact haccepts
    | text ha hr =>
      obtain ⟨again, hagain, hexact, -, -⟩ := exists_coins_of_parseRequest? ha hr hget
        (fun coin hcoin => (hsettled coin hcoin).1) fun coin hcoin => (hsettled coin hcoin).2
      have htotal : again.total = selection.total := by
        rw [← UInt64.toNat_inj, Selection.toNat_total, Selection.toNat_total, hexact]
      rw [← htotal]
      exact engineAccepts_of_carried hv (hc.delivered (.text ha hr)) hagain (htotal ▸ hcovered)

/-- **No late rejection.** What route and worker let through, the signer accepts. What the signer
accepts, the builder reads as the same job. What the builder hands on, wherever it has the coins
from, the engine accepts with the same job and the same total. A handoff may arrive as an object or
as text; as text its coins count for the same once their amounts are settled. -/
theorem accepted_downstream (s : Surroundings) (request : Fields) :
    (∀ source payload received fields got, toExecutor request = .ok (source, payload) →
      Delivered payload received → toSigner s.files received = .ok fields → Delivered fields got →
        ∃ next, toBackend s.files got = .ok next) ∧
    (∀ fields got, toBackend s.files request = .ok fields → Delivered fields got →
      ∃ job, Job.parse s.files request .deriveWhenAbsent = .ok job ∧
        fields = signingFields job.identity job.marketId job.plan.toJson ∧
        Job.parse s.files got .deriveWhenAbsent = .ok job) ∧
    ∀ h hop fields h', s.Hands request .builder h hop fields h' →
      ∃ job selection, Job.parse s.files request .deriveWhenAbsent = .ok job ∧
        (s.coinsFor request job).run h = (.ok selection, h') ∧
        EngineAccepts s.files fields job selection.total ∧
        ∀ got, Delivered fields got →
          (∀ coin ∈ selection.coins, coin.Canonical ∧ coin.Settled) →
            EngineAccepts s.files got job selection.total := by
  refine ⟨?_, ?_, ?_⟩
  · intro source payload received fields got hroute hpayload hworker hd
    exact signer_accepts hroute hpayload hworker hd
  · intro fields got hsigner hd
    exact builder_reads hsigner hd
  · intro h hop fields h' hh
    exact engine_accepts hh

section
open Chain

theorem delivered_of_plain {fields : Fields} (h : fields.Holds Plain) :
    Delivered fields fields := by
  obtain ⟨⟨hcanonical, hexact⟩, hdepth⟩ := holds_plain_iff.1 h
  exact .text h.ascending (parseRequest?_text_of_exact hcanonical hexact (hdepth.trans (by decide)))

theorem accepted_downstream_of_keyring :
    (∃ next, toBackend anywhere Keyring.toSigner = .ok next) ∧
    Job.parse anywhere Keyring.toBackend .deriveWhenAbsent = .ok Keyring.job ∧
    EngineAccepts anywhere Keyring.toBundleSigner Keyring.job Keyring.coins.total := by
  refine ⟨?_, ?_, ?_⟩
  · exact (accepted_downstream stocked Keyring.request).1 .chiaKeys Keyring.request _ _ _ rfl
      (delivered_of_plain Keyring.holds_request) rfl (delivered_of_plain Keyring.holds_toSigner)
  · obtain ⟨job, hsent, -, hread⟩ := (accepted_downstream stocked Keyring.toSigner).2.1
      Keyring.toBackend _ rfl (delivered_of_plain Keyring.holds_toBackend)
    obtain rfl : Keyring.job = job := Except.ok.inj hsent
    exact hread
  · have hjob : Job.parse anywhere Keyring.toBackend .deriveWhenAbsent = .ok Keyring.job := rfl
    have hfound :
        (stocked.coinsFor Keyring.toBackend Keyring.job).run {} = (.ok Keyring.coins, _) := rfl
    have hh : stocked.Hands Keyring.toBackend .builder {} .bundleSigner Keyring.toBundleSigner _ :=
      .builder hjob hfound rfl
    obtain ⟨job, selection, hj, hcoins, -, htext⟩ :=
      (accepted_downstream stocked Keyring.toBackend).2.2 _ _ _ _ hh
    obtain rfl : Keyring.job = job := Except.ok.inj hj
    obtain rfl : Keyring.coins = selection := Except.ok.inj (congrArg Prod.fst hcoins)
    refine htext _ (delivered_of_plain Keyring.holds_toBundleSigner) ?_
    intro coin hcoin
    rw [List.mem_singleton.1 hcoin]
    refine ⟨⟨List.pairwise_singleton _ _, trivial, trivial⟩, ?_⟩
    intro members x hmembers hx
    cases hmembers
    cases hx

end

end Surroundings

namespace Handoff
open Chain
variable {files : Files} {request fields got : Fields}

/-! ## The worker alone -/

/-- **The worker leaves one check to the signer.** Whoever sent the request, what the worker hands
on the signer accepts as the same job if a network is named, and otherwise refuses for the lack of
one. -/
theorem worker_handoff_accepted (hworker : toSigner files request = .ok fields)
    (hd : Delivered fields got) :
    (request.text "network" ≠ "" → ∃ job : Job, job.Carried fields ∧
      toBackend files got = .ok (signingFields job.identity job.marketId job.plan.toJson)) ∧
    (request.text "network" = "" → toBackend files got = .error .missingKeyOrNetwork) := by
  refine ⟨fun hnetwork => toBackend_of_toSigner hworker hnetwork hd, ?_⟩
  intro hnetwork
  obtain ⟨signer, plan, hsource, -, -, -, -, -, -, -, rfl⟩ := toSigner_eq_ok.1 hworker
  have hgot : ∀ key, Fields.get? (signerFields request signer plan) key =
      some (.str (request.text key)) → got.text key = request.text key :=
    fun key hget => Fields.text_of_get?_str (hd.get?_eq rfl hget) (request.trimmed_text key)
  refine toBackend_of_no_network ?_ ?_
  · rw [hgot "selected_source" rfl]
    exact hsource
  · rw [hgot "network" rfl, hnetwork]

theorem worker_handoff_accepted_of_keyring :
    toSigner anywhere Keyring.request = .ok Keyring.toSigner ∧
      Delivered Keyring.toSigner Keyring.toSigner ∧
      ∃ job : Job, job.Carried Keyring.toSigner ∧ toBackend anywhere Keyring.toSigner =
        .ok (signingFields job.identity job.marketId job.plan.toJson) := by
  have hworker : toSigner anywhere Keyring.request = .ok Keyring.toSigner := rfl
  have hd := Surroundings.delivered_of_plain Keyring.holds_toSigner
  exact ⟨hworker, hd, (worker_handoff_accepted hworker hd).1 (by decide)⟩

/-- The worker hands on what the signer refuses. -/
theorem worker_handoff_refused_of_no_network :
    toSigner anywhere (Fields.erase Keyring.request "network") =
        .ok (Fields.insert Keyring.toSigner "network" (.str "")) ∧
      toBackend anywhere (Fields.insert Keyring.toSigner "network" (.str "")) =
        .error .missingKeyOrNetwork :=
  ⟨rfl, rfl⟩

end Handoff

end CoinRelay
