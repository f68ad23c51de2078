import CoinRelay.Proofs.Handoff.Submission

/-! # What the stages hand on

Every handoff is a request of its own: its keys are in order, and whoever reads it finds the plan
that was read before. -/

namespace CoinRelay
open Text

namespace Handoff

/-! ## Routed requests -/

/-- A request with its source, key and network in the form in which they were checked. -/
def routed (request : Fields) (source : KeySource) : Fields :=
  ((request.insert "selected_source" (.str source.name)).insert
    "key_id" (.str (request.text "key_id"))).insert "network" (.str (request.text "network"))

theorem toExecutor_eq_ok {request fields : Fields} {source : KeySource} :
    toExecutor request = .ok (source, fields) ↔
      request.text "key_id" ≠ "" ∧ request.text "network" ≠ "" ∧
      KeySource.ofName? (request.text "selected_source") = some source ∧
      fields = routed request source := by
  simp only [toExecutor, bind_eq_ok, requirePresent_eq_ok, List.mem_cons, List.not_mem_nil,
    or_false, forall_eq_or_imp, forall_eq]
  constructor
  · rintro ⟨-, -, -, ⟨hkey, hnetwork⟩, h⟩
    split at h
    · cases h
    · next hsource =>
      cases h
      exact ⟨hkey, hnetwork, hsource, rfl⟩
  · rintro ⟨hkey, hnetwork, hsource, rfl⟩
    have hpresent : request.text "selected_source" ≠ "" := by
      intro hempty
      rw [hempty] at hsource
      exact absurd hsource (by cases source <;> decide)
    rw [hsource]
    exact ⟨(), hpresent, (), ⟨hkey, hnetwork⟩, rfl⟩

/-! ## Keys in order -/

theorem ascending_toExecutor {request fields : Fields} {source : KeySource}
    (hr : request.Ascending) (h : toExecutor request = .ok (source, fields)) :
    fields.Ascending ∧ fields.get? "selected_source" = some (.str source.name) := by
  obtain ⟨-, -, -, rfl⟩ := toExecutor_eq_ok.1 h
  refine ⟨((hr.insert _ _).insert _ _).insert _ _, ?_⟩
  rw [routed, Fields.get?_insert_of_ne _ _ (by decide), Fields.get?_insert_of_ne _ _ (by decide),
    Fields.get?_insert_self]

theorem ascending_signingFields (identity : Identity) (marketId : String) (plan : Json) :
    (signingFields identity marketId plan).Ascending :=
  Fields.ascending_of_keys (show _ = ["asset_id", "key_id", "keyring_yaml_path", "market_id",
    "network", "plan", "receive_address"] from rfl) (by decide)

theorem ascending_toSelector (job : Job) : (toSelector job).Ascending :=
  Fields.ascending_of_keys (show _ = ["asset_id", "network", "receive_address",
    "target_total_base_units"] from rfl) (by decide)

theorem Job.ascending_submission (job : Job) (selection : Selection)
    (resolved : Selection.Resolved) : (job.submission selection resolved).Ascending :=
  Fields.ascending_of_keys (show _ = ["additions", "asset_id", "key_id", "keyring_yaml_path",
    "market_id", "network", "plan", "receive_address", "selected_coins",
    "selected_total_base_units"] from rfl) (by decide)

theorem ascending_signSubmission (request : Fields) (identity : Identity) (additions : List Output)
    (selection : Selection) : (signSubmission request identity additions selection).Ascending :=
  Fields.ascending_of_keys (show _ = ["additions", "asset_id", "key_id", "keyring_yaml_path",
    "market_id", "network", "plan", "receive_address", "selected_coins"] from rfl)
    (by decide)

/-! ## Key sources -/

theorem ofName?_name (source : KeySource) : KeySource.ofName? source.name = some source := by
  cases source <;> decide

theorem trimmed_name (source : KeySource) : Trimmed source.name.toList := by
  cases source <;> exact trimmed_of_any (by decide)

theorem requireKeyring_eq_ok {request : Fields} {u : Unit} : requireKeyring request = .ok u ↔
    KeySource.ofName? (request.text "selected_source") = some .chiaKeys := by
  unfold requireKeyring
  split
  · next h => simp [h]
  · next h => simp [h]

/-- Who requires the keyring refuses a request that was routed elsewhere. -/
theorem source_of_requireKeyring {request : Fields} {source : KeySource} {u : Unit}
    (hget : request.get? "selected_source" = some (.str source.name))
    (h : requireKeyring request = .ok u) : source = .chiaKeys := by
  have hname := requireKeyring_eq_ok.1 h
  rw [Fields.text_of_get?_str hget (trimmed_name source), ofName?_name] at hname
  exact Option.some.inj hname

/-! ## What the stages accept and hand on -/

/-- The worker's handoff, once everything is checked. -/
def signerFields (request signer : Fields) (plan : Plan) : Fields := [
  ("asset_id", .str (lowerAscii (request.text "asset_id"))),
  ("chia_keys_dir", .str (signer.text "chia_keys_dir")),
  ("key_id", .str (request.text "key_id")),
  ("keyring_yaml_path", .str (signer.text "keyring_yaml_path")),
  ("market_id", .str (request.text "market_id")),
  ("network", .str (request.text "network")),
  ("plan", plan.toJson),
  ("receive_address", .str (request.text "receive_address")),
  ("selected_source", .str (request.text "selected_source"))]

theorem ascending_signerFields (request signer : Fields) (plan : Plan) :
    (signerFields request signer plan).Ascending :=
  Fields.ascending_of_keys (show _ = ["asset_id", "chia_keys_dir", "key_id", "keyring_yaml_path",
    "market_id", "network", "plan", "receive_address", "selected_source"] from rfl)
    (by decide)

/-- The worker checks its key against the signer that is selected, but not the network. -/
theorem toSigner_eq_ok {files : Files} {request fields : Fields} :
    toSigner files request = .ok fields ↔ ∃ signer plan,
      KeySource.ofName? (request.text "selected_source") = some .chiaKeys ∧
      request.objectAt? "signer_selection" = some signer ∧
      request.text "key_id" ≠ "" ∧ request.text "key_id" = signer.text "key_id" ∧
      request.text "receive_address" ≠ "" ∧
      (signer.text "keyring_yaml_path" ≠ "" ∧
        files.holds (expandHome files.home (signer.text "keyring_yaml_path")) = true) ∧
      lowerAscii (request.text "asset_id") ∈ nativeAssetIds ∧
      Plan.parse request .derive = .ok plan ∧ fields = signerFields request signer plan := by
  constructor
  · intro h
    simp only [toSigner, bind_eq_ok, requireKeyring_eq_ok] at h
    obtain ⟨-, hsource, h⟩ := h
    split at h
    · cases h
    · next signer hsigner =>
      split at h
      · cases h
      · next hkey =>
        simp only [bind_eq_ok, requirePresent_eq_ok, keyringLocator_eq_ok, nativeAsset_eq_ok] at h
        obtain ⟨-, haddress, path, ⟨rfl, hpath⟩, asset, ⟨rfl, hasset⟩, plan, hplan, h⟩ := h
        cases h
        simp only [Bool.or_eq_true, not_or, String.isEmpty_iff, bne_iff_ne, ne_eq,
          not_not] at hkey
        exact ⟨signer, plan, hsource, hsigner, hkey.1, hkey.2, haddress _ (by simp), hpath, hasset,
          hplan, rfl⟩
  · rintro ⟨signer, plan, hsource, hsigner, hkey, hsame, haddress, hpath, hasset, hplan, rfl⟩
    have hchecked : ¬ ((request.text "key_id").isEmpty ||
        request.text "key_id" != signer.text "key_id") = true := by
      simp only [Bool.or_eq_true, not_or, String.isEmpty_iff, bne_iff_ne, ne_eq, not_not]
      exact ⟨hkey, hsame⟩
    simp only [toSigner, bind_eq_ok, requireKeyring_eq_ok, hsigner, if_neg hchecked,
      requirePresent_eq_ok, keyringLocator_eq_ok, nativeAsset_eq_ok]
    exact ⟨(), hsource, (), by simpa using haddress, _, ⟨rfl, hpath⟩, _, ⟨rfl, hasset⟩, plan,
      hplan, rfl⟩

/-- The signer hands on the job that it reads, which is an identity and a plan. -/
theorem toBackend_eq_ok {files : Files} {request fields : Fields} :
    toBackend files request = .ok fields ↔
      KeySource.ofName? (request.text "selected_source") = some .chiaKeys ∧
      ∃ job, Job.parse files request .deriveWhenAbsent = .ok job ∧
        fields = signingFields job.identity job.marketId job.plan.toJson := by
  simp only [toBackend, Job.parse, Identity.parse, bind_eq_ok, requireKeyring_eq_ok,
    requirePresent_eq_ok, pure, Except.pure, Except.ok.injEq]
  constructor
  · rintro ⟨-, hsource, -, hnames, -, haddress, path, hpath, asset, hasset, plan, hplan, rfl⟩
    refine ⟨hsource, _, ⟨_, ⟨(), ?_, path, hpath, asset, hasset, rfl⟩, plan, hplan, rfl⟩, rfl⟩
    simp only [List.mem_cons, List.not_mem_nil, or_false, forall_eq_or_imp, forall_eq]
      at hnames haddress ⊢
    exact ⟨hnames.1, hnames.2, haddress⟩
  · rintro ⟨hsource, -, ⟨-, ⟨-, hnames, path, hpath, asset, hasset, rfl⟩, plan, hplan, rfl⟩, rfl⟩
    simp only [List.mem_cons, List.not_mem_nil, or_false, forall_eq_or_imp, forall_eq] at hnames
    refine ⟨(), hsource, (), ?_, (), ?_, path, hpath, asset, hasset, plan, hplan, rfl⟩
    · simpa using ⟨hnames.1, hnames.2.1⟩
    · simpa using hnames.2.2

theorem toBundleSigner_eq_ok {job : Job} {selection : Selection} {fields : Fields} :
    toBundleSigner job selection = .ok fields ↔
      (∃ resolved, selection.resolve job.plan.target = .ok resolved) ∧
        fields = signingFields job.identity job.marketId job.plan.toJson ++
          [("selected_coins", selection.toJson)] := by
  simp only [toBundleSigner, bind_eq_ok, pure, Except.pure, Except.ok.injEq]
  constructor
  · rintro ⟨resolved, hr, rfl⟩
    exact ⟨⟨resolved, hr⟩, rfl⟩
  · rintro ⟨⟨resolved, hr⟩, rfl⟩
    exact ⟨resolved, hr, rfl⟩

/-! ## Plans on their way -/

/-- Whoever reads the plan of a request under a policy finds a derived target. -/
def PlanDerived (policy : Plan.TargetPolicy) (request : Fields) : Prop :=
  ∀ plan, Plan.parse request policy = .ok plan → plan.TargetDerived

theorem planDerived_of_get? {request : Fields} {plan : Plan} {policy : Plan.TargetPolicy}
    (hv : plan.Valid) (hd : plan.TargetDerived) (hget : request.get? "plan" = some plan.toJson) :
    PlanDerived policy request := by
  intro found hfound
  rw [hv.parse hget fun _ => hd] at hfound
  cases hfound
  exact hd

/-- What the next stage receives of a request that carries a plan with a derived target. -/
theorem planDerived_of_parseRequest? {fields received : Fields} {plan : Plan}
    {policy : Plan.TargetPolicy} (ha : fields.Ascending)
    (h : parseRequest? (Json.obj fields).text = some received)
    (hv : plan.Valid) (hd : plan.TargetDerived) (hget : fields.get? "plan" = some plan.toJson) :
    PlanDerived policy received :=
  planDerived_of_get? hv hd (get?_of_parseRequest?_of_steady ha h plan.reread?_toJson hget)

/-- The worker writes the plan with its target derived. -/
theorem toSigner_plan {files : Files} {request fields : Fields}
    (h : toSigner files request = .ok fields) :
    fields.Ascending ∧ ∃ plan, Plan.parse request .derive = .ok plan ∧
      fields.get? "plan" = some plan.toJson := by
  obtain ⟨signer, plan, -, -, -, -, -, -, -, hplan, rfl⟩ := toSigner_eq_ok.1 h
  refine ⟨ascending_signerFields .., plan, hplan, ?_⟩
  simp [signerFields, Fields.get?_cons]

theorem toBackend_plan {files : Files} {request fields : Fields}
    (h : toBackend files request = .ok fields) :
    fields.Ascending ∧ requireKeyring request = .ok () ∧
      ∃ plan, Plan.parse request .deriveWhenAbsent = .ok plan ∧
        fields.get? "plan" = some plan.toJson := by
  obtain ⟨hsource, job, hj, rfl⟩ := toBackend_eq_ok.1 h
  refine ⟨ascending_signingFields .., requireKeyring_eq_ok.2 hsource, job.plan,
    (Job.parse_eq_ok.1 hj).2.1, ?_⟩
  simp [signingFields, Fields.get?_cons]

theorem toBundleSigner_plan {job : Job} {selection : Selection} {fields : Fields}
    (h : toBundleSigner job selection = .ok fields) :
    fields.Ascending ∧ fields.get? "plan" = some job.plan.toJson := by
  obtain ⟨-, rfl⟩ := toBundleSigner_eq_ok.1 h
  refine ⟨Fields.ascending_of_keys (show _ = ["asset_id", "key_id", "keyring_yaml_path",
    "market_id", "network", "plan", "receive_address", "selected_coins"] from rfl)
    (by decide), ?_⟩
  simp [signingFields, Fields.get?_cons]

end Handoff

end CoinRelay
