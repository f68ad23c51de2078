import CoinRelay.Proofs.Relay.Received

/-! # What a stage reads

Behind the route no stage takes a request as it is. Each one reads fixed fields, and of a plan or a
signer that is selected the fields that it needs; two requests with the same values there are the
same to it. So nothing that a stage derives can be given to it by its caller, and nothing that it
does not know can reach whoever answers it. -/

namespace CoinRelay
open Handoff

/-! ## Agreement -/

namespace Fields
variable {keys keys' : List String} {a b : Fields} {key : String}

/-- Both have the same values under the keys, or none. -/
def AgreeOn (keys : List String) (a b : Fields) : Prop := ∀ key ∈ keys, a.get? key = b.get? key

/-- Both have the same values under all other keys, or none. -/
def AgreeApartFrom (keys : List String) (a b : Fields) : Prop :=
  ∀ key ∉ keys, a.get? key = b.get? key

/-- The objects under a key agree, or neither has an object there. -/
def AgreeInside (key : String) (keys : List String) (a b : Fields) : Prop :=
  Option.Rel (AgreeOn keys) (a.objectAt? key) (b.objectAt? key)

theorem AgreeOn.mono (h : AgreeOn keys a b) (hsub : keys' ⊆ keys) : AgreeOn keys' a b :=
  fun key hk => h key (hsub hk)

theorem AgreeApartFrom.agreeOn (h : AgreeApartFrom keys a b) (hd : ∀ key ∈ keys', key ∉ keys) :
    AgreeOn keys' a b :=
  fun key hk => h key (hd key hk)

/-- Whoever reads a whole object reads no less than who reads some of its fields. -/
theorem agreeInside_of_get? (h : a.get? key = b.get? key) : AgreeInside key keys a b := by
  rw [AgreeInside, objectAt?, objectAt?, h]
  cases (b.get? key).bind Json.object? with
  | none => exact .none
  | some fields => exact .some fun _ _ => rfl

theorem AgreeInside.objects (h : AgreeInside key keys a b) :
    (a.objectAt? key = none ∧ b.objectAt? key = none) ∨
      ∃ x y, a.objectAt? key = some x ∧ b.objectAt? key = some y ∧ AgreeOn keys x y := by
  unfold AgreeInside at h
  generalize a.objectAt? key = inA at h ⊢
  generalize b.objectAt? key = inB at h ⊢
  cases h with
  | none => exact .inl ⟨rfl, rfl⟩
  | some h => exact .inr ⟨_, _, rfl, rfl, h⟩

theorem AgreeOn.text (h : AgreeOn keys a b) (hk : key ∈ keys) : a.text key = b.text key := by
  rw [Fields.text, Fields.text, h key hk]

theorem AgreeOn.present? (h : AgreeOn keys a b) (hk : key ∈ keys) :
    a.present? key = b.present? key := by
  rw [Fields.present?, Fields.present?, h key hk]

theorem AgreeOn.listAt? (h : AgreeOn keys a b) (hk : key ∈ keys) :
    a.listAt? key = b.listAt? key := by
  rw [Fields.listAt?, Fields.listAt?, h key hk]

end Fields

open Fields

/-! ## What the parts of a handoff read -/

/-- What an identity is read from. -/
def Identity.keys : List String :=
  ["key_id", "network", "receive_address", "keyring_yaml_path", "asset_id"]

/-- What a plan is read from, apart from its target. -/
def Plan.sizingKeys : List String := ["op_type", "size_base_units", "op_count", "reason"]

/-- What a plan is read from. A target that is derived is not read. -/
def Plan.TargetPolicy.planKeys : Plan.TargetPolicy → List String
  | .derive => Plan.sizingKeys
  | .deriveWhenAbsent | .required => "target_total_base_units" :: Plan.sizingKeys

variable {a b : Fields} {keys : List String}

theorem nativeAsset_congr (h : AgreeOn keys a b) (hk : "asset_id" ∈ keys) :
    nativeAsset a = nativeAsset b := by
  rw [nativeAsset, nativeAsset, h.text hk]

theorem Identity.parse_congr (files : Files) (h : AgreeOn Identity.keys a b) :
    Identity.parse files a = Identity.parse files b := by
  simp (disch := decide) only [Identity.parse, h.text, nativeAsset_congr h]

namespace Plan
variable {policy : TargetPolicy}

theorem sizingKeys_subset_planKeys : sizingKeys ⊆ policy.planKeys := by
  cases policy with
  | derive => exact List.Subset.refl _
  | deriveWhenAbsent | required => exact List.subset_cons_self _ _

theorem integerAt_congr {key : String} (h : AgreeOn keys a b) (hk : key ∈ keys) :
    integerAt a key = integerAt b key := by
  rw [integerAt, integerAt, h.present? hk]

theorem targetOf_congr (derived : Int) (h : AgreeOn policy.planKeys a b) :
    targetOf a derived policy = targetOf b derived policy := by
  cases policy with
  | derive => rfl
  | deriveWhenAbsent =>
    rw [targetOf, targetOf, h.present? List.mem_cons_self, integerAt_congr h List.mem_cons_self]
  | required => exact integerAt_congr h List.mem_cons_self

theorem ofFields_congr (h : AgreeOn policy.planKeys a b) :
    ofFields a policy = ofFields b policy := by
  have hsizing := h.mono sizingKeys_subset_planKeys
  simp (disch := decide) only [ofFields, hsizing.text, integerAt_congr hsizing,
    targetOf_congr _ h]

theorem parse_congr (h : AgreeInside "plan" policy.planKeys a b) :
    parse a policy = parse b policy := by
  unfold parse
  obtain ⟨ha, hb⟩ | ⟨x, y, ha, hb, hxy⟩ := h.objects
  · rw [ha, hb]
  · rw [ha, hb]
    exact ofFields_congr hxy

end Plan

/-! ## Footprints -/

/-- What is read of a request: fields as they are, and of the object under a key some of its
fields. -/
structure Footprint where
  fields : List String
  inside : List (String × List String) := []

namespace Footprint

/-- Two requests are the same to whoever has the footprint. -/
def Agree (footprint : Footprint) (a b : Fields) : Prop :=
  AgreeOn footprint.fields a b ∧ ∀ part ∈ footprint.inside, AgreeInside part.1 part.2 a b

/-- Nobody in front of the worker can set its target. -/
def worker : Footprint where
  fields := ["selected_source", "key_id", "network", "market_id", "receive_address", "asset_id"]
  inside := [
    ("signer_selection", ["key_id", "keyring_yaml_path", "chia_keys_dir"]),
    ("plan", Plan.TargetPolicy.derive.planKeys)]

def signer : Footprint where
  fields := ["selected_source", "market_id"] ++ Identity.keys
  inside := [("plan", Plan.TargetPolicy.deriveWhenAbsent.planKeys)]

/-- The builder and the engine read a job and its coins, and no total. -/
def job (policy : Plan.TargetPolicy) : Footprint where
  fields := ["selected_coins", "market_id"] ++ Identity.keys
  inside := [("plan", policy.planKeys)]

/-- The last stage hands on the plan as it is. -/
def submit : Footprint where
  fields := ["plan", "selected_coins", "additions", "market_id"] ++ Identity.keys

/-- The keys of a request under which something is read. -/
def roots (footprint : Footprint) : List String :=
  footprint.fields ++ footprint.inside.map Prod.fst

theorem agree_of_agreeOn_roots {footprint : Footprint} (h : AgreeOn footprint.roots a b) :
    footprint.Agree a b :=
  ⟨h.mono (List.subset_append_left _ _), fun part hpart => agreeInside_of_get?
    (h part.1 (List.mem_append_right _ (List.mem_map_of_mem hpart)))⟩

end Footprint

/-- What each stage reads. The route hands on whole requests and reads everything. -/
def Stage.footprint? : Stage → Option Footprint
  | .route => none
  | .worker => some .worker
  | .signer => some .signer
  | .builder => some (.job .deriveWhenAbsent)
  | .rawEngine => some (.job .required)
  | .submit => some .submit

/-! ## Handoffs -/

namespace Handoff
variable (files : Files)

theorem requireKeyring_congr (h : AgreeOn keys a b) (hk : "selected_source" ∈ keys) :
    requireKeyring a = requireKeyring b := by
  rw [requireKeyring, requireKeyring, h.text hk]

theorem requestCoins_congr (h : AgreeOn keys a b) (hk : "selected_coins" ∈ keys) :
    requestCoins a = requestCoins b := by
  rw [requestCoins, requestCoins, h _ hk]

theorem parseAdditions_congr (h : AgreeOn keys a b) (hk : "additions" ∈ keys) :
    parseAdditions a = parseAdditions b := by
  rw [parseAdditions, parseAdditions, h.listAt? hk]

theorem toSigner_congr (h : Footprint.worker.Agree a b) : toSigner files a = toSigner files b := by
  obtain ⟨hfields, hinside⟩ := h
  have hsigner : AgreeInside "signer_selection" _ a b := hinside _ List.mem_cons_self
  have hplan : AgreeInside "plan" Plan.TargetPolicy.derive.planKeys a b :=
    hinside _ (List.mem_cons_of_mem _ List.mem_cons_self)
  simp (disch := decide) only [toSigner, hfields.text, requireKeyring_congr hfields,
    nativeAsset_congr hfields, Plan.parse_congr hplan]
  obtain ⟨ha, hb⟩ | ⟨x, y, ha, hb, hxy⟩ := hsigner.objects
  · rw [ha, hb]
  · simp (disch := decide) only [ha, hb, hxy.text]

theorem toBackend_congr (h : Footprint.signer.Agree a b) :
    toBackend files a = toBackend files b := by
  obtain ⟨hfields, hinside⟩ := h
  have hplan : AgreeInside "plan" Plan.TargetPolicy.deriveWhenAbsent.planKeys a b :=
    hinside _ List.mem_cons_self
  simp (disch := decide) only [toBackend, hfields.text, requireKeyring_congr hfields,
    nativeAsset_congr hfields, Plan.parse_congr hplan]

theorem Job.parse_congr {policy : Plan.TargetPolicy} (h : (Footprint.job policy).Agree a b) :
    Job.parse files a policy = Job.parse files b policy := by
  have hfields : AgreeOn (["selected_coins", "market_id"] ++ Identity.keys) a b := h.1
  have hplan : AgreeInside "plan" policy.planKeys a b := h.2 _ List.mem_cons_self
  have hidentity := hfields.mono (List.subset_append_right _ _)
  simp (disch := decide) only [Job.parse, Identity.parse_congr files hidentity,
    Plan.parse_congr hplan, hfields.text]

theorem toSubmission_congr (h : (Footprint.job .required).Agree a b) :
    toSubmission files a = toSubmission files b := by
  simp (disch := decide) only [toSubmission, Job.parse_congr files h, requestCoins_congr h.1]

theorem toSignSubmit_congr (h : Footprint.submit.Agree a b) :
    toSignSubmit files a = toSignSubmit files b := by
  obtain ⟨hfields, -⟩ := h
  have hidentity := hfields.mono (List.subset_append_right _ _)
  simp (disch := decide) only [toSignSubmit, Identity.parse_congr files hidentity,
    parseAdditions_congr hfields, requestCoins_congr hfields, hfields.text, hfields "plan"]

end Handoff

/-! ## Runs -/

namespace Surroundings
variable (s : Surroundings)

theorem build_congr (h : (Footprint.job .deriveWhenAbsent).Agree a b) : s.build a = s.build b := by
  have hcoins : s.coinsFor a = s.coinsFor b := by
    funext job
    -- The coin selector is asked about the job alone.
    rw [coinsFor, coinsFor, h.1 "selected_coins" (by decide)]
  rw [build, build, Job.parse_congr s.files h, hcoins]

theorem run_of_agree {stage : Stage} {footprint : Footprint}
    (hstage : stage.footprint? = some footprint) (h : footprint.Agree a b) :
    s.run stage a = s.run stage b := by
  cases stage with
  | route => cases hstage
  | worker => cases hstage; rw [run, run, toSigner_congr s.files h]
  | signer => cases hstage; rw [run, run, toBackend_congr s.files h]
  | builder => cases hstage; exact build_congr s h
  | rawEngine => cases hstage; rw [run, run, toSubmission_congr s.files h]
  | submit => cases hstage; rw [run, run, submit, submit, toSignSubmit_congr s.files h]

/-- **What a stage does not read has no influence on it.** Two requests that agree on the footprint
of a stage make it delegate the same calls and come to the same outcome, after any history. In
particular the engine derives its additions and their total whatever the request says they are, and
the last stage takes no word for the total either. -/
theorem run_eq_of_agree (s : Surroundings) :
    (∀ stage footprint, stage.footprint? = some footprint → ∀ a b, footprint.Agree a b →
      s.run stage a = s.run stage b) ∧
    (∀ a b, AgreeApartFrom ["additions", "selected_total_base_units"] a b →
      s.run .rawEngine a = s.run .rawEngine b) ∧
    ∀ a b, AgreeApartFrom ["selected_total_base_units"] a b →
      s.run .submit a = s.run .submit b := by
  refine ⟨fun stage footprint hstage a b h => s.run_of_agree hstage h, fun a b h => ?_,
    fun a b h => ?_⟩
  · have hroots : AgreeOn (Footprint.job .required).roots a b := h.agreeOn (by decide)
    exact s.run_of_agree rfl (Footprint.agree_of_agreeOn_roots hroots)
  · have hroots : AgreeOn Footprint.submit.roots a b := h.agreeOn (by decide)
    exact s.run_of_agree rfl (Footprint.agree_of_agreeOn_roots hroots)

/-- A request to the worker that names a target of its own. -/
def targetedRequest (target : Amount) : Fields := [
  ("asset_id", .str "xch"),
  ("key_id", .str "key-main-1"),
  ("plan", .obj [("op_count", .ofUInt64 2), ("op_type", .str "split"),
    ("size_base_units", .ofUInt64 10), ("target_total_base_units", .ofUInt64 target)]),
  ("receive_address", .str "xch1receive"),
  ("selected_source", .str "chia_keys"),
  ("signer_selection", .obj [("key_id", .str "key-main-1"),
    ("keyring_yaml_path", .str "keyring.yaml")])]

/-- The worker passes a target over that is not what its plan needs, and the engine a total that is
not what its coins are worth. -/
theorem run_eq_of_agree_of_targeted :
    (∃ fields, toSigner anywhere (targetedRequest 1000) = .ok fields) ∧
      stocked.run .worker (targetedRequest 1) = stocked.run .worker (targetedRequest 1000) ∧
      stocked.run .rawEngine ((splitRequest 10 2 20 50).insert "selected_total_base_units"
        (.ofUInt64 1000)) = stocked.run .rawEngine (splitRequest 10 2 20 50) := by
  obtain ⟨hagree, htotal, -⟩ := run_eq_of_agree stocked
  have htargets : Footprint.worker.Agree (targetedRequest 1) (targetedRequest 1000) := by
    refine ⟨fun key hk => ?_, fun part hpart => ?_⟩
    · fin_cases hk <;> rfl
    · fin_cases hpart
      · exact agreeInside_of_get? rfl
      · exact .some fun key hk => by fin_cases hk <;> rfl
  refine ⟨⟨_, rfl⟩, hagree .worker _ rfl _ _ htargets, htotal _ _ fun key hk => ?_⟩
  refine Fields.get?_insert_of_ne _ _ ?_
  rintro rfl
  exact hk (by decide)

end Surroundings

end CoinRelay
