import CoinRelay.Proofs.Coins.Sufficiency
import CoinRelay.Proofs.Handoff.Rereading
import CoinRelay.Proofs.Handoff.Stages

/-! # Checks in order

The causes of refusals have ranks, and every stage makes its checks in the order of these ranks and
stops at the first that fails. So of all that is wrong with a request the lowest rank decides
(`Check.Decides`), whatever the fields hold that would have been looked at later. -/

namespace CoinRelay
open Text Handoff

/-- The rank of a cause: who signs and from where, then the keyring, the asset, the plan, the lists
of additions and coins, and last what these come to. -/
def Rejection.rank : Rejection → ℕ
  | .missingSelectedSource | .unsupportedSelectedSource | .missingKeyOrNetwork
  | .missingKeyOrNetworkOrAddress | .missingSignerSelection | .signerKeyMismatch
  | .missingReceiveAddress => 1
  | .missingKeyringPath | .keyringNotFound => 2
  | .assetNotSupported => 3
  | .missingPlan | .unsupportedOperation | .invalidPlanValues => 4
  | .missingAdditions | .invalidAdditions | .missingSelectedCoins | .noUnspentCoins => 5
  | .insufficientCoinTotal | .additionsExceedTotal => 6

/-- A condition on a request, and the cause for which a request is refused that does not meet it. -/
structure Check where
  cause : Rejection
  Passes : Prop

namespace Check
variable {α β : Type} {checks more before after : List Check} {c d : Check}
variable {result : Except Rejection α} {f : α → Except Rejection β}

/-! ## The check that decides -/

/-- The check fails, and of those that fail none has a lower rank, and none of the same rank comes
before it. -/
def Decides (c : Check) (checks : List Check) : Prop :=
  ∃ before after, checks = before ++ c :: after ∧ ¬ c.Passes ∧
    (∀ b ∈ before, ¬ b.Passes → c.cause.rank < b.cause.rank) ∧
    ∀ a ∈ after, ¬ a.Passes → c.cause.rank ≤ a.cause.rank

theorem Decides.mem (h : c.Decides checks) : c ∈ checks := by
  obtain ⟨before, after, rfl, -⟩ := h
  simp

theorem Decides.fails (h : c.Decides checks) : ¬ c.Passes := by
  obtain ⟨-, -, -, hfails, -⟩ := h
  exact hfails

theorem Decides.unique (hc : c.Decides checks) (hd : d.Decides checks) : c = d := by
  obtain ⟨before, after, hlist, hfails, hbefore, hafter⟩ := hc
  obtain ⟨before', after', hlist', hfails', hbefore', hafter'⟩ := hd
  rcases List.append_eq_append_iff.1 (hlist.symm.trans hlist') with
    ⟨between, rfl, hbetween⟩ | ⟨between, rfl, hbetween⟩
  · cases between with
    | nil => exact (List.cons.inj hbetween).1
    | cons _ between =>
      obtain ⟨rfl, rfl⟩ := List.cons.inj hbetween
      have hlt := hbefore' c (by simp) hfails
      have hle := hafter d (by simp) hfails'
      omega
  · cases between with
    | nil => exact (List.cons.inj hbetween).1.symm
    | cons _ between =>
      obtain ⟨rfl, rfl⟩ := List.cons.inj hbetween
      have hlt := hbefore d (by simp) hfails'
      have hle := hafter' c (by simp) hfails
      omega

/-- The causes stand in the order of their ranks. -/
def Ranked (checks : List Check) : Prop := (checks.map fun c => c.cause.rank).Pairwise (· ≤ ·)

/-- Of checks in the order of their ranks the first that fails decides. -/
theorem Ranked.decides (h : Ranked (before ++ c :: after)) (hbefore : ∀ b ∈ before, b.Passes)
    (hfails : ¬ c.Passes) : c.Decides (before ++ c :: after) := by
  have hranks := (List.pairwise_append.1 (List.pairwise_map.1 h)).2.1
  refine ⟨before, after, rfl, hfails, fun b hb hno => absurd (hbefore b hb) hno, fun a ha _ => ?_⟩
  exact (List.pairwise_cons.1 hranks).1 a ha

/-! ## One after the other -/

/-- The result is that of the checks, made one after the other up to the first that fails. -/
def Obeys (result : Except Rejection α) : List Check → Prop
  | [] => ∃ a, result = .ok a
  | c :: rest => (c.Passes → Obeys result rest) ∧ (¬ c.Passes → result = .error c.cause)

theorem obeys_single {a : α} {cause : Rejection} {P : Prop} (hok : P → result = .ok a)
    (herror : ¬ P → result = .error cause) : Obeys result [⟨cause, P⟩] :=
  ⟨fun h => ⟨a, hok h⟩, herror⟩

/-- What goes on after checks makes further ones. -/
theorem Obeys.bind (h : Obeys result checks) (hf : ∀ a, result = .ok a → Obeys (f a) more) :
    Obeys (result >>= f) (checks ++ more) := by
  induction checks with
  | nil =>
    obtain ⟨a, rfl⟩ := h
    exact hf a rfl
  | cons c rest ih =>
    refine ⟨fun hpasses => ih (h.1 hpasses), fun hfails => ?_⟩
    rw [h.2 hfails]
    rfl

theorem Obeys.pure (h : Obeys result checks) (g : α → β) :
    Obeys (result >>= fun a => pure (g a)) checks := by
  rw [← List.append_nil checks]
  exact h.bind fun a _ => ⟨g a, rfl⟩

theorem Obeys.map (h : Obeys result checks) (g : α → β) : Obeys (result.map g) checks := by
  induction checks with
  | nil =>
    obtain ⟨a, rfl⟩ := h
    exact ⟨g a, rfl⟩
  | cons c rest ih =>
    refine ⟨fun hpasses => ih (h.1 hpasses), fun hfails => ?_⟩
    rw [h.2 hfails]
    rfl

theorem Obeys.ite {fails : Prop} [Decidable fails] (hfails : fails ↔ ¬ c.Passes)
    (h : Obeys result checks) :
    Obeys (if fails then .error c.cause else result) (c :: checks) :=
  ⟨fun hpasses => by rwa [if_neg fun hf => hfails.1 hf hpasses], fun hno => if_pos (hfails.2 hno)⟩

/-- Either all checks pass, or the first that fails gives the cause. -/
theorem Obeys.cases (h : Obeys result checks) :
    ((∀ c ∈ checks, c.Passes) ∧ ∃ a, result = .ok a) ∨
      ∃ before c after, checks = before ++ c :: after ∧ (∀ b ∈ before, b.Passes) ∧ ¬ c.Passes ∧
        result = .error c.cause := by
  induction checks with
  | nil => exact .inl ⟨nofun, h⟩
  | cons c rest ih =>
    by_cases hpasses : c.Passes
    · rcases ih (h.1 hpasses) with ⟨hall, hok⟩ | ⟨before, d, after, rfl, hbefore, hfails, herror⟩
      · exact .inl ⟨List.forall_mem_cons.2 ⟨hpasses, hall⟩, hok⟩
      · exact .inr ⟨c :: before, d, after, rfl, List.forall_mem_cons.2 ⟨hpasses, hbefore⟩, hfails,
          herror⟩
    · exact .inr ⟨[], c, rest, rfl, nofun, hpasses, h.2 hpasses⟩

end Check

/-! ## The checks of all stages -/

section
variable (files : Files) (request : Fields)

/-- A keyring path is there, and then something is there at the path. -/
def keyringChecks (path : String) : List Check := [
  ⟨.missingKeyringPath, path ≠ ""⟩,
  ⟨.keyringNotFound, files.holds (expandHome files.home path) = true⟩]

def assetCheck : Check :=
  ⟨.assetNotSupported, lowerAscii (request.text "asset_id") ∈ nativeAssetIds⟩

/-- The texts under some keys are there. -/
def namesCheck (cause : Rejection) (keys : List String) : Check :=
  ⟨cause, ∀ key ∈ keys, request.text key ≠ ""⟩

def sourceCheck : Check :=
  ⟨.unsupportedSelectedSource, request.text "selected_source" = "chia_keys"⟩

/-- Size, count and target of a plan within its bounds are stated. -/
def Plan.ValuesStated (fields : Fields) (policy : TargetPolicy) : Prop :=
  ∃ plan : Plan, plan.Valid ∧ fields.integer? "size_base_units" = some (plan.size.toNat : Int) ∧
    fields.integer? "op_count" = some (plan.count.toNat : Int) ∧ plan.TargetStated fields policy

/-- There is a plan, and then its operation is known, and then its values are sound. -/
def planChecks (policy : Plan.TargetPolicy) : List Check :=
  let plan := (request.objectAt? "plan").getD []
  [⟨.missingPlan, ∃ fields, request.get? "plan" = some (.obj fields)⟩,
    ⟨.unsupportedOperation, plan.text "op_type" ∈ ["split", "combine"]⟩,
    ⟨.invalidPlanValues, Plan.ValuesStated plan policy⟩]

/-- There is a list of additions, and then each is a positive amount to some address. -/
def additionsChecks : List Check := [
  ⟨.missingAdditions, ∃ items, request.get? "additions" = some (.arr items) ∧ items ≠ []⟩,
  ⟨.invalidAdditions, ∀ items, request.get? "additions" = some (.arr items) →
    ∀ item ∈ items, ∃ output : Output, output.Reads item ∧ output.address ≠ "" ∧
      0 < output.amount.toNat⟩]

/-- The checks of an identity. -/
def identityChecks : List Check :=
  namesCheck request .missingKeyOrNetworkOrAddress ["key_id", "network", "receive_address"] ::
    (keyringChecks files (request.text "keyring_yaml_path") ++ [assetCheck request])

/-- There are coins in a value. -/
def coinsCheck (cause : Rejection) (coins : Option Json) : Check :=
  ⟨cause, ∃ items, coins = some (.arr items) ∧ items ≠ []⟩

/-- The coins in a value are worth the target of the plan. -/
def targetCheck (policy : Plan.TargetPolicy) (coins : Option Json) : Check :=
  ⟨.insufficientCoinTotal, ∀ plan items, Plan.parse request policy = .ok plan →
    coins = some (.arr items) → plan.target.toNat ≤ Coins.exactTotal items⟩

/-- The coins in a value are worth the additions, with their total stopped at the largest amount. -/
def balanceCheck (coins : Option Json) : Check :=
  ⟨.additionsExceedTotal, ∀ outputs items, parseAdditions request = .ok outputs →
    coins = some (.arr items) →
      Output.exactTotal outputs ≤ min (Coins.exactTotal items) Amount.top⟩

/-- The checks of a stage in its own order. The builder's coins need not be those of the request, so
they are in a value of their own. -/
def Stage.checks (coins : Option Json) : Stage → List Check
  | .route => [
    namesCheck request .missingSelectedSource ["selected_source"],
    namesCheck request .missingKeyOrNetwork ["key_id", "network"],
    ⟨.unsupportedSelectedSource,
      request.text "selected_source" ∈ ["chia_keys", "mnemonic_import", "generate_new_key"]⟩]
  | .worker =>
    let signer := (request.objectAt? "signer_selection").getD []
    sourceCheck request ::
    ⟨.missingSignerSelection, ∃ fields, request.get? "signer_selection" = some (.obj fields)⟩ ::
    ⟨.signerKeyMismatch,
      request.text "key_id" ≠ "" ∧ request.text "key_id" = signer.text "key_id"⟩ ::
    namesCheck request .missingReceiveAddress ["receive_address"] ::
    (keyringChecks files (signer.text "keyring_yaml_path") ++
      assetCheck request :: planChecks request .derive)
  | .signer =>
    sourceCheck request ::
    namesCheck request .missingKeyOrNetwork ["key_id", "network"] ::
    namesCheck request .missingReceiveAddress ["receive_address"] ::
    (keyringChecks files (request.text "keyring_yaml_path") ++
      assetCheck request :: planChecks request .deriveWhenAbsent)
  | .builder => identityChecks files request ++ (planChecks request .deriveWhenAbsent ++
    [coinsCheck .noUnspentCoins coins, targetCheck request .deriveWhenAbsent coins])
  | .rawEngine =>
    let coins := request.get? "selected_coins"
    identityChecks files request ++ (planChecks request .required ++
      [coinsCheck .missingSelectedCoins coins, targetCheck request .required coins])
  | .submit =>
    let coins := request.get? "selected_coins"
    identityChecks files request ++ (additionsChecks request ++
      [coinsCheck .missingSelectedCoins coins, balanceCheck request coins])

end

variable {files : Files} {request : Fields} {policy : Plan.TargetPolicy} {coins : Option Json}
variable {stage : Stage}

/-- **One order for all stages.** -/
theorem Stage.ranked_checks : Check.Ranked (stage.checks files request coins) := by
  cases stage with
  | route => exact (by decide : [1, 1, 1].Pairwise (· ≤ ·))
  | worker => exact (by decide : [1, 1, 1, 1, 2, 2, 3, 4, 4, 4].Pairwise (· ≤ ·))
  | signer => exact (by decide : [1, 1, 1, 2, 2, 3, 4, 4, 4].Pairwise (· ≤ ·))
  | builder => exact (by decide : [1, 2, 2, 3, 4, 4, 4, 5, 6].Pairwise (· ≤ ·))
  | rawEngine => exact (by decide : [1, 2, 2, 3, 4, 4, 4, 5, 6].Pairwise (· ≤ ·))
  | submit => exact (by decide : [1, 2, 2, 3, 5, 5, 5, 6].Pairwise (· ≤ ·))

/-! ## What obeys its checks -/

namespace Check

theorem obeys_requirePresent (cause : Rejection) (keys : List String) :
    Obeys (requirePresent (keys.map request.text) cause) [namesCheck request cause keys] := by
  refine obeys_single (a := ()) (fun h => requirePresent_eq_ok.2 ?_) fun hno => if_pos ?_
  · simpa using h
  · simpa using hno

theorem obeys_requireKeyring : Obeys (requireKeyring request) [sourceCheck request] := by
  refine obeys_single (a := ()) (fun h => requireKeyring_eq_ok.2 ?_) fun hno => if_neg ?_
  · rw [h]
    decide
  · intro hname
    unfold KeySource.ofName? at hname
    have hfound := List.find?_some hname
    exact hno (of_decide_eq_true hfound).symm

theorem obeys_keyringLocator (path : String) :
    Obeys (keyringLocator files path) (keyringChecks files path) := by
  refine ⟨fun hpath => ?_, fun hpath => if_pos ?_⟩
  · refine obeys_single (fun hholds => keyringLocator_eq_ok.2 ⟨rfl, hpath, hholds⟩) fun hholds => ?_
    unfold keyringLocator
    rw [if_neg (by simpa using hpath), if_neg hholds]
  · simpa using hpath

theorem obeys_nativeAsset : Obeys (nativeAsset request) [assetCheck request] :=
  obeys_single (fun h => nativeAsset_eq_ok.2 ⟨rfl, h⟩) fun hno => if_neg hno

theorem obeys_identity : Obeys (Identity.parse files request) (identityChecks files request) := by
  unfold Identity.parse
  refine (obeys_requirePresent _ ["key_id", "network", "receive_address"]).bind fun _ _ => ?_
  refine (obeys_keyringLocator _).bind fun path _ => ?_
  exact obeys_nativeAsset.pure _

/-! ## Plans -/

theorem bind_eq_error {ε α β : Type} {x : Except ε α} {f : α → Except ε β} {e : ε} :
    x >>= f = .error e ↔ x = .error e ∨ ∃ a, x = .ok a ∧ f a = .error e := by
  cases x <;> simp [bind, Except.bind]

theorem integerAt_eq_error {fields : Fields} {key : String} {cause : Rejection}
    (h : Plan.integerAt fields key = .error cause) : cause = .invalidPlanValues := by
  unfold Plan.integerAt at h
  split at h
  · cases h
  · split at h <;> cases h
    rfl

theorem targetOf_eq_error {fields : Fields} {derived : Int} {cause : Rejection}
    (h : Plan.targetOf fields derived policy = .error cause) : cause = .invalidPlanValues := by
  cases policy with
  | derive => cases h
  | required => exact integerAt_eq_error h
  | deriveWhenAbsent =>
    simp only [Plan.targetOf] at h
    split at h
    · cases h
    · exact integerAt_eq_error h

/-- Once the operation is known, there is one cause for which the fields of a plan are refused. -/
theorem ofFields_eq_error {fields : Fields} {operation : Operation} {cause : Rejection}
    (hop : Operation.ofName? (fields.text "op_type") = some operation)
    (h : Plan.ofFields fields policy = .error cause) : cause = .invalidPlanValues := by
  simp only [Plan.ofFields, hop, bind_eq_error] at h
  rcases h with hsize | ⟨size, -, hcount | ⟨count, -, h⟩⟩
  · exact integerAt_eq_error hsize
  · exact integerAt_eq_error hcount
  · split at h
    · cases h
      rfl
    · rcases bind_eq_error.1 h with htarget | ⟨target, -, h⟩
      · exact targetOf_eq_error htarget
      · split at h <;> cases h
        rfl

theorem isSome_ofName? (name : String) :
    (∃ operation, Operation.ofName? name = some operation) ↔ name ∈ ["split", "combine"] := by
  unfold Operation.ofName?
  split <;> simp_all

theorem obeys_ofFields {fields : Fields} : Obeys (Plan.ofFields fields policy) [
    ⟨.unsupportedOperation, fields.text "op_type" ∈ ["split", "combine"]⟩,
    ⟨.invalidPlanValues, Plan.ValuesStated fields policy⟩] := by
  refine ⟨fun hname => ?_, fun hname => ?_⟩
  · obtain ⟨operation, hop⟩ := (isSome_ofName? _).2 hname
    refine ⟨?_, fun hno => ?_⟩
    · rintro ⟨plan, hv, hsize, hcount, htarget⟩
      have hvalid : ({ plan with operation, reason := fields.text "reason" } : Plan).Valid :=
        { hv with reason_trimmed := fields.trimmed_text _ }
      exact ⟨_, Plan.ofFields_eq_ok_iff.2 ⟨hvalid, hop, hsize, hcount, htarget, rfl⟩⟩
    · cases hread : Plan.ofFields fields policy with
      | error cause => rw [ofFields_eq_error hop hread]
      | ok plan =>
        obtain ⟨hv, hstated⟩ := Plan.ofFields_eq_ok_iff.1 hread
        exact absurd ⟨plan, hv, hstated.size, hstated.count, hstated.target⟩ hno
  · have hop : Operation.ofName? (fields.text "op_type") = none :=
      Option.eq_none_iff_forall_ne_some.2 fun operation hop =>
        hname ((isSome_ofName? _).1 ⟨operation, hop⟩)
    simp only [Plan.ofFields, hop]
    rfl

theorem objectAt?_eq_some {key : String} {fields : Fields} :
    request.objectAt? key = some fields ↔ request.get? key = some (.obj fields) := by
  unfold Fields.objectAt?
  rw [Option.bind_eq_some_iff]
  constructor
  · rintro ⟨v, hv, hfields⟩
    cases v <;> cases hfields
    exact hv
  · exact fun h => ⟨_, h, rfl⟩

theorem obeys_plan : Obeys (Plan.parse request policy) (planChecks request policy) := by
  unfold Plan.parse planChecks
  cases hplan : request.objectAt? "plan" with
  | none =>
    refine ⟨fun ⟨fields, hfields⟩ => ?_, fun _ => rfl⟩
    rw [objectAt?_eq_some.2 hfields] at hplan
    cases hplan
  | some fields =>
    exact ⟨fun _ => obeys_ofFields, fun hno => absurd ⟨fields, objectAt?_eq_some.1 hplan⟩ hno⟩

/-! ## Additions and coins -/

/-- A list that is read item by item obeys a check of all items. -/
theorem obeys_mapM {α β : Type} {f : α → Except Rejection β} {cause : Rejection} {P : α → Prop}
    (hok : ∀ x, P x ↔ ∃ y, f x = .ok y) (herror : ∀ x e, f x = .error e → e = cause)
    (items : List α) : Obeys (items.mapM f) [⟨cause, ∀ x ∈ items, P x⟩] := by
  refine ⟨fun hall => ?_, fun hno => ?_⟩
  · induction items with
    | nil => exact ⟨[], rfl⟩
    | cons x rest ih =>
      obtain ⟨y, hy⟩ := (hok x).1 (hall x (by simp))
      obtain ⟨ys, hys⟩ := ih fun x hx => hall x (by simp [hx])
      exact ⟨y :: ys, mapM_eq_ok.2 (.cons hy (mapM_eq_ok.1 hys))⟩
  · obtain ⟨x, hx, hbad⟩ : ∃ x ∈ items, ¬ P x := by simpa using hno
    cases hread : f x with
    | error e => exact mapM_eq_error herror hx (herror x e hread ▸ hread)
    | ok y => exact absurd ((hok x).2 ⟨y, hread⟩) hbad

theorem obeys_additions : Obeys (parseAdditions request) (additionsChecks request) := by
  unfold parseAdditions additionsChecks
  cases hlist : request.listAt? "additions" with
  | none =>
    refine ⟨fun ⟨items, hitems⟩ => ?_, fun _ => rfl⟩
    rw [Fields.listAt?_eq_some.2 hitems] at hlist
    cases hlist
  | some items =>
    have hget := Fields.listAt?_eq_some.1 hlist
    refine ⟨fun _ => ?_, fun hno => absurd ⟨items, hget⟩ hno⟩
    simp only [hget.1, Option.some.injEq, Json.arr.injEq, forall_eq']
    exact obeys_mapM (fun item => by simp only [Output.ofAddition_eq_ok])
      (fun _ _ => Output.ofAddition_eq_error) items

/-- The coins in a value, or a cause for which there are none. -/
def coinsIn (cause : Rejection) (coins : Option Json) : Except Rejection Selection :=
  match Selection.ofJson? coins with
  | some selection => .ok selection
  | none => .error cause

theorem coinsIn_eq_ok {cause : Rejection} {selection : Selection} :
    coinsIn cause coins = .ok selection ↔ coins = some selection.toJson := by
  rw [← ofJson?_eq_some]
  unfold coinsIn
  cases Selection.ofJson? coins <;> simp

theorem obeys_coinsIn (cause : Rejection) (coins : Option Json) :
    Obeys (coinsIn cause coins) [coinsCheck cause coins] := by
  refine ⟨fun ⟨items, hitems, hne⟩ => ⟨⟨items, hne⟩, coinsIn_eq_ok.2 hitems⟩, fun hno => ?_⟩
  unfold coinsIn
  cases hread : Selection.ofJson? coins with
  | none => rfl
  | some selection => exact absurd ⟨_, ofJson?_eq_some.1 hread, selection.nonempty⟩ hno

theorem obeys_resolve {plan : Plan} {selection : Selection}
    (hplan : Plan.parse request policy = .ok plan) (hcoins : coins = some selection.toJson) :
    Obeys (selection.resolve plan.target) [targetCheck request policy coins] := by
  refine ⟨fun hcovers => ?_, fun hno => ?_⟩
  · have hle := (Coins.le_total_iff ..).2 (hcovers plan selection.coins hplan hcoins)
    exact ⟨⟨_, _, hle⟩, dif_pos hle⟩
  · refine Coins.resolve_eq_error (Nat.lt_of_not_le fun hle => hno ?_)
    intro plan' items hplan' hitems
    cases hplan.symm.trans hplan'
    cases hcoins.symm.trans hitems
    exact hle

theorem obeys_remainder {outputs : List Output} {selection : Selection}
    (houtputs : parseAdditions request = .ok outputs) (hcoins : coins = some selection.toJson) :
    Obeys (remainder selection.total outputs) [balanceCheck request coins] := by
  rw [remainder_eq, selection.toNat_total]
  refine ⟨fun hcovers => ?_, fun hno => if_neg fun hle => hno ?_⟩
  · exact ⟨_, if_pos (hcovers outputs selection.coins houtputs hcoins)⟩
  · intro outputs' items houtputs' hitems
    cases houtputs.symm.trans houtputs'
    cases hcoins.symm.trans hitems
    exact hle

end Check

/-! ## Handoffs -/

namespace Handoff

theorem isSome_ofName? {name : String} : (∃ source, KeySource.ofName? name = some source) ↔
    name ∈ ["chia_keys", "mnemonic_import", "generate_new_key"] := by
  unfold KeySource.ofName? KeySource.all
  rw [← Option.isSome_iff_exists, List.find?_isSome]
  simp [KeySource.name, eq_comm]

theorem obeys_job : Check.Obeys (Job.parse files request policy)
    (identityChecks files request ++ planChecks request policy) := by
  unfold Job.parse
  refine Check.obeys_identity.bind fun identity _ => ?_
  exact Check.obeys_plan.pure _

theorem obeys_toExecutor : Check.Obeys ((toExecutor request).map Prod.snd)
    (Stage.checks files request coins .route) := by
  refine Check.Obeys.map ?_ Prod.snd
  unfold toExecutor
  refine (Check.obeys_requirePresent _ ["selected_source"]).bind fun _ _ => ?_
  refine (Check.obeys_requirePresent _ ["key_id", "network"]).bind fun _ _ => ?_
  cases hsource : KeySource.ofName? (request.text "selected_source") with
  | some source => exact ⟨fun _ => ⟨_, rfl⟩, fun hno => absurd (isSome_ofName?.1 ⟨_, hsource⟩) hno⟩
  | none =>
    refine ⟨fun hname => ?_, fun _ => rfl⟩
    obtain ⟨source, hfound⟩ := isSome_ofName?.2 hname
    rw [hsource] at hfound
    cases hfound

theorem obeys_toSigner :
    Check.Obeys (toSigner files request) (Stage.checks files request coins .worker) := by
  unfold toSigner
  refine Check.obeys_requireKeyring.bind fun _ _ => ?_
  cases hsigner : request.objectAt? "signer_selection" with
  | none =>
    refine ⟨fun ⟨fields, hfields⟩ => ?_, fun _ => rfl⟩
    rw [Check.objectAt?_eq_some.2 hfields] at hsigner
    cases hsigner
  | some signer =>
    refine ⟨fun _ => ?_, fun hno => absurd ⟨signer, Check.objectAt?_eq_some.1 hsigner⟩ hno⟩
    refine Check.Obeys.ite (by simp [or_iff_not_imp_left]) ?_
    refine (Check.obeys_requirePresent _ ["receive_address"]).bind fun _ _ => ?_
    refine (Check.obeys_keyringLocator _).bind fun path _ => ?_
    refine Check.obeys_nativeAsset.bind fun asset _ => ?_
    exact Check.obeys_plan.pure _

theorem obeys_toBackend :
    Check.Obeys (toBackend files request) (Stage.checks files request coins .signer) := by
  unfold toBackend
  refine Check.obeys_requireKeyring.bind fun _ _ => ?_
  refine (Check.obeys_requirePresent _ ["key_id", "network"]).bind fun _ _ => ?_
  refine (Check.obeys_requirePresent _ ["receive_address"]).bind fun _ _ => ?_
  refine (Check.obeys_keyringLocator _).bind fun path _ => ?_
  refine Check.obeys_nativeAsset.bind fun asset _ => ?_
  exact Check.obeys_plan.pure _

theorem obeys_toSubmission :
    Check.Obeys (toSubmission files request) (Stage.checks files request coins .rawEngine) := by
  unfold toSubmission Stage.checks
  rw [← List.append_assoc]
  refine obeys_job.bind fun job hjob => ?_
  refine (Check.obeys_coinsIn _ (request.get? "selected_coins")).bind fun selection hs => ?_
  exact (Check.obeys_resolve (Job.parse_eq_ok.1 hjob).2.1 (requestCoins_eq_ok.1 hs)).pure _

theorem obeys_toSignSubmit :
    Check.Obeys (toSignSubmit files request) (Stage.checks files request coins .submit) := by
  unfold toSignSubmit
  refine Check.obeys_identity.bind fun identity _ => ?_
  refine Check.obeys_additions.bind fun additions ha => ?_
  refine (Check.obeys_coinsIn _ (request.get? "selected_coins")).bind fun selection hs => ?_
  exact (Check.obeys_remainder ha (requestCoins_eq_ok.1 hs)).pure _

/-- The builder's handoff of its job, with coins from a value. -/
def toBuilt (files : Files) (request : Fields) (coins : Option Json) : Except Rejection Fields := do
  let job ← Job.parse files request .deriveWhenAbsent
  let selection ← Check.coinsIn .noUnspentCoins coins
  toBundleSigner job selection

theorem obeys_toBuilt :
    Check.Obeys (toBuilt files request coins) (Stage.checks files request coins .builder) := by
  unfold toBuilt Stage.checks
  rw [← List.append_assoc]
  refine obeys_job.bind fun job hjob => ?_
  refine (Check.obeys_coinsIn _ coins).bind fun selection hs => ?_
  exact (Check.obeys_resolve (Job.parse_eq_ok.1 hjob).2.1 (Check.coinsIn_eq_ok.1 hs)).pure _

end Handoff

/-- What a stage makes of a request, with the builder's coins in a value. -/
def Stage.handoff (files : Files) (request : Fields) (coins : Option Json) :
    Stage → Except Rejection Fields
  | .route => (toExecutor request).map Prod.snd
  | .worker => toSigner files request
  | .signer => toBackend files request
  | .builder => toBuilt files request coins
  | .rawEngine => toSubmission files request
  | .submit => toSignSubmit files request

theorem Stage.obeys_handoff :
    Check.Obeys (stage.handoff files request coins) (stage.checks files request coins) := by
  cases stage with
  | route => exact obeys_toExecutor
  | worker => exact obeys_toSigner
  | signer => exact obeys_toBackend
  | builder => exact obeys_toBuilt
  | rawEngine => exact obeys_toSubmission
  | submit => exact obeys_toSignSubmit

/-- Either all checks pass and there is a handoff, or one check decides and gives the cause. -/
theorem Stage.handoff_cases (stage : Stage) (files : Files) (request : Fields)
    (coins : Option Json) :
    let checks := stage.checks files request coins
    ((∀ c ∈ checks, c.Passes) ∧ ∃ fields, stage.handoff files request coins = .ok fields) ∨
      ∃ c : Check, c.Decides checks ∧ stage.handoff files request coins = .error c.cause := by
  intro checks
  have hranked : Check.Ranked checks := ranked_checks
  rcases obeys_handoff.cases with
    hpasses | ⟨before, c, after, hlist, hbefore, hfails, herror⟩
  · exact .inl hpasses
  · have hchecks : checks = before ++ c :: after := hlist
    rw [hchecks] at hranked ⊢
    exact .inr ⟨c, hranked.decides hbefore hfails, herror⟩

end CoinRelay
