import CoinRelay.Hop
import CoinRelay.Identity
import CoinRelay.Output
import CoinRelay.Plan
import CoinRelay.Selection

/-!
# Handoffs

The request that each stage makes out of its own. A stage checks first the texts that must be there,
then the keyring, the asset, the plan, the coins and last their total, and hands on only what it has
checked; the fields of every handoff stand in the order of their keys. What is derived here, such as
outputs and totals, is computed anew and never taken from the request.
-/

namespace CoinRelay.Handoff

/-! ## From the key source to the signing backend -/

/-- The whole request, with the checked texts trimmed, for the executor of its key source. -/
def toExecutor (request : Fields) : Except Rejection (KeySource × Fields) := do
  let source := request.text "selected_source"
  requirePresent [source] .missingSelectedSource
  let keyId := request.text "key_id"
  let network := request.text "network"
  requirePresent [keyId, network] .missingKeyOrNetwork
  match KeySource.ofName? source with
  | none => .error .unsupportedSelectedSource
  | some source =>
    return (source, ((request.insert "selected_source" (.str source.name)).insert
      "key_id" (.str keyId)).insert "network" (.str network))

def requireKeyring (request : Fields) : Except Rejection Unit :=
  if KeySource.ofName? (request.text "selected_source") = some .chiaKeys then .ok ()
  else .error .unsupportedSelectedSource

/-- The worker's handoff: the keyring comes from the signer selection, which must name the key of
the request, and the target is derived whatever the request says. -/
def toSigner (files : Files) (request : Fields) : Except Rejection Fields := do
  requireKeyring request
  match request.objectAt? "signer_selection" with
  | none => .error .missingSignerSelection
  | some signer =>
    let keyId := request.text "key_id"
    if keyId.isEmpty || keyId != signer.text "key_id" then throw .signerKeyMismatch
    let receiveAddress := request.text "receive_address"
    requirePresent [receiveAddress] .missingReceiveAddress
    let keyringPath ← keyringLocator files (signer.text "keyring_yaml_path")
    let assetId ← nativeAsset request
    let plan ← Plan.parse request .derive
    return [
      ("asset_id", .str assetId),
      ("chia_keys_dir", .str (signer.text "chia_keys_dir")),
      ("key_id", .str keyId),
      ("keyring_yaml_path", .str keyringPath),
      ("market_id", .str (request.text "market_id")),
      ("network", .str (request.text "network")),
      ("plan", plan.toJson),
      ("receive_address", .str receiveAddress),
      ("selected_source", .str (request.text "selected_source"))]

/-- What every handoff behind the signer carries: who signs, on which market, and the plan. -/
def signingFields (identity : Identity) (marketId : String) (plan : Json) : Fields := [
  ("asset_id", .str identity.assetId),
  ("key_id", .str identity.keyId),
  ("keyring_yaml_path", .str identity.keyringPath),
  ("market_id", .str marketId),
  ("network", .str identity.network),
  ("plan", plan),
  ("receive_address", .str identity.receiveAddress)]

/-- The signer's handoff. It makes the checks of an identity with causes of its own. -/
def toBackend (files : Files) (request : Fields) : Except Rejection Fields := do
  requireKeyring request
  let keyId := request.text "key_id"
  let network := request.text "network"
  requirePresent [keyId, network] .missingKeyOrNetwork
  let receiveAddress := request.text "receive_address"
  requirePresent [receiveAddress] .missingReceiveAddress
  let keyringPath ← keyringLocator files (request.text "keyring_yaml_path")
  let assetId ← nativeAsset request
  let plan ← Plan.parse request .deriveWhenAbsent
  return signingFields { keyId, network, receiveAddress, keyringPath, assetId }
    (request.text "market_id") plan.toJson

/-! ## From the coins to the submission -/

structure Job where
  identity : Identity
  marketId : String
  plan : Plan
deriving DecidableEq, Repr

/-- Reads a job, the identity before the plan. -/
def Job.parse (files : Files) (request : Fields) (policy : Plan.TargetPolicy) :
    Except Rejection Job := do
  let identity ← Identity.parse files request
  let plan ← Plan.parse request policy
  return { identity, marketId := request.text "market_id", plan }

/-- What the coin selector is asked: coins at an address that are worth the target. -/
def toSelector (job : Job) : Fields := [
  ("asset_id", .str job.identity.assetId),
  ("network", .str job.identity.network),
  ("receive_address", .str job.identity.receiveAddress),
  ("target_total_base_units", .ofUInt64 job.plan.target)]

def selectorCoins (answer : Fields) : Except Rejection Selection :=
  match Selection.ofJson? ((answer.get? "selected_coins").or (answer.get? "coins")) with
  | some selection => .ok selection
  | none => .error .noUnspentCoins

/-- The builder's handoff: the job with coins that cover its target. -/
def toBundleSigner (job : Job) (selection : Selection) : Except Rejection Fields := do
  let _ ← selection.resolve job.plan.target
  return signingFields job.identity job.marketId job.plan.toJson ++
    [("selected_coins", selection.toJson)]

def requestCoins (request : Fields) : Except Rejection Selection :=
  match Selection.ofJson? (request.get? "selected_coins") with
  | some selection => .ok selection
  | none => .error .missingSelectedCoins

def additionsJson (outputs : List Output) : Json := .arr (outputs.map Output.toJson)

/-- The engine's handoff: the outputs of the plan, and what the selected coins are worth. -/
def toSubmission (files : Files) (request : Fields) : Except Rejection Fields := do
  let job ← Job.parse files request .required
  let selection ← requestCoins request
  let resolved ← selection.resolve job.plan.target
  let outputs := Outputs.ofPlan job.plan resolved job.identity.receiveAddress
  return ("additions", additionsJson outputs.toList) ::
    signingFields job.identity job.marketId job.plan.toJson ++
    [("selected_coins", selection.toJson),
      ("selected_total_base_units", .ofUInt64 resolved.selected)]

/-- The last handoff: additions that the selected coins cover. The plan goes along as it is. -/
def toSignSubmit (files : Files) (request : Fields) : Except Rejection Fields := do
  let identity ← Identity.parse files request
  let additions ← parseAdditions request
  let selection ← requestCoins request
  let _ ← remainder selection.total additions
  return ("additions", additionsJson additions) ::
    signingFields identity (request.text "market_id") ((request.get? "plan").getD .null) ++
    [("selected_coins", selection.toJson)]

end CoinRelay.Handoff
