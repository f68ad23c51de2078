/-!
# Rejections

Why a request is refused before anything is delegated. Each cause has one word for the caller and
belongs to one class of causes.
-/

namespace CoinRelay

inductive Rejection where
  | missingSelectedSource
  | unsupportedSelectedSource
  | missingKeyOrNetwork
  | missingKeyOrNetworkOrAddress
  | missingSignerSelection
  | signerKeyMismatch
  | missingKeyringPath
  | keyringNotFound
  | missingReceiveAddress
  | assetNotSupported
  | missingPlan
  | unsupportedOperation
  | invalidPlanValues
  | missingSelectedCoins
  | missingAdditions
  | invalidAdditions
  | insufficientCoinTotal
  | additionsExceedTotal
  | noUnspentCoins
deriving DecidableEq, Repr

namespace Rejection

/-- The class of a cause: the request breaks its contract, something outside it is not there, its
amounts do not add up, or it asks for an asset that is not handled. -/
inductive Kind where
  | contract
  | resource
  | arithmetic
  | unsupportedAsset
deriving DecidableEq, Repr

def Kind.name : Kind → String
  | .contract => "Contract"
  | .resource => "Resource"
  | .arithmetic => "Arithmetic"
  | .unsupportedAsset => "UnsupportedAsset"

def kind : Rejection → Kind
  | .keyringNotFound | .noUnspentCoins => .resource
  | .invalidPlanValues | .insufficientCoinTotal | .additionsExceedTotal => .arithmetic
  | .assetNotSupported => .unsupportedAsset
  | _ => .contract

/-- The word that a result gives as its reason. -/
def reason : Rejection → String
  | .missingSelectedSource => "missing_selected_source"
  | .unsupportedSelectedSource => "unsupported_selected_source"
  | .missingKeyOrNetwork => "missing_key_or_network"
  | .missingKeyOrNetworkOrAddress => "missing_key_or_network_or_address"
  | .missingSignerSelection => "missing_signer_selection"
  | .signerKeyMismatch => "signer_key_mismatch"
  | .missingKeyringPath => "missing_keyring_yaml_path"
  | .keyringNotFound => "keyring_yaml_not_found"
  | .missingReceiveAddress => "missing_receive_address"
  | .assetNotSupported => "asset_not_supported_yet"
  | .missingPlan => "missing_plan"
  | .unsupportedOperation => "unsupported_operation_type"
  | .invalidPlanValues => "invalid_plan_values"
  | .missingSelectedCoins => "missing_selected_coins"
  | .missingAdditions => "missing_additions"
  | .invalidAdditions => "invalid_additions"
  | .insufficientCoinTotal => "insufficient_selected_coin_total"
  | .additionsExceedTotal => "additions_exceed_selected_total"
  | .noUnspentCoins => "no_unspent_xch_coins"

end Rejection

end CoinRelay
