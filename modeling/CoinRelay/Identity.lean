import CoinRelay.Keyring
import CoinRelay.Request

/-!
# Signing identities

Who signs and for what: a key on a network, the address that receives the outputs, the keyring that
holds the key, and the asset. Only the native asset is handled.
-/

namespace CoinRelay

/-- The names of the native asset, in lower case; no name at all means it too. -/
def nativeAssetIds : List String := ["xch", "1", ""]

/-- ASCII letters in lower case. No other character has a lower case form that occurs in the name of
the native asset. -/
def lowerAscii (s : String) : String := String.ofList (s.toList.map Char.toLower)

def nativeAsset (request : Fields) : Except Rejection String :=
  let asset := lowerAscii (request.text "asset_id")
  if asset ∈ nativeAssetIds then .ok asset else .error .assetNotSupported

/-- Refuses with the given cause unless every text has a character. -/
def requirePresent (texts : List String) (cause : Rejection) : Except Rejection Unit :=
  if texts.any (·.isEmpty) then .error cause else .ok ()

/-- Who signs, and for what. -/
structure Identity where
  keyId : String
  network : String
  receiveAddress : String
  keyringPath : String
  assetId : String
deriving DecidableEq, Repr

namespace Identity

/-- Reads the identity of a request: the names first, then the keyring, then the asset. -/
def parse (files : Files) (request : Fields) : Except Rejection Identity := do
  let keyId := request.text "key_id"
  let network := request.text "network"
  let receiveAddress := request.text "receive_address"
  requirePresent [keyId, network, receiveAddress] .missingKeyOrNetworkOrAddress
  let keyringPath ← keyringLocator files (request.text "keyring_yaml_path")
  let assetId ← nativeAsset request
  return { keyId, network, receiveAddress, keyringPath, assetId }

def toFields (identity : Identity) : Fields := [
  ("asset_id", .str identity.assetId),
  ("key_id", .str identity.keyId),
  ("keyring_yaml_path", .str identity.keyringPath),
  ("network", .str identity.network),
  ("receive_address", .str identity.receiveAddress)]

end Identity

end CoinRelay
