/-!
# Stages, hops and key sources

A request passes through six stages. From each stage a hop leads on to the next one, or out of the
program; each hop has a command of its own. The first hop depends on where the signing key comes
from.
-/

namespace CoinRelay

inductive Stage where
  | route
  | worker
  | signer
  | builder
  | rawEngine
  | submit
deriving DecidableEq, Repr

namespace Stage

def all : List Stage := [.route, .worker, .signer, .builder, .rawEngine, .submit]

def subcommand : Stage → String
  | .route => "route"
  | .worker => "worker"
  | .signer => "signer"
  | .builder => "builder"
  | .rawEngine => "raw-engine"
  | .submit => "submit"

def ofName? (name : String) : Option Stage := all.find? (·.subcommand = name)

end Stage

/-- A way from one stage to whatever answers it. -/
inductive Hop where
  | chiaKeysExecutor
  | mnemonicExecutor
  | generateKeyExecutor
  | signer
  | signerBackend
  | coinSelector
  | bundleSigner
  | sdkSubmit
  | signSubmit
deriving DecidableEq, Repr

namespace Hop

def all : List Hop := [.chiaKeysExecutor, .mnemonicExecutor, .generateKeyExecutor, .signer,
  .signerBackend, .coinSelector, .bundleSigner, .sdkSubmit, .signSubmit]

def name : Hop → String
  | .chiaKeysExecutor => "chia_keys_executor"
  | .mnemonicExecutor => "mnemonic_executor"
  | .generateKeyExecutor => "generate_key_executor"
  | .signer => "signer"
  | .signerBackend => "signer_backend"
  | .coinSelector => "coin_selector"
  | .bundleSigner => "bundle_signer"
  | .sdkSubmit => "sdk_submit"
  | .signSubmit => "sign_submit"

def ofName? (name : String) : Option Hop := all.find? (·.name = name)

def environmentVariable : Hop → String
  | .chiaKeysExecutor => "COIN_OPS_CHIA_KEYS_EXECUTOR_CMD"
  | .mnemonicExecutor => "COIN_OPS_MNEMONIC_EXECUTOR_CMD"
  | .generateKeyExecutor => "COIN_OPS_GENERATE_KEY_EXECUTOR_CMD"
  | .signer => "COIN_OPS_SIGNER_CMD"
  | .signerBackend => "COIN_OPS_SIGNER_BACKEND_CMD"
  | .coinSelector => "COIN_OPS_COIN_SELECTOR_CMD"
  | .bundleSigner => "COIN_OPS_BUNDLE_SIGNER_CMD"
  | .sdkSubmit => "COIN_OPS_SDK_SUBMIT_CMD"
  | .signSubmit => "COIN_OPS_SIGN_SUBMIT_CMD"

/-- The word that begins the reasons of a failure on this hop. -/
def tag : Hop → String
  | .chiaKeysExecutor | .mnemonicExecutor | .generateKeyExecutor => "worker"
  | .signer => "signer"
  | .signerBackend => "signer_backend"
  | .coinSelector => "coin_selection"
  | .bundleSigner => "bundle_signer"
  | .sdkSubmit => "sdk_submit"
  | .signSubmit => "sign_submit"

/-- The stage of this program that answers the hop where no command is set. -/
def builtin? : Hop → Option Stage
  | .chiaKeysExecutor => some .worker
  | .signer => some .signer
  | .signerBackend => some .builder
  | .bundleSigner => some .rawEngine
  | .sdkSubmit => some .submit
  | .mnemonicExecutor | .generateKeyExecutor | .coinSelector | .signSubmit => none

def notConfigured : Hop → String
  | .chiaKeysExecutor => "chia_keys_executor_not_configured"
  | .mnemonicExecutor => "mnemonic_import_executor_not_configured"
  | .generateKeyExecutor => "generate_new_key_executor_not_configured"
  | .coinSelector => "coin_selector_not_configured"
  | hop => hop.tag ++ "_not_configured"

/-- The place of the hop on the way of a request; the three executors are alternatives. -/
def rank : Hop → Nat
  | .chiaKeysExecutor | .mnemonicExecutor | .generateKeyExecutor => 0
  | .signer => 1
  | .signerBackend => 2
  | .coinSelector => 3
  | .bundleSigner => 4
  | .sdkSubmit => 5
  | .signSubmit => 6

end Hop

inductive KeySource where
  | chiaKeys
  | mnemonicImport
  | generateNewKey
deriving DecidableEq, Repr

namespace KeySource

def all : List KeySource := [.chiaKeys, .mnemonicImport, .generateNewKey]

def name : KeySource → String
  | .chiaKeys => "chia_keys"
  | .mnemonicImport => "mnemonic_import"
  | .generateNewKey => "generate_new_key"

def ofName? (name : String) : Option KeySource := all.find? (·.name = name)

def executor : KeySource → Hop
  | .chiaKeys => .chiaKeysExecutor
  | .mnemonicImport => .mnemonicExecutor
  | .generateNewKey => .generateKeyExecutor

end KeySource

end CoinRelay
