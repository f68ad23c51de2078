import CoinRelay.Files
import CoinRelay.Rejection

/-!
# Keyring locators

Where the signing keys are: a path, in which a leading tilde stands for the home directory. A
locator is accepted when something exists at the path; what is there is the signer's business.
-/

namespace CoinRelay

/-- A path taken from a base directory. An absolute path stands for itself; otherwise one separator
stands between the two. -/
def joinPath (base path : String) : String :=
  if path.toList.head? = some '/' then path
  else if base.isEmpty || base.toList.getLast? = some '/' then base ++ path
  else base ++ "/" ++ path

/-- Replaces a leading `~` by the home directory where it is a component of its own. -/
def expandHome (home path : String) : String :=
  match path.toList with
  | ['~'] => home
  | '~' :: '/' :: rest => joinPath home (String.ofList rest)
  | _ => path

/-- Accepts a keyring path as it is written, if it leads to something. -/
def keyringLocator (files : Files) (path : String) : Except Rejection String :=
  if path.isEmpty then .error .missingKeyringPath
  else if files.holds (expandHome files.home path) then .ok path
  else .error .keyringNotFound

end CoinRelay
