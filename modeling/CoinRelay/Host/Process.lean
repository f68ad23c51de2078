import CoinRelay.Delegation
import CoinRelay.Text.Utf8

/-!
# Child processes

What becomes of a command that is started with a request on its standard input, and the reply that
this amounts to under a time limit. Output that is not text is read leniently.
-/

namespace CoinRelay.Host

structure Ending where
  /-- The exit code, unless the process was killed. -/
  code : Option Int
  stdout : List UInt8
  stderr : List UInt8
deriving DecidableEq, Repr

inductive Launch where
  | refused (cause : String)
  | ended (ending : Ending) (elapsed : Duration)
  | endless

namespace Ending

def success (ending : Ending) : Bool := ending.code = some 0

/-- What a failed process has to say: its errors, or else its output. -/
def detail (ending : Ending) : String :=
  let stderr := Text.trim (Text.Utf8.lenient ending.stderr)
  let stdout := Text.trim (Text.Utf8.lenient ending.stdout)
  if !stderr.isEmpty then stderr else if !stdout.isEmpty then stdout else "unknown_error"

def reply (ending : Ending) : Reply :=
  if ending.success then parseReply (Text.Utf8.lenient ending.stdout)
  else .error (.exit ending.code (DelegationError.cap ending.detail))

end Ending

namespace Launch

/-- The reply of a command that has to end before the limit. -/
def reply (limit : Duration) : Launch → Reply
  | .refused cause => .error (.spawn cause)
  | .endless => .error (.timeout limit)
  | .ended ending elapsed =>
    if limit.nanos ≤ elapsed.nanos then .error (.timeout limit) else ending.reply

def waited (limit : Duration) : Launch → Duration
  | .refused _ => ⟨0⟩
  | .endless => limit
  | .ended _ elapsed => ⟨min limit.nanos elapsed.nanos⟩

end Launch

end CoinRelay.Host
