import CoinRelay.Host.Launch
import CoinRelay.Program

/-!
# The command line

Collects what one run of the program may look at, namely its arguments, standard input, variables of
the environment and the files that the arguments and the request name, and prints what the run
amounts to. Paths are looked at by opening them.
-/

namespace CoinRelay.Main

partial def readAll (stream : IO.FS.Stream) (bytes : ByteArray) : IO ByteArray := do
  let chunk ← stream.read 65536
  if chunk.isEmpty then return bytes else readAll stream (bytes ++ chunk)

/-- What an open handle gives; a directory opens and cannot be read. -/
def readOpened (handle : IO.FS.Handle) : IO Host.Entry := do
  try
    return .file (← handle.readBinToEnd).toList
  catch _ =>
    return .directory

def entryAt (path : String) : IO (Option Host.Entry) := do
  try
    return some (← readOpened (← IO.FS.Handle.mk path .read))
  catch _ =>
    return none

/-- The variables of the environment that a run or its commands look at. -/
def environmentVariables : IO (List (String × String)) :=
  ("HOME" :: "PATH" :: Hop.all.map Hop.environmentVariable).filterMapM fun name => do
    return (← IO.getEnv name).map (name, ·)

/-- The files that a run may look at, in the working directory of this process. -/
def filesAt (paths : List String) : IO Host.FileTree := do
  let working := (← IO.currentDir).toString.splitOn "/"
  let start : Host.FileTree := ⟨Host.FileTree.systemEntries, working.filter (· ≠ "")⟩
  paths.foldlM (fun tree path => do
    return ((← entryAt path).map (tree.putAlong path)).getD tree) start

/-- Runs the program on what is there, prints its answer and gives its exit code. -/
def runProgram (arguments : List String) : IO UInt32 := do
  let stdin := (← readAll (← IO.getStdin) .empty).toList
  let environment ← environmentVariables
  let home := (environment.lookup "HOME").getD ""
  let files ← filesAt (Program.paths home arguments stdin)
  let world : World := ⟨home, (environment.lookup ·), Host.launch environment⟩
  let program := (← IO.appPath).toString
  let result := Program.run world program files arguments stdin
  IO.print result.stdout
  IO.eprint result.stderr
  return UInt32.ofNat result.exit

end CoinRelay.Main

def main (arguments : List String) : IO UInt32 := CoinRelay.Main.runProgram arguments
