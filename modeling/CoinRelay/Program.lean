import CoinRelay.Arguments
import CoinRelay.Host.FileTree
import CoinRelay.Host.Process
import CoinRelay.Planner
import CoinRelay.Relay

/-!
# The program

One run of the program: it reads its arguments, then the request on standard input, then, for a
stage, the config file, and answers with one line of JSON. The exit code is 2 where arguments or
request are wrong, 1 where the config file is, and 0 otherwise; only then is anything printed. A
built-in hop starts the program once more, in the same environment.

Log lines are left out: they carry the time of day, and a variable of the environment chooses among
them. So standard error holds nothing but the notice about arguments that are refused, and a run that
has started another one, which then ends with a wrong request or config file, reports
`unknown_error` of it where the log would stand.
-/

namespace CoinRelay

/-- What a run of the program sees beside the files: the home directory, the environment variables,
and what becomes of commands other than the program itself. A command may change the files. -/
structure World where
  home : String
  environment : String → Option String
  launch : Host.FileTree → CommandLine → (stdin : List UInt8) → Host.Launch × Host.FileTree

namespace Program

/-- How a run ends. -/
structure Result where
  exit : Nat
  stdout : String := ""
  stderr : String := ""
deriving DecidableEq, Repr

def versionLine : String := "coin-ops-pipeline 0.1.0\n"

def usageLine : String := "USAGE:\n    coin-ops [OPTIONS] <SUBCOMMAND>\n"

/-- What is logged about a wrong request is left out. -/
def malformed : Result := { exit := 2 }

/-- What is logged about a wrong config file is left out. -/
def badConfig : Result := { exit := 1 }

/-- A value on a line of its own. -/
def answer (v : Json) : Result := { exit := 0, stdout := v.text ++ "\n" }

def plan (input : Fields) : Result :=
  match PlannerInput.ofJson? (.obj input) with
  | none => malformed
  | some input => answer (.obj [("plans", .arr (input.plans.map Plan.toJson))])

/-- What a run leaves behind. The time is what was spent waiting for commands. -/
structure Trace where
  result : Result
  elapsed : Duration := ⟨0⟩
  files : Host.FileTree

/-- The child process that a run amounts to for whoever started it, with the files behind it. -/
def Trace.launch (trace : Trace) : Host.Launch × Host.FileTree :=
  let stdout := Text.Utf8.encode trace.result.stdout
  let stderr := Text.Utf8.encode trace.result.stderr
  (.ended ⟨some trace.result.exit, stdout, stderr⟩ trace.elapsed, trace.files)

/-- The reply of a command that is carried out on the files and waited for. -/
def await (limit : Duration) (start : Host.FileTree → Host.Launch × Host.FileTree) : Run Reply := do
  let (launch, files) := start (← get).files
  modify fun h => { h with elapsed := h.elapsed.add (launch.waited limit), files }
  return launch.reply limit

def runStage (world : World) (program : String) (delegate : Delegate) (files : Host.FileTree)
    (stage : Stage) (configPath : Option String) (request : Fields) : Trace :=
  let view := files.view world.home
  match Config.ofProcess program view world.environment configPath with
  | .error _ => { result := badConfig, files }
  | .ok config =>
    let s : Surroundings := ⟨config, view, delegate⟩
    let (outcome, history) := (s.run stage request).run { files }
    { result := answer outcome.toJson, elapsed := history.elapsed, files := history.files }

/-- One run of the program, which may start itself again no more than `budget` times in a row. The
start after these ends with exit code 1, as with a wrong config file. -/
def runFor (world : World) (program : String) :
    (budget : Nat) → Host.FileTree → (arguments : List String) → (stdin : List UInt8) → Trace
  | 0, files, _, _ => { result := badConfig, files }
  | budget + 1, files, arguments, stdin =>
    match Arguments.parse arguments with
    | .version => { result := { exit := 0, stdout := versionLine }, files }
    | .help => { result := { exit := 0, stdout := usageLine }, files }
    | .refused misuse => { result := { malformed with stderr := misuse.notice }, files }
    | .task task configPath =>
      match parseRequestBytes? stdin, task with
      | none, _ => { result := malformed, files }
      | some request, .plan => { result := plan request, files }
      | some request, .stage stage =>
        let delegate : Delegate := fun call =>
          let stdin := Text.Utf8.encode call.request.text
          await call.timeout fun files =>
            if call.command.program = program then
              (runFor world program budget files call.command.args stdin).launch
            else world.launch files call.command stdin
        runStage world program delegate files stage configPath request

/-- How often the program may start itself in a row: more than the stages of a request that moves on
at every hop. -/
def nesting : Nat := 64

def run (world : World) (program : String) (files : Host.FileTree) (arguments : List String)
    (stdin : List UInt8) : Result :=
  (runFor world program nesting files arguments stdin).result

/-! ## What a run looks at -/

def requestPaths (home : String) (request : Fields) : List String :=
  ((request :: (request.objectAt? "signer_selection").toList).map fun fields =>
    expandHome home (fields.text "keyring_yaml_path"))

/-- The paths that a run may look at: that of the config file and those that the request names. -/
def paths (home : String) (arguments : List String) (stdin : List UInt8) : List String :=
  let config := match Arguments.parse arguments with
    | .task _ (some path) => [path]
    | _ => []
  config ++ ((parseRequestBytes? stdin).map (requestPaths home)).getD []

end Program

end CoinRelay
