import CoinRelay.CommandLine
import CoinRelay.Config.File
import CoinRelay.Delegation

/-!
# Configurations

Which command answers each hop, and how long it may take. A configuration is built in steps, and a
later step wins over an earlier one: an entry point, a single command, a timeout, a config file, the
environment. A hop without a command falls back to a stage of this program, which is reached by
starting the entry point once more with the same config file.
-/

namespace CoinRelay

/-- The commands of the hops, and what is needed to start this program once more. -/
structure Config where
  commands : Hop → Option String := fun _ => none
  timeout : Duration := .ofSecs 120
  /-- The program that holds the built-in stages. -/
  entryPoint : Option String := none
  filePath : Option String := none

namespace Config

/-- A text that is no command: nothing but blanks. Files and environments cannot set it. -/
def isBlankCommand (command : String) : Bool := Text.allBlank command

/-- The command after one that is given: that one, unless it is blank or absent. -/
def override (earlier : Option String) (given : Option String) : Option String :=
  match given with
  | some command => if isBlankCommand command then earlier else some command
  | none => earlier

inductive Step where
  | entryPoint (program : String)
  | command (hop : Hop) (command : String)
  | timeout (limit : Duration)
  | file (path : String) (settings : FileSettings)
  | environment (lookup : String → Option String)

def apply (config : Config) : Step → Config
  | .entryPoint program => { config with entryPoint := some program }
  | .command hop command =>
    { config with commands := fun h => if h = hop then some command else config.commands h }
  | .timeout limit => { config with timeout := limit }
  | .file path settings =>
    { config with
      commands := fun h => override (config.commands h) (settings.commands h)
      timeout := (settings.timeoutSecs.map fun n => .ofSecs n.toNat).getD config.timeout
      filePath := some path }
  | .environment lookup =>
    { config with commands := fun h => override (config.commands h) (lookup h.environmentVariable) }

def applyAll (config : Config) (steps : List Step) : Config := steps.foldl apply config

def stageArguments (config : Config) (stage : Stage) : List String :=
  (config.filePath.map fun path => ["--config-path", path]).getD [] ++ [stage.subcommand]

/-- The built-in answer to a hop: its stage, run by the entry point. -/
def builtin? (config : Config) (hop : Hop) : Option CommandLine := do
  let stage ← hop.builtin?
  let program ← config.entryPoint
  return ⟨program, config.stageArguments stage⟩

/-- The command that answers a hop: the one that is set, else the built-in one, if there is one. -/
def resolve (config : Config) (hop : Hop) : Except DelegationError (Option CommandLine) :=
  match config.commands hop with
  | none => .ok (config.builtin? hop)
  | some raw =>
    match CommandLine.parse? raw with
    | some command => .ok (some command)
    | none => .error (.invalidCommand raw)

/-- The configuration of a run of this program: its own path as the entry point, then the config
file, then the environment. -/
def ofProcess (program : String) (files : Files) (environment : String → Option String)
    (path : Option String) : Except ConfigError Config := do
  let start := apply {} (.entryPoint program)
  match path with
  | none => return start.apply (.environment environment)
  | some path =>
    let settings ← FileSettings.load files path
    return (start.apply (.file path settings)).apply (.environment environment)

end Config

end CoinRelay
