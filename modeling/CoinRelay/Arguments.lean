import CoinRelay.Hop
import CoinRelay.Text.Similarity

/-!
# Arguments of the program

The program is started with a subcommand, and with the path of a config file before or behind it.
Of several paths the last one counts, and one behind the subcommand counts more than all before it.
What cannot be understood is refused as a whole, with a notice that says why; a request for help or
for the version is granted as soon as it is seen.
-/

namespace CoinRelay

inductive Task where
  | stage (stage : Stage)
  | plan
deriving DecidableEq, Repr

def Task.ofName? (name : String) : Option Task :=
  if name = "plan" then some .plan else (Stage.ofName? name).map .stage

/-- Why arguments are refused. -/
inductive Misuse where
  | unknownFlag (flag : String) (similar : Option String)
  | unknownLetter (letter : Char)
  | needlessValue (flag value : String)
  | unexpected (word : String)
  /-- A word behind the separator. -/
  | separated (word : String)
  | missingPath
  | missingTask
deriving DecidableEq, Repr

inductive Arguments where
  | task (task : Task) (configPath : Option String)
  | version
  | help
  | refused (misuse : Misuse)
deriving DecidableEq, Repr

namespace Arguments

/-- What one argument means where no value is expected. -/
inductive Flag where
  | configPath
  | configPathTo (path : String)
  | version
  | help
  /-- From here on there are no flags. -/
  | separator
  | unknown (misuse : Misuse)
  | word
deriving DecidableEq, Repr

def longFlags : List String := ["config-path", "help", "version"]

def longFlag (name : String) (value : Option String) : Flag :=
  match name, value with
  | "config-path", none => .configPath
  | "config-path", some path => .configPathTo path
  | "help", none => .help
  | "version", none => .version
  | name, value =>
    .unknown (match value with
      | some value =>
        if name ∈ longFlags then .needlessValue ("--" ++ name) value
        else .unknownFlag ("--" ++ name) (Text.Similarity.closest? (4 / 5) name longFlags)
      | none => .unknownFlag ("--" ++ name) (Text.Similarity.closest? (4 / 5) name longFlags))

/-- A single dash is a word like any other. Of short flags written together the first decides. -/
def flag (argument : String) : Flag :=
  match argument.toList with
  | ['-', '-'] => .separator
  | '-' :: '-' :: rest =>
    let name := rest.takeWhile (· ≠ '=')
    let value := rest.drop (name.length + 1)
    longFlag (String.ofList name) (if '=' ∈ rest then some (String.ofList value) else none)
  | '-' :: 'V' :: _ => .version
  | '-' :: 'h' :: _ => .help
  | '-' :: letter :: _ => .unknown (.unknownLetter letter)
  | _ => .word

/-- Reads the arguments behind the subcommand. `path` is the last config path so far, and `due`
tells that the value of one is due. -/
def behindTask (task : Task) : (due : Bool) → (path : Option String) → List String → Arguments
  | due, path, [] => if due then .refused .missingPath else .task task path
  | due, path, argument :: rest =>
    match flag argument with
    | .word =>
      if !due then .refused (.unexpected argument)
      else if argument.isEmpty then .refused .missingPath
      else behindTask task false (some argument) rest
    | .configPath => behindTask task true path rest
    | .configPathTo path =>
      if path.isEmpty then .refused .missingPath else behindTask task false (some path) rest
    | .separator =>
      match rest with
      | [] => if due then .refused .missingPath else .task task path
      | word :: _ => .refused (.separated word)
    | .help => .help
    | .version => .refused (.unknownFlag argument none)
    | .unknown misuse => .refused misuse

def helpOn : List String → Arguments
  | [] => .help
  | [name] =>
    if name = "help" ∨ (Task.ofName? name).isSome then .help else .refused (.unexpected name)
  | _ :: word :: _ => .refused (.unexpected word)

def beforeTask : (due : Bool) → (path : Option String) → List String → Arguments
  | due, _, [] => .refused (if due then .missingPath else .missingTask)
  | due, path, argument :: rest =>
    match flag argument with
    | .word =>
      if due then
        if argument.isEmpty then .refused .missingPath
        else beforeTask false (some argument) rest
      else if argument = "help" then helpOn rest
      else match Task.ofName? argument with
        | some found => behindTask found false path rest
        | none => .refused (.unexpected argument)
    | .configPath => beforeTask true path rest
    | .configPathTo path =>
      if path.isEmpty then .refused .missingPath else beforeTask false (some path) rest
    | .version => .version
    | .help => .help
    | .separator =>
      .refused (match rest with
        | [] => .missingTask
        | word :: _ => .separated word)
    | .unknown misuse => .refused misuse

def parse (arguments : List String) : Arguments := beforeTask false none arguments

end Arguments

/-! ## Notices -/

namespace Misuse

def usage : Misuse → String
  | .unknownFlag _ none => "--config-path <CONFIG_PATH>"
  | .unknownFlag _ (some "config-path") => "--config-path <CONFIG_PATH>"
  | .unknownFlag _ (some similar) => "--config-path <CONFIG_PATH> --" ++ similar
  | .needlessValue flag _ => flag
  | _ => "[OPTIONS]"

/-- How to have a word that looks like a flag taken for what it is not. -/
def asValue (word : String) : String :=
  "\n\n\tIf you tried to supply `" ++ word ++ "` as a value rather than a flag, use `-- " ++ word ++
    "`"

def notFound (word : String) : String :=
  "Found argument '" ++ word ++ "' which wasn't expected, or isn't valid in this context"

def cause : Misuse → String
  | .unknownFlag flag similar =>
    let hint := (similar.map fun s => "\n\n\tDid you mean '--" ++ s ++ "'?").getD ""
    notFound flag ++ hint ++ asValue flag
  | .unknownLetter letter =>
    let flag := String.ofList ['-', letter]
    notFound flag ++ asValue flag
  | .needlessValue flag value =>
    "The value '" ++ value ++ "' was provided to '" ++ flag ++
      "' but it wasn't expecting any more values"
  | .unexpected word => notFound word
  | .separated word =>
    notFound word ++ "\n\n\tIf you tried to supply `" ++ word ++
      "` as a subcommand, remove the '--' before it."
  | .missingPath =>
    "The argument '--config-path <CONFIG_PATH>' requires a value but none was supplied"
  | .missingTask => "'coin-ops' requires a subcommand, but one was not provided"

def notice (misuse : Misuse) : String :=
  "error: " ++ misuse.cause ++ "\n\nUSAGE:\n    coin-ops " ++ misuse.usage ++
    " <SUBCOMMAND>\n\nFor more information try --help\n"

end Misuse

end CoinRelay
