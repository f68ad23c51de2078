import CoinRelay.Files
import CoinRelay.Hop
import CoinRelay.Text.Utf8
import CoinRelay.Word
import CoinRelay.Yaml.Node

/-!
# Config files

A config file is a YAML mapping that may set the timeout in seconds and the commands of hops. A file
without content sets nothing. Other keys are refused, and so is a key that comes twice at the top;
of a hop that comes twice the last command counts.
-/

namespace CoinRelay

structure FileSettings where
  timeoutSecs : Option UInt64 := none
  commands : Hop → Option String := fun _ => none

inductive ConfigError where
  | cannotRead (path : String)
  | cannotParse (path : String)
deriving DecidableEq, Repr

def ConfigError.message : ConfigError → String
  | .cannotRead path => "Cannot read config file " ++ path
  | .cannotParse path => "Cannot parse config file " ++ path

namespace Yaml

/-! ## Values of a config file -/

def isNullText (text : String) : Bool := text ∈ ["null", "Null", "NULL", "~"]

def nullTag : String := "tag:yaml.org,2002:null"

def integerTag : String := "tag:yaml.org,2002:int"

/-- The value of a digit in a base of at most sixteen. -/
def digitIn? (base : Nat) (c : Char) : Option Nat := (Json.hexValue? c).filter (· < base)

def readBase? (base : Nat) (cs : List Char) : Option UInt64 := do
  if cs.isEmpty then none
  let n ← cs.foldlM (fun n c => (digitIn? base c).map (n * base + ·)) 0
  Word.ofNat? n

/-- An unsigned word as a plain scalar: behind an optional plus sign in base sixteen, eight or two
with its mark, or in decimal without leading zeros. -/
def readUnsigned? (text : String) : Option UInt64 :=
  let cs := match text.toList with
    | '+' :: cs => cs
    | cs => cs
  match cs with
  | '0' :: 'x' :: cs => readBase? 16 cs
  | '0' :: 'o' :: cs => readBase? 8 cs
  | '0' :: 'b' :: cs => readBase? 2 cs
  | '0' :: _ :: _ => none
  | cs => readBase? 10 cs

namespace Document

def text? (document : Document) (node : Node) : Option String :=
  match document.follow node with
  | .scalar text .. => some text
  | _ => none

/-- A plain scalar may stand for nothing. Under the tag of nothing it has to. -/
def seconds? (document : Document) (node : Node) : Option (Option UInt64) :=
  match document.follow node with
  | .scalar text .plain tag _ =>
    if tag = some nullTag then (if isNullText text then some none else none)
    else if tag.isNone ∧ (text = "" ∨ isNullText text) then some none
    else (readUnsigned? text).map some
  | .scalar text .literal tag _ =>
    if tag = some integerTag then (readUnsigned? text).map some else none
  | _ => none

/-- The entries of a mapping. A plain scalar without text stands for none. -/
def entries? (document : Document) (node : Node) : Option (List (Node × Node)) :=
  match document.follow node with
  | .mapping entries _ => some entries
  | .scalar "" .plain .. => some []
  | _ => none

/-- The hop that a key names: by its text, or by a tag of its own in front of nothing. -/
def hop? (document : Document) (node : Node) : Option Hop :=
  match document.follow node with
  | .scalar text style tag _ =>
    match tag.map String.toList with
    | some ('!' :: name) =>
      if style = .plain ∧ (text = "" ∨ isNullText text) then Hop.ofName? (String.ofList name)
      else none
    | _ => Hop.ofName? text
  | _ => none

def commands? (document : Document) (node : Node) : Option (Hop → Option String) := do
  let entries ← document.entries? node
  let pairs ← entries.mapM fun e => do return (← document.hop? e.1, ← document.text? e.2)
  return fun hop => pairs.reverse.lookup hop

end Document

end Yaml

namespace FileSettings

/-- The value of a key that comes at most once. -/
def single? (entries : List (String × Yaml.Node)) (key : String) : Option (Option Yaml.Node) :=
  match entries.filter (·.1 = key) with
  | [] => some none
  | [e] => some (some e.2)
  | _ => none

def ofDocument? (document : Yaml.Document) : Option FileSettings := do
  let entries ← (← document.entries? document.root).mapM fun e => do
    return (← document.text? e.1, e.2)
  if entries.any fun e => e.1 ≠ "timeout_secs" ∧ e.1 ≠ "commands" then none
  let timeoutSecs ← match ← single? entries "timeout_secs" with
    | none => pure none
    | some v => document.seconds? v
  let commands ← match ← single? entries "commands" with
    | none => pure fun (_ : Hop) => (none : Option String)
    | some v => document.commands? v
  return { timeoutSecs, commands }

def ofBytes? (bytes : List UInt8) : Option FileSettings := do
  match ← Yaml.Document.parse? (← Text.Utf8.strict? bytes) with
  | none => return {}
  | some document => ofDocument? document

def load (files : Files) (path : String) : Except ConfigError FileSettings :=
  match files.contents? path with
  | none => .error (.cannotRead path)
  | some .directory => .error (.cannotParse path)
  | some (.bytes bytes) =>
    match ofBytes? bytes with
    | some settings => .ok settings
    | none => .error (.cannotParse path)

end FileSettings

end CoinRelay
