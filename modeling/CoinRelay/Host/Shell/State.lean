import CoinRelay.Host.Arithmetic
import CoinRelay.Host.Script.Grammar
import CoinRelay.Host.System

/-!
# The state of a shell

What a shell knows beside the system around it: parameters, variables, functions, options, traps and
jobs, and where it is in its script. An error of the shell prints a message with the name of the
shell and a line of the script; most errors end a shell.
-/

namespace CoinRelay.Host.Shell

open Script (Command Source Word)

/-! ## What a shell knows -/

structure Variable where
  /-- It may be known without being set. -/
  value : Option Octets := none
  exported : Bool := false
  fixed : Bool := false
deriving DecidableEq, Repr

/-- Processes that were started together. The last of them gives the status. -/
structure Job where
  number : Nat
  pids : List Nat
  awaited : Bool := false

/-- What was there before something was made local. -/
inductive Local where
  | known (name : Octets) (before : Option Variable)
  | options (before : List Char)

inductive Skip where
  | nothing
  /-- The rest of a number of loops, of which the last one may go on. -/
  | loops (count : Nat) (goesOn : Bool)
  /-- The rest of a function or of a file. -/
  | function (explicit : Bool)
deriving DecidableEq, Repr

structure OptionCursor where
  index : Nat := 1
  offset : Option Nat := none

structure Session where
  name : Octets
  /-- The process of the shell that the script began in. -/
  rootPid : Nat
  parameters : List Octets := []
  cursor : OptionCursor := {}
  bindings : List (Octets × Variable) := []
  functions : List (Octets × Command) := []
  aliases : List (Octets × Octets) := []
  options : List Char := []
  /-- The way on which the shell has come to its directory, if it has left the first one. -/
  directory : Option Octets := none
  traps : List (Nat × Octets) := []
  /-- Signals that have come and whose traps are still to be carried out. -/
  pending : List Nat := []
  status : Nat := 0
  /-- The status of the last command whose output was captured. -/
  captured : Nat := 0
  /-- The status before a trap. -/
  saved : Option Nat := none
  /-- The line of the command that is carried out, which messages name. -/
  line : Nat := 0
  /-- The line up to which the script is read. -/
  readLine : Nat := 1
  command : Option Octets := none
  depth : Nat := 0
  loops : Nat := 0
  skip : Skip := .nothing
  /-- What the commands of the shell have printed and not yet written. -/
  buffer : Octets := []
  /-- Redirections under way, the innermost first: to what each descriptor led before. -/
  redirections : List (List (Nat × Option Nat)) := []
  /-- What is local to the functions under way, the innermost first. -/
  locals : List (List Local) := []
  jobs : List Job := []
  lastBackground : Option Nat := none
  umask : Nat := 18
  documents : List (Nat × Word) := []
  nextDocument : Nat := 0
  /-- Traces are not traced. -/
  tracing : Bool := false

structure State where
  system : System
  shell : Session

abbrev Action := ExceptT Stop (StateM State)

def act {α : Type} (a : Act α) : Action α := fun s =>
  let (result, system) := a.run s.system
  (result, { s with system })

def shell : Action Session := return (← get).shell

def change (f : Session → Session) : Action Unit := modify fun s => { s with shell := f s.shell }

def setStatus (status : Nat) : Action Unit := change ({ · with status })

def pid : Action Nat := return (← get).system.process.pid

def clock : Action Nat := return (← get).system.process.clock

/-! ## Messages and output -/

def Session.message (s : Session) (text : Octets) : Octets :=
  let command := match s.command with
    | some c => c ++ [':', ' ']
    | none => []
  s.name ++ [':', ' '] ++ Octets.ofNat s.line ++ [':', ' '] ++ command ++ text ++ ['\n']

def writeError (cs : Octets) : Action Unit := do
  let _ ← act (Act.write 2 cs)

def warn (text : Octets) : Action Unit := do writeError ((← shell).message text)

/-- Prints, which is written when the command comes to its end. -/
def print (cs : Octets) : Action Unit := change fun s => { s with buffer := s.buffer ++ cs }

/-- Writes what was printed, and tells what is wrong with the output. -/
def flush : Action (Option Fault) := do
  let cs := (← shell).buffer
  change ({ · with buffer := [] })
  if cs.isEmpty then return none else act (Act.write 1 cs)

def fail {α : Type} (text : Octets) : Action α := do
  warn text
  let _ ← flush
  setStatus 2
  throw .failed

def failAbout {α : Type} (subject : Octets) (text : String) : Action α :=
  fail (subject ++ ": ".toList ++ text.toList)

def atLine (line : Nat) : Action Unit := change ({ · with line })

def failReading {α : Type} (line : Nat) (m : Script.Mistake) : Action α := do
  atLine line
  fail m.message.toList

/-! ## Options -/

/-- The options by their names. Those that have no letter go by a control character. -/
def optionNames : List (String × Char) := [("errexit", 'e'), ("noglob", 'f'), ("ignoreeof", 'I'),
  ("interactive", 'i'), ("monitor", 'm'), ("noexec", 'n'), ("stdin", 's'), ("xtrace", 'x'),
  ("verbose", 'v'), ("vi", 'V'), ("emacs", 'E'), ("noclobber", 'C'), ("allexport", 'a'),
  ("notify", 'b'), ("nounset", 'u'), ("privileged", 'p'), ("nolog", '\x01'), ("debug", '\x02')]

def hasOption (letter : Char) : Action Bool := return letter ∈ (← shell).options

def Session.optionLetters (s : Session) : Octets :=
  (optionNames.reverse.map (·.2)).filter fun c => ' ' < c ∧ c ∈ s.options

/-- Sets an option. There is no terminal from which jobs could be controlled. -/
def setOption (letter : Char) (on : Bool) : Action Unit := do
  if on ∧ letter = 'm' then warn "can't access tty; job control turned off".toList
  else if optionNames.any (·.2 = letter) then
    change fun s =>
      let others := s.options.filter fun c =>
        c ≠ letter && !(on && ((letter = 'V' && c = 'E') || (letter = 'E' && c = 'V')))
      { s with options := if on then letter :: others else others }
  else fail ("Illegal option -".toList ++ [letter])

/-- A letter before a colon takes an argument. What follows the options are the operands. -/
def commandOptions (known : String) (arguments : List Octets) :
    Action (List (Char × Octets) × List Octets) :=
  match read [] arguments (arguments.length + 1) with
  | .ok found => return found
  | .error text => fail text
where
  letters (found : List (Char × Octets)) (rest : List Octets) :
      Octets → Except Octets (List (Char × Octets) × List Octets)
    | [] => .ok (found, rest)
    | c :: cs =>
      match (known.toList.dropWhile (· ≠ c)).take 2 with
      | [_, ':'] =>
        match cs, rest with
        | [], [] => .error ("No arg for -".toList ++ [c] ++ " option".toList)
        | [], a :: rest => .ok ((c, a) :: found, rest)
        | cs, rest => .ok ((c, cs) :: found, rest)
      | [] => .error ("Illegal option -".toList ++ [c])
      | _ => letters ((c, []) :: found) rest cs
  read (found : List (Char × Octets)) (arguments : List Octets) :
      Nat → Except Octets (List (Char × Octets) × List Octets)
    | 0 => .ok (found.reverse, arguments)
    | fuel + 1 =>
      match arguments with
      | ['-', '-'] :: rest => .ok (found.reverse, rest)
      | ('-' :: c :: cs) :: rest => do
        let (found, rest) ← letters found rest (c :: cs)
        read found rest fuel
      | rest => .ok (found.reverse, rest)

def number (cs : Octets) : Action Nat := do
  match (Arithmetic.ofDecimal? cs).filter fun n => 0 ≤ n && n ≤ 2147483647 with
  | some n => return n.toNat
  | none => fail ("Illegal number: ".toList ++ cs)

/-! ## Variables -/

def Session.value? (s : Session) (name : Octets) : Option Octets :=
  (s.bindings.lookup name).bind (·.value)

def lookup? (name : String) : Action (Option Octets) := return (← shell).value? name.toList

def putVariable (name : Octets) (v : Option Variable) : Action Unit := change fun s =>
  let others := s.bindings.filter (·.1 ≠ name)
  { s with bindings := match v with
    | some v => (name, v) :: others
    | none => others }

/-- Reading options begins anew when its own variable is set. -/
def assign (name : Octets) (value : Option Octets) (exported fixed : Bool := false) :
    Action Unit := do
  let s ← shell
  let known := s.bindings.lookup name
  if known.any (·.fixed) then failAbout name "is read only"
  let v := known.getD {}
  if name = "OPTIND".toList then
    let index ← match value with
      | some cs => number cs
      | none => pure 1
    change ({ · with cursor := { index := max index 1 } })
  let exported := v.exported || exported || 'a' ∈ s.options
  putVariable name <|
    if value.isNone ∧ !exported ∧ !fixed then none
    else some { value, exported, fixed }

/-- Sets a variable. Its name ends before an equals sign. -/
def setVariable (name : Octets) (value : Option Octets) (exported fixed : Bool := false) :
    Action Unit := do
  let name := name.takeWhile (· ≠ '=')
  if Script.isName name then assign name value exported fixed
  else failAbout name "bad variable name"

def splitAssignment (cs : Octets) : Octets × Option Octets :=
  (cs.takeWhile (· ≠ '='), if '=' ∈ cs then some ((cs.dropWhile (· ≠ '=')).drop 1) else none)

/-- Begins a function, or a command with assignments of its own. -/
def pushLocals : Action Unit := change fun s => { s with locals := [] :: s.locals }

def remember (before : Local) : Action Unit := change fun s =>
  { s with locals := match s.locals with
    | innermost :: outer => (before :: innermost) :: outer
    | [] => [] }

/-- Makes a variable local to what was begun last, or the options, which a hyphen stands for. A
variable keeps its value unless it is given one. -/
def makeLocal (cs : Octets) (exported : Bool := false) : Action Unit := do
  let s ← shell
  if cs = ['-'] then remember (.options s.options)
  else
    let (name, value) := splitAssignment cs
    let before := s.bindings.lookup name
    if value.isSome ∨ before.isNone then
      if !Script.isName name then failAbout name "bad variable name"
    remember (.known name before)
    match value, before with
    | some _, _ => assign name value exported
    | none, none => putVariable name (some { exported })
    | none, some _ => return

def Local.restore : Local → Action Unit
  | .known name before => putVariable name before
  | .options before => change ({ · with options := before })

def popLocals : Action Unit := do
  match (← shell).locals with
  | [] => return
  | innermost :: outer =>
    change ({ · with locals := outer })
    for before in innermost do before.restore

def unwindLocals (levels : Nat) : (fuel : Nat) → Action Unit
  | 0 => return
  | fuel + 1 => do
    if levels < (← shell).locals.length then
      popLocals
      unwindLocals levels fuel

/-- A text in quotes, the way the shell itself shows it: single ones, and double ones around runs of
single quotes. -/
def quotedValue : (fuel : Nat) → Octets → Octets
  | 0, _ => []
  | fuel + 1, cs =>
    let rest := cs.dropWhile (· ≠ '\'')
    let after := rest.dropWhile (· = '\'')
    let front := ['\''] ++ cs.takeWhile (· ≠ '\'') ++ ['\'']
    let middle := if rest.isEmpty then [] else ['"'] ++ rest.takeWhile (· = '\'') ++ ['"']
    front ++ middle ++ if after.isEmpty then [] else quotedValue fuel after

def quoteValue (cs : Octets) : Octets := quotedValue (cs.length + 1) cs

def Session.environment (s : Session) : List (Octets × Octets) :=
  s.bindings.reverse.filterMap fun (name, v) =>
    if v.exported then v.value.map (name, ·) else none

end CoinRelay.Host.Shell
