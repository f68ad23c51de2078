import CoinRelay.Host.Format
import CoinRelay.Host.System

/-!
# Tools

The small programs that scripts and configurations start: they copy input, wait, print under a
format, or just succeed or fail. Each is something that a process does, from its arguments to its
status; `name` is the name under which it was started.
-/

namespace CoinRelay.Host

inductive Tool where
  | copy
  | sleep
  | print
  | succeed
  | fail
deriving DecidableEq, Repr

namespace Tool

def ofName? : String → Option Tool
  | "cat" => some .copy
  | "sleep" => some .sleep
  | "printf" => some .print
  | "true" => some .succeed
  | "false" => some .fail
  | _ => none

def complain (name text : Octets) : Act Unit := do
  let _ ← Act.write 2 (name ++ ':' :: ' ' :: text ++ ['\n'])

def pointToHelp (name : Octets) : Act Nat := do
  let _ ← Act.write 2
    ("Try '".toList ++ name ++ " --help' for more information.\n".toList)
  return 1

/-- The status of a program that has printed, when its last output could not be written. -/
def flushed (name : Octets) (status : Nat) (out : Octets) : Act Nat := do
  match ← Act.write 1 out with
  | none => return status
  | some fault =>
    complain name ("write error: " ++ fault.text).toList
    return 1

def help (name operands : Octets) (status : Nat := 0) : Act Nat :=
  flushed name status ("Usage: ".toList ++ name ++ ' ' :: operands ++ ['\n'])

def version (name title : Octets) (status : Nat := 0) : Act Nat :=
  flushed name status (title ++ " (GNU coreutils) 9.1\n".toList)

/-! ## Options -/

inductive OptionFault where
  | unknown (letter : Char)
  | unrecognized (word : Octets)
  | ambiguous (word : Octets) (possibilities : List String)
  | needless (name : String)
deriving DecidableEq, Repr

def OptionFault.text : OptionFault → Octets
  | .unknown c => "invalid option -- '".toList ++ [c, '\'']
  | .unrecognized w => "unrecognized option '--".toList ++ w ++ ['\'']
  | .ambiguous w names =>
    let listed := names.map fun n => " '--".toList ++ n.toList ++ ['\'']
    "option '--".toList ++ w ++ "' is ambiguous; possibilities:".toList ++ listed.flatten
  | .needless n => "option '--".toList ++ n.toList ++ "' doesn't allow an argument".toList

/-- The letter of a long option, which may be cut short where that leaves no doubt. -/
def longOption (known : List (String × Char)) (word : Octets) : Except OptionFault Char :=
  let name := word.takeWhile (· ≠ '=')
  let exact := known.filter fun k => k.1.toList = name
  let found := if exact.isEmpty then known.filter fun k => name.isPrefixOf k.1.toList else exact
  match found with
  | [] => .error (.unrecognized word)
  | (full, letter) :: more =>
    if more.any fun k => k.2 ≠ letter then .error (.ambiguous word (found.map (·.1)))
    else if name.length < word.length then .error (.needless full)
    else .ok letter

def arguments (letters : List Char) (known : List (String × Char)) :
    List Octets → Except OptionFault (List Char × List Octets)
  | [] => .ok ([], [])
  | ['-', '-'] :: rest => .ok ([], rest)
  | ('-' :: '-' :: word) :: rest => do
    let letter ← longOption known word
    let (options, operands) ← arguments letters known rest
    return (letter :: options, operands)
  | ('-' :: c :: cs) :: rest => do
    match (c :: cs).find? (· ∉ letters) with
    | some wrong => throw (.unknown wrong)
    | none =>
      let (options, operands) ← arguments letters known rest
      return (c :: cs ++ options, operands)
  | operand :: rest => do
    let (options, operands) ← arguments letters known rest
    return (options, operand :: operands)

/-- The letters that stand for the two options that every program has. -/
def helpLetter : Char := 'H'

def versionLetter : Char := 'V'

def common : List (String × Char) := [("help", helpLetter), ("version", versionLetter)]

/-! ## Copying -/

/-- How lines are shown when they are copied. -/
structure LineStyle where
  numbered : Bool := false
  nonblank : Bool := false
  squeezed : Bool := false
  ends : Bool := false
  tabs : Bool := false
  visible : Bool := false

def LineStyle.ofOptions (options : List Char) : LineStyle :=
  let any (letters : List Char) : Bool := options.any (· ∈ letters)
  { numbered := any ['n', 'b']
    nonblank := any ['b']
    squeezed := any ['s']
    ends := any ['A', 'E', 'e']
    tabs := any ['A', 'T', 't']
    visible := any ['A', 'e', 't', 'v'] }

structure LineState where
  number : Nat := 0
  /-- How many line ends there were in a row, up to two; `none` within a line. -/
  newlines : Option Nat := some 0
  /-- A carriage return is held back. -/
  held : Bool := false

def lineNumber (n : Nat) : Octets :=
  let ds := Octets.ofNat n
  List.replicate (6 - ds.length) ' ' ++ ds ++ ['\t']

def visible (c : Char) : Octets :=
  let low (n : Nat) : Octets :=
    if n < 32 then ['^', Char.ofNat (n + 64)] else if n = 127 then ['^', '?'] else [Char.ofNat n]
  if c.toNat < 128 then low c.toNat else 'M' :: '-' :: low (c.toNat - 128)

def showOctet (style : LineStyle) (s : LineState) (c : Char) : LineState × Octets :=
  if c = '\n' then
    let newlines := match s.newlines with
      | none => 0
      | some n => min 2 (n + 1)
    if newlines = 2 ∧ style.squeezed then ({ s with newlines := some newlines }, [])
    else
      let counts := 0 < newlines ∧ style.numbered ∧ !style.nonblank
      let number := if counts then s.number + 1 else s.number
      let front := if counts then lineNumber number else []
      let ending := if style.ends then (if s.held then ['^', 'M', '$'] else ['$']) else []
      ({ number, newlines := some newlines }, front ++ ending ++ ['\n'])
  else
    let counts := s.newlines.isSome ∧ style.numbered
    let number := if counts then s.number + 1 else s.number
    let front := (if s.held then ['\r'] else []) ++ if counts then lineNumber number else []
    if c = '\r' ∧ style.ends ∧ !style.visible then ({ number, newlines := none, held := true }, front)
    else
      let shown := if c = '\t' then (if style.tabs then ['^', 'I'] else [c])
        else if style.visible then visible c else [c]
      ({ number, newlines := none }, front ++ shown)

def showOctets (style : LineStyle) (s : LineState) (cs : Octets) : LineState × Octets :=
  let (s, shown) := cs.foldl (fun (s, shown) c =>
    let (s, cs) := showOctet style s c
    (s, cs :: shown)) (s, [])
  (s, shown.reverse.flatten)

/-- Copies what a descriptor gives, until its end or a fault. -/
def copyFrom (style : LineStyle) (name shown : Octets) (descriptor : Nat) :
    (fuel : Nat) → LineState → Act (LineState × Bool × Bool)
  | 0, s => return (s, true, true)
  | fuel + 1, s => do
    Act.step
    match ← Act.read descriptor with
    | .error fault =>
      complain name (shown ++ ": ".toList ++ fault.text.toList)
      return (s, false, true)
    | .ok none => return (s, true, true)
    | .ok (some cs) =>
      let (s, cs) := showOctets style s cs
      match ← Act.write 1 cs with
      | none => copyFrom style name shown descriptor fuel s
      | some fault =>
        complain name ("write error: " ++ fault.text).toList
        return (s, false, false)

/-- Whether a descriptor leads to the output's own file, and something is left to read. -/
def isOwnOutput (descriptor : Nat) : Act Bool := do
  match ← Act.opened? descriptor, ← Act.opened? 1 with
  | some (_, { resource := .file a, offset, .. }), some (_, { resource := .file b, .. }) =>
    return a = b && offset < ((← get).tree.contentAt a).length
  | _, _ => return false

/-- Copies one operand, a dash for standard input. It gives the state of the lines, whether all went
well, and whether the output still works. -/
def copyOperand (style : LineStyle) (name : Octets) (s : LineState) (operand : Octets) :
    Act (LineState × Bool × Bool) := do
  let shown := Quote.name operand
  let copy (n : Nat) : Act (LineState × Bool × Bool) := do
    if ← isOwnOutput n then
      complain name (shown ++ ": input file is output file".toList)
      return (s, false, true)
    copyFrom style name shown n ((← get).budget + 1) s
  if operand = ['-'] then copy 0
  else
    match ← Act.openPath .read false operand.text with
    | .error fault =>
      complain name (shown ++ ": ".toList ++ fault.text.toList)
      return (s, false, true)
    | .ok opened =>
      let n ← Act.attach 0 opened
      let result ← copy n
      Act.redirect n none
      return result

/-- Copies operands in order. The state of the lines goes on from one to the next. -/
def copyOperands (style : LineStyle) (name : Octets) (fine : Bool) (s : LineState) :
    List Octets → Act (LineState × Bool × Bool)
  | [] => return (s, fine, true)
  | operand :: rest => do
    let (s, good, works) ← copyOperand style name s operand
    if works then copyOperands style name (fine && good) s rest else return (s, false, false)

def copyLetters : List Char := ['A', 'b', 'e', 'E', 'n', 's', 't', 'T', 'u', 'v']

def copyOptions : List (String × Char) := [("number-nonblank", 'b'), ("number", 'n'),
  ("squeeze-blank", 's'), ("show-nonprinting", 'v'), ("show-ends", 'E'), ("show-tabs", 'T'),
  ("show-all", 'A')] ++ common

def copyAll (name : Octets) (arguments : List Octets) : Act Nat := do
  match Tool.arguments copyLetters copyOptions arguments with
  | .error fault =>
    complain name fault.text
    pointToHelp name
  | .ok (options, operands) =>
    match options.find? fun c => c = helpLetter || c = versionLetter with
    | some c =>
      if c = helpLetter then help name "[OPTION]... [FILE]...".toList
      else version name "cat".toList
    | none =>
      if (← Act.opened? 1).isNone then
        complain name ("standard output: " ++ Fault.badDescriptor.text).toList
        return 1
      let operands := if operands.isEmpty then [['-']] else operands
      let (s, fine, works) ← copyOperands (.ofOptions options) name true {} operands
      if s.held && works then
        let _ ← Act.write 1 ['\r']
      if ['-'] ∈ operands ∧ (← Act.opened? 0).isNone then
        complain name ("closing standard input: " ++ Fault.badDescriptor.text).toList
      return if fine && works then 0 else 1

/-! ## Waiting -/

def unit? : Octets → Option Nat
  | [] | ['s'] => some 1
  | ['m'] => some 60
  | ['h'] => some 3600
  | ['d'] => some 86400
  | _ => none

/-- A time to wait: nanoseconds, or without end. -/
inductive Interval where
  | nanos (n : Nat)
  | endless
deriving DecidableEq, Repr

def interval? (cs : Octets) : Option Interval := do
  let found ← Floating.read? .double cs
  let unit ← unit? found.rest
  match found.value with
  | .nan _ => none
  | .infinite negative => if negative then none else some .endless
  | .finite negative mantissa exponent =>
    if negative ∧ mantissa ≠ 0 then none
    else
      let nanos := mantissa * unit * 1000000000
      some (.nanos (nanos * Floating.power 2 exponent / Floating.power 2 (-exponent)))

/-- Waits for the sum of the intervals. -/
def wait (name : Octets) (arguments : List Octets) : Act Nat := do
  match Tool.arguments [] common arguments with
  | .error fault =>
    complain name fault.text
    pointToHelp name
  | .ok (c :: _, _) =>
    if c = helpLetter then help name "NUMBER[SUFFIX]...".toList else version name "sleep".toList
  | .ok ([], []) =>
    complain name "missing operand".toList
    pointToHelp name
  | .ok ([], operands) =>
    let wrong := operands.filter fun a => (interval? a).isNone
    for a in wrong do complain name ("invalid time interval ".toList ++ Quote.always a)
    if !wrong.isEmpty then return ← pointToHelp name
    for interval in operands.filterMap interval? do
      match interval with
      | .nanos n => Act.elapse n
      | .endless => throw (.endless false)
    return 0

/-! ## Printing -/

/-- Writes what printing brings about, in order, and tells what is wrong with the output. -/
def writeEvents (name : Octets) : List Format.Event → Act (Option Fault)
  | [] => return none
  | .out cs :: rest => do
    let fault ← Act.write 1 cs
    return fault.or (← writeEvents name rest)
  | .complaint c :: rest => do
    complain name (c.text .program)
    writeEvents name rest

def printFormatted (name : Octets) (arguments : List Octets) : Act Nat := do
  match arguments.map String.ofList with
  | ["--help"] => help name "FORMAT [ARGUMENT]...".toList
  | ["--version"] => version name "printf".toList
  | _ =>
    match if arguments.head? = some ['-', '-'] then arguments.drop 1 else arguments with
    | [] =>
      complain name "missing operand".toList
      pointToHelp name
    | format :: rest =>
      let p := Format.print .program format rest
      let fault ← writeEvents name p.events.reverse
      match fault with
      | some fault =>
        complain name ("write error: " ++ fault.text).toList
        return 1
      | none => return if p.complaints.all (·.isWarning) then 0 else 1

/-- Ends with a status. The only argument may ask what the program is. -/
def endWith (status : Nat) (name title : Octets) (arguments : List Octets) : Act Nat :=
  match arguments.map String.ofList with
  | ["--help"] => help name "[ignored command line arguments]".toList status
  | ["--version"] => version name title status
  | _ => return status

/-! ## Tools in general -/

def run (tool : Tool) (name : Octets) (arguments : List Octets) : Act Nat :=
  match tool with
  | .copy => copyAll name arguments
  | .sleep => wait name arguments
  | .print => printFormatted name arguments
  | .succeed => endWith 0 name "true".toList arguments
  | .fail => endWith 1 name "false".toList arguments

end Tool

end CoinRelay.Host
