import CoinRelay.Host.Shell.Evaluator

/-!
# Simple commands

A simple command is carried out in steps: its words are expanded, then come its redirections and its
assignments, and then what it names is found: a function, a command of the shell, or a program. A
command may be named through another one that only says how to find it.
-/

namespace CoinRelay.Host.Shell

open Script (Command Redirection Word)

/-! ## What a command names -/

inductive Meaning where
  /-- There is no name, only assignments and redirections. -/
  | nothing
  | function (body : Command)
  | builtin
  | program
deriving Inhabited

structure Call where
  fields : List Octets := []
  meaning : Meaning := .nothing
  /-- Whether the first command of the shell that is named is a special one. -/
  special : Option Bool := none
  /-- Where programs are looked for, unless where they always are. -/
  path : Option Octets := none

namespace Call

/-- Errors end the shell. -/
def isSpecial (c : Call) : Bool := c.special = some true

/-- Assignments are for this command only. -/
def hasLocals (c : Call) : Bool :=
  match c.meaning with
  | .nothing => false
  | .builtin => !c.isSpecial
  | _ => true

/-- It is carried out in place of the shell. -/
def replaces (c : Call) : Bool :=
  match c.meaning with
  | .builtin => c.fields.head? = some "exec".toList
  | _ => false

end Call

def meaningOf (s : Session) (functions : Bool) (name : Octets) : Meaning :=
  match if functions then s.functions.lookup name else none with
  | some body => .function body
  | none => if isBuiltin name then .builtin else .program

/-- Expands words until there are more than a number of fields, if that is possible. -/
def ensureFields (capture : Capture) (n : Nat) (fields : List Octets) :
    List Word → Action (List Octets × List Word)
  | [] => return (fields, [])
  | w :: rest => do
    if n < fields.length then return (fields, w :: rest)
    ensureFields capture n (fields ++ (← expandFields capture w)) rest

/-- The fields behind the options of a command that says how to find another one, from a field on,
unless it has something else to do. -/
def namedFrom (capture : Capture) : (fuel : Nat) → (n : Nat) → List Octets → List Word →
    (usual : Bool) → Action (Option (List Octets × List Word × Bool))
  | 0, _, _, _, _ => return none
  | fuel + 1, n, fields, rest, usual => do
    let (fields, rest) ← ensureFields capture n fields rest
    match fields.drop n with
    | [] => return none
    | ['-', '-'] :: _ =>
      let (fields, rest) ← ensureFields capture (n + 1) fields rest
      if (fields.drop (n + 1)).isEmpty then return none
      return some (fields.drop (n + 1), rest, usual)
    | ('-' :: c :: cs) :: _ =>
      if (c :: cs).all (· = 'p') then namedFrom capture fuel (n + 1) fields rest true
      else return none
    | found => return some (found, rest, usual)

def resolve (capture : Capture) : (fuel : Nat) → List Octets → List Word → (functions : Bool) →
    Call → Action (Call × List Word)
  | 0, fields, rest, _, c => return ({ c with fields }, rest)
  | fuel + 1, fields, rest, functions, c => do
    let name := fields.headD []
    let meaning := meaningOf (← shell) functions name
    let c := { c with fields, meaning }
    match meaning with
    | .builtin =>
      let c := { c with special := c.special.or (some (Shell.isSpecial name)) }
      if name ≠ "command".toList then return (c, rest)
      match ← namedFrom capture (fields.length + rest.length + 1) 1 fields rest false with
      | none =>
        return (c, rest)
      | some (fields, rest, usual) =>
        let path := if usual then some defaultPath else c.path
        resolve capture fuel fields rest false { c with path }
    | _ => return (c, rest)

def expandArguments (capture : Capture) (assigns : Bool) : List Word → Action (List Octets)
  | [] => return []
  | w :: rest => do
    let fields ← if assigns ∧ (Script.assigned? w).isSome then
        pure [← expandAssignment capture w]
      else expandFields capture w
    return fields ++ (← expandArguments capture assigns rest)

def callOf (capture : Capture) (words : List Word) : Action Call := do
  let (fields, rest) ← ensureFields capture 0 [] words
  if fields.isEmpty then return {}
  let (c, rest) ← resolve capture (words.length + 1) fields rest true {}
  let assigns := match c.meaning with
    | .builtin => assigningNames.any (·.toList = c.fields.headD [])
    | _ => false
  return { c with fields := c.fields ++ (← expandArguments capture assigns rest) }

/-! ## Commands about commands -/

/-- Tells what a name means, in a sentence or in a word. -/
def describe (verbose : Bool) (path : Octets) (name : Octets) : Action Nat := do
  let s ← shell
  let tell (sentence : String) (word : Octets) : Action Nat := do
    print (if verbose then name ++ sentence.toList ++ ['\n'] else word ++ ['\n'])
    return 0
  if (Script.Keyword.ofText? name).isSome then return ← tell " is a shell keyword" name
  match s.aliases.lookup name with
  | some text =>
    if verbose then print (name ++ " is an alias for ".toList ++ text ++ ['\n'])
    else print ("alias ".toList ++ showAlias name text)
    return 0
  | none =>
    match meaningOf s true name with
    | .function _ => tell " is a shell function" name
    | .builtin =>
      let special := Shell.isSpecial name
      tell (if special then " is a special shell builtin" else " is a shell builtin") name
    | _ =>
      match ← presentFrom .absent (candidates path name) with
      | .ok found =>
        print (if verbose then name ++ " is ".toList ++ found ++ ['\n'] else found ++ ['\n'])
        return 0
      | .error _ =>
        if verbose then print (name ++ ": not found\n".toList)
        return 127

def describeAll : List Octets → (status : Nat) → Action Nat
  | [], status => return status
  | name :: rest, status => do
    let path := ((← lookup? "PATH").getD [])
    describeAll rest (max status (← describe true path name))

def commandBuiltin (arguments : List Octets) : Action Nat := do
  let (options, operands) ← commandOptions "pvV" arguments
  let here := (← lookup? "PATH").getD []
  let path := if options.any (·.1 = 'p') then defaultPath else here
  match operands with
  | [] => return 0
  | name :: _ =>
    if options.any (·.1 = 'V') then describe true path name
    else if options.any (·.1 = 'v') then describe false path name
    else return 0

def hash : List Octets → (status : Nat) → Action Nat
  | [], status => return status
  | name :: rest, status => do
    let path := (← lookup? "PATH").getD []
    match ← presentFrom .absent (candidates path name) with
    | .ok _ => hash rest status
    | .error fault =>
      if isBuiltin name then hash rest status
      else
        warn (commandFault name fault)
        hash rest 1

def hashBuiltin (arguments : List Octets) : Action Nat := do
  let (_, operands) ← commandOptions "rv" arguments
  hash operands 0

/-! ## Scripts in commands -/

/-- The path of a script, which is looked for where programs are. -/
def scriptPath (name : Octets) : Action Octets := do
  if '/' ∈ name then return name
  let path := (← lookup? "PATH").getD []
  let isFile (path : Octets) : Action Bool := do
    match ← act (Act.findEntry path.text) with
    | .ok (.file _) | .ok (.program _) => return true
    | _ => return false
  match ← (candidates path name).findM? isFile with
  | some found => return found
  | none => failAbout name "not found"

def scriptText (path : Octets) : Action Octets := do
  match ← act (Act.openPath .read false path.text) with
  | .ok opened => readOpened opened
  | .error fault => fail (pathFault "cannot open " path "No such file" fault)

def source (evaluate : Evaluator) (arguments : List Octets) : Action Nat := do
  let (_, operands) ← commandOptions "" arguments
  match operands with
  | [] => return 0
  | name :: _ =>
    let path ← scriptPath name
    let text ← scriptText path
    change ({ · with command := some path })
    evaluate (.file text)

/-! ## Calls -/

def callFunction (evaluate : Evaluator) (body : Command) (arguments : List Octets) (flags : Flags) :
    Action Unit := do
  let s ← shell
  if maxDepth ≤ s.depth then
    fail ("Maximum function recursion depth (" ++ toString maxDepth ++ ") reached").toList
  change fun s => { s with
    parameters := arguments, cursor := {}, loops := 0, depth := s.depth + 1 }
  let restore : Action Unit := do
    change fun t => { t with
      parameters := s.parameters, cursor := s.cursor, loops := s.loops, depth := s.depth }
    endFunction
  try
    let _ ← evaluate (.command body { tested := flags.tested })
    restore
  catch stop =>
    restore
    throw stop
where
  /-- How deep functions may call each other. -/
  maxDepth : Nat := 1000

def builtin (evaluate : Evaluator) (c : Call) (name : String) (arguments : List Octets)
    (flags : Flags) : Action Nat := do
  match name with
  | "eval" =>
    if arguments.isEmpty then return 0
    evaluate (.text ([' '].intercalate arguments) { tested := flags.tested })
  | "." => source evaluate arguments
  | "exec" =>
    let arguments := if arguments.head? = some ['-', '-'] then arguments.drop 1 else arguments
    if arguments.isEmpty then return 0
    let path := c.path.getD ((← lookup? "PATH").getD [])
    setStatus (← execute evaluate path arguments)
    throw .exiting
  | "command" => commandBuiltin arguments
  | "type" => describeAll arguments 0
  | "hash" => hashBuiltin arguments
  | name => runBuiltin name arguments

/-- Carries out a command of the shell. Its errors end the shell if it is a special one. -/
def callBuiltin (evaluate : Evaluator) (c : Call) (flags : Flags) : Action Unit := do
  let before := (← shell).command
  let name := c.fields.headD []
  let finish : Action Unit := change ({ · with command := before, buffer := [] })
  try
    if !c.fields.isEmpty then change ({ · with command := some name })
    let status ← match c.fields with
      | [] => pure (← shell).captured
      | _ :: arguments => builtin evaluate c (String.ofList name) arguments flags
    let fault ← flush
    if fault.isSome then warn (name ++ ": I/O error".toList)
    setStatus (if fault.isSome then status ||| 1 else status)
    finish
  catch
    | .failed =>
      finish
      if c.isSpecial then throw .failed
    | stop =>
      finish
      throw stop

/-- Carries out a program, in a process of its own unless the shell ends with it. -/
def callProgram (evaluate : Evaluator) (c : Call) (flags : Flags) : Action Unit := do
  let path := c.path.getD ((← lookup? "PATH").getD [])
  let name := c.fields.headD []
  let present ← if '/' ∈ name then pure (.ok name)
    else presentFrom .absent (candidates path name)
  match present with
  | .error fault =>
    warn (commandFault name fault)
    setStatus 127
    if c.isSpecial then throw .failed
  | .ok _ =>
    if flags.exits ∧ (← shell).traps.all (·.2.isEmpty) then
      setStatus (← execute evaluate path c.fields)
      throw .exiting
    else
      makeRoom
      let child ← fork do
        try execute evaluate path c.fields
        catch
          | .exiting => return (← shell).status
          | stop => throw stop
      setStatus (← awaitAll [child] 0)

def trace (assignments fields : List Octets) (redirected : Bool) : Action Unit := do
  let s ← shell
  if 'x' ∈ s.options ∧ !s.tracing then
    let front := (s.value? "PS4".toList).getD []
    let line := front ++ [' '].intercalate (assignments ++ fields) ++ ['\n']
    let n ← traceDescriptor redirected
    let _ ← act (Act.write n line)

def assignAll (capture : Capture) (local_ exported : Bool) : List Word → Action (List Octets)
  | [] => return []
  | w :: rest => do
    let cs ← expandAssignment capture w
    if local_ then makeLocal cs true
    else
      let (name, value) := splitAssignment cs
      assign name value exported
    return cs :: (← assignAll capture local_ exported rest)

def simple (evaluate : Evaluator) (line : Nat) (assignments words : List Word)
    (redirections : List Redirection) (flags : Flags) : Action Nat := do
  atLine line
  change ({ · with captured := 0 })
  let capture := capture evaluate
  let c ← callOf capture words
  let localLevels := (← shell).locals.length
  if c.hasLocals then pushLocals
  let levels := (← shell).redirections.length
  let ts ← targets capture redirections
  pushRedirections ts
  match ← redirectSafely capture ts with
  | some status =>
    setStatus status
    if c.isSpecial then throw .failed
  | none =>
    let exported := c.replaces && 1 < c.fields.length
    let assigned ← assignAll capture c.hasLocals exported assignments
    trace assigned c.fields (!ts.isEmpty)
    match c.meaning with
    | .nothing | .builtin => callBuiltin evaluate c flags
    | .function body => callFunction evaluate body (c.fields.drop 1) flags
    | .program => callProgram evaluate c flags
  if !ts.isEmpty then popRedirections c.replaces
  let s ← shell
  unwindRedirections levels s.redirections.length
  unwindLocals localLevels s.locals.length
  return (← shell).status

end CoinRelay.Host.Shell
