import CoinRelay.Host.Format
import CoinRelay.Host.Shell.Condition
import CoinRelay.Host.Shell.Fields
import CoinRelay.Host.Shell.Signals

/-!
# Commands of the shell

The commands that a shell carries out itself, as far as they need nothing but their arguments. Each
gives its status; what it prints is written when it comes to its end. Errors of the special ones end
the shell.
-/

namespace CoinRelay.Host.Shell

/-! ## Names -/

/-- Commands whose errors end the shell, and before which assignments last. -/
def specialNames : List String := [".", ":", "break", "continue", "eval", "exec", "exit", "export",
  "local", "readonly", "return", "set", "shift", "times", "trap", "unset"]

def regularNames : List String := ["[", "alias", "bg", "cd", "chdir", "command", "echo", "false",
  "fg", "getopts", "hash", "jobs", "kill", "printf", "pwd", "read", "test", "true", "type", "ulimit",
  "umask", "unalias", "wait"]

/-- Commands whose arguments may be assignments. -/
def assigningNames : List String := ["alias", "export", "local", "readonly"]

def isSpecial (name : Octets) : Bool := specialNames.any (·.toList = name)

def isBuiltin (name : Octets) : Bool := isSpecial name || regularNames.any (·.toList = name)

/-! ## Printing -/

def echo (arguments : List Octets) : Action Nat := do
  let (line, arguments) := match arguments with
    | ['-', 'n'] :: rest => (false, rest)
    | rest => (true, rest)
  let pieces := arguments.map (Format.unescape .shell 0)
  let whole := pieces.takeWhile fun p => p.2.isNone
  let stopped := pieces[whole.length]?
  let texts := (whole ++ stopped.toList).map (·.1)
  print ([' '].intercalate texts)
  if line && stopped.isNone then print ['\n']
  return 0

/-- Prints what formatting brings about, up to a complaint after which nothing more is done. -/
def printEvents (status : Nat) : List Format.Event → Action Nat
  | [] => return status
  | .out cs :: rest => do
    print cs
    printEvents status rest
  | .complaint c :: rest => do
    if c.isFatal then fail (c.text .shell)
    warn (c.text .shell)
    printEvents 1 rest

def printFormatted (arguments : List Octets) : Action Nat := do
  let (_, operands) ← commandOptions "" arguments
  match operands with
  | [] => fail "usage: printf format [arg ...]".toList
  | format :: rest => printEvents 0 (Format.print .shell format rest).events.reverse

/-! ## Going on and ending -/

def leaveLoops (goesOn : Bool) (arguments : List Octets) : Action Nat := do
  let n ← match arguments with
    | [] => pure 1
    | a :: _ => do
      let n ← number a
      if n = 0 then fail ("Illegal number: ".toList ++ a)
      pure n
  let n := min n (← shell).loops
  if 0 < n then change ({ · with skip := .loops n goesOn })
  return 0

def leaveFunction (arguments : List Octets) : Action Nat := do
  match arguments with
  | [] =>
    change ({ · with skip := .function false })
    return (← shell).status
  | a :: _ =>
    let n ← number a
    change ({ · with skip := .function true })
    return n

/-- Ends the shell; without an argument its status is the last one, which a trap does not change. -/
def exit (arguments : List Octets) : Action Nat := do
  match arguments with
  | [] => change fun s => { s with status := s.saved.getD s.status }
  | a :: _ => setStatus (← number a)
  let _ ← flush
  throw .exiting

/-! ## Variables and parameters -/

/-- Prints the variables of which something is known, with a word in front. -/
def showVariables (front : Octets) (shown : Variable → Bool) : Action Unit := do
  let s ← shell
  let shown := s.bindings.filter fun v => shown v.2
  let sorted := shown.mergeSort fun a b => !(b.1 < a.1)
  for (name, v) in sorted do
    let value := match v.value with
      | some cs => '=' :: quoteValue cs
      | none => []
    print ((if front.isEmpty then [] else front ++ [' ']) ++ name ++ value ++ ['\n'])

def markVariables (front : String) (fixes : Bool) (arguments : List Octets) : Action Nat := do
  let (options, operands) ← commandOptions "p" arguments
  if !options.isEmpty ∨ operands.isEmpty then
    showVariables front.toList fun v => if fixes then v.fixed else v.exported
    return 0
  for a in operands do
    let (name, value) := splitAssignment a
    match value, (← shell).bindings.lookup name with
    | none, some v =>
      putVariable name (some { v with
        exported := v.exported || !fixes, fixed := v.fixed || fixes })
    | value, _ => setVariable name value (!fixes) fixes
  return 0

def localVariables (arguments : List Octets) : Action Nat := do
  if (← shell).locals.isEmpty then fail "not in a function".toList
  for a in arguments do makeLocal a
  return 0

def unset (arguments : List Octets) : Action Nat := do
  let (options, operands) ← commandOptions "vf" arguments
  let functions := options.getLast?.any (·.1 = 'f')
  for a in operands do
    if functions then change fun s => { s with functions := s.functions.filter (·.1 ≠ a) }
    else setVariable a none
  return 0

def shift (arguments : List Octets) : Action Nat := do
  let n ← match arguments with
    | [] => pure 1
    | a :: _ => number a
  let s ← shell
  if s.parameters.length < n then fail "can't shift that many".toList
  change fun s => { s with parameters := s.parameters.drop n, cursor := {} }
  return 0

def showOptions (asCommands : Bool) : Action Unit := do
  let s ← shell
  if !asCommands then print "Current option settings\n".toList
  for (name, letter) in optionNames do
    let on := letter ∈ s.options
    if asCommands then
      print ("set ".toList ++ (if on then ['-'] else ['+']) ++ "o ".toList ++ name.toList ++ ['\n'])
    else
      let blanks := List.replicate (16 - name.length) ' '
      print (name.toList ++ blanks ++ (if on then "on" else "off").toList ++ ['\n'])

def setNamedOption (on : Bool) : List Octets → Action (List Octets)
  | [] => do
    showOptions (!on)
    return []
  | name :: rest => do
    match optionNames.find? fun o => o.1.toList = name with
    | some (_, letter) => setOption letter on
    | none => fail ("Illegal option ".toList ++ [if on then '-' else '+'] ++ "o ".toList ++ name)
    return rest

/-- Sets options by their letters. What follows is given back if a letter takes the next argument. -/
def setLetters (on : Bool) : Octets → List Octets → Action (List Octets)
  | [], rest => return rest
  | c :: cs, rest => do
    if c = 'o' then setLetters on cs (← setNamedOption on rest)
    else
      setOption c on
      setLetters on cs rest

def setFrom : (fuel : Nat) → List Octets → Action Unit
  | 0, _ => return
  | fuel + 1, arguments => do
    match arguments with
    | [] => return
    | ['-'] :: rest =>
      setOption 'x' false
      setOption 'v' false
      if !rest.isEmpty then change ({ · with parameters := rest, cursor := {} })
    | ['-', '-'] :: rest => change ({ · with parameters := rest, cursor := {} })
    | ('-' :: cs) :: rest => setFrom fuel (← setLetters true cs rest)
    | ('+' :: cs) :: rest => setFrom fuel (← setLetters false cs rest)
    | rest => change ({ · with parameters := rest, cursor := {} })

def setAll (arguments : List Octets) : Action Nat := do
  if arguments.isEmpty then showVariables [] fun v => v.value.isSome
  else setFrom (arguments.length + 1) arguments
  return 0

/-! ## Reading options -/

/-- Where the options of a letter end in a list of known ones, and whether it takes an argument. -/
def knownLetter? (c : Char) : Octets → Option Bool
  | [] => none
  | x :: rest =>
    let takes := rest.head? = some ':'
    if x = c then some takes
    else
      match rest with
      | ':' :: more => knownLetter? c more
      | rest => knownLetter? c rest

def nextOption (known target : Octets) (words : List Octets) : Action Nat := do
  let cursor := (← shell).cursor
  let quiet := known.head? = some ':'
  let finish (index : Nat) (offset : Option Nat) (c : Char) (status : Nat) : Action Nat := do
    setVariable "OPTIND".toList (some (Octets.ofNat index))
    setVariable target (some [c])
    change ({ · with cursor := { index, offset } })
    return status
  let current := cursor.offset.bind fun offset =>
    if cursor.index ≤ 1 then none
    else (words[cursor.index - 2]?).bind fun w =>
      if offset < w.length then some (w.drop offset, offset, cursor.index) else none
  let found : Sum Nat (Octets × Nat × Nat) := match current with
    | some c => .inr c
    | none =>
      match words[cursor.index - 1]? with
      | some ['-', '-'] => .inl (cursor.index + 1)
      | some ('-' :: c :: cs) => .inr (c :: cs, 1, cursor.index + 1)
      | _ => .inl cursor.index
  match found with
  | .inl index => finish index none '?' 1
  | .inr ([], _, index) => finish index none '?' 1
  | .inr (c :: cs, offset, index) =>
    let offset := offset + 1
    let after := some offset
    match if c = ':' then none else knownLetter? c (if quiet then known.drop 1 else known) with
    | none =>
      if quiet then setVariable "OPTARG".toList (some [c])
      else
        writeError ("Illegal option -".toList ++ [c, '\n'])
        setVariable "OPTARG".toList none
      finish index after '?' 0
    | some false =>
      setVariable "OPTARG".toList (some [])
      finish index after c 0
    | some true =>
      match if cs.isEmpty then words[index - 1]? else some cs with
      | some value =>
        setVariable "OPTARG".toList (some value)
        finish (if cs.isEmpty then index + 1 else index) none c 0
      | none =>
        if quiet then
          setVariable "OPTARG".toList (some [c])
          finish index none ':' 0
        else
          writeError ("No arg for -".toList ++ [c] ++ " option\n".toList)
          setVariable "OPTARG".toList none
          finish index none '?' 0

def getOptions (arguments : List Octets) : Action Nat := do
  let (_, operands) ← if arguments.length < 2 then pure ([], [])
    else commandOptions "" arguments
  match operands with
  | known :: target :: rest =>
    let s ← shell
    let words := if rest.isEmpty then s.parameters else rest
    if words.length + 1 < s.cursor.index then change ({ · with cursor := {} })
    nextOption known target words
  | _ => fail "Usage: getopts optstring var [arg...]".toList

/-! ## Reading a line -/

/-- Reads a line octet by octet. Behind a backslash an octet does not separate fields; a line that
ends in one goes on. -/
def readPieces (raw : Bool) : (fuel : Nat) → (hidden : Bool) → Expanded → Nat →
    Action (Expanded × Bool)
  | 0, _, e, start => return (e.mark start, false)
  | fuel + 1, hidden, e, start => do
    match ← act (Act.read 0) with
    | .error _ | .ok none => return (e.mark start, false)
    | .ok (some []) => readPieces raw fuel hidden e start
    | .ok (some (c :: rest)) =>
      act (Act.unread 0 rest)
      if c = '\x00' then readPieces raw fuel hidden e start
      else if hidden then
        let before := e.mark start
        let e := if c = '\n' then before else before.add (.char c false)
        readPieces raw fuel false e e.size
      else if !raw ∧ c = '\\' then readPieces raw fuel true e start
      else if c = '\n' then return (e.mark start, true)
      else readPieces raw fuel false (e.add (.char c false)) start

def assignFields : List Octets → List (List Piece) → Action Unit
  | [], _ => return
  | name :: names, fields => do
    setVariable name (some (textOf (fields.headD [])))
    assignFields names (fields.drop 1)

def read (arguments : List Octets) : Action Nat := do
  let (options, names) ← commandOptions "p:r" arguments
  if names.isEmpty then fail "arg count".toList
  let raw := options.any (·.1 = 'r')
  let fuel := (← get).system.budget + 1
  let (e, ended) ← readPieces raw fuel false {} 0
  assignFields names (e.split (← separators) (some names.length))
  return if ended then 0 else 1

/-! ## Directories -/

def simplified (components : List String) : List String :=
  components.foldl (fun place c =>
    if c = "" ∨ c = "." then place else if c = ".." then place.dropLast else place ++ [c]) []

def pathOf (components : List String) : Octets :=
  if components.isEmpty then ['/']
  else (components.map fun c => '/' :: Octets.ofText c).flatten

def absolute (place : Place) : Octets := pathOf place

def currentDirectory : Action Octets := do
  let s ← get
  return s.shell.directory.getD (absolute s.system.process.working)

def enter (physical : Bool) (path : Octets) : Action Bool := do
  let s ← get
  let here ← currentDirectory
  let written := if path.head? = some '/' then path else here ++ '/' :: path
  let logical := simplified ((Octets.text written).splitOn "/")
  let target := if physical then path.text else (pathOf logical).text
  let tree := { s.system.tree with working := s.system.process.working }
  match tree.locate target with
  | .error _ => return false
  | .ok place =>
    if (tree.directoryFault? place).isSome then return false
    modify fun s => { s with system := { s.system with process := { s.system.process with
      working := place } } }
    setVariable "OLDPWD".toList (some here) true
    let now := if physical then absolute place else pathOf logical
    change ({ · with directory := some now })
    setVariable "PWD".toList (some now) true
    return true

/-- Whether a path is looked for in other directories, too. -/
def isSearched (path : Octets) : Bool :=
  let first := path.takeWhile (· ≠ '/')
  !(first.isEmpty || first = ['.'] || first = ['.', '.'])

def isDirectory (path : Octets) : Action Bool := do
  match ← act (Act.findEntry path.text) with
  | .ok .directory => return true
  | _ => return false

def goTo (arguments : List Octets) : Action Nat := do
  let (options, operands) ← commandOptions "LP" arguments
  let physical := options.getLast?.any (·.1 = 'P')
  let (wanted, shows) ← match operands with
    | [] => pure ((← lookup? "HOME").getD [], false)
    | ['-'] :: _ => pure ((← lookup? "OLDPWD").getD [], true)
    | a :: _ => pure (a, false)
  let wanted := if wanted.isEmpty then ['.'] else wanted
  let places := ((← lookup? "CDPATH").map (Octets.splitOn ':')).getD []
  let searched := if isSearched wanted then places else []
  let candidates := searched.map fun d => if d.isEmpty then wanted else d ++ '/' :: wanted
  let found ← candidates.findM? isDirectory
  let path := found.getD wanted
  if !(← enter physical path) then fail ("can't cd to ".toList ++ wanted)
  if shows ∨ (found.isSome ∧ path ≠ wanted) then print ((← currentDirectory) ++ ['\n'])
  return 0

def showDirectory (arguments : List Octets) : Action Nat := do
  let (options, _) ← commandOptions "LP" arguments
  let physical := options.getLast?.any (·.1 = 'P')
  let here ← if physical then pure (absolute (← get).system.process.working) else currentDirectory
  print (here ++ ['\n'])
  return 0

/-! ## Conditions -/

def answers (s : System) : Condition.Answers :=
  let tree := { s.tree with working := s.process.working }
  let opened? (n : Nat) : Option Opened :=
    (s.process.descriptors.lookup n).bind fun i => s.opened[i]?
  let entry? (path : Octets) : Option Entry :=
    match tree.find path.text with
    | .ok (.device (.descriptor n)) =>
      (opened? n).map fun o => match o.resource with
        | .file place => (tree.entryAt? place).getD (.file [])
        | .directory => .directory
        | .device d => .device d
        | .pipe _ => .device (.descriptor n)
    | .ok e => some e
    | .error _ => none
  { question := fun q path =>
      match q, entry? path with
      | .link, _ => match tree.find path.text false with
        | .ok (.link _) => true
        | _ => false
      | .never, _ => false
      | _, none => false
      | .file, some (.file _) | .file, some (.program _) => true
      | .file, _ => false
      | .directory, some e => e = .directory
      | .executable, some .directory | .executable, some (.program _) => true
      | .executable, _ => false
      | .sized, some (.file content) => !content.isEmpty
      | .sized, some .directory | .sized, some (.program _) => true
      | .sized, _ => false
      | .characterDevice, some (.device d) =>
        match d with
        | .descriptor _ => false
        | _ => true
      | .characterDevice, _ => false
      | .pipe, some (.device (.descriptor _)) => true
      | .pipe, _ => false
      | _, some _ => true
    comparison := fun c a b =>
      match c, tree.locate a.text, tree.locate b.text with
      | .sameFile, .ok a, .ok b => a = b && (tree.entryAt? a).isSome
      | _, _, _ => false }

def test (arguments : List Octets) : Action Nat := do
  match Condition.holds (answers (← get).system) false arguments with
  | .ok r => return if r then 0 else 1
  | .error text => fail text

def bracket (arguments : List Octets) : Action Nat := do
  match arguments.getLast? with
  | some (']' :: _) => test arguments.dropLast
  | _ => fail "missing ]".toList

/-! ## Names for texts -/

def showAlias (name text : Octets) : Octets := name ++ '=' :: quoteValue text ++ ['\n']

def setAliases : List Octets → (status : Nat) → Action Nat
  | [], status => return status
  | a :: rest, status => do
    match splitAssignment a with
    | (name, some text) =>
      if name.isEmpty then setAliases rest status
      else
        change fun s => { s with aliases := (name, text) :: s.aliases.filter (·.1 ≠ name) }
        setAliases rest status
    | (name, none) =>
      match (← shell).aliases.lookup name with
      | some text =>
        print (showAlias name text)
        setAliases rest status
      | none =>
        writeError ("alias: ".toList ++ name ++ " not found\n".toList)
        setAliases rest 1

/-- Names are shown by a number that each has, those of one number by their age. -/
def aliasNumber (name : Octets) : Nat :=
  name.foldl (fun n c => n + c.toNat) ((name.headD '\x00').toNat * 16) % 39

def makeAliases (arguments : List Octets) : Action Nat := do
  if arguments.isEmpty then
    let aliases := (← shell).aliases.reverse
    for (name, text) in aliases.mergeSort fun a b => aliasNumber a.1 ≤ aliasNumber b.1 do
      print (showAlias name text)
    return 0
  setAliases arguments 0

def removeAliases (arguments : List Octets) : Action Nat := do
  let (options, operands) ← commandOptions "a" arguments
  if !options.isEmpty then
    change ({ · with aliases := [] })
    return 0
  let mut status := 0
  for name in operands do
    if (← shell).aliases.any (·.1 = name) then
      change fun s => { s with aliases := s.aliases.filter (·.1 ≠ name) }
    else
      writeError ("unalias: ".toList ++ name ++ " not found\n".toList)
      status := 1
  return status

/-! ## Signals and jobs -/

def setTraps (action : Option Octets) : List Octets → Action Nat
  | [] => return 0
  | a :: rest => do
    match signal? true a with
    | none =>
      writeError ("trap: ".toList ++ a ++ ": bad trap\n".toList)
      return 1
    | some n =>
      let action := action.filter (· ≠ ['-'])
      change fun s =>
        let others := s.traps.filter (·.1 ≠ n)
        { s with traps := match action with
          | some text => (n, text) :: others
          | none => others }
      setTraps action rest

def trap (arguments : List Octets) : Action Nat := do
  let (_, operands) ← commandOptions "" arguments
  match operands with
  | [] =>
    let sorted := (← shell).traps.mergeSort fun a b => a.1 ≤ b.1
    for (n, text) in sorted do
      print ("trap -- ".toList ++ quoteValue text ++ ' ' :: (signalName n).toList ++ ['\n'])
    return 0
  | [a] => setTraps none [a]
  | a :: rest =>
    if (signalByNumber? a).isSome then setTraps none (a :: rest) else setTraps (some a) rest

def killUsage : Octets :=
  ("Usage: kill [-s sigspec | -signum | -sigspec] [pid | job]... or\n" ++
    "kill -l [exitstatus]").toList

def failJob {α : Type} (name : Octets) : Action α := fail ("No such job: ".toList ++ name)

/-- Sends a signal to each target. Jobs are no groups of processes that could be sent one. -/
def killAll (n : Nat) : List Octets → (status : Nat) → Action Nat
  | [], status => return status
  | target :: rest, status => do
    let works ← match target with
      | '%' :: _ =>
        match ← job? target with
        | some _ => pure false
        | none => failJob target
      | '-' :: ds => do
        let _ ← number ds
        pure false
      | ds => send (← number ds) n
    if works then killAll n rest status
    else
      warn "No such process\n".toList
      killAll n rest 1

def listSignals (arguments : List Octets) : Action Nat := do
  match arguments with
  | [] =>
    print ['0', '\n']
    for name in signalNames.drop 1 do print (name.toList ++ ['\n'])
    return 0
  | a :: _ =>
    let n ← number a
    let n := if 128 < n then n - 128 else n
    if 0 < n ∧ n < signalCount then
      print ((signalName n).toList ++ ['\n'])
      return 0
    else fail ("invalid signal number or exit status: ".toList ++ a)

def kill (arguments : List Octets) : Action Nat := do
  let proceed (n : Nat) (targets : List Octets) : Action Nat := do
    if targets.isEmpty then fail killUsage
    killAll n targets 0
  match arguments with
  | [] => fail killUsage
  | ('-' :: name) :: rest =>
    match signal? false name with
    | some n => proceed n rest
    | none =>
      let (options, operands) ← commandOptions "ls:" arguments
      match options.getLast? with
      | some ('s', name) =>
        match signal? false name with
        | some n => if options.any (·.1 = 'l') then fail killUsage else proceed n operands
        | none => fail ("invalid signal number or name: ".toList ++ name)
      | some _ => listSignals operands
      | none => proceed 15 operands
  | targets => proceed 15 targets

def waitFor : List Octets → (status : Nat) → Action Nat
  | [], status => return status
  | a :: rest, status => do
    let job ← match a with
      | '%' :: _ =>
        match ← job? a with
        | some job => pure (some job)
        | none => failJob a
      | _ => do
        let n ← number a
        pure ((← shell).jobs.find? (·.pids.getLast? = some n))
    match job with
    | some job => waitFor rest (← awaitJob job)
    | none => waitFor rest status

def wait (arguments : List Octets) : Action Nat := do
  let (_, operands) ← commandOptions "" arguments
  if operands.isEmpty then
    for job in (← shell).jobs do
      if !job.awaited then awaitQuietly job.pids
      markAwaited job
    return 0
  waitFor operands 127

/-- Shows a job: its number, whether it is the last one or the one before, and what has become of it.
Each process but the first has a place of its own. A job that has ended is shown once. -/
def showJob (kind : Option Char) (job : Job) : Action Unit := do
  let pids := job.pids.map Octets.ofNat
  if kind = some 'p' then
    print (pids.headD [] ++ ['\n'])
    return
  let done ← isDone job
  let fate := ((← job.pids.getLast?.mapM record?).join.map (·.fate)).getD (.exited 0)
  let what := if !done then "Running" else match fate with
    | .exited 0 => "Done"
    | .exited n => "Done(" ++ toString n ++ ")"
    | .signaled n => signalText n
  let others := (← shell).jobs.map (·.number)
  let sign := if others.head? = some job.number then '+'
    else if others[1]? = some job.number then '-' else ' '
  let front := ['['] ++ Octets.ofNat job.number ++ [']', ' ', sign, ' ']
  let padded (cs : Octets) : Octets := cs ++ List.replicate (33 - cs.length) ' '
  if kind = some 'l' then
    let first := padded (front ++ pids.headD [] ++ ' ' :: what.toList)
    let rest := (pids.drop 1).map fun cs => padded (List.replicate 6 ' ' ++ cs)
    print ([' ', '|', '\n'].intercalate (first :: rest) ++ ['\n'])
  else
    let rest := pids.drop 1 |>.map fun _ => [' ', '|', ' ']
    print (padded (front ++ what.toList) ++ rest.flatten ++ ['\n'])
  if done then forgetJob job

def showJobs (arguments : List Octets) : Action Nat := do
  let (options, operands) ← commandOptions "lp" arguments
  let kind := options.getLast?.map (·.1)
  if operands.isEmpty then
    for job in (← shell).jobs do showJob kind job
  for a in operands do
    match ← job? a with
    | some job => showJob kind job
    | none => failJob a
  return 0

/-- No job can be brought to the foreground or sent from there. -/
def resume (arguments : List Octets) : Action Nat := do
  let (_, operands) ← commandOptions "" arguments
  match operands, (← shell).jobs with
  | [], [] => fail "No current job".toList
  | [], _ :: _ => fail "job (null) not created under job control".toList
  | a :: _, _ =>
    match ← job? a with
    | some _ => fail "job (null) not created under job control".toList
    | none => failJob a

/-! ## Limits -/

def octalText (n : Nat) : Octets :=
  let ds := Nat.toDigits 8 n
  List.replicate (4 - ds.length) '0' ++ ds

/-- What a mask leaves to each class of users, as letters. -/
def maskText (mask : Nat) : Octets :=
  let letters (who : Char) (shift : Nat) : Octets :=
    let bits := (mask >>> shift) % 8
    who :: '=' :: ([(4, 'r'), (2, 'w'), (1, 'x')].filter fun b => bits &&& b.1 = 0).map (·.2)
  [','].intercalate [letters 'u' 6, letters 'g' 3, letters 'o' 0]

def setMask (arguments : List Octets) : Action Nat := do
  let (options, operands) ← commandOptions "S" arguments
  let mask := (← shell).umask
  match operands with
  | [] =>
    print ((if options.isEmpty then octalText mask else maskText mask) ++ ['\n'])
    return 0
  | a :: _ =>
    if !(a.headD '0').isDigit then fail ("Illegal mode: ".toList ++ a)
    if a.isEmpty then return 0
    if a.all (fun c => '0' ≤ c && c ≤ '7') then
      change ({ · with umask := Nat.ofDigitChars 8 a 0 % 512 })
      return 0
    else fail ("Illegal number: ".toList ++ a)

/-- Limits are taken note of and keep nothing from happening. -/
def limit (arguments : List Octets) : Action Nat := do
  let (_, operands) ← commandOptions "HSatfdsmcnplwrv" arguments
  match operands with
  | [] => print "unlimited\n".toList
  | [a] =>
    if a ≠ "unlimited".toList ∧ !a.all Char.isDigit then fail "bad number".toList
  | _ => fail "too many arguments".toList
  return 0

/-! ## All of them -/

def runBuiltin (name : String) (arguments : List Octets) : Action Nat :=
  match name with
  | ":" | "true" => return 0
  | "false" => return 1
  | "echo" => echo arguments
  | "printf" => printFormatted arguments
  | "break" => leaveLoops false arguments
  | "continue" => leaveLoops true arguments
  | "return" => leaveFunction arguments
  | "exit" => exit arguments
  | "export" => markVariables "export" false arguments
  | "readonly" => markVariables "readonly" true arguments
  | "local" => localVariables arguments
  | "unset" => unset arguments
  | "shift" => shift arguments
  | "set" => setAll arguments
  | "getopts" => getOptions arguments
  | "read" => read arguments
  | "cd" | "chdir" => goTo arguments
  | "pwd" => showDirectory arguments
  | "test" => test arguments
  | "[" => bracket arguments
  | "alias" => makeAliases arguments
  | "unalias" => removeAliases arguments
  | "trap" => trap arguments
  | "kill" => kill arguments
  | "wait" => wait arguments
  | "jobs" => showJobs arguments
  | "fg" | "bg" => resume arguments
  | "umask" => setMask arguments
  | "ulimit" => limit arguments
  | "times" => do
    print "0m0.000000s 0m0.000000s\n0m0.000000s 0m0.000000s\n".toList
    return 0
  | _ => return 0

end CoinRelay.Host.Shell
