import CoinRelay.Host.Shell.Builtin
import CoinRelay.Host.Shell.Redirect
import CoinRelay.Host.Tools

/-!
# Tasks and processes

What a shell carries out are tasks: commands, scripts and whole shells. Everything here is written in
terms of an evaluator for the tasks that are nested in it. A process of its own is carried out to its
end before its parent goes on, in its own time.
-/

namespace CoinRelay.Host.Shell

open Script (Command)

structure Flags where
  exits : Bool := false
  /-- Its status is looked at, so that a failure is no reason to end. -/
  tested : Bool := false

inductive Task where
  | command (c : Command) (flags : Flags)
  /-- A script that is not in a file. -/
  | text (script : Octets) (flags : Flags)
  | file (script : Octets)
  | shell (name : Octets) (arguments : List Octets)

/-- Carries out tasks and gives their status. -/
abbrev Evaluator := Task → Action Nat

/-! ## Traps -/

/-- Carries out the traps of signals that have come. They do not change the status. -/
def runTraps (evaluate : Evaluator) : Action Unit := do
  let before ← shell
  if before.pending.isEmpty then return
  let status := before.saved.getD before.status
  change ({ · with saved := some status, pending := [] })
  for n in (before.pending.mergeSort fun a b => a ≤ b).eraseDups do
    let s ← shell
    if s.skip = .nothing then
      match s.traps.lookup n with
      | none => pure ()
      | some text =>
        let _ ← evaluate (.text text {})
        if (← shell).skip ≠ .function true then setStatus status
    else change fun s => { s with pending := s.pending ++ [n] }
  change ({ · with saved := before.saved })

/-- Carries out what a shell does until its end, and then its last trap. -/
def conclude (evaluate : Evaluator) (body : Action Unit) : Action Nat := do
  let ended (action : Action Unit) : Action Unit := do
    try action
    catch
      | .failed | .exiting => return
      | stop => throw stop
  ended body
  let s ← shell
  match s.traps.lookup 0 with
  | none => return s.status
  | some text =>
    change ({ · with
      saved := some s.status, skip := .nothing, traps := s.traps.filter (·.1 ≠ 0) })
    ended do
      let _ ← evaluate (.text text {})
      setStatus s.status
    return (← shell).status

/-! ## Processes -/

def fork (child : Action Nat) : Action Nat := fun s =>
  let (result, t) := child.run { s with system := Act.begin s.system }
  let (record, system) := Act.finish s.system t.system (result.map Fate.exited)
  (.ok record.pid, { s with system })

/-- A shell of its own knows nothing of jobs and traps, but for what it is to tell about the traps. -/
def forget (c : Command) : Action Unit := change fun s =>
  let tells : Bool := match c with
    | .simple _ _ (word :: _) _ => Script.plain? word = some "trap".toList
    | _ => false
  { s with
    traps := if tells then s.traps else s.traps.filter (·.2.isEmpty)
    pending := []
    jobs := []
    readLine := 1 }

def subshell (evaluate : Evaluator) (c : Command) (flags : Flags) (prepare : Action Unit) :
    Action Nat :=
  fork do
    forget c
    conclude evaluate do
      prepare
      setStatus (← evaluate (.command c { flags with exits := true }))

/-- Reads all that a descriptor gives; at a fault there is no more. -/
def readAll (descriptor : Nat) : (fuel : Nat) → Octets → Action Octets
  | 0, cs => return cs
  | fuel + 1, cs => do
    match ← act (Act.read descriptor) with
    | .ok (some more) => readAll descriptor fuel (cs ++ more)
    | _ => return cs

def readOpened (opened : Nat) : Action Octets := do
  let n ← act (Act.attach Act.firstHidden opened)
  let cs ← readAll n ((← get).system.budget + 1) []
  act (Act.redirect n none)
  return cs

/-- What a command prints, carried out in a shell of its own. -/
def capture (evaluate : Evaluator) : Capture := fun body => do
  match body with
  | none => return []
  | some c =>
    makeRoom
    let (_, reading, writing) ← act Act.newPipe
    let child ← subshell evaluate c {} (act (Act.redirect 1 (some writing)))
    let cs ← readOpened reading
    let captured ← awaitAll [child] 0
    change ({ · with captured })
    return cs

def withoutInput : Action Unit := do
  match ← act (Act.openPath .read false "/dev/null") with
  | .ok opened => act (Act.redirect 0 (some opened))
  | .error _ => act (Act.redirect 0 none)

/-! ## Programs -/

def defaultPath : Octets :=
  "/usr/local/sbin:/usr/local/bin:/usr/sbin:/usr/bin:/sbin:/bin".toList

def candidates (path name : Octets) : List Octets :=
  if '/' ∈ name then [name]
  else (Octets.splitOn ':' path).map fun d => if d.isEmpty then name else d ++ '/' :: name

def presentFrom (fault : Fault) : List Octets → Action (Except Fault Octets)
  | [] => return .error fault
  | path :: rest => do
    match ← act (Act.findEntry path.text) with
    | .ok (.file _) | .ok (.program _) => return .ok path
    | .ok _ => presentFrom .denied rest
    | .error .absent | .error .notDirectory => presentFrom fault rest
    | .error fault => presentFrom fault rest

def programFrom (fault : Fault) : List Octets → Action (Except Fault String)
  | [] => return .error fault
  | path :: rest => do
    match ← act (Act.findEntry path.text) with
    | .ok (.program name) => return .ok name
    | .ok _ => programFrom .denied rest
    | .error .absent => programFrom fault rest
    | .error .notDirectory => programFrom fault rest
    | .error fault => programFrom fault rest

def commandFault (name : Octets) (fault : Fault) : Octets :=
  name ++ ": ".toList ++ match fault with
    | .absent | .notDirectory => "not found".toList
    | fault => fault.text.toList

/-- A program has ended; but if a signal came before that, it had ended then. -/
def endedBySignal (status : Nat) : Action Nat := do
  try
    receive (some (← clock))
    return status
  catch
    | .killed n => do
      act (Act.curtail (← pid) n { time := ← clock })
      throw (.killed n)
    | stop => throw stop

/-- Carries out a program in place of the shell. -/
def execute (evaluate : Evaluator) (path : Octets) : List Octets → Action Nat
  | [] => return 0
  | name :: arguments => do
    match ← programFrom .absent (candidates path name) with
    | .error fault =>
      warn (commandFault name fault)
      let absent := fault ∈ [.absent, .notDirectory, .tooManyLinks, .nameTooLong]
      setStatus (if absent then 127 else 126)
      throw .exiting
    | .ok program =>
      act (Act.elapse Act.loadTime)
      for (n, _) in (← get).system.process.descriptors do
        if Act.firstHidden ≤ n then act (Act.redirect n none)
      change fun s => { s with traps := s.traps.filter (·.2.isEmpty) }
      match Tool.ofName? program with
      | none => evaluate (.shell name arguments)
      | some tool =>
        let status ← act (tool.run name arguments)
        endedBySignal status

/-! ## Scripts -/

def prepared (s : Session) (source : Script.Source) : Script.Source :=
  { source with aliases := s.aliases, nextDocument := s.nextDocument }

/-- Carries out the lines of a script, up to one that is to be skipped. -/
def runLines (evaluate : Evaluator) (flags : Flags) (shows : Bool) :
    (fuel : Nat) → Script.Source → (status : Nat) → Action Nat
  | 0, _, status => return status
  | fuel + 1, source, status => do
    let source := prepared (← shell) source
    match source.next with
    | .error (line, m) => failReading line m
    | .ok (.finish, _) => return status
    | .ok (.commands found last, next) =>
      if shows ∧ 'v' ∈ (← shell).options then
        writeError (source.rest.take (source.rest.length - next.rest.length))
      change fun s => { s with
        documents := next.documents ++ s.documents, nextDocument := next.nextDocument
        readLine := next.line }
      let next := { next with documents := [] }
      let status ← match found with
        | some c => evaluate (.command c { flags with exits := flags.exits && last })
        | none => pure status
      if (← shell).skip ≠ .nothing then return status
      runLines evaluate flags shows fuel next status

def runScript (evaluate : Evaluator) (flags : Flags) (shows : Bool) (script : Octets) :
    Action Nat := do
  let before := (← shell).readLine
  let status ← runLines evaluate flags shows (script.length + 2) { rest := script } 0
  change ({ · with readLine := before })
  return status

def runText (evaluate : Evaluator) (script : Octets) (flags : Flags) : Action Nat :=
  runScript evaluate flags false script

/-- What is left of a function's end at the end of a file. -/
def endFunction : Action Unit := change fun s =>
  match s.skip with
  | .function _ => { s with skip := .nothing }
  | _ => s

def runFile (evaluate : Evaluator) (script : Octets) : Action Nat := do
  let status ← runScript evaluate {} true script
  endFunction
  return status

end CoinRelay.Host.Shell
