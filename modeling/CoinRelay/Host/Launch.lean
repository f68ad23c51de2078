import CoinRelay.CommandLine
import CoinRelay.Host.Process
import CoinRelay.Host.Shell.Run

/-!
# Starting commands

A command starts if its program is found, by its path or in the directories of programs; otherwise
the fault that the system gives tells why not. Once started it runs together with all that it starts
in turn, until all of them let go of its output.

The system, its shell and its small programs are what commands are written for, and no part of the
program itself: `launch` is one way to fill in `World.launch`, and what is proved of a run holds for
every way.
-/

namespace CoinRelay.Host

def Fault.cause (f : Fault) : String := f.text ++ " (os error " ++ toString f.number ++ ")"

def zeroByteCause : String := "nul byte found in provided data"

/-- A file that is no program is passed over, but remembered. -/
def findProgram (tree : FileTree) (fault : Fault) : List Octets → Except Fault String
  | [] => .error fault
  | path :: rest =>
    match tree.find path.text with
    | .ok (.program name) => .ok name
    | .ok _ => findProgram tree .denied rest
    | .error .denied => findProgram tree .denied rest
    | .error .absent => findProgram tree fault rest
    | .error .notDirectory => findProgram tree fault rest
    | .error fault => .error fault

/-- The fault of a command that cannot be started, if it has one. -/
def startFault? (tree : FileTree) (path : Octets) (name : String) : Option Fault :=
  let cs := Octets.ofText name
  if '/' ∈ cs then
    match tree.find name with
    | .ok (.program _) => none
    | .ok _ => some .denied
    | .error fault => some fault
  else if cs.isEmpty then some .absent
  else if FileTree.maxComponent < cs.length then some .nameTooLong
  else
    match findProgram tree .absent (Shell.candidates path cs) with
    | .ok _ => none
    | .error fault => some fault

/-! ## The first process -/

def launcherPid : Nat := 4241

def firstPid : Nat := 4242

/-- The steps after which a process counts as running for ever. -/
def steps : Nat := 200000

/-- How deep tasks of a shell may be nested in each other. -/
def depth : Nat := 100000

def initialSystem (tree : FileTree) (stdin : List UInt8) : System :=
  let input : Pipe :=
    { ready := if stdin.isEmpty then [] else [⟨0, 0, launcherPid, Octets.ofBytes stdin⟩] }
  let record : Record := { pid := firstPid, parent := launcherPid, started := 0, order := 0 }
  { tree
    pipes := #[input, {}, {}]
    opened := #[{ resource := .pipe 0, readable := true }, { resource := .pipe 1, writable := true },
      { resource := .pipe 2, writable := true }]
    records := [record]
    nextPid := firstPid + 1
    budget := steps
    process := { pid := firstPid, parent := launcherPid, descriptors := [(0, 0), (1, 1), (2, 2)],
                 working := tree.working } }

def initialShell (environment : List (String × String)) : Shell.Session :=
  { name := []
    rootPid := firstPid
    bindings := environment.reverse.map fun v =>
      (Octets.ofText v.1, { value := some (Octets.ofText v.2), exported := true }) }

def carryOut (tree : FileTree) (environment : List (String × String)) (path : Octets)
    (command : CommandLine) (stdin : List UInt8) : System × Record :=
  let start : Shell.State := ⟨initialSystem tree stdin, initialShell environment⟩
  let argv := (command.program :: command.args).map Octets.ofText
  let (result, s) := (Shell.execute (Shell.evaluate depth) path argv).run start
  let (fate, ended) := Act.conclusion s.system (result.map Fate.exited)
  let system := s.system.process.descriptors.foldl (fun t d => Act.letGo t d.2 ended) s.system
  let record : Record :=
    { pid := firstPid, parent := launcherPid, started := 0, order := 0, ended, fate }
  (system, record)

def written (system : System) (n : Nat) : List UInt8 :=
  ((system.pipes.getD n {}).chunks.map fun c => Octets.toBytes c.octets).flatten

/-- When a process has ended and nothing more comes from its pipes, if that ever happens. -/
def ending (system : System) (record : Record) : Option Nat := do
  let closing (n : Nat) : Option Nat := (system.pipes.getD n {}).closing
  return max (← record.ended) (max (← closing 1) (← closing 2))

/-- What becomes of a command, and the files as it leaves them. -/
def launch (environment : List (String × String)) (tree : FileTree) (command : CommandLine)
    (stdin : List UInt8) : Launch × FileTree :=
  if (command.program :: command.args).any ('\x00' ∈ ·.toList) then
    (.refused zeroByteCause, tree)
  else
    let path := ((environment.lookup "PATH").map Octets.ofText).getD Shell.defaultPath
    match startFault? tree path command.program with
    | some fault => (.refused fault.cause, tree)
    | none =>
      let (system, record) := carryOut tree environment path command stdin
      let launch := match ending system record with
        | none => Launch.endless
        | some elapsed =>
          let code := match record.fate with
            | .exited n => some ((n % 256 : Nat) : Int)
            | .signaled _ => none
          .ended ⟨code, written system 1, written system 2⟩ ⟨elapsed⟩
      (launch, { system.tree with working := tree.working })

end CoinRelay.Host
