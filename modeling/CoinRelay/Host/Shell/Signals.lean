import CoinRelay.Host.Shell.State

/-!
# Signals and jobs

A signal does to a process what its trap says, or else what it does by itself. A shell that waits for
a child sees the signals that come meanwhile. Jobs are the processes that were started and not
waited for at once.
-/

namespace CoinRelay.Host.Shell

/-! ## Names -/

def signalNames : List String := ["EXIT", "HUP", "INT", "QUIT", "ILL", "TRAP", "ABRT", "BUS", "FPE",
  "KILL", "USR1", "SEGV", "USR2", "PIPE", "ALRM", "TERM", "16", "CHLD", "CONT", "STOP", "TSTP",
  "TTIN", "TTOU", "URG", "XCPU", "XFSZ", "VTALRM", "PROF", "WINCH", "IO", "PWR", "SYS", "32", "33",
  "RTMIN"] ++ (List.range 15).map (fun n => "RTMIN+" ++ toString (n + 1)) ++
  (List.range 14).map (fun n => "RTMAX-" ++ toString (14 - n)) ++ ["RTMAX"]

/-- How many signals there are, with the end of a shell. -/
def signalCount : Nat := 65

def signalName (n : Nat) : String := signalNames.getD n ""

def signalByNumber? (cs : Octets) : Option Nat :=
  (Octets.toNat? cs).filter (· < signalCount)

/-- The signal of a number or a name. The end of a shell counts only where it is wanted. -/
def signal? (withExit : Bool) (cs : Octets) : Option Nat :=
  let name := String.ofList (cs.map Char.toUpper)
  match signalByNumber? cs with
  | some n => some n
  | none => (signalNames.findIdx? (· = name)).filter fun n => withExit || 0 < n

def signalText (n : Nat) : String :=
  (["", "Hangup", "Interrupt", "Quit", "Illegal instruction", "Trace/breakpoint trap", "Aborted",
    "Bus error", "Floating point exception", "Killed", "User defined signal 1",
    "Segmentation fault", "User defined signal 2", "Broken pipe", "Alarm clock", "Terminated",
    "Stack fault", "Child exited", "Continued", "Stopped (signal)", "Stopped",
    "Stopped (tty input)", "Stopped (tty output)", "Urgent I/O condition",
    "CPU time limit exceeded", "File size limit exceeded", "Virtual timer expired",
    "Profiling timer expired", "Window changed", "I/O possible", "Power failure",
    "Bad system call"] : List String).getD n ("Real-time signal " ++ toString (n - 34))

/-! ## Arrival -/

/-- Signals that do nothing by themselves. -/
def harmless : List Nat := [0, 17, 18, 23, 28]

def stopping : List Nat := [19, 20, 21, 22]

def inevitable : List Nat := [9, 19]

def deliver (n : Nat) : Action Unit := do
  let s ← shell
  match if n ∈ inevitable ∨ n = 0 then none else s.traps.lookup n with
  | some [] => return
  | some _ => change fun s => { s with pending := s.pending ++ [n] }
  | none =>
    if n ∈ harmless then return
    else if n ∈ stopping then throw (.endless false)
    else throw (.killed n)

/-- Signals come that were sent to the process up to a time, or ever. -/
def receive (limit : Option Nat) : Action Unit := do
  let s ← get
  let me := s.system.process.pid
  let mine (x : Sent) : Bool := x.target = me && limit.all (x.time ≤ ·)
  let (now, later) := s.system.sent.partition mine
  set { s with system := { s.system with sent := later } }
  for x in now.mergeSort fun a b => a.time ≤ b.time do
    let before ← clock
    act (Act.reach x.time)
    deliver x.signal
    modify fun s =>
      { s with system := { s.system with process := { s.system.process with clock := before } } }

def record? (pid : Nat) : Action (Option Record) := act (Act.record? pid)

def childEnded : Nat := 17

def awaitEnd (pid : Nat) : Action Fate := do
  match ← record? pid with
  | none => return .exited 0
  | some r =>
    receive r.ended
    act (Act.await r.ended)
    deliver childEnded
    return r.fate

/-- Says what ended a process, unless it ended by itself or quietly. -/
def announce : Fate → Action Unit
  | .exited _ => return
  | .signaled n =>
    if n = 2 ∨ n = Act.brokenPipe then return
    else writeError ((signalText n).toList ++ ['\n'])

/-- Waits for processes that were started together. The status is that of the last one. -/
def awaitAll : List Nat → (status : Nat) → Action Nat
  | [], status => return status
  | pid :: rest, _ => do
    let fate ← awaitEnd pid
    announce fate
    awaitAll rest fate.status

/-! ## Sending -/

def ancestors (records : List Record) : (fuel : Nat) → Nat → List Nat
  | 0, _ => []
  | fuel + 1, pid =>
    match records.find? (·.pid = pid) with
    | some r => r.parent :: ancestors records fuel r.parent
    | none => []

def send (target n : Nat) : Action Bool := do
  let s ← get
  let me := s.system.process
  let records := s.system.records
  if target = me.pid ∨ target = 0 then
    deliver n
    return true
  else if target ∈ ancestors records records.length me.pid ∧ records.any (·.pid = target) then
    let sent : Sent := ⟨target, n, me.clock⟩
    set { s with system := { s.system with sent := s.system.sent ++ [sent] } }
    return true
  else
    match records.find? (·.pid = target) with
    | none => return false
    | some r =>
      if r.ended.any (· < me.clock) then return false
      if n ∉ harmless ∧ !r.ended.any (· ≤ me.clock) then
        act (Act.curtail target n { time := me.clock })
      return true

/-! ## Jobs -/

def freeJob (jobs : List Job) : (fuel : Nat) → Nat → Nat
  | 0, n => n
  | fuel + 1, n => if jobs.any (·.number = n) then freeJob jobs fuel (n + 1) else n

def isDone (job : Job) : Action Bool := do
  let now ← clock
  let ends ← job.pids.mapM fun pid => do return ((← record? pid).bind (·.ended)).any (· ≤ now)
  return ends.all id

def forgetJob (job : Job) : Action Unit := change fun s =>
  { s with jobs := s.jobs.filter (·.number ≠ job.number) }

/-- Something new takes the place of the first job that was waited for, if it has come to its end. -/
def makeRoom : Action Unit := do
  let awaited ← (← shell).jobs.reverse.filterM fun job => return job.awaited && (← isDone job)
  match awaited.mergeSort fun a b => a.number ≤ b.number with
  | [] => return
  | job :: _ => forgetJob job

/-- Remembers processes that nobody waits for yet. -/
def addJob (pids : List Nat) : Action Unit := change fun s =>
  let number := freeJob s.jobs s.jobs.length 1
  { s with jobs := ⟨number, pids, false⟩ :: s.jobs, lastBackground := pids.getLast? }

def job? (cs : Octets) : Action (Option Job) := do
  let jobs := (← shell).jobs
  match cs with
  | ['%'] | ['%', '%'] | ['%', '+'] => return jobs.head?
  | ['%', '-'] => return jobs[1]?
  | '%' :: ds => return (Octets.toNat? ds).bind fun n => jobs.find? (·.number = n)
  | _ => return none

def markAwaited (job : Job) : Action Unit := change fun s =>
  { s with jobs := s.jobs.map fun j =>
      if j.number = job.number then { j with awaited := true } else j }

def awaitJob (job : Job) : Action Nat := do
  let status ← awaitAll job.pids 0
  markAwaited job
  return status

/-- Waits for jobs without a word. -/
def awaitQuietly : List Nat → Action Unit
  | [] => return
  | pid :: rest => do
    let _ ← awaitEnd pid
    awaitQuietly rest

end CoinRelay.Host.Shell
