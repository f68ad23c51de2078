import CoinRelay.Host.FileTree
import CoinRelay.Host.Octets

/-!
# Processes and what they share

Processes read and write through descriptors, which lead to pipes, files and devices. Each process
has a clock of its own, and only waiting and starting something move it; what is written to a pipe
is stamped with the time, so processes that really run side by side can be carried out one after the
other. A process
that is started is carried out to its end at once. If it turns out later that a signal ended it
earlier, what it did after that time is taken back from the pipes.
-/

namespace CoinRelay.Host

/-! ## Pipes and descriptors -/

/-- Octets that a process has written, and when. `order` counts all that is done. -/
structure Chunk where
  time : Nat
  order : Nat
  writer : Nat
  octets : Octets

/-- A pipe: what has been written to it and not yet read, and the processes that held its writing or
its reading end, each with the time at which it let go of it, if it ever did. -/
structure Pipe where
  /-- The newest first. -/
  written : List Chunk := []
  /-- To be read before that, the oldest first. -/
  ready : List Chunk := []
  /-- What has been read, the newest first. -/
  past : List Chunk := []
  writers : List (Nat × Option Nat) := []
  readers : List (Nat × Option Nat) := []

namespace Pipe

/-- Adds a chunk in the order of time, behind those of the same time. -/
def insert (chunk : Chunk) : List Chunk → List Chunk
  | [] => [chunk]
  | c :: rest => if c.time ≤ chunk.time then chunk :: c :: rest else c :: insert chunk rest

def add (pipe : Pipe) (chunk : Chunk) : Pipe := { pipe with written := insert chunk pipe.written }

def chunks (pipe : Pipe) : List Chunk := pipe.ready ++ pipe.written.reverse

/-- When the last of the holders of an end lets go of it, if that ever happens. -/
def release (holders : List (Nat × Option Nat)) : Option Nat :=
  holders.foldl (fun time e => do return max (← time) (← e.2)) (some 0)

/-- When nothing more will be written. -/
def closing (pipe : Pipe) : Option Nat := release pipe.writers

def desertion (pipe : Pipe) : Option Nat := release pipe.readers

/-- Takes back the chunks that are not to be kept, and what processes held of the pipe after a time,
or all of it. -/
def curtail (pipe : Pipe) (keeps : Chunk → Bool) (limit : Nat → Option (Option Nat)) : Pipe :=
  let held (holders : List (Nat × Option Nat)) := holders.filterMap fun e => match limit e.1 with
    | none => some e
    | some none => none
    | some (some time) => some (e.1, some ((e.2.map (min time)).getD time))
  { written := pipe.written.filter keeps
    ready := pipe.ready.filter keeps
    past := pipe.past.filter keeps
    writers := held pipe.writers
    readers := held pipe.readers }

end Pipe

inductive Resource where
  | pipe (n : Nat)
  | file (place : Place)
  | directory
  | device (device : Device)
deriving DecidableEq

/-- Something opened. Descriptors that share it share its offset. -/
structure Opened where
  resource : Resource
  readable : Bool := false
  writable : Bool := false
  appends : Bool := false
  offset : Nat := 0

inductive Access where
  | read
  | write
  | append
  | readWrite
deriving DecidableEq, Repr

namespace Access

def reads (a : Access) : Bool := a = .read || a = .readWrite

def writes (a : Access) : Bool := a ≠ .read

end Access

/-! ## Processes -/

inductive Fate where
  | exited (status : Nat)
  | signaled (signal : Nat)
deriving DecidableEq, Repr

/-- The status by which a shell knows a fate. -/
def Fate.status : Fate → Nat
  | .exited n => n % 256
  | .signaled n => 128 + n

structure Record where
  pid : Nat
  parent : Nat
  started : Nat
  order : Nat
  /-- When it ended, if it does. -/
  ended : Option Nat := none
  fate : Fate := .exited 0
  /-- It never ends and is never idle. -/
  busy : Bool := false

structure Process where
  pid : Nat
  parent : Nat := 1
  /-- In nanoseconds. -/
  clock : Nat := 0
  descriptors : List (Nat × Nat) := []
  working : Place := []

structure Sent where
  target : Nat
  signal : Nat
  time : Nat

structure System where
  tree : FileTree
  pipes : Array Pipe := #[]
  opened : Array Opened := #[]
  records : List Record := []
  sent : List Sent := []
  nextPid : Nat
  count : Nat := 0
  /-- The steps that are left before a process counts as running for ever. -/
  budget : Nat
  process : Process

inductive Stop where
  /-- A command of the shell itself went wrong. -/
  | failed
  | exiting
  | killed (signal : Nat)
  /-- It never ends, whether it is busy all the time or waits for what never comes. -/
  | endless (busy : Bool)
deriving DecidableEq, Repr

abbrev Act := ExceptT Stop (StateM System)

namespace Act

/-! ## Steps and time -/

/-- One step of a process that may go on for long. -/
def step : Act Unit := do
  let s ← get
  match s.budget with
  | 0 => throw (.endless true)
  | budget + 1 => set { s with budget }

/-- The process is at a time, unless it is past it. -/
def reach (time : Nat) : Act Unit := modify fun s =>
  { s with process := { s.process with clock := max s.process.clock time } }

/-- The process waits until a time that may never come. -/
def await : Option Nat → Act Unit
  | none => throw (.endless false)
  | some time => reach time

def elapse (nanos : Nat) : Act Unit := do reach ((← get).process.clock + nanos)

/-! ## Descriptors -/

def index? (descriptor : Nat) : Act (Option Nat) :=
  return (← get).process.descriptors.lookup descriptor

def opened? (descriptor : Nat) : Act (Option (Nat × Opened)) := do
  let s ← get
  return do
    let i ← s.process.descriptors.lookup descriptor
    return (i, ← s.opened[i]?)

def letGo (s : System) (opened : Nat) (time : Option Nat) : System :=
  match s.opened[opened]? with
  | some { resource := .pipe n, writable, readable, .. } =>
    let held := (s.process.pid, time)
    { s with pipes := s.pipes.modify n fun p =>
        { p with
          writers := if writable then held :: p.writers else p.writers
          readers := if readable then held :: p.readers else p.readers } }
  | _ => s

def redirect (descriptor : Nat) (opened : Option Nat) : Act Unit := modify fun s =>
  let s := match s.process.descriptors.lookup descriptor with
    | some i => letGo s i (some s.process.clock)
    | none => s
  let others := s.process.descriptors.filter (·.1 ≠ descriptor)
  let descriptors := match opened with
    | some i => (descriptor, i) :: others
    | none => others
  { s with process := { s.process with descriptors } }

def addOpened (o : Opened) : Act Nat := do
  let s ← get
  set { s with opened := s.opened.push o }
  return s.opened.size

def newPipe : Act (Nat × Nat × Nat) := do
  let s ← get
  set { s with pipes := s.pipes.push {} }
  let n := s.pipes.size
  let reading ← addOpened { resource := .pipe n, readable := true }
  let writing ← addOpened { resource := .pipe n, writable := true }
  return (n, reading, writing)

def send (n : Nat) (cs : Octets) : Act Unit := modify fun s =>
  let chunk : Chunk := ⟨s.process.clock, s.count, s.process.pid, cs⟩
  { s with pipes := s.pipes.modify n (·.add chunk), count := s.count + 1 }

/-- A pipe that holds a text and is closed. -/
def filledPipe (cs : Octets) : Act Nat := do
  let (n, reading, _) ← newPipe
  if !cs.isEmpty then send n cs
  return reading

/-! ## Reading and writing -/

/-- The bytes of a file with others written at an offset. -/
def splice (content : List UInt8) (offset : Nat) (bytes : List UInt8) : List UInt8 :=
  if offset = content.length then content ++ bytes
  else
    let gap := List.replicate (offset - content.length) 0
    content.take offset ++ gap ++ bytes ++ content.drop (offset + bytes.length)

/-- Writes, and gives the fault if that fails. -/
def write (descriptor : Nat) (cs : Octets) : Act (Option Fault) := do
  match ← opened? descriptor with
  | some (i, o) =>
    if !o.writable then return some .badDescriptor
    if cs.isEmpty then return none
    match o.resource with
    | .pipe n =>
      send n cs
      return none
    | .file place =>
      modify fun s =>
        let content := s.tree.contentAt place
        let offset := if o.appends then content.length else o.offset
        let bytes := Octets.toBytes cs
        { s with
          tree := s.tree.put place (.file (splice content offset bytes))
          opened := s.opened.modify i fun o => { o with offset := offset + bytes.length } }
      return none
    | .device .full => return some .noSpace
    | .device _ => return none
    | .directory => return some .badDescriptor
  | none => return some .badDescriptor

/-- Reads what comes next, which is nothing at the end. -/
def read (descriptor : Nat) : Act (Except Fault (Option Octets)) := do
  match ← opened? descriptor with
  | some (i, o) =>
    if !o.readable then return .error .badDescriptor
    match o.resource with
    | .pipe n =>
      let pipe := (← get).pipes.getD n {}
      match pipe.chunks with
      | [] =>
        await pipe.closing
        return .ok none
      | chunk :: ready =>
        reach chunk.time
        modify fun s => { s with pipes := s.pipes.modify n fun p =>
          { p with ready, written := [], past := chunk :: p.past } }
        return .ok (some chunk.octets)
    | .file place =>
      let content := (← get).tree.contentAt place
      let rest := content.drop o.offset
      modify fun s =>
        { s with opened := s.opened.modify i ({ · with offset := max o.offset content.length }) }
      return .ok (if rest.isEmpty then none else some (Octets.ofBytes rest))
    | .directory => return .error .isDirectory
    | .device .zero | .device .full => throw (.endless true)
    | .device _ => return .ok none
  | none => return .error .badDescriptor

def unread (descriptor : Nat) (cs : Octets) : Act Unit := do
  match ← opened? descriptor with
  | some (i, o) =>
    if cs.isEmpty then return
    match o.resource with
    | .pipe n =>
      modify fun s =>
        let chunk : Chunk := ⟨0, 0, 0, cs⟩
        { s with pipes := s.pipes.modify n fun p => { p with ready := chunk :: p.ready } }
    | .file _ =>
      modify fun s =>
        { s with opened := s.opened.modify i fun o => { o with offset := o.offset - cs.length } }
    | _ => return
  | none => return

/-! ## Opening -/

def openEntry (access : Access) (place : Place) (entry : Entry) : Act (Except Fault Nat) := do
  let o (resource : Resource) : Opened :=
    { resource, readable := access.reads, writable := access.writes, appends := access = .append }
  match entry with
  | .file _ =>
    if access = .write then modify fun s => { s with tree := s.tree.put place (.file []) }
    return .ok (← addOpened (o (.file place)))
  | .directory =>
    if access.writes then return .error .isDirectory
    return .ok (← addOpened (o .directory))
  | .device (.descriptor n) =>
    match ← opened? n with
    | some (_, d) => return .ok (← addOpened { o d.resource with appends := d.appends })
    | none => return .error .absent
  | .device .terminal => return .error .noDevice
  | .device d => return .ok (← addOpened (o (.device d)))
  | .program _ =>
    if access.writes then return .error .denied
    return .ok (← addOpened (o (.device .null)))
  | .link _ => return .error .tooManyLinks

/-- A file that is not there is made where it is to be written; `fresh` refuses one that is. -/
def openPath (access : Access) (fresh : Bool) (path : String) : Act (Except Fault Nat) := do
  let tree := (← get).tree
  let working := (← get).process.working
  let tree := { tree with working }
  match tree.locate path with
  | .error fault => return .error fault
  | .ok place =>
    match tree.entryAt? place with
    | some entry =>
      match entry with
      | .file _ => if fresh then return .error .taken
      | _ => pure ()
      openEntry access place entry
    | none =>
      if !access.writes then return .error .absent
      modify fun s => { s with tree := s.tree.put place (.file []) }
      openEntry access place (.file [])

def findEntry (path : String) (last : Bool := true) : Act (Except Fault Entry) := do
  let s ← get
  return { s.tree with working := s.process.working }.find path last

/-! ## Signals -/

/-- The moment at which a signal ends a process: it has done what it did until then, but nothing
from `order` on. -/
structure Moment where
  time : Nat
  order : Option Nat := none

def Moment.covers (m : Moment) (time order : Nat) : Bool :=
  time ≤ m.time && m.order.all (order < ·)

/-- The processes that would not have been started if a process had ended at a moment. The records
are in the order of their starts. -/
def unstarted (records : List Record) (pid : Nat) (moment : Moment) : List Nat :=
  records.foldl (fun gone r =>
    if r.parent ∈ gone ∨ (r.parent = pid ∧ !moment.covers r.started r.order) then r.pid :: gone
    else gone) []

/-- Takes back what a process did after the moment at which a signal ended it. -/
def curtail (pid signal : Nat) (moment : Moment) : Act Unit := modify fun s =>
  let gone := unstarted s.records pid moment
  let keeps (c : Chunk) : Bool :=
    c.writer ∉ gone && (c.writer ≠ pid || moment.covers c.time c.order)
  let limit (p : Nat) : Option (Option Nat) :=
    if p = pid then some (some moment.time) else if p ∈ gone then some none else none
  { s with
    pipes := s.pipes.map (·.curtail keeps limit)
    records := s.records.filterMap fun r =>
      if r.pid ∈ gone then none
      else if r.pid = pid then
        some { r with ended := some moment.time, fate := .signaled signal, busy := false }
      else some r }

/-- The signal that ends a process which writes to a pipe that nobody reads. -/
def brokenPipe : Nat := 13

/-- Ends the processes that go on writing to a pipe when nothing more is read from it. -/
def abandon (n : Nat) : Act Unit := do
  let s ← get
  let pipe := s.pipes.getD n {}
  match pipe.desertion with
  | none => return
  | some time =>
    let late := (pipe.past.reverse ++ pipe.chunks).filter (time < ·.time)
    let writers := (late.map (·.writer)).eraseDups
    for pid in writers do
      match late.find? (·.writer = pid) with
      | some c => curtail pid brokenPipe ⟨c.time, some c.order⟩
      | none => pure ()
    for r in s.records do
      if r.busy ∧ r.pid ∉ writers ∧ pipe.writers.any (·.1 = r.pid) then
        curtail r.pid brokenPipe { time := max time r.started }

/-! ## Starting processes -/

def record? (pid : Nat) : Act (Option Record) := return (← get).records.find? (·.pid = pid)

/-- How long a process starts another one, in nanoseconds. -/
def forkTime : Nat := 50000

/-- How long it takes until a new process does something. -/
def startTime : Nat := 200000

def loadTime : Nat := 500000

/-- The state in which a new process begins, with some steps set aside for its parent. -/
def begin (s : System) : System :=
  let record : Record :=
    { pid := s.nextPid, parent := s.process.pid, started := s.process.clock, order := s.count }
  { s with
    nextPid := s.nextPid + 1
    count := s.count + 1
    budget := s.budget - s.budget / 8
    records := s.records ++ [record]
    process := { s.process with
      pid := s.nextPid, parent := s.process.pid, clock := s.process.clock + startTime } }

/-- How a process ended, and when, by what it came to. -/
def conclusion (s : System) : Except Stop Fate → Fate × Option Nat
  | .ok fate => (fate, some s.process.clock)
  | .error (.killed signal) => (.signaled signal, some s.process.clock)
  | .error (.endless _) => (.exited 0, none)
  | .error _ => (.exited 2, some s.process.clock)

/-- The parent's state after its child has come to an end and let go of all it had open. -/
def finish (parent : System) (s : System) (result : Except Stop Fate) : Record × System :=
  let (fate, ended) := conclusion s result
  let s := s.process.descriptors.foldl (fun s d => letGo s d.2 ended) s
  let busy := match result with
    | .error (.endless busy) => busy
    | _ => false
  let record : Record :=
    { pid := s.process.pid, parent := parent.process.pid, started := parent.process.clock,
      order := parent.count, ended, fate, busy }
  let budget := if ended.isNone then parent.budget / 8 else s.budget + parent.budget / 8
  (record, { s with
    budget
    records := s.records.map fun r => if r.pid = record.pid then record else r
    process := { parent.process with clock := parent.process.clock + forkTime } })

/-! ## Numbers of descriptors -/

def freeFrom (descriptors : List (Nat × Nat)) : (fuel : Nat) → Nat → Nat
  | 0, n => n
  | fuel + 1, n => if descriptors.any (·.1 = n) then freeFrom descriptors fuel (n + 1) else n

/-- Lets the lowest free descriptor from a number on lead to something opened. -/
def attach (least opened : Nat) : Act Nat := do
  let descriptors := (← get).process.descriptors
  let n := freeFrom descriptors descriptors.length least
  redirect n (some opened)
  return n

/-- The least number of a descriptor that a program does not inherit. -/
def firstHidden : Nat := 10

end Act

end CoinRelay.Host
