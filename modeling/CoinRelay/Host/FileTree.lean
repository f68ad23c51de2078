import CoinRelay.Files

/-!
# File trees

A file system given by its entries. A path leads through directories from the root or from the
working directory; a component that is empty or a single dot stays where it is, two dots lead up,
and each of these needs a directory to stand on. A link is followed, up to a number of links.
-/

namespace CoinRelay.Host

inductive Fault where
  | absent
  | noDevice
  | badDescriptor
  | denied
  | taken
  | notDirectory
  | isDirectory
  | noSpace
  | nameTooLong
  | tooManyLinks
deriving DecidableEq, Repr

namespace Fault

def text : Fault → String
  | .absent => "No such file or directory"
  | .noDevice => "No such device or address"
  | .badDescriptor => "Bad file descriptor"
  | .denied => "Permission denied"
  | .taken => "File exists"
  | .notDirectory => "Not a directory"
  | .isDirectory => "Is a directory"
  | .noSpace => "No space left on device"
  | .nameTooLong => "File name too long"
  | .tooManyLinks => "Too many levels of symbolic links"

def number : Fault → Nat
  | .absent => 2
  | .noDevice => 6
  | .badDescriptor => 9
  | .denied => 13
  | .taken => 17
  | .notDirectory => 20
  | .isDirectory => 21
  | .noSpace => 28
  | .nameTooLong => 36
  | .tooManyLinks => 40

end Fault

inductive Device where
  | null
  | zero
  | full
  /-- The terminal, which is not there. -/
  | terminal
  /-- What a descriptor of the process leads to. -/
  | descriptor (n : Nat)
deriving DecidableEq, Repr

inductive Entry where
  | file (content : List UInt8)
  | directory
  | program (name : String)
  | device (device : Device)
  | link (target : String)
deriving DecidableEq

/-- Components from the root on. -/
abbrev Place := List String

/-- Entries by their places, and the working directory. What lies above an entry is a directory. -/
structure FileTree where
  entries : List (Place × Entry) := []
  working : Place := []

namespace FileTree

def maxPath : Nat := 4095

def maxComponent : Nat := 255

/-- The most links that a path leads through. -/
def maxLinks : Nat := 40

def entryAt? (tree : FileTree) (place : Place) : Option Entry :=
  match tree.entries.lookup place with
  | some entry => some entry
  | none =>
    if (tree.working :: tree.entries.map (·.1)).any fun p => p.take place.length == place then
      some .directory
    else none

/-- Why a place is no directory, unless it is one. -/
def directoryFault? (tree : FileTree) (place : Place) : Option Fault :=
  match tree.entryAt? place with
  | some .directory => none
  | some _ => some .notDirectory
  | none => some .absent

/-- A link at the end is followed where `last` says so. -/
def walk (tree : FileTree) (last : Bool) (links : Nat) (place : Place) (components : Place) :
    Except Fault Place :=
  match components with
  | [] => .ok place
  | c :: rest =>
    match tree.directoryFault? place with
    | some fault => .error fault
    | none =>
      if c = "" ∨ c = "." then tree.walk last links place rest
      else if c = ".." then tree.walk last links place.dropLast rest
      else if maxComponent < c.utf8ByteSize then .error .nameTooLong
      else
        match tree.entryAt? (place ++ [c]) with
        | some (.link target) =>
          if rest = [] ∧ !last then .ok (place ++ [c])
          else
            match links with
            | 0 => .error .tooManyLinks
            | links + 1 =>
              let start := if target.toList.head? = some '/' then [] else place
              tree.walk last links start (target.splitOn "/" ++ rest)
        | _ => tree.walk last links (place ++ [c]) rest
termination_by (links, components.length)

/-- The place that a path leads to, whether or not anything stands there. -/
def locate (tree : FileTree) (path : String) (last : Bool := true) : Except Fault Place :=
  if path = "" ∨ '\x00' ∈ path.toList then .error .absent
  else if maxPath < path.utf8ByteSize then .error .nameTooLong
  else
    let start := if path.toList.head? = some '/' then [] else tree.working
    tree.walk last maxLinks start (path.splitOn "/")

def find (tree : FileTree) (path : String) (last : Bool := true) : Except Fault Entry := do
  match tree.entryAt? (← tree.locate path last) with
  | some entry => .ok entry
  | none => .error .absent

def put (tree : FileTree) (place : Place) (entry : Entry) : FileTree :=
  { tree with entries := (place, entry) :: tree.entries.filter (·.1 ≠ place) }

/-- The tree with an entry where a path leads, and with the directories that it passes on its way. -/
def putAlong (tree : FileTree) (path : String) (entry : Entry) : FileTree :=
  let start := if path.toList.head? = some '/' then [] else tree.working
  let (last, passed) := (path.splitOn "/").foldl (fun (place, passed) c =>
    if c = "" ∨ c = "." then (place, passed)
    else if c = ".." then (place.dropLast, place :: passed)
    else (place ++ [c], place :: passed)) (start, [])
  (passed.foldl (fun t p => t.put p .directory) tree).put last entry

def contentAt (tree : FileTree) (place : Place) : List UInt8 :=
  match tree.entryAt? place with
  | some (.file content) => content
  | _ => []

def names (tree : FileTree) (place : Place) : List String :=
  ((tree.working :: tree.entries.map (·.1)).filterMap fun p =>
    if p.take place.length == place then p[place.length]? else none).eraseDups

def contents : Entry → Contents
  | .file content => .bytes content
  | .directory => .directory
  | _ => .bytes []

def view (tree : FileTree) (home : String) : Files where
  home
  holds path := (tree.find path).isOk
  contents? path := (tree.find path).toOption.map contents

/-! ## The system -/

def programs : List String := ["cat", "dash", "false", "printf", "sh", "sleep", "true"]

def devices : List (String × Entry) := [
  ("null", .device .null), ("zero", .device .zero), ("full", .device .full),
  ("tty", .device .terminal), ("stdin", .link "fd/0"), ("stdout", .link "fd/1"),
  ("stderr", .link "fd/2")]

/-- What is there before anything else: programs, with a second way to them, and devices. -/
def systemEntries : List (Place × Entry) :=
  programs.map (fun name => (["usr", "bin", name], .program name)) ++
    [(["bin"], .link "usr/bin"), (["root"], .directory), (["tmp"], .directory)] ++
    devices.map (fun d => (["dev", d.1], d.2)) ++
    (List.range 10).map fun n => (["dev", "fd", toString n], .device (.descriptor n))

end FileTree

end CoinRelay.Host
