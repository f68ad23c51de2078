import CoinRelay.Host.Pattern
import CoinRelay.Host.Shell.State

/-!
# Fields

What the expansion of a word comes to: octets, some of which are quoted, and the regions in which
separators split it into fields. White space at either end of a field is left out, other separators
each end one.
-/

namespace CoinRelay.Host.Shell

inductive Piece where
  | char (c : Char) (escaped : Bool)
  /-- Where a quotation begins or ends. -/
  | mark
  /-- Between two parameters. -/
  | gap
deriving DecidableEq, Repr

/-- A part of an expanded word in which separators count, or in which only gaps do. -/
structure Region where
  start : Nat
  stop : Nat
  gapsOnly : Bool := false
  /-- It may be extended by what follows. -/
  literal : Bool := false

structure Expanded where
  /-- The newest first. -/
  pieces : List Piece := []
  size : Nat := 0
  /-- The newest first. -/
  regions : List Region := []

def textOf (pieces : List Piece) : Octets :=
  pieces.filterMap fun
    | .char c _ => some c
    | _ => none

/-- The pattern that pieces stand for: what is escaped stands for itself. A backslash that is not
escaped hides the next octet anyway. -/
def patternOf : (hidden quoted : Bool) → List Piece → Octets
  | _, _, [] => []
  | hidden, quoted, .mark :: rest => patternOf hidden (!quoted) rest
  | hidden, quoted, .gap :: rest => patternOf hidden quoted rest
  | hidden, quoted, .char c escaped :: rest =>
    if escaped then
      let front := if !hidden then ['\\'] else if quoted then ['\\', '\\'] else []
      front ++ c :: patternOf false quoted rest
    else if c = '\\' then c :: patternOf (!hidden) quoted rest
    else c :: patternOf false quoted rest

namespace Expanded

def add (e : Expanded) (p : Piece) : Expanded :=
  { e with pieces := p :: e.pieces, size := e.size + 1 }

def addAll (e : Expanded) (ps : List Piece) : Expanded := ps.foldl add e

def addText (e : Expanded) (escaped : Bool) (cs : Octets) : Expanded :=
  e.addAll (cs.map (.char · escaped))

/-- What was added since a size becomes a region. -/
def mark (e : Expanded) (start : Nat) (gapsOnly : Bool := false) : Expanded :=
  { e with regions := { start, stop := e.size, gapsOnly } :: e.regions }

def addLiteral (e : Expanded) (c : Char) : Expanded :=
  let next := e.add (.char c false)
  match e.regions with
  | r :: others =>
    if r.literal ∧ r.stop = e.size then
      { next with regions := { r with stop := next.size } :: others }
    else { next with regions := ⟨e.size, next.size, false, true⟩ :: e.regions }
  | [] => { next with regions := [⟨e.size, next.size, false, true⟩] }

def toList (e : Expanded) : List Piece := e.pieces.reverse

def text (e : Expanded) : Octets := textOf e.toList

def pattern (e : Expanded) : Octets := patternOf false false e.toList

end Expanded

/-! ## Splitting -/

def isBlank (c : Char) : Bool := c = ' ' || c = '\t' || c = '\n'

def blanks : Octets := [' ', '\t', '\n']

structure Splitting where
  start : Nat := 0
  /-- The last piece was white space between fields. -/
  spaced : Bool := false
  gapsOnly : Bool := false
  /-- How many fields there may still be, if there is a limit. -/
  left : Option Nat := none
  /-- From here on the last field is cut off. -/
  cut : Option Nat := none
  /-- The newest first. -/
  fields : List (Nat × Nat) := []

namespace Splitting

def step (separators : Octets) (afterGaps : Bool) (s : Splitting) (at_ : Nat) (p : Piece) :
    Splitting :=
  let (separates, blank) : Bool × Bool := match p with
    | .char c _ => (separators.contains c, separators.contains c && isBlank c)
    | .gap => (true, true)
    | .mark => (false, false)
  if s.left = some 0 then
    if blank then { s with cut := s.cut.or (some at_) }
    else { s with
      cut := if separates && s.spaced then s.cut else none
      spaced := false }
  else if s.spaced then
    let s := { s with start := if separates then at_ + 1 else at_ }
    if blank then s else { s with spaced := false }
  else if separates then
    let spaced := if afterGaps || s.gapsOnly then false else blank
    if at_ = s.start ∧ spaced then { s with start := at_ + 1, spaced := false }
    else if s.left = some 1 then { s with left := some 0, cut := some at_, spaced }
    else { s with
      fields := (s.start, at_) :: s.fields
      start := at_ + 1
      spaced
      left := s.left.map (· - 1) }
  else s

def region (separators : Octets) (pieces : Array Piece) (s : Splitting) (r : Region) : Splitting :=
  let afterGaps := s.gapsOnly
  let separators := if r.gapsOnly then [] else separators
  let s := { s with gapsOnly := r.gapsOnly, spaced := false }
  (List.range' r.start (r.stop - r.start)).foldl (fun s i =>
    match pieces[i]? with
    | some p => s.step separators afterGaps i p
    | none => s) s

end Splitting

namespace Expanded

/-- The fields of an expanded word, at most a number of them if there is a limit. -/
def split (e : Expanded) (separators : Octets) (limit : Option Nat := none) : List (List Piece) :=
  let pieces := e.toList.toArray
  let s := e.regions.reverse.foldl (Splitting.region separators pieces) { left := limit }
  let stop := if s.gapsOnly then e.size else s.cut.getD e.size
  let fields := if s.gapsOnly ∨ s.start < stop then (s.start, stop) :: s.fields else s.fields
  fields.reverse.map fun (start, stop) => (pieces.toList.drop start).take (stop - start)

end Expanded

def separators : Action Octets := do
  let s ← shell
  match s.bindings.lookup "IFS".toList with
  | some { value := some cs, .. } => return cs
  | _ => return blanks

/-- The paths that a field stands for as a pattern, or else its text. -/
def paths (field : List Piece) : Action (List Octets) := do
  let s ← get
  let pattern := patternOf false false field
  let hasPattern := field.any fun
    | .char c _ => c = '*' || c = '?' || c = '['
    | _ => false
  if 'f' ∈ s.shell.options ∨ !hasPattern then return [textOf field]
  let tree := { s.system.tree with working := s.system.process.working }
  match PathPattern.paths tree pattern with
  | [] => return [textOf field]
  | found => return found

end CoinRelay.Host.Shell
