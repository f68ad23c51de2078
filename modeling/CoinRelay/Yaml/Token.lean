import CoinRelay.Yaml.Scalar
import CoinRelay.Yaml.Tag

/-!
# Tokens

The parts of a document in order. Where a mapping is written by indentation its beginning and end
are tokens of their own, and so is the beginning of each key, though nothing may be written there:
a key is known by the colon behind it. Wherever a key may begin an empty place is therefore kept
among the tokens, and filled if a colon follows on the same line and near enough.

Sequences are not read: a document with one is refused.
-/

namespace CoinRelay.Yaml

inductive Token where
  | directive (directive : Directive)
  | documentStart
  | documentEnd
  | blockStart
  | blockEnd
  | flowStart
  | flowEnd
  | entry
  | key
  | value
  | alias (name : String)
  | anchor (name : String)
  | tag (tag : Tag)
  | scalar (text : String) (style : Style)
deriving DecidableEq, Repr

/-- A place at which a key may have begun. -/
structure Candidate where
  slot : Nat
  start : Cursor
  /-- Nothing but a key may stand here. -/
  required : Bool

/-- The most characters of a key that no question mark introduces. -/
def maxKeyLength : Nat := 1024

structure Scanner where
  cursor : Cursor
  /-- The tokens so far, in places of none, one or more. -/
  slots : Array (List Token) := #[]
  /-- The columns of the open block mappings, the innermost first. -/
  columns : List Nat := []
  /-- The candidates for a key, one for each open brace and one outside; the innermost first. -/
  candidates : List (Option Candidate) := [none]
  keyAllowed : Bool := true

namespace Scanner

def inFlow (s : Scanner) : Bool := 1 < s.candidates.length

def column? (s : Scanner) : Option Nat := s.columns.head?

/-- The first column behind that of the innermost block mapping. -/
def indent (s : Scanner) : Nat := (s.column?.map (· + 1)).getD 0

def emit (s : Scanner) (t : Token) : Scanner := { s with slots := s.slots.push [t] }

/-- Goes on at a place, after a token that decides whether a key may follow. -/
def goOn (s : Scanner) (keyAllowed : Bool) (cursor : Cursor) : Scanner :=
  { s with keyAllowed, cursor }

/-! ## Candidates -/

/-- Forgets the candidate outside or within the innermost brace, unless it has to be a key. -/
def dropCandidate (s : Scanner) : Option Scanner :=
  match s.candidates with
  | some k :: outer => if k.required then none else some { s with candidates := none :: outer }
  | _ => some s

/-- A candidate that may still be a key at the cursor. -/
def stays (s : Scanner) (k : Candidate) : Bool :=
  k.start.line == s.cursor.line && s.cursor.offset ≤ k.start.offset + maxKeyLength

/-- Forgets candidates that are too far behind, unless one has to be a key. -/
def expire (s : Scanner) : Option Scanner :=
  if s.candidates.any (·.any fun k => k.required && !s.stays k) then none
  else some { s with candidates := s.candidates.map (·.filter s.stays) }

def saveCandidate (s : Scanner) : Option Scanner :=
  if !s.keyAllowed then some s
  else do
    let required := !s.inFlow && s.column? = some s.cursor.column
    let s ← s.dropCandidate
    let k : Candidate := ⟨s.slots.size, s.cursor, required⟩
    return { s with slots := s.slots.push [], candidates := some k :: s.candidates.drop 1 }

/-! ## Block mappings -/

/-- Opens a block mapping at a column behind that of the innermost one. Gives its token. -/
def openBlock (s : Scanner) (column : Nat) : List Token × Scanner :=
  if !s.inFlow && s.indent ≤ column then
    ([.blockStart], { s with columns := column :: s.columns })
  else ([], s)

/-- Closes the block mappings of which the property holds, from the innermost on. -/
def closeWhile (s : Scanner) (p : Nat → Bool) : Scanner :=
  let closed := s.columns.takeWhile p
  { s with
    slots := s.slots.push (closed.map fun _ => .blockEnd)
    columns := s.columns.drop closed.length }

def closeBehind (s : Scanner) : Scanner :=
  if s.inFlow then s else s.closeWhile (s.cursor.column < ·)

def closeAll (s : Scanner) : Option Scanner :=
  (if s.inFlow then s else s.closeWhile fun _ => true).dropCandidate

/-! ## One token -/

/-- Past blanks, comments and line breaks. A tab counts as blank only where no key may begin. -/
def skipBlanks : (fuel : Nat) → Scanner → Scanner
  | 0, s => s
  | fuel + 1, s =>
    let c := s.cursor
    let c := if c.column == 0 && c.head? = some mark then c.next else c
    let c := c.skipWhile fun x => x = ' ' || ((s.inFlow || !s.keyAllowed) && x = '\t')
    let c := c.skipComment
    if c.rest.isEmpty || !c.atLineEnd then { s with cursor := c }
    else skipBlanks fuel (s.goOn (s.keyAllowed || !s.inFlow) c.next)

def marker (s : Scanner) (t : Token) : Option Scanner := do
  let s ← s.closeAll
  return (s.emit t).goOn false (s.cursor.skip 3)

def directiveLine (s : Scanner) : Option Scanner := do
  let s ← s.closeAll
  let (d, c) ← Directive.read? s.cursor
  return (s.emit (.directive d)).goOn false c

def openFlow (s : Scanner) : Option Scanner := do
  let s ← s.saveCandidate
  return ({ s with candidates := none :: s.candidates }.emit .flowStart).goOn true s.cursor.next

def closeFlow (s : Scanner) : Option Scanner := do
  let s ← s.dropCandidate
  let candidates := if s.inFlow then s.candidates.drop 1 else s.candidates
  return ({ s with candidates }.emit .flowEnd).goOn false s.cursor.next

def flowEntry (s : Scanner) : Option Scanner := do
  let s ← s.dropCandidate
  return (s.emit .entry).goOn true s.cursor.next

def explicitKey (s : Scanner) : Option Scanner := do
  if !s.inFlow && !s.keyAllowed then none
  let (opening, s) := s.openBlock s.cursor.column
  let s ← s.dropCandidate
  return { s with slots := s.slots.push (opening ++ [Token.key]) }.goOn (!s.inFlow) s.cursor.next

/-- A colon: the value of the candidate, or that of a key with a question mark. -/
def valueMark (s : Scanner) : Option Scanner :=
  match s.candidates with
  | some k :: outer =>
    let (opening, s) := s.openBlock k.start.column
    let slots := s.slots.modify k.slot fun _ => opening ++ [Token.key]
    some (({ s with slots, candidates := none :: outer }.emit .value).goOn false s.cursor.next)
  | _ =>
    if !s.inFlow && !s.keyAllowed then none
    else
      let (opening, s) := s.openBlock s.cursor.column
      let s := { s with slots := s.slots.push (opening ++ [Token.value]) }
      some (s.goOn (!s.inFlow) s.cursor.next)

def property (s : Scanner) : Option Scanner := do
  let s ← s.saveCandidate
  if s.cursor.head? = some '!' then
    let (tag, c) ← Tag.read? s.inFlow s.cursor
    return (s.emit (.tag tag)).goOn false c
  else
    let (name, c) ← readAnchor? s.cursor
    let t := if s.cursor.head? = some '*' then Token.alias name else .anchor name
    return (s.emit t).goOn false c

def blockScalar (s : Scanner) (folded : Bool) : Option Scanner := do
  let s ← s.dropCandidate
  let (text, c) ← Scalar.block folded s.column? s.cursor
  let style := if folded then Style.folded else .literal
  return (s.emit (.scalar (String.ofList text) style)).goOn true c

def quotedScalar (s : Scanner) (single : Bool) : Option Scanner := do
  let s ← s.saveCandidate
  let (text, c) ← Scalar.quoted single s.cursor
  return (s.emit (.scalar (String.ofList text) .quoted)).goOn false c

def plainScalar (s : Scanner) : Option Scanner := do
  let s ← s.saveCandidate
  let (text, lineEnded, c) ← Scalar.plain s.inFlow s.indent s.cursor
  return (s.emit (.scalar (String.ofList text) .plain)).goOn lineEnded c

/-- Characters that no plain scalar begins with. -/
def indicators : List Char :=
  ['-', '?', ':', ',', '[', ']', '{', '}', '#', '&', '*', '!', '|', '>', '\'', '"', '%', '@',
    '\x60']

/-- Whether a plain scalar begins with the character `x` before the text `rest`. -/
def beginsPlain (flow : Bool) (x : Char) (rest : List Char) : Bool :=
  (x ∉ indicators && !isSpace x) || (x = '-' && !rest.head?.any isSpace) ||
    (!flow && (x = '?' || x = ':') && !endsWord rest)

def token (s : Scanner) (x : Char) (rest : List Char) : Option Scanner :=
  if s.cursor.column == 0 && x = '%' then s.directiveLine
  else if s.cursor.atDocumentStart then s.marker .documentStart
  else if s.cursor.atDocumentEnd then s.marker .documentEnd
  else if x = '{' then s.openFlow
  else if x = '}' then s.closeFlow
  else if x = ',' then s.flowEntry
  else if x = '[' ∨ x = ']' ∨ (x = '-' ∧ endsWord rest) then none
  else if x = '?' && (s.inFlow || endsWord rest) then s.explicitKey
  else if x = ':' && (s.inFlow || endsWord rest) then s.valueMark
  else if x = '*' ∨ x = '&' ∨ x = '!' then s.property
  else if !s.inFlow && (x = '|' || x = '>') then s.blockScalar (x = '>')
  else if x = '\'' ∨ x = '"' then s.quotedScalar (x = '\'')
  else if beginsPlain s.inFlow x rest then s.plainScalar
  else none

/-- The next token at the cursor, with what its column and line decide before it. -/
def ready (s : Scanner) : Option Scanner :=
  ((s.skipBlanks (s.cursor.rest.length + 1)).expire).map closeBehind

def run : (fuel : Nat) → Scanner → Option Scanner
  | 0, _ => none
  | fuel + 1, s =>
    match s.ready with
    | none => none
    | some s =>
      match s.cursor.rest with
      | [] => s.closeAll
      | x :: rest => (s.token x rest).bind (run fuel)

end Scanner

def tokens? (text : List Char) : Option (List Token) :=
  if !text.all isPrintable then none
  else
    let cs := normalize text
    (Scanner.run (cs.length + 1) { cursor := { rest := cs } }).map fun s => s.slots.toList.flatten

end CoinRelay.Yaml
