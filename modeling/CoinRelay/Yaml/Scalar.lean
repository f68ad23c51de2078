import CoinRelay.Json.Reader
import CoinRelay.Yaml.Gap

/-!
# Scalars

The four ways to write a scalar: plain, in quotes of either kind, and as a block of lines that are
kept or folded. Each reader begins at the scalar and gives its text and the place behind it. Fuel
bounds the rounds of a reader; the number of characters left, plus one, is always enough.
-/

namespace CoinRelay.Yaml

inductive Style where
  | plain
  | quoted
  | literal
  | folded
deriving DecidableEq, Repr

namespace Scalar

def fuelAt (c : Cursor) : Nat := c.rest.length + 1

/-! ## Plain scalars -/

/-- The characters that end a plain scalar within braces. -/
def isFlowIndicator (c : Char) : Bool :=
  c = ',' || c = '[' || c = ']' || c = '{' || c = '}'

/-- One word of a plain scalar: up to white space, a colon that ends a key or, within braces, an
indicator. There a colon right before an indicator is refused. -/
def plainWord (flow : Bool) : List Char → Option (List Char)
  | [] => some []
  | c :: rest =>
    if isSpace c || isBreak c then some []
    else if flow && c = ':' && (rest.head?.any fun d => isFlowIndicator d || d = '?') then
      none
    else if (c = ':' && endsWord rest) || (flow && isFlowIndicator c) then some []
    else (plainWord flow rest).map (c :: ·)

/-- Reads a plain scalar word by word. Outside braces its lines start at column `indent` or behind.
Also tells whether a line ended behind the last word. -/
def plainWords (flow : Bool) (indent : Nat) :
    (fuel : Nat) → (text : List Char) → Gap → Cursor → Option (List Char × Bool × Cursor)
  | 0, _, _, _ => none
  | fuel + 1, text, gap, c =>
    if c.atDocumentMarker || c.head? = some '#' then some (text, gap.hasBreak, c)
    else do
      let word ← plainWord flow c.rest
      let c := c.skip word.length
      let (text, gap) := if word.isEmpty then (text, gap) else (text ++ gap.text ++ word, .empty)
      if c.rest.isEmpty || !endsWord c.rest then return (text, gap.hasBreak, c)
      let (gap, c) ← gap.read indent (fuelAt c) c
      if !flow && c.column < indent then return (text, gap.hasBreak, c)
      plainWords flow indent fuel text gap c

def plain (flow : Bool) (indent : Nat) (c : Cursor) : Option (List Char × Bool × Cursor) :=
  plainWords flow indent (fuelAt c) [] .empty c

/-! ## Quoted scalars -/

def escapeChar? (c : Char) : Option Char :=
  match c with
  | '0' => some '\x00'
  | 'a' => some '\x07'
  | 'b' => some '\x08'
  | 't' | '\t' => some '\t'
  | 'n' => some '\n'
  | 'v' => some '\x0B'
  | 'f' => some '\x0C'
  | 'r' => some '\r'
  | 'e' => some '\x1B'
  | ' ' | '"' | '/' | '\\' => some c
  | 'N' => some '\u0085'
  | '_' => some '\u00A0'
  | 'L' => some '\u2028'
  | 'P' => some '\u2029'
  | _ => none

/-- How many hexadecimal digits follow a letter behind a backslash. -/
def escapeWidth? : Char → Option Nat
  | 'x' => some 2
  | 'u' => some 4
  | 'U' => some 8
  | _ => none

def hexChar? (digits : List Char) : Option Char := do
  let n ← digits.foldlM (fun n d => (Json.hexValue? d).map (n * 16 + ·)) 0
  if n < 0xD800 ∨ (0xE000 ≤ n ∧ n ≤ 0x10FFFF) then some (Char.ofNat n) else none

/-- What an escape stands for, and how long it is behind the backslash. -/
def escape? : List Char → Option (Char × Nat)
  | [] => none
  | c :: rest =>
    match escapeWidth? c with
    | some width =>
      let digits := rest.take width
      if digits.length < width then none else (hexChar? digits).map (·, width + 1)
    | none => (escapeChar? c).map (·, 1)

def quoteChar (single : Bool) : Char := if single then '\'' else '"'

/-- Reads the characters up to white space or the closing quote. An escaped line break ends them
too, and is told apart. -/
def quotedWord (single : Bool) :
    (fuel : Nat) → (text : List Char) → Cursor → Option (List Char × Bool × Cursor)
  | 0, _, _ => none
  | fuel + 1, text, c =>
    match c.rest with
    | [] => some (text, false, c)
    | x :: rest =>
      if isSpace x || isBreak x then some (text, false, c)
      else if single && x = '\'' && rest.head? = some '\'' then
        quotedWord single fuel (text ++ [x]) (c.skip 2)
      else if x = quoteChar single then some (text, false, c)
      else if !single && x = '\\' then
        if rest.head?.any isBreak then some (text, true, c.skip 2)
        else
          match escape? rest with
          | none => none
          | some (e, width) => quotedWord single fuel (text ++ [e]) (c.skip (width + 1))
      else quotedWord single fuel (text ++ [x]) c.next

def quotedWords (single : Bool) : (fuel : Nat) → (text : List Char) → Cursor →
    Option (List Char × Cursor)
  | 0, _, _ => none
  | fuel + 1, text, c =>
    if c.atDocumentMarker || c.rest.isEmpty then none
    else do
      let (text, escaped, c) ← quotedWord single (fuelAt c) text c
      if c.head? = some (quoteChar single) then return (text, c.next)
      let start := if escaped then Gap.breaks none [] else .empty
      let (gap, c) ← start.read 0 (fuelAt c) c
      quotedWords single fuel (text ++ gap.text) c

def quoted (single : Bool) (c : Cursor) : Option (List Char × Cursor) :=
  quotedWords single (fuelAt c) [] c.next

/-! ## Block scalars -/

/-- What becomes of the line breaks at the end of a block. -/
inductive Chomping where
  | strip
  | clip
  | keep
deriving DecidableEq, Repr

/-- The indicators of a block: chomping and indentation, in either order. -/
structure Header where
  chomping : Chomping := .clip
  increment : Option Nat := none

def chomping? : Char → Option Chomping
  | '+' => some .keep
  | '-' => some .strip
  | _ => none

def Header.add? (header : Header) (c : Char) : Option Header :=
  match chomping? c with
  | some chomping => some { header with chomping }
  | none =>
    if '1' ≤ c ∧ c ≤ '9' then some { header with increment := some (c.toNat - 48) } else none

def isHeaderChar (c : Char) : Bool := (chomping? c).isSome || c.isDigit

/-- Reads the indicators: none, one, or one of each kind. -/
def header? (cs : List Char) : Option Header :=
  match cs with
  | [] => some {}
  | [c] => ({} : Header).add? c
  | [c, d] =>
    if (chomping? c).isSome == (chomping? d).isSome then none
    else (({} : Header).add? c).bind (·.add? d)
  | _ => none

/-- Reads the empty lines before a line of a block, and its indentation up to column `indent`.
Without `indent` it also finds the largest column that only blanks lead to. -/
def blockBreaks (indent : Option Nat) : (fuel : Nat) → (widest : Nat) → (breaks : List Char) →
    Cursor → Option (List Char × Nat × Cursor)
  | 0, _, _, _ => none
  | fuel + 1, widest, breaks, c =>
    let blanks := (c.front (· = ' ')).length
    let c := c.skip (match indent with
      | none => blanks
      | some n => min blanks (n - c.column))
    let widest := max widest c.column
    let inside := match indent with
      | none => true
      | some n => decide (c.column < n)
    match c.head? with
    | some '\t' => if inside then none else some (breaks, widest, c)
    | some x =>
      if isBreak x then blockBreaks indent fuel widest (breaks ++ [x]) c.next
      else some (breaks, widest, c)
    | none => some (breaks, widest, c)

/-- What stands before a line of a block: the break behind the line before it, then empty lines. A
single line feed between two lines that do not begin with white space is folded. -/
def blockJoin (fold : Bool) (last breaks : List Char) : List Char :=
  if fold && last = ['\n'] then (if breaks.isEmpty then [' '] else breaks) else last ++ breaks

/-- Reads the lines of a block that start at column `indent`. `last` is the break behind the line
before, `breaks` are the empty lines since, and `spaced` tells whether the line before began with
white space. Gives the text and the breaks behind it. -/
def blockLines (folded : Bool) (indent : Nat) : (fuel : Nat) → (text last breaks : List Char) →
    (spaced : Bool) → Cursor → Option (List Char × List Char × List Char × Cursor)
  | 0, _, _, _, _, _ => none
  | fuel + 1, text, last, breaks, spaced, c =>
    if c.column ≠ indent ∨ c.rest.isEmpty then some (text, last, breaks, c)
    else do
      let spacedNow := c.head?.any isSpace
      let line := c.front (!isBreak ·)
      let text := text ++ blockJoin (folded && !spaced && !spacedNow) last breaks ++ line
      let c := c.skip line.length
      let last := c.rest.take 1
      let c := c.next
      let (breaks, _, c) ← blockBreaks (some indent) (fuelAt c) 0 [] c
      blockLines folded indent fuel text last breaks spacedNow c

/-- Reads a block scalar, from its indicator on. `parent` is the column of the mapping around it, if
there is one. -/
def block (folded : Bool) (parent : Option Nat) (c : Cursor) : Option (List Char × Cursor) := do
  let c := c.next
  let indicators := c.front isHeaderChar
  let header ← header? indicators
  let c := ((c.skip indicators.length).skipWhile isSpace).skipComment
  if !c.atLineEnd then none
  let c := c.next
  let (breaks, widest, c) ←
    blockBreaks (header.increment.map (parent.getD 0 + ·)) (fuelAt c) 0 [] c
  let indent := match header.increment with
    | some n => parent.getD 0 + n
    | none => max widest (max ((parent.map (· + 1)).getD 0) 1)
  let (text, last, breaks, c) ← blockLines folded indent (fuelAt c) [] [] breaks false c
  let tail := match header.chomping with
    | .strip => []
    | .clip => last
    | .keep => last ++ breaks
  return (text ++ tail, c)

end Scalar

end CoinRelay.Yaml
