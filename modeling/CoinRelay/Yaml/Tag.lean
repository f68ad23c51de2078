import CoinRelay.Json.Reader
import CoinRelay.Text.Utf8
import CoinRelay.Yaml.Cursor

/-!
# Names, tags and directives

An anchor gives a node a name, a tag says what kind of node it is, and directives at the top of a
document declare its version and its tag handles. A tag is a handle and a suffix; the full tag is
the text that the handle stands for, followed by the suffix.
-/

namespace CoinRelay.Yaml

/-- A tag as it is written. Without a handle the suffix is the whole tag. -/
structure Tag where
  handle : String
  suffix : String
deriving DecidableEq, Repr

inductive Directive where
  | version (major minor : Nat)
  | handle (name text : String)
deriving DecidableEq, Repr

/-- What the handles stand for where nothing else is declared. -/
def standardHandles : List (String × String) := [("!", "!"), ("!!", "tag:yaml.org,2002:")]

namespace Tag

/-- The full tag under declared handles. A handle that is not known is refused. -/
def resolve? (handles : List (String × String)) (tag : Tag) : Option String :=
  if tag.handle.isEmpty then some tag.suffix
  else ((handles ++ standardHandles).lookup tag.handle).map (· ++ tag.suffix)

/-! ## Reading tags -/

/-- A character that a tag may hold unescaped; flow indicators only where `wide`. -/
def isUriChar (wide : Bool) (c : Char) : Bool :=
  isNameChar c ||
    c ∈ [';', '/', '?', ':', '@', '&', '=', '+', '$', '.', '!', '~', '*', '\'', '(', ')']
    || (wide && (c = ',' || c = '[' || c = ']'))

/-- How many bytes the character has that a byte leads. -/
def escapedWidth? (b : Nat) : Option Nat :=
  if b < 0x80 then some 1
  else if 0xC0 ≤ b ∧ b < 0xE0 then some 2
  else if 0xE0 ≤ b ∧ b < 0xF0 then some 3
  else if 0xF0 ≤ b ∧ b < 0xF8 then some 4
  else none

def escapedByte? : List Char → Option UInt8
  | '%' :: a :: b :: _ => do
    let a ← Json.hexValue? a
    let b ← Json.hexValue? b
    return UInt8.ofNat (a * 16 + b)
  | _ => none

/-- One character, each of its bytes escaped, and the number of its bytes. -/
def escapedChar? (cs : List Char) : Option (List Char × Nat) := do
  let width ← escapedWidth? (← escapedByte? cs).toNat
  let bytes ← (List.range width).mapM fun i => escapedByte? (cs.drop (3 * i))
  return ((← Text.Utf8.strict? bytes).toList, width)

def uri (wide : Bool) : (fuel : Nat) → (text : List Char) → Cursor → Option (List Char × Cursor)
  | 0, _, _ => none
  | fuel + 1, text, c =>
    match c.head? with
    | none => some (text, c)
    | some x =>
      if x = '%' then
        match escapedChar? c.rest with
        | none => none
        | some (cs, width) => uri wide fuel (text ++ cs) (c.skip (3 * width))
      else if isUriChar wide x then uri wide fuel (text ++ [x]) c.next
      else some (text, c)

def readUri (wide : Bool) (start : List Char) (c : Cursor) : Option (List Char × Cursor) :=
  uri wide (c.rest.length + 1) start c

/-- Reads a handle: an exclamation mark, a name, and the mark that closes it, if there is one. -/
def readHandle? (c : Cursor) : Option (List Char × Cursor) :=
  if c.head? ≠ some '!' then none
  else
    let name := c.next.front isNameChar
    let c := c.next.skip name.length
    if c.head? = some '!' then some ('!' :: name ++ ['!'], c.next) else some ('!' :: name, c)

def isClosed (handle : List Char) : Bool := 1 < handle.length && handle.getLast? = some '!'

/-- Reads a tag, from its exclamation mark on. Within braces a comma may follow it. -/
def read? (flow : Bool) (c : Cursor) : Option (Tag × Cursor) := do
  let (tag, c) ←
    if ['!', '<'].isPrefixOf c.rest then do
      let (suffix, c) ← readUri true [] (c.skip 2)
      if suffix.isEmpty ∨ c.head? ≠ some '>' then none
      some ((⟨"", String.ofList suffix⟩ : Tag), c.next)
    else do
      let (handle, c) ← readHandle? c
      if isClosed handle then
        let (suffix, c) ← readUri false [] c
        if suffix.isEmpty then none
        some (⟨String.ofList handle, String.ofList suffix⟩, c)
      else
        let (suffix, c) ← readUri false (handle.drop 1) c
        if suffix.isEmpty then some (⟨"", "!"⟩, c)
        else some (⟨"!", String.ofList suffix⟩, c)
  if endsWord c.rest || (flow && c.head? = some ',') then some (tag, c) else none

end Tag

/-! ## Anchors -/

def readAnchor? (c : Cursor) : Option (String × Cursor) :=
  let name := c.next.front isNameChar
  let c := c.next.skip name.length
  let closed := endsWord c.rest ||
    c.head?.any fun x => x ∈ ['?', ':', ',', ']', '}', '%', '@', '\x60']
  if name.isEmpty || !closed then none else some (String.ofList name, c)

/-! ## Directives -/

namespace Directive

def version? : Directive → Option (Nat × Nat)
  | .version major minor => some (major, minor)
  | .handle .. => none

def handle? : Directive → Option (String × String)
  | .handle name text => some (name, text)
  | .version .. => none

def maxDigits : Nat := 9

def readNumber? (c : Cursor) : Option (Nat × Cursor) :=
  let ds := c.front Char.isDigit
  if ds.isEmpty ∨ maxDigits < ds.length then none
  else some (Nat.ofDigitChars 10 ds 0, c.skip ds.length)

def readVersion? (c : Cursor) : Option (Directive × Cursor) := do
  let (major, c) ← readNumber? (c.skipWhile isSpace)
  if c.head? ≠ some '.' then none
  let (minor, c) ← readNumber? c.next
  return (.version major minor, c)

def readTagHandle? (c : Cursor) : Option (Directive × Cursor) := do
  let (name, c) ← Tag.readHandle? (c.skipWhile isSpace)
  if name ≠ ['!'] ∧ !Tag.isClosed name then none
  if !c.head?.any isSpace then none
  let (text, c) ← Tag.readUri true [] (c.skipWhile isSpace)
  if text.isEmpty ∨ !endsWord c.rest then none
  return (.handle (String.ofList name) (String.ofList text), c)

/-- Reads the line of a directive. Others than the two known ones are refused. -/
def read? (c : Cursor) : Option (Directive × Cursor) := do
  let name := c.next.front isNameChar
  let c := c.next.skip name.length
  if name.isEmpty ∨ !endsWord c.rest then none
  let (directive, c) ←
    if name = ['Y', 'A', 'M', 'L'] then readVersion? c
    else if name = ['T', 'A', 'G'] then readTagHandle? c
    else none
  let c := (c.skipWhile isSpace).skipComment
  if !c.atLineEnd then none
  return (directive, c.next)

end Directive

end CoinRelay.Yaml
