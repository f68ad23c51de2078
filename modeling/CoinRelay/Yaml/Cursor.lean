/-!
# Places in a document

A cursor is what is left of a document together with the line, the column and the number of
characters before it. Here are also the classes of characters that decide where things end: a line
break is one of three characters once `normalize` has replaced the others.
-/

namespace CoinRelay.Yaml

/-! ## Characters -/

def isPrintable (c : Char) : Bool :=
  let n := c.toNat
  c = '\t' || c = '\n' || c = '\r' || n = 0x85 || (0x20 ≤ n && n ≤ 0x7E) ||
    (0xA0 ≤ n && n ≤ 0xFFFD) || 0x10000 ≤ n

def isBreak (c : Char) : Bool := c = '\n' || c = '\u2028' || c = '\u2029'

def isSpace (c : Char) : Bool := c = ' ' || c = '\t'

def isNameChar (c : Char) : Bool := c.isAlphanum || c = '-' || c = '_'

def mark : Char := '\uFEFF'

/-- Writes every end of a line that means no more than that as a line feed. -/
def normalize : List Char → List Char
  | [] => []
  | '\r' :: '\n' :: rest => '\n' :: normalize rest
  | c :: rest => (if c = '\r' ∨ c = '\u0085' then '\n' else c) :: normalize rest

/-- The text ends, or goes on with white space or a line break. -/
def endsWord : List Char → Bool
  | [] => true
  | c :: _ => isSpace c || isBreak c

/-! ## Cursors -/

structure Cursor where
  rest : List Char
  line : Nat := 0
  column : Nat := 0
  offset : Nat := 0
deriving Repr

namespace Cursor

def next (c : Cursor) : Cursor :=
  match c.rest with
  | [] => c
  | x :: rest =>
    if isBreak x then ⟨rest, c.line + 1, 0, c.offset + 1⟩
    else ⟨rest, c.line, c.column + 1, c.offset + 1⟩

def skip (c : Cursor) (n : Nat) : Cursor := n.repeat next c

/-- The characters at the front of which a property holds. -/
def front (c : Cursor) (p : Char → Bool) : List Char := c.rest.takeWhile p

def skipWhile (c : Cursor) (p : Char → Bool) : Cursor := c.skip (c.front p).length

def head? (c : Cursor) : Option Char := c.rest.head?

/-- No line goes on here: the document ends or a line break follows. -/
def atLineEnd (c : Cursor) : Bool := c.head?.all isBreak

/-- A comment, up to the end of its line. -/
def skipComment (c : Cursor) : Cursor :=
  if c.head? = some '#' then c.skipWhile (!isBreak ·) else c

/-- Three characters that begin a line and stand for themselves. -/
def atMarker (c : Cursor) (marker : List Char) : Bool :=
  c.column == 0 && marker.isPrefixOf c.rest && endsWord (c.rest.drop marker.length)

def atDocumentStart (c : Cursor) : Bool := c.atMarker ['-', '-', '-']

def atDocumentEnd (c : Cursor) : Bool := c.atMarker ['.', '.', '.']

def atDocumentMarker (c : Cursor) : Bool := c.atDocumentStart || c.atDocumentEnd

end Cursor

end CoinRelay.Yaml
