import CoinRelay.Yaml.Cursor

/-!
# Gaps within a scalar

Where a scalar of more than one line is folded, the white space around its line breaks goes, a
single line break becomes a blank, and of several all but the first stay.
-/

namespace CoinRelay.Yaml

/-- The white space between two words of a scalar. -/
inductive Gap where
  | spaces (cs : List Char)
  /-- With line breaks; the first may have been escaped. -/
  | breaks (first : Option Char) (more : List Char)
deriving Repr

namespace Gap

def empty : Gap := .spaces []

def hasBreak : Gap → Bool
  | .spaces _ => false
  | .breaks .. => true

/-- The gap with one more space. On a new line it is indentation. -/
def space (c : Char) : Gap → Gap
  | .spaces cs => .spaces (cs ++ [c])
  | gap => gap

/-- The gap with one more line break. White space before it is lost. -/
def lineBreak (c : Char) : Gap → Gap
  | .spaces _ => .breaks (some c) []
  | .breaks first more => .breaks first (more ++ [c])

def text : Gap → List Char
  | .spaces cs => cs
  | .breaks (some '\n') [] => [' ']
  | .breaks (some '\n') more => more
  | .breaks (some c) more => c :: more
  | .breaks none more => more

/-- No tab may stand before column `indent` of a new line. -/
def read (indent : Nat) : (fuel : Nat) → Gap → Cursor → Option (Gap × Cursor)
  | 0, _, _ => none
  | fuel + 1, gap, c =>
    match c.head? with
    | none => some (gap, c)
    | some x =>
      if isBreak x then read indent fuel (gap.lineBreak x) c.next
      else if isSpace x then
        if gap.hasBreak && c.column < indent && x = '\t' then none
        else read indent fuel (gap.space x) c.next
      else some (gap, c)

end Gap

end CoinRelay.Yaml
