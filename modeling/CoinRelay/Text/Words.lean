/-!
# Splitting a command into words

Words are separated by blanks, tabs and line breaks. Single quotes keep everything, double quotes
everything but a backslash before `$`, a backquote, a double quote, a backslash or a line break; a
backslash outside quotes keeps the next character, and with a line break vanishes. A `#` at the
beginning of a word opens a comment that ends with the line. There are no words if a quote or a
backslash is left open at the end.
-/

namespace CoinRelay.Text.Words

/-- Where in a command the reader stands. -/
inductive Mode where
  | between
  | comment
  | word
  /-- Behind a backslash outside quotes. -/
  | escaped
  | single
  | double
  /-- Behind a backslash in double quotes. -/
  | doubleEscaped
deriving DecidableEq, Repr

def isSeparator (c : Char) : Bool := c = ' ' || c = '\t' || c = '\n'

/-- The characters from which a backslash takes their meaning in double quotes. -/
def escapable (c : Char) : Bool := c = '$' || c = '\x60' || c = '"' || c = '\\'

/-- Reads on with the characters of the current word so far, last first. -/
def scan : Mode → (word : List Char) → List Char → Option (List (List Char))
  | .between, _, [] => some []
  | .comment, _, [] => some []
  | .word, w, [] => some [w.reverse]
  | .escaped, _, [] => none
  | .single, _, [] => none
  | .double, _, [] => none
  | .doubleEscaped, _, [] => none
  | .between, _, c :: cs =>
    if isSeparator c then scan .between [] cs
    else if c = '#' then scan .comment [] cs
    else if c = '"' then scan .double [] cs
    else if c = '\'' then scan .single [] cs
    else if c = '\\' then scan .escaped [] cs
    else scan .word [c] cs
  | .comment, _, c :: cs => if c = '\n' then scan .between [] cs else scan .comment [] cs
  | .word, w, c :: cs =>
    if isSeparator c then (scan .between [] cs).map (w.reverse :: ·)
    else if c = '"' then scan .double w cs
    else if c = '\'' then scan .single w cs
    else if c = '\\' then scan .escaped w cs
    else scan .word (c :: w) cs
  | .escaped, w, c :: cs => if c = '\n' then scan .word w cs else scan .word (c :: w) cs
  | .single, w, c :: cs => if c = '\'' then scan .word w cs else scan .single (c :: w) cs
  | .double, w, c :: cs =>
    if c = '"' then scan .word w cs
    else if c = '\\' then scan .doubleEscaped w cs
    else scan .double (c :: w) cs
  | .doubleEscaped, w, c :: cs =>
    if c = '\n' then scan .double w cs
    else if escapable c then scan .double (c :: w) cs
    else scan .double (c :: '\\' :: w) cs

/-- The words of a command, unless something is left open. -/
def split? (cs : List Char) : Option (List String) :=
  (scan .between [] cs).map fun words => words.map String.ofList

end CoinRelay.Text.Words
