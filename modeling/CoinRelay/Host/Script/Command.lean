import CoinRelay.Host.Octets

/-!
# The commands of a script

Words with quotes and expansions, redirections, and the commands made of them. What an expansion
stands for is known only when the word is used, so a word is a list of parts. The text of a here
document follows the line of its redirection and so has a number, by which it is found later.
-/

namespace CoinRelay.Host.Script

inductive Alteration where
  | plain
  /-- The word where there is no value. -/
  | otherwise
  /-- The word where there is a value. -/
  | instead
  /-- The word is a message where there is no value. -/
  | demand
  /-- The word becomes the value where there is none. -/
  | assign
  | trim (front longest : Bool)
  | length
  | unknown
deriving DecidableEq, Repr

inductive FileMode where
  | read
  | readWrite
  | write
  /-- Even where no file is to be overwritten. -/
  | overwrite
  | append
deriving DecidableEq, Repr

mutual

inductive Part where
  /-- A character; one that is escaped or quoted means nothing but itself. -/
  | char (c : Char) (escaped : Bool)
  /-- Where a quotation begins or ends. -/
  | mark
  /-- A parameter; `colon` takes an empty value for none. -/
  | parameter (name : Octets) (colon : Bool) (alteration : Alteration) (word : List Part)
  | command (body : Option Command)
  | arithmetic (word : List Part)

inductive Redirection where
  | file (descriptor : Nat) (mode : FileMode) (target : List Part)
  | duplicate (descriptor : Nat) (source : Option Nat)
  /-- The same, where the other descriptor is known only later. -/
  | duplicateOf (descriptor : Nat) (source : List Part)
  | document (descriptor : Nat) (number : Nat) (expanded : Bool)

/-- A command, with the line on which it begins where a message may name it. -/
inductive Command where
  | simple (line : Nat) (assignments words : List (List Part)) (redirections : List Redirection)
  | pipeline (background : Bool) (commands : List Command)
  | redirected (line : Nat) (body : Command) (redirections : List Redirection)
  | subshell (line : Nat) (body : Command) (redirections : List Redirection)
  | background (body : Command) (redirections : List Redirection)
  | negation (body : Command)
  | both (first second : Command)
  | either (first second : Command)
  | sequence (first second : Command)
  | conditional (test body : Command) (otherwise : Option Command)
  /-- Goes on while the test holds, or while it does not. -/
  | loop (negated : Bool) (test body : Command)
  | each (line : Nat) (name : Octets) (words : List (List Part)) (body : Command)
  | choice (line : Nat) (subject : List Part) (cases : List (List (List Part) × Option Command))
  | function (name : Octets) (body : Command)

end

instance : Inhabited Command := ⟨.simple 0 [] [] []⟩

abbrev Word := List Part

/-! ## Names -/

def isNameStart (c : Char) : Bool := c.isAlpha || c = '_'

def isNameChar (c : Char) : Bool := c.isAlphanum || c = '_'

def isName (cs : Octets) : Bool := cs.head?.any isNameStart && cs.all isNameChar

/-- A character that is the name of a parameter on its own. -/
def isSpecial (c : Char) : Bool := c ∈ ['#', '?', '$', '!', '-', '*', '@'] || c.isDigit

/-! ## Words without expansions -/

def plain? (word : Word) : Option Octets :=
  word.mapM fun
    | .char c false => some c
    | _ => none

/-- The text of a word in which quotes are removed and expansions count for nothing. -/
def unquoted (word : Word) : Octets :=
  word.filterMap fun
    | .char c _ => some c
    | _ => none

def assigned? (word : Word) : Option Octets :=
  let front := word.takeWhile fun
    | .char c false => isNameChar c
    | _ => false
  match plain? front, word.drop front.length with
  | some name, .char '=' false :: _ => if isName name then some name else none
  | _, _ => none

/-- The word that stands for all parameters, each one a field. -/
def allParameters : Word := [.mark, .parameter ['@'] false .plain [], .mark]

end CoinRelay.Host.Script
