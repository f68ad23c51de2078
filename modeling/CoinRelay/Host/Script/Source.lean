import CoinRelay.Host.Script.Command

/-!
# Reading a script

What is known while a script is read: the characters that are left, the tokens, and the here
documents whose text is still to come. A name that stands for a text of its own is replaced by that
text, which is then read in its place; it does not stand for it again within that text.
-/

namespace CoinRelay.Host.Script

/-! ## Tokens -/

/-- A word that has a meaning of its own where a command may begin. -/
inductive Keyword where
  | bang
  | case
  | doWord
  | done
  | elif
  | elseWord
  | esac
  | fi
  | forWord
  | ifWord
  | inWord
  | thenWord
  | untilWord
  | whileWord
  | openBrace
  | closeBrace
deriving DecidableEq, Repr

namespace Keyword

def text : Keyword → String
  | .bang => "!"
  | .case => "case"
  | .doWord => "do"
  | .done => "done"
  | .elif => "elif"
  | .elseWord => "else"
  | .esac => "esac"
  | .fi => "fi"
  | .forWord => "for"
  | .ifWord => "if"
  | .inWord => "in"
  | .thenWord => "then"
  | .untilWord => "until"
  | .whileWord => "while"
  | .openBrace => "\x7b"
  | .closeBrace => "\x7d"

def all : List Keyword := [.bang, .case, .doWord, .done, .elif, .elseWord, .esac, .fi, .forWord,
  .ifWord, .inWord, .thenWord, .untilWord, .whileWord, .openBrace, .closeBrace]

def ofText? (cs : Octets) : Option Keyword := all.find? fun k => k.text.toList = cs

end Keyword

inductive Token where
  | finish
  | newline
  | semicolon
  | ampersand
  | both
  | either
  | bar
  | openParen
  | closeParen
  | endCase
  | redirection
  | word
  | keyword (k : Keyword)
deriving DecidableEq, Repr

namespace Token

def describe : Token → String
  | .finish => "end of file"
  | .newline => "newline"
  | .semicolon => "\";\""
  | .ampersand => "\"&\""
  | .both => "\"&&\""
  | .either => "\"||\""
  | .bar => "\"|\""
  | .openParen => "\"(\""
  | .closeParen => "\")\""
  | .endCase => "\";;\""
  | .redirection => "redirection"
  | .word => "word"
  | .keyword k => "\"" ++ k.text ++ "\""

def endsList : Token → Bool
  | .finish | .closeParen | .endCase => true
  | .keyword k =>
    k ∈ [.doWord, .done, .elif, .elseWord, .esac, .fi, .thenWord, .closeBrace]
  | _ => false

end Token

inductive Mistake where
  | openQuote
  | openBrace
  | openBackquote
  | openArithmetic
  | badVariable
  | badFunction
  | badDescriptor
  | unexpected (token : Token) (expecting : Option Token)
deriving DecidableEq, Repr

def Mistake.message (m : Mistake) : String :=
  "Syntax error: " ++ match m with
    | .openQuote => "Unterminated quoted string"
    | .openBrace => "Missing '\x7d'"
    | .openBackquote => "EOF in backquote substitution"
    | .openArithmetic => "Missing '))'"
    | .badVariable => "Bad for loop variable"
    | .badFunction => "Bad function name"
    | .badDescriptor => "Bad fd number"
    | .unexpected token none => token.describe ++ " unexpected"
    | .unexpected token (some expecting) =>
      token.describe ++ " unexpected (expecting " ++ expecting.describe ++ ")"

/-! ## The state of a reader -/

/-- How the next token is looked at. -/
structure Check where
  newlines : Bool := false
  keywords : Bool := false
  aliases : Bool := false
  /-- It marks the end of a here document. -/
  endMark : Bool := false

def Check.command : Check := { keywords := true, aliases := true }

def Check.nextLine : Check := { newlines := true, keywords := true, aliases := true }

/-- Text that is read in place of a name, and what follows the name. -/
structure Replacement where
  name : Octets
  blankEnd : Bool
  after : Octets

/-- A here document whose text is still to come. -/
structure Awaited where
  number : Nat
  ending : Octets
  /-- Tabs at the front of its lines are left out. -/
  stripped : Bool
  expanded : Bool

/-- A redirection of which the target is still to come. -/
inductive HalfRedirection where
  | file (descriptor : Nat) (mode : FileMode)
  | duplicate (descriptor : Nat)
  | document (descriptor : Nat) (stripped : Bool)

structure Source where
  rest : Octets
  line : Nat := 1
  replacements : List Replacement := []
  aliases : List (Octets × Octets) := []
  check : Check := {}
  token : Token := .finish
  kept : Bool := false
  /-- The last word, and whether anything in it was quoted. -/
  word : Word := []
  quoted : Bool := false
  half : HalfRedirection := .duplicate 0
  awaited : List Awaited := []
  documents : List (Nat × Word) := []
  nextDocument : Nat := 0

/-- Reads; a mistake comes with its line. -/
abbrev Parser := StateT Source (Except (Nat × Mistake))

namespace Parser

def fail {α : Type} (m : Mistake) : Parser α := do throw ((← get).line, m)

def unexpected {α : Type} (expecting : Option Token := none) : Parser α := do
  fail (.unexpected (← get).token expecting)

/-! ## Characters -/

/-- Goes on behind the replacements that have been read to their ends. -/
def settle : List Replacement → Source → Source
  | [], s => s
  | r :: more, s =>
    match s.rest with
    | _ :: _ => s
    | [] =>
      let aliases := s.check.aliases || r.blankEnd
      settle more { s with
        rest := r.after, replacements := more, check := { s.check with aliases } }

def peek : Parser (Option Char) := do
  modify fun s => settle s.replacements s
  return (← get).rest.head?

def next : Parser (Option Char) := do
  let c ← peek
  modify fun s => { s with rest := s.rest.drop 1 }
  return c

def restore (c : Option Char) : Parser Unit := modify fun s => { s with rest := c.toList ++ s.rest }

def countLine : Parser Unit := modify fun s => { s with line := s.line + 1 }

def size : Parser Nat := do
  let s ← get
  return (s.replacements.map fun r => r.after.length).foldl (· + ·) s.rest.length

/-- How many lines are continued at the front of a text, and what follows. -/
def skipContinued : Octets → Nat × Octets
  | '\\' :: '\n' :: rest =>
    let r := skipContinued rest
    (r.1 + 1, r.2)
  | cs => (0, cs)

def joined : Parser (Option Char) := do
  let _ ← peek
  modify fun s =>
    let (n, rest) := skipContinued s.rest
    { s with rest, line := s.line + n }
  next

/-- Reads a character behind continued lines, if it is the given one. -/
def accept (c : Char) : Parser Bool := do
  let found ← joined
  if found = some c then return true
  restore found
  return false

end Parser

end CoinRelay.Host.Script
