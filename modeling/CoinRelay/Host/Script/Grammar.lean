import CoinRelay.Host.Script.Draft

/-!
# The grammar of commands

Tokens, and the commands that they make up. `Source.next` reads the commands of one line, since a
line is carried out before a later one turns out to be wrong. The text of a here document is read at
the next end of a line.
-/

namespace CoinRelay.Host.Script

namespace Parser

/-! ## Tokens -/

/-- Passes over blanks and a comment, up to the first character of a token. -/
def firstChar : (fuel : Nat) → Parser (Option Char)
  | 0 => joined
  | fuel + 1 => do
    match ← joined with
    | some ' ' | some '\t' => firstChar fuel
    | some '#' =>
      let _ ← peek
      modify fun s => { s with rest := s.rest.dropWhile (· ≠ '\n') }
      firstChar fuel
    | c => return c

/-- One of two tokens, by whether a character follows. -/
def either (c : Char) (doubled single : Token) : Parser Token := do
  return if ← accept c then doubled else single

def rawToken (grammar : Grammar) : Parser Unit := do
  if (← get).kept then
    modify ({ · with kept := false })
    return
  let c ← firstChar ((← size) + 1)
  let read (t : Parser Token) : Parser Unit := do
    let token ← t
    modify ({ · with token })
  match c with
  | none => read (pure .finish)
  | some '\n' =>
    countLine
    read (pure .newline)
  | some '&' => read (either '&' .both .ampersand)
  | some '|' => read (either '|' .either .bar)
  | some ';' => read (either ';' .endCase .semicolon)
  | some '(' => read (pure .openParen)
  | some ')' => read (pure .closeParen)
  | c => word grammar c

def skipNewlines (grammar : Grammar) : (fuel : Nat) → Parser Unit
  | 0 => return
  | fuel + 1 => do
    if (← get).token = .newline then
      awaitedDocuments grammar
      modify ({ · with check := {} })
      rawToken grammar
      skipNewlines grammar fuel

/-- The text that is to be read in place of a name. -/
def replacement? (s : Source) (name : Octets) : Option Octets :=
  if s.replacements.any (·.name = name) then none else s.aliases.lookup name

/-- A word may be a keyword, or a name in place of which something else is read. -/
def tokenFrom (grammar : Grammar) : (fuel : Nat) → Check → Parser Unit
  | 0, _ => rawToken grammar
  | fuel + 1, check => do
    rawToken grammar
    if check.newlines then skipNewlines grammar ((← size) + 1)
    let s ← get
    let check := { check with
      keywords := check.keywords || s.check.keywords
      aliases := check.aliases || s.check.aliases }
    set { s with check := {} }
    if s.token ≠ .word ∨ s.quoted then return
    match plain? s.word with
    | none => return
    | some name =>
      match if check.keywords then Keyword.ofText? name else none with
      | some k => modify ({ · with token := .keyword k })
      | none =>
        match if check.aliases then replacement? s name else none with
        | none => return
        | some text =>
          if !text.isEmpty then
            let blankEnd := text.getLast?.any fun c => c = ' ' || c = '\t'
            modify fun s =>
              let r : Replacement := ⟨name, blankEnd, s.rest⟩
              { s with rest := text, replacements := r :: s.replacements }
          tokenFrom grammar fuel check

def token (grammar : Grammar) : Parser Token := do
  let s ← get
  tokenFrom grammar (s.aliases.length * (s.rest.length + 1) + 1) s.check
  return (← get).token

def lookAs (check : Check) : Parser Unit := modify ({ · with check })

def keep : Parser Unit := modify ({ · with kept := true })

def expect (grammar : Grammar) (t : Token) : Parser Unit := do
  if (← token grammar) ≠ t then unexpected (some t)

def expectKeyword (grammar : Grammar) (k : Keyword) : Parser Unit := expect grammar (.keyword k)

/-! ## Redirections -/

def duplicate (descriptor : Nat) (target : Word) : Redirection :=
  match plain? target with
  | some ['-'] => .duplicate descriptor none
  | some [c] =>
    if c.isDigit then .duplicate descriptor (some (c.toNat - 48))
    else .duplicateOf descriptor target
  | _ => .duplicateOf descriptor target

def target (grammar : Grammar) : Parser Redirection := do
  let half := (← get).half
  match half with
  | .document .. => lookAs { endMark := true }
  | _ => pure ()
  if (← token grammar) ≠ .word then unexpected
  let s ← get
  match half with
  | .file descriptor mode => return .file descriptor mode s.word
  | .duplicate descriptor => return duplicate descriptor s.word
  | .document descriptor stripped =>
    let a : Awaited := ⟨s.nextDocument, unquoted s.word, stripped, !s.quoted⟩
    set { s with awaited := s.awaited ++ [a], nextDocument := s.nextDocument + 1 }
    return .document descriptor a.number a.expanded

def redirections (grammar : Grammar) : (fuel : Nat) → Parser (List Redirection)
  | 0 => return []
  | fuel + 1 => do
    if (← token grammar) = .redirection then
      let r ← target grammar
      return r :: (← redirections grammar fuel)
    else
      keep
      return []

/-! ## Simple commands -/

/-- What has been read of a simple command, the newest first. -/
structure Simple where
  assignments : List Word := []
  words : List Word := []
  redirections : List Redirection := []

/-- The commands of the shell whose names no function can have. -/
def reservedNames : List String := [".", ":", "break", "continue", "eval", "exec", "exit", "export",
  "readonly", "return", "set", "shift", "times", "trap", "unset"]

def definition (grammar : Grammar) (name : Word) : Parser Command := do
  expect grammar .closeParen
  match (plain? name).filter fun cs => isName cs && String.ofList cs ∉ reservedNames with
  | none => fail .badFunction
  | some name =>
    lookAs .nextLine
    return .function name ((← grammar .command).getD default)

def simpleFrom (grammar : Grammar) (line : Nat) : (fuel : Nat) → Simple → Parser Command
  | 0, c => return .simple line c.assignments.reverse c.words.reverse c.redirections.reverse
  | fuel + 1, c => do
    lookAs { aliases := c.words.isEmpty }
    match ← token grammar with
    | .word =>
      let w := (← get).word
      if c.words.isEmpty ∧ (assigned? w).isSome then
        simpleFrom grammar line fuel { c with assignments := w :: c.assignments }
      else simpleFrom grammar line fuel { c with words := w :: c.words }
    | .redirection =>
      let r ← target grammar
      simpleFrom grammar line fuel { c with redirections := r :: c.redirections }
    | t =>
      match t, c with
      | .openParen, { assignments := [], words := [name], redirections := [] } =>
        definition grammar name
      | _, _ =>
        keep
        return .simple line c.assignments.reverse c.words.reverse c.redirections.reverse

def simple (grammar : Grammar) : Parser Command := do
  simpleFrom grammar (← get).line ((← size) + 2) {}

/-! ## Compound commands -/

/-- A list of commands. Only where the script ends there is none, and then the word that has to follow
is not there either. -/
def body (grammar : Grammar) : Parser Command := do
  return (← grammar (.list .body)).getD default

def conditional (grammar : Grammar) : (fuel : Nat) → Parser Command
  | 0 => unexpected
  | fuel + 1 => do
    let test ← body grammar
    expectKeyword grammar .thenWord
    let yes ← body grammar
    match ← token grammar with
    | .keyword .elif => return .conditional test yes (some (← conditional grammar fuel))
    | .keyword .elseWord => return .conditional test yes (some (← body grammar))
    | _ =>
      keep
      return .conditional test yes none

def words (grammar : Grammar) : (fuel : Nat) → Parser (List Word)
  | 0 => return []
  | fuel + 1 => do
    if (← token grammar) = .word then
      let w := (← get).word
      return w :: (← words grammar fuel)
    else return []

def each (grammar : Grammar) (line : Nat) : Parser Command := do
  let t ← token grammar
  let s ← get
  match if t = .word ∧ !s.quoted then (plain? s.word).filter isName else none with
  | none => fail .badVariable
  | some name =>
    lookAs .nextLine
    let values ← if (← token grammar) = .keyword .inWord then do
        let values ← words grammar ((← size) + 2)
        if (← get).token ∉ [.newline, .semicolon] then unexpected
        pure values
      else do
        if (← get).token ≠ .semicolon then keep
        pure [allParameters]
    lookAs .nextLine
    expectKeyword grammar .doWord
    return .each line name values (← body grammar)

def patterns (grammar : Grammar) : (fuel : Nat) → Parser (List Word)
  | 0 => return []
  | fuel + 1 => do
    let w := (← get).word
    if (← token grammar) = .bar then
      let _ ← token grammar
      return w :: (← patterns grammar fuel)
    else return [w]

def cases (grammar : Grammar) : (fuel : Nat) → Parser (List (List Word × Option Command))
  | 0 => return []
  | fuel + 1 => do
    lookAs { newlines := true, keywords := true }
    let t ← token grammar
    if t = .keyword .esac then return []
    if t = .openParen then
      let _ ← token grammar
    let ws ← patterns grammar ((← size) + 2)
    if (← get).token ≠ .closeParen then unexpected (some .closeParen)
    let commands ← grammar (.list .optional)
    lookAs { newlines := true, keywords := true }
    match ← token grammar with
    | .keyword .esac => return [(ws, commands)]
    | .endCase => return (ws, commands) :: (← cases grammar fuel)
    | _ => unexpected (some .endCase)

def choice (grammar : Grammar) (line : Nat) : Parser Command := do
  expect grammar .word
  let subject := (← get).word
  lookAs .nextLine
  expectKeyword grammar .inWord
  return .choice line subject (← cases grammar ((← size) + 2))

/-- Redirections of a shell of its own stand in place of any that it has. -/
def withRedirections (grammar : Grammar) (line : Nat) (c : Command) : Parser Command := do
  lookAs .command
  match c, ← redirections grammar ((← size) + 2) with
  | c, [] => return c
  | .subshell line body _, rs => return .subshell line body rs
  | c, rs => return .redirected line c rs

def command (grammar : Grammar) : Parser Command := do
  let line := (← get).line
  let closed (c : Command) (t : Token) : Parser Command := do
    expect grammar t
    withRedirections grammar line c
  match ← token grammar with
  | .word | .redirection =>
    keep
    simple grammar
  | .openParen => closed (.subshell line (← body grammar) []) .closeParen
  | .keyword k =>
    match k with
    | .ifWord => closed (← conditional grammar ((← size) + 2)) (.keyword .fi)
    | .whileWord | .untilWord =>
      let test ← body grammar
      expectKeyword grammar .doWord
      closed (.loop (k = .untilWord) test (← body grammar)) (.keyword .done)
    | .forWord => closed (← each grammar line) (.keyword .done)
    | .case => withRedirections grammar line (← choice grammar line)
    | .openBrace => closed (← body grammar) (.keyword .closeBrace)
    | _ => unexpected
  | _ => unexpected

/-! ## Pipelines and lists -/

def piped (grammar : Grammar) : (fuel : Nat) → Parser (List Command)
  | 0 => return []
  | fuel + 1 => do
    if (← token grammar) = .bar then
      lookAs .nextLine
      let c ← command grammar
      return c :: (← piped grammar fuel)
    else
      keep
      return []

def pipeline (grammar : Grammar) : Parser Command := do
  let negated := (← token grammar) = .keyword .bang
  if negated then lookAs .command else keep
  let first ← command grammar
  let rest ← piped grammar ((← size) + 2)
  let c := if rest.isEmpty then first else .pipeline false (first :: rest)
  return if negated then .negation c else c

/-- Reads the pipelines that depend on the one before. -/
def dependent (grammar : Grammar) : (fuel : Nat) → Command → Parser Command
  | 0, c => return c
  | fuel + 1, c => do
    match ← token grammar with
    | .both =>
      lookAs .nextLine
      let next ← pipeline grammar
      dependent grammar fuel (.both c next)
    | .either =>
      lookAs .nextLine
      let next ← pipeline grammar
      dependent grammar fuel (.either c next)
    | _ =>
      keep
      return c

def chain (grammar : Grammar) : Parser Command := do
  let first ← pipeline grammar
  dependent grammar ((← size) + 2) first

def inBackground : Command → Command
  | .pipeline _ commands => .pipeline true commands
  | .redirected _ body rs => .background body rs
  | c => .background c []

def append (before : Option Command) (c : Command) : Command :=
  match before with
  | none => c
  | some b => .sequence b c

/-- Reads on in a list of commands. `ends` allows it to end at the next token. -/
def listFrom (grammar : Grammar) (line : Bool) :
    (fuel : Nat) → (ends : Bool) → Option Command → Parser (Option Command)
  | 0, _, found => return found
  | fuel + 1, ends, found => do
    lookAs { newlines := !line, keywords := true, aliases := true }
    match ← token grammar with
    | .newline =>
      awaitedDocuments grammar
      return found
    | .finish =>
      awaitedDocuments grammar
      modify ({ · with kept := true, token := .finish })
      return found
    | t =>
      keep
      if ends ∧ !line ∧ t.endsList then return found
      let c ← chain grammar
      match ← token grammar with
      | .ampersand => listFrom grammar line fuel true (some (append found (inBackground c)))
      | .semicolon => listFrom grammar line fuel true (some (append found c))
      | .newline =>
        keep
        listFrom grammar line fuel true (some (append found c))
      | .finish =>
        awaitedDocuments grammar
        modify ({ · with kept := true, token := .finish })
        return some (append found c)
      | _ =>
        if line then unexpected
        keep
        return some (append found c)

/-- Reads what a nonterminal stands for, in terms of what is nested in it. -/
def nonterminal (grammar : Grammar) : Nonterminal → Parser (Option Command)
  | .list kind => do listFrom grammar (kind = .line) ((← size) + 2) (kind = .optional) none
  | .command => do return some (← command grammar)
  | .parenthesized => do
    let found ← listFrom grammar false ((← size) + 2) true none
    expect grammar .closeParen
    return found

/-- The grammar for commands that are nested no deeper than a depth. -/
def grammar : (depth : Nat) → Grammar
  | 0, _ => unexpected
  | depth + 1, n => nonterminal (grammar depth) n

end Parser

inductive Line where
  | finish
  /-- Commands, perhaps none, and whether the script ends with them. -/
  | commands (found : Option Command) (last : Bool)

def Source.next (s : Source) : Except (Nat × Mistake) (Line × Source) := do
  let start := { s with kept := false, check := {}, awaited := [] }
  let depth := 2 * s.rest.length + 1000
  let (found, s) ← StateT.run (Parser.grammar depth (.list .line)) start
  let last := s.kept && s.token = .finish
  return (if found.isNone ∧ last then .finish else .commands found last, s)

end CoinRelay.Host.Script
