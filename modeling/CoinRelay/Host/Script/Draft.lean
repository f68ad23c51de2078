import CoinRelay.Host.Script.Source

/-!
# Reading words

A word is read character by character. What a character means depends on the innermost quotation,
expansion or calculation that is open; a draft of the word keeps these as frames. An expansion of
another command is read by the grammar of commands, which is a parameter here.
-/

namespace CoinRelay.Host.Script

/-! ## Drafts -/

inductive Mode where
  | base
  | double
  | single
  | arithmetic
deriving DecidableEq, Repr

structure Frame where
  mode : Mode
  /-- Within double quotes, or as within them. -/
  double : Bool := false
  nest : Nat := 0
  /-- Double quotes are open within these. -/
  inner : Bool := false
  /-- How many of them stand within double quotes. -/
  doubled : Nat := 0
  /-- The frame ends with the last of them. -/
  pushed : Bool := false
  parens : Nat := 0

/-- An expansion of which the end is still to come. -/
inductive Opening where
  | parameter (name : Octets) (colon : Bool) (alteration : Alteration)
  | arithmetic

structure Draft where
  frame : Frame
  outer : List Frame := []
  /-- The newest first, like those in front of what is open. -/
  parts : List Part := []
  openings : List (Opening × List Part) := []
  quoted : Bool := false

namespace Draft

def add (d : Draft) (p : Part) : Draft := { d with parts := p :: d.parts }

def addChar (d : Draft) (c : Char) (escaped : Bool) : Draft := d.add (.char c escaped)

def push (d : Draft) (frame : Frame) : Draft := { d with frame, outer := d.frame :: d.outer }

def pop (d : Draft) : Draft :=
  match d.outer with
  | frame :: outer => { d with frame, outer }
  | [] => d

def start (d : Draft) (o : Opening) : Draft :=
  { d with parts := [], openings := (o, d.parts) :: d.openings }

def finish (d : Draft) : Draft :=
  match d.openings with
  | (o, front) :: openings =>
    let word := d.parts.reverse
    let part := match o with
      | .parameter name colon alteration => Part.parameter name colon alteration word
      | .arithmetic => .arithmetic word
    { d with parts := part :: front, openings }
  | [] => d

/-- A mark of a quotation; here documents have none. -/
def addMark (d : Draft) (document : Bool) : Draft := if document then d else d.add .mark

def toggleInner (d : Draft) : Draft :=
  if 0 < d.frame.nest then { d with frame := { d.frame with inner := !d.frame.inner } } else d

def endQuote (d : Draft) (document : Bool) (c : Char) : Draft :=
  if document ∧ d.frame.nest = 0 then d.addChar c true
  else
    let d := { d with quoted := true }
    let d := if d.frame.doubled = 0 then { d with frame := { d.frame with
        mode := .base, double := false } } else d
    (if c = '"' then d.toggleInner else d).addMark document

def endBrace (d : Draft) : Draft :=
  if d.frame.inner ∨ d.frame.nest = 0 then d.addChar '}' false
  else
    let d := d.finish
    let nest := d.frame.nest - 1
    if nest = 0 ∧ d.frame.pushed then d.pop
    else { d with frame := { d.frame with nest, doubled := d.frame.doubled - 1 } }

/-- Opens an expansion in braces; the word in it is read in a mode of its own. -/
def openBrace (d : Draft) (mode : Mode) (o : Opening) : Draft :=
  let mode := if mode = .arithmetic then .double else mode
  let d := if mode ≠ d.frame.mode ∨ d.frame.inner then
      d.push { mode, pushed := true, double := mode ≠ .base } else d
  let doubled := if d.frame.double then d.frame.doubled + 1 else d.frame.doubled
  { d with frame := { d.frame with nest := d.frame.nest + 1, doubled } }.start o

end Draft

/-! ## The grammar as a parameter -/

inductive ListKind where
  | line
  /-- At least one command, up to a token that ends a list. -/
  | body
  | optional
deriving DecidableEq, Repr

inductive Nonterminal where
  | list (kind : ListKind)
  | command
  | parenthesized

abbrev Grammar := Nonterminal → Parser (Option Command)

namespace Parser

/-- Here documents whose text never comes are empty. -/
def leaveEmpty : Parser Unit := modify fun s =>
  { s with documents := s.awaited.map (fun a => (a.number, [])) ++ s.documents, awaited := [] }

/-- Reads commands within a word. Here documents do not reach out of them. -/
def nested (commands : Parser (Option Command)) : Parser (Option Command) := do
  let awaited := (← get).awaited
  modify ({ · with awaited := [] })
  let found ← commands
  leaveEmpty
  modify ({ · with awaited })
  return found

def backquoted (double : Bool) : (fuel : Nat) → Octets → Parser Octets
  | 0, _ => fail .openBackquote
  | fuel + 1, cs => do
    match ← joined with
    | none => fail .openBackquote
    | some '\x60' => return cs.reverse
    | some '\\' =>
      match ← next with
      | none => fail .openBackquote
      | some c =>
        let bare := c = '\\' ∨ c = '\x60' ∨ c = '$' ∨ (double ∧ c = '"')
        backquoted double fuel (if bare then c :: cs else c :: '\\' :: cs)
    | some c =>
      if c = '\n' then countLine
      backquoted double fuel (c :: cs)

/-- Commands between backquotes; their text is read on its own, and counts its own lines. -/
def backquote (grammar : Grammar) (d : Draft) : Parser Draft := do
  let text ← backquoted d.frame.double ((← size) + 1) []
  let { rest, line, replacements, .. } ← get
  modify fun s => { s with rest := text, line := 1, replacements := [] }
  let body ← nested (grammar (.list .optional))
  modify ({ · with rest, line, replacements, kept := false })
  return d.add (.command body)

/-! ## Parameters -/

/-- Reads characters of a class behind the one that is at hand, and the next one. -/
def run (p : Char → Bool) : (fuel : Nat) → Option Char → Octets → Parser (Octets × Option Char)
  | 0, c, cs => return (cs.reverse, c)
  | fuel + 1, c, cs => do
    match c with
    | some x => if p x then run p fuel (← joined) (x :: cs) else return (cs.reverse, c)
    | none => return (cs.reverse, c)

/-- The name of a parameter, whether its length is asked for, and the character behind it. -/
structure Named where
  name : Octets
  length : Bool := false
  after : Option Char
  bad : Bool := false

def longName? (whole : Bool) (c : Option Char) : Parser (Option (Octets × Option Char)) := do
  match c with
  | none => return none
  | some x =>
    if isNameStart x then return some (← run isNameChar ((← size) + 2) c [])
    else if x.isDigit then
      if whole then return some (← run Char.isDigit ((← size) + 2) c [])
      else return some ([x], ← joined)
    else return none

def bracedName : Parser Named := do
  let c ← joined
  match ← longName? true c with
  | some (name, after) => return { name, after }
  | none =>
    if c = some '}' then return { name := [], after := c, bad := true }
    let special (c after : Option Char) (length : Bool) : Named :=
      match c with
      | some x => if isSpecial x then { name := [x], after, length } else
          { name := [], after, bad := true }
      | none => { name := [], after, bad := true }
    let after ← joined
    if c ≠ some '#' then return special c after false
    match ← longName? true after with
    | some (name, after) => return { name, after, length := true }
    | none =>
      let further ← joined
      if after = some '}' ∨ further ≠ some '}' then
        restore further
        return special c after false
      return special after further true

def alterationOf? : Char → Option Alteration
  | '}' => some .plain
  | '-' => some .otherwise
  | '+' => some .instead
  | '?' => some .demand
  | '=' => some .assign
  | _ => none

/-- Reads what stands behind a name in braces and opens the expansion. -/
def altered (d : Draft) (n : Named) : Parser Draft := do
  let mode := d.frame.mode
  let opened (mode : Mode) (colon : Bool) (a : Alteration) : Draft :=
    d.openBrace mode (.parameter n.name colon a)
  if n.bad then
    restore n.after
    return opened mode false .unknown
  else if n.length then
    restore n.after
    return opened mode false (if n.after = some '}' then .length else .unknown)
  else
    match n.after with
    | some '%' => return opened .base false (.trim false (← accept '%'))
    | some '#' => return opened .base false (.trim true (← accept '#'))
    | some ':' => return opened mode true (((← joined).bind alterationOf?).getD .unknown)
    | some '}' => return d.add (.parameter n.name false .plain [])
    | c => return opened mode false ((c.bind alterationOf?).getD .unknown)

def expansion (grammar : Grammar) (literal : Bool) (d : Draft) : Parser Draft := do
  let c ← joined
  let starts := c.any fun x => x = '(' || x = '{' || isNameStart x || isSpecial x
  if literal ∨ !starts then
    restore c
    return d.addChar '$' false
  else if c = some '(' then
    if ← accept '(' then
      return (d.push { mode := .arithmetic, double := true }).start .arithmetic
    else return d.add (.command (← nested (grammar .parenthesized)))
  else if c = some '{' then altered d (← bracedName)
  else
    match ← longName? false c with
    | some (name, after) =>
      restore after
      return d.add (.parameter name false .plain [])
    | none => return d.add (.parameter c.toList false .plain [])

/-! ## Words -/

def following (mode : Mode) : Parser (Option Char) := if mode = .single then next else joined

/-- Characters that end a word outside of quotes. -/
def endsWord (c : Char) : Bool := c ∈ ['<', '>', '(', ')', ';', '&', '|', ' ', '\t', '\n']

/-- The end of a here document, if it stands here: `none` takes the place of the next character. -/
def documentEnd (ending : Octets) (stripped : Bool) (c : Option Char) : Parser (Option Char) := do
  restore c
  if stripped then modify fun s => { s with rest := s.rest.dropWhile (· = '\t') }
  let s ← get
  if ending.isPrefixOf s.rest then
    match s.rest.drop ending.length with
    | [] =>
      set { s with rest := [] }
      return none
    | '\n' :: rest =>
      set { s with rest, line := s.line + 1 }
      return none
    | _ => next
  else next

def backslash (document : Bool) (d : Draft) : Parser Draft := do
  match ← next with
  | none => return d.addChar '\\' true
  | some c =>
    let bare := c = '\\' ∨ c = '\x60' ∨ c = '$' ∨ (c = '"' ∧ !(document ∧ d.frame.nest = 0)) ∨
      (c = '}' ∧ 0 < d.frame.nest)
    let d := if d.frame.double ∧ !bare then d.addChar '\\' true else d
    return { d.addChar c true with quoted := true }

def closeParen (d : Draft) : Parser Draft := do
  if 0 < d.frame.parens then
    return { d.addChar ')' false with frame := { d.frame with parens := d.frame.parens - 1 } }
  else if ← accept ')' then return d.finish.pop
  else return d.addChar ')' false

def character (grammar : Grammar) (document literal : Bool) (d : Draft) (c : Char) :
    Parser Draft := do
  match d.frame.mode, c with
  | .single, '\'' => return d.endQuote document c
  | .single, _ => return d.addChar c true
  | .double, '"' => return d.endQuote document c
  | .arithmetic, '(' =>
    return { d.addChar c false with frame := { d.frame with parens := d.frame.parens + 1 } }
  | .arithmetic, ')' => closeParen d
  | .base, '\'' => return { d with frame := { d.frame with mode := .single } }.addMark document
  | .base, '"' =>
    return ({ d with frame := { d.frame with
      mode := .double, double := true } }.toggleInner).addMark document
  | _, '\\' => backslash document d
  | _, '$' => expansion grammar literal d
  | _, '}' => return d.endBrace
  | _, '\x60' => if literal then return d.addChar c false else backquote grammar d
  | mode, _ => return d.addChar c (mode = .double)

/-- Reads on in a word, up to the character that ends it. `ending` is the line that ends it where it
is a here document, and whether tabs are left out. -/
def characters (grammar : Grammar) (ending : Option (Octets × Bool)) (literal : Bool) :
    (fuel : Nat) → Option Char → Draft → Parser (Option Char × Draft)
  | 0, c, d => return (c, d)
  | fuel + 1, c, d => do
    match c with
    | none => return (none, d)
    | some x =>
      let mode := d.frame.mode
      if mode = .base ∧ d.frame.nest = 0 ∧ endsWord x then return (c, d)
      else if x = '\n' then
        countLine
        let c ← following mode
        let c ← match ending with
          | some (text, stripped) => documentEnd text stripped c
          | none => pure c
        characters grammar ending literal fuel c (d.addChar x false)
      else
        let d ← character grammar ending.isSome literal d x
        let c ← following d.frame.mode
        characters grammar ending literal fuel c d

/-- The end of a word, at which nothing may be open. -/
def complete (document : Bool) (d : Draft) : Parser Word := do
  if d.frame.mode = .arithmetic then fail .openArithmetic
  if d.frame.mode ≠ .base ∧ !document then fail .openQuote
  if d.frame.nest ≠ 0 then fail .openBrace
  return d.parts.reverse

def redirection (first : Char) (descriptor : Option Nat) : Parser Unit := do
  let number := descriptor.getD (if first = '<' then 0 else 1)
  let c ← joined
  let half ← if first = '>' then
      match c with
      | some '>' => pure (.file number .append)
      | some '|' => pure (.file number .overwrite)
      | some '&' => pure (.duplicate number)
      | _ =>
        restore c
        pure (.file number .write)
    else
      match c with
      | some '<' => pure (.document number (← accept '-'))
      | some '&' => pure (.duplicate number)
      | some '>' => pure (.file number .readWrite)
      | _ =>
        restore c
        pure (.file number .read)
  modify ({ · with half, token := .redirection })

def descriptor? (d : Draft) : Option (Option Nat) :=
  match d.quoted, d.parts with
  | false, [] => some none
  | false, [.char c false] => if c.isDigit then some (some (c.toNat - 48)) else none
  | _, _ => none

/-- Reads a word that begins with a character, or the redirection that it turns out to be. -/
def word (grammar : Grammar) (first : Option Char) : Parser Unit := do
  let literal := (← get).check.endMark
  let draft : Draft := { frame := { mode := .base } }
  let (c, d) ← characters grammar none literal ((← size) + 2) first draft
  let word ← complete false d
  match c, descriptor? d with
  | some '<', some n => redirection '<' n
  | some '>', some n => redirection '>' n
  | _, _ =>
    restore c
    modify ({ · with word, quoted := d.quoted, token := .word })

def document (grammar : Grammar) (a : Awaited) : Parser Unit := do
  let mode : Mode := if a.expanded then .double else .single
  let c ← documentEnd a.ending a.stripped (← following mode)
  let draft : Draft := { frame := { mode, double := a.expanded } }
  let (_, d) ← characters grammar (some (a.ending, a.stripped)) false ((← size) + 2) c draft
  let word ← complete true d
  modify fun s => { s with documents := (a.number, word) :: s.documents, word, quoted := d.quoted }

def awaitedDocuments (grammar : Grammar) : Parser Unit := do
  let awaited := (← get).awaited
  modify ({ · with awaited := [] })
  for a in awaited do document grammar a

end Parser

end CoinRelay.Host.Script
