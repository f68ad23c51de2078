import CoinRelay.Host.FileTree
import CoinRelay.Host.Octets

/-!
# Patterns

A pattern stands for texts: a star for any octets, a question mark for one, brackets for one of a
set, and any other octet for itself, as does one behind a backslash. Brackets that are not closed
stand for themselves. In paths a pattern is matched component by component, and a dot at the
beginning of a name is matched by a dot only.
-/

namespace CoinRelay.Host

inductive SetItem where
  | range (low high : Char)
  | named (holds : Char → Bool)

inductive PatternPart where
  | star
  | any
  | octet (c : Char)
  | set (negated : Bool) (items : List SetItem)

abbrev Pattern := List PatternPart

namespace SetItem

def holds : SetItem → Char → Bool
  | .range low high, c => low ≤ c && c ≤ high
  | .named p, c => p c

/-- A character of ASCII that is written and is not a blank. -/
def isGraph (c : Char) : Bool := '!' ≤ c && c ≤ '~'

def classes : List (String × (Char → Bool)) := [
  ("alnum", Char.isAlphanum), ("alpha", Char.isAlpha), ("blank", fun c => c = ' ' || c = '\t'),
  ("cntrl", fun c => c < ' ' || c = '\x7f'), ("digit", Char.isDigit), ("graph", isGraph),
  ("lower", Char.isLower), ("print", fun c => isGraph c || c = ' '),
  ("punct", fun c => isGraph c && !c.isAlphanum),
  ("space", fun c => c = ' ' || ('\t' ≤ c && c ≤ '\r')), ("upper", Char.isUpper),
  ("xdigit", fun c => c.isDigit || ('a' ≤ c && c ≤ 'f') || ('A' ≤ c && c ≤ 'F'))]

/-- The class named behind an opening bracket, and how many octets its name takes. -/
def class? (cs : Octets) : Option (SetItem × Nat) :=
  classes.findSome? fun (name, p) =>
    let written := (":" ++ name ++ ":]").toList
    if written.isPrefixOf cs then some (.named p, written.length) else none

end SetItem

namespace Pattern

/-- The members of a set up to its closing bracket, which may be the first member itself. -/
def items : (fuel : Nat) → (first : Bool) → Octets → Option (List SetItem × Octets)
  | 0, _, _ => none
  | _ + 1, _, [] => none
  | fuel + 1, first, c :: rest =>
    if c = ']' ∧ !first then some ([], rest)
    else
      match if c = '[' then SetItem.class? rest else none with
      | some (item, n) => (items fuel false (rest.drop n)).map fun r => (item :: r.1, r.2)
      | none =>
        let (low, rest) := match c, rest with
          | '\\', d :: rest => (d, rest)
          | c, rest => (c, rest)
        match rest with
        | '-' :: high :: more =>
          if high = ']' then (items fuel false rest).map fun r => (.range low low :: r.1, r.2)
          else
            let (high, more) := match high, more with
              | '\\', d :: more => (d, more)
              | high, more => (high, more)
            (items fuel false more).map fun r => (.range low high :: r.1, r.2)
        | _ => (items fuel false rest).map fun r => (.range low low :: r.1, r.2)

def set? (cs : Octets) : Option (PatternPart × Octets) :=
  let (negated, cs) := match cs with
    | '!' :: rest => (true, rest)
    | cs => (false, cs)
  (items (cs.length + 1) true cs).map fun r => (.set negated r.1, r.2)

def ofOctets : (fuel : Nat) → Octets → Pattern
  | 0, _ => []
  | _ + 1, [] => []
  | fuel + 1, '*' :: rest => .star :: ofOctets fuel rest
  | fuel + 1, '?' :: rest => .any :: ofOctets fuel rest
  | fuel + 1, '\\' :: c :: rest => .octet c :: ofOctets fuel rest
  | fuel + 1, '[' :: rest =>
    match set? rest with
    | some (part, rest) => part :: ofOctets fuel rest
    | none => .octet '[' :: ofOctets fuel rest
  | fuel + 1, c :: rest => .octet c :: ofOctets fuel rest

def parse (cs : Octets) : Pattern := ofOctets (cs.length + 1) cs

/-- Whether one of the ends of a text satisfies a property, the whole text first. -/
def someEnd (p : Octets → Bool) : Octets → Bool
  | [] => p []
  | c :: cs => p (c :: cs) || someEnd p cs

def holds : Pattern → Octets → Bool
  | [], cs => cs.isEmpty
  | .star :: parts, cs => someEnd (holds parts) cs
  | .any :: parts, _ :: cs => holds parts cs
  | .octet x :: parts, c :: cs => c = x && holds parts cs
  | .set negated items :: parts, c :: cs =>
    (items.any (·.holds c) != negated) && holds parts cs
  | _ :: _, [] => false

/-! ## Parts of a text -/

/-- The ways to cut a text in two, the shortest first part first. -/
def cuts (cs : Octets) : List (Octets × Octets) :=
  (List.range (cs.length + 1)).map fun n => (cs.take n, cs.drop n)

/-- A text up to a zero, which a pattern does not look behind. -/
def upToZero (cs : Octets) : Octets := cs.takeWhile (· ≠ '\x00')

/-- The text without the longest or the shortest first part that the pattern stands for. -/
def trimFront (p : Pattern) (longest : Bool) (cs : Octets) : Octets :=
  let cuts := if longest then (cuts cs).reverse else cuts cs
  match cuts.find? fun cut => p.holds (upToZero cut.1) with
  | some cut => cut.2
  | none => cs

/-- The same for the last part. The longest one begins before the first zero. -/
def trimBack (p : Pattern) (longest : Bool) (cs : Octets) : Octets :=
  let cuts := if longest then (cuts cs).takeWhile fun cut => '\x00' ∉ cut.1
    else (cuts cs).reverse
  match cuts.find? fun cut => p.holds (upToZero cut.2) with
  | some cut => cut.1
  | none => cs

end Pattern

/-! ## Paths -/

namespace PathPattern

/-- The components of a path pattern; a slash may be behind a backslash. -/
def components : Octets → List Octets
  | [] => [[]]
  | '\\' :: '/' :: rest => [] :: components rest
  | '\\' :: c :: rest =>
    match components rest with
    | [] => [['\\', c]]
    | first :: more => ('\\' :: c :: first) :: more
  | '/' :: rest => [] :: components rest
  | c :: rest =>
    match components rest with
    | [] => [[c]]
    | first :: more => (c :: first) :: more

/-- The text that a component without a star, a question mark or a set stands for. -/
def plain? (cs : Octets) : Option Octets :=
  (Pattern.parse cs).mapM fun
    | .octet c => some c
    | _ => none

/-- The names in a directory, with the two that every directory has. -/
def namesIn (tree : FileTree) (path : String) : List Octets :=
  match tree.locate path with
  | .error _ => []
  | .ok place =>
    if (tree.directoryFault? place).isSome then []
    else ['.'] :: ['.', '.'] :: (tree.names place).map Octets.ofText

def expand (tree : FileTree) (front : Octets) : List Octets → List Octets
  | [] => []
  | [last] =>
    match plain? last with
    | some name =>
      let path := front ++ name
      if (tree.find (Octets.text path) false).isOk then [path] else []
    | none => (matching last).map (front ++ ·)
  | c :: rest =>
    match plain? c with
    | some name => expand tree (front ++ name ++ ['/']) rest
    | none => (matching c).flatMap fun name => expand tree (front ++ name ++ ['/']) rest
where
  matching (c : Octets) : List Octets :=
    let dotted := c.head? = some '.' || ['\\', '.'].isPrefixOf c
    let names := namesIn tree (if front.isEmpty then "." else Octets.text front)
    let parts := Pattern.parse c
    names.filter fun name => (dotted || name.head? ≠ some '.') && parts.holds name

/-- The paths that a pattern stands for, in the order of their octets. A pattern without a star, a
question mark or a set stands for none. -/
def paths (tree : FileTree) (pattern : Octets) : List Octets :=
  let components := components pattern
  if components.all fun c => (plain? c).isSome then []
  else (expand tree [] components).mergeSort fun a b => !(b < a)

end PathPattern

end CoinRelay.Host
