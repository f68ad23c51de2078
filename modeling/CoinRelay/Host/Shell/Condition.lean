import CoinRelay.Host.Arithmetic
import CoinRelay.Host.System

/-!
# Conditions

What the command that tests conditions decides: questions about one operand, comparisons of two, and
what is made of these. With few arguments their number decides how they are read.
-/

namespace CoinRelay.Host.Shell.Condition

inductive Question where
  | empty
  | notEmpty
  | exists
  | file
  | directory
  | readable
  | writable
  | executable
  | sized
  | link
  | characterDevice
  | pipe
  | terminal
  /-- About what no file here has. -/
  | never
  | owned
deriving DecidableEq, Repr

inductive Comparison where
  | textEqual
  | textNotEqual
  | textLess
  | textGreater
  | equal
  | notEqual
  | less
  | lessEqual
  | greater
  | greaterEqual
  | newer
  | older
  | sameFile
deriving DecidableEq, Repr

inductive Token where
  | question (q : Question)
  | comparison (c : Comparison)
  | not
  | both
  | either
  | openParen
  | closeParen
  | operand
  | finish
deriving DecidableEq, Repr

def operators : List (String × Token) := [
  ("-z", .question .empty), ("-n", .question .notEmpty), ("-e", .question .exists),
  ("-f", .question .file), ("-d", .question .directory), ("-r", .question .readable),
  ("-w", .question .writable), ("-x", .question .executable), ("-s", .question .sized),
  ("-h", .question .link), ("-L", .question .link), ("-c", .question .characterDevice),
  ("-p", .question .pipe), ("-t", .question .terminal), ("-b", .question .never),
  ("-u", .question .never), ("-g", .question .never), ("-k", .question .never),
  ("-S", .question .never), ("-O", .question .owned), ("-G", .question .owned),
  ("=", .comparison .textEqual), ("!=", .comparison .textNotEqual),
  ("<", .comparison .textLess), (">", .comparison .textGreater),
  ("-eq", .comparison .equal), ("-ne", .comparison .notEqual), ("-lt", .comparison .less),
  ("-le", .comparison .lessEqual), ("-gt", .comparison .greater),
  ("-ge", .comparison .greaterEqual), ("-nt", .comparison .newer), ("-ot", .comparison .older),
  ("-ef", .comparison .sameFile), ("!", .not), ("-a", .both), ("-o", .either),
  ("(", .openParen), (")", .closeParen)]

def operator? (cs : Octets) : Option Token :=
  (operators.find? fun o => o.1.toList = cs).map (·.2)

def isComparison (cs : Octets) : Bool :=
  match operator? cs with
  | some (.comparison _) => true
  | _ => false

/-- A question needs something behind it that is not itself being compared. -/
def classify : List Octets → Token
  | [] => .finish
  | a :: rest =>
    match operator? a, rest with
    | some (.question _), [] => .operand
    | some (.question q), [_] => .question q
    | some (.question q), b :: _ => if isComparison b then .operand else .question q
    | some .openParen, [] => .operand
    | some t, _ => t
    | none, _ => .operand

structure Answers where
  question : Question → Octets → Bool
  comparison : Comparison → Octets → Octets → Bool

/-- Reads on; what is wrong is told by a message. -/
abbrev Reading := StateT (List Octets) (Except Octets)

def wrong {α : Type} (operator : Octets) (text : String) : Reading α :=
  throw (operator ++ ": ".toList ++ text.toList)

def number (cs : Octets) : Reading Int :=
  match Arithmetic.ofDecimal? cs with
  | some n => return n
  | none => throw ("Illegal number: ".toList ++ cs)

/-- The first argument stays where it is; the next one is looked at. -/
def ahead (n : Nat) : Reading Token := return classify ((← get).drop n)

def advance (n : Nat) : Reading Unit := modify (·.drop n)

def compare (answers : Answers) (c : Comparison) (a b : Octets) : Reading Bool := do
  let numeric (p : Int → Int → Bool) : Reading Bool := do
    let m ← number a
    return p m (← number b)
  match c with
  | .textEqual => return a = b
  | .textNotEqual => return a ≠ b
  | .textLess => return a < b
  | .textGreater => return b < a
  | .equal => numeric fun m n => m = n
  | .notEqual => numeric fun m n => m ≠ n
  | .less => numeric fun m n => m < n
  | .lessEqual => numeric fun m n => m ≤ n
  | .greater => numeric fun m n => n < m
  | .greaterEqual => numeric fun m n => n ≤ m
  | c => return answers.comparison c a b

mutual

/-- Reads alternatives, up to the last argument that belongs to them. -/
def alternatives (answers : Answers) : (fuel : Nat) → Token → (so : Bool) → Reading Bool
  | 0, _, so => return so
  | fuel + 1, t, so => do
    let r ← conjunction answers fuel t true
    if (← ahead 1) ≠ .either then return so || r
    advance 2
    alternatives answers fuel (← ahead 0) (so || r)

def conjunction (answers : Answers) : (fuel : Nat) → Token → (so : Bool) → Reading Bool
  | 0, _, so => return so
  | fuel + 1, t, so => do
    let r ← negation answers fuel t
    if (← ahead 1) ≠ .both then return so && r
    advance 2
    conjunction answers fuel (← ahead 0) (so && r)

def negation (answers : Answers) : (fuel : Nat) → Token → Reading Bool
  | 0, _ => return false
  | fuel + 1, t => do
    if t ≠ .not then primary answers fuel t
    else
      let next ← ahead 1
      if next ≠ .finish then advance 1
      return !(← negation answers fuel next)

def primary (answers : Answers) : (fuel : Nat) → Token → Reading Bool
  | 0, _ => return false
  | fuel + 1, t => do
    let first := (← get).headD []
    match t with
    | .finish => return false
    | .openParen =>
      advance 1
      let next ← ahead 0
      if next = .closeParen then return false
      let r ← alternatives answers fuel next false
      advance 1
      if (← ahead 0) ≠ .closeParen then throw "closing paren expected".toList
      return r
    | .question q =>
      advance 1
      match ← get with
      | [] => wrong first "argument expected"
      | a :: _ =>
        match q with
        | .empty => return a.isEmpty
        | .notEmpty => return !a.isEmpty
        | .terminal =>
          let _ ← number a
          return false
        | q => return answers.question q a
    | _ =>
      match ← ahead 1 with
      | .comparison c =>
        advance 1
        let operator := (← get).headD []
        advance 1
        match ← get with
        | [] => wrong operator "argument expected"
        | b :: _ => compare answers c first b
      | _ => return !first.isEmpty

end

def whole (answers : Answers) (t : Token) (arguments : List Octets) : Except Octets Bool := do
  let (r, rest) ← (alternatives answers (8 * arguments.length + 8) t false).run arguments
  match rest with
  | [] :: _ :: _ => throw "unexpected operator".toList
  | first :: _ :: _ => throw (first ++ ": unexpected operator".toList)
  | _ => return r

def holds (answers : Answers) (negated : Bool) : List Octets → Except Octets Bool
  | [] => .ok false
  | arguments@(a :: rest) =>
    let decided (t : Token) (arguments : List Octets) : Except Octets Bool :=
      (whole answers t arguments).map (· != negated)
    let few := arguments.length = 3 ∨ arguments.length = 4
    if arguments.length = 3 ∧ isComparison (rest.headD []) then decided .operand arguments
    else if few ∧ a = ['('] ∧ arguments.getLast? = some [')'] then
      let inner := rest.dropLast
      decided (classify inner) inner
    else if few ∧ a = ['!'] then holds answers (!negated) rest
    else decided (classify arguments) arguments

end CoinRelay.Host.Shell.Condition
