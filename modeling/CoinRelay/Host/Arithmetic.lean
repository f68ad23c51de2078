import CoinRelay.Host.Format

/-!
# Calculations

The value of a calculation in a script: whole numbers of 64 bits that wrap around, with the operators
of C, on numerals and variables. A variable without a value counts as zero. What is not needed for
the value, such as the other side of a conditional, is read but not carried out.
-/

namespace CoinRelay.Host.Arithmetic

inductive Operator where
  | mul
  | div
  | rem
  | add
  | sub
  | shiftLeft
  | shiftRight
  | less
  | lessEqual
  | greater
  | greaterEqual
  | equal
  | notEqual
  | bitAnd
  | bitXor
  | bitOr
deriving DecidableEq, Repr

namespace Operator

/-- The lower, the tighter. -/
def precedence : Operator → Nat
  | .mul | .div | .rem => 0
  | .add | .sub => 1
  | .shiftLeft | .shiftRight => 2
  | .less | .lessEqual | .greater | .greaterEqual => 3
  | .equal | .notEqual => 4
  | .bitAnd => 5
  | .bitXor => 6
  | .bitOr => 7

def loosest : Nat := 8

end Operator

inductive Token where
  | number (n : Int)
  | name (cs : Octets)
  | binary (op : Operator)
  /-- An assignment, perhaps of the variable combined with the value. -/
  | assign (op : Option Operator)
  | both
  | either
  | not
  | complement
  | question
  | colon
  | openParen
  | closeParen
  | bad
  | finish
deriving DecidableEq, Repr

inductive Mistake where
  | noPrimary
  | noParen
  | noColon
  | noEnd
  | divisionByZero
  | badNumber (value : Octets)
deriving DecidableEq, Repr

def Mistake.message (text : Octets) (m : Mistake) : Octets :=
  let about (what : String) : Octets :=
    "arithmetic expression: ".toList ++ what.toList ++ ": \"".toList ++ text ++ ['"']
  match m with
  | .noPrimary => about "expecting primary"
  | .noParen => about "expecting ')'"
  | .noColon => about "expecting ':'"
  | .noEnd => about "expecting EOF"
  | .divisionByZero => about "division by zero"
  | .badNumber value => "Illegal number: ".toList ++ value

/-! ## Numbers -/

/-- The whole number of 64 bits that an integer is, modulo their range. -/
def wrap (n : Int) : Int := Int.bmod n 18446744073709551616

def isSpace (c : Char) : Bool := c = ' ' || ('\t' ≤ c && c ≤ '\r')

/-- A decimal numeral behind blanks and a sign, and what follows it. -/
def decimal? (cs : Octets) : Option (Int × Octets) :=
  let (sign, digits) := match cs.dropWhile isSpace with
    | '-' :: rest => ((-1 : Int), rest)
    | '+' :: rest => (1, rest)
    | rest => (1, rest)
  match digits.takeWhile Char.isDigit with
  | [] => none
  | ds => some (sign * Nat.ofDigitChars 10 ds 0, digits.dropWhile Char.isDigit)

def whole? (found : Option (Int × Octets)) : Option Int :=
  match found with
  | none => none
  | some (n, rest) =>
    if (rest.dropWhile isSpace).isEmpty ∧ Word.isSigned n then some n else none

def ofDecimal? (cs : Octets) : Option Int := whole? (decimal? cs)

/-- The number that a numeral is, in the base that its front tells; nothing counts as zero. -/
def ofNumeral? (cs : Octets) : Option Int := whole? ((Format.wholeNumber? cs).getD (0, cs))

/-! ## Tokens -/

/-- The operators by their text, the longest first. -/
def operators : List (String × Token) := [
  ("<<=", .assign (some .shiftLeft)), (">>=", .assign (some .shiftRight)),
  ("*=", .assign (some .mul)), ("/=", .assign (some .div)), ("%=", .assign (some .rem)),
  ("+=", .assign (some .add)), ("-=", .assign (some .sub)), ("&=", .assign (some .bitAnd)),
  ("^=", .assign (some .bitXor)), ("|=", .assign (some .bitOr)),
  ("==", .binary .equal), ("!=", .binary .notEqual), ("<=", .binary .lessEqual),
  (">=", .binary .greaterEqual), ("<<", .binary .shiftLeft), (">>", .binary .shiftRight),
  ("&&", .both), ("||", .either),
  ("*", .binary .mul), ("/", .binary .div), ("%", .binary .rem), ("+", .binary .add),
  ("-", .binary .sub), ("<", .binary .less), (">", .binary .greater), ("&", .binary .bitAnd),
  ("^", .binary .bitXor), ("|", .binary .bitOr), ("=", .assign none), ("!", .not),
  ("~", .complement), ("?", .question), (":", .colon), ("(", .openParen), (")", .closeParen)]

def tokens : (fuel : Nat) → Octets → List Token
  | 0, _ => []
  | _ + 1, [] => []
  | fuel + 1, c :: rest =>
    let nameChar (x : Char) : Bool := x.isAlphanum || x = '_'
    if c = ' ' ∨ c = '\t' ∨ c = '\n' then tokens fuel rest
    else if c.isDigit then
      match Format.wholeNumber? (c :: rest) with
      | some (n, rest) => .number (min n (Word.signedBound - 1)) :: tokens fuel rest
      | none => .bad :: tokens fuel rest
    else if nameChar c then
      .name ((c :: rest).takeWhile nameChar) :: tokens fuel ((c :: rest).dropWhile nameChar)
    else
      match operators.find? fun o => o.1.toList.isPrefixOf (c :: rest) with
      | some (text, t) => t :: tokens fuel ((c :: rest).drop text.length)
      | none => .bad :: tokens fuel rest

/-! ## Values -/

/-- A calculation under way. The newest assignment comes first. -/
structure State where
  rest : List Token
  lookup : Octets → Option Octets
  assigned : List (Octets × Int) := []

abbrev Calculation := StateT State (Except Mistake)

def peek : Calculation Token := return (← get).rest.headD .finish

def advance : Calculation Unit := modify fun s => { s with rest := s.rest.drop 1 }

def valueOf (name : Octets) : Calculation Int := do
  let s ← get
  match s.assigned.lookup name with
  | some n => return n
  | none =>
    let text := (s.lookup name).getD []
    match ofNumeral? text with
    | some n => return n
    | none => throw (.badNumber text)

def ofBool (b : Bool) : Int := if b then 1 else 0

/-- The result of an operator. Both divisions go toward zero. -/
def apply (op : Operator) (a b : Int) : Except Mistake Int :=
  let bits (f : UInt64 → UInt64 → UInt64) : Int :=
    wrap (f (UInt64.ofInt a) (UInt64.ofInt b)).toNat
  let places := (b % 64).toNat
  match op with
  | .mul => .ok (wrap (a * b))
  | .div => if b = 0 then .error .divisionByZero else .ok (wrap (Int.tdiv a b))
  | .rem => if b = 0 then .error .divisionByZero else .ok (Int.tmod a b)
  | .add => .ok (wrap (a + b))
  | .sub => .ok (wrap (a - b))
  | .shiftLeft => .ok (wrap (a * Nat.pow 2 places))
  | .shiftRight => .ok (Int.fdiv a (Nat.pow 2 places))
  | .less => .ok (ofBool (a < b))
  | .lessEqual => .ok (ofBool (a ≤ b))
  | .greater => .ok (ofBool (b < a))
  | .greaterEqual => .ok (ofBool (b ≤ a))
  | .equal => .ok (ofBool (a = b))
  | .notEqual => .ok (ofBool (a ≠ b))
  | .bitAnd => .ok (bits (· &&& ·))
  | .bitXor => .ok (bits (· ^^^ ·))
  | .bitOr => .ok (bits (· ||| ·))

mutual

/-- A value with the operators in front of it. What is idle is not carried out. -/
def primary : (fuel : Nat) → (idle : Bool) → Calculation Int
  | 0, _ => throw .noPrimary
  | fuel + 1, idle => do
    let t ← peek
    advance
    match t with
    | .openParen =>
      let n ← assignment fuel idle
      if (← peek) ≠ .closeParen then throw .noParen
      advance
      return n
    | .number n => return n
    | .name name => if idle then return 0 else valueOf name
    | .binary .add => primary fuel idle
    | .binary .sub => return wrap (-(← primary fuel idle))
    | .not => return ofBool ((← primary fuel idle) = 0)
    | .complement => return -(← primary fuel idle) - 1
    | _ => throw .noPrimary

/-- Reads on behind an operand and a tighter operator than `bound`. -/
def operation : (fuel : Nat) → (idle : Bool) → (bound : Nat) → Int → Operator → Calculation Int
  | 0, _, _, a, _ => return a
  | fuel + 1, idle, bound, a, op => do
    advance
    let b ← primary fuel idle
    let b ← match ← peek with
      | .binary further =>
        if further.precedence < op.precedence then operation fuel idle op.precedence b further
        else pure b
      | _ => pure b
    let a ← if idle then pure b else
      match apply op a b with
      | .ok n => pure n
      | .error m => throw m
    match ← peek with
    | .binary further =>
      if further.precedence < bound then operation fuel idle bound a further else return a
    | _ => return a

def sum : (fuel : Nat) → (idle : Bool) → Calculation Int
  | 0, _ => throw .noPrimary
  | fuel + 1, idle => do
    let a ← primary fuel idle
    match ← peek with
    | .binary op => operation fuel idle Operator.loosest a op
    | _ => return a

def conjunction : (fuel : Nat) → (idle : Bool) → Calculation Int
  | 0, _ => throw .noPrimary
  | fuel + 1, idle => do
    let a ← sum fuel idle
    if (← peek) ≠ .both then return a
    advance
    let b ← conjunction fuel (idle || a = 0)
    return ofBool (a ≠ 0 && b ≠ 0)

def disjunction : (fuel : Nat) → (idle : Bool) → Calculation Int
  | 0, _ => throw .noPrimary
  | fuel + 1, idle => do
    let a ← conjunction fuel idle
    if (← peek) ≠ .either then return a
    advance
    let b ← disjunction fuel (idle || a ≠ 0)
    return ofBool (a ≠ 0 || b ≠ 0)

def conditional : (fuel : Nat) → (idle : Bool) → Calculation Int
  | 0, _ => throw .noPrimary
  | fuel + 1, idle => do
    let a ← disjunction fuel idle
    if (← peek) ≠ .question then return a
    advance
    let b ← assignment fuel (idle || a = 0)
    if (← peek) ≠ .colon then throw .noColon
    advance
    let c ← conditional fuel (idle || a ≠ 0)
    return if a ≠ 0 then b else c

def assignment : (fuel : Nat) → (idle : Bool) → Calculation Int
  | 0, _ => throw .noPrimary
  | fuel + 1, idle => do
    match (← get).rest with
    | .name name :: .assign op :: rest =>
      modify ({ · with rest })
      let value ← assignment fuel idle
      if idle then return value
      let n ← match op with
        | none => pure value
        | some op => do
          match apply op (← valueOf name) value with
          | .ok n => pure n
          | .error m => throw m
      modify fun s => { s with assigned := (name, n) :: s.assigned }
      return n
    | _ => conditional fuel idle

end

def evaluate (lookup : Octets → Option Octets) (text : Octets) :
    Except Mistake (Int × List (Octets × Int)) := do
  let rest := tokens (text.length + 1) text
  let whole : Calculation Int := do
    let n ← assignment (8 * rest.length + 8) false
    if (← peek) ≠ .finish then throw .noEnd
    return n
  let (n, s) ← whole.run { rest, lookup }
  return (n, s.assigned.reverse)

end CoinRelay.Host.Arithmetic
