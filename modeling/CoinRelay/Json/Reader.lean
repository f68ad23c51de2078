import CoinRelay.Json.Basic

/-!
# Reading JSON

A strict reader: one value between blanks, nothing else. Strings hold no bare control characters
and no lone surrogate escapes, numbers have no leading zeros, and containers nest at most
`maxDepth` deep. What is read is canonical.
-/

namespace CoinRelay.Json

def maxDepth : Nat := 127

def isGap (c : Char) : Bool := c = ' ' || c = '\n' || c = '\t' || c = '\r'

def skipGap (cs : List Char) : List Char := cs.dropWhile isGap

/-! ## Strings -/

def hexValue? (c : Char) : Option Nat :=
  if '0' ≤ c ∧ c ≤ '9' then some (c.toNat - 48)
  else if 'a' ≤ c ∧ c ≤ 'f' then some (c.toNat - 87)
  else if 'A' ≤ c ∧ c ≤ 'F' then some (c.toNat - 55)
  else none

def hexUnit? (a b c d : Char) : Option Nat := do
  let a ← hexValue? a
  let b ← hexValue? b
  let c ← hexValue? c
  let d ← hexValue? d
  return ((a * 16 + b) * 16 + c) * 16 + d

def isHighSurrogate (n : Nat) : Bool := 0xD800 ≤ n && n < 0xDC00

def isLowSurrogate (n : Nat) : Bool := 0xDC00 ≤ n && n < 0xE000

def unescape? (c : Char) : Option Char :=
  if c = '"' ∨ c = '\\' ∨ c = '/' then some c
  else if c = 'b' then some (Char.ofNat 8)
  else if c = 'f' then some (Char.ofNat 12)
  else if c = 'n' then some '\n'
  else if c = 'r' then some '\r'
  else if c = 't' then some '\t'
  else none

/-- Reads a string behind its opening quote, and gives what follows the closing one. -/
def readString : List Char → Option (List Char × List Char)
  | [] => none
  | '"' :: rest => some ([], rest)
  | '\\' :: 'u' :: a :: b :: c :: d :: rest =>
    match hexUnit? a b c d with
    | none => none
    | some n =>
      if isHighSurrogate n then
        match rest with
        | '\\' :: 'u' :: a :: b :: c :: d :: rest =>
          match hexUnit? a b c d with
          | none => none
          | some m =>
            if isLowSurrogate m then
              (readString rest).map fun r =>
                (Char.ofNat (0x10000 + (n - 0xD800) * 0x400 + (m - 0xDC00)) :: r.1, r.2)
            else none
        | _ => none
      else if isLowSurrogate n then none
      else (readString rest).map fun r => (Char.ofNat n :: r.1, r.2)
  | '\\' :: c :: rest =>
    match unescape? c with
    | none => none
    | some e => (readString rest).map fun r => (e :: r.1, r.2)
  | c :: rest =>
    if c.toNat < 32 ∨ c = '\\' then none
    else (readString rest).map fun r => (c :: r.1, r.2)

/-! ## Numbers -/

/-- Splits off the digits at the front; there must be one. -/
def digits? (cs : List Char) : Option (List Char × List Char) :=
  match cs.takeWhile Char.isDigit with
  | [] => none
  | ds => some (ds, cs.dropWhile Char.isDigit)

def fraction? : List Char → Option (Option (List Char) × List Char)
  | '.' :: cs => (digits? cs).map fun r => (some r.1, r.2)
  | cs => some (none, cs)

def exponent? : List Char → Option (Option Int × List Char)
  | c :: cs =>
    if c = 'e' ∨ c = 'E' then
      let value (sign : Int) (r : List Char × List Char) : Option Int × List Char :=
        (some (sign * Nat.ofDigitChars 10 r.1 0), r.2)
      match cs with
      | '-' :: cs => (digits? cs).map (value (-1))
      | '+' :: cs => (digits? cs).map (value 1)
      | cs => (digits? cs).map (value 1)
    else some (none, c :: cs)
  | [] => some (none, [])

/-- A word with digits behind it, as many as fit, and how many those are. -/
def absorb (n : Nat) : List Char → Nat × Nat
  | [] => (n, 0)
  | d :: ds =>
    let m := n * 10 + (d.toNat - 48)
    if (m : Int) < Word.unsignedBound then
      let r := absorb m ds
      (r.1, r.2 + 1)
    else (n, 0)

def doubleOf? (negative : Bool) (significand : Nat) (exponent : Int) : Option Number :=
  (Double.ofDecimal? significand exponent).map fun n => .double (.ofPlace negative n)

/-- The number with the given parts. Without fraction and exponent it is whole if it fits, except
for minus zero. Of a double only those digits count that fit a word; what is left out of its whole
digits still moves the point. -/
def number? (negative : Bool) (whole : List Char) (fraction : Option (List Char))
    (exponent : Option Int) : Option Number :=
  let (n, taken) := absorb 0 whole
  let left := (whole.length : Int) - taken
  match fraction, exponent with
  | none, none =>
    let value : Int := if negative then -(n : Int) else n
    if 0 < left ∨ (negative ∧ n = 0) then doubleOf? negative n left
    else match WholeNumber.ofInt? value with
      | some w => some (.whole w)
      | none => doubleOf? negative n 0
  | _, _ =>
    let (m, more) := absorb n (fraction.getD [])
    doubleOf? negative m (left - more + exponent.getD 0)

/-- Reads a number behind its sign. -/
def readUnsignedNumber (negative : Bool) (cs : List Char) : Option (Number × List Char) := do
  let (whole, cs) ← digits? cs
  if whole.head? = some '0' ∧ 1 < whole.length then none
  let (fraction, cs) ← fraction? cs
  let (exponent, cs) ← exponent? cs
  let n ← number? negative whole fraction exponent
  return (n, cs)

def readNumber : List Char → Option (Number × List Char)
  | '-' :: cs => readUnsignedNumber true cs
  | cs => readUnsignedNumber false cs

/-! ## Values -/

mutual

/-- Reads a value that begins at the first character. `fuel` bounds the calls, `depth` the
containers that may still open. -/
def readValue : (fuel depth : Nat) → List Char → Option (Json × List Char)
  | 0, _, _ => none
  | fuel + 1, depth, cs =>
    match cs with
    | 'n' :: 'u' :: 'l' :: 'l' :: rest => some (.null, rest)
    | 't' :: 'r' :: 'u' :: 'e' :: rest => some (.bool true, rest)
    | 'f' :: 'a' :: 'l' :: 's' :: 'e' :: rest => some (.bool false, rest)
    | '"' :: rest => (readString rest).map fun r => (.str (String.ofList r.1), r.2)
    | '[' :: rest =>
      match depth with
      | 0 => none
      | depth + 1 =>
        match skipGap rest with
        | ']' :: rest => some (.arr [], rest)
        | rest => (readItems fuel depth rest).map fun r => (.arr r.1, r.2)
    | '{' :: rest =>
      match depth with
      | 0 => none
      | depth + 1 =>
        match skipGap rest with
        | '}' :: rest => some (.obj [], rest)
        | rest => (readMembers fuel depth rest).map fun r => (.obj (Fields.ofList r.1), r.2)
    | cs => (readNumber cs).map fun r => (.num r.1, r.2)

/-- Reads one or more items and the closing bracket. -/
def readItems : (fuel depth : Nat) → List Char → Option (List Json × List Char)
  | 0, _, _ => none
  | fuel + 1, depth, cs =>
    match readValue fuel depth cs with
    | none => none
    | some (v, rest) =>
      match skipGap rest with
      | ',' :: rest => (readItems fuel depth (skipGap rest)).map fun r => (v :: r.1, r.2)
      | ']' :: rest => some ([v], rest)
      | _ => none

/-- Reads one or more members and the closing brace. -/
def readMembers : (fuel depth : Nat) → List Char → Option (List (String × Json) × List Char)
  | 0, _, _ => none
  | fuel + 1, depth, cs =>
    match cs with
    | '"' :: rest =>
      match readString rest with
      | none => none
      | some (key, rest) =>
        match skipGap rest with
        | ':' :: rest =>
          match readValue fuel depth (skipGap rest) with
          | none => none
          | some (v, rest) =>
            match skipGap rest with
            | ',' :: rest =>
              (readMembers fuel depth (skipGap rest)).map fun r =>
                ((String.ofList key, v) :: r.1, r.2)
            | '}' :: rest => some ([(String.ofList key, v)], rest)
            | _ => none
        | _ => none
    | _ => none

end

/-- The value that a text consists of. A text of `n` characters needs at most `2 * n` calls. -/
def read? (cs : List Char) : Option Json :=
  match readValue (2 * cs.length + 1) maxDepth (skipGap cs) with
  | some (v, rest) => if (skipGap rest).isEmpty then some v else none
  | none => none

def parse? (s : String) : Option Json := read? s.toList

end CoinRelay.Json
