import CoinRelay.Host.Octets
import CoinRelay.Json.Reader

/-!
# Floating point numbers in print

A binary number with a bounded mantissa, read from a numeral by rounding its exact value once, to
the nearest and on a tie to the even one, and written positionally, with an exponent, or in base
sixteen. All steps are exact in naturals but the one rounding.
-/

namespace CoinRelay.Host

inductive Floating where
  /-- The magnitude `mantissa * 2 ^ exponent`. -/
  | finite (negative : Bool) (mantissa : Nat) (exponent : Int)
  | infinite (negative : Bool)
  | nan (negative : Bool)
deriving DecidableEq, Repr

/-- A binary format: the bits of a mantissa and the range of the exponent. -/
structure FloatingFormat where
  bits : Nat
  least : Int
  greatest : Int

namespace FloatingFormat

def double : FloatingFormat := ⟨53, -1074, 971⟩

def extended : FloatingFormat := ⟨64, -16445, 16320⟩

end FloatingFormat

namespace Floating

/-- A power with an exponent that counts as zero where it is negative. -/
def power (base : Nat) (exponent : Int) : Nat := Nat.pow base exponent.toNat

/-- A quotient, rounded to the nearest, on a tie to the even one. -/
def roundedQuotient (a b : Nat) : Nat :=
  let q := a / b
  let r := 2 * (a % b)
  if b < r ∨ (r = b ∧ q % 2 = 1) then q + 1 else q

/-! ## Reading -/

/-- A number that was read: whether its magnitude was out of range, and what follows it. -/
structure Found where
  value : Floating
  outOfRange : Bool := false
  rest : Octets

/-- The number nearest to a positive quotient, and whether it is out of range. -/
def nearest (f : FloatingFormat) (negative : Bool) (a b : Nat) : Floating × Bool :=
  if a = 0 then (.finite negative 0 f.least, false)
  else
    let estimate := (a.log2 : Int) - b.log2 - f.bits
    let fits (q : Int) : Bool := a * power 2 (-q) < b * power 2 q * Nat.pow 2 f.bits
    let q := max f.least (if fits estimate then estimate else estimate + 1)
    let num := a * power 2 (-q)
    let den := b * power 2 q
    let m := roundedQuotient num den
    let (m, q) := if m = Nat.pow 2 f.bits then (m / 2, q + 1) else (m, q)
    if f.greatest < q then (.infinite negative, true)
    else (.finite negative m q, m < Nat.pow 2 (f.bits - 1) && num % den ≠ 0)

/-- The largest exponent that is worth computing with. -/
def exponentLimit : Int := 20000

def exponent? (letter : Char) (cs : Octets) : Option (Int × Octets) :=
  match cs with
  | c :: rest =>
    if c.toLower ≠ letter then none
    else
      let (negative, rest) := match rest with
        | '-' :: rest => (true, rest)
        | '+' :: rest => (false, rest)
        | rest => (false, rest)
      match rest.takeWhile Char.isDigit with
      | [] => none
      | ds =>
        let n : Int := Nat.ofDigitChars 10 (ds.take 9) 0
        some (if negative then -n else n, rest.dropWhile Char.isDigit)
  | [] => none

/-- The digits as a number, how many of them follow the point, and what comes next. -/
def digits? (base : Nat) (cs : Octets) : Option (Nat × Nat × Octets) :=
  let isDigit (c : Char) : Bool := (Json.hexValue? c).any (· < base)
  let number (ds : Octets) : Nat := ds.foldl (fun n c => n * base + (Json.hexValue? c).getD 0) 0
  let whole := cs.takeWhile isDigit
  let (fraction, rest) := match cs.drop whole.length with
    | '.' :: rest => (rest.takeWhile isDigit, rest.dropWhile isDigit)
    | rest => ([], rest)
  if whole.isEmpty ∧ fraction.isEmpty then none
  else some (number (whole ++ fraction), fraction.length, rest)

def beginsWith (word : String) (cs : Octets) : Bool :=
  (cs.take word.length).map Char.toLower = word.toList

def readMagnitude? (f : FloatingFormat) (negative : Bool) (cs : Octets) : Option Found :=
  if beginsWith "infinity" cs then some { value := .infinite negative, rest := cs.drop 8 }
  else if beginsWith "inf" cs then some { value := .infinite negative, rest := cs.drop 3 }
  else if beginsWith "nan" cs then some { value := .nan negative, rest := cs.drop 3 }
  else
    match if beginsWith "0x" cs then digits? 16 (cs.drop 2) else none with
    | some (n, places, rest) =>
      let (e, rest) := (exponent? 'p' rest).getD (0, rest)
      let e := max (-exponentLimit) (min exponentLimit (e - 4 * places))
      let (value, outOfRange) := nearest f negative (n * power 2 e) (power 2 (-e))
      some { value, outOfRange, rest }
    | none =>
      (digits? 10 cs).map fun (n, places, rest) =>
        let (e, rest) := (exponent? 'e' rest).getD (0, rest)
        let e := max (-exponentLimit) (min exponentLimit (e - places))
        let (value, outOfRange) := nearest f negative (n * power 10 e) (power 10 (-e))
        { value, outOfRange, rest }

def isBlank (c : Char) : Bool := c = ' ' || ('\t' ≤ c && c ≤ '\r')

def read? (f : FloatingFormat) (cs : Octets) : Option Found :=
  match cs.dropWhile isBlank with
  | '-' :: rest => readMagnitude? f true rest
  | '+' :: rest => readMagnitude? f false rest
  | rest => readMagnitude? f false rest

def ofInt (f : FloatingFormat) (n : Int) : Floating := (nearest f (n < 0) n.natAbs 1).1

/-! ## Writing -/

/-- Digits with a point before the last `places` of them. -/
def pointed (places : Nat) (always : Bool) (ds : Octets) : Octets :=
  let ds := List.replicate (places + 1 - ds.length) '0' ++ ds
  let whole := ds.take (ds.length - places)
  let fraction := ds.drop (ds.length - places)
  if fraction.isEmpty ∧ !always then whole else whole ++ '.' :: fraction

def positional (mantissa : Nat) (exponent : Int) (places : Nat) (always : Bool) : Octets :=
  let n := roundedQuotient (mantissa * power 2 exponent * Nat.pow 10 places) (power 2 (-exponent))
  pointed places always (Nat.toDigits 10 n)

/-- The digits of a magnitude, one more than `places`, and the power of ten of the first. -/
def scientificDigits (mantissa : Nat) (exponent : Int) (places : Nat) : Octets × Int :=
  if mantissa = 0 then (List.replicate (places + 1) '0', 0)
  else
    let a := mantissa * power 2 exponent
    let b := power 2 (-exponent)
    let estimate := ((Nat.toDigits 10 a).length : Int) - (Nat.toDigits 10 b).length
    let e := if a * power 10 (-estimate) < b * power 10 estimate then estimate - 1 else estimate
    let shift := places - e
    let n := roundedQuotient (a * power 10 shift) (b * power 10 (-shift))
    if n = Nat.pow 10 (places + 1) then (Nat.toDigits 10 (n / 10), e + 1)
    else (Nat.toDigits 10 n, e)

def exponentText (e : Int) : Octets :=
  let ds := Nat.toDigits 10 e.natAbs
  (if e < 0 then '-' else '+') :: List.replicate (2 - ds.length) '0' ++ ds

def scientific (mantissa : Nat) (exponent : Int) (places : Nat) (always : Bool) : Octets :=
  let (ds, e) := scientificDigits mantissa exponent places
  pointed places always ds ++ 'e' :: exponentText e

/-- Digits without the zeros at their end, and without a point at the end. -/
def stripZeros (cs : Octets) : Octets :=
  if '.' ∈ cs then
    let cs := (cs.reverse.dropWhile (· = '0')).reverse
    if cs.getLast? = some '.' then cs.dropLast else cs
  else cs

/-- A magnitude with a number of digits, in the shorter of the two ways. -/
def general (mantissa : Nat) (exponent : Int) (precision : Nat) (full : Bool) : Octets :=
  let digits := max 1 precision
  let (ds, e) := scientificDigits mantissa exponent (digits - 1)
  let strip (cs : Octets) : Octets := if full then cs else stripZeros cs
  if -4 ≤ e ∧ e < digits then
    strip (positional mantissa exponent (digits - 1 - e).toNat full)
  else strip (pointed (digits - 1) full ds) ++ 'e' :: exponentText e

/-- A magnitude in base sixteen: behind the point the bits of the mantissa but those of the first
digit, or as many digits as are asked for. -/
def hexadecimal (f : FloatingFormat) (mantissa : Nat) (exponent : Int) (places : Option Nat)
    (always : Bool) : Octets :=
  let width := (f.bits - 1) / 4
  let first := f.bits - 1 - 4 * width
  let shift := f.bits - 1 - (if mantissa = 0 then f.bits - 1 else mantissa.log2)
  let subnormal := exponent = f.least ∧ 0 < shift ∧ first = 0
  let (m, e) := if mantissa = 0 then (0, 0)
    else if subnormal then (mantissa, exponent + 4 * width)
    else (mantissa * Nat.pow 2 shift, exponent - shift + 4 * width)
  let n := match places with
    | some p => if p < width then roundedQuotient m (Nat.pow 16 (width - p)) else m
    | none => m
  let shown := min width (places.getD width)
  let (n, e) := if Nat.pow 16 (shown + 1) ≤ n then (n / 16, e + 4) else (n, e)
  let ds := Nat.toDigits 16 n
  let ds := List.replicate (shown + 1 - ds.length) '0' ++ ds
  let whole := ds.take (ds.length - shown)
  let fraction := ds.drop (ds.length - shown)
  let fraction := match places with
    | some p => fraction ++ List.replicate (p - shown) '0'
    | none => (fraction.reverse.dropWhile (· = '0')).reverse
  let body := if fraction.isEmpty ∧ !always then whole else whole ++ '.' :: fraction
  body ++ 'p' :: (if e < 0 then '-' else '+') :: Nat.toDigits 10 e.natAbs

/-- The magnitude under a conversion, in lower case; without a precision it has the usual one. -/
def magnitude (f : FloatingFormat) (conversion : Char) (precision : Option Nat) (full : Bool)
    (mantissa : Nat) (exponent : Int) : Octets :=
  match conversion with
  | 'f' => positional mantissa exponent (precision.getD 6) full
  | 'e' => scientific mantissa exponent (precision.getD 6) full
  | 'g' => general mantissa exponent (precision.getD 6) full
  | _ => hexadecimal f mantissa exponent precision full

def negative : Floating → Bool
  | .finite n _ _ | .infinite n | .nan n => n

end Floating

end CoinRelay.Host
