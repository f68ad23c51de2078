import CoinRelay.Word

/-!
# Numbers

A number is an exact integer of 64 bits, with or without sign, or a double. `Double.integer?`
reads the integer a double is equal to straight off its bits, so no rounding is involved.
`Double.ofDecimal?` reads a decimal literal with two roundings, one of its digits and one of the
scaled number; it is exact up to fifteen digits and small exponents, and beyond that it may miss the
nearest double by a little. All rounding is on naturals.
-/

namespace CoinRelay.Json

/-- An integer that fits 64 bits, as a signed or as an unsigned number. -/
structure WholeNumber where
  val : Int
  lower : -Word.signedBound ≤ val
  upper : val < Word.unsignedBound
deriving DecidableEq

namespace WholeNumber

def ofInt? (n : Int) : Option WholeNumber :=
  if h : -Word.signedBound ≤ n ∧ n < Word.unsignedBound then some ⟨n, h.1, h.2⟩ else none

def ofUInt64 (n : UInt64) : WholeNumber where
  val := n.toNat
  lower := by simp only [Word.signedBound]; omega
  upper := Word.toNat_lt_unsignedBound n

theorem ofInt?_val (n : WholeNumber) : ofInt? n.val = some n := by
  simp [ofInt?, n.lower, n.upper]

end WholeNumber

/-- The whole number `base ^ exponent`, or one if the exponent is negative. -/
def power (base : Nat) (exponent : Int) : Nat := Nat.pow base exponent.toNat

theorem power_pos {base : Nat} (h : 0 < base) (e : Int) : 0 < power base e := Nat.pow_pos h

/-- A finite number of the binary format of 64 bits, by its bits. -/
structure Double where
  bits : UInt64
deriving DecidableEq

namespace Double

def negative (d : Double) : Bool := power 2 63 ≤ d.bits.toNat

/-- The place of the magnitude among all magnitudes in ascending order, which is what the bits
without the sign say. -/
def place (d : Double) : Nat := d.bits.toNat % power 2 63

def ofPlace (negative : Bool) (n : Nat) : Double :=
  ⟨UInt64.ofNat (if negative then n + power 2 63 else n)⟩

/-- The whole number `m` in the magnitude `m * 2 ^ q` at a place. -/
def mantissaAt (n : Nat) : Nat :=
  if n < power 2 52 then n else power 2 52 + n % power 2 52

/-- The exponent `q` in the magnitude `m * 2 ^ q` at a place. -/
def exponentAt (n : Nat) : Int :=
  if n < power 2 52 then -1074 else ((n / power 2 52 : Nat) : Int) - 1075

def mantissa (d : Double) : Nat := mantissaAt d.place

def exponent (d : Double) : Int := exponentAt d.place

/-- The gap to the next smaller magnitude is half the gap to the next larger one. -/
def narrowBelow (d : Double) : Bool := d.place % power 2 52 == 0 && power 2 53 ≤ d.place

def wholeMagnitude? (d : Double) : Option Nat :=
  if 0 ≤ d.exponent then some (d.mantissa * power 2 d.exponent)
  else if d.mantissa % power 2 (-d.exponent) = 0 then
    some (d.mantissa / power 2 (-d.exponent))
  else none

def integer? (d : Double) : Option Int :=
  d.wholeMagnitude?.map fun n => if d.negative then -(n : Int) else n

/-- The whole number nearest to `n / d`, and of two that are equally near the even one. -/
def roundEven (n d : Nat) : Nat :=
  if d < 2 * (n % d) ∨ (2 * (n % d) = d ∧ n / d % 2 = 1) then n / d + 1 else n / d

/-- The largest exponent of two with a power of at most `a / b`. -/
def logRatio (a b : Nat) : Int :=
  let estimate : Int := (a.log2 : Int) - b.log2
  if b * power 2 estimate ≤ a * power 2 (-estimate) then estimate else estimate - 1

/-- The place of the magnitude nearest to `a / b`, and of two that are equally near of the even one.
What is too large for a double has a place behind the last one. -/
def nearest (a b : Nat) : Nat :=
  if a = 0 then 0
  else
    let q := max (logRatio a b - 52) (-1074)
    (q + 1074).toNat * power 2 52 + roundEven (a * power 2 (-q)) (b * power 2 q)

/-- The first place that no finite double has. It stands for infinity, and those behind it for
nothing. -/
def placeLimit : Nat := 0x7FF * power 2 52

/-- The bits stand for no number, not even for an infinite one. -/
def isNaN (d : Double) : Bool := placeLimit < d.place

def product (x y : Double) : Nat :=
  let q := x.exponent + y.exponent
  nearest (x.mantissa * y.mantissa * power 2 q) (power 2 (-q))

def quotient (x y : Double) : Nat :=
  let q := x.exponent - y.exponent
  nearest (x.mantissa * power 2 q) (y.mantissa * power 2 (-q))

def floorAt (n : Nat) : Nat := mantissaAt n * power 2 (exponentAt n) / power 2 (-exponentAt n)

def ofNat (n : Nat) : Double := ofPlace false (nearest n 1)

def ofInt (n : Int) : Double := ofPlace (n < 0) (nearest n.natAbs 1)

def powerOfTen (k : Nat) : Double := ofNat (Nat.pow 10 k)

/-- The place of a magnitude times a power of ten, unless that is too large. One factor reaches at
most `10 ^ 308`, and below that the number is divided in steps; it is zero after two of them. -/
def scale? : (steps : Nat) → Double → (exponent : Int) → Option Nat
  | 0, x, _ => some x.place
  | steps + 1, x, exponent =>
    if exponent.natAbs ≤ 308 then
      let factor := powerOfTen exponent.natAbs
      let n := if exponent < 0 then quotient x factor else product x factor
      if n < placeLimit then some n else none
    else if x.mantissa = 0 then some x.place
    else if 0 ≤ exponent then none
    else scale? steps (ofPlace false (quotient x (powerOfTen 308))) (exponent + 308)

/-- The place of the magnitude that a decimal literal stands for: its leading digits as a word,
rounded, and then scaled, which rounds once more. -/
def ofDecimal? (significand : Nat) (exponent : Int) : Option Nat :=
  scale? 4 (ofNat significand) exponent

end Double

/-- A number: exact where it is a whole number of 64 bits, a double otherwise. -/
inductive Number where
  | whole (n : WholeNumber)
  | double (d : Double)
deriving DecidableEq

namespace Number

def toUInt64? : Number → Option UInt64
  | .whole n => if 0 ≤ n.val then some (UInt64.ofNat n.val.toNat) else none
  | .double _ => none

/-- The number as a double, rounded where it is a large whole number. -/
def toDouble : Number → Double
  | .whole n => .ofInt n.val
  | .double d => d

theorem toUInt64?_ofUInt64 (n : UInt64) :
    (Number.whole (.ofUInt64 n)).toUInt64? = some n := by
  simp [toUInt64?, WholeNumber.ofUInt64]

end Number

end CoinRelay.Json
