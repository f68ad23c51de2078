import CoinRelay.Json.Number

/-!
# The shortest decimal of a double

Of all decimals that round to a given double, the one with the fewest digits, and among those the
nearest. The double is `m * 2 ^ q`; a decimal reads back as it when it lies between the halfway
points to the two neighbours, ends included when `m` is even. Everything is compared exactly, by
cross multiplication of naturals.
-/

namespace CoinRelay.Json

/-- The value `digits * 10 ^ exponent`. -/
structure Decimal where
  digits : Nat
  exponent : Int
deriving DecidableEq

namespace Decimal

/-- Compares `a * 10 ^ i` with `b * 2 ^ j`. -/
def compareScaled (a : Nat) (i : Int) (b : Nat) (j : Int) : Ordering :=
  compare (a * power 10 i * power 2 (-j)) (b * power 2 j * power 10 (-i))

/-- The decimal lies among the reals that round to the magnitude of `x`. -/
def readsBack (x : Double) (d : Decimal) : Bool :=
  let low := if x.narrowBelow then 4 * x.mantissa - 1 else 4 * x.mantissa - 2
  let closed := x.mantissa % 2 == 0
  let below := compareScaled d.digits d.exponent low (x.exponent - 2)
  let above := compareScaled d.digits d.exponent (4 * x.mantissa + 2) (x.exponent - 2)
  (below == .gt || (closed && below == .eq)) && (above == .lt || (closed && above == .eq))

/-- The largest multiple of `10 ^ g` that is at most the magnitude of `x`, counted in `10 ^ g`. -/
def floorOn (x : Double) (g : Int) : Nat :=
  (x.mantissa * power 2 x.exponent * power 10 (-g)) / (power 2 (-x.exponent) * power 10 g)

/-- Whether the magnitude of `x` is nearer to `n + 1` than to `n`, both counted in `10 ^ g`. On an
exact tie the even one is taken. -/
def upperIsNearer (x : Double) (n : Nat) (g : Int) : Bool :=
  match compareScaled (2 * n + 1) g (2 * x.mantissa) x.exponent with
  | .lt => true
  | .gt => false
  | .eq => n % 2 == 1

/-- The multiple of `10 ^ g` nearest to `x` that reads back as it, if a multiple does. -/
def onGrid? (x : Double) (g : Int) : Option Decimal :=
  let n := floorOn x g
  let lower : Decimal := ⟨n, g⟩
  let upper : Decimal := ⟨n + 1, g⟩
  match readsBack x lower, readsBack x upper with
  | true, true => some (if upperIsNearer x n g then upper else lower)
  | true, false => some lower
  | false, true => some upper
  | false, false => none

/-- The least `k` with `x < 10 ^ k`: an estimate from the binary logarithm, corrected upwards. -/
def scale (x : Double) : Int :=
  let estimate := (x.exponent + x.mantissa.log2) * 30103 / 100000 - 1
  let step := (List.range 5).find? fun (i : Nat) =>
    compareScaled 1 (estimate + i) x.mantissa x.exponent == .gt
  estimate + (step.getD 4 : Nat)

def stripZeros : (fuel : Nat) → Decimal → Decimal
  | 0, d => d
  | fuel + 1, d =>
    if d.digits ≠ 0 ∧ d.digits % 10 = 0 then stripZeros fuel ⟨d.digits / 10, d.exponent + 1⟩ else d

/-- The exact value of `x`, for the case that no grid has a hit. -/
def exact (x : Double) : Decimal :=
  if 0 ≤ x.exponent then ⟨x.mantissa * power 2 x.exponent, 0⟩
  else ⟨x.mantissa * power 5 (-x.exponent), x.exponent⟩

/-- The shortest decimal that reads back as the magnitude of `x`, without trailing zeros. -/
def shortest (x : Double) : Decimal :=
  let k := scale x
  let found := (List.range 17).findSome? fun (n : Nat) => onGrid? x (k - 1 - n)
  stripZeros 17 (found.getD (exact x))

/-! ## Layout -/

def pointAfterFirst : List Char → List Char
  | [] => []
  | [c] => [c]
  | c :: cs => c :: '.' :: cs

/-- The text of a positive decimal. With the leading digit at `10 ^ e`, the value is written
positionally for `-5 ≤ e ≤ 15`, always with a fraction; otherwise with a signed exponent. -/
def text (d : Decimal) : List Char :=
  let ds := Nat.toDigits 10 d.digits
  let e := (ds.length : Int) + d.exponent - 1
  if e < -5 ∨ 15 < e then
    let sign := if e < 0 then '-' else '+'
    pointAfterFirst ds ++ 'e' :: sign :: Nat.toDigits 10 e.natAbs
  else if e < 0 then '0' :: '.' :: List.replicate (e.natAbs - 1) '0' ++ ds
  else
    let places := e.toNat + 1
    if ds.length ≤ places then
      ds ++ List.replicate (places - ds.length) '0' ++ ['.', '0']
    else ds.take places ++ '.' :: ds.drop places

end Decimal

def Double.text (x : Double) : List Char :=
  let magnitude := if x.mantissa = 0 then ['0', '.', '0'] else (Decimal.shortest x).text
  if x.negative then '-' :: magnitude else magnitude

end CoinRelay.Json
