/-!
# Durations

A time span in nanoseconds. Its text uses the largest of the units second, milli-, micro- and
nanosecond that it reaches, and a fraction without trailing zeros.
-/

namespace CoinRelay

structure Duration where
  nanos : Nat
deriving DecidableEq, Repr

namespace Duration

def ofSecs (n : Nat) : Duration := ⟨n * 1000000000⟩

def ofMillis (n : Nat) : Duration := ⟨n * 1000000⟩

def add (a b : Duration) : Duration := ⟨a.nanos + b.nanos⟩

/-- The digits of a fraction of the given width, without trailing zeros. -/
def fractionDigits (value width : Nat) : List Char :=
  let ds := Nat.toDigits 10 value
  ((List.replicate (width - ds.length) '0' ++ ds).reverse.dropWhile (· = '0')).reverse

/-- A quotient in decimal, where the divisor is ten to the power `width`. -/
def decimal (value width : Nat) : String :=
  let whole := toString (value / Nat.pow 10 width)
  match fractionDigits (value % Nat.pow 10 width) width with
  | [] => whole
  | ds => whole ++ "." ++ String.ofList ds

def text (d : Duration) : String :=
  if 1000000000 ≤ d.nanos then decimal d.nanos 9 ++ "s"
  else if 1000000 ≤ d.nanos then decimal d.nanos 6 ++ "ms"
  else if 1000 ≤ d.nanos then decimal d.nanos 3 ++ "µs"
  else decimal d.nanos 0 ++ "ns"

end Duration

end CoinRelay
