import CoinRelay.Word

/-!
# Decimal numerals

Whole numbers written as text: ASCII digits behind at most one sign, without blanks, grouping or
fraction. A numeral that does not fit its range is no numeral.
-/

namespace CoinRelay.Text

/-- Reads one or more ASCII digits. -/
def readDigits? (cs : List Char) : Option Nat :=
  if cs.isEmpty || !cs.all Char.isDigit then none else some (Nat.ofDigitChars 10 cs 0)

/-- Reads digits behind an optional plus sign. -/
def readUnsigned? : List Char → Option Nat
  | '+' :: cs => readDigits? cs
  | cs => readDigits? cs

def readSigned? : List Char → Option Int
  | '-' :: cs => (readDigits? cs).map fun n => -(n : Int)
  | cs => (readUnsigned? cs).map fun n => (n : Int)

def readUInt64? (s : String) : Option UInt64 :=
  (readUnsigned? s.toList).bind Word.ofNat?

def readInt64? (s : String) : Option Int :=
  (readSigned? s.toList).filter Word.isSigned

end CoinRelay.Text
