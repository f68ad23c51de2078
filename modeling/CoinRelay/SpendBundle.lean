/-!
# Spend bundles

A spend bundle travels as hexadecimal text, two digits for each byte, behind an optional `0x`.
-/

namespace CoinRelay.SpendBundle

def isHexDigit (c : Char) : Bool :=
  ('0' ≤ c && c ≤ '9') || ('a' ≤ c && c ≤ 'f') || ('A' ≤ c && c ≤ 'F')

/-- The characters behind one hexadecimal mark, if there is a mark. -/
def withoutMark : List Char → List Char
  | '0' :: 'x' :: rest => rest
  | '0' :: 'X' :: rest => rest
  | cs => cs

/-- Hexadecimal text of at least one whole byte. -/
def isHex (text : String) : Bool :=
  let digits := withoutMark text.toList
  !digits.isEmpty && digits.length % 2 == 0 && digits.all isHexDigit

end CoinRelay.SpendBundle
