import CoinRelay.Text.Utf8

/-!
# Octets

What flows between processes are bytes. Here a byte is written as the character with its number, so
that the text of a script can be taken apart by its characters, whatever else it holds.
-/

namespace CoinRelay.Host

/-- Bytes, each as the character of the same number. -/
abbrev Octets := List Char

namespace Octets

def ofBytes (bytes : List UInt8) : Octets := bytes.map fun b => Char.ofNat b.toNat

def toBytes (cs : Octets) : List UInt8 := cs.map fun c => UInt8.ofNat c.toNat

def ofText (s : String) : Octets := ofBytes (Text.Utf8.encode s)

/-- The text of bytes, read leniently. -/
def text (cs : Octets) : String := Text.Utf8.lenient (toBytes cs)

def ofNat (n : Nat) : Octets := Nat.toDigits 10 n

def toNat? (cs : Octets) : Option Nat :=
  if cs.isEmpty || !cs.all Char.isDigit then none else some (Nat.ofDigitChars 10 cs 0)

def splitOn (c : Char) : Octets → List Octets
  | [] => [[]]
  | x :: rest =>
    match splitOn c rest with
    | [] => [[]]
    | piece :: pieces => if x = c then [] :: piece :: pieces else (x :: piece) :: pieces

end Octets

end CoinRelay.Host
