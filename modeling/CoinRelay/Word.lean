/-!
# Words of 64 bits

The bounds of signed and unsigned words, as integers, for everything that has to fit one. They are
numerals, so that linear arithmetic needs no power to compare with them.
-/

namespace CoinRelay.Word

/-- Two to the power 64: unsigned words lie from zero up to, but without, it. -/
def unsignedBound : Int := 18446744073709551616

/-- Two to the power 63: signed words lie from its negative up to, but without, it. -/
def signedBound : Int := 9223372036854775808

def isSigned (n : Int) : Bool := -signedBound ≤ n && n < signedBound

def ofNat? (n : Nat) : Option UInt64 :=
  if (n : Int) < unsignedBound then some (UInt64.ofNat n) else none

theorem toNat_lt_unsignedBound (n : UInt64) : (n.toNat : Int) < unsignedBound := by
  have := n.toNat_lt
  simp only [unsignedBound]; omega

theorem ofNat?_toNat (n : UInt64) : ofNat? n.toNat = some n := by
  simp [ofNat?, toNat_lt_unsignedBound]

theorem toNat_of_ofNat? {n : Nat} {w : UInt64} (h : ofNat? n = some w) : w.toNat = n := by
  by_cases hn : (n : Int) < unsignedBound
  · obtain rfl : UInt64.ofNat n = w := by simpa [ofNat?, hn] using h
    simp only [unsignedBound] at hn
    exact UInt64.toNat_ofNat_of_lt' (by simp only [UInt64.size]; omega)
  · simp [ofNat?, hn] at h

end CoinRelay.Word
