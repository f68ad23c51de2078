/-!
# Amounts

Amounts of coins and counts of operations are unsigned words of 64 bits. Sums and products that
would not fit stop at the largest word; `clamp` is that rule, and `toNat_clamp` is all that a proof
about them needs. Where an amount that does not fit is refused instead, `add?` and `sub?` check it.
-/

namespace CoinRelay

/-- An amount in base units, or a count. -/
abbrev Amount := UInt64

namespace Amount

def top : Nat := 18446744073709551615

/-- The amount nearest to `n` from below: `n` itself unless it exceeds the largest amount. -/
def clamp (n : Nat) : Amount := UInt64.ofNat (min n top)

def add (a b : Amount) : Amount := clamp (a.toNat + b.toNat)

def mul (a b : Amount) : Amount := clamp (a.toNat * b.toNat)

def sub (a b : Amount) : Amount := clamp (a.toNat - b.toNat)

def add? (a b : Amount) : Option Amount := if a.toNat + b.toNat ≤ top then some (a + b) else none

def sub? (a b : Amount) : Option Amount := if b ≤ a then some (a - b) else none

theorem toNat_le_top (a : Amount) : a.toNat ≤ top := by
  have := a.toNat_lt
  simp only [top]; omega

theorem toNat_clamp (n : Nat) : (clamp n).toNat = min n top := by
  exact UInt64.toNat_ofNat_of_lt' (by simp only [top, UInt64.size]; omega)

theorem toNat_add (a b : Amount) : (add a b).toNat = min (a.toNat + b.toNat) top :=
  toNat_clamp _

theorem toNat_mul (a b : Amount) : (mul a b).toNat = min (a.toNat * b.toNat) top :=
  toNat_clamp _

theorem toNat_sub (a b : Amount) : (sub a b).toNat = a.toNat - b.toNat := by
  have h : (sub a b).toNat = min (a.toNat - b.toNat) top := toNat_clamp _
  have := toNat_le_top a
  omega

theorem exists_add? {a b : Amount} (h : a.toNat + b.toNat ≤ top) :
    ∃ c, add? a b = some c ∧ c.toNat = a.toNat + b.toNat := by
  refine ⟨a + b, if_pos h, ?_⟩
  rw [UInt64.toNat_add]
  exact Nat.mod_eq_of_lt (by simp only [top] at h; omega)

end Amount

end CoinRelay
