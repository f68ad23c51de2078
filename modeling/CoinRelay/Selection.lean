import CoinRelay.Amount
import CoinRelay.Rejection
import CoinRelay.Request

/-!
# Coin selections

The coins that an operation spends. Coins whose amount cannot be read count as nothing, and the
total stops at the largest amount; `exactTotal` is the sum it stands for.
-/

namespace CoinRelay

/-- The amount of a coin: a whole number or its numeral over the whole range of amounts, or a double
without a fraction within signed words. -/
def coinAmount? (coin : Json) : Option Amount := do
  let fields ← coin.object?
  match ← fields.get? "amount" with
  | .num (.whole n) => if 0 ≤ n.val then some (UInt64.ofNat n.val.toNat) else none
  | .str s =>
    match Text.readUInt64? (Text.trim s) with
    | some n => some n
    | none => asNatural (.str s)
  | v => asNatural v
where
  asNatural (v : Json) : Option Amount :=
    (v.toInteger?.filter (0 ≤ ·)).map fun n => UInt64.ofNat n.toNat

/-! ## Lists of coins -/

/-- What coins are worth beside what is needed of them. -/
structure Selection.Resolved where
  selected : Amount
  target : Amount
  target_le_selected : target ≤ selected

/-- What is left of the coins when the target is taken off. -/
def Selection.Resolved.change (resolved : Selection.Resolved) : Amount :=
  resolved.selected - resolved.target

namespace Coins

/-- The amounts that can be read. -/
def amounts (coins : List Json) : List Amount := coins.filterMap coinAmount?

def exactTotal (coins : List Json) : Nat := ((amounts coins).map UInt64.toNat).foldr (· + ·) 0

def total (coins : List Json) : Amount := (amounts coins).foldl Amount.add 0

/-- Sets coins against a target. -/
def resolve (coins : List Json) (target : Amount) : Except Rejection Selection.Resolved :=
  if h : target ≤ total coins then .ok ⟨total coins, target, h⟩
  else .error .insufficientCoinTotal

end Coins

/-! ## Selections -/

/-- At least one coin. -/
structure Selection where
  coins : List Json
  nonempty : coins ≠ []

namespace Selection

/-- The selection that a value holds: an array with an item. -/
def ofJson? : Option Json → Option Selection
  | some (.arr coins) => if h : coins ≠ [] then some ⟨coins, h⟩ else none
  | _ => none

def toJson (selection : Selection) : Json := .arr selection.coins

def exactTotal (selection : Selection) : Nat := Coins.exactTotal selection.coins

def total (selection : Selection) : Amount := Coins.total selection.coins

def resolve (selection : Selection) (target : Amount) : Except Rejection Resolved :=
  Coins.resolve selection.coins target

end Selection

end CoinRelay
