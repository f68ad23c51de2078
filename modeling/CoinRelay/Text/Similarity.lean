/-!
# Similarity of words

How alike two words look, from zero to one: how many of their characters match at nearly the same
place, less those that are out of order, and more where the words begin alike.
-/

namespace CoinRelay.Text.Similarity

structure Matching where
  /-- The places of the second word that are taken. -/
  taken : List Nat := []
  /-- How many matches lie before the match made last. -/
  swapped : Nat := 0
  last : Nat := 0

/-- Matches `x` with the first free character of `b` that is no farther away than `reach`. -/
def Matching.add (b : List Char) (reach : Nat) (m : Matching) (x : Char) (i : Nat) : Matching :=
  let free (j : Nat) : Bool := i ≤ j + reach && j ≤ i + reach && b[j]? = some x && j ∉ m.taken
  match (List.range b.length).find? free with
  | none => m
  | some j => ⟨j :: m.taken, m.swapped + (if j < m.last then 1 else 0), j⟩

/-- How alike two words are, whatever they begin with. -/
def base (a b : List Char) : Rat :=
  if a.length ≤ 1 ∧ b.length ≤ 1 then (if a = b then 1 else 0)
  else
    let reach := max a.length b.length / 2 - 1
    let m : Matching := a.zipIdx.foldl (fun m e => Matching.add b reach m e.1 e.2) {}
    let n : Nat := m.taken.length
    let ordered : Nat := n - m.swapped
    if n = 0 then 0
    else ((n : Rat) / (a.length : Rat) + (n : Rat) / (b.length : Rat) + (ordered : Rat) / (n : Rat)) / 3

def commonStart : List Char → List Char → Nat
  | x :: a, y :: b => if x = y then commonStart a b + 1 else 0
  | _, _ => 0

def degree (a b : List Char) : Rat :=
  let d := base a b
  let raised := d + (commonStart a b : Rat) / 10 * (1 - d)
  if raised ≤ 1 then raised else 1

/-- The word that is most like the given one, if any is so by more than the bound. -/
def closest? (bound : Rat) (word : String) (words : List String) : Option String :=
  let close := (words.map fun w => (degree word.toList w.toList, w)).filter (bound < ·.1)
  (close.foldl (fun best c => match best with
    | none => some c
    | some b => if b.1 ≤ c.1 then some c else some b) none).map (·.2)

end CoinRelay.Text.Similarity
