import CoinRelay.Plan
import CoinRelay.Selection

/-!
# Outputs

The coins that an operation creates. A plan makes its outputs and, where the selection overshoots
the target, one more for the change; on the way to submission they are the *additions* of a
request, which must not exceed the selection.
-/

namespace CoinRelay

structure Output where
  address : String
  amount : Amount
deriving DecidableEq, Repr

namespace Output

def toJson (output : Output) : Json :=
  .obj [("address", .str output.address), ("amount", .ofUInt64 output.amount)]

/-- Reads one addition: an address and a positive amount. -/
def ofAddition (addition : Json) : Except Rejection Output :=
  match addition.object? with
  | none => .error .invalidAdditions
  | some fields =>
    let address := fields.text "address"
    match (fields.get? "amount").bind Json.toInteger? with
    | none => .error .invalidAdditions
    | some amount =>
      if 0 < amount ∧ address ≠ "" then .ok ⟨address, UInt64.ofNat amount.toNat⟩
      else .error .invalidAdditions

/-- The sum of the amounts, if it is an amount. -/
def total? (outputs : List Output) : Option Amount :=
  outputs.foldlM (fun sum o => sum.add? o.amount) 0

def exactTotal (outputs : List Output) : Nat := (outputs.map (·.amount.toNat)).foldr (· + ·) 0

end Output

/-- Reads the additions of a request, at least one. -/
def parseAdditions (request : Fields) : Except Rejection (List Output) :=
  match request.listAt? "additions" with
  | none => .error .missingAdditions
  | some additions => additions.mapM Output.ofAddition

structure Outputs where
  principal : List Output
  change : Option Output

namespace Outputs

/-- The outputs of a plan on a resolved selection, all to one address. There is change exactly when
the selection is worth more than the target. -/
def ofPlan (plan : Plan) (resolved : Selection.Resolved) (address : String) : Outputs where
  principal := List.replicate plan.count.toNat ⟨address, plan.size⟩
  change := if resolved.change = 0 then none else some ⟨address, resolved.change⟩

/-- The change comes last. -/
def toList (outputs : Outputs) : List Output := outputs.principal ++ outputs.change.toList

/-- The sum of the amounts as a word. -/
def total (outputs : Outputs) : Amount := outputs.toList.foldl (fun sum o => sum + o.amount) 0

end Outputs

/-- What is left of a selection worth `selected` when the outputs are taken off; they must not come
to more, nor to more than an amount can be. -/
def remainder (selected : Amount) (outputs : List Output) : Except Rejection Amount :=
  match (Output.total? outputs).bind selected.sub? with
  | some left => .ok left
  | none => .error .additionsExceedTotal

end CoinRelay
