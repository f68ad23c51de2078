import CoinRelay.Json.Printer
import CoinRelay.Json.Reader
import CoinRelay.Text.Blank
import CoinRelay.Text.Numeral
import CoinRelay.Text.Utf8
import CoinRelay.Word

/-!
# Requests and their fields

A request is a JSON object. Its fields are read leniently: text may be written as a number or a
truth value, an integer as a numeral or as a double without a fraction.
-/

namespace CoinRelay

/-- The request that a text holds: one JSON object between blanks. -/
def parseRequest? (raw : String) : Option Fields :=
  (Json.read? (Text.trimChars raw.toList)).bind Json.object?

def parseRequestBytes? (raw : List UInt8) : Option Fields :=
  (Text.Utf8.strict? raw).bind parseRequest?

/-- The integer that a value stands for: a number equal to one, or its numeral between blanks. A
double counts strictly between the bounds of signed words. -/
def Json.toInteger? : Json → Option Int
  | .num (.whole n) => if n.val < Word.signedBound then some n.val else none
  | .num (.double d) =>
    d.integer?.filter fun n => decide (-Word.signedBound < n ∧ n < Word.signedBound)
  | .str s => Text.readInt64? (Text.trim s)
  | _ => none

namespace Fields

/-- A string is trimmed, a number or truth value gives its literal, and the rest is empty. -/
def text (fields : Fields) (key : String) : String :=
  match fields.get? key with
  | some (.str s) => Text.trim s
  | some (.num n) => (Json.num n).text
  | some (.bool b) => (Json.bool b).text
  | _ => ""

def objectAt? (fields : Fields) (key : String) : Option Fields :=
  (fields.get? key).bind Json.object?

/-- The array under a key, if it has an item. -/
def listAt? (fields : Fields) (key : String) : Option (List Json) :=
  ((fields.get? key).bind Json.array?).filter fun items => !items.isEmpty

/-- The value under a key, with `null` counting as absent. -/
def present? (fields : Fields) (key : String) : Option Json :=
  (fields.get? key).filter fun v => !v.isNull

end Fields

end CoinRelay
