import CoinRelay.Json.Basic
import CoinRelay.Json.Decimal

/-!
# Writing JSON

The text of a value, without any blanks: members in the order in which the object lists them,
strings with the shortest escapes, whole numbers in decimal, doubles by their shortest decimal.
No text written here contains a line break.
-/

namespace CoinRelay.Json

def hexDigit (n : Nat) : Char :=
  if n < 10 then Char.ofNat (48 + n) else Char.ofNat (87 + n)

/-- A character inside a string: quote, backslash and the characters below U+0020 are escaped. -/
def escape (c : Char) : List Char :=
  if c = '"' then ['\\', '"']
  else if c = '\\' then ['\\', '\\']
  else if c = '\n' then ['\\', 'n']
  else if c = '\r' then ['\\', 'r']
  else if c = '\t' then ['\\', 't']
  else if c = Char.ofNat 8 then ['\\', 'b']
  else if c = Char.ofNat 12 then ['\\', 'f']
  else if c.toNat < 32 then ['\\', 'u', '0', '0', hexDigit (c.toNat / 16), hexDigit (c.toNat % 16)]
  else [c]

def quote (s : String) : List Char := '"' :: (s.toList.flatMap escape ++ ['"'])

def renderInt (n : Int) : List Char :=
  if n < 0 then '-' :: Nat.toDigits 10 n.natAbs else Nat.toDigits 10 n.natAbs

def Number.render : Number → List Char
  | .whole n => renderInt n.val
  | .double d => d.text

mutual

def render : Json → List Char
  | .null => ['n', 'u', 'l', 'l']
  | .bool true => ['t', 'r', 'u', 'e']
  | .bool false => ['f', 'a', 'l', 's', 'e']
  | .num n => n.render
  | .str s => quote s
  | .arr items => '[' :: renderItems items
  | .obj members => '{' :: renderMembers members

/-- The items with commas between them and the closing bracket. -/
def renderItems : List Json → List Char
  | [] => [']']
  | [v] => v.render ++ [']']
  | v :: rest => v.render ++ ',' :: renderItems rest

/-- The members with commas between them and the closing brace. -/
def renderMembers : List (String × Json) → List Char
  | [] => ['}']
  | [(k, v)] => quote k ++ ':' :: (v.render ++ ['}'])
  | (k, v) :: rest => quote k ++ ':' :: (v.render ++ ',' :: renderMembers rest)

end

def text (v : Json) : String := String.ofList v.render

/-- A value as plain text: a string stands for itself, anything else for its JSON text. -/
def scalarText : Json → String
  | .str s => s
  | v => v.text

end CoinRelay.Json
