import CoinRelay.Host.Octets

/-!
# Quoted texts in messages

How a message shows a text that may hold anything. `Quote.always` puts it between single quotes and
escapes what is not written; `Quote.shell` leaves a harmless text alone and writes any other the way
a shell would have to read it.
-/

namespace CoinRelay.Host.Quote

def isWritten (c : Char) : Bool := ' ' ≤ c && c ≤ '~'

def letter? (c : Char) : Option Char :=
  [('\x07', 'a'), ('\x08', 'b'), ('\x0C', 'f'), ('\n', 'n'), ('\r', 'r'), ('\t', 't'),
    ('\x0B', 'v')].lookup c

def octal (c : Char) : Octets :=
  let digit (n : Nat) : Char := Char.ofNat (48 + n % 8)
  [digit (c.toNat / 64), digit (c.toNat / 8), digit c.toNat]

def escape (c : Char) : Octets :=
  match letter? c with
  | some l => [l]
  | none => octal c

/-- A text between single quotes; quotes and backslashes in it are escaped. -/
def always (cs : Octets) : Octets :=
  let inner := cs.flatMap fun c =>
    if c = '\'' ∨ c = '\\' then ['\\', c]
    else if isWritten c then [c]
    else '\\' :: escape c
  ['\''] ++ inner ++ ['\'']

/-- A character that means nothing to a shell. -/
def isHarmless (c : Char) : Bool :=
  c.isAlphanum || c ∈ ['%', '+', ',', '-', '.', '/', ':', ']', '_', '@']

def isPlain (cs : Octets) : Bool :=
  match cs with
  | [] => false
  | ['\x7b'] | ['\x7d'] => false
  | c :: rest =>
    let inner (x : Char) : Bool := isHarmless x || x ∈ ['#', '~', '\x7b', '\x7d']
    (isHarmless c || c = '\x7b' || c = '\x7d') && rest.all inner

/-- The inside of a quotation and its closing quote: what is not written stands in a quotation of
its own kind. `escaped` tells that such a quotation is open. -/
def pieces : (escaped : Bool) → Octets → Octets
  | _, [] => ['\'']
  | escaped, c :: rest =>
    if c = '\'' then ['\'', '\\', '\'', '\''] ++ pieces false rest
    else if isWritten c then (if escaped then ['\'', '\''] else []) ++ c :: pieces false rest
    else (if escaped then [] else ['\'', '$', '\'']) ++ '\\' :: escape c ++ pieces true rest

/-- A text that may stand between double quotes as it is. -/
def fitsDouble (cs : Octets) : Bool :=
  let body := if cs.head? = some '#' ∨ cs.head? = some '~' then cs.drop 1 else cs
  body.all fun c => isHarmless c || c = '\'' || c = ' '

/-- A text the way a shell would have to read it. -/
def shell (cs : Octets) : Octets :=
  if isPlain cs then cs
  else if '\'' ∈ cs ∧ fitsDouble cs then ['"'] ++ cs ++ ['"']
  else '\'' :: pieces false cs

/-- The name of a file before a colon: a colon in it is marked, too. -/
def name (cs : Octets) : Octets :=
  if ':' ∈ cs ∧ isPlain cs then ['\''] ++ cs ++ ['\''] else shell cs

end CoinRelay.Host.Quote
