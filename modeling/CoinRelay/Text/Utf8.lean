/-!
# Reading bytes as text

`Utf8.decode` splits bytes into characters and faults: a fault is one longest run of bytes that
begins a character without completing it, or one byte that begins none. Strict reading refuses a
fault, lenient reading puts U+FFFD in its place.
-/

namespace CoinRelay.Text.Utf8

/-- A byte that continues a character. -/
def continues (b : UInt8) : Bool := 0x80 ≤ b && b ≤ 0xBF

def low (b : UInt8) : Nat := (b &&& 0x3F).toNat

/-- Whether `c` may follow the lead byte `b` of a three-byte character: no surrogates, and nothing
that two bytes could hold. -/
def second3 (b c : UInt8) : Bool :=
  if b == 0xE0 then 0xA0 ≤ c && c ≤ 0xBF else if b == 0xED then 0x80 ≤ c && c ≤ 0x9F else continues c

/-- Whether `c` may follow the lead byte `b` of a four-byte character: nothing beyond U+10FFFF, and
nothing that three bytes could hold. -/
def second4 (b c : UInt8) : Bool :=
  if b == 0xF0 then 0x90 ≤ c && c ≤ 0xBF else if b == 0xF4 then 0x80 ≤ c && c ≤ 0x8F else continues c

/-- What the bytes `b :: t` begin with: a character or a fault, and how many bytes of `t` belong to
it. -/
def step (b : UInt8) (t : List UInt8) : Option Char × Nat :=
  if b < 0x80 then (some (Char.ofNat b.toNat), 0)
  else if 0xC2 ≤ b && b ≤ 0xDF then
    match t with
    | c :: _ =>
      if continues c then (some (Char.ofNat ((b.toNat - 0xC0) * 64 + low c)), 1) else (none, 0)
    | [] => (none, 0)
  else if 0xE0 ≤ b && b ≤ 0xEF then
    match t with
    | c :: d :: _ =>
      if second3 b c then
        if continues d then
          (some (Char.ofNat ((b.toNat - 0xE0) * 4096 + low c * 64 + low d)), 2)
        else (none, 1)
      else (none, 0)
    | [c] => (none, if second3 b c then 1 else 0)
    | [] => (none, 0)
  else if 0xF0 ≤ b && b ≤ 0xF4 then
    match t with
    | c :: d :: e :: _ =>
      if second4 b c then
        if continues d then
          if continues e then
            (some (Char.ofNat
              ((b.toNat - 0xF0) * 262144 + low c * 4096 + low d * 64 + low e)), 3)
          else (none, 2)
        else (none, 1)
      else (none, 0)
    | [c, d] => (none, if second4 b c then (if continues d then 2 else 1) else 0)
    | [c] => (none, if second4 b c then 1 else 0)
    | [] => (none, 0)
  else (none, 0)

/-- Passes over `skip` bytes and decodes the others. -/
def decodeFrom : (skip : Nat) → List UInt8 → List (Option Char)
  | _, [] => []
  | skip + 1, _ :: t => decodeFrom skip t
  | 0, b :: t => (step b t).1 :: decodeFrom (step b t).2 t

/-- The characters of the bytes in order, with `none` for each fault. -/
def decode (bytes : List UInt8) : List (Option Char) := decodeFrom 0 bytes

def strict? (bytes : List UInt8) : Option String :=
  ((decode bytes).mapM id).map String.ofList

/-- The text of any bytes, with U+FFFD in the place of each fault. -/
def lenient (bytes : List UInt8) : String :=
  String.ofList ((decode bytes).map (·.getD '\uFFFD'))

def encode (s : String) : List UInt8 := s.toUTF8.data.toList

end CoinRelay.Text.Utf8
