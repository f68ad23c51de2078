import CoinRelay.Host.Floating
import CoinRelay.Host.Quote
import CoinRelay.Word

/-!
# Formatted printing

A format is text with escapes and directives, written once or, as long as arguments are left, again
and again. A directive takes the next argument; where none is left it takes nothing. There are two
dialects, that of the shell and that of the program; they differ in the escapes and directives they
know and in what they complain of.
-/

namespace CoinRelay.Host.Format

inductive Dialect where
  | shell
  | program
deriving DecidableEq, Repr

inductive Complaint where
  | notNumeric (argument : Octets)
  | notComplete (argument : Octets)
  | outOfRange (argument : Octets)
  | badDirective (directive : Octets)
  | openDirective
  | badWidth (argument : Octets)
  | openEscape
  | badCharacter (name : Octets)
  /-- What follows a character that stands for its number. -/
  | ignored (rest : Octets)
  | excess (argument : Octets)
deriving DecidableEq, Repr

namespace Complaint

def isFatal : Complaint → Bool
  | .badDirective _ | .openDirective | .badWidth _ | .openEscape | .badCharacter _ => true
  | _ => false

def isWarning : Complaint → Bool
  | .ignored _ | .excess _ => true
  | _ => false

def text (dialect : Dialect) (c : Complaint) : Octets :=
  let shown (cs : Octets) : Octets := match dialect with
    | .shell => cs
    | .program => Quote.always cs
  match c, dialect with
  | .notNumeric a, .shell => a ++ ": expected numeric value".toList
  | .notNumeric a, .program => shown a ++ ": expected a numeric value".toList
  | .notComplete a, .shell => a ++ ": not completely converted".toList
  | .notComplete a, .program => shown a ++ ": value not completely converted".toList
  | .outOfRange a, _ => shown a ++ ": Numerical result out of range".toList
  | .badDirective d, .shell => d ++ ": invalid directive".toList
  | .badDirective d, .program => d ++ ": invalid conversion specification".toList
  | .openDirective, _ => "missing format character".toList
  | .badWidth a, _ => "invalid field width: ".toList ++ shown a
  | .openEscape, _ => "missing hexadecimal number in escape".toList
  | .badCharacter name, _ => "invalid universal character name ".toList ++ name
  | .ignored rest, _ =>
    "warning: ".toList ++ rest ++
      ": character(s) following character constant have been ignored".toList
  | .excess a, _ => "warning: ignoring excess arguments, starting with ".toList ++ shown a

end Complaint

/-! ## Escapes -/

def letters : List (Char × Char) :=
  [('a', '\x07'), ('b', '\x08'), ('e', '\x1B'), ('f', '\x0C'), ('n', '\n'), ('r', '\r'),
    ('t', '\t'), ('v', '\x0B'), ('\\', '\\')]

def isOctal (c : Char) : Bool := '0' ≤ c && c ≤ '7'

/-- The byte of octal digits, at most three of them, and how many there are. -/
def octal (cs : Octets) : Char × Nat :=
  let ds := (cs.take 3).takeWhile isOctal
  (Char.ofNat ((ds.foldl (fun n d => n * 8 + (d.toNat - 48)) 0) % 256), ds.length)

inductive Escape where
  | octets (cs : Octets)
  | stop
  | bad (complaint : Complaint)
deriving DecidableEq, Repr

def hexadecimal (ds : Octets) : Nat := ds.foldl (fun n d => n * 16 + (Json.hexValue? d).getD 0) 0

/-- A character by its number, which is printed by name where it is not of ASCII. -/
def universal (letter : Char) (width : Nat) (cs : Octets) : Escape × Nat :=
  let ds := cs.take width
  if ds.length < width ∨ ds.any fun d => (Json.hexValue? d).isNone then (.bad .openEscape, 0)
  else
    let n := hexadecimal ds
    let upper := ds.map Char.toUpper
    if 0xD800 ≤ n ∧ n ≤ 0xDFFF then (.bad (.badCharacter ('\\' :: letter :: ds)), 0)
    else if n < 128 then (.octets [Char.ofNat n], width + 1)
    else if n < 65536 then (.octets ('\\' :: 'u' :: upper.drop (width - 4)), width + 1)
    else (.octets ('\\' :: 'U' :: List.replicate (8 - width) '0' ++ upper), width + 1)

/-- What the text behind a backslash stands for, and how much of it. `wide` allows one more octal
digit behind a zero and the escape that ends everything. An unknown escape stands for itself. -/
def escape (d : Dialect) (wide : Bool) (cs : Octets) : Escape × Nat :=
  match cs with
  | [] => (.octets ['\\'], 0)
  | c :: rest =>
    if isOctal c then
      let (e, n) := if wide && c = '0' && rest.head?.any isOctal then
          let (e, n) := octal rest
          (e, n + 1)
        else octal cs
      (.octets [e], n)
    else if c = 'c' && (wide || d = .program) then (.stop, 1)
    else match letters.lookup c with
      | some e => (.octets [e], 1)
      | none =>
        if d = .shell then (.octets ['\\', c], 1)
        else if c = '"' then (.octets ['"'], 1)
        else if c = 'x' then
          match (rest.take 2).takeWhile fun x => (Json.hexValue? x).isSome with
          | [] => (.bad .openEscape, 0)
          | ds => (.octets [Char.ofNat (hexadecimal ds)], ds.length + 1)
        else if c = 'u' then universal 'u' 4 rest
        else if c = 'U' then universal 'U' 8 rest
        else (.octets ['\\', c], 1)

/-- A text with its escapes carried out, up to one that ends it or is wrong. -/
def unescape (d : Dialect) : (skip : Nat) → Octets → Octets × Option Escape
  | _, [] => ([], none)
  | skip + 1, _ :: rest => unescape d skip rest
  | 0, c :: rest =>
    if c ≠ '\\' then
      let r := unescape d 0 rest
      (c :: r.1, r.2)
    else
      match escape d true rest with
      | (.octets cs, n) =>
        let r := unescape d n rest
        (cs ++ r.1, r.2)
      | (e, _) => ([], some e)

/-! ## Directives -/

/-- A number in a directive: written out, or taken from the arguments. -/
inductive Measure where
  | fixed (n : Nat)
  | argument
deriving DecidableEq, Repr

structure Directive where
  flags : List Char
  width : Option Measure
  precision : Option Measure
  conversion : Char
deriving DecidableEq, Repr

inductive Part where
  | octet (c : Char)
  | escape (e : Escape)
  | directive (d : Directive)
  | bad (complaint : Complaint)
deriving DecidableEq, Repr

def integers : List Char := ['d', 'i', 'o', 'u', 'x', 'X']

def floats : List Char := ['a', 'A', 'e', 'E', 'f', 'F', 'g', 'G']

def measure? (cs : Octets) : Option Measure × Octets :=
  match cs with
  | '*' :: rest => (some .argument, rest)
  | _ =>
    match cs.takeWhile Char.isDigit with
    | [] => (none, cs)
    | ds => (some (.fixed (Nat.ofDigitChars 10 ds 0)), cs.dropWhile Char.isDigit)

def isKnown (flags : List Char) (precise : Bool) (conversion : Char) : Bool :=
  (conversion ∈ integers || conversion ∈ floats || conversion ∈ ['c', 's']) &&
    flags.all (fun flag =>
      if flag = '\'' ∨ flag = 'I' then conversion ∈ ['d', 'f', 'F', 'g', 'G', 'i', 'u']
      else if flag = '#' then conversion ∉ ['c', 'd', 'i', 's', 'u']
      else if flag = '0' then conversion ∉ ['c', 's']
      else true) &&
    !(precise && conversion = 'c')

/-- The directive behind a percent sign, and what follows it. -/
def directive (dialect : Dialect) (cs : Octets) : Part × Octets :=
  let isFlag (c : Char) : Bool :=
    c ∈ ['-', '+', ' ', '0', '#'] || (dialect = .program && c ∈ ['\'', 'I'])
  let isLength (c : Char) : Bool := dialect = .program && c ∈ ['l', 'L', 'h', 'j', 't', 'z']
  let flags := cs.takeWhile isFlag
  let (width, rest) := measure? (cs.dropWhile isFlag)
  let (precision, rest) := match rest with
    | '.' :: rest =>
      let (p, rest) := measure? rest
      (some (p.getD (.fixed 0)), rest)
    | rest => (none, rest)
  let rest := rest.dropWhile isLength
  match rest with
  | c :: after =>
    let written := '%' :: cs.take (cs.length - after.length)
    let known := match dialect with
      | .shell => c ∈ integers || c ∈ floats || c ∈ ['b', 'c', 's']
      | .program =>
        isKnown flags precision.isSome c || (c ∈ ['b', 'q'] && cs.length = after.length + 1)
    if known then (.directive ⟨flags, width, precision, c⟩, after)
    else (.bad (.badDirective written), after)
  | [] =>
    (.bad (match dialect with
      | .shell => .openDirective
      | .program => .badDirective ('%' :: cs)), [])

def parts (d : Dialect) : (fuel : Nat) → Octets → List Part
  | 0, _ => []
  | _ + 1, [] => []
  | fuel + 1, '%' :: '%' :: rest => .octet '%' :: parts d fuel rest
  | fuel + 1, '%' :: rest =>
    let (part, rest) := directive d rest
    part :: parts d fuel rest
  | fuel + 1, '\\' :: rest =>
    let (e, n) := escape d false rest
    .escape e :: parts d fuel (rest.drop n)
  | fuel + 1, c :: rest => .octet c :: parts d fuel rest

/-! ## Arguments -/

/-- The whole number at the front of a numeral behind blanks, if there is one. -/
def wholeNumber? (cs : Octets) : Option (Int × Octets) :=
  let (sign, digits) := match cs.dropWhile Floating.isBlank with
    | '-' :: rest => ((-1 : Int), rest)
    | '+' :: rest => (1, rest)
    | rest => (1, rest)
  let hexadecimal? : Option Octets := match digits with
    | '0' :: x :: d :: rest =>
      if (x = 'x' ∨ x = 'X') ∧ (Json.hexValue? d).isSome then some (d :: rest) else none
    | _ => none
  let (base, body) := match hexadecimal? with
    | some rest => (16, rest)
    | none => (if digits.head? = some '0' then 8 else 10, digits)
  let isDigit (c : Char) : Bool := (Json.hexValue? c).any (· < base)
  match body.takeWhile isDigit with
  | [] => none
  | ds =>
    let n := ds.foldl (fun n c => n * base + (Json.hexValue? c).getD 0) 0
    some (sign * n, body.dropWhile isDigit)

/-- A negative number wraps around where no sign is wanted. -/
def toWord (signed : Bool) (n : Int) : Int × Bool :=
  if signed then
    if n < -Word.signedBound then (-Word.signedBound, true)
    else if Word.signedBound ≤ n then (Word.signedBound - 1, true)
    else (n, false)
  else if Word.unsignedBound ≤ n ∨ n ≤ -Word.unsignedBound then (Word.unsignedBound - 1, true)
  else (n % Word.unsignedBound, false)

def leftOver (argument : Octets) (outOfRange : Bool) (rest : Octets) : Option Complaint :=
  match rest, outOfRange with
  | [], false => none
  | [], true => some (.outOfRange argument)
  | _ :: _, outOfRange => some (if outOfRange then .outOfRange argument else .notComplete argument)

/-- The character for whose number an argument stands, and what is left of it. -/
def constant? (d : Dialect) : Octets → Option (Nat × Octets)
  | q :: rest =>
    if q = '\'' ∨ q = '"' then
      match rest, d with
      | c :: rest, _ => some (c.toNat, rest)
      | [], .shell => some (0, [])
      | [], .program => none
    else none
  | [] => none

def ignored (d : Dialect) (rest : Octets) : Option Complaint :=
  if d = .program && !rest.isEmpty then some (.ignored rest) else none

/-- The value of an argument as a word, and a complaint if it is none. -/
def integerValue (d : Dialect) (signed : Bool) : Option Octets → Int × Option Complaint
  | none => (0, none)
  | some cs =>
    match constant? d cs with
    | some (n, rest) => (n, ignored d rest)
    | none =>
      match wholeNumber? cs with
      | none => (0, if cs.isEmpty then none else some (.notNumeric cs))
      | some (n, rest) =>
        let (n, outOfRange) := toWord signed n
        (n, leftOver cs outOfRange rest)

def floatingFormat : Dialect → FloatingFormat
  | .shell => .double
  | .program => .extended

def floatingValue (d : Dialect) (argument : Option Octets) : Floating × Option Complaint :=
  let f := floatingFormat d
  match argument with
  | none => (.ofInt f 0, none)
  | some cs =>
    match constant? d cs with
    | some (n, rest) => (.ofInt f n, ignored d rest)
    | none =>
      match Floating.read? f cs with
      | none => (.ofInt f 0, if cs.isEmpty then none else some (.notNumeric cs))
      | some found => (found.value, leftOver cs found.outOfRange found.rest)

/-! ## Fields -/

/-- Text in a field: blanks on one side, or zeros behind the sign. -/
def pad (flags : List Char) (width : Nat) (zeros : Bool) (sign body : Octets) : Octets :=
  let missing := width - (sign.length + body.length)
  if '-' ∈ flags then sign ++ body ++ List.replicate missing ' '
  else if zeros && '0' ∈ flags then sign ++ List.replicate missing '0' ++ body
  else List.replicate missing ' ' ++ sign ++ body

def signOf (flags : List Char) (negative : Bool) : Octets :=
  if negative then ['-'] else if '+' ∈ flags then ['+'] else if ' ' ∈ flags then [' '] else []

/-- The digits of a number for a conversion, with at least `places` of them. -/
def digits (conversion : Char) (places : Nat) (n : Nat) : Octets :=
  let base := if conversion = 'o' then 8 else if conversion ∈ ['x', 'X'] then 16 else 10
  let ds := if n = 0 then [] else Nat.toDigits base n
  let ds := if conversion = 'X' then ds.map Char.toUpper else ds
  List.replicate (places - ds.length) '0' ++ ds

def integer (d : Directive) (width : Nat) (precision : Option Nat) (n : Int) : Octets :=
  let signed := d.conversion = 'd' ∨ d.conversion = 'i'
  let ds := digits d.conversion (precision.getD 1) n.natAbs
  let marked := '#' ∈ d.flags
  let ds := if marked ∧ d.conversion = 'o' ∧ ds.head? ≠ some '0' then '0' :: ds else ds
  let sign := if signed then signOf d.flags (n < 0)
    else if marked ∧ n ≠ 0 ∧ d.conversion ∈ ['x', 'X'] then ['0', d.conversion] else []
  pad d.flags width precision.isNone sign ds

def floating (f : FloatingFormat) (d : Directive) (width : Nat) (precision : Option Nat)
    (x : Floating) : Octets :=
  let upper := d.conversion.isUpper
  let shown (cs : Octets) : Octets := if upper then cs.map Char.toUpper else cs
  let sign := signOf d.flags x.negative
  match x with
  | .infinite _ => pad d.flags width false sign (shown "inf".toList)
  | .nan _ => pad d.flags width false sign (shown "nan".toList)
  | .finite _ mantissa exponent =>
    let conversion := d.conversion.toLower
    let front := if conversion = 'a' then shown ['0', 'x'] else []
    let body := Floating.magnitude f conversion precision ('#' ∈ d.flags) mantissa exponent
    pad d.flags width true (sign ++ front) (shown body)

/-! ## Printing -/

inductive Event where
  | out (cs : Octets)
  | complaint (c : Complaint)
deriving DecidableEq, Repr

structure Printed where
  /-- The newest first. -/
  events : List Event := []
  stopped : Bool := false
  arguments : List Octets

namespace Printed

def write (p : Printed) (cs : Octets) : Printed := { p with events := .out cs :: p.events }

def complain (p : Printed) (c : Option Complaint) : Printed :=
  match c with
  | none => p
  | some c => { p with events := .complaint c :: p.events, stopped := p.stopped || c.isFatal }

def take (p : Printed) : Option Octets × Printed :=
  (p.arguments.head?, { p with arguments := p.arguments.drop 1 })

def maxWidth : Nat := 2147483647

def measure (dialect : Dialect) (p : Printed) : Option Measure → Option Int × Printed
  | none => (none, p)
  | some (.fixed n) => (some n, p)
  | some .argument =>
    let (a, p) := p.take
    let (n, c) := integerValue dialect true a
    let p := p.complain c
    if dialect = .program ∧ maxWidth < n.natAbs then
      (some 0, p.complain (some (.badWidth (a.getD []))))
    else (some n, p)

def escape (p : Printed) : Escape → Printed
  | .octets cs => p.write cs
  | .stop => { p with stopped := true }
  | .bad complaint => p.complain (some complaint)

def argument (dialect : Dialect) (p : Printed) (d : Directive) (width : Nat)
    (precision : Option Nat) : Printed :=
  let field (cs : Octets) : Octets :=
    pad d.flags width false [] (precision.elim cs fun n => cs.take n)
  let (a, p) := p.take
  if d.conversion = 's' then p.write (field (a.getD []))
  else if d.conversion = 'b' then
    let (cs, last) := unescape dialect 0 (a.getD [])
    let p := p.write (field cs)
    match last with
    | none => p
    | some e => p.escape e
  else if d.conversion = 'q' then p.write (a.elim [] Quote.shell)
  else if d.conversion = 'c' then
    p.write (pad d.flags width false [] [(a.getD []).headD '\x00'])
  else if d.conversion ∈ floats then
    let (x, c) := floatingValue dialect a
    (p.complain c).write (floating (floatingFormat dialect) d width precision x)
  else
    let (n, c) := integerValue dialect (d.conversion = 'd' ∨ d.conversion = 'i') a
    (p.complain c).write (integer d width precision n)

/-- Prints one directive. A negative width means the other side. -/
def directive (dialect : Dialect) (p : Printed) (d : Directive) : Printed :=
  let (width, p) := p.measure dialect d.width
  let (precision, p) := p.measure dialect d.precision
  let precision := (precision.filter (0 ≤ ·)).map Int.toNat
  let d := if width.any (· < 0) then { d with flags := '-' :: d.flags } else d
  if p.stopped then p else p.argument dialect d (width.getD 0).natAbs precision

def parts (dialect : Dialect) (p : Printed) : List Part → Printed
  | [] => p
  | part :: rest =>
    if p.stopped then p
    else match part with
      | .octet c => (p.write [c]).parts dialect rest
      | .escape e => (p.escape e).parts dialect rest
      | .directive d => (p.directive dialect d).parts dialect rest
      | .bad complaint => p.complain (some complaint)

/-- Prints the parts of a format again while arguments are left and some are taken. -/
def all (dialect : Dialect) (ps : List Part) : (fuel : Nat) → Printed → Printed
  | 0, p => p
  | fuel + 1, p =>
    let next := p.parts dialect ps
    if next.stopped ∨ next.arguments.isEmpty then next
    else if next.arguments.length = p.arguments.length then
      if dialect = .program then next.complain (next.arguments.head?.map .excess) else next
    else all dialect ps fuel next

def complaints (p : Printed) : List Complaint :=
  p.events.reverse.filterMap fun
    | .complaint c => some c
    | .out _ => none

def out (p : Printed) : Octets :=
  (p.events.reverse.map fun
    | .out cs => cs
    | .complaint _ => []).flatten

end Printed

def print (dialect : Dialect) (format : Octets) (arguments : List Octets) : Printed :=
  Printed.all dialect (parts dialect (format.length + 1) format) (arguments.length + 1) { arguments }

end CoinRelay.Host.Format
