import CoinRelay.Host.Shell.Fields

/-!
# Expansion

Words become text or fields: tildes become directories, parameters their values, commands what they
print, and calculations their results. What is expanded outside of quotes is split into fields, and
fields that are patterns become paths. How a command is carried out is a parameter here.
-/

namespace CoinRelay.Host.Shell

open Script (Alteration Command Part)

structure Manner where
  full : Bool := false
  tilde : Bool := false
  /-- Tildes count behind the first equals sign and behind colons, too. -/
  assignment : Bool := false
  inner : Bool := false
  quoted : Bool := false

abbrev Capture := Option Command → Action Octets

/-! ## Tildes -/

/-- The home directories of users that every system has. -/
def userHomes : List (String × String) := [("root", "/root"), ("daemon", "/usr/sbin"),
  ("bin", "/bin"), ("sys", "/dev"), ("nobody", "/nonexistent")]

/-- The directory that what follows a tilde names, if it names one, and how many parts do so. -/
def tilde? (s : Session) (assignment : Bool) (rest : List Part) : Option (Octets × Nat) :=
  let ends (c : Char) : Bool := c = '/' || (assignment && c = ':')
  let front := rest.takeWhile fun
    | .char c false => !ends c
    | _ => false
  let closed := match rest.drop front.length with
    | [] | .char _ false :: _ => true
    | _ => false
  match Script.plain? front with
  | none => none
  | some name =>
    let home := if name.isEmpty then s.value? "HOME".toList
      else (userHomes.lookup (String.ofList name)).map String.toList
    if closed then home.map (·, front.length) else none

/-! ## Parameters -/

/-- The parameters as one text or as fields. Between them stands a gap, or the first separator. -/
def allParameters (s : Session) (name : Char) (full quoted : Bool) : List Piece :=
  let isSet := match s.bindings.lookup "IFS".toList with
    | some { value := some cs, .. } => some cs
    | _ => none
  let between : List Piece :=
    if full && (!quoted || name = '@') then
      if quoted ∨ isSet.isSome then [.gap] else [.char ' ' false]
    else match isSet with
      | some cs => (cs.take 1).map (.char · quoted)
      | none => [.char ' ' quoted]
  between.intercalate (s.parameters.map fun p => p.map (.char · quoted))

def parameter? (s : Session) (full quoted : Bool) (name : Octets) : Option (List Piece) :=
  let text (cs : Octets) : List Piece := cs.map (.char · quoted)
  match name with
  | ['?'] => some (text (Octets.ofNat s.status))
  | ['#'] => some (text (Octets.ofNat s.parameters.length))
  | ['$'] => some (text (Octets.ofNat s.rootPid))
  | ['!'] => s.lastBackground.map fun n => text (Octets.ofNat n)
  | ['-'] => some (text s.optionLetters)
  | ['@'] => some (allParameters s '@' full quoted)
  | ['*'] => some (allParameters s '*' full quoted)
  | _ =>
    match Octets.toNat? name with
    | some 0 => some (text s.name)
    | some n => (s.parameters[n - 1]?).map text
    | none => (s.value? name).map text

def trimmed (front longest : Bool) (pattern : Octets) (value : List Piece) : List Piece :=
  let text := value.map fun
    | .char c _ => c
    | _ => '\x00'
  let parts := Pattern.parse pattern
  if front then value.drop (value.length - (parts.trimFront longest text).length)
  else value.take (parts.trimBack longest text).length

/-! ## Words -/

/-- The result of a calculation; its assignments are carried out. -/
def calculate (text : Octets) : Action Octets := do
  let s ← shell
  match Arithmetic.evaluate s.value? text with
  | .error m => fail (m.message text)
  | .ok (n, assigned) =>
    for (name, n) in assigned do setVariable name (some (toString n).toList)
    return (toString n).toList

def withoutNewlines (cs : Octets) : Octets := (cs.reverse.dropWhile (· = '\n')).reverse

structure Spot where
  between : Bool := false
  /-- The next quotation mark is left out. -/
  hidden : Bool := false
  tilde : Bool := false
  /-- So many parts have been dealt with. -/
  skip : Nat := 0

/-- All parameters between quotation marks and nothing else: then these marks make no field. -/
def isAllParameters : List Part → Bool
  | .parameter ['@'] false .plain _ :: .mark :: _ => true
  | _ => false

def expandParts (capture : Capture) (m : Manner) :
    (parts : List Part) → Spot → Expanded → Action Expanded
  | [], _, e => return e
  | part :: rest, spot, e => do
    if 0 < spot.skip then
      return ← expandParts capture m rest { spot with skip := spot.skip - 1 } e
    let s ← shell
    let quoted := m.quoted || spot.between
    let next : Spot := { spot with tilde := false }
    let result (cs : Octets) : Expanded :=
      let after := e.addText quoted cs
      if quoted then after else after.mark e.size
    match part with
    | .mark =>
      let hidden := !spot.between && isAllParameters rest
      let e := if spot.hidden || hidden then e else e.add .mark
      expandParts capture m rest { between := !spot.between, hidden } e
    | .char c escaped =>
      match if spot.tilde && c = '~' && !escaped then tilde? s m.assignment rest else none with
      | some (home, skip) => expandParts capture m rest { next with skip } (e.addText true home)
      | none =>
        let e := if m.inner && !quoted && !escaped then e.addLiteral c
          else e.add (.char c (escaped || quoted))
        let tilde := m.assignment && !escaped && (c = ':' || c = '=')
        expandParts capture m rest { next with tilde } e
    | .command body =>
      let cs ← capture body
      let e := result (withoutNewlines (cs.filter (· ≠ '\x00')))
      expandParts capture m rest next e
    | .arithmetic word =>
      let inside ← expandParts capture {} word {} {}
      let e := result (← calculate inside.text)
      expandParts capture m rest next e
    | .parameter name colon alteration word =>
      let value := parameter? s m.full quoted name
      let isSet := value.any fun v => !(colon && v.isEmpty)
      let marked (after : Expanded) : Expanded :=
        let gaps := quoted && name.head? = some '@' && !s.parameters.isEmpty
        if quoted && !gaps then after else after.mark e.size gaps
      let given : Expanded := marked (e.addAll (value.getD []))
      let needed : Action Unit := do
        if !isSet ∧ 'u' ∈ s.options then failAbout name "parameter not set"
      let within : Action Expanded :=
        expandParts capture { m with inner := true, quoted } word { tilde := true } e
      let alone : Action Expanded := expandParts capture {} word { tilde := true } {}
      let e ← match alteration with
        | .unknown => fail "Bad substitution".toList
        | .instead => if isSet then within else pure (marked e)
        | .otherwise => if isSet then pure given else within
        | .assign =>
          if isSet then pure given
          else
            let cs := (← alone).text
            setVariable name (some cs)
            let value := parameter? (← shell) m.full quoted name
            pure (marked (e.addAll (value.getD [])))
        | .demand =>
          if isSet then pure given
          else
            let message ← if word.isEmpty then
                pure ("parameter not set" ++ if colon then " or null" else "").toList
              else pure (← alone).text
            fail (name ++ [':', ' '] ++ message)
        | .plain =>
          needed
          pure (if isSet then given else e)
        | .length =>
          needed
          let length := if isSet then (value.getD []).length else 0
          pure (marked (e.addText quoted (Octets.ofNat length)))
        | .trim front longest =>
          needed
          match value with
          | none => pure e
          | some value =>
            let pattern := (← alone).pattern
            pure (marked (e.addAll (trimmed front longest pattern value)))
      expandParts capture m rest next e
termination_by parts => sizeOf parts

/-! ## What words come to -/

def expandText (capture : Capture) (word : Script.Word) : Action Octets := do
  return (← expandParts capture {} word { tilde := true } {}).text

def expandAssignment (capture : Capture) (word : Script.Word) : Action Octets := do
  return (← expandParts capture { assignment := true } word {} {}).text

def expandPattern (capture : Capture) (word : Script.Word) : Action Octets := do
  return (← expandParts capture {} word { tilde := true } {}).pattern

def expandDocument (capture : Capture) (word : Script.Word) : Action Octets := do
  return (← expandParts capture { quoted := true } word {} {}).text

def expandFields (capture : Capture) (word : Script.Word) : Action (List Octets) := do
  let e ← expandParts capture { full := true } word { tilde := true } {}
  let fields := e.split (← separators)
  return (← fields.mapM paths).flatten

end CoinRelay.Host.Shell
