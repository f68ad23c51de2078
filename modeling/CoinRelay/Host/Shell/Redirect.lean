import CoinRelay.Host.Shell.Expansion

/-!
# Redirections

Before a command is carried out its descriptors are led elsewhere, one redirection after the other.
What they led to before is kept under numbers that no script can name, and given back afterwards.
-/

namespace CoinRelay.Host.Shell

open Script (FileMode Redirection)

/-! ## Targets -/

inductive Target where
  | file (descriptor : Nat) (mode : FileMode) (path : Octets)
  | duplicate (descriptor : Nat) (source : Option Nat)
  | document (descriptor : Nat) (number : Nat) (expanded : Bool)

/-- The text of a here document is expanded only when it is needed. -/
def targets (capture : Capture) : List Redirection → Action (List Target)
  | [] => return []
  | r :: rest => do
    let target ← match r with
      | .file descriptor mode word => pure (.file descriptor mode (← expandText capture word))
      | .duplicate descriptor source => pure (.duplicate descriptor source)
      | .duplicateOf descriptor word =>
        match ← expandText capture word with
        | ['-'] => pure (.duplicate descriptor none)
        | cs =>
          match if cs.length = 1 then Octets.toNat? cs else none with
          | some n => pure (.duplicate descriptor (some n))
          | none => failReading (← shell).readLine .badDescriptor
      | .document descriptor number expanded => pure (.document descriptor number expanded)
    return target :: (← targets capture rest)

def pathFault (front : String) (path : Octets) (missing : String) (fault : Fault) : Octets :=
  let text := match fault with
    | .absent | .notDirectory => missing
    | fault => fault.text
  front.toList ++ path ++ ": ".toList ++ text.toList

def openFile (mode : FileMode) (path : Octets) : Action Nat := do
  let guarded := mode = .write && (← hasOption 'C')
  let (access, fresh) := match mode with
    | .read => (Access.read, false)
    | .readWrite => (.readWrite, false)
    | .write => (.write, guarded)
    | .overwrite => (.write, false)
    | .append => (.append, false)
  match ← act (Act.openPath access fresh path.text) with
  | .ok opened => return opened
  | .error fault =>
    if mode = .read then fail (pathFault "cannot open " path "No such file" fault)
    else fail (pathFault "cannot create " path "Directory nonexistent" fault)

/-! ## Leading elsewhere -/

/-- Keeps what a descriptor leads to, the first time that it is redirected for a command. -/
def keepDescriptor (descriptor : Nat) : Action Unit := do
  match (← shell).redirections with
  | [] => return
  | kept :: outer =>
    if kept.any (·.1 = descriptor) then return
    let hidden ← match ← act (Act.index? descriptor) with
      | none => pure none
      | some opened => pure (some (← act (Act.attach Act.firstHidden opened)))
    change ({ · with redirections := ((descriptor, hidden) :: kept) :: outer })

def redirect (capture : Capture) (keeps : Bool) (t : Target) : Action Unit := do
  let lead (descriptor : Nat) (opened : Option Nat) : Action Unit := do
    if keeps then keepDescriptor descriptor
    act (Act.redirect descriptor opened)
  match t with
  | .file descriptor mode path => lead descriptor (some (← openFile mode path))
  | .duplicate descriptor none => lead descriptor none
  | .duplicate descriptor (some source) =>
    if descriptor = source then return
    match ← act (Act.index? source) with
    | some opened => lead descriptor (some opened)
    | none => failAbout (Octets.ofNat source) Fault.badDescriptor.text
  | .document descriptor number expanded =>
    let word := ((← shell).documents.lookup number).getD []
    let text ← if expanded then expandDocument capture word else pure (Script.unquoted word)
    lead descriptor (some (← act (Act.filledPipe text)))

def redirectAll (capture : Capture) (keeps : Bool) : List Target → Action Unit
  | [] => return
  | t :: rest => do
    redirect capture keeps t
    redirectAll capture keeps rest

def pushRedirections (ts : List Target) : Action Unit :=
  if ts.isEmpty then return else change fun s => { s with redirections := [] :: s.redirections }

/-- Carries out redirections; it gives a status if one of them fails. -/
def redirectSafely (capture : Capture) (ts : List Target) : Action (Option Nat) := do
  try
    redirectAll capture true ts
    return none
  catch
    | .failed => return some 2
    | stop => throw stop

/-- What descriptors led to before is given back, unless the redirections are to last. -/
def popRedirections (lasting : Bool) : Action Unit := do
  match (← shell).redirections with
  | [] => return
  | kept :: outer =>
    change ({ · with redirections := outer })
    for (descriptor, hidden) in kept do
      match hidden with
      | none => if !lasting then act (Act.redirect descriptor none)
      | some n =>
        if !lasting then act (Act.redirect descriptor (← act (Act.index? n)))
        act (Act.redirect n none)

def unwindRedirections (levels : Nat) : (fuel : Nat) → Action Unit
  | 0 => return
  | fuel + 1 => do
    if levels < (← shell).redirections.length then
      popRedirections false
      unwindRedirections levels fuel

/-- The descriptor to which traces go: standard error as it was before the innermost command. -/
def traceDescriptor (redirected : Bool) : Action Nat := do
  match (← shell).redirections with
  | kept :: _ => return if redirected then ((kept.lookup 2).join).getD 2 else 2
  | [] => return 2

end CoinRelay.Host.Shell
