import CoinRelay.Host.Shell.Simple

/-!
# Carrying out tasks

Commands made of others, scripts, and shells that are started as programs. `evaluate` ties all of it
together; tasks are nested in each other up to a depth.
-/

namespace CoinRelay.Host.Shell

open Script (Command Redirection Word)

/-! ## Compound commands -/

/-- Whether a loop goes on after what was skipped in it, and what is still to be skipped. -/
def endRound : Action Bool := do
  match (← shell).skip with
  | .nothing => return true
  | .function _ => return false
  | .loops n goesOn =>
    if 1 < n then
      change ({ · with skip := .loops (n - 1) goesOn })
      return false
    else
      change ({ · with skip := .nothing })
      return goesOn

def inLoop (action : Action Nat) : Action Nat := do
  change fun s => { s with loops := s.loops + 1 }
  let status ← action
  change fun s => { s with loops := s.loops - 1 }
  return status

def loopFrom (evaluate : Evaluator) (negated : Bool) (test body : Command) (tested : Bool) :
    (fuel : Nat) → (status : Nat) → Action Nat
  | 0, status => return status
  | fuel + 1, status => do
    let result ← evaluate (.command test { tested := true })
    match (← shell).skip with
    | .nothing =>
      if (result = 0) = negated then return status
      let status ← evaluate (.command body { tested })
      if ← endRound then loopFrom evaluate negated test body tested fuel status
      else return status
    | skip =>
      let status := match skip with
        | .function _ => result
        | _ => status
      if ← endRound then loopFrom evaluate negated test body tested fuel status
      else return status

def eachFrom (evaluate : Evaluator) (name : Octets) (body : Command) (tested : Bool) :
    List Octets → (status : Nat) → Action Nat
  | [], status => return status
  | value :: rest, _ => do
    setVariable name (some value)
    let status ← evaluate (.command body { tested })
    if ← endRound then eachFrom evaluate name body tested rest status else return status

def chosen (capture : Capture) (subject : Octets) :
    List (List Word × Option Command) → Action (Option Command)
  | [] => return none
  | (patterns, body) :: rest => do
    let fits (w : Word) : Action Bool := do
      return (Pattern.parse (← expandPattern capture w)).holds subject
    if ← patterns.anyM fits then return body else chosen capture subject rest

/-- Each process reads what the one before it writes. Gives the processes and the pipes. -/
def pipelineFrom (evaluate : Evaluator) (background tested : Bool) :
    (input : Option Nat) → (first : Bool) → List Command → Action (List Nat × List Nat)
  | _, _, [] => return ([], [])
  | input, first, c :: rest => do
    let pipe ← if rest.isEmpty then pure none else pure (some (← act Act.newPipe))
    let child ← subshell evaluate c { tested } do
      if background ∧ first then withoutInput
      if let some opened := input then act (Act.redirect 0 (some opened))
      if let some (_, _, writing) := pipe then act (Act.redirect 1 (some writing))
    let (children, pipes) ←
      pipelineFrom evaluate background tested (pipe.map fun p => p.2.1) false rest
    return (child :: children, (pipe.map (·.1)).toList ++ pipes)

def pipeline (evaluate : Evaluator) (background tested : Bool) (commands : List Command) :
    Action Nat := do
  makeRoom
  let (children, pipes) ← pipelineFrom evaluate background tested none true commands
  for n in pipes.reverse do act (Act.abandon n)
  if background then
    addJob children
    return 0
  else awaitAll children 0

/-- Carries out a command in a shell of its own, or in this one if it ends with it. -/
def inSubshell (evaluate : Evaluator) (line : Nat) (body : Command)
    (redirections : List Redirection) (flags : Flags) : Action Nat := do
  atLine line
  let capture := capture evaluate
  let ts ← targets capture redirections
  if flags.exits ∧ (← shell).traps.all (·.2.isEmpty) then
    redirectAll capture false ts
    evaluate (.command body flags)
  else
    makeRoom
    let child ← subshell evaluate body flags (redirectAll capture false ts)
    awaitAll [child] 0

def inBackground (evaluate : Evaluator) (body : Command) (redirections : List Redirection) :
    Action Nat := do
  let capture := capture evaluate
  let ts ← targets capture redirections
  makeRoom
  let child ← subshell evaluate body {} do
    withoutInput
    redirectAll capture false ts
  addJob [child]
  return 0

def underRedirections (evaluate : Evaluator) (line : Nat) (body : Command)
    (redirections : List Redirection) (tested : Bool) : Action Nat := do
  atLine line
  let capture := capture evaluate
  let ts ← targets capture redirections
  pushRedirections ts
  let status ← match ← redirectSafely capture ts with
    | some status => pure status
    | none => evaluate (.command body { tested })
  if !ts.isEmpty then popRedirections false
  return status

/-- What a command came to: its status, if it has one of its own, and whether a failure ends a shell
that is to end at failures. -/
structure Outcome where
  status : Option Nat
  checked : Bool := false

def form (evaluate : Evaluator) (c : Command) (flags : Flags) : Action Outcome := do
  let tested := flags.tested
  let skips : Action Bool := return (← shell).skip ≠ .nothing
  let settled (status : Nat) : Outcome := ⟨some status, false⟩
  match c with
  | .simple line assignments words redirections =>
    return ⟨some (← simple evaluate line assignments words redirections flags), true⟩
  | .pipeline background commands =>
    return ⟨some (← pipeline evaluate background tested commands), true⟩
  | .subshell line body redirections =>
    return ⟨some (← inSubshell evaluate line body redirections flags), true⟩
  | .background body redirections =>
    return ⟨some (← inBackground evaluate body redirections), true⟩
  | .redirected line body redirections =>
    return settled (← underRedirections evaluate line body redirections tested)
  | .negation body =>
    let status ← evaluate (.command body { tested := true })
    if ← skips then return settled status
    return settled (if status = 0 then 1 else 0)
  | .both a b =>
    let status ← evaluate (.command a { tested := true })
    if status ≠ 0 ∨ (← skips) then return ⟨none, false⟩
    return settled (← evaluate (.command b flags))
  | .either a b =>
    let status ← evaluate (.command a { tested := true })
    if status = 0 ∨ (← skips) then return ⟨none, false⟩
    return settled (← evaluate (.command b flags))
  | .sequence a b =>
    let _ ← evaluate (.command a { tested })
    if ← skips then return ⟨none, false⟩
    return settled (← evaluate (.command b flags))
  | .conditional test body otherwise =>
    let status ← evaluate (.command test { tested := true })
    if ← skips then return ⟨none, false⟩
    if status = 0 then return settled (← evaluate (.command body flags))
    match otherwise with
    | some c => return settled (← evaluate (.command c flags))
    | none => return settled 0
  | .loop negated test body =>
    let fuel := (← get).system.budget + 1
    return settled (← inLoop (loopFrom evaluate negated test body tested fuel 0))
  | .each line name words body =>
    atLine line
    let values ← expandArguments (capture evaluate) false words
    return settled (← inLoop (eachFrom evaluate name body tested values 0))
  | .choice line subject cases =>
    atLine line
    let capture := capture evaluate
    let subject ← expandText capture subject
    match ← chosen capture subject cases with
    | some body => return settled (← evaluate (.command body flags))
    | none => return settled 0
  | .function name body =>
    change fun s =>
      { s with functions := (name, body) :: s.functions.filter (·.1 ≠ name) }
    return settled 0

/-- Carries out a command, with the traps that are due before and after it. -/
def command (evaluate : Evaluator) (c : Command) (flags : Flags) : Action Nat := do
  act Act.step
  let checked ← if ← hasOption 'n' then pure false
    else do
      runTraps evaluate
      let outcome ← form evaluate c flags
      if let some status := outcome.status then setStatus status
      pure (outcome.checked && !flags.tested)
  runTraps evaluate
  let s ← shell
  if (checked ∧ s.status ≠ 0 ∧ 'e' ∈ s.options) ∨ flags.exits then throw .exiting
  return s.status

/-! ## Shells as programs -/

def initialVariables (system : System) (inherited : List (Octets × Octets)) :
    List (Octets × Variable) :=
  let own (name : String) (value : Octets) : Octets × Variable :=
    (name.toList, { value := some value })
  let given := (inherited.filter fun v => Script.isName v.1).map fun v =>
    (v.1, ({ value := some v.2, exported := true } : Variable))
  let here := absolute system.process.working
  let defaults := [own "PATH" defaultPath, own "PS1" "$ ".toList, own "PS2" "> ".toList,
    own "PS4" "+ ".toList]
  let fixed := [own "IFS" blanks, own "OPTIND" ['1'],
    own "PPID" (Octets.ofNat system.process.parent),
    ("PWD".toList, { value := some here, exported := true })]
  let kept := given.filter fun v => !fixed.any (·.1 = v.1)
  fixed ++ kept ++ defaults.filter fun v => !kept.any (·.1 = v.1)

structure Request where
  withScript : Bool := false
  operands : List Octets := []

def startLetters (on : Bool) : Octets → List Octets → Bool → Action (List Octets × Bool)
  | [], rest, withScript => return (rest, withScript)
  | 'c' :: cs, rest, _ => startLetters on cs rest true
  | 'l' :: cs, rest, withScript => startLetters on cs rest withScript
  | 'o' :: cs, rest, withScript => do startLetters on cs (← setNamedOption on rest) withScript
  | c :: cs, rest, withScript => do
    setOption c on
    startLetters on cs rest withScript

def request : (fuel : Nat) → List Octets → (withScript : Bool) → Action Request
  | 0, operands, withScript => return ⟨withScript, operands⟩
  | fuel + 1, arguments, withScript => do
    match arguments with
    | ['-'] :: rest | ['-', '-'] :: rest => return ⟨withScript, rest⟩
    | ('-' :: cs) :: rest =>
      let (rest, withScript) ← startLetters true cs rest withScript
      request fuel rest withScript
    | ('+' :: cs) :: rest =>
      let (rest, withScript) ← startLetters false cs rest withScript
      request fuel rest withScript
    | rest => return ⟨withScript, rest⟩

def main (evaluate : Evaluator) (arguments : List Octets) : Action Unit := do
  let r ← request (arguments.length + 1) arguments false
  let _ ← flush
  let readsInput ← hasOption 's'
  let fromInput : Action Unit := do
    let text ← readAll 0 ((← get).system.budget + 1) []
    let _ ← evaluate (.file text)
  match r.operands with
  | [] =>
    if r.withScript then fail "-c requires an argument".toList
    setOption 's' true
    fromInput
  | first :: rest =>
    if r.withScript then
      match rest with
      | [] => pure ()
      | name :: parameters => change ({ · with name, parameters })
      let _ ← evaluate (.text first { exits := !readsInput })
      if readsInput then fromInput
    else if readsInput then
      change ({ · with parameters := first :: rest })
      fromInput
    else
      let text ← scriptText first
      change ({ · with name := first, parameters := rest })
      let _ ← evaluate (.file text)

def start (evaluate : Evaluator) (name : Octets) (arguments : List Octets) : Action Nat := do
  let s ← get
  let pid := s.system.process.pid
  let bindings := initialVariables s.system s.shell.environment
  set { s with shell := { name, rootPid := pid, bindings } }
  let status ← conclude evaluate (main evaluate arguments)
  endedBySignal status

/-! ## The evaluator -/

/-- Carries out a task in terms of what is nested in it. -/
def carryOut (evaluate : Evaluator) : Evaluator
  | .command c flags => command evaluate c flags
  | .text script flags => runText evaluate script flags
  | .file script => runFile evaluate script
  | .shell name arguments => start evaluate name arguments

/-- Carries out tasks that are nested no deeper than a depth. -/
def evaluate : (depth : Nat) → Evaluator
  | 0, _ => throw (.endless true)
  | depth + 1, task => carryOut (evaluate depth) task

end CoinRelay.Host.Shell
