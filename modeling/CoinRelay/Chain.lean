import CoinRelay.Relay

/-!
# The chain of stages in one process

Instead of starting the entry point once more, a delegate may run the stage that its arguments name.
Request and outcome still pass as text, so what one stage writes the next one reads. Stages nest no
deeper than a given budget.
-/

namespace CoinRelay.Chain

/-- What answers the calls that leave the chain; it sees the calls made so far. -/
abbrev External := List Call → Call → Reply

/-- How deep stages nest: more than the six stages of a request that moves on at every hop. -/
def nesting : Nat := 64

/-- The stage that a command line asks for: its last argument names it. -/
def stageOf? (command : CommandLine) : Option Stage := command.args.getLast?.bind Stage.ofName?

/-- Runs the built-in stages behind calls of `program`, and leaves other calls to `external`. -/
def delegate (config : Config) (files : Files) (program : String) (external : External) :
    (budget : Nat) → Delegate
  | 0, _ => return .error (.spawn "stages nest too deep")
  | budget + 1, call =>
    if call.command.program = program then
      match stageOf? call.command with
      | none => return .error (.invalidCommand call.command.display)
      | some stage =>
        match parseRequest? call.request.text with
        | none => return .error .invalidJson
        | some request => do
          let s : Surroundings := ⟨config, files, delegate config files program external budget⟩
          return parseReply (← s.run stage request).wire
    else return external (← get).calls call

def surroundings (config : Config) (files : Files) (program : String) (external : External) :
    Surroundings :=
  ⟨config, files, delegate config files program external nesting⟩

end CoinRelay.Chain
