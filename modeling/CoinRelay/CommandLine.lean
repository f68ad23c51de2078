import CoinRelay.Text.Blank
import CoinRelay.Text.Words

/-!
# Command lines

A program and its arguments, read from one line of text by the rules of `CoinRelay.Text.Words`.
-/

namespace CoinRelay

structure CommandLine where
  program : String
  args : List String
deriving DecidableEq, Repr

namespace CommandLine

/-- The command line in a text: its first word is the program. -/
def parse? (raw : String) : Option CommandLine :=
  match Text.Words.split? (Text.trimChars raw.toList) with
  | some (program :: args) => some ⟨program, args⟩
  | _ => none

/-- Program and arguments with a blank between each two, for reading only. -/
def display (command : CommandLine) : String :=
  " ".intercalate (command.program :: command.args)

end CommandLine

end CoinRelay
