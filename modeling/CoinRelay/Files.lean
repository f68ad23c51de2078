/-!
# Views of a file system

What a run sees of the files around it: where the home directory is, whether anything exists at a
path, and what can be read there.
-/

namespace CoinRelay

inductive Contents where
  | bytes (content : List UInt8)
  /-- It opens, but reading fails. -/
  | directory

/-- A view of the file system: the home directory, what exists, and what opens. -/
structure Files where
  home : String
  holds : String → Bool
  contents? : String → Option Contents

end CoinRelay
