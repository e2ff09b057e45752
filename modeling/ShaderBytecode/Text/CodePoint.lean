/-!
# Sets of code points

The properties of characters are those of Unicode 17.0.
-/

namespace ShaderBytecode

/-- A set of code points: the lengths of the runs of those outside and those inside it, in turn.
What follows the last run is outside. -/
abbrev Runs := List Nat

namespace Runs

def containsAt : Runs → (inside : Bool) → Nat → Bool
  | [], _, _ => false
  | run :: runs, inside, n => if n < run then inside else containsAt runs (!inside) (n - run)

def contains (runs : Runs) (c : Char) : Bool :=
  runs.containsAt false c.toNat

end Runs

end ShaderBytecode
