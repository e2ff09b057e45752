/-!
# Configuration of the compiler
-/

namespace ShaderBytecode

/-- The options of the compiler. -/
structure Config where
  /-- Mark the source line of every statement in the code. -/
  lineMarkers : Bool := true
  /-- Promote integers where floats are expected. -/
  promoteInts : Bool := true
  warnings : Bool := true
  /-- Typing stops after so many errors. -/
  maxErrors : Nat := 20
deriving DecidableEq, Repr, Inhabited

end ShaderBytecode
