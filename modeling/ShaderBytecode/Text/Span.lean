/-!
# Positions and spans of source text
-/

namespace ShaderBytecode

/-- A place between two characters of a source. Lines and columns count from zero, and a
column counts characters. -/
structure Position where
  line : Int := 0
  column : Int := 0
deriving DecidableEq, Repr, Inhabited

namespace Position

def step (p : Position) (c : Char) : Position :=
  if c = '\n' then ⟨p.line + 1, 0⟩ else ⟨p.line, p.column + 1⟩

def after (p : Position) (text : List Char) : Position :=
  text.foldl step p

@[simp]
theorem after_nil (p : Position) : p.after [] = p := rfl

@[simp]
theorem after_cons (p : Position) (c : Char) (text : List Char) :
    p.after (c :: text) = (p.step c).after text := rfl

theorem after_append (p : Position) (first second : List Char) :
    p.after (first ++ second) = (p.after first).after second := by
  simp [after, List.foldl_append]

end Position

/-- A stretch of source text from `start` up to, and without, `stop`. -/
structure Span where
  start : Position := {}
  stop : Position := {}
deriving DecidableEq, Repr, Inhabited

namespace Span

/-- The span from the start of the first to the end of the second. -/
def through (first second : Span) : Span :=
  ⟨first.start, second.stop⟩

def line (s : Span) : Nat :=
  (max s.start.line 0).toNat + 1

def wholeLine (line : Int) : Span :=
  ⟨⟨line, 0⟩, ⟨line, 120⟩⟩

end Span

/-- Something and the stretch of source text it is about. -/
structure Located (α : Type) where
  value : α
  span : Span
deriving DecidableEq, Repr

end ShaderBytecode
