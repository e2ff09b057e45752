import ShaderBytecode.DataType

/-!
# Shading languages and pipeline stages

Both dialects share one lexer, one grammar and one type system. What differs between them is
answered here and by the tables of keywords, intrinsics and stage variables.
-/

namespace ShaderBytecode

/-- The pipeline stage a shader is written for. -/
inductive Stage where
  | vertex
  | pixel
  | geometry
  | compute
deriving DecidableEq, Repr, Inhabited

def Stage.name : Stage → String
  | vertex => "vertex"
  | pixel => "pixel"
  | geometry => "geometry"
  | compute => "compute"

/-- A shading language. -/
inductive Dialect where
  | glsl
  | hlsl
deriving DecidableEq, Repr, Inhabited

/-- A family of component letters. Letters of two families do not mix in one swizzle. -/
inductive SwizzleSet where
  | position
  | colour
  | texture
deriving DecidableEq, Repr

/-- A number of components or of columns: two, three or four. -/
def dimension? : List Char → Option UInt8
  | ['2'] => some 2
  | ['3'] => some 3
  | ['4'] => some 4
  | _ => none

/-- Columns and rows written as `CxR`, in the order written. -/
def dimensions? (text : List Char) : Option (UInt8 × UInt8) := do
  let first ← dimension? (text.takeWhile (· ≠ 'x'))
  let second ← dimension? ((text.dropWhile (· ≠ 'x')).drop 1)
  return (first, second)

def afterStart? (start : String) (word : List Char) : Option (List Char) :=
  if start.toList.isPrefixOf word then some (word.drop start.length) else none

namespace Dialect

def name : Dialect → String
  | glsl => "GLSL"
  | hlsl => "HLSL"

def stages : Dialect → List Stage
  | glsl => [.vertex, .pixel, .geometry, .compute]
  | hlsl => [.vertex, .pixel, .compute]

def supports (d : Dialect) (stage : Stage) : Bool :=
  d.stages.contains stage

/-- Whether declarations may be annotated with `: SEMANTIC`. -/
def hasSemantics : Dialect → Bool
  | glsl => false
  | hlsl => true

/-- Vectors are `vecN`, `ivecN` and `bvecN`; `matN` is square and `matCxR` has `C` columns. -/
def glslType? (word : List Char) : Option DataType :=
  if let some rest := afterStart? "ivec" word then (dimension? rest).map (.vector .int)
  else if let some rest := afterStart? "bvec" word then (dimension? rest).map (.vector .bool)
  else if let some rest := afterStart? "vec" word then (dimension? rest).map (.vector .float)
  else if let some rest := afterStart? "mat" word then
    if rest.contains 'x' then (dimensions? rest).map fun (columns, rows) => .matrix columns rows
    else (dimension? rest).map fun size => .matrix size size
  else none

/-- Vectors are `floatN`, `halfN`, `intN` and `boolN`; `floatRxC` has `R` rows. -/
def hlslType? (word : List Char) : Option DataType :=
  let sized (kind : ScalarKind) (rest : List Char) : Option DataType :=
    if rest.contains 'x' then
      if kind = .float then (dimensions? rest).map fun (rows, columns) => .matrix columns rows
      else none
    else (dimension? rest).map (.vector kind)
  if word = "half".toList then some .float
  else if let some rest := afterStart? "float" word then sized .float rest
  else if let some rest := afterStart? "half" word then sized .float rest
  else if let some rest := afterStart? "int" word then sized .int rest
  else if let some rest := afterStart? "bool" word then sized .bool rest
  else none

def builtinType? (d : Dialect) (word : String) : Option DataType :=
  match word with
  | "void" => some .void
  | "bool" => some .bool
  | "int" => some .int
  | "float" => some .float
  | "sampler2D" => some .sampler2D
  | _ =>
    match d with
    | glsl => glslType? word.toList
    | hlsl => hlslType? word.toList

def typeName : Dialect → DataType → String
  | hlsl, .vector kind size => s!"{kind.name}{size}"
  | hlsl, .matrix columns rows => s!"float{rows}x{columns}"
  | hlsl, .array element length => s!"{typeName hlsl element}[{length}]"
  | _, type => type.display

/-- The component that a letter selects and the family of the letter. -/
def swizzleComponent? (d : Dialect) : Char → Option (UInt8 × SwizzleSet)
  | 'x' => some (0, .position)
  | 'y' => some (1, .position)
  | 'z' => some (2, .position)
  | 'w' => some (3, .position)
  | 'r' => some (0, .colour)
  | 'g' => some (1, .colour)
  | 'b' => some (2, .colour)
  | 'a' => some (3, .colour)
  | 's' => if d = .glsl then some (0, .texture) else none
  | 't' => if d = .glsl then some (1, .texture) else none
  | 'p' => if d = .glsl then some (2, .texture) else none
  | 'q' => if d = .glsl then some (3, .texture) else none
  | _ => none

end Dialect

end ShaderBytecode
