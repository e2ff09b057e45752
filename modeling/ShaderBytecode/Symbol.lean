import ShaderBytecode.Dialect

/-!
# Entries of the symbol registries

What a compiled program records about its global variables, structures and functions.
-/

namespace ShaderBytecode

/-- A storage qualifier. -/
inductive Storage where
  | const
  | uniform
  | input
  | output
  | vertexAttribute
  | varying
  | static
  | groupShared
deriving DecidableEq, Repr

def Storage.keyword : Storage → String
  | const => "const"
  | uniform => "uniform"
  | input => "in"
  | output => "out"
  | vertexAttribute => "attribute"
  | varying => "varying"
  | static => "static"
  | groupShared => "groupshared"

/-- How an argument is passed to a parameter. -/
inductive Passing where
  | input
  | output
  | inputOutput
deriving DecidableEq, Repr, Inhabited

/-- Whether the argument is a reference to an assignable place. -/
def Passing.byReference : Passing → Bool
  | input => false
  | output => true
  | inputOutput => true

/-- An entry such as `location = 0` of a layout qualifier. -/
structure LayoutEntry where
  name : String
  value : Option Nat
deriving DecidableEq, Repr

/-- The constant buffer in which a uniform is declared, with the register given for it. -/
structure BufferBinding where
  name : String
  register : Option String
deriving DecidableEq, Repr

/-- A global variable. -/
structure Variable where
  name : String
  type : DataType
  storage : Option Storage := none
  semantic : Option String := none
  layout : List LayoutEntry := []
  buffer : Option BufferBinding := none
deriving DecidableEq, Repr

/-- A member of a structure. -/
structure Member where
  name : String
  type : DataType
  semantic : Option String
deriving DecidableEq, Repr

/-- A structure. -/
structure Structure where
  name : String
  members : List Member
deriving DecidableEq, Repr

def Structure.member? (s : Structure) (name : String) : Option (Nat × Member) := do
  let index ← s.members.findIdx? (·.name = name)
  let member ← s.members[index]?
  return (index, member)

/-- A parameter. A prototype may leave it unnamed, with the empty name. -/
structure Parameter where
  name : String
  type : DataType
  passing : Passing
  semantic : Option String
deriving DecidableEq, Repr

def Parameter.display (p : Parameter) : String :=
  let mode :=
    match p.passing with
    | .input => ""
    | .output => "out "
    | .inputOutput => "inout "
  s!"{mode}{p.type.display} {p.name}"

/-- A function: its signature and the offset of its code. -/
structure Function where
  name : String
  returnType : DataType
  parameters : List Parameter
  returnSemantic : Option String
  address : Nat := 0
deriving DecidableEq, Repr

namespace Function

def display (f : Function) : String :=
  let parameters := String.intercalate ", " (f.parameters.map Parameter.display)
  s!"{f.returnType.display} {f.name}({parameters})"

/-- Whether two functions agree in name, return type and the types and passing of parameters, as a
prototype and its definition must. -/
def sameSignature (f g : Function) : Bool :=
  let shape (h : Function) := h.parameters.map fun p => (p.type, p.passing)
  f.name = g.name && f.returnType = g.returnType && shape f = shape g

end Function

/-- The variables that a stage provides. They take the first places among the globals. Stages of
HLSL provide none: values pass through semantics there. -/
def stageVariables : Dialect → Stage → List Variable
  | .hlsl, _ => []
  | .glsl, stage =>
    let input (name : String) (type : DataType) : Variable := { name, type, storage := some .input }
    let output (name : String) (type : DataType) : Variable :=
      { name, type, storage := some .output }
    match stage with
    | .vertex =>
      [output "gl_Position" (.floatVector 4), output "gl_PointSize" .float,
        input "gl_VertexID" .int, input "gl_InstanceID" .int]
    | .pixel =>
      [input "gl_FragCoord" (.floatVector 4), input "gl_FrontFacing" .bool,
        input "gl_PointCoord" (.floatVector 2), output "gl_FragColor" (.floatVector 4),
        output "gl_FragDepth" .float]
    | .geometry =>
      [input "gl_PrimitiveIDIn" .int, output "gl_Position" (.floatVector 4),
        output "gl_Layer" .int]
    | .compute =>
      [input "gl_GlobalInvocationID" (.vector .int 3),
        input "gl_LocalInvocationID" (.vector .int 3),
        input "gl_WorkGroupID" (.vector .int 3), input "gl_LocalInvocationIndex" .int]

end ShaderBytecode
