import ShaderBytecode.Typed
import ShaderBytecode.Typing.Fault

/-!
# Environments

What names mean at a place of a source: the registries of the declarations before it and the scopes
around it.
-/

namespace ShaderBytecode

open Typed (Registry)

/-- What is fixed for a whole source: the dialect, the stage, and whether integers are promoted to
floats where floats are expected. -/
structure Context where
  dialect : Dialect
  stage : Stage
  promote : Bool
deriving DecidableEq, Repr

/-- A parameter or local in sight. -/
structure Binding where
  name : String
  slot : Nat
  type : DataType
  isConst : Bool
deriving DecidableEq, Repr

abbrev Scopes := List (List Binding)

namespace Scopes

def find? (scopes : Scopes) (name : String) : Option Binding :=
  scopes.findSome? fun scope => List.find? (·.name = name) scope

def declares (scope : List Binding) (name : String) : Bool :=
  scope.any (·.name = name)

/-- Whether a name can no longer be declared in the innermost scope. The outermost block of a
function and the scope of its parameters count as one. -/
def isTaken (scopes : Scopes) (name : String) : Bool :=
  match scopes with
  | [] => false
  | [body, parameters] => declares body name || declares parameters name
  | inner :: _ => declares inner name

def bind (scopes : Scopes) (binding : Binding) : Scopes :=
  match scopes with
  | [] => []
  | inner :: outer => (binding :: inner) :: outer

end Scopes

namespace Typed.Registry

def allGlobals (r : Registry) : List Variable :=
  r.builtins ++ r.globals.map (·.symbol)

def global? (r : Registry) (name : String) : Option (Nat × Variable) := do
  let index ← r.allGlobals.findIdx? (·.name = name)
  let found ← r.allGlobals[index]?
  return (index, found)

def struct? (r : Registry) (name : String) : Option Structure :=
  r.structures.find? (·.name = name)

def structIndex? (r : Registry) (name : String) : Option UInt32 :=
  (r.structures.findIdx? (·.name = name)).map .ofNat

def function? (r : Registry) (name : String) : Option (Nat × Typed.Function) := do
  let index ← r.functions.findIdx? (·.signature.name = name)
  let found ← r.functions[index]?
  return (index, found)

def nameUse? (r : Registry) (name : String) : Option NameUse :=
  if (r.struct? name).isSome then some .struct
  else if (r.global? name).isSome then some .global
  else if (r.function? name).isSome then some .function
  else none

end Typed.Registry

/-- Whether a global variable is read only: constants and inputs are, and so are the uniforms, which
in HLSL are all globals without a qualifier. -/
def Variable.isReadOnly (v : Variable) (c : Context) : Bool :=
  match v.storage with
  | some .const | some .uniform | some .input | some .vertexAttribute => true
  | some .varying => c.stage = .pixel
  | some .output | some .static | some .groupShared => false
  | none => c.dialect = .hlsl

/-- All that typing an expression depends on. -/
structure Env where
  context : Context
  registry : Registry
  scopes : Scopes := []

abbrev Check := Except (Located TypingFault)

def Check.fail {α : Type} (span : Span) (fault : TypingFault) : Check α :=
  .error ⟨fault, span⟩

namespace Env

def code (env : Env) (type : DataType) : Check TypeCode :=
  match type.code? env.registry.structIndex? with
  | some code => .ok code
  | none => .fail {} (.typeCodeMissing type)

def namedType (env : Env) (name : Located String) : Check DataType :=
  match env.context.dialect.builtinType? name.value with
  | some type => .ok type
  | none =>
    if (env.registry.struct? name.value).isSome then .ok (.struct name.value)
    else .fail name.span (.unknownType name.value)

/-- The type of arrays of an element if there is a length, and else the type of the element. -/
def arrayOf (element : DataType) (length : Option UInt32) (span : Span) : Check DataType :=
  match length with
  | none => .ok element
  | some length => if element.isVoid then .fail span .voidArray else .ok (.array element length)

/-- The type that a name and an optional array length stand for. -/
def resolveType (env : Env) (name : Located String) (length : Option UInt32) : Check DataType := do
  let element ← env.namedType name
  arrayOf element length name.span

def resolveValueType (env : Env) (name : Located String) (length : Option UInt32)
    (holder : Holder) : Check DataType := do
  let type ← env.resolveType name length
  if type.isVoid then .fail name.span (.voidValue holder)
  else return type

end Env

end ShaderBytecode
