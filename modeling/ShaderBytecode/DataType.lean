/-!
# Data types

The types of values in a shader. A matrix always holds floats and is given by columns and rows,
however a dialect spells it.
-/

namespace ShaderBytecode

/-- The kind of a single component. -/
inductive ScalarKind where
  | bool
  | int
  | float
deriving DecidableEq, Repr, Inhabited

def ScalarKind.name : ScalarKind → String
  | bool => "bool"
  | int => "int"
  | float => "float"

/-- The type of a value. Structures are named. -/
inductive DataType where
  | void
  | scalar (kind : ScalarKind)
  | vector (kind : ScalarKind) (size : UInt8)
  | matrix (columns rows : UInt8)
  | sampler2D
  | struct (name : String)
  | array (element : DataType) (length : UInt32)
deriving DecidableEq, Repr, Inhabited

namespace DataType

def bool : DataType := scalar .bool

def int : DataType := scalar .int

def float : DataType := scalar .float

/-- The scalar or vector with `size` components of a kind. -/
def withComponents (kind : ScalarKind) (size : UInt8) : DataType :=
  if size = 1 then scalar kind else vector kind size

def floatVector (size : UInt8) : DataType :=
  withComponents .float size

/-- The kind of the components of a scalar, vector or matrix. -/
def scalarKind? : DataType → Option ScalarKind
  | scalar kind => some kind
  | vector kind _ => some kind
  | matrix _ _ => some .float
  | _ => none

/-- The number of components of a scalar, vector or matrix. -/
def componentCount? : DataType → Option Nat
  | scalar _ => some 1
  | vector _ size => some size.toNat
  | matrix columns rows => some (columns.toNat * rows.toNat)
  | _ => none

def isVoid : DataType → Bool
  | void => true
  | _ => false

def isScalar : DataType → Bool
  | scalar _ => true
  | _ => false

def isMatrix : DataType → Bool
  | matrix _ _ => true
  | _ => false

def isBool : DataType → Bool
  | scalar .bool => true
  | _ => false

def isNumeric (t : DataType) : Bool :=
  match t.scalarKind? with
  | some .int | some .float => true
  | _ => false

def hasFloats (t : DataType) : Bool :=
  t.scalarKind? = some .float

def isIntBased : DataType → Bool
  | scalar .int => true
  | vector .int _ => true
  | _ => false

def isFloatScalarOrVector : DataType → Bool
  | scalar .float => true
  | vector .float _ => true
  | _ => false

/-- Whether a constructor call can build a value of this type. -/
def isConstructible : DataType → Bool
  | scalar _ => true
  | vector _ _ => true
  | matrix _ _ => true
  | _ => false

def toFloatBased : DataType → DataType
  | scalar .int => float
  | vector .int size => vector .float size
  | other => other

/-- Whether a value of this type can stand where `target` is expected: the types are equal, or
integers are promoted to floats and that is allowed. -/
def convertsTo (source target : DataType) (promote : Bool) : Bool :=
  source = target || (promote && source.isIntBased && source.toFloatBased = target)

def display : DataType → String
  | void => "void"
  | scalar kind => kind.name
  | vector .float size => s!"vec{size}"
  | vector .int size => s!"ivec{size}"
  | vector .bool size => s!"bvec{size}"
  | matrix columns rows => if columns = rows then s!"mat{columns}" else s!"mat{columns}x{rows}"
  | sampler2D => "sampler2D"
  | struct name => name
  | array element length => s!"{element.display}[{length}]"

end DataType

/-- A type as an instruction carries it: structures are indices into the registry. -/
inductive TypeCode where
  | void
  | scalar (kind : ScalarKind)
  | vector (kind : ScalarKind) (size : UInt8)
  | matrix (columns rows : UInt8)
  | sampler2D
  | struct (index : UInt32)
  | array (element : TypeCode) (length : UInt32)
deriving DecidableEq, Repr, Inhabited

namespace TypeCode

def display : TypeCode → String
  | void => "void"
  | scalar kind => kind.name
  | vector kind size => s!"{kind.name}{size}"
  | matrix columns rows => s!"float{columns}x{rows}"
  | sampler2D => "sampler2D"
  | struct index => s!"struct#{index}"
  | array element length => s!"{element.display}[{length}]"

end TypeCode

/-- The code of a type; `structIndex?` gives the registry index of a structure's name. There is none
if a structure has no index. -/
def DataType.code? (structIndex? : String → Option UInt32) : DataType → Option TypeCode
  | .void => some .void
  | .scalar kind => some (.scalar kind)
  | .vector kind size => some (.vector kind size)
  | .matrix columns rows => some (.matrix columns rows)
  | .sampler2D => some .sampler2D
  | .struct name => (structIndex? name).map .struct
  | .array element length => (element.code? structIndex?).map (.array · length)

end ShaderBytecode
