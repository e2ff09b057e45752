import ShaderBytecode.Typing.Env

/-!
# Types of operators and intrinsics

The rules that find the type of an operation from the types of its operands, and the conversions
they insert.
-/

namespace ShaderBytecode

open Typed (Expr)

/-- The code of the float type of the same shape as an integer type. -/
def DataType.floatCode : DataType → TypeCode
  | .vector _ size => .vector .float size
  | _ => .scalar .float

def Typed.Expr.toFloat (e : Expr) : Expr :=
  .construct e.type.toFloatBased e.type.floatCode [e]

/-- The product of a matrix with a matrix or a vector whose inner dimensions agree. -/
def productType? : DataType → DataType → Option DataType
  | .matrix columns rows, .vector .float size =>
    if size = columns then some (.floatVector rows) else none
  | .vector .float size, .matrix columns rows =>
    if size = rows then some (.floatVector columns) else none
  | .matrix columns rows, .matrix columns' rows' =>
    if columns = rows' then some (.matrix columns' rows) else none
  | _, _ => none

/-- Whether a dialect has the remainder of values of these types. -/
def Dialect.hasRemainder (d : Dialect) (left right : DataType) : Bool :=
  match d with
  | .glsl => left.scalarKind? = some .int
  | .hlsl => !left.isMatrix && !right.isMatrix

/-- The type of a componentwise operation: on equal types, or with a scalar on one side. -/
def componentwiseType? (left right : DataType) : Option DataType :=
  if left = right then some left
  else if left.isScalar then some right
  else if right.isScalar then some left
  else none

/-- The type of an arithmetic operation, if its operands combine. -/
def arithType? (d : Dialect) (op : ArithOp) (left right : DataType) : Option DataType :=
  if !left.isNumeric || !right.isNumeric || left.scalarKind? ≠ right.scalarKind? then none
  else
    match op with
    | .mod => if d.hasRemainder left right then componentwiseType? left right else none
    | .mul => productType? left right <|> componentwiseType? left right
    | _ => componentwiseType? left right

def comparable (op : CompareOp) (left right : DataType) : Bool :=
  if op.isEquality then
    match left with
    | .void | .sampler2D | .array _ _ => false
    | _ => left = right
  else
    match left with
    | .scalar .int | .scalar .float => left = right
    | _ => false

def elementType? : DataType → Option DataType
  | .array element _ => some element
  | .vector kind _ => some (.scalar kind)
  | .matrix _ rows => some (.floatVector rows)
  | _ => none

def elementCount? : DataType → Option Nat
  | .array _ length => some length.toNat
  | .vector _ size => some size.toNat
  | .matrix columns _ => some columns.toNat
  | _ => none

namespace Env

variable (env : Env)

/-- The expression as one of type `target`, promoted if need be. -/
def coerce (e : Located Expr) (target : DataType) (purpose : Purpose) : Check Expr :=
  if e.value.type = target then .ok e.value
  else if e.value.type.convertsTo target env.context.promote then .ok e.value.toFloat
  else .fail e.span (.mismatch purpose target e.value.type)

/-- Converts the integer side of an operation whose other side has floats. -/
def promoteOperands (left right : Expr) : Expr × Expr :=
  if !env.context.promote then (left, right)
  else if left.type.isIntBased && right.type.hasFloats then (left.toFloat, right)
  else if right.type.isIntBased && left.type.hasFloats then (left, right.toFloat)
  else (left, right)

def condition (e : Located Expr) : Check Expr :=
  if e.value.type.isBool then .ok e.value
  else .fail e.span (.conditionType e.value.type)

def binary (op : BinaryOp) (left right : Expr) (span : Span) : Check Expr :=
  match op with
  | .logic op =>
    if left.type.isBool && right.type.isBool then .ok (.logic op left right)
    else .fail span (.binaryOperands (.logic op) left.type right.type)
  | .compare op =>
    let (left, right) := env.promoteOperands left right
    if comparable op left.type right.type then .ok (.compare op left right)
    else .fail span (.binaryOperands (.compare op) left.type right.type)
  | .arith op =>
    let (left, right) := env.promoteOperands left right
    match arithType? env.context.dialect op left.type right.type with
    | some type => .ok (.arith op left right type)
    | none => .fail span (.binaryOperands (.arith op) left.type right.type)

/-- A unary operation on a typed operand. Negated literals are literals. -/
def unary (op : Ast.UnaryOp) (operand : Expr) (span : Span) : Check Expr :=
  match op with
  | .negate =>
    if operand.type.isNumeric then
      match operand with
      | .int value => .ok (.int (-value))
      | .float value => .ok (.float value.negate)
      | _ => .ok (.unary .negate operand)
    else .fail span (.unaryOperand .negate operand.type)
  | .not =>
    if operand.type.isBool then .ok (.unary .not operand)
    else .fail span (.unaryOperand .not operand.type)

def ternary (test whenTrue whenFalse : Expr) (span : Span) : Check Expr :=
  let (whenTrue, whenFalse) := env.promoteOperands whenTrue whenFalse
  if whenTrue.type = whenFalse.type then .ok (.ternary test whenTrue whenFalse)
  else .fail span (.ternaryBranches whenTrue.type whenFalse.type)

/-- The value that an assignment combines with or puts in the place of one of type `target`. -/
def assigned (op : Option ArithOp) (target : DataType) (e : Located Expr) (span : Span) :
    Check Expr :=
  match op with
  | none => env.coerce e target .assignment
  | some op =>
    let value :=
      if env.context.promote && e.value.type.isIntBased && target.hasFloats then e.value.toFloat
      else e.value
    if arithType? env.context.dialect op target value.type = some target then .ok value
    else .fail span (.compoundOperands op target value.type)

/-- An index into a value of a type. Literals have to be in range. -/
def indexValue (e : Located Expr) (base : DataType) : Check Expr :=
  if e.value.type ≠ .int then .fail e.span (.indexType e.value.type)
  else
    match e.value, elementCount? base with
    | .int value, some count =>
      if value.toInt < 0 || (count : Int) ≤ value.toInt then
        .fail e.span (.indexRange value base)
      else .ok e.value
    | _, _ => .ok e.value

def elementType (base : DataType) (span : Span) : Check DataType :=
  match elementType? base with
  | some type => .ok type
  | none => .fail span (.notIndexable base)

/-! ## Members -/

/-- The components of a swizzle on a value with `size` of them; `set` is the family of the letters
so far. -/
def swizzleLetters (base : DataType) (swizzle : String) (size : UInt8) (span : Span) :
    (set : Option SwizzleSet) → List Char → Check (List UInt8)
  | _, [] => .ok []
  | set, letter :: rest =>
    match env.context.dialect.swizzleComponent? letter with
    | none => .fail span (.unknownLetter base swizzle)
    | some (component, letterSet) =>
      if set.any (· ≠ letterSet) then .fail span (.swizzleMixed swizzle)
      else if size ≤ component then .fail span (.swizzleRange letter base)
      else do
        let more ← swizzleLetters base swizzle size span (some letterSet) rest
        return component :: more

/-- The number of components that a swizzle can select from. -/
def swizzleSize? : DataType → Option UInt8
  | .scalar _ => some 1
  | .vector _ size => some size
  | _ => none

def swizzle (base : DataType) (swizzle : String) (span : Span) : Check (List UInt8) :=
  match swizzleSize? base with
  | none => .fail span (.noSwizzle base swizzle)
  | some size =>
    if swizzle.isEmpty || 4 < swizzle.length then .fail span (.swizzleLength swizzle)
    else env.swizzleLetters base swizzle size span none swizzle.toList

def swizzleType (base : DataType) (components : List UInt8) : DataType :=
  .withComponents (base.scalarKind?.getD .float) (.ofNat components.length)

def structMember (struct member : String) (span : Span) : Check (Nat × DataType) :=
  match (env.registry.struct? struct).bind (·.member? member) with
  | some (index, found) => .ok (index, found.type)
  | none => .fail span (.noMember struct member)

/-! ## Constructors -/

def argumentComponents (type : DataType) (argument : Located Expr) : Check Nat :=
  match argument.value.type.componentCount? with
  | some count => .ok count
  | none => .fail argument.span (.constructorArgument type argument.value.type)

/-- Whether one argument makes a whole value: a scalar fills it, and a matrix resizes into
another. -/
def fills (type : DataType) : List (Located Expr) → Bool
  | [only] => only.value.type.isScalar || (type.isMatrix && only.value.type.isMatrix)
  | _ => false

/-- Refuses arguments that do not make a value of `needed` components. A scalar takes one argument;
otherwise, unless one argument makes the value, the components must suffice, and the last argument
must be needed. -/
def checkComponents (type : DataType) (needed : Nat) (arguments : List (Located Expr))
    (counts : List Nat) (span : Span) : Check Unit :=
  if type.isScalar then
    if arguments.length = 1 then .ok () else .fail span (.scalarArguments type)
  else if fills type arguments then .ok ()
  else if counts.foldl Nat.add 0 < needed then
    .fail span (.tooFewComponents type needed (counts.foldl Nat.add 0))
  else if needed ≤ counts.dropLast.foldl Nat.add 0 then .fail span (.tooManyArguments type)
  else .ok ()

/-- A scalar, vector or matrix of `needed` components built from typed arguments. -/
def constructor (type : DataType) (needed : Nat) (arguments : List (Located Expr)) (span : Span) :
    Check Expr := do
  let counts ← arguments.mapM (argumentComponents type)
  checkComponents type needed arguments counts span
  let code ← env.code type
  return .construct type code (arguments.map (·.value))

/-! ## Intrinsics -/

/-- An argument that must have floats, promoted if need be. -/
def floatArgument (function : Intrinsic) (position : Nat) (e : Located Expr) : Check Expr :=
  let value := if env.context.promote && e.value.type.isIntBased then e.value.toFloat else e.value
  if value.type.isFloatScalarOrVector then .ok value
  else .fail e.span (.intrinsicFloat function position value.type)

/-- An argument that must be of a type, or also a plain float if that is allowed. -/
def matchingArgument (function : Intrinsic) (position : Nat) (like : DataType) (scalarToo : Bool)
    (e : Located Expr) : Check Expr := do
  let value ← env.floatArgument function position e
  if value.type = like || (scalarToo && value.type = .float) then return value
  else .fail e.span (.intrinsicMatch function position like value.type)

/-- The converted arguments of an intrinsic and the type of its result. -/
def intrinsicOperands (function : Intrinsic) (arguments : List (Located Expr)) (span : Span) :
    Check (List Expr × DataType) :=
  let float := env.floatArgument function
  let like := env.matchingArgument function
  match function.shape, arguments with
  | .void, _ => .ok ([], .void)
  | .unary, [a] => do
    let a ← float 0 a
    return ([a], a.type)
  | .length, [a] => do
    let a ← float 0 a
    return ([a], .float)
  | .binary, [a, b] => do
    let a ← float 0 a
    let b ← like 1 a.type false b
    return ([a, b], a.type)
  | .binaryScalarRight, [a, b] => do
    let a ← float 0 a
    let b ← like 1 a.type true b
    return ([a, b], a.type)
  | .dot, [a, b] => do
    let a ← float 0 a
    let b ← like 1 a.type false b
    return ([a, b], .float)
  | .cross, [first, b] => do
    let a ← float 0 first
    let b ← like 1 a.type false b
    if a.type = .floatVector 3 then return ([a, b], a.type)
    else .fail first.span (.crossOperand a.type)
  | .clamp, [a, b, c] => do
    let a ← float 0 a
    let b ← like 1 a.type true b
    let c ← like 2 a.type true c
    return ([a, b, c], a.type)
  | .mix, [a, b, c] => do
    let a ← float 0 a
    let b ← like 1 a.type false b
    let c ← like 2 a.type true c
    return ([a, b, c], a.type)
  | .refract, [a, b, c] => do
    let a ← float 0 a
    let b ← like 1 a.type false b
    let c ← like 2 .float false c
    return ([a, b, c], a.type)
  | .step, [edge, x] => do
    let x ← float 1 x
    let edge ← like 0 x.type true edge
    return ([edge, x], x.type)
  | .smoothstep, [low, high, x] => do
    let x ← float 2 x
    let low ← like 0 x.type true low
    let high ← like 1 x.type true high
    return ([low, high, x], x.type)
  | .texture, [sampler, coordinates] => do
    if sampler.value.type ≠ .sampler2D then
      .fail sampler.span (.textureSampler sampler.value.type)
    let coordinates ← env.coerce coordinates (.floatVector 2) .textureCoordinates
    return ([sampler.value, coordinates], .floatVector 4)
  | .matrixMultiply, [a, b] =>
    let (a, b) := env.promoteOperands a.value b.value
    match arithType? env.context.dialect .mul a.type b.type with
    | some type => .ok ([a, b], type)
    | none => .fail span (.productOperands a.type b.type)
  | _, _ => .fail {} (.argumentMissing function)

def intrinsic (function : Intrinsic) (arguments : List (Located Expr)) (span : Span) :
    Check Expr := do
  let (arguments, type) ← env.intrinsicOperands function arguments span
  return .intrinsic function arguments type

end Env

end ShaderBytecode
