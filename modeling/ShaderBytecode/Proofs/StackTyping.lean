import ShaderBytecode.Listing
import ShaderBytecode.Typing.Expression

/-!
# Stack typing

The rules of the stack machine's instructions on the types of what stands on the stack. A rule is
a function: it gives the types after an instruction, or nothing where the instruction is illegal.
-/

namespace ShaderBytecode

/-- An entry of the stack: a value, or a reference to a place that holds one. -/
inductive StackEntry where
  | value (type : DataType)
  | reference (type : DataType)
deriving DecidableEq, Repr

abbrev StackType := List StackEntry

/-- What a call of a function takes and what it leaves. -/
structure CallShape where
  parameters : List (DataType × Passing)
  result : DataType
deriving DecidableEq, Repr

def Function.callShape (f : Function) : CallShape :=
  ⟨f.parameters.map fun p => (p.type, p.passing), f.returnType⟩

def Passing.entry (passing : Passing) (type : DataType) : StackEntry :=
  if passing.byReference then .reference type else .value type

/-- What a call takes from the stack, in the order in which it is pushed. -/
def CallShape.entries (shape : CallShape) : StackType :=
  shape.parameters.map fun (type, passing) => passing.entry type

/-- What the code of a routine can refer to: the registries of its program, its own locals behind
its parameters, and the type it returns. -/
structure CodeContext where
  dialect : Dialect
  structures : List Structure
  globals : List DataType
  functions : List CallShape
  locals : List DataType := []
  result : DataType := .void
deriving Repr

/-- The stack behind the result of a type. Nothing is pushed for `void`. -/
def DataType.onto (type : DataType) (s : StackType) : StackType :=
  if type.isVoid then s else .value type :: s

def TypeCode.type? (structures : List Structure) : TypeCode → Option DataType
  | .void => some .void
  | .scalar kind => some (.scalar kind)
  | .vector kind size => some (.vector kind size)
  | .matrix columns rows => some (.matrix columns rows)
  | .sampler2D => some .sampler2D
  | .struct index => structures[index.toNat]?.map fun s => .struct s.name
  | .array element length => (element.type? structures).map (.array · length)

/-- The type of so many components of a value: one to four of those that the value has. -/
def swizzled? (type : DataType) (components : List UInt8) : Option DataType :=
  match Env.swizzleSize? type with
  | some size =>
    if 1 ≤ components.length ∧ components.length ≤ 4
        ∧ components.all fun c => c < size && c ≤ 3 then
      some (Env.swizzleType type components)
    else none
  | none => none

/-- Whether values with so many components each make one of `needed`, one of which must be needed
last. -/
def componentsSuffice (needed : Nat) (counts : List Nat) : Bool :=
  needed ≤ counts.foldl Nat.add 0 && counts.dropLast.foldl Nat.add 0 < needed

/-- Whether a scalar, vector or matrix can be built from values: one of the same number of
components, a scalar that fills it, a matrix that resizes into a matrix, or enough components. -/
def builtFrom (type : DataType) (needed : Nat) (arguments : List DataType) : Bool :=
  arguments.all (·.componentCount?.isSome) &&
    match arguments with
    | [only] =>
      only.componentCount? = some needed || only.isScalar || type.isScalar
        || (type.isMatrix && only.isMatrix)
        || componentsSuffice needed (arguments.filterMap (·.componentCount?))
    | _ => !type.isScalar && componentsSuffice needed (arguments.filterMap (·.componentCount?))

namespace Intrinsic

/-- The result of an intrinsic of a shape on arguments of types. -/
def Shape.result? (d : Dialect) : Shape → List DataType → Option DataType
  | .void, [] => some .void
  | .unary, [a] => if a.isFloatScalarOrVector then some a else none
  | .length, [a] => if a.isFloatScalarOrVector then some .float else none
  | .binary, [a, b] => if a.isFloatScalarOrVector && b = a then some a else none
  | .binaryScalarRight, [a, b] =>
    if a.isFloatScalarOrVector && (b = a || b = .float) then some a else none
  | .dot, [a, b] => if a.isFloatScalarOrVector && b = a then some .float else none
  | .cross, [a, b] => if a = .floatVector 3 && b = a then some a else none
  | .clamp, [a, b, c] =>
    if a.isFloatScalarOrVector && (b = a || b = .float) && (c = a || c = .float) then some a
    else none
  | .mix, [a, b, c] =>
    if a.isFloatScalarOrVector && b = a && (c = a || c = .float) then some a else none
  | .refract, [a, b, c] =>
    if a.isFloatScalarOrVector && b = a && c = .float then some a else none
  | .step, [edge, x] =>
    if x.isFloatScalarOrVector && (edge = x || edge = .float) then some x else none
  | .smoothstep, [low, high, x] =>
    if x.isFloatScalarOrVector && (low = x || low = .float) && (high = x || high = .float) then
      some x
    else none
  | .texture, [sampler, coordinates] =>
    if sampler = .sampler2D && coordinates = .floatVector 2 then some (.floatVector 4) else none
  | .matrixMultiply, [a, b] => arithType? d .mul a b
  | _, _ => none

end Intrinsic

namespace CodeContext

variable (c : CodeContext)

def struct? (name : String) : Option Structure :=
  c.structures.find? (·.name = name)

def memberType? (type : DataType) (index : Nat) : Option DataType :=
  match type with
  | .struct name => do
    let struct ← c.struct? name
    let found ← struct.members[index]?
    return found.type
  | _ => none

/-- Whether a value of a type can be constructed from values. None are needed for the zero value,
and a structure takes one of the type of each member. -/
def constructs (type : DataType) (arguments : List DataType) : Bool :=
  match arguments with
  | [] => !type.isVoid
  | _ =>
    match type with
    | .struct name => (c.struct? name).any fun s => s.members.map (·.type) = arguments
    | _ => type.componentCount?.any fun needed => builtFrom type needed arguments

end CodeContext

/-! ## Effects -/

/-- Takes values from the stack and gives their types in the order in which they were pushed. -/
def takeValues? : (count : Nat) → StackType → Option (List DataType × StackType)
  | 0, s => some ([], s)
  | count + 1, .value type :: s =>
    (takeValues? count s).map fun (types, rest) => (types ++ [type], rest)
  | _ + 1, _ => none

/-- Takes certain entries, given in the order in which they were pushed, from the stack. -/
def takeEntries? (expected s : StackType) : Option StackType :=
  if expected.reverse.isPrefixOf s then some (s.drop expected.length) else none

/-- The stack after an operation without operands that takes two values. -/
def binaryEffect? (result? : (left right : DataType) → Option DataType) :
    StackType → Option StackType
  | .value right :: .value left :: s => (result? left right).map (.value · :: s)
  | _ => none

def ArithOp.effect? (op : ArithOp) (d : Dialect) : StackType → Option StackType :=
  binaryEffect? (arithType? d op)

def CompareOp.effect? (op : CompareOp) : StackType → Option StackType :=
  binaryEffect? fun left right => if comparable op left right then some .bool else none

def stepEffect? : StackType → Option StackType
  | .reference type :: s => if type.isNumeric then some (.value type :: s) else none
  | _ => none

/-- The stack after an operation without operands. A return takes all that is on the stack. -/
def SimpleOp.effect? (c : CodeContext) : SimpleOp → StackType → Option StackType
  | .nop, s => some s
  | .pop, .value _ :: s => some s
  | .dup, entry :: s => some (entry :: entry :: s)
  | .refIndex, .value place :: .reference base :: s =>
    if place = .int then (elementType? base).map (.reference · :: s) else none
  | .index, .value place :: .value base :: s =>
    if place = .int then (elementType? base).map (.value · :: s) else none
  | .load, .reference type :: s => some (.value type :: s)
  | .store, .value type :: .reference target :: s =>
    if type = target then some (.value type :: s) else none
  | .add, s => ArithOp.add.effect? c.dialect s
  | .sub, s => ArithOp.sub.effect? c.dialect s
  | .mul, s => ArithOp.mul.effect? c.dialect s
  | .div, s => ArithOp.div.effect? c.dialect s
  | .mod, s => ArithOp.mod.effect? c.dialect s
  | .neg, .value type :: s => if type.isNumeric then some (.value type :: s) else none
  | .not, .value type :: s => if type = .bool then some (.value .bool :: s) else none
  | .eq, s => CompareOp.eq.effect? s
  | .ne, s => CompareOp.ne.effect? s
  | .lt, s => CompareOp.lt.effect? s
  | .gt, s => CompareOp.gt.effect? s
  | .le, s => CompareOp.le.effect? s
  | .ge, s => CompareOp.ge.effect? s
  | .preInc, s | .preDec, s | .postInc, s | .postDec, s => stepEffect? s
  | .ret, [] => if c.result.isVoid then some [] else none
  | .retValue, [.value type] => if !type.isVoid && type = c.result then some [] else none
  | .discard, s => some s
  | _, _ => none

def writeEffect? (holds? : Option DataType) : StackType → Option StackType
  | .value type :: s => if holds? = some type then some s else none
  | _ => none

def IndexedOp.effect? (c : CodeContext) (index : Nat) : IndexedOp → StackType → Option StackType
  | .line, s => some s
  | .getLocal, s => c.locals[index]?.map (.value · :: s)
  | .setLocal, s => writeEffect? c.locals[index]? s
  | .getGlobal, s => c.globals[index]?.map (.value · :: s)
  | .setGlobal, s => writeEffect? c.globals[index]? s
  | .refLocal, s => c.locals[index]?.map (.reference · :: s)
  | .refGlobal, s => c.globals[index]?.map (.reference · :: s)
  | .refMember, .reference base :: s => (c.memberType? base index).map (.reference · :: s)
  | .getMember, .value base :: s => (c.memberType? base index).map (.value · :: s)
  | _, _ => none

/-- The stack after a selection of components. One that is written to repeats none. -/
def SelectOp.effect? (components : List UInt8) : SelectOp → StackType → Option StackType
  | .swizzle, .value base :: s => (swizzled? base components).map (.value · :: s)
  | .refSwizzle, .reference base :: s =>
    if Env.hasRepeats components then none else (swizzled? base components).map (.reference · :: s)
  | _, _ => none

def JumpWhen.effect? : JumpWhen → StackType → Option StackType
  | .always, s => some s
  | _, .value type :: s => if type = .bool then some s else none
  | _, _ => none

def constructEffect? (c : CodeContext) (code : TypeCode) (count : Nat) (s : StackType) :
    Option StackType := do
  let type ← code.type? c.structures
  let (arguments, rest) ← takeValues? count s
  if c.constructs type arguments then some (.value type :: rest) else none

def CallKind.effect? (c : CodeContext) (callee : UInt32) (count : Nat) :
    CallKind → StackType → Option StackType
  | .function, s => do
    let shape ← c.functions[callee.toNat]?
    let rest ← takeEntries? shape.entries s
    if count = shape.parameters.length then some (shape.result.onto rest) else none
  | .intrinsic, s => do
    let function ← Intrinsic.ofId? callee
    let (arguments, rest) ← takeValues? count s
    let type ← function.shape.result? c.dialect arguments
    if count = function.arity then some (type.onto rest) else none

namespace Instruction

/-- The stack after an instruction, if the instruction is legal on the stack before it. -/
def effect? (c : CodeContext) : Instruction → StackType → Option StackType
  | simple op, s => op.effect? c s
  | indexed op index, s => op.effect? c index.toNat s
  | pushInt _, s => some (.value .int :: s)
  | pushFloat _, s => some (.value .float :: s)
  | pushBool _, s => some (.value .bool :: s)
  | select op components, s => op.effect? components s
  | construct code count, s => constructEffect? c code count.toNat s
  | jump condition _, s => condition.effect? s
  | call kind callee count, s => kind.effect? c callee count.toNat s

def isFinal : Instruction → Bool
  | simple .ret | simple .retValue | simple .discard => true
  | _ => false

end Instruction

def Entry.successors (e : Entry) : List Nat :=
  match e.instruction with
  | .jump .always target => [target.toNat]
  | .jump _ target => [target.toNat, e.offset + e.instruction.size]
  | i => if i.isFinal then [] else [e.offset + i.size]

/-- Stack types, one for each offset, agree with an instruction: it is legal on the stack before
it, and the stack after it is the one of every place where control can go. -/
def CodeContext.Accepts (c : CodeContext) (types : Nat → StackType) (e : Entry) : Prop :=
  ∃ after, e.instruction.effect? c (types e.offset) = some after
    ∧ ∀ next ∈ e.successors, types next = after

end ShaderBytecode
