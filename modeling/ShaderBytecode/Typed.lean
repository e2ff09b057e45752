import ShaderBytecode.Ast
import ShaderBytecode.Intrinsic

/-!
# Typed trees

Names are resolved to slots and registry places, conversions are explicit, and every type that code
must carry is there with its code, so emission looks nothing up.
-/

namespace ShaderBytecode.Typed

mutual

/-- A typed expression. `construct` builds a value of a type from its arguments; without arguments
it is the zero value, and with one of another type it is a conversion. -/
inductive Expr where
  | int (value : Int32)
  | float (value : Single)
  | bool (value : Bool)
  | localVar (slot : Nat) (type : DataType)
  | globalVar (index : Nat) (type : DataType)
  | member (base : Expr) (index : Nat) (type : DataType)
  | swizzle (base : Expr) (components : List UInt8) (type : DataType)
  | index (base index : Expr) (type : DataType)
  | unary (op : Ast.UnaryOp) (operand : Expr)
  | arith (op : ArithOp) (left right : Expr) (type : DataType)
  | compare (op : CompareOp) (left right : Expr)
  | logic (op : LogicOp) (left right : Expr)
  | ternary (condition whenTrue whenFalse : Expr)
  | assign (op : Option ArithOp) (target : Place) (value : Expr)
  | step (op : Ast.StepOp) (target : Place)
  | call (function : Located Nat) (arguments : List Argument) (type : DataType)
  | intrinsic (function : Intrinsic) (arguments : List Expr) (type : DataType)
  | construct (type : DataType) (code : TypeCode) (arguments : List Expr)

/-- An assignable place: a variable, or a part of a place. -/
inductive Place where
  | localVar (slot : Nat) (type : DataType)
  | globalVar (index : Nat) (type : DataType)
  | member (base : Place) (index : Nat) (type : DataType)
  | swizzle (base : Place) (components : List UInt8) (type : DataType)
  | index (base : Place) (index : Expr) (type : DataType)

/-- An argument of a function: a value, or a place that the function writes to. -/
inductive Argument where
  | value (value : Expr)
  | reference (place : Place)

end

deriving instance Repr for Expr, Place, Argument

instance : Inhabited Expr := ⟨.bool false⟩

def Place.type : Place → DataType
  | localVar _ type | globalVar _ type | member _ _ type | swizzle _ _ type | index _ _ type => type

def Expr.type : Expr → DataType
  | int _ => .int
  | float _ => .float
  | bool _ => .bool
  | localVar _ type | globalVar _ type | member _ _ type | swizzle _ _ type | index _ _ type
  | arith _ _ _ type | call _ _ type | intrinsic _ _ type | construct type _ _ => type
  | unary _ operand => operand.type
  | compare _ _ _ | logic _ _ _ => .bool
  | ternary _ whenTrue _ => whenTrue.type
  | assign _ target _ | step _ target => target.type

/-- How a loop's body is left before its end. -/
inductive Leave where
  | breakLoop
  | continueLoop
deriving DecidableEq, Repr

/-- A typed statement, with the source line that a marker names. A `for` loop is a block with its
start and a loop; a loop without a condition runs until it is left. -/
inductive Statement where
  | expr (value : Expr) (line : Nat)
  | declare (slot : Nat) (value : Expr) (line : Nat)
  | ifElse (condition : Expr) (whenTrue whenFalse : List Statement) (line : Nat)
  | loop (condition step : Option Expr) (body : List Statement) (line : Nat)
  | doLoop (body : List Statement) (condition : Expr) (line : Nat)
  | returnFrom (value : Option Expr) (line : Nat)
  | leave (kind : Leave) (line : Nat)
  | discardPixel (line : Nat)
  | block (body : List Statement)
deriving Repr

/-- Something that a tree refers to. -/
inductive Mention where
  | slot (slot : Nat)
  | global (index : Nat)
  | call (function : Located Nat)
deriving DecidableEq, Repr

mutual

/-- What an expression refers to, in the order in which it was typed: operands from left to right,
the arguments of a call before the call. -/
def Expr.mentions : Expr → List Mention
  | .int _ | .float _ | .bool _ => []
  | .localVar slot _ => [.slot slot]
  | .globalVar index _ => [.global index]
  | .member base _ _ | .swizzle base _ _ => base.mentions
  | .index base index _ => base.mentions ++ index.mentions
  | .unary _ operand => operand.mentions
  | .arith _ left right _ | .compare _ left right | .logic _ left right =>
    left.mentions ++ right.mentions
  | .ternary condition whenTrue whenFalse =>
    condition.mentions ++ whenTrue.mentions ++ whenFalse.mentions
  | .assign _ target value => target.mentions ++ value.mentions
  | .step _ target => target.mentions
  | .call function arguments _ => Argument.mentionsAll arguments ++ [.call function]
  | .intrinsic _ arguments _ | .construct _ _ arguments => Expr.mentionsAll arguments

def Place.mentions : Place → List Mention
  | .localVar slot _ => [.slot slot]
  | .globalVar index _ => [.global index]
  | .member base _ _ | .swizzle base _ _ => base.mentions
  | .index base index _ => base.mentions ++ index.mentions

def Argument.mentions : Argument → List Mention
  | .value value => value.mentions
  | .reference place => place.mentions

def Expr.mentionsAll : List Expr → List Mention
  | [] => []
  | first :: rest => first.mentions ++ Expr.mentionsAll rest

def Argument.mentionsAll : List Argument → List Mention
  | [] => []
  | first :: rest => first.mentions ++ Argument.mentionsAll rest

end

def Expr.optionMentions (value : Option Expr) : List Mention :=
  (value.map Expr.mentions).getD []

mutual

/-- What a statement refers to. The header of a loop comes before its body, except that the
condition of a `do` loop comes last. Declaring a local does not refer to it. -/
def Statement.mentions : Statement → List Mention
  | .expr value _ | .declare _ value _ => value.mentions
  | .ifElse condition whenTrue whenFalse _ =>
    condition.mentions ++ Statement.mentionsAll whenTrue ++ Statement.mentionsAll whenFalse
  | .loop condition step body _ =>
    Expr.optionMentions condition ++ Expr.optionMentions step ++ Statement.mentionsAll body
  | .doLoop body condition _ => Statement.mentionsAll body ++ condition.mentions
  | .returnFrom value _ => Expr.optionMentions value
  | .leave _ _ | .discardPixel _ => []
  | .block body => Statement.mentionsAll body

def Statement.mentionsAll : List Statement → List Mention
  | [] => []
  | first :: rest => first.mentions ++ Statement.mentionsAll rest

end

def Mention.calls (mentions : List Mention) : List (Located Nat) :=
  mentions.filterMap fun
    | .call function => some function
    | _ => none

mutual

/-- Whether a statement cannot be left at its end. Loops never count: their body might not run. -/
def Statement.returns : Statement → Bool
  | .returnFrom _ _ | .discardPixel _ => true
  | .ifElse _ whenTrue whenFalse _ => definitelyReturns whenTrue && definitelyReturns whenFalse
  | .block body => definitelyReturns body
  | _ => false

/-- Whether the last of some statements cannot be left at its end. -/
def definitelyReturns : List Statement → Bool
  | [] => false
  | [last] => last.returns
  | _ :: next :: rest => definitelyReturns (next :: rest)

end

/-- The body of a function: the names of its locals in the order of their slots, behind those of the
parameters, and what a function with a result returns at its end. -/
structure Definition where
  locals : List String
  body : List Statement
  zero : Option Expr
deriving Repr

/-- A function, defined or only declared so far. -/
structure Function where
  signature : ShaderBytecode.Function
  definition : Option Definition
  span : Span
deriving Repr

/-- A global variable with its start value and the line that declares it. -/
structure Global where
  symbol : ShaderBytecode.Variable
  initializer : Option Expr
  line : Nat
deriving Repr

/-- The registries of a source: what its declarations so far have declared. The variables of the
stage take the first places among the globals. -/
structure Registry where
  builtins : List Variable := []
  globals : List Global := []
  structures : List Structure := []
  functions : List Function := []
deriving Repr

end ShaderBytecode.Typed
