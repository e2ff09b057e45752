import ShaderBytecode.Number.Binary
import ShaderBytecode.Operator
import ShaderBytecode.Symbol
import ShaderBytecode.Text.Span

/-!
# Syntax trees

A tree holds names as they are written: types, variables and callees are resolved later. Every node
keeps the span it was read from.
-/

namespace ShaderBytecode.Ast

/-- An operator in front of its operand. -/
inductive UnaryOp where
  | negate
  | not
deriving DecidableEq, Repr

/-- An operator that changes its operand by one. -/
inductive StepOp where
  | preInc
  | preDec
  | postInc
  | postDec
deriving DecidableEq, Repr

/-- An expression. A call may turn out to be one of a function, of an intrinsic or of a
constructor, and a member may turn out to be a swizzle. -/
inductive Expr where
  | int (value : Nat) (span : Span)
  | float (value : Double) (span : Span)
  | bool (value : Bool) (span : Span)
  | name (name : String) (span : Span)
  | call (callee : String) (arguments : List Expr) (span : Span)
  | member (base : Expr) (member : String) (span : Span)
  | index (base index : Expr) (span : Span)
  | unary (op : UnaryOp) (operand : Expr) (span : Span)
  | binary (op : BinaryOp) (left right : Expr) (span : Span)
  | assign (op : Option ArithOp) (target value : Expr) (span : Span)
  | ternary (condition whenTrue whenFalse : Expr) (span : Span)
  | step (op : StepOp) (operand : Expr) (span : Span)
deriving Repr, Inhabited

def Expr.span : Expr → Span
  | int _ span | float _ span | bool _ span | name _ span | call _ _ span | member _ _ span
  | index _ _ span | unary _ _ span | binary _ _ _ span | assign _ _ _ span | ternary _ _ _ span
  | step _ _ span => span

/-- One name of a declaration list, as in `a[4] : TEXCOORD0 = …`. The span is the name's. -/
structure Declarator where
  name : String
  length : Option UInt32
  semantic : Option String
  initializer : Option Expr
  span : Span
deriving Repr

/-- A declaration of variables, global or local. -/
structure Variables where
  storage : Option Storage
  layout : List LayoutEntry
  type : Located String
  declarators : List Declarator
deriving Repr

/-- A member of a structure or of a constant buffer. -/
structure Member where
  type : Located String
  name : String
  length : Option UInt32
  semantic : Option String
  span : Span
deriving Repr

/-- A structure. The span is that of the keyword. -/
structure Structure where
  name : String
  members : List Member
  span : Span
deriving Repr

/-- A constant buffer. Its members are uniform globals. -/
structure Buffer where
  name : String
  register : Option String
  members : List Member
deriving Repr

/-- A parameter. Prototypes may leave it unnamed. -/
structure Parameter where
  passing : Passing
  isConst : Bool
  type : Located String
  name : Option String
  length : Option UInt32
  semantic : Option String
  span : Span
deriving Repr

/-- A statement that may also stand in the header of a `for` loop. -/
inductive Simple where
  | declare (declaration : Variables)
  | expr (value : Expr)
deriving Repr

/-- A statement. -/
inductive Statement where
  | block (body : List Statement) (span : Span)
  | simple (statement : Simple) (span : Span)
  | ifThen (condition : Expr) (body : Statement) (span : Span)
  | ifElse (condition : Expr) (whenTrue whenFalse : Statement) (span : Span)
  | forLoop (start : Option (Located Simple)) (condition step : Option Expr) (body : Statement)
      (span : Span)
  | whileLoop (condition : Expr) (body : Statement) (span : Span)
  | doLoop (body : Statement) (condition : Expr) (span : Span)
  | returnFrom (value : Option Expr) (span : Span)
  | breakLoop (span : Span)
  | continueLoop (span : Span)
  | discardPixel (span : Span)
  | empty (span : Span)
deriving Repr

/-- The statements between two braces. -/
structure Body where
  statements : List Statement
  span : Span
deriving Repr

/-- A function, or a prototype if it has no body. The span is the name's. -/
structure Function where
  returnType : Located String
  name : String
  parameters : List Parameter
  returnSemantic : Option String
  body : Option Body
  span : Span
deriving Repr

/-- A declaration of the outermost level. -/
inductive Declaration where
  | struct (declaration : Structure)
  | declare (declaration : Variables)
  | buffer (declaration : Buffer)
  | function (declaration : Function)
deriving Repr

end ShaderBytecode.Ast
