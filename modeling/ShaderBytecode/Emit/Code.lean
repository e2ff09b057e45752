import ShaderBytecode.Emit.Item

/-!
# The code of typed trees

An expression leaves its value on the stack, a place read as a reference leaves a reference, and a
statement leaves nothing.

| form | code |
| --- | --- |
| `a && b` | a, dup, jump.false over (pop, b) |
| `c ? a : b` | c, a or b |
| `x = v` | v, dup, set |
| `x op= v` | get, v, op, dup, set |
| `x.m = v` | reference, v, store |
| `x.m op= v` | reference, dup, load, v, op, store |
| `if` | condition, one branch or the other |
| `for`, `while` | test and exit, body, step, back |
| `do` | body, test, back |
-/

namespace ShaderBytecode

def ArithOp.operation : ArithOp → SimpleOp
  | add => .add
  | sub => .sub
  | mul => .mul
  | div => .div
  | mod => .mod

def CompareOp.operation : CompareOp → SimpleOp
  | eq => .eq
  | ne => .ne
  | lt => .lt
  | gt => .gt
  | le => .le
  | ge => .ge

def LogicOp.decides : LogicOp → JumpWhen
  | and => .ifFalse
  | or => .ifTrue

def Ast.UnaryOp.operation : Ast.UnaryOp → SimpleOp
  | negate => .neg
  | not => .not

def Ast.StepOp.operation : Ast.StepOp → SimpleOp
  | preInc => .preInc
  | preDec => .preDec
  | postInc => .postInc
  | postDec => .postDec

namespace Typed

/-- The reading and the writing of a place that is a whole variable. -/
def Place.access? : Place → Option (Item × Item)
  | .localVar slot _ => some (.indexed .getLocal slot, .indexed .setLocal slot)
  | .globalVar slot _ => some (.indexed .getGlobal slot, .indexed .setGlobal slot)
  | .member _ _ _ | .swizzle _ _ _ | .index _ _ _ => none

/-- The code of an assignment, from the target, the code of a reference to it and the code of the
value. -/
def assignmentCode (op : Option ArithOp) (target : Place) (reference value : List Item) :
    List Item :=
  match target.access?, op with
  | some (_, write), none => value ++ [.simple .dup, write]
  | some (read, write), some op => read :: value ++ [.simple op.operation, .simple .dup, write]
  | none, none => reference ++ value ++ [.simple .store]
  | none, some op =>
    reference ++ [.simple .dup, .simple .load] ++ value ++ [.simple op.operation, .simple .store]

mutual

def Expr.code : Expr → List Item
  | .int value => [.op (.pushInt value)]
  | .float value => [.op (.pushFloat value)]
  | .bool value => [.op (.pushBool value)]
  | .localVar slot _ => [.indexed .getLocal slot]
  | .globalVar index _ => [.indexed .getGlobal index]
  | .member base index _ => base.code ++ [.indexed .getMember index]
  | .swizzle base components _ => base.code ++ [.op (.select .swizzle components)]
  | .index base index _ => base.code ++ index.code ++ [.simple .index]
  | .unary op operand => operand.code ++ [.simple op.operation]
  | .arith op left right _ => left.code ++ right.code ++ [.simple op.operation]
  | .compare op left right => left.code ++ right.code ++ [.simple op.operation]
  | .logic op left right =>
    left.code ++ .simple .dup :: Item.skip op.decides (.simple .pop :: right.code)
  | .ternary test whenTrue whenFalse => test.code ++ Item.choose whenTrue.code whenFalse.code
  | .assign op target value => assignmentCode op target target.reference value.code
  | .step op target => target.reference ++ [.simple op.operation]
  | .call function arguments _ =>
    Argument.codeAll arguments
      ++ [.op (.call .function (.ofNat function.value) (.ofNat arguments.length))]
  | .intrinsic function arguments _ =>
    Expr.codeAll arguments ++ [.op (.call .intrinsic function.id (.ofNat arguments.length))]
  | .construct _ code arguments =>
    Expr.codeAll arguments ++ [.op (.construct code (.ofNat arguments.length))]

def Place.reference : Place → List Item
  | .localVar slot _ => [.indexed .refLocal slot]
  | .globalVar index _ => [.indexed .refGlobal index]
  | .member base index _ => base.reference ++ [.indexed .refMember index]
  | .swizzle base components _ => base.reference ++ [.op (.select .refSwizzle components)]
  | .index base index _ => base.reference ++ index.code ++ [.simple .refIndex]

def Argument.code : Argument → List Item
  | .value value => value.code
  | .reference place => place.reference

def Expr.codeAll : List Expr → List Item
  | [] => []
  | first :: rest => first.code ++ Expr.codeAll rest

def Argument.codeAll : List Argument → List Item
  | [] => []
  | first :: rest => first.code ++ Argument.codeAll rest

end

/-- The code of an expression whose value is not needed. -/
def Expr.effect (e : Expr) : List Item :=
  if e.type.isVoid then e.code else e.code ++ [.simple .pop]

/-- The code of an optional expression whose value is not needed. -/
def Expr.optionEffect (e : Option Expr) : List Item :=
  (e.map Expr.effect).getD []

def marker (markers : Bool) (line : Nat) : List Item :=
  if markers then [.indexed .line line] else []

def returnCode : Option Expr → List Item
  | some value => value.code ++ [.simple .retValue]
  | none => [.simple .ret]

/-- The code of a choice between two branches, of which the second may be absent. -/
def branchCode (whenTrue whenFalse : List Item) (hasElse : Bool) : List Item :=
  if hasElse then Item.choose whenTrue whenFalse else Item.skip .ifFalse whenTrue

mutual

/-- The code of a statement. All but blocks have a marker of their line. -/
def Statement.code (markers : Bool) : Statement → List Item
  | .expr value line => marker markers line ++ value.effect
  | .declare slot value line => marker markers line ++ value.code ++ [.indexed .setLocal slot]
  | .ifElse test whenTrue whenFalse line =>
    marker markers line ++ test.code
      ++ branchCode (Statement.codeAll markers whenTrue) (Statement.codeAll markers whenFalse)
        !whenFalse.isEmpty
  | .loop test step body line =>
    marker markers line
      ++ Item.repeatWhile (test.map Expr.code) (Statement.codeAll markers body)
        (Expr.optionEffect step)
  | .doLoop body test line =>
    marker markers line ++ Item.repeatUntil (Statement.codeAll markers body) test.code
  | .returnFrom value line => marker markers line ++ returnCode value
  | .leave kind line => marker markers line ++ [.leave kind]
  | .discardPixel line => marker markers line ++ [.simple .discard]
  | .block body => Statement.codeAll markers body

def Statement.codeAll (markers : Bool) : List Statement → List Item
  | [] => []
  | first :: rest => first.code markers ++ Statement.codeAll markers rest

end

def endsInReturn (body : List Statement) : Bool :=
  match body.getLast? with
  | some (.returnFrom _ _) => true
  | _ => false

/-- The code of a function. Unless its last statement returns, a return of nothing or of the zero
value follows, so that its end is never reached. -/
def Definition.code (markers : Bool) (d : Definition) : List Item :=
  Statement.codeAll markers d.body ++ if endsInReturn d.body then [] else returnCode d.zero

/-- The code that sets a global variable to its start value. -/
def Global.code (markers : Bool) (index : Nat) (g : Global) : List Item :=
  match g.initializer with
  | some value => marker markers g.line ++ value.code ++ [.indexed .setGlobal index]
  | none => []

/-- The code that sets all global variables with a start value, in the order of their declaration,
and returns. -/
def Registry.initCode (markers : Bool) (r : Registry) : List Item :=
  (r.globals.zipIdx r.builtins.length).flatMap (fun (g, index) => g.code markers index)
    ++ [.simple .ret]

end Typed

end ShaderBytecode
