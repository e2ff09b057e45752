import ShaderBytecode.Proofs.Respelling

/-!
# What the words of a source are used for

The words of a syntax tree that are read as variables, that declare something, and that label a
member, a swizzle, a semantic, a register or an entry of a layout. Names of types and callees are
none of these.
-/

namespace ShaderBytecode

/-- A word and what it is used for. -/
inductive Use where
  | reads (word : String)
  | declares (word : String)
  | labels (word : String)
deriving DecidableEq, Repr

namespace Ast

mutual

def Expr.uses : Expr → List Use
  | .int _ _ | .float _ _ | .bool _ _ => []
  | .name w _ => [.reads w]
  | .call _ arguments _ => Expr.usesAll arguments
  | .member base w _ => .labels w :: base.uses
  | .index base place _ => base.uses ++ place.uses
  | .unary _ operand _ | .step _ operand _ => operand.uses
  | .binary _ left right _ | .assign _ left right _ => left.uses ++ right.uses
  | .ternary test whenTrue whenFalse _ => test.uses ++ whenTrue.uses ++ whenFalse.uses

def Expr.usesAll : List Expr → List Use
  | [] => []
  | first :: rest => first.uses ++ Expr.usesAll rest

end

def Expr.optionUses (e : Option Expr) : List Use :=
  (e.map Expr.uses).getD []

def labelUses (label : Option String) : List Use :=
  label.toList.map .labels

def Declarator.uses (d : Declarator) : List Use :=
  .declares d.name :: labelUses d.semantic ++ Expr.optionUses d.initializer

def Variables.uses (v : Variables) : List Use :=
  v.layout.map (fun entry => .labels entry.name) ++ v.declarators.flatMap Declarator.uses

/-- How a member uses words if its own name is used in a given way. -/
def Member.uses (use : String → Use) (m : Member) : List Use :=
  use m.name :: labelUses m.semantic

/-- How a structure uses words. Its members have labels. -/
def Structure.uses (s : Structure) : List Use :=
  .declares s.name :: s.members.flatMap (Member.uses .labels)

/-- How a constant buffer uses words. Its members are variables. -/
def Buffer.uses (b : Buffer) : List Use :=
  .declares b.name :: labelUses b.register ++ b.members.flatMap (Member.uses .declares)

def Parameter.uses (p : Parameter) : List Use :=
  p.name.toList.map .declares ++ labelUses p.semantic

def Simple.uses : Simple → List Use
  | .declare v => v.uses
  | .expr e => e.uses

def Simple.optionUses (s : Option (Located Simple)) : List Use :=
  (s.map fun s => s.value.uses).getD []

mutual

def Statement.uses : Statement → List Use
  | .block body _ => Statement.usesAll body
  | .simple s _ => s.uses
  | .ifThen test body _ | .whileLoop test body _ | .doLoop body test _ => test.uses ++ body.uses
  | .ifElse test whenTrue whenFalse _ => test.uses ++ whenTrue.uses ++ whenFalse.uses
  | .forLoop start test step body _ =>
    Simple.optionUses start ++ Expr.optionUses test ++ Expr.optionUses step ++ body.uses
  | .returnFrom value _ => Expr.optionUses value
  | .breakLoop _ | .continueLoop _ | .discardPixel _ | .empty _ => []

def Statement.usesAll : List Statement → List Use
  | [] => []
  | first :: rest => first.uses ++ Statement.usesAll rest

end

def Body.uses (b : Body) : List Use :=
  Statement.usesAll b.statements

def Function.uses (f : Function) : List Use :=
  .declares f.name :: f.parameters.flatMap Parameter.uses ++ labelUses f.returnSemantic
    ++ (f.body.map Body.uses).getD []

def Declaration.uses : Declaration → List Use
  | .struct s => s.uses
  | .declare v => v.uses
  | .buffer b => b.uses
  | .function f => f.uses

end Ast

end ShaderBytecode
