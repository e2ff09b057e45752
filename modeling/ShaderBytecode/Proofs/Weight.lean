import ShaderBytecode.Ast

/-!
# The weight of syntax trees

The weight of a tree counts what is typed in it: its expressions, statements and declared names. It
bounds the typed trees and the registries from above, and the tokens of a source bound it.
-/

namespace ShaderBytecode.Ast

mutual

/-- The weight of an expression: the number of its nodes. -/
def Expr.weight : Expr → Nat
  | .int _ _ | .float _ _ | .bool _ _ | .name _ _ => 1
  | .call _ arguments _ => Expr.weightAll arguments + 1
  | .member operand _ _ | .unary _ operand _ | .step _ operand _ => operand.weight + 1
  | .index left right _ | .binary _ left right _ | .assign _ left right _ =>
    left.weight + right.weight + 1
  | .ternary test whenTrue whenFalse _ => test.weight + whenTrue.weight + whenFalse.weight + 1

def Expr.weightAll : List Expr → Nat
  | [] => 0
  | first :: rest => first.weight + Expr.weightAll rest

end

def Expr.optionWeight (e : Option Expr) : Nat :=
  (e.map Expr.weight).getD 0

def Declarator.weight (d : Declarator) : Nat :=
  Expr.optionWeight d.initializer + 1

def Declarator.weightAll : List Declarator → Nat
  | [] => 0
  | first :: rest => first.weight + Declarator.weightAll rest

def Variables.weight (v : Variables) : Nat :=
  Declarator.weightAll v.declarators + 1

def Simple.weight : Simple → Nat
  | .declare v => v.weight
  | .expr e => e.weight

mutual

def Statement.weight : Statement → Nat
  | .block body _ => Statement.weightAll body + 1
  | .simple s _ => s.weight
  | .ifThen test body _ | .whileLoop test body _ | .doLoop body test _ =>
    test.weight + body.weight + 1
  | .ifElse test first second _ => test.weight + first.weight + second.weight + 1
  | .forLoop start test step body _ =>
    (start.map fun s => s.value.weight).getD 0 + Expr.optionWeight test + Expr.optionWeight step
      + body.weight + 1
  | .returnFrom value _ => Expr.optionWeight value + 1
  | .breakLoop _ | .continueLoop _ | .discardPixel _ | .empty _ => 1

def Statement.weightAll : List Statement → Nat
  | [] => 0
  | first :: rest => first.weight + Statement.weightAll rest

end

def Function.weight (f : Function) : Nat :=
  f.parameters.length + (f.body.map fun body => Statement.weightAll body.statements).getD 0 + 1

def Declaration.weight : Declaration → Nat
  | .struct s => s.members.length + 1
  | .declare v => v.weight
  | .buffer b => b.members.length + 1
  | .function f => f.weight

def Declaration.weightAll : List Declaration → Nat
  | [] => 0
  | first :: rest => first.weight + Declaration.weightAll rest

end ShaderBytecode.Ast
