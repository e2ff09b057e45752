import Mathlib.Data.List.Forall2
import ShaderBytecode.Proofs.VariableOperands
import ShaderBytecode.Typing.Statement

/-!
# Locals

The locals of a body, in the order of the source, and what typing the body makes of them: each has
the type that its declaration names, and a slot.
-/

namespace ShaderBytecode

open Typed (Expr Statement)

/-! ## Locals of a source -/

namespace Ast

/-- The names of declared locals, and whether they are constants. -/
def Variables.locals (v : Variables) : List (String × Bool) :=
  v.declarators.map fun d => (d.name, v.storage = some .const)

def Simple.locals : Simple → List (String × Bool)
  | .declare v => v.locals
  | .expr _ => []

mutual

/-- The names of the locals that a statement declares, in the order of the source, and whether they
are constants. -/
def Statement.locals : Statement → List (String × Bool)
  | .block body _ => Statement.localsAll body
  | .simple s _ => s.locals
  | .ifThen _ body _ => body.locals
  | .ifElse _ first second _ => first.locals ++ second.locals
  | .forLoop start _ _ body _ => (start.map (·.value.locals)).getD [] ++ body.locals
  | .whileLoop _ body _ | .doLoop body _ _ => body.locals
  | .returnFrom _ _ | .breakLoop _ | .continueLoop _ | .discardPixel _ | .empty _ => []

def Statement.localsAll : List Statement → List (String × Bool)
  | [] => []
  | first :: rest => first.locals ++ Statement.localsAll rest

end

/-- The declarators of a declaration, each with what it shares with the others. -/
def Simple.declared : Simple → List (Variables × Declarator)
  | .declare v => v.declarators.map (v, ·)
  | .expr _ => []

mutual

/-- The declarators of the locals of a statement, in the order of the source. -/
def Statement.declared : Statement → List (Variables × Declarator)
  | .block body _ => Statement.declaredAll body
  | .simple s _ => s.declared
  | .ifThen _ body _ => body.declared
  | .ifElse _ first second _ => first.declared ++ second.declared
  | .forLoop start _ _ body _ => (start.map (·.value.declared)).getD [] ++ body.declared
  | .whileLoop _ body _ | .doLoop body _ _ => body.declared
  | .returnFrom _ _ | .breakLoop _ | .continueLoop _ | .discardPixel _ | .empty _ => []

def Statement.declaredAll : List Statement → List (Variables × Declarator)
  | [] => []
  | first :: rest => first.declared ++ Statement.declaredAll rest

end

/-- The name of a declared local, and whether it is a constant. -/
abbrev localOf (x : Variables × Declarator) : String × Bool :=
  (x.2.name, x.1.storage = some .const)

abbrev isConstant (x : Variables × Declarator) : Bool :=
  x.1.storage = some .const

theorem Simple.locals_eq (s : Simple) : s.locals = s.declared.map localOf := by
  cases s with
  | declare v =>
    simp only [Simple.locals, Variables.locals, Simple.declared, List.map_map]
    rfl
  | expr e => rfl

mutual

theorem Statement.locals_eq : (s : Statement) → s.locals = s.declared.map localOf
  | .block body _ => Statement.localsAll_eq body
  | .simple s _ => s.locals_eq
  | .ifThen _ body _ | .whileLoop _ body _ | .doLoop body _ _ => body.locals_eq
  | .ifElse _ first second _ => by
    rw [locals, declared, List.map_append, first.locals_eq, second.locals_eq]
  | .forLoop none _ _ body _ => body.locals_eq
  | .forLoop (some start) _ _ body _ => by
    rw [locals, declared, List.map_append, body.locals_eq]
    exact congrArg (· ++ _) start.value.locals_eq
  | .returnFrom _ _ | .breakLoop _ | .continueLoop _ | .discardPixel _ | .empty _ => rfl

theorem Statement.localsAll_eq : (body : List Statement) →
    Statement.localsAll body = (Statement.declaredAll body).map localOf
  | [] => rfl
  | first :: rest => by
    rw [localsAll, declaredAll, List.map_append, first.locals_eq, localsAll_eq rest]

end

theorem Statement.length_declared (s : Statement) : s.declared.length = s.locals.length := by
  rw [s.locals_eq, List.length_map]

end Ast

namespace Typed

mutual

def Statement.localTypes : Statement → List DataType
  | .declare _ value _ => [value.type]
  | .ifElse _ whenTrue whenFalse _ =>
    Statement.localTypesAll whenTrue ++ Statement.localTypesAll whenFalse
  | .loop _ _ body _ | .doLoop body _ _ | .block body => Statement.localTypesAll body
  | .expr _ _ | .returnFrom _ _ | .leave _ _ | .discardPixel _ => []

def Statement.localTypesAll : List Statement → List DataType
  | [] => []
  | first :: rest => first.localTypes ++ Statement.localTypesAll rest

end

mutual

def Statement.slots : Statement → List Nat
  | .declare slot _ _ => [slot]
  | .ifElse _ whenTrue whenFalse _ => Statement.slotsAll whenTrue ++ Statement.slotsAll whenFalse
  | .loop _ _ body _ | .doLoop body _ _ | .block body => Statement.slotsAll body
  | .expr _ _ | .returnFrom _ _ | .leave _ _ | .discardPixel _ => []

def Statement.slotsAll : List Statement → List Nat
  | [] => []
  | first :: rest => first.slots ++ Statement.slotsAll rest

end

theorem Statement.localTypesAll_append (first second : List Statement) :
    localTypesAll (first ++ second) = localTypesAll first ++ localTypesAll second := by
  induction first with
  | nil => rfl
  | cons s rest ih => rw [List.cons_append, localTypesAll, localTypesAll, ih, List.append_assoc]

theorem Statement.slotsAll_append (first second : List Statement) :
    slotsAll (first ++ second) = slotsAll first ++ slotsAll second := by
  induction first with
  | nil => rfl
  | cons s rest ih => rw [List.cons_append, slotsAll, slotsAll, ih, List.append_assoc]

end Typed

theorem Env.coerce_type {env : Env} {e : Located Expr} {target : DataType} {purpose : Purpose} :
    (env.coerce e target purpose).Gives fun t => t.type = target := by
  unfold coerce
  split
  · rename_i htype
    exact Check.gives_ok htype
  · rename_i hne
    split
    · rename_i hconverts
      simp only [DataType.convertsTo, hne, decide_false, Bool.false_or, Bool.and_eq_true,
        decide_eq_true_eq] at hconverts
      exact Check.gives_ok hconverts.2
    · exact Check.gives_fail

/-! ## Bodies -/

namespace BodyEnv

variable {b : BodyEnv} {scopes : Scopes}

/-- A declarator declares a local of a type: it names the type, and locals can be of it. -/
structure DeclaresAs (b : BodyEnv) (x : Ast.Variables × Ast.Declarator) (type : DataType) :
    Prop where
  resolves : (b.env []).resolveValueType x.1.type x.2.length .localVariable = .ok type
  allowed : checkLocal (x.1.storage = some .const) type x.2 = .ok ()

/-- Each of some declarators declares a local of the type that stands in its place. -/
abbrev AllDeclareAs (b : BodyEnv) : List (Ast.Variables × Ast.Declarator) → List DataType → Prop :=
  List.Forall₂ b.DeclaresAs

theorem startValue_type {type : DataType} {value : Option Ast.Expr} :
    (b.startValue scopes type value).Gives fun t => t.type = type := by
  cases value with
  | some e => exact Check.gives_true.bind fun _ _ => Env.coerce_type
  | none => exact Check.gives_true.bind fun _ _ => Check.gives_ok rfl

theorem localTypesAll_branch (source : Ast.Statement) (typed : Statement) :
    Statement.localTypesAll (branch source typed) = typed.localTypes := by
  unfold branch
  split
  · rfl
  · exact List.append_nil _

theorem slotsAll_branch (source : Ast.Statement) (typed : Statement) :
    Statement.slotsAll (branch source typed) = typed.slots := by
  unfold branch
  split
  · rfl
  · exact List.append_nil _

end BodyEnv

end ShaderBytecode
