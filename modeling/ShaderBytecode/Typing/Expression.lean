import ShaderBytecode.Typing.Operand

/-!
# Typing expressions

An expression is typed by recursion on its tree, in an environment that does not change: what it
uses and calls can be read off the typed tree.
-/

namespace ShaderBytecode.Env

open Typed (Argument Expr Place)

def hasRepeats : List UInt8 → Bool
  | [] => false
  | first :: rest => rest.contains first || hasRepeats rest

def undeclared {α : Type} (env : Env) (name : String) (span : Span) : Check α :=
  .fail span (.undeclared name (env.registry.function? name).isSome)

def variableExpr (env : Env) (name : String) (span : Span) : Check Expr :=
  match env.scopes.find? name with
  | some found => .ok (.localVar found.slot found.type)
  | none =>
    match env.registry.global? name with
    | some (index, found) => .ok (.globalVar index found.type)
    | none => env.undeclared name span

def variablePlace (env : Env) (name : String) (span : Span) : Check Place :=
  match env.scopes.find? name with
  | some found =>
    if found.isConst then .fail span (.constWritten name)
    else .ok (.localVar found.slot found.type)
  | none =>
    match env.registry.global? name with
    | some (index, found) =>
      if found.isReadOnly env.context then
        .fail span (.readOnlyWritten name found.storage env.context.stage)
      else .ok (.globalVar index found.type)
    | none => env.undeclared name span

def memberExpr (env : Env) (base : Expr) (member : String) (span : Span) : Check Expr :=
  match base.type with
  | .struct name => do
    let (index, type) ← env.structMember name member span
    return .member base index type
  | type => do
    let components ← env.swizzle type member span
    return .swizzle base components (swizzleType type components)

/-- A member or a swizzle of a typed place. A swizzle that is written to repeats no component. -/
def memberPlace (env : Env) (base : Place) (member : String) (span : Span) : Check Place :=
  match base.type with
  | .struct name => do
    let (index, type) ← env.structMember name member span
    return .member base index type
  | type => do
    let components ← env.swizzle type member span
    if hasRepeats components then .fail span (.componentRepeated member)
    else return .swizzle base components (swizzleType type components)

/-- Refuses an intrinsic that the stage does not have or that takes another number of arguments. -/
def checkIntrinsic (env : Env) (function : Intrinsic) (count : Nat) (span : Span) : Check Unit :=
  match function.requiredStage? with
  | some stage =>
    if stage ≠ env.context.stage then .fail span (.intrinsicStage function stage)
    else if count ≠ function.arity then .fail span (.intrinsicArity function count)
    else .ok ()
  | none => if count ≠ function.arity then .fail span (.intrinsicArity function count) else .ok ()

/-- A place as an argument, which must be of the type of the parameter. -/
def referenceOf (place : Located Place) (type : DataType) (position : Nat) (function : String) :
    Check Argument :=
  if place.value.type = type then .ok (.reference place.value)
  else .fail place.span (.referenceArgument position function type place.value.type)

mutual

/-- The typed form of an expression. A call is one of a constructor, of a function or of an
intrinsic, in this order, unless a local hides them all. -/
def expr (env : Env) : Ast.Expr → Check Expr
  | .int value _ => .ok (.int (.ofNat value))
  | .float value _ => .ok (.float (.ofDouble value))
  | .bool value _ => .ok (.bool value)
  | .name name span => env.variableExpr name span
  | .member base member span => do
    let base ← env.expr base
    env.memberExpr base member span
  | .index base index span => do
    let base ← env.expr base
    let value ← env.expr index
    let value ← indexValue ⟨value, index.span⟩ base.type
    let type ← elementType base.type span
    return .index base value type
  | .unary op operand span => do
    let operand ← env.expr operand
    unary op operand span
  | .binary op left right span => do
    let left ← env.expr left
    let right ← env.expr right
    env.binary op left right span
  | .assign op target value span => do
    let target ← env.place target
    let typed ← env.expr value
    let typed ← env.assigned op target.type ⟨typed, value.span⟩ span
    return .assign op target typed
  | .ternary test whenTrue whenFalse span => do
    let typed ← env.expr test
    let typed ← condition ⟨typed, test.span⟩
    let whenTrue ← env.expr whenTrue
    let whenFalse ← env.expr whenFalse
    env.ternary typed whenTrue whenFalse span
  | .step op operand span => do
    let target ← env.place operand
    if target.type.isNumeric then return .step op target
    else .fail span (.stepOperand op target.type)
  | .call callee arguments span =>
    match env.scopes.find? callee with
    | some found => .fail span (.localCalled callee found.type)
    | none =>
      match env.context.dialect.builtinType? callee with
      | some type =>
        match type.componentCount? with
        | none => .fail span (.notConstructible type)
        | some needed =>
          if arguments.isEmpty then .fail span (.constructorEmpty type)
          else do
            let typed ← env.exprs arguments
            env.constructor type needed typed span
      | none =>
        match env.registry.struct? callee with
        | some struct =>
          if struct.members.length ≠ arguments.length then
            .fail span (.structArity callee struct.members.length arguments.length)
          else do
            let typed ← env.fields callee 0 (struct.members.map (·.type)) arguments
            let code ← env.code (.struct callee)
            return .construct (.struct callee) code typed
        | none =>
          match env.registry.function? callee with
          | some (index, function) =>
            let parameters := function.signature.parameters
            if parameters.length ≠ arguments.length then
              .fail span (.functionArity callee parameters.length arguments.length)
            else do
              let typed ← env.arguments callee 0 parameters arguments
              return .call ⟨index, span⟩ typed function.signature.returnType
          | none =>
            match Intrinsic.lookup? env.context.dialect callee arguments.length with
            | some function => do
              env.checkIntrinsic function arguments.length span
              let typed ← env.exprs arguments
              env.intrinsic function typed span
            | none => .fail span (.undeclaredFunction callee)

def place (env : Env) : Ast.Expr → Check Place
  | .name name span => env.variablePlace name span
  | .member base member span => do
    let base ← env.place base
    env.memberPlace base member span
  | .index base index span => do
    let base ← env.place base
    let value ← env.expr index
    let value ← indexValue ⟨value, index.span⟩ base.type
    let type ← elementType base.type span
    return .index base value type
  | other => .fail other.span .notAssignable

def exprs (env : Env) : List Ast.Expr → Check (List (Located Expr))
  | [] => .ok []
  | first :: rest => do
    let typed ← env.expr first
    let more ← env.exprs rest
    return ⟨typed, first.span⟩ :: more

def fields (env : Env) (struct : String) :
    (position : Nat) → List DataType → List Ast.Expr → Check (List Expr)
  | position, type :: types, first :: rest => do
    let typed ← env.expr first
    let typed ← env.coerce ⟨typed, first.span⟩ type (.argument position struct)
    let more ← env.fields struct (position + 1) types rest
    return typed :: more
  | _, _, _ => .ok []

def arguments (env : Env) (function : String) :
    (position : Nat) → List Parameter → List Ast.Expr → Check (List Argument)
  | position, parameter :: parameters, first :: rest => do
    let typed ←
      if parameter.passing.byReference then do
        let place ← env.place first
        referenceOf ⟨place, first.span⟩ parameter.type position function
      else do
        let typed ← env.expr first
        let typed ← env.coerce ⟨typed, first.span⟩ parameter.type (.argument position function)
        pure (.value typed)
    let more ← env.arguments function (position + 1) parameters rest
    return typed :: more
  | _, _, _ => .ok []

end

def conditionExpr (env : Env) (e : Ast.Expr) : Check Expr := do
  let typed ← env.expr e
  condition ⟨typed, e.span⟩

/-- The typed form of an expression that must be of a type. -/
def exprOf (env : Env) (e : Ast.Expr) (type : DataType) (purpose : Purpose) : Check Expr := do
  let typed ← env.expr e
  env.coerce ⟨typed, e.span⟩ type purpose

end ShaderBytecode.Env
