import ShaderBytecode.Typing.Expression

/-!
# Typing statements

The body of a function is typed from its start to its end. Scopes are handed down and along; what
is kept through a whole body, also through a failing one, is the frame: the locals declared so far.
-/

namespace ShaderBytecode

open Typed (Expr Statement)

/-- A local of a body. -/
structure FrameLocal where
  name : String
  span : Span
  hidesGlobal : Bool
deriving DecidableEq, Repr

/-- A step of typing a body. Locals declared before a fault stay in the frame. -/
abbrev FrameM := EStateM (Located TypingFault) (List FrameLocal)

def FrameM.ofCheck {α : Type} : Check α → FrameM α
  | .ok a => pure a
  | .error e => throw e

def FrameM.fail {α : Type} (span : Span) (fault : TypingFault) : FrameM α :=
  throw ⟨fault, span⟩

/-- What the statements of one function have in common. -/
structure BodyEnv where
  context : Context
  registry : Typed.Registry
  parameterCount : Nat
  returnType : DataType

namespace BodyEnv

variable (b : BodyEnv)

def env (scopes : Scopes) : Env :=
  ⟨b.context, b.registry, scopes⟩

/-- Declares a local in the innermost scope and gives it the next slot. -/
def declareLocal (scopes : Scopes) (name : String) (type : DataType) (isConst : Bool)
    (span : Span) : FrameM Binding := do
  if scopes.isTaken name then FrameM.fail span (.duplicateLocal name)
  let frame ← get
  set (frame ++ [FrameLocal.mk name span (b.registry.global? name).isSome])
  return ⟨name, b.parameterCount + frame.length, type, isConst⟩

/-- The value a local starts with: that of its initializer, which does not see the local, or the
zero value. -/
def startValue (scopes : Scopes) (type : DataType) : Option Ast.Expr → Check Expr
  | some e => (b.env scopes).exprOf e type .initializer
  | none => do
    let code ← (b.env scopes).code type
    return .construct type code []

def checkLocal (isConst : Bool) (type : DataType) (d : Ast.Declarator) : Check Unit :=
  if type = .sampler2D then .fail d.span (.localSampler d.name)
  else if d.semantic.isSome then .fail d.span (.localSemantic d.name)
  else if isConst && d.initializer.isNone then .fail d.span (.constUninitialized d.name)
  else .ok ()

/-- A declared local, the value it starts with and the line of its name. -/
def declarator (scopes : Scopes) (isConst : Bool) (typeName : Located String)
    (d : Ast.Declarator) : FrameM (Binding × Expr) := do
  let type ← .ofCheck ((b.env scopes).resolveValueType typeName d.length .localVariable)
  .ofCheck (checkLocal isConst type d)
  let value ← .ofCheck (b.startValue scopes type d.initializer)
  let binding ← b.declareLocal scopes d.name type isConst d.span
  return (binding, value)

/-- Declared locals. Each is in sight of those behind it. -/
def declarators (isConst : Bool) (typeName : Located String) :
    Scopes → List Ast.Declarator → FrameM (List Statement × Scopes)
  | scopes, [] => return ([], scopes)
  | scopes, first :: rest => do
    let (binding, value) ← b.declarator scopes isConst typeName first
    let (more, scopes) ← declarators isConst typeName (scopes.bind binding) rest
    return (.declare binding.slot value first.span.line :: more, scopes)

/-- Whether a declaration of locals is one of constants. Other qualifiers are refused. -/
def localIsConst (v : Ast.Variables) : Check Bool := do
  let isConst ←
    match v.storage with
    | none => pure false
    | some .const => pure true
    | some storage => .fail v.type.span (.localStorage storage)
  if v.layout.isEmpty then return isConst
  else .fail v.type.span .localLayout

/-- A declaration of locals. One of a single local has the line of the whole statement. -/
def declareLocals (scopes : Scopes) (line : Nat) (v : Ast.Variables) :
    FrameM (Statement × Scopes) := do
  let isConst ← .ofCheck (localIsConst v)
  let (declared, scopes) ← b.declarators isConst v.type scopes v.declarators
  match declared with
  | [.declare slot value _] => return (.declare slot value line, scopes)
  | _ => return (.block declared, scopes)

def simple (scopes : Scopes) (line : Nat) : Ast.Simple → FrameM (Statement × Scopes)
  | .declare v => b.declareLocals scopes line v
  | .expr e => do
    let value ← .ofCheck ((b.env scopes).expr e)
    return (.expr value line, scopes)

def loopStart (scopes : Scopes) : Option (Located Ast.Simple) → FrameM (List Statement × Scopes)
  | none => return ([], scopes)
  | some start => do
    let (first, scopes) ← b.simple scopes start.span.line start.value
    return ([first], scopes)

def optionalExpr (scopes : Scopes) : Option Ast.Expr → Check (Option Expr)
  | none => .ok none
  | some e => do return some (← (b.env scopes).expr e)

def optionalCondition (scopes : Scopes) : Option Ast.Expr → Check (Option Expr)
  | none => .ok none
  | some e => do return some (← (b.env scopes).conditionExpr e)

/-- The value of a return statement, which must be there just if the function has a result. -/
def result (scopes : Scopes) (span : Span) : Option Ast.Expr → Check (Option Expr)
  | some e =>
    if b.returnType.isVoid then .fail span .resultOfVoid
    else do return some (← (b.env scopes).exprOf e b.returnType .result)
  | none =>
    if b.returnType.isVoid then .ok none
    else .fail span (.resultMissing b.returnType)

/-- The statements of a branch or of a loop's body: those of a block, or the only one. -/
def branch : Ast.Statement → Statement → List Statement
  | .block _ _, .block body => body
  | _, only => [only]

mutual

/-- A typed statement and the scopes behind it. Blocks, branches and the bodies and headers of loops
have scopes of their own. -/
def statement (inLoop : Bool) (scopes : Scopes) : Ast.Statement → FrameM (Statement × Scopes)
  | .block body _ => do
    let body ← statements inLoop ([] :: scopes) body
    return (.block body, scopes)
  | .simple s span => b.simple scopes span.line s
  | .ifThen test body span => do
    let typed ← .ofCheck ((b.env scopes).conditionExpr test)
    let (whenTrue, _) ← statement inLoop ([] :: scopes) body
    return (.ifElse typed (branch body whenTrue) [] span.line, scopes)
  | .ifElse test first second span => do
    let typed ← .ofCheck ((b.env scopes).conditionExpr test)
    let (whenTrue, _) ← statement inLoop ([] :: scopes) first
    let (whenFalse, _) ← statement inLoop ([] :: scopes) second
    return (.ifElse typed (branch first whenTrue) (branch second whenFalse) span.line, scopes)
  | .forLoop start test step body span => do
    let (start, inner) ← b.loopStart ([] :: scopes) start
    let typedTest ← .ofCheck (b.optionalCondition inner test)
    let typedStep ← .ofCheck (b.optionalExpr inner step)
    let (typed, _) ← statement true ([] :: inner) body
    return (.block (start ++ [.loop typedTest typedStep (branch body typed) span.line]), scopes)
  | .whileLoop test body span => do
    let typedTest ← .ofCheck ((b.env scopes).conditionExpr test)
    let (typed, _) ← statement true ([] :: scopes) body
    return (.loop (some typedTest) none (branch body typed) span.line, scopes)
  | .doLoop body test span => do
    let (typed, _) ← statement true ([] :: scopes) body
    let typedTest ← .ofCheck ((b.env scopes).conditionExpr test)
    return (.doLoop (branch body typed) typedTest span.line, scopes)
  | .returnFrom value span => do
    let value ← .ofCheck (b.result scopes span value)
    return (.returnFrom value span.line, scopes)
  | .breakLoop span =>
    if inLoop then return (.leave .breakLoop span.line, scopes)
    else .fail span (.leaveOutsideLoop "break")
  | .continueLoop span =>
    if inLoop then return (.leave .continueLoop span.line, scopes)
    else .fail span (.leaveOutsideLoop "continue")
  | .discardPixel span =>
    if b.context.stage = .pixel then return (.discardPixel span.line, scopes)
    else .fail span (.discardStage b.context.stage)
  | .empty _ => return (.block [], scopes)

/-- Typed statements. The locals that one declares are in sight of those behind it. -/
def statements (inLoop : Bool) (scopes : Scopes) : List Ast.Statement → FrameM (List Statement)
  | [] => return []
  | first :: rest => do
    let (typed, scopes) ← statement inLoop scopes first
    let more ← statements inLoop scopes rest
    return typed :: more

end

end BodyEnv

end ShaderBytecode
