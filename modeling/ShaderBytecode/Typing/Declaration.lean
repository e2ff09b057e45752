import ShaderBytecode.Typing.Statement

/-!
# Typing declarations

Declarations are typed in the order of the source, and a name is in sight from its declaration on.
A declaration that is refused does not stop those behind it: what it had registered before the
fault stays registered.
-/

namespace ShaderBytecode

open Typed (Registry)

/-- The registries and remarks so far. -/
structure ModuleState where
  registry : Registry
  remarks : List (Located Remark) := []
deriving Repr

/-- A step of typing a source. What is registered before a fault stays registered. -/
abbrev ModuleM := EStateM (Located TypingFault) ModuleState

/-- Refuses a name of the outermost level that is reserved or taken. -/
def Env.checkName (env : Env) (name : String) (span : Span) : Check Unit :=
  if env.context.dialect = .glsl && "gl_".toList.isPrefixOf name.toList then
    .fail span (.reservedName name)
  else if (env.context.dialect.builtinType? name).isSome then .fail span (.builtinTypeName name)
  else
    match env.registry.nameUse? name with
    | some use => .fail span (.nameTaken name use)
    | none => .ok ()

/-- The rule that a global of a storage breaks in a dialect and stage. -/
def stageRule? (c : Context) : Option Storage → Option StageRule
  | some .vertexAttribute =>
    if c.dialect = .glsl && c.stage ≠ .vertex then some .attributeInVertex else none
  | some .varying =>
    if c.dialect = .glsl && c.stage ≠ .vertex && c.stage ≠ .pixel then
      some .varyingInVertexOrPixel
    else none
  | some .input | some .output => if c.dialect = .hlsl then some .semanticsInstead else none
  | some .groupShared =>
    if c.dialect = .hlsl && c.stage ≠ .compute then some .groupSharedInCompute else none
  | _ => none

def allowsSampler : Dialect → Option Storage → Bool
  | .glsl, storage => storage = some .uniform
  | .hlsl, storage => storage.isNone

def allowsInitializer (d : Dialect) : Option Storage → Bool
  | some .const | some .static => true
  | some .output | none => d = .glsl
  | some _ => false

/-- Refuses a global whose storage does not fit the stage, its type or its initializer. -/
def checkStorage (c : Context) (type : DataType) (storage : Option Storage) (d : Ast.Declarator) :
    Check Unit := do
  if let some rule := stageRule? c storage then .fail d.span (.storageStage rule d.name c.stage)
  if type = .sampler2D && !allowsSampler c.dialect storage then
    .fail d.span (.samplerStorage d.name)
  if storage = some .const && d.initializer.isNone then .fail d.span (.constUninitialized d.name)
  if d.initializer.isSome && !allowsInitializer c.dialect storage then
    .fail d.span (.initializerForbidden d.name storage)

/-- The members of a structure behind those found so far. -/
def structMembers (env : Env) (struct : String) :
    (found : List Member) → List Ast.Member → Check (List Member)
  | found, [] => .ok found
  | found, m :: rest => do
    let type ← env.resolveValueType m.type m.length .structMember
    if type = .sampler2D then .fail m.span (.samplerMember m.name)
    if found.any (·.name = m.name) then .fail m.span (.duplicateMember struct m.name)
    structMembers env struct (found ++ [⟨m.name, type, m.semantic⟩]) rest

/-- The parameters of a function behind those found so far. -/
def functionParameters (env : Env) (function : String) :
    (found : List Parameter) → List Ast.Parameter → Check (List Parameter)
  | found, [] => .ok found
  | found, p :: rest => do
    let type ← env.resolveValueType p.type p.length .parameter
    if type = .sampler2D && p.passing.byReference then .fail p.span .samplerReference
    let name := p.name.getD ""
    if !name.isEmpty && found.any (·.name = name) then
      .fail p.span (.duplicateParameter name function)
    functionParameters env function (found ++ [⟨name, type, p.passing, p.semantic⟩]) rest

def functionSignature (env : Env) (f : Ast.Function) : Check Function := do
  let returnType ← env.resolveType f.returnType none
  let parameters ← functionParameters env f.name [] f.parameters
  return { name := f.name, returnType, parameters, returnSemantic := f.returnSemantic }

/-- Refuses another declaration of a function unless it repeats the signature and adds at most the
one definition. -/
def checkAgain (earlier : Typed.Function) (signature : Function) (f : Ast.Function) :
    Check Unit :=
  if !earlier.signature.sameSignature signature then
    .fail f.span (.signatureMismatch signature earlier.signature)
  else if earlier.definition.isSome && f.body.isSome then .fail f.span (.alreadyDefined f.name)
  else .ok ()

/-- The scope of the parameters. Unnamed ones are not in it. -/
def parameterScope (signature : Function) (parameters : List Ast.Parameter) : List Binding :=
  ((signature.parameters.zip parameters).zipIdx.map fun ((p, declared), slot) =>
    Binding.mk p.name slot p.type declared.isConst).filter fun binding => !binding.name.isEmpty

def hiddenRemarks (frame : List FrameLocal) : List (Located Remark) :=
  (frame.filter (·.hidesGlobal)).map fun l => ⟨.hiddenGlobal l.name, l.span⟩

/-- A remark for each local that the body does not refer to. -/
def unusedRemarks (parameterCount : Nat) (frame : List FrameLocal) (body : List Typed.Statement) :
    List (Located Remark) :=
  let mentions := Typed.Statement.mentionsAll body
  (frame.zipIdx.filter fun (_, i) => !mentions.contains (.slot (parameterCount + i))).map
    fun (l, _) => ⟨.unusedLocal l.name, l.span⟩

/-- Whether the end of a body can be reached although a result is due. -/
def missesReturn (returnType : DataType) (body : List Typed.Statement) : Bool :=
  !returnType.isVoid && !Typed.definitelyReturns body

namespace ModuleM

def ofCheck {α : Type} : Check α → ModuleM α
  | .ok a => pure a
  | .error e => throw e

def env (c : Context) : ModuleM Env := do
  return { context := c, registry := (← get).registry }

def update (f : Registry → Registry) : ModuleM Unit :=
  modify fun s => { s with registry := f s.registry }

def remark (remarks : List (Located Remark)) : ModuleM Unit :=
  modify fun s => { s with remarks := s.remarks ++ remarks }

def addGlobal (global : Typed.Global) : ModuleM Unit :=
  update fun r => { r with globals := r.globals ++ [global] }

def struct (c : Context) (s : Ast.Structure) : ModuleM Unit := do
  let env ← env c
  ofCheck (env.checkName s.name s.span)
  let members ← ofCheck (structMembers env s.name [] s.members)
  update fun r => { r with structures := r.structures ++ [⟨s.name, members⟩] }

/-- A global variable, which its own initializer does not see. -/
def globalVariable (c : Context) (v : Ast.Variables) (d : Ast.Declarator) : ModuleM Unit := do
  let env ← env c
  let type ← ofCheck (env.resolveValueType v.type d.length .global)
  ofCheck (env.checkName d.name d.span)
  ofCheck (checkStorage c type v.storage d)
  let initializer ←
    match d.initializer with
    | some e => some <$> ofCheck (env.exprOf e type .initializer)
    | none => pure none
  addGlobal
    { symbol :=
        { name := d.name, type, storage := v.storage, semantic := d.semantic, layout := v.layout }
      initializer
      line := d.span.line }

def bufferMember (c : Context) (buffer : BufferBinding) (m : Ast.Member) : ModuleM Unit := do
  let env ← env c
  let type ← ofCheck (env.resolveValueType m.type m.length .bufferMember)
  ofCheck (env.checkName m.name m.span)
  addGlobal
    { symbol :=
        { name := m.name, type, storage := some .uniform, semantic := m.semantic,
          buffer := some buffer }
      initializer := none
      line := m.span.line }

/-- The place of a function in the registry, which its first declaration takes. -/
def functionIndex (c : Context) (signature : Function) (f : Ast.Function) : ModuleM Nat := do
  let env ← env c
  match env.registry.function? f.name with
  | some (index, earlier) =>
    ofCheck (checkAgain earlier signature f)
    return index
  | none =>
    ofCheck (env.checkName f.name f.span)
    if Intrinsic.isName c.dialect f.name then throw ⟨.intrinsicName f.name, f.span⟩
    update fun r => { r with functions := r.functions ++ [⟨signature, none, f.span⟩] }
    return env.registry.functions.length

def zeroResult (c : Context) (returnType : DataType) : ModuleM (Option Typed.Expr) := do
  if returnType.isVoid then return none
  else
    let env ← env c
    let code ← ofCheck (env.code returnType)
    return some (.construct returnType code [])

/-- The body of a function. The remarks on hidden globals are kept even if it is refused. -/
def functionBody (c : Context) (signature : Function) (f : Ast.Function) (body : Ast.Body) :
    ModuleM Typed.Definition := do
  let env ← env c
  let count := signature.parameters.length
  let bodyEnv : BodyEnv := ⟨c, env.registry, count, signature.returnType⟩
  let scopes : Scopes := [[], parameterScope signature f.parameters]
  match (bodyEnv.statements false scopes body.statements).run [] with
  | .error e frame =>
    remark (hiddenRemarks frame)
    throw e
  | .ok statements frame =>
    remark (hiddenRemarks frame ++ unusedRemarks count frame statements)
    if missesReturn signature.returnType statements then
      remark [⟨.missingReturn f.name, body.span⟩]
    return ⟨frame.map (·.name), statements, ← zeroResult c signature.returnType⟩

/-- A function or a prototype. The names of parameters are those of the definition. -/
def function (c : Context) (f : Ast.Function) : ModuleM Unit := do
  let signature ← ofCheck (functionSignature (← env c) f)
  let index ← functionIndex c signature f
  match f.body with
  | none => return ()
  | some body =>
    let definition ← functionBody c signature f body
    update fun r =>
      { r with functions := r.functions.set index ⟨signature, some definition, f.span⟩ }

def declaration (c : Context) : Ast.Declaration → ModuleM Unit
  | .struct s => struct c s
  | .declare v => v.declarators.forM (globalVariable c v)
  | .buffer b => b.members.forM (bufferMember c ⟨b.name, b.register⟩)
  | .function f => function c f

end ModuleM

/-- Types declarations until `limit` of them are refused. Gives the faults and what is
registered. -/
def typeDeclarations (c : Context) :
    (limit : Nat) → List Ast.Declaration → ModuleState → List (Located TypingFault) × ModuleState
  | _, [], state => ([], state)
  | 0, _, state => ([], state)
  | limit + 1, first :: rest, state =>
    match (ModuleM.declaration c first).run state with
    | .ok _ state => typeDeclarations c (limit + 1) rest state
    | .error fault state =>
      let (faults, state) := typeDeclarations c limit rest state
      (fault :: faults, state)

end ShaderBytecode
