import ShaderBytecode.CodeBuffer
import ShaderBytecode.Config.Basic
import ShaderBytecode.Diagnostic.Basic
import ShaderBytecode.Parser.Source
import ShaderBytecode.Program
import ShaderBytecode.Typing.Declaration

/-!
# The compiler
-/

namespace ShaderBytecode

def defaultEntryPoint : String := "main"

/-- What is compiled: a source for a stage, and the function it starts with. -/
structure Request where
  stage : Stage
  source : String
  entryPoint : String := defaultEntryPoint
deriving DecidableEq, Repr

/-- A compiled source. -/
structure Compiled where
  code : List Instruction
  program : Program
  remarks : List (Located Remark)
deriving DecidableEq, Repr

def Compiled.bytes (c : Compiled) : List UInt8 :=
  encodeAll c.code

/-- What is wrong with a source that is not compiled, and what else was found. -/
structure Failure where
  errors : List Diagnostic
  remarks : List (Located Remark) := []
deriving DecidableEq, Repr

def Failure.messages (f : Failure) : Messages :=
  ⟨f.errors.map Diagnostic.report, f.remarks.map Located.notice⟩

/-- Types a source and checks it as a whole. Whole sources are checked only if every declaration is
accepted. -/
def typeSource (d : Dialect) (config : Config) (stage : Stage)
    (declarations : List Ast.Declaration) :
    Except (List Diagnostic) Typed.Registry × List (Located Remark) :=
  let context : Context := ⟨d, stage, config.promoteInts⟩
  let start : ModuleState := { registry := { builtins := stageVariables d stage } }
  let (faults, state) := typeDeclarations context config.maxErrors declarations start
  let errors :=
    if faults.isEmpty then
      (state.registry.moduleFaults.take config.maxErrors).map fun f =>
        Diagnostic.mk (.checking f.value) f.span
    else faults.map fun f => Diagnostic.mk (.typing d f.value) f.span
  (if errors.isEmpty then .ok state.registry else .error errors, state.remarks)

/-- The program of an emitted source, if it has its entry point. -/
def programOf (request : Request) (registry : Typed.Registry)
    (emission : Except EmitFault Emitted) : Except Diagnostic (List Instruction × Program) :=
  match emission with
  | .error fault => .error { cause := .emitting fault }
  | .ok emitted =>
    let program := Program.ofEmitted registry request.stage request.entryPoint emitted
    if (program.function? request.entryPoint).isSome then .ok (emitted.code, program)
    else
      .error { cause := .entryPointMissing request.entryPoint (program.functions.map (·.name)) }

def emitSource (config : Config) (request : Request) (registry : Typed.Registry) :
    Except Diagnostic (List Instruction × Program) :=
  programOf request registry (registry.emit config.lineMarkers)

def analyse (d : Dialect) (config : Config) (request : Request) :
    Except Failure (Typed.Registry × List (Located Remark)) := do
  if !d.supports request.stage then
    throw { errors := [{ cause := .unsupportedStage d request.stage }] }
  let scanned ←
    match scan d request.source with
    | .error fault => throw { errors := [⟨.scanning fault.value, fault.span⟩] }
    | .ok scanned => pure scanned
  let pragmas := scanned.pragmas.map fun span => Located.mk Remark.ignoredPragma span
  let declarations ←
    match Ast.ofTokens d scanned with
    | .error fault => throw ⟨[⟨.reading fault.value, fault.span⟩], pragmas⟩
    | .ok declarations => pure declarations
  let (typed, remarks) := typeSource d config request.stage declarations
  let remarks := pragmas ++ remarks
  match typed with
  | .error errors => throw ⟨errors, remarks⟩
  | .ok registry => return (registry, remarks)

def compileVerbose (d : Dialect) (config : Config) (request : Request) :
    Except Failure Compiled := do
  let (registry, remarks) ← analyse d config request
  match emitSource config request registry with
  | .error error => throw ⟨[error], remarks⟩
  | .ok (code, program) => return ⟨code, program, remarks⟩

/-- Compiles a source. Remarks are kept only if warnings are wanted. -/
def compile (d : Dialect) (config : Config) (request : Request) : Except Failure Compiled :=
  match compileVerbose d config request with
  | .ok compiled => .ok (if config.warnings then compiled else { compiled with remarks := [] })
  | .error failure => .error (if config.warnings then failure else { failure with remarks := [] })

/-- Emits a typed source behind what a code buffer holds. What is written before a fault stays in the
buffer. -/
def CodeBuffer.emitSource (b : CodeBuffer) (r : Typed.Registry) (markers : Bool) :
    Except EmitFault Emitted × CodeBuffer :=
  match Typed.emitFunctions markers b.position r.functions with
  | .error fault => (.error fault, b)
  | .ok (code, functions) =>
    let b := b.emitAll code
    match assemble b.position (r.initCode markers) with
    | .error fault => (.error fault, b)
    | .ok init => (.ok ⟨code ++ init, functions, b.position⟩, b.emitAll init)

/-- Compiles a source into a code buffer, with all remarks. Also a source that is refused can leave
code in the buffer. -/
def compileInto (d : Dialect) (config : Config) (request : Request) (b : CodeBuffer) :
    Except Failure (Program × List (Located Remark)) × CodeBuffer :=
  match analyse d config request with
  | .error failure => (.error failure, b)
  | .ok (registry, remarks) =>
    let (emission, b) := b.emitSource registry config.lineMarkers
    match programOf request registry emission with
    | .error error => (.error ⟨[error], remarks⟩, b)
    | .ok (_, program) => (.ok (program, remarks), b)

/-- A compiler for one dialect that keeps the program of its last source. Its code buffer is open to
its user. -/
structure Session where
  dialect : Dialect
  config : Config
  buffer : CodeBuffer := {}
  program : Program := {}
  remarks : List (Located Remark) := []
deriving DecidableEq, Repr

namespace Session

def clear (s : Session) : Session :=
  { s with buffer := s.buffer.reset, program := {}, remarks := [] }

/-- Compiles a source. What was kept of earlier sources is gone, also if this one is refused. -/
def parse (s : Session) (request : Request) : Option Failure × Session :=
  let s := s.clear
  match compileInto s.dialect s.config request s.buffer with
  | (.ok (program, remarks), buffer) =>
    (none, { s with buffer, program, remarks := if s.config.warnings then remarks else [] })
  | (.error failure, buffer) =>
    (some (if s.config.warnings then failure else { failure with remarks := [] }),
      { s with buffer := buffer.reset })

end Session

/-- A source of a batch. -/
structure Job where
  name : String
  dialect : Dialect
  request : Request
deriving DecidableEq, Repr

/-- Compiles each source on its own. The results are in the order of the jobs. -/
def compileBatch (config : Config) (jobs : List Job) : List (String × Except Failure Compiled) :=
  jobs.map fun job => (job.name, compile job.dialect config job.request)

end ShaderBytecode
