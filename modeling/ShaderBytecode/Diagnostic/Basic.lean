import ShaderBytecode.CallGraph
import ShaderBytecode.Diagnostic.Reading
import ShaderBytecode.Diagnostic.Typing
import ShaderBytecode.Emit.Item

/-!
# Diagnostics
-/

namespace ShaderBytecode

/-- Why a source is not compiled. -/
inductive Cause where
  | unsupportedStage (dialect : Dialect) (stage : Stage)
  | scanning (fault : LexFault)
  | reading (fault : SyntaxFault)
  | typing (dialect : Dialect) (fault : TypingFault)
  | checking (fault : ModuleFault)
  | emitting (fault : EmitFault)
  | entryPointMissing (name : String) (defined : List String)
deriving DecidableEq, Repr

/-- A cause and where it was found. -/
structure Diagnostic where
  cause : Cause
  span : Span := {}
deriving DecidableEq, Repr

def ModuleFault.message : ModuleFault → String
  | undefined signature => s!"Function '{signature.display}' is declared but never defined"
  | selfCall function => s!"Function '{function}' calls itself, recursion is not supported"
  | callCycle caller callee =>
    s!"Call from '{caller}' to '{callee}' creates a cycle, recursion is not supported"

def ModuleFault.kind : ModuleFault → ErrorKind
  | undefined _ => .unresolvedSymbol
  | selfCall _ | callCycle _ _ => .rule

def ModuleFault.details : ModuleFault → Details
  | undefined signature => [(.variableName, signature.name)]
  | selfCall name | callCycle _ name =>
    [(.variableName, name), (.compilationStage, "HIR Validation")]

def EmitFault.message : EmitFault → String
  | bodyMissing function => s!"Function '{function}' reached code generation without a body"
  | leaveOutsideLoop .breakLoop => "break reached code generation outside a loop"
  | leaveOutsideLoop .continueLoop => "continue reached code generation outside a loop"
  | targetTooLarge target => s!"Jump target {target} doesn't fit the operand"

namespace Cause

def kind : Cause → ErrorKind
  | unsupportedStage _ _ => .unsupportedStage
  | scanning _ => .lexical
  | reading _ => .grammar
  | typing _ fault => fault.kind
  | checking fault => fault.kind
  | emitting _ => .compiler
  | entryPointMissing _ _ => .entryPointNotFound

def message : Cause → String
  | unsupportedStage dialect stage => s!"{dialect.name} has no {stage.name} stage"
  | scanning fault => fault.message
  | reading fault => fault.message
  | typing dialect fault => fault.message dialect
  | checking fault => fault.message
  | emitting fault => fault.message
  | entryPointMissing name _ => s!"Entry point '{name}' not found"

def details : Cause → Details
  | unsupportedStage _ _ => [(.compilationStage, "Translation")]
  | scanning fault => fault.details
  | reading fault => fault.details
  | typing dialect fault => fault.details dialect
  | checking fault => fault.details
  | emitting _ => []
  | entryPointMissing name defined =>
    [(.variableName, name), (.compilationStage, "Translation")] ++
      if defined.isEmpty then []
      else [(.primarySuggestion, "Defined functions: " ++ String.intercalate ", " defined)]

end Cause

def Diagnostic.report (d : Diagnostic) : Report :=
  ⟨d.cause.kind, d.cause.message, d.span, d.cause.details⟩

end ShaderBytecode
