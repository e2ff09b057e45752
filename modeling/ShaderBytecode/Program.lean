import ShaderBytecode.Emit.Code
import ShaderBytecode.Listing

/-!
# Programs

A program is the code of a source and what is known about it: its variables, structures and
functions with their addresses. All functions stand in the order of the registry, behind them the
initialisation of the globals.
-/

namespace ShaderBytecode

/-- The registries of a compiled source. The empty program has no stage. -/
structure Program where
  stage : Option Stage := none
  entryPoint : String := ""
  builtins : List Variable := []
  globals : List Variable := []
  structures : List Structure := []
  functions : List Function := []
  /-- The names of the locals of each function that has any. -/
  locals : List (String × List String) := []
  initAddress : Nat := 0
deriving DecidableEq, Repr, Inhabited

namespace Program

def isEmpty (p : Program) : Bool :=
  p.stage.isNone

def function? (p : Program) (name : String) : Option Function :=
  p.functions.find? (·.name = name)

/-- The names of the locals of a function, if it has any. -/
def localsOf? (p : Program) (function : String) : Option (List String) :=
  p.locals.lookup function

def entryAddress? (p : Program) : Option Nat :=
  (p.function? p.entryPoint).map (·.address)

def globalIndex? (p : Program) (name : String) : Option Nat :=
  (p.builtins ++ p.globals).findIdx? (·.name = name)

def struct? (p : Program) (name : String) : Option Structure :=
  p.structures.find? (·.name = name)

def initLabel : String := "<global init>"

def labelsAt (p : Program) (offset : Nat) : List String :=
  (p.functions.filter (·.address = offset)).map Function.display
    ++ if p.initAddress = offset then [initLabel] else []

def listing (p : Program) (bytes : List UInt8) : Except DecodeError String := do
  let entries ← disassemble bytes
  return String.join (entries.map fun e =>
    String.join ((p.labelsAt e.offset).map fun label => label ++ ":\n") ++ e.text ++ "\n")

end Program

/-- A compiled source: its instructions and registries. -/
structure Emitted where
  code : List Instruction
  functions : List Function
  initAddress : Nat
deriving DecidableEq, Repr

namespace Typed

/-- The instructions of functions from an offset on, and the functions with their addresses. -/
def emitFunctions (markers : Bool) :
    (position : Nat) → List Typed.Function →
      Except EmitFault (List Instruction × List ShaderBytecode.Function)
  | _, [] => .ok ([], [])
  | position, first :: rest =>
    match first.definition with
    | none => .error (.bodyMissing first.signature.name)
    | some definition => do
      let items := definition.code markers
      let code ← assemble position items
      let (more, functions) ← emitFunctions markers (position + Item.sizeAll items) rest
      return (code ++ more, { first.signature with address := position } :: functions)

def Registry.emit (r : Registry) (markers : Bool) : Except EmitFault Emitted := do
  let (code, functions) ← emitFunctions markers 0 r.functions
  let initAddress := sizeAll code
  let init ← assemble initAddress (r.initCode markers)
  return ⟨code ++ init, functions, initAddress⟩

/-- The names of the locals of each function that has any. -/
def Registry.localNames (r : Registry) : List (String × List String) :=
  r.functions.filterMap fun f => do
    let definition ← f.definition
    if definition.locals.isEmpty then none else some (f.signature.name, definition.locals)

end Typed

def Program.ofEmitted (r : Typed.Registry) (stage : Stage) (entryPoint : String) (e : Emitted) :
    Program where
  stage := some stage
  entryPoint := entryPoint
  builtins := r.builtins
  globals := r.globals.map (·.symbol)
  structures := r.structures
  functions := e.functions
  locals := r.localNames
  initAddress := e.initAddress

end ShaderBytecode
