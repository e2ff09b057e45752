import ShaderBytecode.CallGraph
import ShaderBytecode.Program

/-!
# Relabelled typed trees

What becomes of a typed source if structures and other declared things are called by other names and
its parts stand elsewhere. Its code does not change, since neither names nor places get into code,
apart from the lines that markers name.
-/

namespace ShaderBytecode

/-- New names, spans and lines. -/
structure Relabelling where
  name : String → String
  span : Span → Span
  line : Nat → Nat

/-! ## Types -/

namespace DataType

def rename (name : String → String) : DataType → DataType
  | .struct s => .struct (name s)
  | .array element length => .array (element.rename name) length
  | other => other

variable {name : String → String}

@[simp]
theorem rename_void : rename name .void = .void := rfl

@[simp]
theorem rename_scalar (kind : ScalarKind) : rename name (.scalar kind) = .scalar kind := rfl

@[simp]
theorem rename_int : rename name .int = .int := rfl

@[simp]
theorem rename_float : rename name .float = .float := rfl

@[simp]
theorem rename_bool : rename name .bool = .bool := rfl

@[simp]
theorem rename_sampler2D : rename name .sampler2D = .sampler2D := rfl

@[simp]
theorem rename_withComponents (kind : ScalarKind) (size : UInt8) :
    rename name (withComponents kind size) = withComponents kind size := by
  unfold withComponents
  split <;> rfl

@[simp]
theorem rename_floatVector (size : UInt8) : rename name (floatVector size) = floatVector size :=
  rename_withComponents .float size

variable (t : DataType)

@[simp]
theorem scalarKind?_rename : (t.rename name).scalarKind? = t.scalarKind? := by
  cases t <;> rfl

@[simp]
theorem componentCount?_rename : (t.rename name).componentCount? = t.componentCount? := by
  cases t <;> rfl

@[simp]
theorem isVoid_rename : (t.rename name).isVoid = t.isVoid := by
  cases t <;> rfl

@[simp]
theorem isScalar_rename : (t.rename name).isScalar = t.isScalar := by
  cases t <;> rfl

@[simp]
theorem isMatrix_rename : (t.rename name).isMatrix = t.isMatrix := by
  cases t <;> rfl

@[simp]
theorem isBool_rename : (t.rename name).isBool = t.isBool := by
  cases t <;> rfl

@[simp]
theorem isNumeric_rename : (t.rename name).isNumeric = t.isNumeric := by
  cases t <;> rfl

@[simp]
theorem hasFloats_rename : (t.rename name).hasFloats = t.hasFloats := by
  cases t <;> rfl

@[simp]
theorem isIntBased_rename : (t.rename name).isIntBased = t.isIntBased := by
  cases t <;> rfl

@[simp]
theorem isFloatScalarOrVector_rename :
    (t.rename name).isFloatScalarOrVector = t.isFloatScalarOrVector := by
  cases t <;> rfl

theorem toFloatBased_rename : (t.rename name).toFloatBased = t.toFloatBased.rename name := by
  cases t with
  | scalar kind => cases kind <;> rfl
  | vector kind size => cases kind <;> rfl
  | _ => rfl

theorem rename_id : t.rename id = t := by
  induction t with
  | array element length ih => rw [rename, ih]
  | _ => rfl

theorem rename_inj (h : Function.Injective name) {t t' : DataType} :
    t.rename name = t'.rename name ↔ t = t' := by
  refine ⟨fun heq => ?_, fun heq => by rw [heq]⟩
  induction t generalizing t' with
  | struct struct =>
    cases t' with
    | struct struct' => rw [h (DataType.struct.inj heq)]
    | _ => cases heq
  | array element length ih =>
    cases t' with
    | array element' length' =>
      obtain ⟨helement, rfl⟩ := DataType.array.inj heq
      rw [ih helement]
    | _ => cases heq
  | void => cases t' <;> first | rfl | cases heq
  | sampler2D => cases t' <;> first | rfl | cases heq
  | scalar kind => cases t' <;> first | exact heq | cases heq
  | vector kind size => cases t' <;> first | exact heq | cases heq
  | matrix columns rows => cases t' <;> first | exact heq | cases heq

end DataType

/-! ## Symbols -/

section Symbols

variable (name : String → String)

/-- A member of a renamed structure. Members keep their own names. -/
def Member.rename (m : Member) : Member :=
  { m with type := m.type.rename name }

def Structure.rename (s : Structure) : Structure :=
  ⟨name s.name, s.members.map (Member.rename name)⟩

def Variable.rename (v : Variable) : Variable :=
  { v with
    name := name v.name
    type := v.type.rename name
    buffer := v.buffer.map fun b => { b with name := name b.name } }

def Parameter.rename (p : Parameter) : Parameter :=
  { p with name := name p.name, type := p.type.rename name }

def Function.rename (f : Function) : Function :=
  { f with
    name := name f.name
    returnType := f.returnType.rename name
    parameters := f.parameters.map (Parameter.rename name) }

def ModuleFault.rename : ModuleFault → ModuleFault
  | .undefined signature => .undefined (signature.rename name)
  | .selfCall function => .selfCall (name function)
  | .callCycle caller callee => .callCycle (name caller) (name callee)

/-- A program with other names. The variables of the stage keep theirs. -/
def Program.rename (p : Program) : Program :=
  { p with
    entryPoint := name p.entryPoint
    globals := p.globals.map (Variable.rename name)
    structures := p.structures.map (Structure.rename name)
    functions := p.functions.map (Function.rename name)
    locals := p.locals.map fun entry => (name entry.1, entry.2.map name) }

end Symbols

/-! ## Trees -/

namespace Typed

mutual

def Expr.relabel (m : Relabelling) : Expr → Expr
  | .int value => .int value
  | .float value => .float value
  | .bool value => .bool value
  | .localVar slot type => .localVar slot (type.rename m.name)
  | .globalVar place type => .globalVar place (type.rename m.name)
  | .member base place type => .member (base.relabel m) place (type.rename m.name)
  | .swizzle base components type =>
    .swizzle (base.relabel m) components (type.rename m.name)
  | .index base place type => .index (base.relabel m) (place.relabel m) (type.rename m.name)
  | .unary op operand => .unary op (operand.relabel m)
  | .arith op left right type =>
    .arith op (left.relabel m) (right.relabel m) (type.rename m.name)
  | .compare op left right => .compare op (left.relabel m) (right.relabel m)
  | .logic op left right => .logic op (left.relabel m) (right.relabel m)
  | .ternary test whenTrue whenFalse =>
    .ternary (test.relabel m) (whenTrue.relabel m) (whenFalse.relabel m)
  | .assign op target value => .assign op (target.relabel m) (value.relabel m)
  | .step op target => .step op (target.relabel m)
  | .call function arguments type =>
    .call ⟨function.value, m.span function.span⟩ (Argument.relabelAll m arguments)
      (type.rename m.name)
  | .intrinsic function arguments type =>
    .intrinsic function (Expr.relabelAll m arguments) (type.rename m.name)
  | .construct type code arguments =>
    .construct (type.rename m.name) code (Expr.relabelAll m arguments)

def Place.relabel (m : Relabelling) : Place → Place
  | .localVar slot type => .localVar slot (type.rename m.name)
  | .globalVar place type => .globalVar place (type.rename m.name)
  | .member base place type => .member (base.relabel m) place (type.rename m.name)
  | .swizzle base components type =>
    .swizzle (base.relabel m) components (type.rename m.name)
  | .index base place type => .index (base.relabel m) (place.relabel m) (type.rename m.name)

def Argument.relabel (m : Relabelling) : Argument → Argument
  | .value e => .value (e.relabel m)
  | .reference place => .reference (place.relabel m)

def Expr.relabelAll (m : Relabelling) : List Expr → List Expr
  | [] => []
  | first :: rest => first.relabel m :: Expr.relabelAll m rest

def Argument.relabelAll (m : Relabelling) : List Argument → List Argument
  | [] => []
  | first :: rest => first.relabel m :: Argument.relabelAll m rest

end

mutual

def Statement.relabel (m : Relabelling) : Statement → Statement
  | .expr value line => .expr (value.relabel m) (m.line line)
  | .declare slot value line => .declare slot (value.relabel m) (m.line line)
  | .ifElse test whenTrue whenFalse line =>
    .ifElse (test.relabel m) (Statement.relabelAll m whenTrue) (Statement.relabelAll m whenFalse)
      (m.line line)
  | .loop test step body line =>
    .loop (test.map (Expr.relabel m)) (step.map (Expr.relabel m)) (Statement.relabelAll m body)
      (m.line line)
  | .doLoop body test line =>
    .doLoop (Statement.relabelAll m body) (test.relabel m) (m.line line)
  | .returnFrom value line => .returnFrom (value.map (Expr.relabel m)) (m.line line)
  | .leave kind line => .leave kind (m.line line)
  | .discardPixel line => .discardPixel (m.line line)
  | .block body => .block (Statement.relabelAll m body)

def Statement.relabelAll (m : Relabelling) : List Statement → List Statement
  | [] => []
  | first :: rest => first.relabel m :: Statement.relabelAll m rest

end

variable (m : Relabelling)

def Definition.relabel (d : Definition) : Definition :=
  ⟨d.locals.map m.name, Statement.relabelAll m d.body, d.zero.map (Expr.relabel m)⟩

def Function.relabel (f : Function) : Function :=
  ⟨f.signature.rename m.name, f.definition.map (Definition.relabel m), m.span f.span⟩

def Global.relabel (g : Global) : Global :=
  ⟨g.symbol.rename m.name, g.initializer.map (Expr.relabel m), m.line g.line⟩

/-- Relabelled registries. The variables of the stage are given. -/
def Registry.relabel (builtins : List Variable) (r : Registry) : Registry :=
  ⟨builtins, r.globals.map (Global.relabel m), r.structures.map (Structure.rename m.name),
    r.functions.map (Function.relabel m)⟩

def Mention.relabel : Mention → Mention
  | .slot n => .slot n
  | .global i => .global i
  | .call f => .call ⟨f.value, m.span f.span⟩

variable {m}

@[simp]
theorem Place.type_relabel (p : Place) : (p.relabel m).type = p.type.rename m.name := by
  cases p <;> rfl

@[simp]
theorem Expr.type_relabel : (e : Expr) → (e.relabel m).type = e.type.rename m.name
  | .int _ | .float _ | .bool _ | .localVar _ _ | .globalVar _ _ | .member _ _ _
  | .swizzle _ _ _ | .index _ _ _ | .arith _ _ _ _ | .compare _ _ _ | .logic _ _ _
  | .call _ _ _ | .intrinsic _ _ _ | .construct _ _ _ => rfl
  | .unary _ operand => operand.type_relabel
  | .ternary _ whenTrue _ => whenTrue.type_relabel
  | .assign _ target _ | .step _ target => target.type_relabel

theorem Expr.relabelAll_eq_map (es : List Expr) : relabelAll m es = es.map (relabel m) := by
  induction es with
  | nil => rfl
  | cons first rest ih => rw [relabelAll, ih, List.map_cons]

@[simp]
theorem Expr.length_relabelAll (es : List Expr) : (relabelAll m es).length = es.length := by
  rw [relabelAll_eq_map, List.length_map]

@[simp]
theorem Argument.length_relabelAll (as : List Argument) :
    (relabelAll m as).length = as.length := by
  induction as with
  | nil => rfl
  | cons first rest ih => rw [relabelAll, List.length_cons, ih, List.length_cons]

theorem Statement.relabelAll_eq_map (body : List Statement) :
    relabelAll m body = body.map (relabel m) := by
  induction body with
  | nil => rfl
  | cons first rest ih => rw [relabelAll, ih, List.map_cons]

/-! ## Code -/

theorem Place.access?_relabel (p : Place) : (p.relabel m).access? = p.access? := by
  cases p <;> rfl

mutual

/-- The code of a relabelled expression is the code of the expression. -/
@[simp]
theorem Expr.code_relabel : (e : Expr) → (e.relabel m).code = e.code
  | .int _ | .float _ | .bool _ | .localVar _ _ | .globalVar _ _ => rfl
  | .member base _ _ | .swizzle base _ _ => by
    simp only [Expr.relabel, Expr.code, base.code_relabel]
  | .index base place _ => by
    simp only [Expr.relabel, Expr.code, base.code_relabel, place.code_relabel]
  | .unary _ operand => by
    simp only [Expr.relabel, Expr.code, operand.code_relabel]
  | .arith _ left right _ | .compare _ left right | .logic _ left right => by
    simp only [Expr.relabel, Expr.code, left.code_relabel, right.code_relabel]
  | .ternary test whenTrue whenFalse => by
    simp only [Expr.relabel, Expr.code, test.code_relabel, whenTrue.code_relabel, whenFalse.code_relabel]
  | .assign _ target value => by
    simp only [Expr.relabel, Expr.code, assignmentCode, target.access?_relabel, target.reference_relabel,
      value.code_relabel]
  | .step _ target => by
    simp only [Expr.relabel, Expr.code, target.reference_relabel]
  | .call _ arguments _ => by
    simp only [Expr.relabel, Expr.code, Argument.codeAll_relabelAll arguments,
      Argument.length_relabelAll]
  | .intrinsic _ arguments _ | .construct _ _ arguments => by
    simp only [Expr.relabel, Expr.code, Expr.codeAll_relabelAll arguments, Expr.length_relabelAll]

theorem Place.reference_relabel : (p : Place) → (p.relabel m).reference = p.reference
  | .localVar _ _ | .globalVar _ _ => rfl
  | .member base _ _ | .swizzle base _ _ => by
    simp only [Place.relabel, Place.reference, base.reference_relabel]
  | .index base place _ => by
    simp only [Place.relabel, Place.reference, base.reference_relabel, place.code_relabel]

theorem Argument.code_relabel : (a : Argument) → (a.relabel m).code = a.code
  | .value e => e.code_relabel
  | .reference p => p.reference_relabel

theorem Expr.codeAll_relabelAll : (es : List Expr) → Expr.codeAll (Expr.relabelAll m es) = Expr.codeAll es
  | [] => rfl
  | first :: rest => by
    simp only [Expr.relabelAll, Expr.codeAll, first.code_relabel, Expr.codeAll_relabelAll rest]

theorem Argument.codeAll_relabelAll :
    (as : List Argument) → Argument.codeAll (Argument.relabelAll m as) = Argument.codeAll as
  | [] => rfl
  | first :: rest => by
    simp only [Argument.relabelAll, Argument.codeAll, first.code_relabel, Argument.codeAll_relabelAll rest]

end

theorem Expr.effect_relabel (e : Expr) : (e.relabel m).effect = e.effect := by
  rw [effect, effect, code_relabel, type_relabel, DataType.isVoid_rename]

theorem Expr.optionEffect_relabel (e : Option Expr) :
    optionEffect (e.map (relabel m)) = optionEffect e := by
  cases e with
  | none => rfl
  | some e => exact e.effect_relabel

theorem returnCode_relabel (e : Option Expr) : returnCode (e.map (Expr.relabel m)) = returnCode e := by
  cases e with
  | none => rfl
  | some e => simp only [Option.map_some, returnCode, Expr.code_relabel]

theorem map_code_relabel (e : Option Expr) :
    (e.map (Expr.relabel m)).map Expr.code = e.map Expr.code := by
  cases e with
  | none => rfl
  | some e => simp only [Option.map_some, Expr.code_relabel]

theorem isEmpty_relabelAll (body : List Statement) :
    (Statement.relabelAll m body).isEmpty = body.isEmpty := by
  cases body <;> rfl

end Typed

def Relabelling.KeepsLines (m : Relabelling) (markers : Bool) : Prop :=
  markers = true → ∀ line, m.line line = line

namespace Typed

variable {m : Relabelling} {markers : Bool}

theorem marker_relabel (h : m.KeepsLines markers) (line : Nat) :
    marker markers (m.line line) = marker markers line := by
  cases markers with
  | false => rfl
  | true => rw [h rfl]

mutual

/-- The code of a relabelled statement is the code of the statement. -/
theorem Statement.code_relabel (h : m.KeepsLines markers) :
    (s : Statement) → (s.relabel m).code markers = s.code markers
  | .expr value line => by
    simp only [Statement.relabel, Statement.code, marker_relabel h, value.effect_relabel]
  | .declare _ value line => by
    simp only [Statement.relabel, Statement.code, marker_relabel h, value.code_relabel]
  | .ifElse test whenTrue whenFalse line => by
    simp only [Statement.relabel, Statement.code, marker_relabel h, test.code_relabel, Statement.codeAll_relabelAll h whenTrue,
      Statement.codeAll_relabelAll h whenFalse, isEmpty_relabelAll]
  | .loop test step body line => by
    simp only [Statement.relabel, Statement.code, marker_relabel h, map_code_relabel, Expr.optionEffect_relabel,
      Statement.codeAll_relabelAll h body]
  | .doLoop body test line => by
    simp only [Statement.relabel, Statement.code, marker_relabel h, test.code_relabel, Statement.codeAll_relabelAll h body]
  | .returnFrom value line => by
    simp only [Statement.relabel, Statement.code, marker_relabel h, returnCode_relabel]
  | .leave _ line | .discardPixel line => by
    simp only [Statement.relabel, Statement.code, marker_relabel h]
  | .block body => by
    simp only [Statement.relabel, Statement.code, Statement.codeAll_relabelAll h body]

theorem Statement.codeAll_relabelAll (h : m.KeepsLines markers) :
    (body : List Statement) → Statement.codeAll markers (Statement.relabelAll m body) = Statement.codeAll markers body
  | [] => rfl
  | first :: rest => by
    simp only [Statement.relabelAll, Statement.codeAll, first.code_relabel h, Statement.codeAll_relabelAll h rest]

end

theorem endsInReturn_relabelAll (body : List Statement) :
    endsInReturn (Statement.relabelAll m body) = endsInReturn body := by
  unfold endsInReturn
  rw [Statement.relabelAll_eq_map, List.getLast?_map]
  cases body.getLast? with
  | none => rfl
  | some last => cases last <;> rfl

theorem Definition.code_relabel (h : m.KeepsLines markers) (d : Definition) :
    (d.relabel m).code markers = d.code markers := by
  simp only [relabel, code, Statement.codeAll_relabelAll h, endsInReturn_relabelAll,
    returnCode_relabel]

theorem Global.code_relabel (h : m.KeepsLines markers) (index : Nat) (g : Global) :
    (g.relabel m).code markers index = g.code markers index := by
  obtain ⟨symbol, initializer, line⟩ := g
  cases initializer with
  | none => rfl
  | some value => simp only [relabel, code, Option.map_some, marker_relabel h, Expr.code_relabel]

theorem Registry.initCode_relabel (h : m.KeepsLines markers) {builtins : List Variable}
    {r : Registry} (hbuiltins : builtins.length = r.builtins.length ∨ r.globals = []) :
    (r.relabel m builtins).initCode markers = r.initCode markers := by
  unfold initCode relabel
  simp only []
  congr 1
  obtain hlength | hnone := hbuiltins
  · rw [hlength, List.zipIdx_map, List.flatMap_map]
    congr 1
    funext entry
    exact entry.1.code_relabel h entry.2
  · rw [hnone]
    rfl

end Typed

def EmitFault.rename (name : String → String) : EmitFault → EmitFault
  | .bodyMissing function => .bodyMissing (name function)
  | .leaveOutsideLoop kind => .leaveOutsideLoop kind
  | .targetTooLarge target => .targetTooLarge target

def Emitted.rename (name : String → String) (e : Emitted) : Emitted :=
  { e with functions := e.functions.map (Function.rename name) }

theorem Item.rename_assemble (name : String → String) {position : Nat} {item : Item}
    {fault : EmitFault} (h : item.assemble position = .error fault) : fault.rename name = fault := by
  cases item with
  | op instruction => cases h
  | leave kind =>
    cases h
    rfl
  | jump condition distance =>
    unfold assemble at h
    simp only [] at h
    split at h
    · cases h
    · cases h
      rfl

theorem rename_assemble (name : String → String) {items : List Item} {position : Nat}
    {fault : EmitFault} (h : assemble position items = .error fault) : fault.rename name = fault := by
  induction items generalizing position with
  | nil => cases h
  | cons first rest ih =>
    simp only [assemble, bind, Except.bind] at h
    split at h
    · rename_i hfirst
      cases h
      exact Item.rename_assemble name hfirst
    · split at h
      · rename_i hrest
        cases h
        exact ih hrest
      · cases h

@[simp]
theorem mapError_ok {α ε ε' : Type} (k : ε → ε') (a : α) :
    (Except.ok a : Except ε α).mapError k = .ok a := rfl

@[simp]
theorem mapError_error {α ε ε' : Type} (k : ε → ε') (e : ε) :
    (Except.error e : Except ε α).mapError k = .error (k e) := rfl

namespace Typed

theorem emitFunctions_relabel (h : m.KeepsLines markers) (fs : List Function) (position : Nat) :
    emitFunctions markers position (fs.map (Function.relabel m)) =
      ((emitFunctions markers position fs).mapError (EmitFault.rename m.name)).map
        fun emitted => (emitted.1, emitted.2.map (ShaderBytecode.Function.rename m.name)) := by
  induction fs generalizing position with
  | nil => rfl
  | cons first rest ih =>
    obtain ⟨signature, definition, span⟩ := first
    cases definition with
    | none => rfl
    | some definition =>
      simp only [List.map_cons, Function.relabel, Option.map_some, emitFunctions,
        definition.code_relabel h, ih, bind, Except.bind]
      cases hcode : assemble position (definition.code markers) with
      | error fault => simp only [mapError_error, Except.map, rename_assemble m.name hcode]
      | ok code =>
        cases emitFunctions markers (position + Item.sizeAll (definition.code markers)) rest with
        | error fault => rfl
        | ok more => rfl

theorem Registry.emit_relabel (h : m.KeepsLines markers) {builtins : List Variable} {r : Registry}
    (hbuiltins : builtins.length = r.builtins.length ∨ r.globals = []) :
    (r.relabel m builtins).emit markers =
      ((r.emit markers).mapError (EmitFault.rename m.name)).map (Emitted.rename m.name) := by
  have hinit := initCode_relabel h hbuiltins
  have hfunctions := emitFunctions_relabel h r.functions 0
  simp only [emit, bind, Except.bind, hinit]
  rw [show (r.relabel m builtins).functions = r.functions.map (Function.relabel m) from rfl,
    hfunctions]
  cases emitFunctions markers 0 r.functions with
  | error fault => rfl
  | ok emitted =>
    simp only [mapError_ok, Except.map]
    cases hcode : assemble (sizeAll emitted.1) (r.initCode markers) with
    | error fault => simp only [mapError_error, rename_assemble m.name hcode]
    | ok code => rfl

theorem Registry.localNames_relabel (builtins : List Variable) (r : Registry) :
    (r.relabel m builtins).localNames
      = r.localNames.map fun entry => (m.name entry.1, entry.2.map m.name) := by
  unfold localNames relabel
  simp only [List.filterMap_map, List.map_filterMap]
  congr 1
  funext f
  obtain ⟨signature, definition, span⟩ := f
  cases definition with
  | none => rfl
  | some definition =>
    simp only [Function.comp, Function.relabel, Definition.relabel, bind, Option.bind,
      Option.map_some, List.isEmpty_map]
    split <;> rfl

end Typed

theorem Program.ofEmitted_relabel (m : Relabelling) (builtins : List Variable) (r : Typed.Registry)
    (stage : Stage) (entryPoint : String) (e : Emitted) :
    Program.ofEmitted (r.relabel m builtins) stage (m.name entryPoint) (e.rename m.name)
      = { (Program.ofEmitted r stage entryPoint e).rename m.name with builtins } := by
  simp only [ofEmitted, rename, Typed.Registry.localNames_relabel]
  simp only [Typed.Registry.relabel, Emitted.rename, List.map_map]
  rfl

theorem Program.function?_rename {name : String → String} (hname : Function.Injective name)
    (p : Program) (w : String) :
    (p.rename name).function? (name w) = (p.function? w).map (Function.rename name) := by
  unfold function? rename
  simp only [List.find?_map]
  congr 2
  funext f
  simp only [Function.comp, Function.rename, hname.eq_iff]

/-! ## Whole sources -/

namespace Typed

variable {m : Relabelling}

/-! ## Mentions -/

mutual

theorem Expr.mentions_relabel :
    (e : Expr) → (e.relabel m).mentions = e.mentions.map (Mention.relabel m)
  | .int _ | .float _ | .bool _ | .localVar _ _ | .globalVar _ _ => rfl
  | .member base _ _ | .swizzle base _ _ => by
    simp only [Expr.relabel, Expr.mentions, base.mentions_relabel]
  | .index base place _ => by
    simp only [Expr.relabel, Expr.mentions, base.mentions_relabel, place.mentions_relabel,
      List.map_append]
  | .unary _ operand => by
    simp only [Expr.relabel, Expr.mentions, operand.mentions_relabel]
  | .arith _ left right _ | .compare _ left right | .logic _ left right => by
    simp only [Expr.relabel, Expr.mentions, left.mentions_relabel, right.mentions_relabel,
      List.map_append]
  | .ternary test whenTrue whenFalse => by
    simp only [Expr.relabel, Expr.mentions, test.mentions_relabel, whenTrue.mentions_relabel,
      whenFalse.mentions_relabel, List.map_append]
  | .assign _ target value => by
    simp only [Expr.relabel, Expr.mentions, target.mentions_relabel, value.mentions_relabel,
      List.map_append]
  | .step _ target => by
    simp only [Expr.relabel, Expr.mentions, target.mentions_relabel]
  | .call _ arguments _ => by
    simp only [Expr.relabel, Expr.mentions, Argument.mentionsAll_relabelAll arguments,
      List.map_append, List.map_cons, List.map_nil, Mention.relabel]
  | .intrinsic _ arguments _ | .construct _ _ arguments => by
    simp only [Expr.relabel, Expr.mentions, Expr.mentionsAll_relabelAll arguments]

theorem Place.mentions_relabel :
    (p : Place) → (p.relabel m).mentions = p.mentions.map (Mention.relabel m)
  | .localVar _ _ | .globalVar _ _ => rfl
  | .member base _ _ | .swizzle base _ _ => by
    simp only [Place.relabel, Place.mentions, base.mentions_relabel]
  | .index base place _ => by
    simp only [Place.relabel, Place.mentions, base.mentions_relabel, place.mentions_relabel,
      List.map_append]

theorem Argument.mentions_relabel :
    (a : Argument) → (a.relabel m).mentions = a.mentions.map (Mention.relabel m)
  | .value e => e.mentions_relabel
  | .reference p => p.mentions_relabel

theorem Expr.mentionsAll_relabelAll : (es : List Expr) →
    Expr.mentionsAll (Expr.relabelAll m es) = (Expr.mentionsAll es).map (Mention.relabel m)
  | [] => rfl
  | first :: rest => by
    simp only [Expr.relabelAll, Expr.mentionsAll, first.mentions_relabel,
      Expr.mentionsAll_relabelAll rest, List.map_append]

theorem Argument.mentionsAll_relabelAll : (as : List Argument) →
    Argument.mentionsAll (Argument.relabelAll m as)
      = (Argument.mentionsAll as).map (Mention.relabel m)
  | [] => rfl
  | first :: rest => by
    simp only [Argument.relabelAll, Argument.mentionsAll, first.mentions_relabel,
      Argument.mentionsAll_relabelAll rest, List.map_append]

end

theorem Expr.optionMentions_relabel (e : Option Expr) :
    optionMentions (e.map (relabel m)) = (optionMentions e).map (Mention.relabel m) := by
  cases e with
  | none => rfl
  | some e => exact e.mentions_relabel

mutual

theorem Statement.mentions_relabel :
    (s : Statement) → (s.relabel m).mentions = s.mentions.map (Mention.relabel m)
  | .expr value _ | .declare _ value _ => by
    simp only [Statement.relabel, Statement.mentions, value.mentions_relabel]
  | .ifElse test whenTrue whenFalse _ => by
    simp only [Statement.relabel, Statement.mentions, test.mentions_relabel,
      Statement.mentionsAll_relabelAll whenTrue, Statement.mentionsAll_relabelAll whenFalse,
      List.map_append]
  | .loop test step body _ => by
    simp only [Statement.relabel, Statement.mentions, Expr.optionMentions_relabel,
      Statement.mentionsAll_relabelAll body, List.map_append]
  | .doLoop body test _ => by
    simp only [Statement.relabel, Statement.mentions, test.mentions_relabel,
      Statement.mentionsAll_relabelAll body, List.map_append]
  | .returnFrom value _ => by
    simp only [Statement.relabel, Statement.mentions, Expr.optionMentions_relabel]
  | .leave _ _ | .discardPixel _ => rfl
  | .block body => by
    simp only [Statement.relabel, Statement.mentions, Statement.mentionsAll_relabelAll body]

theorem Statement.mentionsAll_relabelAll : (body : List Statement) →
    Statement.mentionsAll (Statement.relabelAll m body)
      = (Statement.mentionsAll body).map (Mention.relabel m)
  | [] => rfl
  | first :: rest => by
    simp only [Statement.relabelAll, Statement.mentionsAll, first.mentions_relabel,
      Statement.mentionsAll_relabelAll rest, List.map_append]

end

theorem Mention.calls_relabel (mentions : List Mention) :
    Mention.calls (mentions.map (relabel m))
      = (Mention.calls mentions).map fun call => ⟨call.value, m.span call.span⟩ := by
  unfold Mention.calls
  rw [List.filterMap_map, List.map_filterMap]
  congr 1
  funext mention
  cases mention <;> rfl

end Typed

/-! ## Calls -/

def CallGraph.relocate (span : Span → Span) (g : CallGraph) : CallGraph :=
  g.map (List.map fun call => ⟨call.value, span call.span⟩)

def BackEdge.relocate (span : Span → Span) (e : BackEdge) : BackEdge :=
  { e with span := span e.span }

theorem foldlM_mapError {α β ε ε' : Type} {k : ε → ε'} {f : β → α → Except ε β}
    {f' : β → α → Except ε' β} (h : ∀ b a, f' b a = (f b a).mapError k) (as : List α) (b : β) :
    as.foldlM f' b = (as.foldlM f b).mapError k := by
  induction as generalizing b with
  | nil => rfl
  | cons first rest ih =>
    simp only [List.foldlM_cons, bind, Except.bind, h]
    cases f b first with
    | error e => rfl
    | ok next => exact ih next

namespace CallGraph

variable (span : Span → Span) (g : CallGraph)

@[simp]
theorem length_relocate : (g.relocate span).length = g.length :=
  List.length_map _

theorem callsOf_relocate (function : Nat) : (g.relocate span).callsOf function
    = (g.callsOf function).map fun call => ⟨call.value, span call.span⟩ := by
  unfold callsOf relocate
  rw [List.getElem?_map]
  cases g[function]? <;> rfl

theorem searchFrom_relocate (depth : Nat) (path done : List Nat) (function : Nat) :
    (g.relocate span).searchFrom depth path done function
      = (g.searchFrom depth path done function).mapError (BackEdge.relocate span) := by
  induction depth generalizing path done function with
  | zero => rfl
  | succ depth ih =>
    simp only [searchFrom, callsOf_relocate, List.foldlM_map]
    rw [foldlM_mapError (f := fun done call =>
      if (function :: path).contains call.value then .error ⟨function, call.value, call.span⟩
      else if done.contains call.value || g.length ≤ call.value then .ok done
      else searchFrom g depth (function :: path) done call.value) (k := BackEdge.relocate span)]
    · cases List.foldlM (m := Except BackEdge) _ done (g.callsOf function) <;> rfl
    · intro done call
      simp only [ih, length_relocate]
      split
      · rfl
      · split <;> rfl

theorem backEdge?_relocate :
    (g.relocate span).backEdge? = g.backEdge?.map (BackEdge.relocate span) := by
  have hsearch : (g.relocate span).search = g.search.mapError (BackEdge.relocate span) := by
    unfold search
    rw [length_relocate]
    refine foldlM_mapError (fun done function => ?_) _ _
    rw [searchFrom_relocate]
    split <;> rfl
  unfold backEdge?
  rw [hsearch]
  cases g.search <;> rfl

end CallGraph

namespace Typed.Registry

variable {m : Relabelling} (builtins : List Variable) (r : Registry)

theorem callGraph_relabel : (r.relabel m builtins).callGraph = r.callGraph.relocate m.span := by
  unfold callGraph CallGraph.relocate relabel
  simp only [List.map_map]
  congr 1
  funext f
  obtain ⟨signature, definition, span⟩ := f
  cases definition with
  | none => rfl
  | some definition =>
    simp only [Function.comp, Function.relabel, Option.map_some, Definition.relabel,
      Statement.mentionsAll_relabelAll, Mention.calls_relabel]

theorem functionName_relabel (hempty : m.name "" = "") (i : Nat) :
    (r.relabel m builtins).functionName i = m.name (r.functionName i) := by
  unfold functionName relabel
  simp only [List.getElem?_map]
  cases r.functions[i]? with
  | none => exact hempty.symm
  | some f => rfl

theorem moduleFaults_relabel (hempty : m.name "" = "") : (r.relabel m builtins).moduleFaults
    = r.moduleFaults.map fun fault => ⟨fault.value.rename m.name, m.span fault.span⟩ := by
  have hundefined : (r.relabel m builtins).undefinedFunctions = r.undefinedFunctions.map
      fun fault => ⟨fault.value.rename m.name, m.span fault.span⟩ := by
    unfold undefinedFunctions relabel
    simp only [List.zipIdx_map, List.filter_map, List.map_map]
    congr 1
    congr 1
    funext entry
    simp [Function.comp, Function.relabel]
  have hrecursion : (r.relabel m builtins).recursion? = r.recursion?.map
      fun fault => ⟨fault.value.rename m.name, m.span fault.span⟩ := by
    unfold recursion?
    rw [callGraph_relabel, CallGraph.backEdge?_relocate]
    cases r.callGraph.backEdge? with
    | none => rfl
    | some edge =>
      simp only [Option.map_some, BackEdge.relocate, functionName_relabel _ _ hempty]
      split <;> rfl
  unfold moduleFaults
  rw [hundefined, hrecursion, List.map_append]
  cases r.recursion? <;> rfl

end Typed.Registry

end ShaderBytecode
