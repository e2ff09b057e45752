import ShaderBytecode.Proofs.BodyWrites
import ShaderBytecode.Proofs.Registration

/-!
# What the declarations of a source write to

What is left in the registries by the parts of a source: which globals have a start value, which
functions are defined, and what all of them write to.
-/

namespace ShaderBytecode

open Typed (Cell Expr Registry Statement Write)

namespace Ast

/-- Which of the globals that a declaration declares have a start value. -/
def Declaration.starts : Declaration → List Bool
  | .declare v => v.declarators.map (·.initializer.isSome)
  | .buffer b => b.members.map fun _ => false
  | .struct _ | .function _ => []

def Part.starts : Part → List Bool
  | .global _ d => [d.initializer.isSome]
  | .member _ _ => [false]
  | .struct _ | .function _ => []

theorem flatMap_starts (declarations : List Declaration) :
    (declarations.flatMap Declaration.parts).flatMap Part.starts
      = declarations.flatMap Declaration.starts := by
  rw [List.flatMap_assoc]
  refine List.flatMap_congr fun declaration _ => ?_
  cases declaration with
  | struct s => rfl
  | declare v => exact (List.flatMap_map ..).trans List.map_eq_flatMap.symm
  | buffer b => exact (List.flatMap_map ..).trans List.map_eq_flatMap.symm
  | function f => rfl

end Ast

/-! ## Bodies -/

namespace Typed

def Registry.Open (c : Context) (r : Registry) (i : Nat) : Prop :=
  ∃ v, r.allGlobals[i]? = some v ∧ v.isReadOnly c = false

theorem Registry.permits_open (c : Context) (r : Registry) : r.Permits c (r.Open c) :=
  fun _ v hv hreadOnly => ⟨v, hv, hreadOnly⟩

theorem Registry.Open.mono {c : Context} {r r' : Registry} (h : r.allGlobals <+: r'.allGlobals)
    {i : Nat} : r.Open c i → r'.Open c i := by
  rintro ⟨v, hv, hreadOnly⟩
  exact ⟨v, getElem?_mono h hv, hreadOnly⟩

theorem Cell.Open.mono {G G' : Nat → Prop} (hG : ∀ i, G i → G' i) {known : List Bool} {cell : Cell}
    (h : cell.Open G known) : cell.Open G' known := by
  cases cell with
  | slot n => exact h
  | global i => exact hG i h

/-- A function is registered with the body that the source defines for it. What is returned at its
end does nothing. -/
structure Function.Defines (G : Nat → Prop) (source : Ast.Function) (body : Ast.Body)
    (f : Function) (d : Definition) : Prop where
  name : f.signature.name = source.name
  count : f.signature.parameters.length = source.parameters.length
  definition : f.definition = some d
  locals : d.locals = (Ast.Statement.localsAll body.statements).map (·.1)
  keeps : Write.Keep G (source.parameters.map (·.isConst))
    ((Ast.Statement.localsAll body.statements).map (·.2)) (Statement.writesAll d.body)
  zero : Expr.optionAccesses d.zero = []

end Typed

namespace ModuleM

/-- The initializer of a global is typed where there are no locals. -/
theorem permits_outermost (c : Context) (r : Registry) :
    Env.Permits { context := c, registry := r } (Cell.Open (r.Open c) []) where
  slots := by
    intro name x hx
    cases hx
  globals := fun _ i v hv hreadOnly => ⟨v, Registry.getElem?_of_global? hv, hreadOnly⟩

/-- Parameters in sight are constants just if they are declared so. -/
theorem marks_parameterScope (signature : Function) (parameters : List Ast.Parameter) :
    BodyEnv.Marks (parameters.map (·.isConst)) [[], parameterScope signature parameters] := by
  refine List.forall_mem_cons.mpr ⟨List.forall_mem_nil _, List.forall_mem_singleton.mpr ?_⟩
  intro x hx
  obtain ⟨⟨⟨p, declared⟩, slot⟩, hmem, rfl⟩ := List.mem_map.mp (List.mem_filter.mp hx).1
  have hzip := List.mem_zipIdx_iff_getElem?.mp hmem
  have hdeclared : parameters[slot]? = some declared := (List.getElem?_zip_eq_some.mp hzip).2
  rw [List.getElem?_map, hdeclared]
  rfl

end ModuleM

namespace Typed.Registry

variable {c : Context} {r r' : Registry}

/-- The frame of a body that is accepted, and what the body comes to. -/
theorem declares_body {signature : ShaderBytecode.Function} {f : Ast.Function} {body : Ast.Body}
    {statements : List Statement} {frame : List FrameLocal}
    (hcount : signature.parameters.length = f.parameters.length)
    (hrun : ((r.bodyEnv c signature).statements false
      [[], parameterScope signature f.parameters] body.statements).run [] = .ok statements frame) :
    frame.map FrameM.placeOf
        = (Ast.Statement.declaredAll body.statements).map (fun x => (x.2.name, x.2.span))
      ∧ BodyEnv.KeptAll (r.bodyEnv c signature) (r.Open c) (f.parameters.map (·.isConst))
        (Ast.Statement.declaredAll body.statements)
        (Ast.Statement.meaningsAll (Scopes.sight [[], parameterScope signature f.parameters])
          (f.parameters.map (·.isConst)).length body.statements) statements :=
  have hbody := BodyEnv.statements_follows (b := r.bodyEnv c signature) (r.permits_open c)
    (.refl _ _) false
    ⟨ModuleM.marks_parameterScope signature f.parameters, rfl, List.cons_ne_nil _ _⟩ body.statements
    [] statements frame (by rw [List.length_map, ← hcount]; rfl) hrun
  ⟨hbody.1, hbody.2.1⟩

namespace AcceptsBody

variable {signature : ShaderBytecode.Function} {f : Ast.Function} {body : Ast.Body}
variable {d : Definition} (h : r.AcceptsBody c signature f body d)
variable (hcount : signature.parameters.length = f.parameters.length)
include h hcount

/-- Each local of a function has the type that its declaration names. -/
theorem localTypes : (r.bodyEnv c signature).AllDeclareAs
    (Ast.Statement.declaredAll body.statements) (Statement.localTypesAll d.body) := by
  obtain ⟨frame, hrun, -⟩ := h.statements
  exact (declares_body hcount hrun).2.types

theorem locals_eq : d.locals = (Ast.Statement.declaredAll body.statements).map (·.2.name) := by
  obtain ⟨frame, hrun, hlocals⟩ := h.statements
  rw [hlocals]
  simpa [Function.comp_def] using congrArg (List.map Prod.fst) (declares_body hcount hrun).1

end AcceptsBody

theorem DefinedBy.defines {source : Ast.Function} {body : Ast.Body} {g : Function} {d : Definition}
    (h : r.DefinedBy c source body g d) : g.Defines (r.Open c) source body d := by
  obtain ⟨r₀, r₁, index, hbefore, hsignature, -, hd⟩ := h.accepted
  have hsignature := Env.signatureOf_of_functionSignature hsignature
  have hcount := hsignature.parameters.length_eq
  obtain ⟨frame, hrun, -⟩ := hd.statements
  have hkeeps := (declares_body hcount.symm hrun).2.writes
  refine ⟨hsignature.name, hcount.symm, h.definition, ?_, ?_, ?_⟩
  · rw [hd.locals_eq hcount.symm, Ast.Statement.localsAll_eq, List.map_map]
    rfl
  · rw [Ast.Statement.localsAll_eq, List.map_map]
    exact ⟨fun w hw i hi => (hkeeps.globals w hw i hi).mono hbefore.globals, hkeeps.slots⟩
  obtain hzero | ⟨code, hzero⟩ := hd.zero
  · rw [hzero]
    rfl
  · rw [hzero]
    rfl

/-! ## Registries -/

/-- What is known of the globals after parts of a source. -/
structure Started (c : Context) (parts : List Ast.Part) (r : Registry) : Prop where
  builtins : ∀ v ∈ r.builtins, v.buffer = none
  starts : r.globals.map (·.initializer.isSome) = parts.flatMap Ast.Part.starts
  values : ∀ g ∈ r.globals, ∀ value ∈ g.initializer,
    Write.Only (Cell.Open (r.Open c) []) value.writes
  buffers : ∀ g ∈ r.globals, g.symbol.buffer ≠ none → g.symbol.storage = some .uniform

variable {parts : List Ast.Part}

theorem Started.addGlobal (h : r.Started c parts) {part : Ast.Part} {g : Global}
    (hstarts : part.starts = [g.initializer.isSome])
    (hvalue : ∀ value ∈ g.initializer, Write.Only (Cell.Open (r.Open c) []) value.writes)
    (hbuffer : g.symbol.buffer ≠ none → g.symbol.storage = some .uniform) :
    { r with globals := r.globals ++ [g] }.Started c (parts ++ [part]) := by
  have hgrows : ∀ i, r.Open c i → { r with globals := r.globals ++ [g] }.Open c i :=
    fun i => Open.mono (precedes_addGlobal g).globals
  refine ⟨h.builtins, ?_, ?_, ?_⟩
  · rw [List.map_append, h.starts, List.flatMap_append, List.flatMap_singleton, hstarts]
    rfl
  · refine List.forall_mem_append.mpr ⟨fun g' hg' value hv w hw => ?_,
      List.forall_mem_singleton.mpr fun value hv w hw => ?_⟩
    · exact (h.values g' hg' value hv w hw).mono hgrows
    · exact (hvalue value hv w hw).mono hgrows
  · exact List.forall_mem_append.mpr ⟨h.buffers, List.forall_mem_singleton.mpr hbuffer⟩

theorem Started.skip (h : r.Started c parts) (part : Ast.Part) (hstarts : part.starts = []) :
    r.Started c (parts ++ [part]) := by
  refine ⟨h.builtins, ?_, h.values, h.buffers⟩
  rw [h.starts, List.flatMap_append, List.flatMap_singleton, hstarts, List.append_nil]

theorem Registers.started {part : Ast.Part} (h : r.Registers c part r') (hr : r.Started c parts) :
    r'.Started c (parts ++ [part]) := by
  have hplaced : ∀ {f signature index r₁}, r.Places c signature f index r₁ →
      r₁.Started c (parts ++ [.function f]) := by
    intro f signature index r₁ hplace
    have hskipped := hr.skip (.function f) rfl
    cases hplace with
    | again => exact hskipped
    | first => exact ⟨hskipped.builtins, hskipped.starts, hskipped.values, hskipped.buffers⟩
  cases h with
  | @struct s =>
    have hskipped := hr.skip (.struct s) rfl
    exact ⟨hskipped.builtins, hskipped.starts, hskipped.values, hskipped.buffers⟩
  | @global v d type value _ _ _ hvalue =>
    refine hr.addGlobal (congrArg (fun flag => [flag]) ?_) ?_ fun hne => absurd rfl hne
    · generalize d.initializer = start at hvalue
      cases hvalue <;> rfl
    · rintro t ⟨⟩
      generalize d.initializer = start at hvalue
      cases hvalue with
      | some htyped => exact Env.exprOf_writes (ModuleM.permits_outermost c r) _ t htyped
  | member => exact hr.addGlobal rfl nofun fun _ => rfl
  | prototype _ hplace => exact hplaced hplace
  | function _ hplace =>
    have hbefore := hplaced hplace
    exact ⟨hbefore.builtins, hbefore.starts, hbefore.values, hbefore.buffers⟩

/-- What is known of the registries after parts of a source: which globals have a start value, and
which functions are defined. -/
structure Tracks (c : Context) (parts : List Ast.Part) (r : Registry) : Prop
    extends r.Started c parts where
  bodies : ∀ g ∈ r.functions, ∀ d ∈ g.definition,
    ∃ source body, g.Defines (r.Open c) source body d
  defined : ∀ source body, .function source ∈ parts → source.body = some body →
    ∃ g ∈ r.functions, ∃ d, g.Defines (r.Open c) source body d

/-- What the parts of a source leave behind the variables of a stage. -/
theorem Run.tracks {d : Dialect} {stage : Stage}
    (h : Run c parts { builtins := stageVariables d stage } r) : r.Tracks c parts where
  toStarted := by
    have hstart : ({ builtins := stageVariables d stage } : Registry).Started c [] := by
      refine ⟨?_, rfl, List.forall_mem_nil _, List.forall_mem_nil _⟩
      cases d <;> cases stage <;> decide
    exact h.keepsSoFar (P := Started c) (fun _ _ _ _ hstep => hstep.started) hstart
  bodies := by
    intro g hg d hd
    obtain ⟨source, body, -, hdefined⟩ := h.exists_source rfl g hg d hd
    exact ⟨source, body, hdefined.defines⟩
  defined := by
    intro source body hsource hbody
    obtain ⟨g, hg, d, hdefined⟩ := h.exists_definedBy hsource hbody
    exact ⟨g, hg, d, hdefined.defines⟩

end Typed.Registry

end ShaderBytecode
