import ShaderBytecode.Proofs.CallChains
import ShaderBytecode.Proofs.VariableOperands

/-!
# What declarations register

Typing a source read backwards: what a declaration that is accepted has found out before it
registers something, what it registers, and what it remarks on. What each of these steps keeps holds
of the registries of every compiled source.
-/

namespace ShaderBytecode

open Typed (Registry)

namespace Ast

/-- What is registered on its own: a structure, a global variable, a member of a constant buffer, or
a function. -/
inductive Part where
  | struct (s : Structure)
  | global (v : Variables) (d : Declarator)
  | member (b : Buffer) (m : Member)
  | function (f : Function)

def Declaration.parts : Declaration → List Part
  | .struct s => [.struct s]
  | .declare v => v.declarators.map (.global v)
  | .buffer b => b.members.map (.member b)
  | .function f => [.function f]

def Declaration.defined : Declaration → List (Function × Body)
  | .function f => (f.body.map (f, ·)).toList
  | .struct _ | .declare _ | .buffer _ => []

theorem Declaration.mem_defined {declaration : Declaration} {f : Function} {body : Body} :
    (f, body) ∈ declaration.defined ↔ .function f ∈ declaration.parts ∧ f.body = some body := by
  cases declaration with
  | function g =>
    simp only [defined, parts, Option.mem_toList, Option.map_eq_some_iff, Prod.mk.injEq,
      List.mem_singleton, Part.function.injEq]
    constructor
    · rintro ⟨_, hbody, rfl, rfl⟩
      exact ⟨rfl, hbody⟩
    · rintro ⟨rfl, hbody⟩
      exact ⟨body, hbody, rfl, rfl⟩
  | _ => simp [defined, parts]

theorem mem_defined {declarations : List Declaration} {f : Function} {body : Body} :
    (f, body) ∈ declarations.flatMap Declaration.defined
      ↔ .function f ∈ declarations.flatMap Declaration.parts ∧ f.body = some body := by
  simp only [List.mem_flatMap, Declaration.mem_defined, ← and_assoc, exists_and_right]

def Variables.symbol (v : Variables) (d : Declarator) (type : DataType) : Variable :=
  { name := d.name, type, storage := v.storage, semantic := d.semantic, layout := v.layout }

def Buffer.symbol (b : Buffer) (m : Member) (type : DataType) : Variable where
  name := m.name
  type := type
  storage := some .uniform
  semantic := m.semantic
  buffer := some ⟨b.name, b.register⟩

end Ast

/-- A function is declared again with the same signature, and defined once. -/
theorem checkAgain_eq_ok_iff {earlier : Typed.Function} {signature : Function}
    {f : Ast.Function} : checkAgain earlier signature f = .ok ()
      ↔ earlier.signature.sameSignature signature = true
        ∧ (earlier.definition = none ∨ f.body = none) := by
  unfold checkAgain
  cases earlier.signature.sameSignature signature with
  | false => simp [Check.fail]
  | true =>
    cases earlier.definition with
    | none => simp
    | some definition =>
      cases f.body with
      | none => simp
      | some body => simp [Check.fail]

namespace Typed.Registry

abbrev outer (r : Registry) (c : Context) : Env :=
  { context := c, registry := r }

/-- The place of a function: that of an earlier declaration which the new one repeats, or a new
one. -/
inductive Places (c : Context) (r : Registry) (signature : ShaderBytecode.Function)
    (f : Ast.Function) : Nat → Registry → Prop
  | again {index : Nat} {earlier : Typed.Function}
      (hfound : r.function? f.name = some (index, earlier))
      (hagain : checkAgain earlier signature f = .ok ()) : Places c r signature f index r
  | first (hfound : r.function? f.name = none)
      (hname : (r.outer c).checkName f.name f.span = .ok ())
      (hintrinsic : Intrinsic.isName c.dialect f.name = false) :
      Places c r signature f r.functions.length
        { r with functions := r.functions ++ [⟨signature, none, f.span⟩] }

def bodyEnv (r : Registry) (c : Context) (signature : ShaderBytecode.Function) : BodyEnv :=
  ⟨c, r, signature.parameters.length, signature.returnType⟩

structure AcceptsBody (c : Context) (r : Registry) (signature : ShaderBytecode.Function)
    (f : Ast.Function) (body : Ast.Body) (d : Definition) : Prop where
  statements : ∃ frame, ((r.bodyEnv c signature).statements false
      [[], parameterScope signature f.parameters] body.statements).run [] = .ok d.body frame
    ∧ d.locals = frame.map (·.name)
  zero : d.zero = none ∨ ∃ code, d.zero = some (.construct signature.returnType code [])

/-- A part of a source is accepted and registered. -/
inductive Registers (c : Context) (r : Registry) : Ast.Part → Registry → Prop
  | struct {s : Ast.Structure} {members : List Member}
      (hname : (r.outer c).checkName s.name s.span = .ok ())
      (hmembers : structMembers (r.outer c) s.name [] s.members = .ok members) :
      Registers c r (.struct s) { r with structures := r.structures ++ [⟨s.name, members⟩] }
  | global {v : Ast.Variables} {d : Ast.Declarator} {type : DataType} {value : Option Expr}
      (htype : (r.outer c).resolveValueType v.type d.length .global = .ok type)
      (hname : (r.outer c).checkName d.name d.span = .ok ())
      (hstorage : checkStorage c type v.storage d = .ok ())
      (hvalue : Option.Rel (fun e t => (r.outer c).exprOf e type .initializer = .ok t)
        d.initializer value) :
      Registers c r (.global v d)
        { r with globals := r.globals ++ [⟨v.symbol d type, value, d.span.line⟩] }
  | member {b : Ast.Buffer} {m : Ast.Member} {type : DataType}
      (htype : (r.outer c).resolveValueType m.type m.length .bufferMember = .ok type)
      (hname : (r.outer c).checkName m.name m.span = .ok ()) :
      Registers c r (.member b m)
        { r with globals := r.globals ++ [⟨b.symbol m type, none, m.span.line⟩] }
  | prototype {f : Ast.Function} {signature : ShaderBytecode.Function} {index : Nat}
      {r' : Registry} (hsignature : functionSignature (r.outer c) f = .ok signature)
      (hplace : r.Places c signature f index r') (hbody : f.body = none) :
      Registers c r (.function f) r'
  | function {f : Ast.Function} {signature : ShaderBytecode.Function} {index : Nat}
      {r' : Registry} {body : Ast.Body} {d : Definition}
      (hsignature : functionSignature (r.outer c) f = .ok signature)
      (hplace : r.Places c signature f index r') (hbody : f.body = some body)
      (hd : r'.AcceptsBody c signature f body d) :
      Registers c r (.function f)
        { r' with functions := r'.functions.set index ⟨signature, some d, f.span⟩ }

inductive Run (c : Context) : List Ast.Part → Registry → Registry → Prop
  | nil {r : Registry} : Run c [] r r
  | cons {part : Ast.Part} {parts : List Ast.Part} {r r' r'' : Registry}
      (hpart : r.Registers c part r') (hparts : Run c parts r' r'') : Run c (part :: parts) r r''

namespace Run

variable {c : Context} {parts more : List Ast.Part} {r r' r'' : Registry}

theorem append (h : Run c parts r r') (h' : Run c more r' r'') : Run c (parts ++ more) r r'' := by
  induction h with
  | nil => exact h'
  | cons hpart _ ih => exact .cons hpart (ih h')

theorem keeps {P : Registry → Prop} (h : Run c parts r r')
    (hstep : ∀ part ∈ parts, ∀ r r', r.Registers c part r' → P r → P r') (hr : P r) : P r' := by
  induction h with
  | nil => exact hr
  | cons hpart _ ih =>
    exact ih (fun part hmem => hstep part (List.mem_cons_of_mem _ hmem))
      (hstep _ List.mem_cons_self _ _ hpart hr)

/-- What follows from the parts so far, if every step keeps that. -/
theorem keepsSoFar {P : List Ast.Part → Registry → Prop} (h : Run c parts r r')
    (hstep : ∀ done part r r', r.Registers c part r' → P done r → P (done ++ [part]) r')
    {done : List Ast.Part} (hr : P done r) : P (done ++ parts) r' := by
  induction h generalizing done with
  | nil => rwa [List.append_nil]
  | cons hpart _ ih =>
    have hparts := ih (hstep done _ _ _ hpart hr)
    rwa [List.append_assoc] at hparts

end Run

variable {c : Context} {r r' : Registry} {signature : ShaderBytecode.Function} {f : Ast.Function}
variable {index : Nat}

/-- A function that takes its place leaves everything but the functions as it was. -/
theorem Places.rest (h : r.Places c signature f index r') :
    r'.allGlobals = r.allGlobals ∧ r'.structures = r.structures := by
  cases h with
  | again => exact ⟨rfl, rfl⟩
  | first => exact ⟨rfl, rfl⟩

theorem Places.forall_functions {F : Typed.Function → Prop} (h : r.Places c signature f index r')
    (hr : ∀ g ∈ r.functions, F g) (hnew : F ⟨signature, none, f.span⟩) :
    ∀ g ∈ r'.functions, F g := by
  cases h with
  | again => exact hr
  | first => exact List.forall_mem_append.mpr ⟨hr, List.forall_mem_singleton.mpr hnew⟩

variable {part : Ast.Part} {parts : List Ast.Part} {source : Ast.Function} {body : Ast.Body}
  {g : Typed.Function}

theorem Registers.forall_functions {F : Typed.Function → Prop} (h : r.Registers c part r')
    (hr : ∀ g ∈ r.functions, F g) (hnew : ∀ f signature index r₁ definition, part = .function f →
      functionSignature (r.outer c) f = .ok signature → r.Places c signature f index r₁ →
      (∀ d ∈ definition, ∃ body, f.body = some body ∧ r₁.AcceptsBody c signature f body d) →
        F ⟨signature, definition, f.span⟩) : ∀ g ∈ r'.functions, F g := by
  cases h with
  | struct => exact hr
  | global => exact hr
  | member => exact hr
  | prototype hsignature hplace =>
    exact hplace.forall_functions hr (hnew _ _ _ _ none rfl hsignature hplace nofun)
  | function hsignature hplace hbody hd =>
    intro g hg
    obtain hg | rfl := List.mem_or_eq_of_mem_set hg
    · exact hplace.forall_functions hr (hnew _ _ _ _ none rfl hsignature hplace nofun) g hg
    · refine hnew _ _ _ _ (some _) rfl hsignature hplace ?_
      rintro _ ⟨⟩
      exact ⟨_, hbody, hd⟩

/-- Registries of the same source, of which one comes before the other. -/
structure Precedes (r r' : Registry) : Prop where
  globals : r.allGlobals <+: r'.allGlobals
  structures : r.structures <+: r'.structures

theorem Precedes.rfl : r.Precedes r :=
  ⟨List.prefix_rfl, List.prefix_rfl⟩

theorem Precedes.trans {r'' : Registry} (h : r.Precedes r') (h' : r'.Precedes r'') :
    r.Precedes r'' :=
  ⟨h.globals.trans h'.globals, h.structures.trans h'.structures⟩

theorem precedes_addGlobal (g : Global) : r.Precedes { r with globals := r.globals ++ [g] } := by
  refine ⟨?_, List.prefix_rfl⟩
  simp only [allGlobals, List.map_append, ← List.append_assoc]
  exact List.prefix_append _ _

theorem Places.precedes (h : r.Places c signature f index r') : r.Precedes r' := by
  obtain ⟨hglobals, hstructures⟩ := h.rest
  exact ⟨hglobals ▸ List.prefix_rfl, hstructures ▸ List.prefix_rfl⟩

theorem Registers.precedes (h : r.Registers c part r') : r.Precedes r' := by
  cases h with
  | struct => exact ⟨List.prefix_rfl, List.prefix_append _ _⟩
  | global => exact precedes_addGlobal _
  | member => exact precedes_addGlobal _
  | prototype _ hplace => exact hplace.precedes
  | function _ hplace => exact ⟨hplace.precedes.globals, hplace.precedes.structures⟩

theorem Run.precedes (h : Run c parts r r') : r.Precedes r' := by
  induction h with
  | nil => exact .rfl
  | cons hpart _ ih => exact hpart.precedes.trans ih

structure DefinedBy (c : Context) (r : Registry) (source : Ast.Function) (body : Ast.Body)
    (g : Typed.Function) (d : Definition) : Prop where
  hasBody : source.body = some body
  definition : g.definition = some d
  accepted : ∃ (r₀ r₁ : Registry) (index : Nat), r₁.Precedes r
    ∧ functionSignature (r₀.outer c) source = .ok g.signature
    ∧ r₀.Places c g.signature source index r₁ ∧ r₁.AcceptsBody c g.signature source body d

theorem DefinedBy.mono {d : Definition} (h : r.DefinedBy c source body g d) (hr : r.Precedes r') :
    r'.DefinedBy c source body g d := by
  obtain ⟨r₀, r₁, index, hbefore, hrest⟩ := h.accepted
  exact ⟨h.hasBody, h.definition, r₀, r₁, index, hbefore.trans hr, hrest⟩

/-- A function that is defined stays as it is: none is defined twice. -/
theorem Registers.mem_functions (h : r.Registers c part r') (hg : g ∈ r.functions)
    (hdefined : g.definition ≠ none) : g ∈ r'.functions := by
  have hplaced : ∀ {f signature index r₁}, r.Places c signature f index r₁ → g ∈ r₁.functions := by
    intro f signature index r₁ hplace
    cases hplace with
    | again => exact hg
    | first => exact List.mem_append_left _ hg
  cases h with
  | struct => exact hg
  | global => exact hg
  | member => exact hg
  | prototype _ hplace => exact hplaced hplace
  | @function f signature index r₁ body d hsignature hplace hbody hd =>
    obtain ⟨j, hj⟩ := List.getElem?_of_mem (hplaced hplace)
    have hne : index ≠ j := by
      rintro rfl
      cases hplace with
      | again hfound hagain =>
        cases (getElem?_of_function? hfound).symm.trans hj
        exact hdefined ((checkAgain_eq_ok_iff.mp hagain).2.resolve_right
          (hbody ▸ Option.some_ne_none body))
      | first =>
        cases List.getElem?_concat_length.symm.trans hj
        exact hdefined rfl
    exact List.mem_of_getElem? ((List.getElem?_set_ne hne).trans hj)

theorem Run.mem_functions (h : Run c parts r r') (hg : g ∈ r.functions)
    (hdefined : g.definition ≠ none) : g ∈ r'.functions :=
  h.keeps (P := fun r => g ∈ r.functions)
    (fun _ _ _ _ hstep hmem => hstep.mem_functions hmem hdefined) hg

theorem Places.definedBy {d : Definition} (h : r.Places c signature f index r')
    (hsignature : functionSignature (r.outer c) f = .ok signature) (hbody : f.body = some body)
    (hd : r'.AcceptsBody c signature f body d) :
    ⟨signature, some d, f.span⟩ ∈ r'.functions.set index ⟨signature, some d, f.span⟩
      ∧ { r' with functions := r'.functions.set index ⟨signature, some d, f.span⟩ }.DefinedBy c f
        body ⟨signature, some d, f.span⟩ d := by
  have hlt : index < r'.functions.length := by
    cases h with
    | again hfound => exact (List.getElem?_eq_some_iff.mp (getElem?_of_function? hfound)).1
    | first => simp
  exact ⟨List.mem_set hlt _, hbody, rfl, r, r', index, ⟨List.prefix_rfl, List.prefix_rfl⟩,
    hsignature, h, hd⟩

theorem Registers.exists_definedBy (h : r.Registers c (.function source) r')
    (hbody : source.body = some body) :
    ∃ g ∈ r'.functions, ∃ d, r'.DefinedBy c source body g d := by
  cases h with
  | prototype _ _ hnone => cases hnone.symm.trans hbody
  | function hsignature hplace hsome hd =>
    cases hsome.symm.trans hbody
    obtain ⟨hmem, hdefined⟩ := hplace.definedBy hsignature hbody hd
    exact ⟨_, hmem, _, hdefined⟩

theorem Run.exists_definedBy (h : Run c parts r r') (hsource : .function source ∈ parts)
    (hbody : source.body = some body) :
    ∃ g ∈ r'.functions, ∃ d, r'.DefinedBy c source body g d := by
  induction h with
  | nil => cases hsource
  | cons hpart hrest ih =>
    obtain rfl | hsource := List.mem_cons.mp hsource
    · obtain ⟨g, hg, d, hd⟩ := hpart.exists_definedBy hbody
      exact ⟨g, hrest.mem_functions hg (hd.definition ▸ Option.some_ne_none d), d,
        hd.mono hrest.precedes⟩
    · exact ih hsource

/-- Every function with a body has it from a definition of the source. -/
theorem Run.exists_source (h : Run c parts r r') (hr : r.functions = []) :
    ∀ g ∈ r'.functions, ∀ d ∈ g.definition, ∃ source body, .function source ∈ parts
      ∧ r'.DefinedBy c source body g d := by
  have hstart : ∀ g ∈ r.functions, ∀ d ∈ g.definition, ∃ source body,
      Ast.Part.function source ∈ []
      ∧ r.DefinedBy c source body g d := hr ▸ List.forall_mem_nil _
  refine h.keepsSoFar (P := fun done r => ∀ g ∈ r.functions, ∀ d ∈ g.definition, ∃ source body,
    Ast.Part.function source ∈ done ∧ r.DefinedBy c source body g d) ?_ hstart
  intro done part r r' hstep hdone
  refine hstep.forall_functions (fun g hg d hd => ?_) ?_
  · obtain ⟨source, body, hmem, hdefined⟩ := hdone g hg d hd
    exact ⟨source, body, List.mem_append_left _ hmem, hdefined.mono hstep.precedes⟩
  · intro f signature index r₁ definition hpart hsignature hplace hbody d hd
    obtain ⟨body, hsource, haccepts⟩ := hbody d hd
    obtain ⟨hglobals, hstructures⟩ := hplace.rest
    have hbefore : r₁.Precedes r' :=
      ⟨hglobals ▸ hstep.precedes.globals, hstructures ▸ hstep.precedes.structures⟩
    exact ⟨f, body, List.mem_append_right _ (List.mem_singleton.mpr hpart.symm), hsource, hd, r, r₁,
      index, hbefore, hsignature, hplace, haccepts⟩

/-- The remarks on the body of a function: on locals that hide globals, on locals that are not
used, and on a result that is missing. -/
def bodyRemarks (signature : ShaderBytecode.Function) (f : Ast.Function) (body : Ast.Body)
    (frame : List FrameLocal) (statements : List Statement) : List (Located Remark) :=
  hiddenRemarks frame ++ unusedRemarks signature.parameters.length frame statements
    ++ if missesReturn signature.returnType statements then [⟨.missingReturn f.name, body.span⟩]
      else []

/-- Remarks are those on a definition of the source which is registered. -/
def Notes (c : Context) (r : Registry) (definition : Ast.Function × Ast.Body)
    (remarks : List (Located Remark)) : Prop :=
  ∃ g ∈ r.functions, ∃ d r₁ frame, r.DefinedBy c definition.1 definition.2 g d
    ∧ ((bodyEnv r₁ c g.signature).statements false
      [[], parameterScope g.signature definition.1.parameters] definition.2.statements).run []
        = .ok d.body frame
    ∧ remarks = bodyRemarks g.signature definition.1 definition.2 frame d.body

/-- Remarks are those on some definitions of the source, one after the other. -/
def NotesAll (c : Context) (r : Registry) (defined : List (Ast.Function × Ast.Body))
    (remarks : List (Located Remark)) : Prop :=
  ∃ groups, List.Forall₂ (r.Notes c) defined groups ∧ remarks = groups.flatten

theorem Run.notes (h : Run c parts r r') {definition : Ast.Function × Ast.Body}
    {remarks : List (Located Remark)} (hnotes : r.Notes c definition remarks) :
    r'.Notes c definition remarks := by
  obtain ⟨g, hg, d, r₁, frame, hdefined, hrest⟩ := hnotes
  exact ⟨g, h.mem_functions hg (hdefined.definition ▸ Option.some_ne_none d), d, r₁, frame,
    hdefined.mono h.precedes, hrest⟩

end Typed.Registry

open Typed.Registry (Run bodyRemarks)

/-! ## Members and parameters -/

theorem Check.gives_unless {α β : Type} {P : α → Prop} {condition : Prop} [Decidable condition]
    {span : Span} {fault : TypingFault} {f : β → Check α} {rest : Check α}
    (h : ¬ condition → rest.Gives P) :
    Gives (if condition then Check.fail span fault >>= f else rest) P := by
  split
  · exact nofun
  · rename_i hcondition
    exact h hcondition

namespace Env

/-- A member of a structure as its declaration has it. -/
structure MemberOf (env : Env) (m : Ast.Member) (found : Member) : Prop where
  name : found.name = m.name
  resolves : env.resolveValueType m.type m.length .structMember = .ok found.type
  noSampler : found.type ≠ .sampler2D

structure ParameterOf (env : Env) (p : Ast.Parameter) (found : Parameter) : Prop where
  name : found.name = p.name.getD ""
  passing : found.passing = p.passing
  resolves : env.resolveValueType p.type p.length .parameter = .ok found.type
  noSampler : p.passing.byReference = true → found.type ≠ .sampler2D

variable {env : Env}

/-- The members that are found are those of the source, and their names are distinct. -/
theorem structMembers_gives {struct : String} (found : List Member) (ms : List Ast.Member) :
    (structMembers env struct found ms).Gives fun all => ∃ added, all = found ++ added
      ∧ List.Forall₂ env.MemberOf ms added
      ∧ ((found.map (·.name)).Nodup → (all.map (·.name)).Nodup) := by
  induction ms generalizing found with
  | nil => exact Check.gives_ok ⟨[], (List.append_nil _).symm, .nil, id⟩
  | cons first rest ih =>
    refine Check.gives_self.bind fun type htype => Check.gives_unless fun hsampler =>
      Check.gives_unless fun hnew all hall => ?_
    obtain ⟨added, rfl, hadded, hnodup⟩ := ih _ all hall
    refine ⟨⟨first.name, type, first.semantic⟩ :: added, List.append_assoc .., .cons
      ⟨rfl, htype, hsampler⟩ hadded, fun hfound => hnodup ?_⟩
    rw [List.map_append, List.map_singleton, List.nodup_append]
    refine ⟨hfound, List.pairwise_singleton .., ?_⟩
    rintro name hname _ hmem rfl
    obtain ⟨m, hm, rfl⟩ := List.mem_map.mp hname
    exact hnew (List.any_eq_true.mpr ⟨m, hm, decide_eq_true (List.mem_singleton.mp hmem)⟩)

def givenNames (parameters : List Parameter) : List String :=
  (parameters.map (·.name)).filter (!·.isEmpty)

theorem givenNames_append (first second : List Parameter) :
    givenNames (first ++ second) = givenNames first ++ givenNames second := by
  rw [givenNames, List.map_append, List.filter_append]
  rfl

/-- The parameters that are found are those of the source, and their names are distinct. -/
theorem functionParameters_gives {function : String} (found : List Parameter)
    (ps : List Ast.Parameter) :
    (functionParameters env function found ps).Gives fun all => ∃ added, all = found ++ added
      ∧ List.Forall₂ env.ParameterOf ps added
      ∧ ((givenNames found).Nodup → (givenNames all).Nodup) := by
  induction ps generalizing found with
  | nil => exact Check.gives_ok ⟨[], (List.append_nil _).symm, .nil, id⟩
  | cons first rest ih =>
    refine Check.gives_self.bind fun type htype => Check.gives_unless fun hsampler =>
      Check.gives_unless fun hnew all hall => ?_
    obtain ⟨added, rfl, hadded, hnodup⟩ := ih _ all hall
    refine ⟨⟨first.name.getD "", type, first.passing, first.semantic⟩ :: added,
      List.append_assoc .., .cons ⟨rfl, rfl, htype, fun hreference hsame => ?_⟩ hadded,
      fun hfound => hnodup ?_⟩
    · exact hsampler (Bool.and_eq_true_iff.mpr ⟨decide_eq_true hsame, hreference⟩)
    · rw [givenNames_append, List.nodup_append]
      refine ⟨hfound, (List.pairwise_singleton ..).filter _, ?_⟩
      rintro name hname _ hmem rfl
      obtain ⟨hmem, hgiven⟩ := List.mem_filter.mp hmem
      obtain ⟨p, hp, hsame⟩ := List.mem_map.mp (List.mem_filter.mp hname).1
      rw [List.map_singleton, List.mem_singleton] at hmem
      subst hmem
      exact hnew (Bool.and_eq_true_iff.mpr
        ⟨hgiven, List.any_eq_true.mpr ⟨p, hp, decide_eq_true hsame⟩⟩)

structure SignatureOf (env : Env) (f : Ast.Function) (signature : Function) : Prop where
  name : signature.name = f.name
  result : env.resolveType f.returnType none = .ok signature.returnType
  parameters : List.Forall₂ env.ParameterOf f.parameters signature.parameters
  names : (givenNames signature.parameters).Nodup

theorem signatureOf_of_functionSignature {f : Ast.Function} {signature : Function}
    (h : functionSignature env f = .ok signature) : env.SignatureOf f signature := by
  have hgives : (functionSignature env f).Gives fun signature => env.SignatureOf f signature := by
    refine Check.gives_self.bind fun type htype =>
      (functionParameters_gives [] f.parameters).bind ?_
    rintro _ ⟨added, rfl, hadded, hnodup⟩
    exact Check.gives_ok ⟨rfl, htype, hadded, hnodup List.nodup_nil⟩
  exact hgives signature h

end Env

theorem Typed.Registry.DefinedBy.name {c : Context} {r : Registry} {source : Ast.Function}
    {body : Ast.Body} {g : Typed.Function} {d : Typed.Definition}
    (h : r.DefinedBy c source body g d) : g.signature.name = source.name := by
  obtain ⟨r₀, -, -, -, hsignature, -, -⟩ := h.accepted
  exact (Env.signatureOf_of_functionSignature hsignature).name

/-! ## Declarations -/

namespace ModuleM

section Steps

variable {α β : Type} {r : Registry}

/-- A step that succeeds leaves registries, adds remarks and gives something, with a property. -/
def Yields (step : ModuleM α) (r : Registry)
    (P : Registry → List (Located Remark) → α → Prop) : Prop :=
  ∀ remarks a s, step.run ⟨r, remarks⟩ = .ok a s →
    ∃ added, s.remarks = remarks ++ added ∧ P s.registry added a

theorem yields_pure {P : Registry → List (Located Remark) → α → Prop} {a : α} (h : P r [] a) :
    Yields (pure a) r P := by
  rintro remarks _ _ ⟨⟩
  exact ⟨[], (List.append_nil _).symm, h⟩

variable {Q : Registry → List (Located Remark) → β → Prop} {f : α → ModuleM β}

theorem Yields.bind {P : Registry → List (Located Remark) → α → Prop} {step : ModuleM α}
    (h : Yields step r P)
    (h' : ∀ r' added a, P r' added a → Yields (f a) r' fun r'' more => Q r'' (added ++ more)) :
    Yields (step >>= f) r Q := by
  intro remarks b s hrun
  rw [EStateM.run_bind] at hrun
  cases hstep : step.run ⟨r, remarks⟩ with
  | ok a s' =>
    rw [hstep] at hrun
    obtain ⟨added, hadded, hP⟩ := h remarks a s' hstep
    obtain ⟨more, hmore, hQ⟩ := h' s'.registry added a hP s'.remarks b s hrun
    exact ⟨added ++ more, by rw [hmore, hadded, List.append_assoc], hQ⟩
  | error fault s' =>
    rw [hstep] at hrun
    cases hrun

theorem Yields.quiet {P : Registry → α → Prop} {step : ModuleM α}
    (h : Yields step r fun r' added a => P r' a ∧ added = [])
    (h' : ∀ r' a, P r' a → Yields (f a) r' Q) : Yields (step >>= f) r Q := by
  refine h.bind ?_
  rintro r' _ a ⟨hP, rfl⟩
  exact h' r' a hP

theorem Yields.check {P : α → Prop} {result : Check α} (h : result.Gives P)
    (h' : ∀ a, P a → Yields (f a) r Q) : Yields (ofCheck result >>= f) r Q := by
  cases result with
  | ok a => exact h' a (h a rfl)
  | error fault => exact fun _ _ _ => nofun

theorem yields_env {c : Context} {f : Env → ModuleM β} (h : Yields (f (r.outer c)) r Q) :
    Yields (env c >>= f) r Q :=
  fun remarks => h remarks

theorem yields_update {P : Registry → List (Located Remark) → Unit → Prop}
    {f : Registry → Registry} (h : P (f r) [] ()) : Yields (update f) r P := by
  rintro remarks _ _ ⟨⟩
  exact ⟨[], (List.append_nil _).symm, h⟩

theorem yields_remark {remarks : List (Located Remark)} {f : Unit → ModuleM β}
    (h : Yields (f ()) r fun r' more => Q r' (remarks ++ more)) :
    Yields (remark remarks >>= f) r Q := by
  intro earlier b s hrun
  obtain ⟨more, hmore, hQ⟩ := h (earlier ++ remarks) b s hrun
  exact ⟨remarks ++ more, hmore.trans (List.append_assoc ..), hQ⟩

end Steps

variable {c : Context} {r : Registry}

theorem struct_registers (s : Ast.Structure) :
    Yields (struct c s) r fun r' added _ => r.Registers c (.struct s) r' ∧ added = [] :=
  yields_env <| Yields.check Check.gives_self fun _ hname =>
    Yields.check Check.gives_self fun _ hmembers => yields_update ⟨.struct hname hmembers, rfl⟩

theorem addGlobal_registers {g : Typed.Global} {part : Ast.Part}
    (h : r.Registers c part { r with globals := r.globals ++ [g] }) :
    Yields (addGlobal g) r fun r' added _ => r.Registers c part r' ∧ added = [] :=
  yields_update ⟨h, rfl⟩

theorem globalVariable_registers (v : Ast.Variables) (d : Ast.Declarator) :
    Yields (globalVariable c v d) r fun r' added _ =>
      r.Registers c (.global v d) r' ∧ added = [] := by
  refine yields_env (Yields.check Check.gives_self fun type htype => ?_)
  refine Yields.check Check.gives_self fun _ hname =>
    Yields.check Check.gives_self fun _ hstorage => ?_
  cases hinitializer : d.initializer with
  | none =>
    refine addGlobal_registers (.global htype hname hstorage ?_)
    rw [hinitializer]
    exact .none
  | some e =>
    simp only [map_eq_pure_bind, bind_assoc, pure_bind]
    refine Yields.check Check.gives_self fun value hvalue =>
      addGlobal_registers (.global htype hname hstorage ?_)
    rw [hinitializer]
    exact .some hvalue

theorem bufferMember_registers (b : Ast.Buffer) (m : Ast.Member) :
    Yields (bufferMember c ⟨b.name, b.register⟩ m) r fun r' added _ =>
      r.Registers c (.member b m) r' ∧ added = [] :=
  yields_env <| Yields.check Check.gives_self fun _ htype =>
    Yields.check Check.gives_self fun _ hname => addGlobal_registers (.member htype hname)

theorem functionIndex_places {signature : Function} {f : Ast.Function} :
    Yields (functionIndex c signature f) r fun r' added index =>
      r.Places c signature f index r' ∧ added = [] := by
  refine yields_env ?_
  cases hfound : r.function? f.name with
  | some found =>
    obtain ⟨index, earlier⟩ := found
    simp only []
    exact Yields.check Check.gives_self fun _ hagain => yields_pure ⟨.again hfound hagain, rfl⟩
  | none =>
    simp only []
    refine Yields.check Check.gives_self fun _ hname => ?_
    split
    · exact fun _ _ _ => nofun
    · rename_i hintrinsic
      refine Yields.quiet (P := fun r' _ =>
        r' = { r with functions := r.functions ++ [⟨signature, none, f.span⟩] })
        (yields_update ⟨rfl, rfl⟩) ?_
      rintro _ _ rfl
      exact yields_pure ⟨.first hfound hname (Bool.eq_false_iff.mpr hintrinsic), rfl⟩

theorem zeroResult_yields {returnType : DataType} :
    Yields (zeroResult c returnType) r fun r' added zero =>
      (r' = r ∧ (zero = none ∨ ∃ code, zero = some (.construct returnType code [])))
        ∧ added = [] := by
  unfold zeroResult
  split
  · exact yields_pure ⟨⟨rfl, .inl rfl⟩, rfl⟩
  · exact yields_env (Yields.check Check.gives_true fun code _ =>
      yields_pure ⟨⟨rfl, .inr ⟨code, rfl⟩⟩, rfl⟩)

theorem functionBody_accepts {signature : Function} {f : Ast.Function} {body : Ast.Body} :
    Yields (functionBody c signature f body) r fun r' added d =>
      r' = r ∧ r.AcceptsBody c signature f body d
        ∧ ∃ frame, ((r.bodyEnv c signature).statements false
            [[], parameterScope signature f.parameters] body.statements).run [] = .ok d.body frame
          ∧ added = bodyRemarks signature f body frame d.body := by
  refine yields_env ?_
  simp only []
  split
  · exact fun _ _ _ => nofun
  · rename_i statements frame hrun
    refine yields_remark ?_
    split
    · rename_i hmisses
      refine yields_remark (zeroResult_yields.quiet ?_)
      rintro _ zero ⟨rfl, hzero⟩
      refine yields_pure ⟨rfl, ⟨⟨frame, hrun, rfl⟩, hzero⟩, frame, hrun, ?_⟩
      rw [bodyRemarks, if_pos hmisses]
      rfl
    · rename_i hmisses
      refine zeroResult_yields.quiet ?_
      rintro _ zero ⟨rfl, hzero⟩
      refine yields_pure ⟨rfl, ⟨⟨frame, hrun, rfl⟩, hzero⟩, frame, hrun, ?_⟩
      rw [bodyRemarks, if_neg hmisses]

theorem function_registers (f : Ast.Function) :
    Yields (function c f) r fun r' added _ =>
      r.Registers c (.function f) r'
        ∧ r'.NotesAll c (Ast.Declaration.function f).defined added := by
  refine yields_env (Yields.check Check.gives_self fun signature hsignature => ?_)
  refine functionIndex_places.quiet fun r' index hplace => ?_
  have hdefined : (Ast.Declaration.function f).defined = (f.body.map (f, ·)).toList := rfl
  rw [hdefined]
  cases hbody : f.body with
  | none => exact yields_pure ⟨.prototype hsignature hplace hbody, [], .nil, rfl⟩
  | some body =>
    refine functionBody_accepts.bind ?_
    rintro _ added d ⟨rfl, hd, frame, hrun, hadded⟩
    obtain ⟨hmem, hdefined⟩ := hplace.definedBy hsignature hbody hd
    refine yields_update ⟨.function hsignature hplace hbody hd, [added], .cons ?_ .nil, rfl⟩
    exact ⟨_, hmem, d, _, frame, hdefined, hrun, hadded⟩

theorem forM_run {ι : Type} {step : ι → ModuleM Unit} {part : ι → Ast.Part}
    (hstep : ∀ r i, Yields (step i) r fun r' added _ => r.Registers c (part i) r' ∧ added = [])
    (items : List ι) :
    Yields (items.forM step) r fun r' added _ => Run c (items.map part) r r' ∧ added = [] := by
  induction items generalizing r with
  | nil => exact yields_pure ⟨.nil, rfl⟩
  | cons first rest ih =>
    refine (hstep r first).quiet fun r' _ hr' => ?_
    intro remarks a s hrun
    obtain ⟨added, hadded, hrest, hnone⟩ := ih remarks a s hrun
    exact ⟨added, hadded, .cons hr' hrest, hnone⟩

theorem declaration_run (d : Ast.Declaration) :
    Yields (declaration c d) r fun r' added _ =>
      Run c d.parts r r' ∧ r'.NotesAll c d.defined added := by
  intro remarks a s hrun
  cases d with
  | struct t =>
    obtain ⟨added, hadded, hpart, rfl⟩ := struct_registers t remarks a s hrun
    exact ⟨[], hadded, .cons hpart .nil, [], .nil, rfl⟩
  | declare v =>
    obtain ⟨added, hadded, hparts, rfl⟩ :=
      forM_run (fun _ d => globalVariable_registers v d) v.declarators remarks a s hrun
    exact ⟨[], hadded, hparts, [], .nil, rfl⟩
  | buffer b =>
    obtain ⟨added, hadded, hparts, rfl⟩ :=
      forM_run (fun _ m => bufferMember_registers b m) b.members remarks a s hrun
    exact ⟨[], hadded, hparts, [], .nil, rfl⟩
  | function f =>
    obtain ⟨added, hadded, hpart, hnotes⟩ := function_registers f remarks a s hrun
    exact ⟨added, hadded, .cons hpart .nil, hnotes⟩

end ModuleM

/-- Declarations that are all accepted register their parts, and all that is remarked on is what
their functions are. -/
theorem typeDeclarations_run {c : Context} {limit : Nat} {declarations : List Ast.Declaration}
    {state : ModuleState} (hlimit : limit ≠ 0)
    (h : (typeDeclarations c limit declarations state).1 = []) :
    Run c (declarations.flatMap Ast.Declaration.parts) state.registry
        (typeDeclarations c limit declarations state).2.registry
      ∧ ∃ added, (typeDeclarations c limit declarations state).2.remarks = state.remarks ++ added
        ∧ (typeDeclarations c limit declarations state).2.registry.NotesAll c
          (declarations.flatMap Ast.Declaration.defined) added := by
  fun_induction typeDeclarations c limit declarations state with
  | case1 => exact ⟨.nil, [], (List.append_nil _).symm, [], .nil, rfl⟩
  | case2 => exact absurd rfl hlimit
  | case3 limit first rest state _ state' hrun ih =>
    obtain ⟨added, hadded, hparts, groups, hgroups, rfl⟩ :=
      ModuleM.declaration_run first state.remarks () state' hrun
    obtain ⟨hrest, more, hmore, others, hothers, rfl⟩ := ih hlimit h
    refine ⟨hparts.append hrest, groups.flatten ++ others.flatten, ?_, groups ++ others, ?_, ?_⟩
    · rw [hmore, hadded, List.append_assoc]
    · exact List.rel_append (hgroups.imp fun _ _ => hrest.notes) hothers
    · exact List.flatten_append.symm
  | case4 limit first rest state fault state' hrun faults state'' hrest ih => cases h

theorem Typed.Registry.LaidOut.exists_placed {markers : Bool} {r : Registry} {e : Emitted}
    {routines : List Routine} {init : Routine} (h : r.LaidOut markers e routines init)
    {g : Typed.Function} (hg : g ∈ r.functions) :
    ∃ x ∈ routines, g.LaidAs markers x ∧ g.placedAt x ∈ e.functions := by
  obtain ⟨j, hj⟩ := List.getElem?_of_mem hg
  obtain ⟨x, hx, hown⟩ := exists_getElem?_right h.laid hj
  refine ⟨x, List.mem_of_getElem? hx, hown, List.mem_of_getElem? (i := j) ?_⟩
  rw [h.functions, List.getElem?_zipWith, hj, hx]

section Compiled

variable {d : Dialect} {config : Config} {request : Request} {compiled : Compiled} {r : Registry}

theorem declares_of_analyse {remarks : List (Located Remark)}
    (h : analyse d config request = .ok (r, remarks)) : Declares d config request r := by
  obtain ⟨scanned, declarations, r', hsupports, hscan, hread, hr, hanalyse⟩
    | ⟨failure, hfailed, -⟩ := analyse_spec d config request
  · cases h.symm.trans hanalyse
    obtain ⟨htyped, hdeclared⟩ := declared_of_typeSource hr
    exact ⟨hsupports, scanned, declarations, hscan, hread, htyped, hdeclared⟩
  · cases h.symm.trans hfailed

theorem isSome_function?_of_compile (h : compile d config request = .ok compiled) :
    (compiled.program.function? request.entryPoint).isSome = true := by
  rw [compile_eq] at h
  split at h
  · cases h
  · split at h
    · cases h
    · rename_i r remarks _ code program hemit
      cases h
      unfold emitSource programOf at hemit
      split at hemit
      · cases hemit
      · simp only [] at hemit
        split at hemit
        · rename_i hfound
          cases hemit
          exact hfound
        · cases hemit

/-- Without a limit on errors nothing is declared, and then there is no entry point. -/
theorem maxErrors_ne_zero_of_compile (h : compile d config request = .ok compiled) :
    config.maxErrors ≠ 0 := by
  intro hzero
  have hentry := isSome_function?_of_compile h
  obtain ⟨r, e, hdeclares, -, -, hemit, -, hprogram⟩ := exists_emit_of_compile h
  obtain ⟨scanned, declarations, -, -, -, hr⟩ := hdeclares.typed
  have hnone : r.functions = [] := by
    rw [hr, declaredBy, hzero]
    cases declarations <;> rfl
  obtain ⟨routines, init, hlaid⟩ := r.exists_laidOut d hemit
  rw [hprogram, Program.function?, Program.ofEmitted, hlaid.functions, hnone] at hentry
  cases hentry

/-- The registries of a compiled source: its parts are registered behind the variables of the
stage. -/
theorem run_of_compile (h : compile d config request = .ok compiled) :
    ∃ scanned declarations r e, scan d request.source = .ok scanned
      ∧ Ast.ofTokens d scanned = .ok declarations ∧ Declares d config request r ∧ r.WellTyped d
      ∧ r.emit config.lineMarkers = .ok e ∧ compiled.code = e.code
      ∧ compiled.program = Program.ofEmitted r request.stage request.entryPoint e
      ∧ Run ⟨d, request.stage, config.promoteInts⟩
        (declarations.flatMap Ast.Declaration.parts)
        { builtins := stageVariables d request.stage } r := by
  obtain ⟨r, e, hdeclares, htyped, -, hemit, hcode, hprogram⟩ := exists_emit_of_compile h
  obtain ⟨scanned, declarations, hscan, hread, hfaults, hr⟩ := hdeclares.typed
  refine ⟨scanned, declarations, r, e, hscan, hread, hdeclares, htyped, hemit, hcode, hprogram, ?_⟩
  rw [hr]
  exact (typeDeclarations_run (maxErrors_ne_zero_of_compile h) hfaults).1

theorem Declares.unique {r' : Registry} (h : Declares d config request r)
    (h' : Declares d config request r') : r = r' := by
  obtain ⟨scanned, declarations, hscan, hread, -, rfl⟩ := h.typed
  obtain ⟨scanned', declarations', hscan', hread', -, rfl⟩ := h'.typed
  cases hscan.symm.trans hscan'
  cases hread.symm.trans hread'
  rfl

/-- The remarks on a compiled source: those on its pragmas, and those on its functions. -/
theorem notes_of_compile (h : compile d config request = .ok compiled) :
    ∃ scanned declarations r remarks notes, scan d request.source = .ok scanned
      ∧ Ast.ofTokens d scanned = .ok declarations ∧ analyse d config request = .ok (r, remarks)
      ∧ compiled.remarks = (if config.warnings then remarks else [])
      ∧ remarks = scanned.pragmas.map (Located.mk .ignoredPragma) ++ notes
      ∧ r.NotesAll ⟨d, request.stage, config.promoteInts⟩
        (declarations.flatMap Ast.Declaration.defined) notes := by
  have hlimit := maxErrors_ne_zero_of_compile h
  rw [compile_eq] at h
  obtain ⟨scanned, declarations, r, -, hscan, hread, hr, hanalyse⟩ | ⟨failure, hfailed, -⟩ :=
    analyse_spec d config request
  · simp only [hanalyse] at h
    split at h
    · cases h
    · cases h
      obtain ⟨hfaults, rfl⟩ := declared_of_typeSource hr
      obtain ⟨-, notes, hnotes, hall⟩ := typeDeclarations_run hlimit hfaults
      exact ⟨scanned, declarations, _, _, notes, hscan, hread, hanalyse, rfl,
        congrArg _ hnotes, hall⟩
  · simp only [hfailed] at h
    cases h

theorem forall₂_zipWith {α β γ : Type} {R : α → β → Prop} {g : α → β → γ} {as : List α}
    {bs : List β} (h : List.Forall₂ R as bs) :
    List.Forall₂ (fun a c => ∃ b, c = g a b) as (List.zipWith g as bs) := by
  induction h with
  | nil => exact .nil
  | cons _ _ ih => exact .cons ⟨_, rfl⟩ ih

/-- The functions of a program have the signatures that are registered, and an address. -/
theorem forall₂_functions_of_emit {markers : Bool} {e : Emitted} (h : r.emit markers = .ok e) :
    List.Forall₂ (fun g f => ∃ routine, f = g.placedAt routine) r.functions e.functions := by
  obtain ⟨routines, init, hlaid⟩ := r.exists_laidOut .glsl h
  rw [hlaid.functions]
  exact forall₂_zipWith hlaid.laid

end Compiled

end ShaderBytecode
