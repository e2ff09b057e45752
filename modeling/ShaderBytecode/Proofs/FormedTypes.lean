import Mathlib.Logic.Relation
import ShaderBytecode.Proofs.ReadLengths
import ShaderBytecode.Proofs.RegisteredNames

/-!
# The types of a program

Every type in the tables of a program is formed over its structures: the structures that it mentions
are there, it is not `void`, and its arrays have elements. A structure is formed over those before
it, so none contains itself, and a zero value of any type is a finite tree.
-/

namespace ShaderBytecode

open Typed (Registry Statement)

/-! ## Types -/

namespace DataType

def isArray : DataType → Bool
  | array _ _ => true
  | _ => false

/-- A type is formed over known structures: those that it mentions are known, it is not `void`, and
an array has a positive number of elements, which are not arrays. -/
def Formed (known : List String) : DataType → Prop
  | void => False
  | struct name => name ∈ known
  | array element length => length ≠ 0 ∧ element.isArray = false ∧ element.Formed known
  | scalar _ | vector _ _ | matrix _ _ | sampler2D => True

def Mentions (name : String) : DataType → Prop
  | struct other => other = name
  | array element _ => element.Mentions name
  | _ => False

instance decidableFormed (known : List String) : (type : DataType) → Decidable (type.Formed known)
  | void => .isFalse id
  | struct name => inferInstanceAs (Decidable (name ∈ known))
  | array element length =>
    have := decidableFormed known element
    inferInstanceAs (Decidable (length ≠ 0 ∧ element.isArray = false ∧ element.Formed known))
  | scalar _ | vector _ _ | matrix _ _ | sampler2D => .isTrue trivial

variable {known more : List String}

theorem Formed.mono (hmore : known ⊆ more) : {type : DataType} → type.Formed known →
    type.Formed more
  | struct _, h => hmore h
  | array _ _, ⟨hlength, harray, h⟩ => ⟨hlength, harray, h.mono hmore⟩
  | scalar _, _ | vector _ _, _ | matrix _ _, _ | sampler2D, _ => trivial

theorem Formed.mem_of_mentions {name : String} : {type : DataType} → type.Formed known →
    type.Mentions name → name ∈ known
  | struct _, h, hmentions => hmentions ▸ h
  | array _ _, ⟨_, _, h⟩, hmentions => h.mem_of_mentions hmentions

end DataType

/-- The structures of a table have members, of types that are formed over the structures before. -/
def StructuresFormed (structures : List Structure) : Prop :=
  ∀ (i : Nat) (s : Structure), structures[i]? = some s → s.members ≠ []
    ∧ ∀ m ∈ s.members, m.type.Formed ((structures.take i).map (·.name))

theorem StructuresFormed.concat {structures : List Structure} (h : StructuresFormed structures)
    {s : Structure} (hmembers : s.members ≠ [])
    (htypes : ∀ m ∈ s.members, m.type.Formed (structures.map (·.name))) :
    StructuresFormed (structures ++ [s]) := by
  intro i found hfound
  obtain hlt | rfl | hgt := Nat.lt_trichotomy i structures.length
  · rw [List.getElem?_append_left hlt] at hfound
    rw [List.take_append_of_le_length (Nat.le_of_lt hlt)]
    exact h i found hfound
  · cases List.getElem?_concat_length.symm.trans hfound
    rw [List.take_left]
    exact ⟨hmembers, htypes⟩
  · have hnone : (structures ++ [s])[i]? = none := by
      rw [List.getElem?_eq_none_iff, List.length_append, List.length_singleton]
      exact hgt
    cases hnone.symm.trans hfound

/-! ## Zero values -/

/-- A zero value: a component of some kind, a sampler, or parts. -/
inductive Zero where
  | component (kind : ScalarKind)
  | sampler
  | parts (values : List Zero)

/-- The zero value of a type. That of a structure has those of its members as parts. -/
inductive IsZero (structures : List Structure) : DataType → Zero → Prop
  | scalar (kind : ScalarKind) : IsZero structures (.scalar kind) (.component kind)
  | vector (kind : ScalarKind) (size : UInt8) : IsZero structures (.vector kind size)
      (.parts (List.replicate size.toNat (.component kind)))
  | matrix (columns rows : UInt8) : IsZero structures (.matrix columns rows)
      (.parts (List.replicate columns.toNat
        (.parts (List.replicate rows.toNat (.component .float)))))
  | sampler : IsZero structures .sampler2D .sampler
  | struct {name : String} {s : Structure} {values : List Zero}
      (hs : structures.find? (·.name = name) = some s)
      (hmembers : List.Forall₂ (fun m zero => IsZero structures m.type zero) s.members values) :
      IsZero structures (.struct name) (.parts values)
  | array {element : DataType} {zero : Zero} (length : UInt32)
      (h : IsZero structures element zero) :
      IsZero structures (.array element length) (.parts (List.replicate length.toNat zero))

theorem exists_forall₂ {α β : Type} {R : α → β → Prop} {as : List α}
    (h : ∀ a ∈ as, ∃ b, R a b) : ∃ bs, List.Forall₂ R as bs := by
  induction as with
  | nil => exact ⟨[], .nil⟩
  | cons a rest ih =>
    obtain ⟨⟨b, hb⟩, hrest⟩ := List.forall_mem_cons.mp h
    obtain ⟨bs, hbs⟩ := ih hrest
    exact ⟨b :: bs, .cons hb hbs⟩

theorem exists_find?_of_mem_take {structures : List Structure} {i : Nat} {name : String}
    (hname : name ∈ (structures.take i).map (·.name)) :
    ∃ j s, j < i ∧ structures[j]? = some s ∧ structures.find? (·.name = name) = some s := by
  obtain ⟨t, ht, rfl⟩ := List.mem_map.mp hname
  obtain ⟨k, hk⟩ := List.getElem?_of_mem ht
  obtain ⟨hki, hk⟩ : k < i ∧ structures[k]? = some t := by
    rw [List.getElem?_take] at hk
    split at hk
    · exact ⟨‹_›, hk⟩
    · cases hk
  have hsome : (structures.find? (·.name = t.name)).isSome = true :=
    List.find?_isSome.mpr ⟨t, List.mem_of_mem_take ht, decide_eq_true rfl⟩
  obtain ⟨s, hs⟩ := Option.isSome_iff_exists.mp hsome
  obtain ⟨-, j, hj, hjs, hfirst⟩ := List.find?_eq_some_iff_getElem.mp hs
  refine ⟨j, s, ?_, List.getElem?_eq_some_iff.mpr ⟨hj, hjs⟩, hs⟩
  refine Nat.lt_of_le_of_lt (Nat.not_lt.mp fun hlt => ?_) hki
  have hother := hfirst k hlt
  rw [(List.getElem?_eq_some_iff.mp hk).2, decide_eq_true rfl] at hother
  cases hother

namespace StructuresFormed

variable {structures : List Structure} (h : StructuresFormed structures)
include h

/-- Types that are formed over the first structures have a zero value. -/
theorem exists_isZero_take (i : Nat) : ∀ type : DataType,
    type.Formed ((structures.take i).map (·.name)) → ∃ zero, IsZero structures type zero := by
  induction i using Nat.strongRecOn with
  | ind i ih =>
    intro type htype
    induction type with
    | void => cases htype
    | scalar kind => exact ⟨_, .scalar kind⟩
    | vector kind size => exact ⟨_, .vector kind size⟩
    | matrix columns rows => exact ⟨_, .matrix columns rows⟩
    | sampler2D => exact ⟨_, .sampler⟩
    | struct name =>
      obtain ⟨j, s, hj, hs, hfind⟩ := exists_find?_of_mem_take htype
      obtain ⟨values, hvalues⟩ := exists_forall₂ fun m hm => ih j hj m.type ((h j s hs).2 m hm)
      exact ⟨_, .struct hfind hvalues⟩
    | array element length helement =>
      obtain ⟨zero, hzero⟩ := helement htype.2.2
      exact ⟨_, .array length hzero⟩

theorem exists_isZero {type : DataType} (htype : type.Formed (structures.map (·.name))) :
    ∃ zero, IsZero structures type zero := by
  refine h.exists_isZero_take structures.length type ?_
  rwa [List.take_length]

end StructuresFormed

/-! ## Containment -/

def Contains (structures : List Structure) (outer inner : String) : Prop :=
  ∃ s ∈ structures, s.name = outer ∧ ∃ m ∈ s.members, m.type.Mentions inner

namespace StructuresFormed

variable {structures : List Structure} (h : StructuresFormed structures)
include h

theorem lt_of_contains (hnames : (structures.map (·.name)).Nodup) {outer inner : String}
    (hcontains : Contains structures outer inner) {i : Nat}
    (hi : (structures.map (·.name))[i]? = some outer) :
    ∃ j < i, (structures.map (·.name))[j]? = some inner := by
  obtain ⟨s, hs, rfl, m, hm, hmentions⟩ := hcontains
  obtain ⟨k, hk⟩ := List.getElem?_of_mem hs
  have hsame : i = k := by
    refine (List.getElem?_inj (List.getElem?_eq_some_iff.mp hi).1 hnames).mp ?_
    rw [hi, List.getElem?_map, hk, Option.map_some]
  subst hsame
  obtain ⟨t, ht, rfl⟩ :=
    List.mem_map.mp (((h i s hk).2 m hm).mem_of_mentions hmentions)
  obtain ⟨j, hj⟩ := List.getElem?_of_mem ht
  rw [List.getElem?_take] at hj
  split at hj
  · rename_i hlt
    exact ⟨j, hlt, by rw [List.getElem?_map, hj, Option.map_some]⟩
  · cases hj

theorem not_transGen (hnames : (structures.map (·.name)).Nodup) (name : String) :
    ¬ Relation.TransGen (Contains structures) name name := by
  have hbehind : ∀ {outer inner : String}, Relation.TransGen (Contains structures) outer inner →
      ∀ i : Nat, (structures.map (·.name))[i]? = some outer →
        ∃ j < i, (structures.map (·.name))[j]? = some inner := by
    intro outer inner hchain
    induction hchain with
    | single hstep => exact fun i hi => h.lt_of_contains hnames hstep hi
    | tail _ hstep ih =>
      intro i hi
      obtain ⟨j, hj, hname⟩ := ih i hi
      obtain ⟨k, hk, hlast⟩ := h.lt_of_contains hnames hstep hname
      exact ⟨k, Nat.lt_trans hk hj, hlast⟩
  intro hcycle
  obtain ⟨_, hfirst, -⟩ := Relation.TransGen.head'_iff.mp hcycle
  obtain ⟨s, hs, hname, -⟩ := hfirst
  obtain ⟨i, hi⟩ := List.getElem?_of_mem hs
  have hplace : (structures.map (·.name))[i]? = some name := by
    rw [List.getElem?_map, hi, Option.map_some, hname]
  obtain ⟨j, hj, hagain⟩ := hbehind hcycle i hplace
  have hsame : j = i :=
    (List.getElem?_inj (List.getElem?_eq_some_iff.mp hagain).1 hnames).mp (hagain.trans hplace.symm)
  exact Nat.ne_of_lt hj hsame

end StructuresFormed

/-! ## Registries -/

abbrev Typed.Registry.structNames (r : Registry) : List String :=
  r.structures.map (·.name)

namespace Env

variable {env : Env}

variable {name : Located String}

/-- A name stands for no array, and for `void` or a type that is formed. -/
theorem namedType_formed :
    (env.namedType name).Gives fun type =>
      type.isArray = false ∧ (type = .void ∨ type.Formed env.registry.structNames) := by
  unfold namedType
  split
  · rename_i type htype
    refine Check.gives_ok ?_
    have hbasic := isBasic_builtinType? htype
    cases type with
    | struct _ => cases hbasic
    | array _ _ => cases hbasic
    | void => exact ⟨rfl, .inl rfl⟩
    | scalar _ | vector _ _ | matrix _ _ | sampler2D => exact ⟨rfl, .inr trivial⟩
  · split
    · rename_i hknown
      refine Check.gives_ok ⟨rfl, .inr ?_⟩
      obtain ⟨s, hs⟩ := Option.isSome_iff_exists.mp hknown
      have hname : s.name = name.value := by
        simpa using List.find?_some hs
      exact List.mem_map.mpr ⟨s, List.mem_of_find?_eq_some hs, hname⟩
    · exact Check.gives_fail

theorem resolveType_formed {length : Option UInt32} (hlength : Ast.Positive length) :
    (env.resolveType name length).Gives fun type =>
      type = .void ∨ type.Formed env.registry.structNames := by
  refine namedType_formed.bind fun element helement => ?_
  obtain ⟨harray, hformed⟩ := helement
  unfold arrayOf
  cases length with
  | none => exact Check.gives_ok hformed
  | some n =>
    simp only []
    split
    · exact Check.gives_fail
    · rename_i hvoid
      refine Check.gives_ok (.inr ⟨hlength n rfl, harray, hformed.resolve_left ?_⟩)
      rintro rfl
      exact hvoid rfl

theorem resolveValueType_formed {length : Option UInt32} {holder : Holder}
    (hlength : Ast.Positive length) :
    (env.resolveValueType name length holder).Gives (·.Formed env.registry.structNames) := by
  refine (resolveType_formed hlength).bind fun type htype => ?_
  split
  · exact Check.gives_fail
  · rename_i hvoid
    refine Check.gives_ok (htype.resolve_left ?_)
    rintro rfl
    exact hvoid rfl

end Env

namespace Typed

/-- The types of the locals of a function, of which each has one, are formed. -/
def Function.LocalsFormed (f : Function) (known : List String) : Prop :=
  ∀ d ∈ f.definition, (Statement.localTypesAll d.body).length = d.locals.length
    ∧ ∀ type ∈ Statement.localTypesAll d.body, type.Formed known

/-- The types of a signature are formed, but for a result that is `void`. -/
structure Function.SignatureFormed (f : Function) (known : List String) : Prop where
  parameters : ∀ x ∈ f.signature.parameters, x.type.Formed known
  result : f.signature.returnType = .void ∨ f.signature.returnType.Formed known

theorem Function.LocalsFormed.mono {f : Function} {known more : List String}
    (h : f.LocalsFormed known) (hmore : known ⊆ more) : f.LocalsFormed more :=
  fun d hd => ⟨(h d hd).1, fun type htype => ((h d hd).2 type htype).mono hmore⟩

theorem Function.SignatureFormed.mono {f : Function} {known more : List String}
    (h : f.SignatureFormed known) (hmore : known ⊆ more) : f.SignatureFormed more :=
  ⟨fun x hx => (h.parameters x hx).mono hmore, h.result.imp_right fun hresult => hresult.mono hmore⟩

namespace Registry

/-- The types in registries are formed over the structures that are registered. -/
structure TypesFormed (r : Registry) : Prop where
  structures : StructuresFormed r.structures
  globals : ∀ v ∈ r.allGlobals, v.type.Formed r.structNames
  signatures : ∀ f ∈ r.functions, f.SignatureFormed r.structNames
  locals : ∀ f ∈ r.functions, f.LocalsFormed r.structNames

variable {c : Context} {r r' : Registry}

theorem Precedes.subset (h : r.Precedes r') : r.structNames ⊆ r'.structNames :=
  (h.structures.map _).subset

theorem typesFormed_start (d : Dialect) (stage : Stage) :
    ({ builtins := stageVariables d stage } : Registry).TypesFormed where
  structures := nofun
  globals := by cases d <;> cases stage <;> decide
  signatures := List.forall_mem_nil _
  locals := List.forall_mem_nil _

variable {signature : ShaderBytecode.Function} {f : Ast.Function}

/-- The locals of a body that is accepted have types that are formed. -/
theorem AcceptsBody.localsFormed {body : Ast.Body} {d : Definition}
    (h : r.AcceptsBody c signature f body d)
    (hcount : signature.parameters.length = f.parameters.length)
    (hsizes : Ast.Sizes (Ast.Statement.declaredAll body.statements)) :
    (Statement.localTypesAll d.body).length = d.locals.length
      ∧ ∀ type ∈ Statement.localTypesAll d.body, type.Formed r.structNames := by
  refine ⟨?_, fun type htype => ?_⟩
  · rw [h.locals_eq hcount, List.length_map, (h.localTypes hcount).length_eq]
  · obtain ⟨x, hmem, hx⟩ := exists_of_mem_right (h.localTypes hcount) htype
    exact Env.resolveValueType_formed (hsizes x hmem) type hx.resolves

theorem signatureFormed (h : functionSignature (r.outer c) f = .ok signature)
    (hsized : (Ast.Part.function f).Sized) (definition : Option Definition) (span : Span) :
    (⟨signature, definition, span⟩ : Typed.Function).SignatureFormed r.structNames := by
  have hof := Env.signatureOf_of_functionSignature h
  have hplain : Ast.Positive none := fun _ hn => absurd hn (Option.not_mem_none _)
  refine ⟨fun x hx => ?_, Env.resolveType_formed hplain _ hof.result⟩
  obtain ⟨p, hp, hdeclared⟩ := exists_of_mem_right hof.parameters hx
  exact Env.resolveValueType_formed (hsized.1 p hp) _ hdeclared.resolves

theorem Places.globalsFormed {index : Nat} (h : r.Places c signature f index r')
    (hr : ∀ v ∈ r.allGlobals, v.type.Formed r.structNames) :
    ∀ v ∈ r'.allGlobals, v.type.Formed r'.structNames := by
  rw [structNames, h.rest.1, h.rest.2]
  exact hr

theorem Registers.typesFormed {part : Ast.Part} (h : r.Registers c part r') (hsized : part.Sized)
    (hr : r.TypesFormed) : r'.TypesFormed := by
  have hmore := h.precedes.subset
  have hsignatures := h.forall_functions (fun g hg => (hr.signatures g hg).mono hmore)
    fun f signature index r₁ definition hpart hsignature _ _ => by
      subst hpart
      exact (signatureFormed hsignature hsized definition f.span).mono hmore
  have hlocals := h.forall_functions (fun g hg => (hr.locals g hg).mono hmore)
    fun f signature index r₁ definition hpart hsignature hplace hbody d hd => by
      subst hpart
      obtain ⟨body, hsource, haccepts⟩ := hbody d hd
      have hcount := (Env.signatureOf_of_functionSignature hsignature).parameters.length_eq
      have hformed := haccepts.localsFormed hcount.symm (hsized.2 body hsource)
      rw [structNames, hplace.rest.2] at hformed
      exact ⟨hformed.1, fun type htype => (hformed.2 type htype).mono hmore⟩
  have hglobal : ∀ g : Global, g.symbol.type.Formed r.structNames →
      ∀ v ∈ ({ r with globals := r.globals ++ [g] } : Registry).allGlobals,
        v.type.Formed r.structNames := by
    intro g hg
    simp only [allGlobals, List.map_append, ← List.append_assoc]
    exact List.forall_mem_append.mpr ⟨hr.globals, List.forall_mem_singleton.mpr hg⟩
  cases h with
  | @struct s members hname hmembers =>
    obtain ⟨added, rfl, hadded, -⟩ := Env.structMembers_gives [] _ _ hmembers
    refine ⟨hr.structures.concat ?_ ?_, fun v hv => (hr.globals v hv).mono hmore, hsignatures,
      hlocals⟩
    · intro hnone
      have hlength := hadded.length_eq
      rw [show members = [] from hnone] at hlength
      exact hsized.1 (List.length_eq_zero_iff.mp hlength)
    · intro m hm
      obtain ⟨source, hsource, hdeclared⟩ := exists_of_mem_right hadded hm
      exact Env.resolveValueType_formed (hsized.2 source hsource) _ hdeclared.resolves
  | global htype hname hstorage hvalue =>
    exact ⟨hr.structures, hglobal _ (Env.resolveValueType_formed hsized _ htype), hsignatures,
      hlocals⟩
  | member htype hname =>
    exact ⟨hr.structures, hglobal _ (Env.resolveValueType_formed hsized _ htype), hsignatures,
      hlocals⟩
  | prototype hsignature hplace hbody =>
    exact ⟨hplace.rest.2 ▸ hr.structures, hplace.globalsFormed hr.globals, hsignatures, hlocals⟩
  | function hsignature hplace hbody hd =>
    exact ⟨hplace.rest.2 ▸ hr.structures, hplace.globalsFormed hr.globals, hsignatures, hlocals⟩

end Registry

end Typed

/-! ## Compiled sources -/

structure Program.TypesFormed (p : Program) : Prop where
  structures : StructuresFormed p.structures
  globals : ∀ v ∈ p.builtins ++ p.globals, v.type.Formed (p.structures.map (·.name))
  parameters : ∀ f ∈ p.functions, ∀ x ∈ f.parameters, x.type.Formed (p.structures.map (·.name))
  results : ∀ f ∈ p.functions,
    f.returnType = .void ∨ f.returnType.Formed (p.structures.map (·.name))

section Compiled

variable {d : Dialect} {config : Config} {request : Request} {compiled : Compiled}

/-- The tables of types are closed and well founded. In a compiled source every type of a variable,
a member, a parameter, a local or a result is formed over the structures of the program, which have
different names; a structure has members, of types formed over the structures before it. So no
structure contains itself, and every type has a zero value. -/
theorem compile_typesFormed (h : compile d config request = .ok compiled) :
    compiled.program.TypesFormed
      ∧ (compiled.program.structures.map (·.name)).Nodup
      ∧ (∀ name, ¬ Relation.TransGen (Contains compiled.program.structures) name name)
      ∧ (∀ type, type.Formed (compiled.program.structures.map (·.name)) →
          ∃ zero, IsZero compiled.program.structures type zero)
      ∧ ∃ r, Declares d config request r ∧ compiled.program.locals = r.localNames
        ∧ ∀ f ∈ r.functions, f.LocalsFormed (compiled.program.structures.map (·.name)) := by
  obtain ⟨scanned, declarations, r, e, hscan, hread, hdeclares, -, hemit, -, hprogram, hrun⟩ :=
    run_of_compile h
  have hsized := Ast.sized_of_ofTokens hscan hread
  have hr : r.TypesFormed := hrun.keeps
    (fun part hpart _ _ hstep => hstep.typesFormed (hsized part hpart))
    (Registry.typesFormed_start d request.stage)
  have hnames : r.NamesApart d :=
    hrun.keeps (fun _ _ _ _ hstep => hstep.namesApart) (Registry.namesApart_start d request.stage)
  have hdistinct : r.structNames.Nodup :=
    (hnames.distinct.sublist (List.sublist_append_left _ _)).sublist
      (List.sublist_append_right _ _)
  rw [hprogram]
  refine ⟨⟨hr.structures, hr.globals, ?_, ?_⟩, hdistinct, hr.structures.not_transGen hdistinct,
    fun type => hr.structures.exists_isZero, r, hdeclares, rfl, hr.locals⟩
  · intro f hf
    obtain ⟨g, hg, routine, rfl⟩ := exists_of_mem_right (forall₂_functions_of_emit hemit) hf
    exact (hr.signatures g hg).parameters
  · intro f hf
    obtain ⟨g, hg, routine, rfl⟩ := exists_of_mem_right (forall₂_functions_of_emit hemit) hf
    exact (hr.signatures g hg).result

/-- A source with a structure inside another one, and with arrays of structures. -/
def typesRequest : Request where
  stage := .vertex
  source := "struct A { float x[2]; }; struct B { A a; vec2 v; }; uniform B u[3];
    A f(B b) { A l[2]; l[1] = b.a; return l[0]; } void main() { f(u[0]); }"

theorem compile_typesFormed_typesRequest :
    ∃ compiled, compile .glsl {} typesRequest = .ok compiled
      ∧ compiled.program.structures.map (·.name) = ["A", "B"]
      ∧ compiled.program.TypesFormed
      ∧ (∃ zero, IsZero compiled.program.structures (.array (.struct "B") 3) zero)
      ∧ ¬ Relation.TransGen (Contains compiled.program.structures) "B" "B" := by
  have hsome : (compile .glsl {} typesRequest).toOption.any
      (·.program.structures.map (·.name) = ["A", "B"]) = true := by decide +kernel
  obtain ⟨compiled, h, hnames⟩ := exists_ok_of_any hsome
  obtain ⟨hformed, -, hacyclic, hzero, -⟩ := compile_typesFormed h
  have hstructures := of_decide_eq_true hnames
  refine ⟨compiled, h, hstructures, hformed, hzero _ ?_, hacyclic "B"⟩
  rw [hstructures]
  decide

end Compiled

end ShaderBytecode
