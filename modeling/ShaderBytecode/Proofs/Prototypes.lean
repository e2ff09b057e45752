import ShaderBytecode.Proofs.RegistryGrowth
import ShaderBytecode.Proofs.TranslatedPrograms

/-!
# Prototypes

A prototype reserves the place of a function and does nothing else. A definition can therefore move
behind declarations that come after it if a prototype stays where it was, and further prototypes can
stand anywhere behind the first one: the registries in the end are the same, and so is all that is
made from them.

The two sources are typed side by side. While only one of them has the definition, their registries
differ in the one entry it fills.
-/

namespace ShaderBytecode

open Typed (Registry)
open Check (accepted_refl)

/-! ## Two runs -/

namespace ModuleM

variable {α β : Type} {c : Context} {r r' : Registry}

/-- Where a step succeeds, another one succeeds with the same result, and what they leave is
related. -/
def YieldsAlike (step step' : ModuleM α) (r r' : Registry)
    (P : Registry → Registry → α → Prop) : Prop :=
  ∀ remarks remarks' a s, step.run ⟨r, remarks⟩ = .ok a s →
    ∃ s', step'.run ⟨r', remarks'⟩ = .ok a s' ∧ P s.registry s'.registry a

variable {P : Registry → Registry → α → Prop} {Q : Registry → Registry → β → Prop}

theorem alike_pure {a : α} (h : P r r' a) : YieldsAlike (pure a) (pure a) r r' P := by
  rintro remarks remarks' _ _ ⟨⟩
  exact ⟨_, rfl, h⟩

theorem YieldsAlike.bind {step step' : ModuleM α} {f f' : α → ModuleM β}
    (h : YieldsAlike step step' r r' P)
    (h' : ∀ r₁ r₁' a, P r₁ r₁' a → YieldsAlike (f a) (f' a) r₁ r₁' Q) :
    YieldsAlike (step >>= f) (step' >>= f') r r' Q := by
  intro remarks remarks' b s hrun
  rw [EStateM.run_bind] at hrun
  cases hstep : step.run ⟨r, remarks⟩ with
  | ok a s₁ =>
    rw [hstep] at hrun
    obtain ⟨s₁', hstep', hP⟩ := h remarks remarks' a s₁ hstep
    obtain ⟨s', hrun', hQ⟩ := h' s₁.registry s₁'.registry a hP s₁.remarks s₁'.remarks b s hrun
    refine ⟨s', ?_, hQ⟩
    rw [EStateM.run_bind, hstep']
    exact hrun'
  | error fault s₁ =>
    rw [hstep] at hrun
    cases hrun

theorem YieldsAlike.check {result result' : Check α} {f f' : α → ModuleM β}
    (h : result.AcceptedAs result') (h' : ∀ a, result = .ok a → YieldsAlike (f a) (f' a) r r' Q) :
    YieldsAlike (ofCheck result >>= f) (ofCheck result' >>= f') r r' Q := by
  cases result with
  | ok a =>
    rw [h a rfl]
    exact h' a rfl
  | error fault => exact fun _ _ _ _ => nofun

theorem alike_env {f f' : Env → ModuleM β}
    (h : YieldsAlike (f (r.outer c)) (f' (r'.outer c)) r r' Q) :
    YieldsAlike (env c >>= f) (env c >>= f') r r' Q :=
  fun remarks remarks' => h remarks remarks'

theorem alike_update {P : Registry → Registry → Unit → Prop} {f f' : Registry → Registry}
    (h : P (f r) (f' r') ()) : YieldsAlike (update f) (update f') r r' P := by
  rintro remarks remarks' _ _ ⟨⟩
  exact ⟨_, rfl, h⟩

theorem alike_remark {remarks remarks' : List (Located Remark)} {f f' : Unit → ModuleM β}
    (h : YieldsAlike (f ()) (f' ()) r r' Q) :
    YieldsAlike (remark remarks >>= f) (remark remarks' >>= f') r r' Q :=
  fun earlier earlier' => h (earlier ++ remarks) (earlier' ++ remarks')

theorem YieldsAlike.and {Q : Registry → List (Located Remark) → α → Prop} {step step' : ModuleM α}
    (h : YieldsAlike step step' r r' P) (h' : Yields step r Q) :
    YieldsAlike step step' r r' fun r₁ r₁' a => P r₁ r₁' a ∧ ∃ added, Q r₁ added a := by
  intro remarks remarks' a s hrun
  obtain ⟨s', hrun', hP⟩ := h remarks remarks' a s hrun
  obtain ⟨added, -, hQ⟩ := h' remarks a s hrun
  exact ⟨s', hrun', hP, added, hQ⟩

/-- The second run may take steps of its own that leave everything as it is. -/
theorem YieldsAlike.skip {step rest' : ModuleM β} {step' : ModuleM Unit}
    (hstep : ∀ remarks, step'.run ⟨r', remarks⟩ = .ok () ⟨r', remarks⟩)
    (h : YieldsAlike step rest' r r' Q) : YieldsAlike step (step' >>= fun _ => rest') r r' Q := by
  intro remarks remarks' b s hrun
  obtain ⟨s', hrun', hQ⟩ := h remarks remarks' b s hrun
  refine ⟨s', ?_, hQ⟩
  rw [EStateM.run_bind, hstep]
  exact hrun'

theorem alike_forM {ι : Type} {P : Registry → Registry → Prop} {step : ι → ModuleM Unit}
    (hstep : ∀ i r r', P r r' → YieldsAlike (step i) (step i) r r' fun r₁ r₁' _ => P r₁ r₁')
    (items : List ι) (h : P r r') :
    YieldsAlike (items.forM step) (items.forM step) r r' fun r₁ r₁' _ => P r₁ r₁' := by
  induction items generalizing r r' with
  | nil => exact alike_pure h
  | cons first rest ih => exact (hstep first r r' h).bind fun _ _ _ hP => ih hP

/-! ## Bodies where more is declared -/

section Grown

variable (h : r.Extends c.dialect r')
include h

theorem zeroResult_grown (returnType : DataType) :
    YieldsAlike (zeroResult c returnType) (zeroResult c returnType) r r'
      fun r₁ r₁' _ => r₁ = r ∧ r₁' = r' := by
  unfold zeroResult
  split
  · exact alike_pure ⟨rfl, rfl⟩
  · have hgrows : (r.outer c).Grows r' := h
    exact alike_env (.check (Env.code_carries hgrows).accepted fun _ _ => alike_pure ⟨rfl, rfl⟩)

/-- A body that is accepted gives the same definition where more is declared. -/
theorem functionBody_grown {signature : Function} {f : Ast.Function} (body : Ast.Body)
    (hcount : signature.parameters.length = f.parameters.length) :
    YieldsAlike (functionBody c signature f body) (functionBody c signature f body) r r'
      fun r₁ r₁' _ => r₁ = r ∧ r₁' = r' := by
  refine alike_env ?_
  simp only []
  split
  · exact fun _ _ _ _ => nofun
  · rename_i statements frame hrun
    obtain ⟨-, -, hagain⟩ := BodyEnv.statements_follows (b := r.bodyEnv c signature)
      (r.permits_open c) h false ⟨marks_parameterScope signature f.parameters, rfl,
        List.cons_ne_nil _ _⟩ body.statements [] statements frame
      (by rw [List.length_map, ← hcount]; rfl) hrun
    obtain ⟨frame', hrun', hnames⟩ := hagain [] rfl
    have hrun'' : ((r'.bodyEnv c signature).statements false
        [[], parameterScope signature f.parameters] body.statements).run []
          = .ok statements frame' := hrun'
    unfold Typed.Registry.bodyEnv at hrun''
    rw [hrun'']
    have hend : YieldsAlike
        (do return Typed.Definition.mk (frame.map (·.name)) statements
              (← zeroResult c signature.returnType))
        (do return Typed.Definition.mk (frame'.map (·.name)) statements
              (← zeroResult c signature.returnType)) r r'
        fun r₁ r₁' _ => r₁ = r ∧ r₁' = r' := by
      rw [show frame.map (·.name) = frame'.map (·.name) from hnames]
      exact (zeroResult_grown h signature.returnType).bind fun _ _ _ hsame => alike_pure hsame
    refine alike_remark ?_
    split
    · exact alike_remark hend
    · exact hend

end Grown

end ModuleM

/-! ## Pending definitions -/

/-- The place of a function is taken in both registries. The first one has the definition there,
the second one something with the same signature. -/
structure Typed.Registry.Pending (i : Nat) (h g : Typed.Function) (r r' : Registry) : Prop where
  found : r'.function? h.signature.name = some (i, g)
  filled : r = r'.put i h
  same : g.signature.sameSignature h.signature = true
  defined : h.definition ≠ none

namespace Typed.Registry.Pending

variable {i : Nat} {h g : Typed.Function} {c : Context} {r r' : Registry}
variable (hr : r.Pending i h g r')
include hr

theorem slot : r'.functions[i]? = some g :=
  getElem?_of_function? hr.found

theorem slot_filled : r.functions[i]? = some h := by
  rw [hr.filled]
  exact getElem?_put hr.slot

theorem names : r.functionNames = r'.functionNames := by
  rw [hr.filled]
  exact functionNames_put hr.slot (Function.sameSignature_iff.mp hr.same).1

theorem extended (d : Dialect) : r.Extends d r' := by
  have hput : r.put i g = r' := by
    rw [hr.filled, put_put]
    exact put_self hr.slot
  have hextends := extends_put d hr.slot_filled (Function.sameSignature_symm hr.same)
  rwa [hput] at hextends

theorem grows : (r.outer c).Grows r' :=
  hr.extended c.dialect

theorem function?_eq_none {name : String} (hnone : r.function? name = none) :
    r'.function? name = none :=
  function?_eq_none_iff.mpr (hr.names ▸ function?_eq_none_iff.mp hnone)

/-- A name finds the same function unless it finds the one in question. -/
theorem function? {name : String} {j : Nat} {e : Typed.Function}
    (hfound : r.function? name = some (j, e)) :
    (j = i ∧ e = h ∧ r'.function? name = some (i, g))
      ∨ (j ≠ i ∧ r'.function? name = some (j, e)) := by
  have hnames : r.functionNames <+: r'.functionNames := hr.names ▸ List.prefix_rfl
  have hslot := getElem?_of_function? hfound
  by_cases hj : j = i
  · subst hj
    have he : e = h := Option.some.inj (hslot.symm.trans hr.slot_filled)
    exact .inl ⟨rfl, he, function?_of_names hnames hfound hr.slot⟩
  · refine .inr ⟨hj, function?_of_names hnames hfound ?_⟩
    rw [hr.filled] at hslot
    exact (List.getElem?_set_ne (Ne.symm hj)).symm.trans hslot

theorem nameUse? (name : String) : r.nameUse? name = r'.nameUse? name := by
  have hfunction : (r.function? name).isSome = (r'.function? name).isSome := by
    cases hfound : r.function? name with
    | none => rw [hr.function?_eq_none hfound]
    | some found =>
      obtain ⟨-, -, hfound'⟩ | ⟨-, hfound'⟩ := hr.function? hfound
      all_goals simp only [hfound', Option.isSome_some]
  unfold Registry.nameUse?
  rw [hfunction, hr.filled]
  rfl

theorem checkName (name : String) (span : Span) :
    (r.outer c).checkName name span = (r'.outer c).checkName name span := by
  unfold Env.checkName
  rw [hr.nameUse? name]

theorem addGlobal (global : Global) : Pending i h g { r with globals := r.globals ++ [global] }
    { r' with globals := r'.globals ++ [global] } := by
  refine ⟨hr.found, ?_, hr.same, hr.defined⟩
  rw [hr.filled]
  rfl

theorem addStructure (s : Structure) :
    Pending i h g { r with structures := r.structures ++ [s] }
      { r' with structures := r'.structures ++ [s] } := by
  refine ⟨hr.found, ?_, hr.same, hr.defined⟩
  rw [hr.filled]
  rfl

theorem addFunction (e : Typed.Function) :
    Pending i h g { r with functions := r.functions ++ [e] }
      { r' with functions := r'.functions ++ [e] } := by
  have hlt := (List.getElem?_eq_some_iff.mp hr.slot).1
  refine ⟨function?_of_names ?_ hr.found ?_, ?_, hr.same, hr.defined⟩
  · simp [functionNames]
  · exact (List.getElem?_append_left hlt).trans hr.slot
  · rw [hr.filled]
    simp only [put, List.set_append_left i h hlt]

theorem put {j : Nat} {e e' : Typed.Function} (hj : j ≠ i) (he : r'.functions[j]? = some e)
    (hname : e.signature.name = e'.signature.name) :
    Pending i h g (r.put j e') (r'.put j e') := by
  refine ⟨function?_of_names ?_ hr.found ?_, ?_, hr.same, hr.defined⟩
  · exact (functionNames_put he hname).symm ▸ List.prefix_rfl
  · exact (List.getElem?_set_ne hj).trans hr.slot
  · rw [hr.filled]
    simp only [Registry.put, List.set_comm _ _ hj]

end Typed.Registry.Pending

namespace ModuleM

open Typed.Registry (Pending)

variable {c : Context} {r r' : Registry} {i : Nat} {h g : Typed.Function}
variable (hr : r.Pending i h g r')
include hr

theorem struct_pending (s : Ast.Structure) :
    YieldsAlike (struct c s) (struct c s) r r' fun r₁ r₁' _ => r₁.Pending i h g r₁' :=
  alike_env <| .check (hr.checkName s.name s.span ▸ accepted_refl _) fun _ _ =>
    .check (structMembers_carries hr.grows s.members).accepted fun _ _ =>
      alike_update (hr.addStructure _)

theorem globalVariable_pending (v : Ast.Variables) (d : Ast.Declarator) :
    YieldsAlike (globalVariable c v d) (globalVariable c v d) r r'
      fun r₁ r₁' _ => r₁.Pending i h g r₁' := by
  refine alike_env <| .check (Env.resolveValueType_carries hr.grows).accepted
    fun type _ => .check (hr.checkName d.name d.span ▸ accepted_refl _) fun _ _ =>
      .check (accepted_refl _) fun _ _ => ?_
  have hadd : ∀ global, YieldsAlike (addGlobal global) (addGlobal global) r r'
      fun r₁ r₁' _ => r₁.Pending i h g r₁' := fun global => alike_update (hr.addGlobal global)
  cases d.initializer with
  | none => exact hadd _
  | some e =>
    simp only [map_eq_pure_bind, bind_assoc, pure_bind]
    exact .check (Env.exprOf_reaches Env.permits_all hr.grows e).accepted fun _ _ => hadd _

theorem bufferMember_pending (buffer : BufferBinding) (m : Ast.Member) :
    YieldsAlike (bufferMember c buffer m) (bufferMember c buffer m) r r'
      fun r₁ r₁' _ => r₁.Pending i h g r₁' :=
  alike_env <| .check (Env.resolveValueType_carries hr.grows).accepted
    fun _ _ => .check (hr.checkName m.name m.span ▸ accepted_refl _) fun _ _ =>
      alike_update (hr.addGlobal _)

/-- The function in question is not defined again, so every definition takes another place. -/
theorem functionIndex_pending {signature : Function} {f : Ast.Function} :
    YieldsAlike (functionIndex c signature f) (functionIndex c signature f) r r'
      fun r₁ r₁' j => r₁.Pending i h g r₁' ∧ (f.body ≠ none → j ≠ i) := by
  refine alike_env ?_
  cases hfound : r.function? f.name with
  | some found =>
    obtain ⟨j, e⟩ := found
    obtain ⟨rfl, rfl, hfound'⟩ | ⟨hj, hfound'⟩ := hr.function? hfound
    · simp only [hfound']
      refine .check (fun _ hagain => ?_) fun _ hagain => alike_pure ⟨hr, fun hbody => ?_⟩
      · obtain ⟨hsame, hdefined⟩ := checkAgain_eq_ok_iff.mp hagain
        exact checkAgain_eq_ok_iff.mpr ⟨Function.sameSignature_trans hr.same hsame,
          .inr (hdefined.resolve_left hr.defined)⟩
      · exact absurd ((checkAgain_eq_ok_iff.mp hagain).2.resolve_right hbody) hr.defined
    · simp only [hfound']
      exact .check (accepted_refl _) fun _ _ => alike_pure ⟨hr, fun _ => hj⟩
  | none =>
    simp only [hr.function?_eq_none hfound]
    refine .check (hr.checkName f.name f.span ▸ accepted_refl _) fun _ _ => ?_
    split
    · exact fun _ _ _ _ => nofun
    · have hlength : r.functions.length = r'.functions.length := by
        rw [hr.filled, Typed.Registry.put, List.length_set]
      rw [hlength]
      refine YieldsAlike.bind (alike_update (hr.addFunction ⟨signature, none, f.span⟩))
        fun r₁ r₁' _ hr₁ => alike_pure ⟨hr₁, fun _ hi => ?_⟩
      exact absurd hi (Nat.ne_of_gt (List.getElem?_eq_some_iff.mp hr.slot).1)

theorem function_pending (f : Ast.Function) :
    YieldsAlike (function c f) (function c f) r r' fun r₁ r₁' _ => r₁.Pending i h g r₁' := by
  refine alike_env <| .check (functionSignature_carries hr.grows).accepted
    fun signature hsignature => ?_
  have hcount := (Env.signatureOf_of_functionSignature hsignature).parameters.length_eq.symm
  refine ((functionIndex_pending hr).and functionIndex_places).bind fun r₁ r₁' j hr₁ => ?_
  obtain ⟨⟨hr₁, hj⟩, _, hplace, -⟩ := hr₁
  cases hbody : f.body with
  | none => exact alike_pure hr₁
  | some body =>
    have hj : j ≠ i := hj (hbody ▸ Option.some_ne_none body)
    refine (functionBody_grown (hr₁.extended _) body hcount).bind ?_
    rintro _ _ d ⟨rfl, rfl⟩
    obtain ⟨e, he, hsame⟩ := hplace.exists_getElem?
    have he' := he
    rw [hr₁.filled] at he'
    exact alike_update (hr₁.put hj ((List.getElem?_set_ne hj.symm).symm.trans he')
      (Function.sameSignature_iff.mp hsame).1)

/-- A declaration that is accepted does not ask for the pending definition. -/
theorem declaration_pending (d : Ast.Declaration) :
    YieldsAlike (declaration c d) (declaration c d) r r' fun r₁ r₁' _ => r₁.Pending i h g r₁' := by
  cases d with
  | struct s => exact struct_pending hr s
  | declare v => exact alike_forM (fun d _ _ hr => globalVariable_pending hr v d) v.declarators hr
  | buffer b => exact alike_forM (fun m _ _ hr => bufferMember_pending hr _ m) b.members hr
  | function f => exact function_pending hr f

end ModuleM

/-! ## Prototypes -/

/-- Functions without a body whose signature is that of a function, as both are read in the
registries. -/
structure Typed.Registry.IsPrototype (c : Context) (r : Registry) (f p : Ast.Function) : Prop where
  bodiless : p.body = none
  same : ∃ signature signature', functionSignature (r.outer c) f = .ok signature
    ∧ functionSignature (r.outer c) p = .ok signature'
    ∧ signature.sameSignature signature' = true

theorem Typed.Registry.IsPrototype.name {c : Context} {r : Registry} {f p : Ast.Function}
    (h : r.IsPrototype c f p) : p.name = f.name := by
  obtain ⟨signature, signature', hreads, hreads', hsame⟩ := h.same
  rw [← (Env.signatureOf_of_functionSignature hreads).name,
    ← (Env.signatureOf_of_functionSignature hreads').name]
  exact (Function.sameSignature_iff.mp hsame).1.symm

theorem Typed.Registry.isPrototype_bodiless {c : Context} {r : Registry} {f : Ast.Function}
    {signature : ShaderBytecode.Function}
    (h : functionSignature (r.outer c) f = .ok signature) :
    r.IsPrototype c f { f with body := none } :=
  ⟨rfl, signature, signature, h, h, signature.sameSignature_self⟩

/-- The same declarations with prototypes between them. -/
inductive Ast.WithPrototypes (P : Ast.Function → Prop) :
    List Ast.Declaration → List Ast.Declaration → Prop
  | nil : WithPrototypes P [] []
  | keep (d : Ast.Declaration) {ds ds' : List Ast.Declaration} (h : WithPrototypes P ds ds') :
      WithPrototypes P (d :: ds) (d :: ds')
  | add {p : Ast.Function} (hp : P p) {ds ds' : List Ast.Declaration}
      (h : WithPrototypes P ds ds') : WithPrototypes P ds (.function p :: ds')

theorem Ast.WithPrototypes.refl {P : Ast.Function → Prop} (ds : List Ast.Declaration) :
    WithPrototypes P ds ds := by
  induction ds with
  | nil => exact .nil
  | cons first rest ih => exact .keep first ih

/-- A function with a body is accepted and fills its place. -/
structure Typed.Registry.Defines (c : Context) (r : Registry) (f : Ast.Function) (body : Ast.Body)
    (signature : ShaderBytecode.Function) (index : Nat) (placed : Registry) (d : Definition) :
    Prop where
  reads : functionSignature (r.outer c) f = .ok signature
  places : r.Places c signature f index placed
  gives : ∃ remarks s, (ModuleM.functionBody c signature f body).run ⟨placed, remarks⟩ = .ok d s

namespace Typed.Registry

variable {c : Context} {r placed : Registry} {f : Ast.Function} {body : Ast.Body} {index : Nat}
variable {signature : ShaderBytecode.Function} {d : Definition}

namespace Defines

variable (h : r.Defines c f body signature index placed d)
include h

theorem name : signature.name = f.name :=
  (Env.signatureOf_of_functionSignature h.reads).name

theorem extends_placed : r.Extends c.dialect placed :=
  h.places.extended h.name

theorem extends_filled :
    placed.Extends c.dialect (placed.put index ⟨signature, some d, f.span⟩) := by
  obtain ⟨g, hg, hsame⟩ := h.places.exists_getElem?
  exact extends_put _ hg hsame

end Defines

theorem function?_concat {e : Typed.Function} (h : r.function? e.signature.name = none) :
    ({ r with functions := r.functions ++ [e] } : Registry).function? e.signature.name
      = some (r.functions.length, e) := by
  refine function?_eq_some_iff.mpr ⟨?_, List.getElem?_concat_length⟩
  have hnone : r.functionNames.findIdx? (· = e.signature.name) = none :=
    List.findIdx?_eq_none_iff.mpr fun name hname => decide_eq_false fun hsame =>
      function?_eq_none_iff.mp h (hsame ▸ hname)
  simp only [functionNames] at hnone
  simp [functionNames, List.findIdx?_append, hnone]

theorem checkName_anywhere {name : String} {span : Span}
    (h : (r.outer c).checkName name span = .ok ()) (span' : Span) :
    (r.outer c).checkName name span' = .ok () := by
  unfold Env.checkName at h ⊢
  split at h
  · cases h
  · rename_i hreserved
    split at h
    · cases h
    · rename_i htype
      rw [if_neg hreserved, if_neg htype]
      split at h
      · cases h
      · rfl

end Typed.Registry

namespace ModuleM

open Typed.Registry (Defines Pending IsPrototype checkName_anywhere function?_concat)

variable {c : Context} {r r₀ q placed : Registry} {f p : Ast.Function} {body : Ast.Body}
variable {signature : Function} {i : Nat} {d : Typed.Definition} {g : Typed.Function}

theorem function_defines (hbody : f.body = some body) :
    Yields (function c f) r fun r' _ _ => ∃ signature index placed d,
      r.Defines c f body signature index placed d
        ∧ r' = placed.put index ⟨signature, some d, f.span⟩ := by
  refine yields_env (Yields.check Check.gives_self fun signature hsignature => ?_)
  refine functionIndex_places.quiet fun placed index hplace => ?_
  rw [hbody]
  have hgives : Yields (functionBody c signature f body) placed fun r' _ d => r' = placed
      ∧ ∃ remarks s, (functionBody c signature f body).run ⟨placed, remarks⟩ = .ok d s := by
    intro remarks d s hrun
    obtain ⟨added, hadded, hplaced, -⟩ := functionBody_accepts remarks d s hrun
    exact ⟨added, hadded, hplaced, remarks, s, hrun⟩
  refine hgives.bind ?_
  rintro _ _ d ⟨rfl, hd⟩
  exact yields_update ⟨signature, index, _, d, ⟨hsignature, hplace, hd⟩, rfl⟩

theorem run_env_bind {β : Type} (f : Env → ModuleM β) (s : ModuleState) :
    (env c >>= f).run s = (f (s.registry.outer c)).run s :=
  rfl

theorem run_ofCheck_bind {α β : Type} {result : Check α} {a : α} (h : result = .ok a)
    (f : α → ModuleM β) (s : ModuleState) : (ofCheck result >>= f).run s = (f a).run s := by
  rw [h]
  rfl

theorem functionIndex_run_again (hfound : q.function? f.name = some (i, g))
    (hagain : checkAgain g signature f = .ok ()) (remarks : List (Located Remark)) :
    (functionIndex c signature f).run ⟨q, remarks⟩ = .ok i ⟨q, remarks⟩ := by
  unfold functionIndex
  rw [run_env_bind]
  simp only [hfound]
  rw [run_ofCheck_bind hagain]
  rfl

theorem functionIndex_run_first (hfound : q.function? f.name = none)
    (hname : (q.outer c).checkName f.name f.span = .ok ())
    (hintrinsic : Intrinsic.isName c.dialect f.name = false) (remarks : List (Located Remark)) :
    (functionIndex c signature f).run ⟨q, remarks⟩ = .ok q.functions.length
      ⟨{ q with functions := q.functions ++ [⟨signature, none, f.span⟩] }, remarks⟩ := by
  unfold functionIndex
  rw [run_env_bind]
  simp only [hfound]
  rw [run_ofCheck_bind hname]
  simp only [hintrinsic, Bool.false_eq_true, if_false]
  rfl

theorem function_run {s s' : ModuleState}
    (hsignature : functionSignature (s.registry.outer c) f = .ok signature)
    (hindex : (functionIndex c signature f).run s = .ok i s') :
    (function c f).run s = (match f.body with
      | none => pure ()
      | some body => do
        let definition ← functionBody c signature f body
        update (·.put i ⟨signature, some definition, f.span⟩) : ModuleM Unit).run s' := by
  unfold function
  rw [run_env_bind, run_ofCheck_bind hsignature, EStateM.run_bind, hindex]
  rfl

/-- A definition that is accepted at one place is accepted behind further declarations if these have
reserved its place, and fills it in the same way. -/
theorem function_run_of_defines (h : r.Defines c f body signature i placed d)
    (hbody : f.body = some body) (hr : r.Extends c.dialect q)
    (hplaced : placed.Extends c.dialect q) (hfound : q.function? f.name = some (i, g))
    (hsame : g.signature.sameSignature signature = true) (hopen : g.definition = none)
    (remarks : List (Located Remark)) :
    ∃ s, (function c f).run ⟨q, remarks⟩ = .ok () s
      ∧ s.registry = q.put i ⟨signature, some d, f.span⟩ := by
  have hgrows : (r.outer c).Grows q := hr
  have hsignature : functionSignature (q.outer c) f = .ok signature :=
    (functionSignature_carries hgrows).accepted signature h.reads
  have hagain : checkAgain g signature f = .ok () := checkAgain_eq_ok_iff.mpr ⟨hsame, .inl hopen⟩
  obtain ⟨earlier, s, hrun⟩ := h.gives
  have hcount := (Env.signatureOf_of_functionSignature hsignature).parameters.length_eq.symm
  obtain ⟨s', hrun', -, hq⟩ := functionBody_grown hplaced body hcount earlier remarks d s hrun
  rw [function_run hsignature (functionIndex_run_again hfound hagain remarks), hbody]
  simp only []
  rw [EStateM.run_bind, hrun', ← hq]
  exact ⟨_, rfl, rfl⟩

/-- A prototype of a function that has its place leaves everything as it is. -/
theorem function_run_prototype (hp : r₀.IsPrototype c f p) (hr₀ : r₀.Extends c.dialect q)
    (hsignature : functionSignature (r₀.outer c) f = .ok signature)
    (hfound : q.function? f.name = some (i, g))
    (hsame : g.signature.sameSignature signature = true) (remarks : List (Located Remark)) :
    (function c p).run ⟨q, remarks⟩ = .ok () ⟨q, remarks⟩ := by
  obtain ⟨_, signature', hreads, hreads', hsame'⟩ := hp.same
  cases hreads.symm.trans hsignature
  have hgrows : (r₀.outer c).Grows q := hr₀
  have hagain : checkAgain g signature' p = .ok () :=
    checkAgain_eq_ok_iff.mpr ⟨Function.sameSignature_trans hsame hsame', .inr hp.bodiless⟩
  rw [function_run ((functionSignature_carries hgrows).accepted signature' hreads')
    (functionIndex_run_again (hp.name ▸ hfound) hagain remarks), hp.bodiless]
  rfl

/-- The first prototype reserves the place that the definition would have taken. -/
theorem function_run_reserves (h : r.Defines c f body signature i placed d)
    (hbody : f.body = some body) (hp : r.IsPrototype c f p) (remarks : List (Located Remark)) :
    ∃ q g, (function c p).run ⟨r, remarks⟩ = .ok () ⟨q, remarks⟩ ∧ g.definition = none
      ∧ (placed.put i ⟨signature, some d, f.span⟩).Pending i ⟨signature, some d, f.span⟩ g q := by
  have hname := h.name
  have hreads := h.reads
  cases h.places with
  | @again _ earlier hfound hagain =>
    obtain ⟨hsame, hopen⟩ := checkAgain_eq_ok_iff.mp hagain
    refine ⟨r, earlier, function_run_prototype hp (.refl _ _) hreads hfound hsame remarks,
      hopen.resolve_right (hbody ▸ Option.some_ne_none body), ?_, rfl, hsame,
      Option.some_ne_none d⟩
    exact hname ▸ hfound
  | first hfound hfree hintrinsic =>
    obtain ⟨_, signature', hreads₁, hreads', hsame⟩ := hp.same
    cases hreads₁.symm.trans hreads
    have hname' : signature'.name = p.name := (Env.signatureOf_of_functionSignature hreads').name
    have hrun := function_run hreads' (functionIndex_run_first (hp.name ▸ hfound)
      (checkName_anywhere (hp.name ▸ hfree) p.span) (hp.name ▸ hintrinsic) remarks)
    rw [hp.bodiless] at hrun
    refine ⟨_, ⟨signature', none, p.span⟩, hrun, rfl, ?_, ?_, Function.sameSignature_symm hsame,
      Option.some_ne_none d⟩
    · have hnone : r.function? signature'.name = none := by
        rw [hname', hp.name]
        exact hfound
      rw [show signature.name = signature'.name by rw [hname, hname', hp.name]]
      exact function?_concat hnone
    · simp [Typed.Registry.put]

variable {h : Typed.Function} {r' : Registry} {ds ds' : List Ast.Declaration}

/-- Declarations and prototypes between them while the definition is pending, or once both sources
have it. -/
theorem declarations_pending (hds : Ast.WithPrototypes (r₀.IsPrototype c f) ds ds')
    (hstructs : ∀ s, .struct s ∈ ds → Intrinsic.isName c.dialect s.name = false)
    (hsignature : functionSignature (r₀.outer c) f = .ok h.signature)
    (hr₀ : r₀.Extends c.dialect r) (hr : r.Pending i h g r') :
    YieldsAlike (ds.forM (declaration c)) (ds'.forM (declaration c)) r r'
      fun r₁ r₁' _ => r₁.Pending i h g r₁' ∧ r.Extends c.dialect r₁ := by
  induction hds generalizing r r' with
  | nil => exact alike_pure ⟨hr, .refl _ _⟩
  | keep d hds ih =>
    refine ((declaration_pending hr d).and (declaration_run d)).bind ?_
    rintro r₁ r₁' _ ⟨hr₁, _, hparts, -⟩
    have hgrown : r.Extends c.dialect r₁ := hparts.extended fun s hs => hstructs s <| by
      cases d with
      | struct s' =>
        cases List.mem_singleton.mp hs
        exact List.mem_cons_self
      | declare v => simp [Ast.Declaration.parts] at hs
      | buffer b => simp [Ast.Declaration.parts] at hs
      | function f => cases List.mem_singleton.mp hs
    intro remarks remarks' a s hrun
    obtain ⟨s', hrun', hpending, hextends⟩ := ih
      (fun s hs => hstructs s (List.mem_cons_of_mem _ hs)) (hr₀.trans hgrown) hr₁
      remarks remarks' a s hrun
    exact ⟨s', hrun', hpending, hgrown.trans hextends⟩
  | add hp hds ih =>
    have hname := (Env.signatureOf_of_functionSignature hsignature).name
    exact (ih hstructs hr₀ hr).skip (function_run_prototype hp (hr₀.trans (hr.extended _))
      hsignature (hname ▸ hr.found) hr.same)

end ModuleM

/-! ## Sources -/

def Accepts (c : Context) (declarations : List Ast.Declaration) (s s' : ModuleState) : Prop :=
  (declarations.forM (ModuleM.declaration c)).run s = .ok () s'

section Sources

variable {c : Context} {s s' : ModuleState} {ds es : List Ast.Declaration}

theorem accepts_nil : Accepts c [] s s' ↔ s = s' := by
  constructor
  · rintro ⟨⟩
    rfl
  · rintro rfl
    rfl

theorem accepts_cons {d : Ast.Declaration} : Accepts c (d :: ds) s s'
    ↔ ∃ s₁, (ModuleM.declaration c d).run s = .ok () s₁ ∧ Accepts c ds s₁ s' := by
  unfold Accepts
  change (ModuleM.declaration c d >>= fun _ => ds.forM (ModuleM.declaration c)).run s = _ ↔ _
  rw [EStateM.run_bind]
  cases (ModuleM.declaration c d).run s with
  | ok a s₁ => simp
  | error fault s₁ => simp

theorem accepts_append : Accepts c (ds ++ es) s s'
    ↔ ∃ s₁, Accepts c ds s s₁ ∧ Accepts c es s₁ s' := by
  induction ds generalizing s with
  | nil => simp [accepts_nil]
  | cons first rest ih =>
    simp only [List.cons_append, accepts_cons, ih]
    constructor
    · rintro ⟨s₁, hfirst, s₂, hrest, hes⟩
      exact ⟨s₂, ⟨s₁, hfirst, hrest⟩, hes⟩
    · rintro ⟨s₂, ⟨s₁, hfirst, hrest⟩, hes⟩
      exact ⟨s₁, hfirst, s₂, hrest, hes⟩

theorem accepts_idle {ps : List Ast.Function}
    (h : ∀ p ∈ ps, (ModuleM.function c p).run s = .ok () s) :
    Accepts c (ps.map .function) s s := by
  induction ps with
  | nil => exact accepts_nil.mpr rfl
  | cons first rest ih =>
    obtain ⟨hfirst, hrest⟩ := List.forall_mem_cons.mp h
    exact accepts_cons.mpr ⟨s, hfirst, ih hrest⟩

theorem typeDeclarations_eq_iff {limit : Nat} (hlimit : limit ≠ 0) :
    typeDeclarations c limit ds s = ([], s') ↔ Accepts c ds s s' := by
  obtain ⟨limit, rfl⟩ := Nat.exists_eq_succ_of_ne_zero hlimit
  induction ds generalizing s with
  | nil => simp [typeDeclarations, accepts_nil]
  | cons first rest ih =>
    rw [typeDeclarations, accepts_cons]
    cases (ModuleM.declaration c first).run s with
    | ok a s₁ => simp [ih]
    | error fault s₁ => simp

theorem typeDeclarations_zero : typeDeclarations c 0 ds s = ([], s) := by
  cases ds <;> rfl

variable {f p : Ast.Function} {body : Ast.Body} {q : Registry} {i : Nat} {h : Typed.Function}

open Typed.Registry (Pending Defines IsPrototype)

/-- Once both sources have the definition they come to the same registries. -/
theorem Accepts.withPrototypes {r₀ : Registry} (haccepts : Accepts c ds s s')
    (hds : Ast.WithPrototypes (r₀.IsPrototype c f) ds es)
    (hstructs : ∀ s, .struct s ∈ ds → Intrinsic.isName c.dialect s.name = false)
    (hsignature : functionSignature (r₀.outer c) f = .ok h.signature)
    (hr₀ : r₀.Extends c.dialect s.registry)
    (hfound : s.registry.function? h.signature.name = some (i, h)) (hdefined : h.definition ≠ none)
    (remarks : List (Located Remark)) :
    ∃ t, Accepts c es ⟨s.registry, remarks⟩ t ∧ t.registry = s'.registry := by
  have hself : s.registry.Pending i h h s.registry :=
    ⟨hfound, (Registry.put_self (Registry.getElem?_of_function? hfound)).symm,
      h.signature.sameSignature_self, hdefined⟩
  obtain ⟨t, ht, hpending, -⟩ := ModuleM.declarations_pending hds hstructs hsignature hr₀ hself
    s.remarks remarks () s' haccepts
  refine ⟨t, ht, ?_⟩
  rw [hpending.filled, Registry.put_self hpending.slot]

/-- A definition moves behind further declarations and leaves a prototype. -/
theorem Accepts.moved (haccepts : Accepts c (.function f :: ds) s s') (hbody : f.body = some body)
    (hstructs : ∀ s, .struct s ∈ ds → Intrinsic.isName c.dialect s.name = false)
    (hp : s.registry.IsPrototype c f p) :
    ∃ t, Accepts c (.function p :: (ds ++ [.function f])) s t ∧ t.registry = s'.registry := by
  obtain ⟨s₁, hf, hds⟩ := accepts_cons.mp haccepts
  obtain ⟨_, -, signature, i, placed, d, hdefines, hs₁⟩ :=
    ModuleM.function_defines hbody s.remarks () s₁ hf
  obtain ⟨q, g, hreserves, hopen, hpending⟩ :=
    ModuleM.function_run_reserves hdefines hbody hp s.remarks
  have hfilled := hdefines.extends_placed.trans hdefines.extends_filled
  rw [← hs₁] at hpending hfilled
  obtain ⟨t₁, ht₁, hpending₁, hgrown⟩ := ModuleM.declarations_pending (.refl ds) hstructs
    hdefines.reads hfilled hpending s₁.remarks s.remarks () s' hds
  have hextends := hgrown.trans (hpending₁.extended c.dialect)
  have hplaced := hs₁ ▸ hdefines.extends_filled
  obtain ⟨t, ht, hregistry⟩ := ModuleM.function_run_of_defines hdefines hbody
    (hfilled.trans hextends) (hplaced.trans hextends) (hdefines.name ▸ hpending₁.found)
    hpending₁.same hopen t₁.remarks
  refine ⟨t, accepts_cons.mpr ⟨_, hreserves, accepts_append.mpr ⟨t₁, ht₁, ?_⟩⟩, ?_⟩
  · exact accepts_cons.mpr ⟨t, ht, accepts_nil.mpr rfl⟩
  · rw [hregistry, hpending₁.filled]

theorem Accepts.reserved (haccepts : (ModuleM.function c f).run s = .ok () s')
    (hbody : f.body = some body) {ps : List Ast.Function}
    (hps : ∀ p ∈ ps, s.registry.IsPrototype c f p) :
    ∃ t, Accepts c (ps.map .function ++ [.function f]) s t ∧ t.registry = s'.registry := by
  obtain ⟨_, -, signature, i, placed, d, hdefines, hs'⟩ :=
    ModuleM.function_defines hbody s.remarks () s' haccepts
  cases ps with
  | nil => exact ⟨s', accepts_cons.mpr ⟨s', haccepts, accepts_nil.mpr rfl⟩, rfl⟩
  | cons p ps =>
    obtain ⟨hp, hps⟩ := List.forall_mem_cons.mp hps
    obtain ⟨q, g, hreserves, hopen, hpending⟩ :=
      ModuleM.function_run_reserves hdefines hbody hp s.remarks
    have hplaced := hdefines.extends_filled.trans (hpending.extended c.dialect)
    have hq := hdefines.extends_placed.trans hplaced
    have hfound := hdefines.name ▸ hpending.found
    have hmore : Accepts c (ps.map .function) ⟨q, s.remarks⟩ ⟨q, s.remarks⟩ :=
      accepts_idle fun p' hp' => ModuleM.function_run_prototype (hps p' hp') hq hdefines.reads
        hfound hpending.same s.remarks
    obtain ⟨t, ht, hregistry⟩ := ModuleM.function_run_of_defines hdefines hbody hq hplaced hfound
      hpending.same hopen s.remarks
    refine ⟨t, accepts_cons.mpr ⟨_, hreserves, accepts_append.mpr ⟨_, hmore, ?_⟩⟩, ?_⟩
    · exact accepts_cons.mpr ⟨t, ht, accepts_nil.mpr rfl⟩
    · rw [hregistry, hs', hpending.filled]

theorem Accepts.prototyped (haccepts : Accepts c (.function f :: ds) s s')
    (hbody : f.body = some body)
    (hstructs : ∀ s, .struct s ∈ ds → Intrinsic.isName c.dialect s.name = false)
    {ps : List Ast.Function} (hps : ∀ p ∈ ps, s.registry.IsPrototype c f p)
    (hes : Ast.WithPrototypes (s.registry.IsPrototype c f) ds es) :
    ∃ t, Accepts c (ps.map .function ++ .function f :: es) s t ∧ t.registry = s'.registry := by
  obtain ⟨s₁, hf, hds⟩ := accepts_cons.mp haccepts
  obtain ⟨_, -, signature, i, placed, d, hdefines, hs₁⟩ :=
    ModuleM.function_defines hbody s.remarks () s₁ hf
  obtain ⟨t₁, ht₁, hregistry⟩ := Accepts.reserved hf hbody hps
  have hfilled := hdefines.extends_placed.trans hdefines.extends_filled
  obtain ⟨q, g, -, -, hpending⟩ := ModuleM.function_run_reserves hdefines hbody
    (Registry.isPrototype_bodiless hdefines.reads) s.remarks
  rw [← hs₁] at hfilled hpending
  have hfound := Registry.function?_of_names (hpending.names ▸ List.prefix_rfl) hpending.found
    hpending.slot_filled
  obtain ⟨t, ht, hsame⟩ := hds.withPrototypes hes hstructs hdefines.reads hfilled hfound
    hpending.defined t₁.remarks
  rw [← hregistry] at ht
  refine ⟨t, ?_, hsame⟩
  rw [List.append_cons]
  exact accepts_append.mpr ⟨t₁, ht₁, ht⟩

end Sources

section Typed

variable {d : Dialect} {config : Config} {stage : Stage} {ds es : List Ast.Declaration}
variable {r : Registry}

/-- A source that comes to the registries of an accepted one is accepted. -/
theorem typeSource_of_declaredBy (h : (typeSource d config stage ds).1 = .ok r)
    (hfaults : typingFaults d config stage es = [])
    (hdeclared : declaredBy d config stage es = r) : (typeSource d config stage es).1 = .ok r := by
  obtain ⟨hfaults', hr⟩ := declared_of_typeSource h
  rw [typeSource_of_typed hfaults', ← hr] at h
  rw [typeSource_of_typed hfaults, hdeclared, h]

/-- If one source is typed as a whole wherever another is, it is accepted where the other is. -/
theorem typeSource_of_accepts (h : (typeSource d config stage ds).1 = .ok r)
    (haccepts : config.maxErrors ≠ 0 → ∀ s', Accepts ⟨d, stage, config.promoteInts⟩ ds
      { registry := { builtins := stageVariables d stage } } s' →
      ∃ t, Accepts ⟨d, stage, config.promoteInts⟩ es
        { registry := { builtins := stageVariables d stage } } t ∧ t.registry = s'.registry) :
    (typeSource d config stage es).1 = .ok r := by
  obtain ⟨hfaults, hr⟩ := declared_of_typeSource h
  unfold typingFaults at hfaults
  unfold declaredBy at hr
  by_cases hlimit : config.maxErrors = 0
  · rw [hlimit, typeDeclarations_zero] at hr
    refine typeSource_of_declaredBy h ?_ ?_
    · rw [typingFaults, hlimit, typeDeclarations_zero]
    · rw [declaredBy, hlimit, typeDeclarations_zero, hr]
  · obtain ⟨t, ht, hregistry⟩ := haccepts hlimit _
      ((typeDeclarations_eq_iff hlimit).mp (Prod.ext hfaults rfl))
    have htyped := (typeDeclarations_eq_iff hlimit).mpr ht
    refine typeSource_of_declaredBy h ?_ ?_
    · rw [typingFaults, htyped]
    · rw [declaredBy, htyped, hr, hregistry]

theorem declaredBy_of_accepts {s : ModuleState} (hlimit : config.maxErrors ≠ 0)
    (h : Accepts ⟨d, stage, config.promoteInts⟩ ds
      { registry := { builtins := stageVariables d stage } } s) :
    declaredBy d config stage ds = s.registry := by
  rw [declaredBy, (typeDeclarations_eq_iff hlimit).mpr h]

variable {before after : List Ast.Declaration} {f : Ast.Function} {body : Ast.Body}

/-- The state in which a definition of an accepted source is typed. -/
theorem exists_accepts_of_typeSource (h : (typeSource d config stage (before ++ ds)).1 = .ok r)
    (hlimit : config.maxErrors ≠ 0) :
    ∃ s s', Accepts ⟨d, stage, config.promoteInts⟩ before
        { registry := { builtins := stageVariables d stage } } s
      ∧ Accepts ⟨d, stage, config.promoteInts⟩ ds s s'
      ∧ declaredBy d config stage before = s.registry := by
  obtain ⟨hfaults, -⟩ := declared_of_typeSource h
  unfold typingFaults at hfaults
  have haccepts := (typeDeclarations_eq_iff hlimit).mp (Prod.ext hfaults rfl)
  obtain ⟨s, hbefore, hds⟩ := accepts_append.mp haccepts
  exact ⟨s, _, hbefore, hds, declaredBy_of_accepts hlimit hbefore⟩

/-- A prototype reserves the place of a function and nothing else. In a source that is accepted, a
definition can move to the end if a prototype takes its place, unless a structure behind it has the
name of an intrinsic; and prototypes can be added directly before the definition and anywhere behind
it. The source is then accepted with the same registries and compiled to the same. -/
theorem typeSource_prototype (d : Dialect) (config : Config) (request : Request)
    (before : List Ast.Declaration) (hbody : f.body = some body)
    (hstructs : ∀ s, .struct s ∈ after → Intrinsic.isName d s.name = false)
    (h : (typeSource d config request.stage (before ++ .function f :: after)).1 = .ok r) :
    (config.maxErrors ≠ 0 → (declaredBy d config request.stage before).IsPrototype
      ⟨d, request.stage, config.promoteInts⟩ f { f with body := none })
    ∧ (∀ p, (declaredBy d config request.stage before).IsPrototype
        ⟨d, request.stage, config.promoteInts⟩ f p →
      (typeSource d config request.stage
        (before ++ .function p :: (after ++ [.function f]))).1 = .ok r
      ∧ compileTree d config request (before ++ .function p :: (after ++ [.function f]))
        = compileTree d config request (before ++ .function f :: after))
    ∧ ∀ (ps : List Ast.Function) (after' : List Ast.Declaration),
      (∀ p ∈ ps, (declaredBy d config request.stage before).IsPrototype
        ⟨d, request.stage, config.promoteInts⟩ f p) →
      Ast.WithPrototypes ((declaredBy d config request.stage before).IsPrototype
        ⟨d, request.stage, config.promoteInts⟩ f) after after' →
      (typeSource d config request.stage
        (before ++ (ps.map .function ++ .function f :: after'))).1 = .ok r
      ∧ compileTree d config request (before ++ (ps.map .function ++ .function f :: after'))
        = compileTree d config request (before ++ .function f :: after) := by
  have hcompiled {es : List Ast.Declaration}
      (hes : (typeSource d config request.stage es).1 = .ok r) :
      (typeSource d config request.stage es).1 = .ok r
      ∧ compileTree d config request es
        = compileTree d config request (before ++ .function f :: after) := by
    refine ⟨hes, ?_⟩
    rw [compileTree, compileTree, hes, h]
  refine ⟨fun hlimit => ?_, fun p hp => hcompiled ?_, fun ps after' hps hafter => hcompiled ?_⟩
  · obtain ⟨s, s', -, hds, hdeclared⟩ := exists_accepts_of_typeSource h hlimit
    obtain ⟨s₁, hf, -⟩ := accepts_cons.mp hds
    obtain ⟨_, -, _, _, _, _, hdefines, -⟩ :=
      ModuleM.function_defines hbody s.remarks () s₁ hf
    exact hdeclared ▸ Registry.isPrototype_bodiless hdefines.reads
  · refine typeSource_of_accepts h fun hlimit s' haccepts => ?_
    obtain ⟨s, hbefore, hds⟩ := accepts_append.mp haccepts
    rw [declaredBy_of_accepts hlimit hbefore] at hp
    obtain ⟨t, ht, hregistry⟩ := hds.moved hbody hstructs hp
    exact ⟨t, accepts_append.mpr ⟨s, hbefore, ht⟩, hregistry⟩
  · refine typeSource_of_accepts h fun hlimit s' haccepts => ?_
    obtain ⟨s, hbefore, hds⟩ := accepts_append.mp haccepts
    rw [declaredBy_of_accepts hlimit hbefore] at hps hafter
    obtain ⟨t, ht, hregistry⟩ := hds.prototyped hbody hstructs hps hafter
    exact ⟨t, accepts_append.mpr ⟨s, hbefore, ht⟩, hregistry⟩

end Typed

/-- A function with a local that hides a global declared behind the function. -/
def shadowingFunction : Ast.Function where
  returnType := ⟨"float", {}⟩
  name := "twice"
  parameters := [⟨.input, false, ⟨"float", {}⟩, some "x", none, none, {}⟩]
  returnSemantic := none
  body := some ⟨[.simple (.declare ⟨none, [], ⟨"float", {}⟩,
      [⟨"scale", none, none, some (.name "x" {}), {}⟩]⟩) {},
    .returnFrom (some (.binary (.arith .add) (.name "scale" {}) (.name "x" {}) {})) {}], {}⟩
  span := {}

def shadowedDeclarations : List Ast.Declaration :=
  [.declare ⟨none, [], ⟨"float", {}⟩, [⟨"scale", none, none, none, {}⟩]⟩,
    .function
      { returnType := ⟨"void", {}⟩, name := "main", parameters := [], returnSemantic := none,
        body := some ⟨[.simple (.expr (.assign none (.name "scale" {})
          (.call "twice" [.name "scale" {}] {}) {})) {}], {}⟩, span := {} }]

theorem typeSource_prototype_shadowing : ∃ r code program,
    (typeSource .glsl {} .pixel (.function shadowingFunction :: shadowedDeclarations)).1 = .ok r
    ∧ compileTree .glsl {} { stage := .pixel, source := "" }
        (.function shadowingFunction :: shadowedDeclarations) = .ok (code, program)
    ∧ compileTree .glsl {} { stage := .pixel, source := "" }
        (.function { shadowingFunction with body := none }
          :: (shadowedDeclarations ++ [.function shadowingFunction])) = .ok (code, program)
    ∧ compileTree .glsl {} { stage := .pixel, source := "" }
        (.function { shadowingFunction with body := none } :: .function shadowingFunction
          :: .function { shadowingFunction with body := none } :: shadowedDeclarations)
          = .ok (code, program) := by
  have haccepted : ((typeSource .glsl {} .pixel
      (.function shadowingFunction :: shadowedDeclarations)).1.toOption.isSome
      && (compileTree .glsl {} { stage := .pixel, source := "" }
        (.function shadowingFunction :: shadowedDeclarations)).toOption.isSome) = true := by
    decide +kernel
  obtain ⟨htyped, hcompiled⟩ := Bool.and_eq_true_iff.mp haccepted
  obtain ⟨r, hr⟩ := exists_ok_of_isSome htyped
  obtain ⟨⟨code, program⟩, hcode⟩ := exists_ok_of_isSome hcompiled
  have hstructs : ∀ s, .struct s ∈ shadowedDeclarations →
      Intrinsic.isName .glsl s.name = false := by
    intro s hs
    simp [shadowedDeclarations] at hs
  obtain ⟨hself, hmoved, hadded⟩ := typeSource_prototype .glsl {}
    { stage := .pixel, source := "" } [] rfl hstructs hr
  have hp := hself (by decide)
  have hps := List.forall_mem_singleton.mpr hp
  refine ⟨r, code, program, hr, hcode, ?_, ?_⟩
  · exact (hmoved _ hp).2.trans hcode
  · exact (hadded [_] _ hps (.add hp (.refl _))).2.trans hcode

end ShaderBytecode
