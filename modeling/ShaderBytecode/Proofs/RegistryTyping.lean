import Mathlib.Algebra.GroupWithZero.Nat
import ShaderBytecode.Proofs.BodyTyping

/-!
# Well typed registries

Registries only grow: a declaration adds entries at the end, or gives a function that is already
registered its body without changing how it is called. So what was well typed stays so.
-/

namespace ShaderBytecode

namespace Typed

/-- A body is well typed in a context whose slots are the parameters and then the locals. What is
returned at its end refers to nothing. -/
structure Definition.WellTyped (c : CodeContext) (parameters : List DataType) (d : Definition) :
    Prop where
  start : parameters <+: c.locals
  count : c.locals.length = parameters.length + d.locals.length
  values : ∀ type ∈ c.locals, type.IsValue
  body : Statement.AllWellTyped c false d.body
  zero : Expr.FitsResult c d.zero
  constant : Expr.optionMentions d.zero = []

theorem Definition.WellTyped.extend {c c' : CodeContext} {parameters : List DataType}
    {d : Definition} (hc : c.Extends c') (hlocals : c'.locals = c.locals)
    (h : d.WellTyped c parameters) : d.WellTyped c' parameters where
  start := hlocals ▸ h.start
  count := hlocals ▸ h.count
  values := hlocals ▸ h.values
  body := h.body.extend hc
  zero := h.zero.extend hc
  constant := h.constant

theorem Global.WellTyped.extend {c c' : CodeContext} {index : Nat} {g : Global}
    (hc : c.Extends c') (h : g.WellTyped c index) : g.WellTyped c' index :=
  ⟨getElem?_mono hc.globals h.1, fun value hvalue =>
    ⟨(h.2 value hvalue).1.extend hc, (h.2 value hvalue).2⟩⟩

def Function.parameterTypes (f : Function) : List DataType :=
  f.signature.parameters.map (·.type)

/-- The body of a function, if there is one, is well typed for some types of its slots. -/
def Function.WellTyped (d : Dialect) (r : Registry) (f : Function) : Prop :=
  ∀ definition ∈ f.definition, ∃ slots,
    definition.WellTyped (r.codeContext d slots f.signature.returnType) f.parameterTypes

namespace Registry

/-- Every body and start value that is registered is well typed, and functions have names of their
own. -/
structure WellTyped (d : Dialect) (r : Registry) : Prop where
  valid : r.Valid
  names : (r.functions.map (·.signature.name)).Nodup
  globals : ∀ (i : Nat) (g : Global), r.globals[i]? = some g →
    g.WellTyped (r.codeContext d [] .void) (r.builtins.length + i)
  functions : ∀ f ∈ r.functions, f.WellTyped d r

/-- What may happen to registries: entries are added at the end, and a function keeps its place and
how it is called. -/
structure Grows (r r' : Registry) : Prop where
  builtins : r.builtins = r'.builtins
  globals : r.globals <+: r'.globals
  structures : r.structures <+: r'.structures
  functions : r.functions.map (·.signature.callShape) <+: r'.functions.map (·.signature.callShape)

variable {d : Dialect} {r r' : Registry}

theorem Grows.codeContext (h : r.Grows r') {slots : List DataType} {result : DataType} :
    (r.codeContext d slots result).Extends (r'.codeContext d slots result) where
  dialect := rfl
  structures := h.structures
  globals := by
    obtain ⟨more, hmore⟩ := h.globals
    simp only [Registry.codeContext, allGlobals, ← h.builtins, ← hmore, List.map_append,
      ← List.append_assoc]
    exact List.prefix_append _ _
  functions := h.functions
  locals := List.prefix_rfl
  result := rfl

theorem Grows.function (h : r.Grows r') {f : Function} (hf : f.WellTyped d r) :
    f.WellTyped d r' := by
  intro definition hdefinition
  obtain ⟨slots, htyped⟩ := hf definition hdefinition
  exact ⟨slots, htyped.extend h.codeContext rfl⟩

theorem WellTyped.grow (h : r.WellTyped d) (hgrows : r.Grows r') (hvalid : r'.Valid)
    (hnames : (r'.functions.map (·.signature.name)).Nodup)
    (hglobals : ∀ (i : Nat) (g : Global), r'.globals[i]? = some g → r.globals[i]? = some g
      ∨ g.WellTyped (r'.codeContext d [] .void) (r'.builtins.length + i))
    (hfunctions : ∀ f ∈ r'.functions, f ∈ r.functions ∨ f.WellTyped d r') : r'.WellTyped d where
  valid := hvalid
  names := hnames
  globals := by
    intro i g hg
    obtain hold | hnew := hglobals i g hg
    · rw [← hgrows.builtins]
      exact (h.globals i g hold).extend hgrows.codeContext
    · exact hnew
  functions := by
    intro f hf
    obtain hold | hnew := hfunctions f hf
    · exact hgrows.function (h.functions f hold)
    · exact hnew

theorem WellTyped.addStructure (h : r.WellTyped d) {s : Structure}
    (hs : ∀ m ∈ s.members, m.type.IsValue) :
    { r with structures := r.structures ++ [s] }.WellTyped d := by
  refine h.grow ⟨rfl, List.prefix_rfl, List.prefix_append _ _, List.prefix_rfl⟩
    ⟨h.valid.globals, ?_, h.valid.parameters, h.valid.results⟩ h.names
    (fun _ _ hg => .inl hg) fun _ hf => .inl hf
  exact List.forall_mem_append.mpr ⟨h.valid.members, List.forall_mem_singleton.mpr hs⟩

theorem WellTyped.addGlobal (h : r.WellTyped d) {g : Global} (htype : g.symbol.type.IsValue)
    (hvalue : ∀ value ∈ g.initializer, value.WellTyped (r.codeContext d [] .void)
      ∧ value.type = g.symbol.type) :
    { r with globals := r.globals ++ [g] }.WellTyped d := by
  have hgrows : r.Grows { r with globals := r.globals ++ [g] } :=
    ⟨rfl, List.prefix_append _ _, List.prefix_rfl, List.prefix_rfl⟩
  refine h.grow hgrows ⟨?_, h.valid.members, h.valid.parameters, h.valid.results⟩ h.names ?_
    fun _ hf => .inl hf
  · simp only [allGlobals, List.map_append, ← List.append_assoc, List.map_cons, List.map_nil]
    exact List.forall_mem_append.mpr ⟨h.valid.globals, List.forall_mem_singleton.mpr htype⟩
  · intro i g' hg'
    obtain hi | hi := Nat.lt_or_ge i r.globals.length
    · rw [List.getElem?_append_left hi] at hg'
      exact .inl hg'
    · rw [List.getElem?_append_right hi] at hg'
      have hlast : i - r.globals.length < 1 := (List.getElem?_eq_some_iff.mp hg').1
      obtain rfl : i = r.globals.length := by omega
      rw [Nat.sub_self] at hg'
      obtain rfl : g = g' := Option.some.inj hg'
      refine .inr ⟨?_, fun value hmem => ?_⟩
      · have hplace : r.builtins.length + r.globals.length
            = (r.allGlobals.map (·.type)).length := by
          rw [List.length_map, allGlobals, List.length_append, List.length_map]
        simp only [Registry.codeContext, allGlobals, List.map_append, ← List.append_assoc,
          List.map_cons, List.map_nil] at hplace ⊢
        rw [hplace]
        exact List.getElem?_concat_length
      · exact ⟨(hvalue value hmem).1.extend hgrows.codeContext, (hvalue value hmem).2⟩

theorem WellTyped.addFunction (h : r.WellTyped d) {signature : ShaderBytecode.Function}
    {span : Span} (hparameters : ∀ p ∈ signature.parameters, p.type.IsValue)
    (hresult : signature.returnType.IsResult)
    (hname : ∀ f ∈ r.functions, f.signature.name ≠ signature.name) :
    { r with functions := r.functions ++ [Function.mk signature none span] }.WellTyped d := by
  refine h.grow ⟨rfl, List.prefix_rfl, List.prefix_rfl, ?_⟩
    ⟨h.valid.globals, h.valid.members, ?_, ?_⟩ ?_ (fun _ _ hg => .inl hg) ?_
  · rw [List.map_append]
    exact List.prefix_append _ _
  · exact List.forall_mem_append.mpr
      ⟨h.valid.parameters, List.forall_mem_singleton.mpr hparameters⟩
  · exact List.forall_mem_append.mpr ⟨h.valid.results, List.forall_mem_singleton.mpr hresult⟩
  · rw [List.map_append]
    refine List.nodup_append.mpr ⟨h.names, List.pairwise_singleton _ _, ?_⟩
    intro name hold name' hnew
    obtain ⟨f, hf, rfl⟩ := List.mem_map.mp hold
    rw [List.mem_singleton.mp hnew]
    exact hname f hf
  · exact List.forall_mem_append.mpr
      ⟨fun _ hf => .inl hf, List.forall_mem_singleton.mpr (.inr nofun)⟩

/-- Replacing an entry by one with the same image keeps the images. -/
theorem map_set_of_getElem? {α β : Type} (g : α → β) {l : List α} {i : Nat} {a b : α}
    (hi : l[i]? = some a) (hab : g b = g a) : (l.set i b).map g = l.map g := by
  obtain ⟨hlength, rfl⟩ := List.getElem?_eq_some_iff.mp hi
  rw [List.map_set, hab, ← List.getElem_map g]
  · exact List.set_getElem_self _
  · rw [List.length_map]
    exact hlength

/-- A function that is registered may get a body, if it is called as before. -/
theorem WellTyped.setFunction (h : r.WellTyped d) {index : Nat} {earlier f : Function}
    (hplace : r.functions[index]? = some earlier)
    (hsame : earlier.signature.sameSignature f.signature = true)
    (htyped : f.WellTyped d r) :
    { r with functions := r.functions.set index f }.WellTyped d := by
  simp only [ShaderBytecode.Function.sameSignature, Bool.and_eq_true, decide_eq_true_eq] at hsame
  obtain ⟨⟨hname, hresult⟩, hshape⟩ := hsame
  have hearlier : earlier ∈ r.functions := List.mem_of_getElem? hplace
  have hcall : f.signature.callShape = earlier.signature.callShape := by
    rw [ShaderBytecode.Function.callShape, ShaderBytecode.Function.callShape, hresult, hshape]
  have hgrows : r.Grows { r with functions := r.functions.set index f } := by
    have hsame := map_set_of_getElem? (·.signature.callShape) hplace hcall
    exact ⟨rfl, List.prefix_rfl, List.prefix_rfl, hsame ▸ List.prefix_rfl⟩
  refine h.grow hgrows ⟨h.valid.globals, h.valid.members, ?_, ?_⟩ ?_ (fun _ _ hg => .inl hg) ?_
  · intro g hg p hp
    obtain hg | rfl := List.mem_or_eq_of_mem_set hg
    · exact h.valid.parameters g hg p hp
    · have hmem : (p.type, p.passing) ∈ earlier.signature.parameters.map
          fun p => (p.type, p.passing) := by
        rw [hshape]
        exact List.mem_map_of_mem hp
      obtain ⟨p', hp', heq⟩ := List.mem_map.mp hmem
      rw [← (Prod.mk.inj heq).1]
      exact h.valid.parameters earlier hearlier p' hp'
  · intro g hg
    obtain hg | rfl := List.mem_or_eq_of_mem_set hg
    · exact h.valid.results g hg
    · rw [← hresult]
      exact h.valid.results earlier hearlier
  · rw [map_set_of_getElem? (·.signature.name) hplace hname.symm]
    exact h.names
  · intro g hg
    obtain hg | rfl := List.mem_or_eq_of_mem_set hg
    · exact .inl hg
    · exact .inr (hgrows.function htyped)

end Registry

/-! ## How much is registered -/

def Function.load (f : Function) : Nat :=
  f.signature.parameters.length + (f.definition.map fun d => d.locals.length + d.nodes).getD 0 + 1

def structureLoad (s : Structure) : Nat :=
  s.members.length + 1

def Registry.load (r : Registry) : Nat :=
  r.builtins.length + (r.globals.map Global.nodes).sum + (r.structures.map structureLoad).sum
    + (r.functions.map Function.load).sum

theorem sum_map_append_singleton {α : Type} (g : α → Nat) (l : List α) (a : α) :
    ((l ++ [a]).map g).sum = (l.map g).sum + g a := by
  rw [List.map_append, List.sum_append, List.map_singleton, List.sum_singleton]

theorem sum_map_set_le {α : Type} (g : α → Nat) (l : List α) (i : Nat) (a : α) :
    ((l.set i a).map g).sum ≤ (l.map g).sum + g a := by
  induction l generalizing i with
  | nil => exact Nat.zero_le _
  | cons first rest ih =>
    cases i with
    | zero =>
      simp only [List.set_cons_zero, List.map_cons, List.sum_cons]
      omega
    | succ i =>
      have hrest := ih i
      simp only [List.set_cons_succ, List.map_cons, List.sum_cons]
      omega

namespace Registry

variable (r : Registry)

theorem load_addStructure (s : Structure) :
    { r with structures := r.structures ++ [s] }.load = r.load + (s.members.length + 1) := by
  simp only [load, sum_map_append_singleton, structureLoad]
  omega

theorem load_addGlobal (g : Global) :
    { r with globals := r.globals ++ [g] }.load = r.load + g.nodes := by
  simp only [load, sum_map_append_singleton]
  omega

theorem load_addFunction (f : Function) :
    { r with functions := r.functions ++ [f] }.load = r.load + f.load := by
  simp only [load, sum_map_append_singleton]
  omega

theorem load_setFunction_le (i : Nat) (f : Function) :
    { r with functions := r.functions.set i f }.load ≤ r.load + f.load := by
  have hset := sum_map_set_le Function.load r.functions i f
  simp only [load]
  omega

end Registry

end Typed

end ShaderBytecode
