import Mathlib.Algebra.Order.BigOperators.Group.List
import Mathlib.Algebra.Order.Group.Nat
import Mathlib.Data.List.Forall2
import ShaderBytecode.Proofs.ModuleTyping
import ShaderBytecode.Proofs.Routines

/-!
# Emission gives verified routines

An accepted source is emitted without a fault, as a chain of routines: one for each function, in the
order of the registry, and behind them the initialisation of the globals. Each is verified in a
context whose slots are the parameters and the locals of its function.
-/

namespace ShaderBytecode

namespace Typed

variable {d : Dialect} {r : Registry}

theorem length_le_sum_map {α : Type} {g : α → Nat} (hg : ∀ a, 0 < g a) (l : List α) :
    l.length ≤ (l.map g).sum := by
  rw [← List.length_map g]
  refine List.length_le_sum_of_one_le _ fun n hn => ?_
  obtain ⟨a, -, rfl⟩ := List.mem_map.mp hn
  exact hg a

/-- What is registered is little enough for its code to have less than 4 GiB. -/
def Registry.Fits (r : Registry) : Prop :=
  nodeSize * r.load + 1 < UInt32.size

theorem Registry.fits_of_load {weight : Nat} (h : r.load ≤ 5 + 4 * weight)
    (hweight : weight < 2 ^ 24) : r.Fits := by
  unfold Registry.Fits nodeSize UInt32.size
  omega

theorem Registry.small (h : r.Fits) {slots : List DataType} {result : DataType}
    (hslots : slots.length ≤ r.load) : (r.codeContext d slots result).Small := by
  have hload : r.load ≤ UInt32.size := by
    unfold Registry.Fits nodeSize at h
    omega
  have hglobals := length_le_sum_map (g := Global.nodes) (fun _ => Nat.succ_pos _) r.globals
  have hstructures := length_le_sum_map (g := structureLoad) (fun _ => Nat.succ_pos _) r.structures
  have hfunctions := length_le_sum_map (g := Function.load) (fun _ => Nat.succ_pos _) r.functions
  have hall : r.load = r.builtins.length + (r.globals.map Global.nodes).sum
    + (r.structures.map structureLoad).sum + (r.functions.map Function.load).sum := rfl
  refine ⟨Nat.le_trans hslots hload, ?_, ?_, ?_, ?_⟩
  · simp only [Registry.codeContext, Registry.allGlobals, List.length_map, List.length_append]
    omega
  · simp only [Registry.codeContext, List.length_map]
    omega
  · simp only [Registry.codeContext]
    omega
  · intro s hs
    have hmember : s.members.length + 1 ≤ (r.structures.map structureLoad).sum :=
      List.le_sum_of_mem (List.mem_map_of_mem hs)
    omega

/-! ## Functions -/

/-- A routine is that of a function: its slots are those of the parameters and the locals, and it is
verified with them. -/
structure Function.PlacedAs (d : Dialect) (r : Registry) (f : Function) (routine : Routine) :
    Prop where
  context : ∃ definition slots, f.definition = some definition
    ∧ routine.context = r.codeContext d slots f.signature.returnType
    ∧ f.parameterTypes <+: slots
    ∧ slots.length = f.signature.parameters.length + definition.locals.length
  verified : ∃ types, routine.Verified types

def Function.placedAt (f : Function) (routine : Routine) : ShaderBytecode.Function :=
  { f.signature with address := routine.start }

variable {f : Function} {definition : Definition}

theorem Function.size_le (markers : Bool) (hr : r.WellTyped d) (hf : f ∈ r.functions)
    (hdefinition : f.definition = some definition) :
    Item.sizeAll (definition.code markers) ≤ nodeSize * f.load := by
  obtain ⟨slots, htyped⟩ := hr.functions f hf definition hdefinition
  refine Nat.le_trans (Definition.sizeAll_code_le markers htyped.body htyped.zero) ?_
  refine Nat.mul_le_mul_left _ ?_
  simp only [Function.load, hdefinition, Option.map_some, Option.getD_some]
  omega

theorem Function.slots_le_load (h : f.definition = some definition) :
    f.signature.parameters.length + definition.locals.length ≤ f.load := by
  simp only [Function.load, h, Option.map_some, Option.getD_some]
  omega

theorem Registry.load_le_load (r : Registry) (hf : f ∈ r.functions) : f.load ≤ r.load := by
  have hsum : f.load ≤ (r.functions.map Function.load).sum :=
    List.le_sum_of_mem (List.mem_map_of_mem hf)
  unfold Registry.load
  omega

/-- The code of a function can be assembled at any offset that leaves room for it. -/
theorem Function.exists_routine (markers : Bool) (hr : r.WellTyped d) (hfits : r.Fits)
    (hf : f ∈ r.functions) (hdefinition : f.definition = some definition) (position : Nat)
    (hsize : position + nodeSize * f.load ≤ UInt32.size) :
    ∃ routine : Routine, assemble position (definition.code markers) = .ok routine.code
      ∧ routine.start = position ∧ f.PlacedAs d r routine := by
  obtain ⟨slots, htyped⟩ := hr.functions f hf definition hdefinition
  have hcode := f.size_le markers hr hf hdefinition
  have hload := r.load_le_load hf
  have hslots : slots.length = f.signature.parameters.length + definition.locals.length := by
    have hcount := htyped.count
    rwa [Function.parameterTypes, List.length_map] at hcount
  have hsmall : (r.codeContext d slots f.signature.returnType).Small :=
    Registry.small hfits (Nat.le_trans (hslots ▸ f.slots_le_load hdefinition) hload)
  have hlt : Item.sizeAll (definition.code markers) < UInt32.size := by
    unfold Registry.Fits at hfits
    have hmul : nodeSize * f.load ≤ nodeSize * r.load := Nat.mul_le_mul_left _ hload
    omega
  have hcloses := Definition.closes (hr.valid.codeContext htyped.values) hsmall htyped.body
    htyped.zero hlt
  obtain ⟨code, hassemble, hverified⟩ := hcloses.verified (p := position) (by omega)
  exact ⟨⟨position, code, _⟩, hassemble, rfl,
    ⟨⟨definition, slots, hdefinition, rfl, htyped.start, hslots⟩, hverified⟩⟩

theorem emitFunctions_cons {markers : Bool} {position : Nat} {rest : List Function}
    {own more : List Instruction} {others : List ShaderBytecode.Function}
    (hdefinition : f.definition = some definition)
    (hown : assemble position (definition.code markers) = .ok own)
    (hmore : emitFunctions markers (position + sizeAll own) rest = .ok (more, others)) :
    emitFunctions markers position (f :: rest)
      = .ok (own ++ more, { f.signature with address := position } :: others) := by
  rw [sizeAll_assemble hown] at hmore
  rw [emitFunctions, hdefinition]
  simp only [hown, hmore, bind, Except.bind]
  rfl

/-- Functions are emitted one behind the other, each as its routine. -/
theorem exists_emitFunctions (markers : Bool) (hr : r.WellTyped d) (hfits : r.Fits) :
    ∀ (fs : List Function) (position : Nat), (∀ f ∈ fs, f ∈ r.functions) →
      (∀ f ∈ fs, f.definition.isSome = true) →
      position + nodeSize * (fs.map Function.load).sum ≤ UInt32.size →
      ∃ routines, emitFunctions markers position fs =
          .ok (routines.flatMap (·.code), List.zipWith Function.placedAt fs routines)
        ∧ Chain position routines ∧ List.Forall₂ (Function.PlacedAs d r) fs routines
        ∧ sizeAll (routines.flatMap (·.code)) ≤ nodeSize * (fs.map Function.load).sum
  | [], _, _, _, _ => ⟨[], rfl, trivial, .nil, Nat.zero_le _⟩
  | f :: rest, position, hmem, hdefined, hsize => by
    rw [List.map_cons, List.sum_cons, Nat.mul_add] at hsize ⊢
    have hf := hmem f (List.mem_cons_self ..)
    obtain ⟨definition, hdefinition⟩ :=
      Option.isSome_iff_exists.mp (hdefined f (List.mem_cons_self ..))
    obtain ⟨routine, hassemble, rfl, hplaced⟩ :=
      Function.exists_routine markers hr hfits hf hdefinition position (by omega)
    have hcode := f.size_le markers hr hf hdefinition
    have hstop := sizeAll_assemble hassemble
    obtain ⟨routines, hemit, hchain, hall, hmore⟩ := exists_emitFunctions markers hr hfits rest
      routine.stop (fun g hg => hmem g (List.mem_cons_of_mem _ hg))
      (fun g hg => hdefined g (List.mem_cons_of_mem _ hg)) (by rw [Routine.stop]; omega)
    obtain ⟨types, hverified⟩ := hplaced.verified
    refine ⟨routine :: routines, emitFunctions_cons hdefinition hassemble hemit,
      ⟨rfl, hverified.ne_nil, hchain⟩, .cons hplaced hall, ?_⟩
    rw [List.flatMap_cons, sizeAll_code_append]
    omega

/-! ## Sources -/

theorem sizeAll_flatMap_global_le {c : CodeContext} (markers : Bool) (gs : List (Global × Nat))
    (h : ∀ g index, (g, index) ∈ gs → g.WellTyped c index) :
    Item.sizeAll (gs.flatMap fun (g, index) => g.code markers index)
      ≤ nodeSize * (gs.map (Global.nodes ∘ Prod.fst)).sum := by
  induction gs with
  | nil => exact Nat.le_refl 0
  | cons first rest ih =>
    obtain ⟨g, index⟩ := first
    have hfirst := (h g index (List.mem_cons_self ..)).sizeAll_code_le markers
    have hrest := ih fun g index hmem => h g index (List.mem_cons_of_mem _ hmem)
    rw [List.flatMap_cons, Item.sizeAll_append, List.map_cons, List.sum_cons, Nat.mul_add]
    exact Nat.add_le_add hfirst hrest

theorem Registry.WellTyped.zipIdx (hr : r.WellTyped d) {g : Global} {index : Nat}
    (h : (g, index) ∈ r.globals.zipIdx r.builtins.length) :
    g.WellTyped (r.codeContext d [] .void) index := by
  obtain ⟨hlow, hget⟩ := List.mk_mem_zipIdx_iff_le_and_getElem?_sub.mp h
  have htyped := hr.globals (index - r.builtins.length) g hget
  rwa [Nat.add_sub_cancel' hlow] at htyped

/-- The initialisation of the globals is at most as large as what they hold. -/
theorem Registry.size_initCode_le (markers : Bool) (hr : r.WellTyped d) :
    Item.sizeAll (r.initCode markers) ≤ nodeSize * (r.globals.map Global.nodes).sum + 1 := by
  have hglobals := sizeAll_flatMap_global_le markers (r.globals.zipIdx r.builtins.length)
    fun g index h => hr.zipIdx h
  rw [← List.map_map, List.zipIdx_map_fst] at hglobals
  rw [Registry.initCode, Item.sizeAll_append]
  exact Nat.add_le_add_right hglobals 1

/-- What is known of an emitted source: the routines of its functions, and that of the
initialisation behind them. -/
structure Registry.EmittedAs (d : Dialect) (r : Registry) (e : Emitted) (routines : List Routine)
    (init : Routine) : Prop where
  chain : Chain 0 (routines ++ [init])
  code : e.code = (routines ++ [init]).flatMap (·.code)
  functions : e.functions = List.zipWith Function.placedAt r.functions routines
  initAddress : e.initAddress = init.start
  placed : List.Forall₂ (Function.PlacedAs d r) r.functions routines
  context : init.context = r.codeContext d [] .void
  verified : ∃ types, init.Verified types

theorem Registry.emit_eq_ok {markers : Bool} {r : Registry} {code init : List Instruction}
    {functions : List ShaderBytecode.Function}
    (hfunctions : emitFunctions markers 0 r.functions = .ok (code, functions))
    (hinit : assemble (sizeAll code) (r.initCode markers) = .ok init) :
    r.emit markers = .ok ⟨code ++ init, functions, sizeAll code⟩ := by
  rw [Registry.emit, hfunctions]
  simp only [bind, Except.bind, hinit]
  rfl

/-- An accepted source that is not too long is emitted, and its routines are verified. -/
theorem Registry.exists_emit (markers : Bool) (hr : r.WellTyped d) (hfits : r.Fits)
    (hdefined : ∀ f ∈ r.functions, f.definition.isSome = true) :
    ∃ e routines init, r.emit markers = .ok e ∧ r.EmittedAs d e routines init := by
  have hload : r.load = r.builtins.length + (r.globals.map Global.nodes).sum
    + (r.structures.map structureLoad).sum + (r.functions.map Function.load).sum := rfl
  have hsize : nodeSize * (r.functions.map Function.load).sum
      + (nodeSize * (r.globals.map Global.nodes).sum + 1) < UInt32.size := by
    unfold Registry.Fits nodeSize at *
    omega
  have hinit := r.size_initCode_le markers hr
  obtain ⟨routines, hemit, hchain, hplaced, hfunctions⟩ :=
    exists_emitFunctions markers hr hfits r.functions 0 (fun f hf => hf) hdefined (by omega)
  have hcloses : Closes (r.codeContext d [] .void) (r.initCode markers) :=
    r.closes_initCode (hr.valid.codeContext (List.forall_mem_nil _))
      (Registry.small hfits (Nat.zero_le _)) rfl
      (fun g index h => hr.zipIdx h) (by omega)
  obtain ⟨code, hassemble, hverified⟩ :=
    hcloses.verified (p := sizeAll (routines.flatMap (·.code))) (by omega)
  let init : Routine := ⟨sizeAll (routines.flatMap (·.code)), code, r.codeContext d [] .void⟩
  refine ⟨⟨(routines ++ [init]).flatMap (·.code),
    List.zipWith Function.placedAt r.functions routines, init.start⟩, routines, init, ?_,
    ⟨?_, rfl, rfl, rfl, hplaced, rfl, hverified⟩⟩
  · rw [Registry.emit_eq_ok hemit hassemble, List.flatMap_append, List.flatMap_singleton]
  · refine hchain.concat (Nat.zero_add _).symm ?_
    obtain ⟨types, hverified⟩ := hverified
    exact hverified.ne_nil

end Typed

end ShaderBytecode
