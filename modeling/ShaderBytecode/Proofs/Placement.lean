import ShaderBytecode.Proofs.ControlFlow
import ShaderBytecode.Proofs.MarkerErasure
import ShaderBytecode.Proofs.Verification

/-!
# Where emitted code stands

Whatever the size of a source: if it is emitted, its code is a chain of routines, each the assembled
code of a function, with that of the initialisation behind them. Seen as a whole the code is
assembled from the items of all functions and globals and a last return, and its jumps lead to
instructions.
-/

namespace ShaderBytecode

namespace Item

variable {R : Int → Int → Prop} {p q : Nat} {marked plain : List Item} {code : List Instruction}

theorem jumpTarget?_of_isMarker {i : Instruction} (h : i.isMarker = true) : i.jumpTarget? = none := by
  unfold Instruction.isMarker at h
  split at h
  · rfl
  · cases h

/-- The jumps of assembled code with markers lead where those of its items do. -/
theorem Erases.exists_of_jump_marked (h : Erases R p q marked plain)
    (hcode : ShaderBytecode.assemble p marked = .ok code) :
    ∀ i ∈ code, ∀ target ∈ i.jumpTarget?, ∃ target', R target.toNat target' := by
  induction h generalizing code with
  | nil =>
    cases hcode
    exact List.forall_mem_nil _
  | marker hi _ ih =>
    obtain ⟨i, more, hitem, hmore, rfl⟩ := assemble_cons.mp hcode
    cases hitem
    refine List.forall_mem_cons.mpr ⟨fun target htarget => ?_, ih hmore⟩
    rw [jumpTarget?_of_isMarker hi] at htarget
    cases htarget
  | op _ hjump _ ih =>
    obtain ⟨i, more, hitem, hmore, rfl⟩ := assemble_cons.mp hcode
    cases hitem
    refine List.forall_mem_cons.mpr ⟨fun target htarget => ?_, ih hmore⟩
    rw [hjump] at htarget
    cases htarget
  | jump hR _ ih =>
    obtain ⟨i, more, hitem, hmore, rfl⟩ := assemble_cons.mp hcode
    obtain ⟨target, htarget, rfl⟩ := eq_jump_of_assemble hitem
    refine List.forall_mem_cons.mpr ⟨fun other hother => ?_, ih hmore⟩
    cases hother
    exact ⟨_, htarget ▸ hR⟩
  | leave _ _ =>
    obtain ⟨i, more, hitem, -⟩ := assemble_cons.mp hcode
    cases hitem

/-- The jumps of assembled code without markers lead where those of its items do. -/
theorem Erases.exists_of_jump_plain (h : Erases R p q marked plain)
    (hcode : ShaderBytecode.assemble q plain = .ok code) :
    ∀ i ∈ code, ∀ target' ∈ i.jumpTarget?, ∃ target, R target target'.toNat := by
  induction h generalizing code with
  | nil =>
    cases hcode
    exact List.forall_mem_nil _
  | marker _ _ ih => exact ih hcode
  | op _ hjump _ ih =>
    obtain ⟨i, more, hitem, hmore, rfl⟩ := assemble_cons.mp hcode
    cases hitem
    refine List.forall_mem_cons.mpr ⟨fun target htarget => ?_, ih hmore⟩
    rw [hjump] at htarget
    cases htarget
  | jump hR _ ih =>
    obtain ⟨i, more, hitem, hmore, rfl⟩ := assemble_cons.mp hcode
    obtain ⟨target, htarget, rfl⟩ := eq_jump_of_assemble hitem
    refine List.forall_mem_cons.mpr ⟨fun other hother => ?_, ih hmore⟩
    cases hother
    exact ⟨_, htarget ▸ hR⟩
  | leave _ _ =>
    obtain ⟨i, more, hitem, -⟩ := assemble_cons.mp hcode
    cases hitem

/-- The places that meet in items with and without markers. -/
def MeetsIn (marked plain : List Item) (target target' : Int) : Prop :=
  ∃ o o' : Nat, target = o ∧ target' = o' ∧ Meets 0 0 marked plain o o'

theorem Parallel.erases (h : Parallel 0 0 marked plain) :
    Erases (MeetsIn marked plain) 0 0 marked plain :=
  h 0 0 _ (fun o o' hmeet => ⟨o, o', rfl, rfl, hmeet⟩) ⟨_, _, rfl, rfl, h.alike.meets_stop⟩

end Item

namespace Typed

def Function.code (markers : Bool) (f : Function) : List Item :=
  (f.definition.map (Definition.code markers)).getD []

/-- The items of the globals of a source that have a start value. -/
def Registry.globalCode (markers : Bool) (r : Registry) : List Item :=
  (r.globals.zipIdx r.builtins.length).flatMap fun (g, index) => g.code markers index

def Registry.front (markers : Bool) (r : Registry) : List Item :=
  r.functions.flatMap (Function.code markers) ++ r.globalCode markers

def Function.LaidAs (markers : Bool) (f : Function) (x : Routine) : Prop :=
  ∃ definition, f.definition = some definition
    ∧ assemble x.start (definition.code markers) = .ok x.code

/-- An emitted source is a chain of routines: those of its functions in their order, and that of the
initialisation of its globals. -/
structure Registry.LaidOut (markers : Bool) (r : Registry) (e : Emitted) (routines : List Routine)
    (init : Routine) : Prop where
  code : e.code = (routines ++ [init]).flatMap (·.code)
  functions : e.functions = List.zipWith Function.placedAt r.functions routines
  initAddress : e.initAddress = init.start
  chain : Chain 0 routines
  laid : List.Forall₂ (Function.LaidAs markers) r.functions routines
  initStart : init.start = sizeAll (routines.flatMap (·.code))
  initLaid : assemble init.start (r.initCode markers) = .ok init.code

section Code

variable {markers : Bool}

theorem returnCode_ne_nil (value : Option Expr) : returnCode value ≠ [] := by
  cases value with
  | none => exact List.cons_ne_nil _ _
  | some value => exact List.append_ne_nil_of_right_ne_nil _ (List.cons_ne_nil _ _)

theorem Definition.code_ne_nil (d : Definition) : d.code markers ≠ [] := by
  unfold Definition.code
  split
  · rename_i hends
    obtain ⟨init, value, line, hbody⟩ := endsInReturn_iff.mp hends
    have hlast : Statement.codeAll markers [.returnFrom value line]
        = marker markers line ++ returnCode value := List.append_nil _
    rw [hbody, Statement.codeAll_append, hlast, List.append_nil]
    exact List.append_ne_nil_of_right_ne_nil _
      (List.append_ne_nil_of_right_ne_nil _ (returnCode_ne_nil value))
  · exact List.append_ne_nil_of_right_ne_nil _ (returnCode_ne_nil d.zero)

theorem assemble_ne_nil {p : Nat} {items : List Item} {code : List Instruction}
    (h : assemble p items = .ok code) (hne : items ≠ []) : code ≠ [] := by
  obtain ⟨item, rest, rfl⟩ := List.exists_cons_of_ne_nil hne
  obtain ⟨i, more, -, -, rfl⟩ := assemble_cons.mp h
  exact List.cons_ne_nil _ _

theorem Function.code_eq {f : Function} {definition : Definition}
    (h : f.definition = some definition) : f.code markers = definition.code markers := by
  rw [Function.code, h]
  rfl

end Code

/-! ## Emitted sources are laid out -/

section Emission

variable {markers : Bool} {r : Registry}

theorem exists_laid (c : CodeContext) {fs : List Function} {p : Nat} {code : List Instruction}
    {functions : List ShaderBytecode.Function}
    (h : emitFunctions markers p fs = .ok (code, functions)) :
    ∃ routines, Chain p routines ∧ code = routines.flatMap (·.code)
      ∧ functions = List.zipWith Function.placedAt fs routines
      ∧ List.Forall₂ (Function.LaidAs markers) fs routines := by
  induction fs generalizing p code functions with
  | nil =>
    cases h
    exact ⟨[], trivial, rfl, rfl, .nil⟩
  | cons f rest ih =>
    unfold emitFunctions at h
    split at h
    · cases h
    · rename_i definition hdefinition
      cases hown : assemble p (definition.code markers) with
      | error fault =>
        simp only [hown, bind, Except.bind] at h
        cases h
      | ok own =>
        cases hmore : emitFunctions markers (p + Item.sizeAll (definition.code markers)) rest with
        | error fault =>
          simp only [hown, hmore, bind, Except.bind] at h
          cases h
        | ok result =>
          obtain ⟨more, others⟩ := result
          simp only [hown, hmore, bind, Except.bind] at h
          cases h
          obtain ⟨routines, hchain, rfl, rfl, hlaid⟩ := ih hmore
          let routine : Routine := ⟨p, own, c⟩
          have hstop : routine.stop = p + Item.sizeAll (definition.code markers) := by
            rw [Routine.stop, sizeAll_assemble hown]
          exact ⟨routine :: routines,
            ⟨rfl, assemble_ne_nil hown definition.code_ne_nil, hstop ▸ hchain⟩, rfl, rfl,
            .cons ⟨definition, hdefinition, hown⟩ hlaid⟩

theorem Registry.exists_laidOut (d : Dialect) {e : Emitted} (h : r.emit markers = .ok e) :
    ∃ routines init, r.LaidOut markers e routines init := by
  unfold Registry.emit at h
  cases hfunctions : emitFunctions markers 0 r.functions with
  | error fault =>
    rw [hfunctions] at h
    cases h
  | ok result =>
    obtain ⟨code, functions⟩ := result
    rw [hfunctions] at h
    cases hinit : assemble (sizeAll code) (r.initCode markers) with
    | error fault =>
      simp only [hinit, bind, Except.bind] at h
      cases h
    | ok own =>
      simp only [hinit, bind, Except.bind] at h
      cases h
      let context := r.codeContext d [] .void
      obtain ⟨routines, hchain, rfl, rfl, hlaid⟩ := exists_laid context hfunctions
      refine ⟨routines, ⟨_, own, context⟩, ?_, rfl, rfl, hchain, hlaid, rfl, hinit⟩
      rw [List.flatMap_append, List.flatMap_singleton]

/-- The code of functions one behind the other is that of all their items. -/
theorem assemble_flatMap_code {fs : List Function} {p : Nat} {routines : List Routine}
    (hchain : Chain p routines) (hlaid : List.Forall₂ (Function.LaidAs markers) fs routines) :
    assemble p (fs.flatMap (Function.code markers)) = .ok (routines.flatMap (·.code)) := by
  induction hlaid generalizing p with
  | nil => rfl
  | @cons f x fs routines hlaid _ ih =>
    obtain ⟨rfl, -, hrest⟩ := hchain
    obtain ⟨definition, hdefinition, hown⟩ := hlaid
    rw [List.flatMap_cons, List.flatMap_cons, Function.code_eq hdefinition]
    refine assemble_append.mpr ⟨x.code, _, hown, ?_, rfl⟩
    rw [← sizeAll_assemble hown]
    exact ih hrest

theorem Function.parallel (f : Function) : Item.Parallel 0 0 (f.code true) (f.code false) := by
  unfold Function.code
  cases f.definition with
  | none => exact Item.parallel_nil
  | some definition => exact definition.parallel

theorem parallel_flatMap_code (fs : List Function) :
    Item.Parallel 0 0 (fs.flatMap (Function.code true)) (fs.flatMap (Function.code false)) := by
  induction fs with
  | nil => exact Item.parallel_nil
  | cons f rest ih => exact f.parallel.append ih

/-- The code of a source with markers is parallel to its code without them. -/
theorem Registry.parallel (r : Registry) : Item.Parallel 0 0 (r.front true) (r.front false) := by
  refine (parallel_flatMap_code r.functions).append ?_
  unfold Registry.globalCode
  induction r.globals.zipIdx r.builtins.length with
  | nil => exact Item.parallel_nil
  | cons first rest ih => exact (first.1.parallel first.2).append ih

theorem Function.WellTyped.standalone {d : Dialect} (markers : Bool) {f : Function}
    (h : f.WellTyped d r) : Item.Standalone false (f.code markers) := by
  unfold Function.code
  cases hdefinition : f.definition with
  | none => exact Item.standalone_nil
  | some definition =>
    obtain ⟨slots, htyped⟩ := h definition hdefinition
    obtain ⟨front, op, hcode, -, hfront⟩ :=
      Definition.exists_code markers htyped.body htyped.zero
    rw [Option.map_some, Option.getD_some, hcode]
    exact hfront.append (Item.standalone_simple op)

theorem standalone_flatMap_code {d : Dialect} (markers : Bool) (fs : List Function)
    (h : ∀ f ∈ fs, f.WellTyped d r) :
    Item.Standalone false (fs.flatMap (Function.code markers)) := by
  induction fs with
  | nil => exact Item.standalone_nil
  | cons f rest ih =>
    obtain ⟨hf, hrest⟩ := List.forall_mem_cons.mp h
    exact (hf.standalone markers).append (ih hrest)

end Emission

namespace Registry.LaidOut

variable {markers : Bool} {d : Dialect} {r : Registry} {e : Emitted} {routines : List Routine}
variable {init : Routine} (h : r.LaidOut markers e routines init)
include h

theorem names : e.functions.map (·.name) = r.functions.map (·.signature.name) := by
  rw [h.functions]
  exact map_zipWith_left h.laid fun _ _ _ => rfl

theorem chain_all : Chain 0 (routines ++ [init]) := by
  have hne : r.initCode markers ≠ [] :=
    List.append_ne_nil_of_right_ne_nil _ (List.cons_ne_nil _ _)
  exact h.chain.concat (h.initStart.trans (Nat.zero_add _).symm) (assemble_ne_nil h.initLaid hne)

theorem assemble_front :
    assemble 0 (r.front markers ++ [.simple .ret]) = .ok e.code := by
  have hfunctions := assemble_flatMap_code h.chain h.laid
  rw [Registry.front, List.append_assoc, h.code, List.flatMap_append, List.flatMap_singleton]
  refine assemble_append.mpr ⟨_, _, hfunctions, ?_, rfl⟩
  rw [Nat.zero_add, ← sizeAll_assemble hfunctions, ← h.initStart]
  exact h.initLaid

theorem exists_entry_of_jump {i : Instruction} (hi : i ∈ e.code) {target : UInt32}
    (htarget : target ∈ i.jumpTarget?) :
    ∃ entry ∈ entriesFrom 0 e.code, entry.offset = target.toNat := by
  have hcode := h.assemble_front
  refine Boundary.exists_entry hcode ?_
  obtain ⟨code, last, hfront, hlast, hsplit⟩ := assemble_append.mp hcode
  cases hlast
  rw [hsplit, List.mem_append, List.mem_singleton] at hi
  obtain hi | rfl := hi
  · cases markers with
    | true =>
      obtain ⟨_, o, o', ho, -, hmeet⟩ :=
        r.parallel.erases.exists_of_jump_marked hfront i hi target htarget
      exact Int.ofNat.inj ho ▸ hmeet.boundary.1
    | false =>
      obtain ⟨_, o, o', -, ho, hmeet⟩ :=
        r.parallel.erases.exists_of_jump_plain hfront i hi target htarget
      exact Int.ofNat.inj ho ▸ hmeet.boundary.2
  · cases htarget

theorem wellFormed (hr : r.WellTyped d) : ∀ i ∈ e.code, i.WellFormed := by
  have hfunctions := standalone_flatMap_code markers r.functions hr.functions
  have hglobals : Item.Standalone false (r.globalCode markers) :=
    standalone_flatMap_global _ fun g index hg => hr.zipIdx hg
  exact Item.AllInside.wellFormed
    ((hfunctions.append hglobals).append (Item.standalone_simple .ret)) h.assemble_front

theorem disassemble_eq (hr : r.WellTyped d) :
    disassemble (encodeAll e.code) = .ok (entriesFrom 0 e.code) := by
  refine disassemble_encodeAll (h.wellFormed hr) fun i hi target htarget => .inr ?_
  exact (isInstructionStart_iff (pairwise_entriesFrom 0 e.code)).mpr
    (h.exists_entry_of_jump hi htarget)

end Registry.LaidOut

end Typed

end ShaderBytecode
