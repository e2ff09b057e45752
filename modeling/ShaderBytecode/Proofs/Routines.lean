import ShaderBytecode.Proofs.RoutineTyping

/-!
# Routines

The code of a routine is assembled at an offset. It is verified if stack types can be given to its
offsets, with an empty stack at its start, that agree with all of its instructions. A program is a
chain of routines, one behind the other, and its instructions fall apart into theirs.
-/

namespace ShaderBytecode

/-! ## Assembling -/

variable {p : Nat} {i : Instruction} {code : List Instruction}

theorem Item.eq_jump_of_assemble {condition : JumpWhen} {distance : Int}
    (h : (Item.jump condition distance).assemble p = .ok i) :
    ∃ target : UInt32,
      (target.toNat : Int) = p + jumpSize + distance ∧ i = .jump condition target := by
  unfold Item.assemble at h
  simp only [] at h
  split at h
  · rename_i hrange
    cases h
    refine ⟨_, ?_, rfl⟩
    have hlt : ((p : Int) + jumpSize + distance).toNat < UInt32.size := by
      unfold UInt32.size
      omega
    rw [UInt32.toNat_ofNat_of_lt' hlt]
    omega
  · cases h

theorem Item.size_assemble {item : Item} (h : item.assemble p = .ok i) : i.size = item.size := by
  cases item with
  | op instruction =>
    cases h
    rfl
  | jump condition distance =>
    obtain ⟨target, -, rfl⟩ := Item.eq_jump_of_assemble h
    rfl
  | leave kind => cases h

theorem assemble_cons {item : Item} {rest : List Item} :
    assemble p (item :: rest) = .ok code ↔ ∃ i more, item.assemble p = .ok i
      ∧ assemble (p + item.size) rest = .ok more ∧ code = i :: more := by
  rw [assemble]
  cases hitem : item.assemble p with
  | error fault => simp [bind, Except.bind]
  | ok i =>
    cases hrest : assemble (p + item.size) rest with
    | error fault => simp [bind, Except.bind]
    | ok more => simp [bind, Except.bind, pure, Except.pure, eq_comm]

theorem sizeAll_assemble {items : List Item} (h : assemble p items = .ok code) :
    sizeAll code = Item.sizeAll items := by
  induction items generalizing p code with
  | nil =>
    cases h
    rfl
  | cons item rest ih =>
    obtain ⟨i, more, hitem, hrest, rfl⟩ := assemble_cons.mp h
    rw [sizeAll, Item.sizeAll, Item.size_assemble hitem, ih hrest]

theorem assemble_append {first second : List Item} :
    assemble p (first ++ second) = .ok code ↔ ∃ front back, assemble p first = .ok front
      ∧ assemble (p + Item.sizeAll first) second = .ok back ∧ code = front ++ back := by
  induction first generalizing p code with
  | nil => simp [assemble, Item.sizeAll]
  | cons item rest ih =>
    simp only [List.cons_append, assemble_cons, ih, Item.sizeAll, ← Nat.add_assoc]
    constructor
    · rintro ⟨i, more, hitem, ⟨front, back, hfront, hback, rfl⟩, rfl⟩
      exact ⟨i :: front, back, ⟨i, front, hitem, hfront, rfl⟩, hback, rfl⟩
    · rintro ⟨_, back, ⟨i, front, hitem, hfront, rfl⟩, hback, rfl⟩
      exact ⟨i, front ++ back, hitem, ⟨front, back, hfront, hback, rfl⟩, rfl⟩

/-- Behind an instruction that does not jump, control stops or goes on. -/
theorem Entry.mem_successors {e : Entry} (h : e.instruction.jumpTarget? = none) {next : Nat}
    (hnext : next ∈ e.successors) :
    e.instruction.isFinal = false ∧ next = e.offset + e.instruction.size := by
  obtain ⟨offset, i⟩ := e
  have hsuccessors : Entry.successors ⟨offset, i⟩
      = if i.isFinal then [] else [offset + i.size] := by
    cases i with
    | jump condition target => cases h
    | _ => rfl
  rw [hsuccessors] at hnext
  split at hnext
  · cases hnext
  · rename_i hfinal
    exact ⟨Bool.eq_false_iff.mpr hfinal, List.mem_singleton.mp hnext⟩

/-- Behind a jump, control is at its target or, on a condition, goes on. -/
theorem Entry.mem_successors_jump {offset : Nat} {condition : JumpWhen} {target : UInt32}
    {next : Nat} (h : next ∈ Entry.successors ⟨offset, .jump condition target⟩) :
    next = target.toNat ∨ condition ≠ .always ∧ next = offset + jumpSize := by
  cases condition with
  | always => exact .inl (List.mem_singleton.mp h)
  | ifFalse =>
    obtain h | h := List.mem_cons.mp h
    · exact .inl h
    · exact .inr ⟨nofun, List.mem_singleton.mp h⟩
  | ifTrue =>
    obtain h | h := List.mem_cons.mp h
    · exact .inl h
    · exact .inr ⟨nofun, List.mem_singleton.mp h⟩

theorem Instruction.eq_jump_of_jumpTarget? {target : UInt32} (h : i.jumpTarget? = some target) :
    ∃ condition, i = .jump condition target := by
  cases i with
  | jump condition found =>
    cases h
    exact ⟨condition, rfl⟩
  | _ => cases h

section Assembling

variable {c : CodeContext} {known : Nat → StackType → Prop} {types : Nat → StackType} {p : Nat}
variable {items : List Item} {code : List Instruction}

theorem assemble_jump {condition : JumpWhen} {distance : Int} {target : Nat}
    (htarget : (target : Int) = p + jumpSize + distance) (hlt : target < UInt32.size) :
    (Item.jump condition distance).assemble p = .ok (.jump condition (.ofNat target)) := by
  have hlt' : target < 0x100000000 := hlt
  unfold Item.assemble
  simp only [← htarget]
  rw [if_pos ⟨Int.natCast_nonneg _, Int.ofNat_lt.mpr hlt'⟩]
  rfl

theorem exists_assemble (h : Item.FitsAll c false known types p items)
    (hknown : ∀ target st, known target st → target < UInt32.size) :
    ∃ code, assemble p items = .ok code := by
  induction items generalizing p with
  | nil => exact ⟨[], rfl⟩
  | cons item rest ih =>
    obtain ⟨more, hmore⟩ := ih h.2
    cases item with
    | op i => exact ⟨i :: more, assemble_cons.mpr ⟨i, more, rfl, hmore, rfl⟩⟩
    | jump condition distance =>
      obtain ⟨after, target, -, htarget, hmem, -⟩ := h.1
      exact ⟨_, assemble_cons.mpr
        ⟨_, more, assemble_jump htarget (hknown target after hmem), hmore, rfl⟩⟩
    | leave kind => exact absurd h.1.1 Bool.false_ne_true

/-- The instructions of assembled code are legal, and jumps go where something is known. -/
theorem accepts_assemble (h : Item.FitsAll c false known types p items)
    (hcode : assemble p items = .ok code)
    (htypes : ∀ target st, known target st → types target = st)
    (hknown : ∀ target st, known target st → target < UInt32.size) :
    ∀ e ∈ entriesFrom p code, c.Accepts types e
      ∧ ∀ target ∈ e.instruction.jumpTarget?, ∃ st, known target.toNat st := by
  induction items generalizing p code with
  | nil =>
    cases hcode
    exact List.forall_mem_nil _
  | cons item rest ih =>
    obtain ⟨i, more, hitem, hmore, rfl⟩ := assemble_cons.mp hcode
    have hsize := Item.size_assemble hitem
    intro e he
    obtain rfl | he := List.mem_cons.mp he
    · cases item with
      | op instruction =>
        cases hitem
        obtain ⟨hjump, after, heffect, hafter⟩ := h.1
        refine ⟨⟨after, heffect, fun next hnext => ?_⟩, ?_⟩
        · obtain ⟨hfinal, rfl⟩ := Entry.mem_successors hjump hnext
          exact hafter hfinal
        · rw [hjump]
          exact nofun
      | jump condition distance =>
        obtain ⟨after, target, heffect, htarget, hmem, hafter⟩ := h.1
        have hlt := hknown target after hmem
        have hnat : (UInt32.ofNat target).toNat = target := UInt32.toNat_ofNat_of_lt' hlt
        rw [assemble_jump htarget hlt] at hitem
        cases hitem
        refine ⟨⟨after, heffect, fun next hnext => ?_⟩, ?_⟩
        · obtain rfl | ⟨hcondition, rfl⟩ := Entry.mem_successors_jump hnext
          · rw [hnat]
            exact htypes target after hmem
          · exact hafter hcondition
        · rintro _ ⟨⟩
          rw [hnat]
          exact ⟨after, hmem⟩
      | leave kind => cases hitem
    · rw [hsize] at he
      exact ih h.2 hmore e he

theorem Boundary.exists_entry {last : Item} {target : Nat}
    (hcode : assemble p (items ++ [last]) = .ok code) (h : Boundary p items target) :
    ∃ e ∈ entriesFrom p code, e.offset = target := by
  obtain ⟨before, after, rfl, rfl⟩ := h
  rw [List.append_assoc] at hcode
  obtain ⟨front, back, hfront, hback, rfl⟩ := assemble_append.mp hcode
  obtain ⟨next, rest, hnext⟩ : ∃ next rest, after ++ [last] = next :: rest :=
    List.exists_cons_of_ne_nil (List.append_ne_nil_of_right_ne_nil _ (List.cons_ne_nil _ _))
  rw [hnext] at hback
  obtain ⟨i, more, -, -, rfl⟩ := assemble_cons.mp hback
  refine ⟨⟨p + Item.sizeAll before, i⟩, mem_entriesFrom.mpr ⟨front, more, rfl, ?_⟩, rfl⟩
  rw [sizeAll_assemble hfront]

end Assembling

/-! ## Verified routines -/

/-- Code at an offset and what it can refer to. -/
structure Routine where
  start : Nat
  code : List Instruction
  context : CodeContext

namespace Routine

def stop (r : Routine) : Nat :=
  r.start + sizeAll r.code

def entries (r : Routine) : List Entry :=
  entriesFrom r.start r.code

/-- Stack types agree with a routine: its stack is empty at its start, every instruction is legal
and control stays in the routine until it returns at its end or before. -/
structure Verified (types : Nat → StackType) (r : Routine) : Prop where
  start : types r.start = []
  accepts : ∀ e ∈ r.entries, r.context.Accepts types e
  stays : ∀ e ∈ r.entries, ∀ next ∈ e.successors, isInstructionStart r.entries next = true
  returns : ∃ op : SimpleOp, r.code.getLast? = some (.simple op) ∧ (op = .ret ∨ op = .retValue)

end Routine

/-- Behind every instruction of a code but the last there is another one. -/
theorem exists_next_entry {p : Nat} {code : List Instruction} {e : Entry} {last : Instruction}
    (he : e ∈ entriesFrom p code) (hlast : code.getLast? = some last)
    (hne : e.instruction ≠ last) :
    ∃ next ∈ entriesFrom p code, next.offset = e.offset + e.instruction.size := by
  obtain ⟨before, after, rfl, hoffset⟩ := mem_entriesFrom.mp he
  cases after with
  | nil =>
    rw [List.getLast?_concat] at hlast
    exact absurd (Option.some.inj hlast) hne
  | cons i rest =>
    refine ⟨⟨e.offset + e.instruction.size, i⟩, mem_entriesFrom.mpr
      ⟨before ++ [e.instruction], rest, (List.append_cons ..), ?_⟩, rfl⟩
    rw [sizeAll_code_append, sizeAll, sizeAll, hoffset, Nat.add_zero, Nat.add_assoc]

/-- Code that closes can be assembled at any offset, and is verified there. -/
theorem Closes.verified {c : CodeContext} {items : List Item} {p : Nat} (h : Closes c items)
    (hsize : p + Item.sizeAll items ≤ UInt32.size) :
    ∃ code, assemble p items = .ok code ∧ ∃ types, (Routine.mk p code c).Verified types := by
  obtain ⟨front, s, op, rfl, hop, hfront, heffect⟩ := h
  obtain ⟨types, hstart, hstop, hfits⟩ := hfront p fun _ _ => False
  have hfinal : (Instruction.simple op).isFinal = true := by
    obtain rfl | rfl := hop <;> rfl
  -- what is known of a place inside is its stack type, and the place is a boundary
  have hall : Item.FitsAll c false
      (fun target st => Boundary p front target ∧ types target = st ∨ False) types p
      (front ++ [.simple op]) := by
    refine Item.fitsAll_append.mpr ⟨hfits, ⟨rfl, [], ?_, ?_⟩, trivial⟩
    · rw [hstop]
      exact heffect
    · intro hnot
      rw [hfinal] at hnot
      cases hnot
  have hknown : ∀ target st, (Boundary p front target ∧ types target = st ∨ False) →
      target < UInt32.size := by
    rintro target st (⟨hboundary, -⟩ | hfalse)
    · have hbounds := hboundary.bounds
      have hpos := Item.size_pos (.simple op)
      rw [Item.sizeAll_append, Item.sizeAll] at hsize
      omega
    · exact hfalse.elim
  obtain ⟨code, hcode⟩ := exists_assemble hall hknown
  have haccepts := accepts_assemble hall hcode
    (fun target st hmem => hmem.elim (·.2) False.elim) hknown
  have hlast : code.getLast? = some (.simple op) := by
    obtain ⟨first, last, -, hlast, rfl⟩ := assemble_append.mp hcode
    obtain ⟨i, more, hi, hmore, rfl⟩ := assemble_cons.mp hlast
    cases hi
    cases hmore
    exact List.getLast?_concat
  refine ⟨code, hcode, types, hstart, fun e he => (haccepts e he).1, ?_, op, hlast, hop⟩
  intro e he next hnext
  refine (isInstructionStart_iff (pairwise_entriesFrom p code)).mpr ?_
  cases hjump : e.instruction.jumpTarget? with
  | none =>
    obtain ⟨hgoes, rfl⟩ := Entry.mem_successors hjump hnext
    refine exists_next_entry he hlast fun hsame => ?_
    rw [hsame, hfinal] at hgoes
    cases hgoes
  | some target =>
    obtain ⟨offset, i⟩ := e
    obtain ⟨condition, rfl⟩ := Instruction.eq_jump_of_jumpTarget? hjump
    obtain rfl | ⟨-, rfl⟩ := Entry.mem_successors_jump hnext
    · obtain ⟨st, ⟨hboundary, -⟩ | hfalse⟩ := (haccepts _ he).2 target hjump
      · exact hboundary.exists_entry hcode
      · exact hfalse.elim
    · refine exists_next_entry he hlast fun hjumps => ?_
      cases hjumps

/-! ## Chains -/

/-- Routines that stand one behind the other from an offset on. None is empty. -/
def Chain : (position : Nat) → List Routine → Prop
  | _, [] => True
  | position, r :: rest => r.start = position ∧ r.code ≠ [] ∧ Chain r.stop rest

namespace Chain

variable {p : Nat} {routines : List Routine}

variable {r : Routine}

theorem start_lt_stop (h : r.code ≠ []) : r.start < r.stop := by
  obtain ⟨i, rest, hcode⟩ := List.exists_cons_of_ne_nil h
  have hsize := i.size_pos
  rw [Routine.stop, hcode, sizeAll]
  omega

theorem concat (h : Chain p routines) (hstart : r.start = p + sizeAll (routines.flatMap (·.code)))
    (hne : r.code ≠ []) : Chain p (routines ++ [r]) := by
  induction routines generalizing p with
  | nil => exact ⟨hstart, hne, trivial⟩
  | cons first rest ih =>
    obtain ⟨rfl, hfirst, hrest⟩ := h
    refine ⟨rfl, hfirst, ih hrest ?_⟩
    rw [hstart, List.flatMap_cons, sizeAll_code_append, Routine.stop, Nat.add_assoc]

theorem entries (h : Chain p routines) :
    entriesFrom p (routines.flatMap (·.code)) = routines.flatMap Routine.entries := by
  induction routines generalizing p with
  | nil => rfl
  | cons r rest ih =>
    obtain ⟨rfl, -, hrest⟩ := h
    rw [List.flatMap_cons, List.flatMap_cons, entriesFrom_append, ← ih hrest]
    rfl

theorem start_le (h : Chain p routines) (hr : r ∈ routines) : p ≤ r.start := by
  induction routines generalizing p with
  | nil => cases hr
  | cons first rest ih =>
    obtain ⟨rfl, hne, hrest⟩ := h
    obtain rfl | hr := List.mem_cons.mp hr
    · exact Nat.le_refl _
    · exact Nat.le_trans (Nat.le_of_lt (start_lt_stop hne)) (ih hrest hr)

theorem ne_nil (h : Chain p routines) (hr : r ∈ routines) : r.code ≠ [] := by
  induction routines generalizing p with
  | nil => cases hr
  | cons first rest ih =>
    obtain ⟨-, hne, hrest⟩ := h
    obtain rfl | hr := List.mem_cons.mp hr
    · exact hne
    · exact ih hrest hr

theorem pairwise_start (h : Chain p routines) :
    (routines.map Routine.start).Pairwise (· < ·) := by
  induction routines generalizing p with
  | nil => exact .nil
  | cons first rest ih =>
    obtain ⟨-, hne, hrest⟩ := h
    refine .cons ?_ (ih hrest)
    intro start hstart
    obtain ⟨r, hr, rfl⟩ := List.mem_map.mp hstart
    exact Nat.lt_of_lt_of_le (start_lt_stop hne) (start_le hrest hr)

theorem stop_le (h : Chain p routines) (hr : r ∈ routines) :
    r.stop ≤ p + sizeAll (routines.flatMap (·.code)) := by
  induction routines generalizing p with
  | nil => cases hr
  | cons first rest ih =>
    obtain ⟨rfl, -, hrest⟩ := h
    rw [List.flatMap_cons, sizeAll_code_append, ← Nat.add_assoc]
    obtain rfl | hr := List.mem_cons.mp hr
    · exact Nat.le_add_right _ _
    · exact ih hrest hr

end Chain

theorem Routine.exists_entry_start {r : Routine} (h : r.code ≠ []) :
    ∃ e ∈ r.entries, e.offset = r.start := by
  obtain ⟨i, rest, hcode⟩ := List.exists_cons_of_ne_nil h
  exact ⟨⟨r.start, i⟩, mem_entriesFrom.mpr ⟨[], rest, hcode, rfl⟩, rfl⟩

theorem Routine.bounds {r : Routine} {e : Entry} (h : e ∈ r.entries) :
    r.start ≤ e.offset ∧ e.offset < r.stop := by
  have hbounds := entriesFrom_bounds h
  have hsize := e.instruction.size_pos
  rw [Routine.stop]
  omega

/-- Only the stack types at the instructions of a routine matter. -/
theorem Routine.Verified.congr {r : Routine} {types types' : Nat → StackType}
    (h : r.Verified types) (hne : r.code ≠ [])
    (hsame : ∀ o, r.start ≤ o → o < r.stop → types o = types' o) : r.Verified types' where
  start := by
    rw [← hsame r.start (Nat.le_refl _) (Chain.start_lt_stop hne)]
    exact h.start
  accepts := by
    intro e he
    obtain ⟨after, heffect, hafter⟩ := h.accepts e he
    have hhere := Routine.bounds he
    refine ⟨after, ?_, fun next hnext => ?_⟩
    · rw [← hsame e.offset hhere.1 hhere.2]
      exact heffect
    · obtain ⟨e', he', rfl⟩ := exists_of_isInstructionStart (h.stays e he next hnext)
      have hthere := Routine.bounds he'
      rw [← hsame e'.offset hthere.1 hthere.2]
      exact hafter _ hnext
  stays := h.stays
  returns := h.returns

/-- The entries that start from one offset on and before another. -/
def slice (start stop : Nat) (entries : List Entry) : List Entry :=
  entries.filter fun e => start ≤ e.offset && e.offset < stop

namespace Chain

variable {p : Nat} {routines : List Routine}

theorem slice_entries (h : Chain p routines) {r : Routine} (hr : r ∈ routines) :
    slice r.start r.stop (routines.flatMap Routine.entries) = r.entries := by
  induction routines generalizing p with
  | nil => cases hr
  | cons first rest ih =>
    obtain ⟨rfl, hne, hrest⟩ := h
    have hlater : ∀ e ∈ rest.flatMap Routine.entries, first.stop ≤ e.offset := by
      intro e he
      obtain ⟨r', hr', he'⟩ := List.mem_flatMap.mp he
      exact Nat.le_trans (start_le hrest hr') (Routine.bounds he').1
    rw [List.flatMap_cons, slice, List.filter_append]
    obtain rfl | hr := List.mem_cons.mp hr
    · rw [List.filter_eq_self.mpr, List.filter_eq_nil_iff.mpr, List.append_nil]
      · intro e he hin
        have hafter := hlater e he
        simp only [Bool.and_eq_true, decide_eq_true_eq] at hin
        omega
      · intro e he
        have hbounds := Routine.bounds he
        simp only [hbounds.1, hbounds.2, decide_true, Bool.and_self]
    · rw [List.filter_eq_nil_iff.mpr, List.nil_append]
      · exact ih hrest hr
      · intro e he hin
        have hbounds := Routine.bounds he
        have hbefore := start_le hrest hr
        simp only [Bool.and_eq_true, decide_eq_true_eq] at hin
        omega

theorem exists_types (h : Chain p routines) (hv : ∀ r ∈ routines, ∃ types, r.Verified types) :
    ∃ types, ∀ r ∈ routines, r.Verified types := by
  induction routines generalizing p with
  | nil => exact ⟨fun _ => [], List.forall_mem_nil _⟩
  | cons first rest ih =>
    obtain ⟨rfl, hne, hrest⟩ := h
    obtain ⟨types, hfirst⟩ := hv first (List.mem_cons_self ..)
    obtain ⟨types', hothers⟩ := ih hrest fun r hr => hv r (List.mem_cons_of_mem _ hr)
    refine ⟨glue first.stop types types', fun r hr => ?_⟩
    obtain rfl | hr := List.mem_cons.mp hr
    · refine hfirst.congr hne fun o _ ho => ?_
      rw [glue, if_pos ho]
    · refine (hothers r hr).congr (ne_nil hrest hr) fun o ho _ => ?_
      exact glue_right (Nat.le_trans (start_le hrest hr) ho)

end Chain

/-! ## What verification tells -/

theorem swizzled?_wellFormed {type result : DataType} {components : List UInt8} {op : SelectOp}
    (h : swizzled? type components = some result) :
    (Instruction.select op components).WellFormed := by
  unfold swizzled? at h
  split at h
  · split at h
    · rename_i hcomponents
      obtain ⟨hlow, hhigh, hall⟩ := hcomponents
      refine ⟨⟨hlow, hhigh⟩, fun component hcomponent => ?_⟩
      have hbound := List.all_eq_true.mp hall component hcomponent
      simp only [Bool.and_eq_true, decide_eq_true_eq] at hbound
      exact hbound.2
    · cases h
  · cases h

theorem Instruction.wellFormed_of_effect? {c : CodeContext} {i : Instruction} {s after : StackType}
    (h : i.effect? c s = some after) : i.WellFormed := by
  cases i with
  | select op components =>
    cases op with
    | swizzle =>
      cases s with
      | nil => cases h
      | cons entry rest =>
        cases entry with
        | value base =>
          obtain ⟨type, htype, -⟩ := Option.map_eq_some_iff.mp h
          exact swizzled?_wellFormed htype
        | reference base => cases h
    | refSwizzle =>
      cases s with
      | nil => cases h
      | cons entry rest =>
        cases entry with
        | value base => cases h
        | reference base =>
          rw [Instruction.effect?, SelectOp.effect?] at h
          split at h
          · cases h
          · obtain ⟨type, htype, -⟩ := Option.map_eq_some_iff.mp h
            exact swizzled?_wellFormed htype
  | _ => trivial

namespace Routine.Verified

variable {r : Routine} {types : Nat → StackType} (h : r.Verified types)
include h

theorem ne_nil : r.code ≠ [] := by
  obtain ⟨op, hlast, -⟩ := h.returns
  intro hnil
  rw [hnil] at hlast
  cases hlast

theorem wellFormed : ∀ i ∈ r.code, i.WellFormed := by
  intro i hi
  obtain ⟨before, after, hcode⟩ := List.append_of_mem hi
  have hentry : Entry.mk (r.start + sizeAll before) i ∈ r.entries :=
    mem_entriesFrom.mpr ⟨before, after, hcode, rfl⟩
  obtain ⟨stack, heffect, -⟩ := h.accepts _ hentry
  exact Instruction.wellFormed_of_effect? heffect

theorem jumps : ∀ e ∈ r.entries, ∀ target ∈ e.instruction.jumpTarget?,
    isInstructionStart r.entries target.toNat = true := by
  intro e he target htarget
  refine h.stays e he target.toNat ?_
  obtain ⟨offset, i⟩ := e
  obtain ⟨condition, rfl⟩ := Instruction.eq_jump_of_jumpTarget? htarget
  cases condition with
  | always => exact List.mem_singleton_self _
  | ifFalse => exact List.mem_cons_self ..
  | ifTrue => exact List.mem_cons_self ..

theorem isVoid_of_ret {e : Entry} (he : e ∈ r.entries) (hret : e.instruction = .simple .ret) :
    r.context.result.isVoid = true := by
  obtain ⟨after, heffect, -⟩ := h.accepts e he
  rw [hret, Instruction.effect?] at heffect
  cases hstack : types e.offset with
  | nil =>
    rw [hstack, SimpleOp.effect?] at heffect
    split at heffect
    · assumption
    · cases heffect
  | cons entry rest =>
    rw [hstack] at heffect
    cases heffect

theorem isVoid_of_retValue {e : Entry} (he : e ∈ r.entries)
    (hret : e.instruction = .simple .retValue) : r.context.result.isVoid = false := by
  obtain ⟨after, heffect, -⟩ := h.accepts e he
  rw [hret, Instruction.effect?] at heffect
  -- Only a stack of one value lets `retValue` be run.
  generalize types e.offset = stack at heffect
  obtain _ | ⟨type | _, _ | ⟨_, _⟩⟩ := stack
  case cons.value.nil =>
    rw [SimpleOp.effect?] at heffect
    split at heffect
    · rename_i hlegal
      simp only [Bool.and_eq_true, Bool.not_eq_true', decide_eq_true_eq] at hlegal
      rw [← hlegal.2]
      exact hlegal.1
    · cases heffect
  all_goals cases heffect

/-- The last instruction of a routine returns what the routine has to. -/
theorem getLast? : ∃ last, r.entries.getLast? = some last ∧ last.instruction
    = .simple (if r.context.result.isVoid then .ret else .retValue) := by
  obtain ⟨op, hlast, hop⟩ := h.returns
  obtain ⟨front, hfront⟩ := List.getLast?_eq_some_iff.mp hlast
  have hentries : r.entries = entriesFrom r.start front
      ++ [⟨r.start + sizeAll front, .simple op⟩] := by
    rw [Routine.entries, hfront, entriesFrom_append]
    rfl
  have hmem : Entry.mk (r.start + sizeAll front) (.simple op) ∈ r.entries := by
    rw [hentries]
    exact List.mem_concat_self
  refine ⟨_, by rw [hentries, List.getLast?_concat], ?_⟩
  obtain rfl | rfl := hop
  · rw [if_pos (h.isVoid_of_ret hmem rfl)]
  · rw [if_neg (Bool.eq_false_iff.mp (h.isVoid_of_retValue hmem rfl))]

end Routine.Verified

end ShaderBytecode
