import ShaderBytecode.Proofs.Execution

/-!
# Layout of code

The jumps of a tree's code stay inside it, and what leaves a loop is inside one. So the code of a
function can be assembled wherever its end is below 4 GiB, whatever its instructions mean, and each
of its items can then be fetched from the bytes of the program.
-/

namespace ShaderBytecode

open Typed (Leave)

namespace Item

/-- An item with some bytes before and behind it jumps no further than these. Outside loops nothing
leaves one. -/
def Inside (inLoop : Bool) (before after : Nat) : Item → Prop
  | .op i => i.WellFormed ∧ i.jumpTarget? = none
  | .jump _ distance => -(before + jumpSize : Int) ≤ distance ∧ distance ≤ after
  | .leave _ => inLoop = true

/-- Items with some bytes before and behind them jump no further than these. -/
def AllInside (inLoop : Bool) : (before : Nat) → List Item → (after : Nat) → Prop
  | _, [], _ => True
  | before, item :: rest, after =>
    item.Inside inLoop before (sizeAll rest + after)
      ∧ AllInside inLoop (before + item.size) rest after

/-- Items jump no further than to their start and their end. -/
def Standalone (inLoop : Bool) (items : List Item) : Prop :=
  AllInside inLoop 0 items 0

variable {inLoop : Bool} {before after : Nat} {items first second body step : List Item}

theorem AllInside.mono {before' after' : Nat} (h : AllInside inLoop before items after)
    (hbefore : before ≤ before') (hafter : after ≤ after') :
    AllInside inLoop before' items after' := by
  induction items generalizing before before' with
  | nil => trivial
  | cons item rest ih =>
    refine ⟨?_, ih h.2 (Nat.add_le_add_right hbefore _)⟩
    have hitem := h.1
    cases item with
    | op i => exact hitem
    | jump condition distance =>
      simp only [Inside] at hitem ⊢
      omega
    | leave kind => exact hitem

theorem allInside_append : AllInside inLoop before (first ++ second) after ↔
    AllInside inLoop before first (sizeAll second + after)
      ∧ AllInside inLoop (before + sizeAll first) second after := by
  induction first generalizing before with
  | nil => exact (true_and _).symm.to_iff
  | cons item rest ih =>
    rw [List.cons_append, AllInside, AllInside, ih, sizeAll_append, sizeAll, Nat.add_assoc,
      Nat.add_assoc, and_assoc]

theorem Standalone.allInside (h : Standalone inLoop items) : AllInside inLoop before items after :=
  h.mono (Nat.zero_le _) (Nat.zero_le _)

theorem standalone_nil : Standalone inLoop [] :=
  trivial

theorem standalone_op {i : Instruction} (h : i.WellFormed) (hjump : i.jumpTarget? = none) :
    Standalone inLoop [.op i] :=
  ⟨⟨h, hjump⟩, trivial⟩

theorem standalone_simple (op : SimpleOp) : Standalone inLoop [.simple op] :=
  standalone_op trivial rfl

theorem Standalone.append (h : Standalone inLoop first) (h' : Standalone inLoop second) :
    Standalone inLoop (first ++ second) :=
  allInside_append.mpr ⟨h.allInside, h'.allInside⟩

theorem standalone_leave (kind : Leave) : Standalone true [.leave kind] :=
  ⟨rfl, trivial⟩

/-- Closing what leaves a loop needs as many bytes behind as the loop goes on. -/
theorem AllInside.closeLeaves {count : Nat} (h : AllInside true before items after)
    (hcount : count ≤ after) : AllInside inLoop before (closeLeaves count items) after := by
  induction items generalizing before with
  | nil => trivial
  | cons item rest ih =>
    have hrest := ih h.2
    cases item with
    | op i => exact ⟨h.1, hrest⟩
    | jump condition distance =>
      refine ⟨?_, hrest⟩
      rw [sizeAll_closeLeaves]
      exact h.1
    | leave kind =>
      cases kind with
      | breakLoop =>
        refine ⟨?_, hrest⟩
        simp only [Inside, sizeAll_closeLeaves]
        omega
      | continueLoop =>
        refine ⟨?_, hrest⟩
        simp only [Inside, sizeAll_closeLeaves]
        omega

theorem Standalone.skip {condition : JumpWhen} (h : Standalone inLoop body) :
    Standalone inLoop (skip condition body) := by
  refine ⟨?_, h.allInside⟩
  simp only [Inside]
  omega

theorem Standalone.choose (h : Standalone inLoop first) (h' : Standalone inLoop second) :
    Standalone inLoop (choose first second) := by
  refine allInside_append.mpr ⟨⟨?_, allInside_append.mpr ⟨h.allInside, ?_, trivial⟩⟩, h'.allInside⟩
  · simp only [Inside]
    omega
  · simp only [Inside, sizeAll]
    omega

/-- A loop jumps back to its start, and out of it no further than behind the jump. -/
theorem AllInside.backWhen {condition : JumpWhen} (h : AllInside inLoop 0 items jumpSize) :
    Standalone inLoop (backWhen condition items) := by
  refine allInside_append.mpr ⟨h, ?_, trivial⟩
  simp only [Inside, sizeAll]
  omega

theorem AllInside.round (h : Standalone true body) (hstep : Standalone inLoop step) :
    AllInside inLoop before (Item.closeLeaves (sizeAll step + jumpSize) body ++ step) jumpSize :=
  allInside_append.mpr ⟨h.allInside.closeLeaves (Nat.le_refl _), hstep.allInside⟩

theorem Standalone.repeatWhile {test : Option (List Item)}
    (htest : ∀ code ∈ test, Standalone inLoop code) (h : Standalone true body)
    (hstep : Standalone inLoop step) : Standalone inLoop (repeatWhile test body step) := by
  cases test with
  | none => exact (AllInside.round h hstep).backWhen
  | some code =>
    refine AllInside.backWhen (allInside_append.mpr
      ⟨allInside_append.mpr ⟨(htest code rfl).allInside, ?_, trivial⟩, .round h hstep⟩)
    simp only [Inside, sizeAll]
    omega

theorem Standalone.repeatUntil {test : List Item} (h : Standalone true body)
    (htest : Standalone inLoop test) : Standalone inLoop (repeatUntil body test) :=
  (AllInside.round h htest).backWhen

end Item

/-! ## Trees -/

namespace Typed

open Item (Standalone standalone_nil standalone_op standalone_simple)

variable {c : CodeContext} {inLoop : Bool}

theorem standalone_assignmentCode (op : Option ArithOp) (target : Place)
    {reference value : List Item} (href : Standalone inLoop reference)
    (hvalue : Standalone inLoop value) :
    Standalone inLoop (assignmentCode op target reference value) := by
  have haccess : ∀ read write, target.access? = some (read, write) →
      Standalone inLoop [read] ∧ Standalone inLoop [write] := by
    intro read write h
    cases target with
    | localVar slot type =>
      cases h
      exact ⟨standalone_op trivial rfl, standalone_op trivial rfl⟩
    | globalVar slot type =>
      cases h
      exact ⟨standalone_op trivial rfl, standalone_op trivial rfl⟩
    | _ => cases h
  unfold assignmentCode
  split
  · rename_i read write h
    exact hvalue.append ((standalone_simple .dup).append (haccess read write h).2)
  · rename_i read write op h
    exact ((haccess read write h).1.append hvalue).append
      ((standalone_simple op.operation).append
        ((standalone_simple .dup).append (haccess read write h).2))
  · exact (href.append hvalue).append (standalone_simple .store)
  · rename_i op h
    exact ((href.append ((standalone_simple .dup).append (standalone_simple .load))).append
      hvalue).append ((standalone_simple op.operation).append (standalone_simple .store))

mutual

theorem Expr.WellTyped.standalone : {e : Expr} → e.WellTyped c → Standalone inLoop e.code
  | .int _, _ => standalone_op trivial rfl
  | .float _, _ => standalone_op trivial rfl
  | .bool _, _ => standalone_op trivial rfl
  | .localVar _ _, _ => standalone_op trivial rfl
  | .globalVar _ _, _ => standalone_op trivial rfl
  | .member _ _ _, h => h.1.standalone.append (standalone_op trivial rfl)
  | .swizzle _ _ _, h => h.1.standalone.append (standalone_op (swizzled?_wellFormed h.2) rfl)
  | .index _ _ _, h => (h.1.standalone.append h.2.1.standalone).append (standalone_op trivial rfl)
  | .unary _ _, h => h.1.standalone.append (standalone_op trivial rfl)
  | .arith _ _ _ _, h => (h.1.standalone.append h.2.1.standalone).append (standalone_op trivial rfl)
  | .compare _ _ _, h => (h.1.standalone.append h.2.1.standalone).append (standalone_op trivial rfl)
  | .logic _ _ _, h =>
    h.1.standalone.append ((standalone_simple .dup).append
      (.skip ((standalone_simple .pop).append h.2.1.standalone)))
  | .ternary _ _ _, h => h.1.standalone.append (.choose h.2.1.standalone h.2.2.1.standalone)
  | .assign _ _ _, h => standalone_assignmentCode _ _ h.1.standalone h.2.1.standalone
  | .step _ _, h => h.1.standalone.append (standalone_op trivial rfl)
  | .call _ _ _, h =>
    let ⟨_, _, _, harguments⟩ := h
    (Argument.AllWellTyped.standalone harguments).append (standalone_op trivial rfl)
  | .intrinsic _ _ _, h => (Expr.AllWellTyped.standalone h.1).append (standalone_op trivial rfl)
  | .construct _ _ _, h => (Expr.AllWellTyped.standalone h.1).append (standalone_op trivial rfl)

/-- The jumps of a place stay inside the code of a reference to it. -/
theorem Place.WellTyped.standalone :
    {place : Place} → place.WellTyped c → Standalone inLoop place.reference
  | .localVar _ _, _ => standalone_op trivial rfl
  | .globalVar _ _, _ => standalone_op trivial rfl
  | .member _ _ _, h => h.1.standalone.append (standalone_op trivial rfl)
  | .swizzle _ _ _, h => h.1.standalone.append (standalone_op (swizzled?_wellFormed h.2.1) rfl)
  | .index _ _ _, h => (h.1.standalone.append h.2.1.standalone).append (standalone_op trivial rfl)

theorem Argument.WellTyped.standalone {type : DataType} {passing : Passing} :
    {argument : Argument} → argument.WellTyped c type passing → Standalone inLoop argument.code
  | .value _, h => h.2.2.standalone
  | .reference _, h => h.2.2.standalone

theorem Expr.AllWellTyped.standalone :
    {es : List Expr} → Expr.AllWellTyped c es → Standalone inLoop (Expr.codeAll es)
  | [], _ => standalone_nil
  | _ :: _, h => h.1.standalone.append (Expr.AllWellTyped.standalone h.2)

theorem Argument.AllWellTyped.standalone :
    {parameters : List (DataType × Passing)} → {arguments : List Argument} →
      Argument.AllWellTyped c parameters arguments → Standalone inLoop (Argument.codeAll arguments)
  | [], [], _ => standalone_nil
  | _ :: _, _ :: _, h => h.1.standalone.append (Argument.AllWellTyped.standalone h.2)

end

theorem standalone_marker (markers : Bool) (line : Nat) :
    Standalone inLoop (marker markers line) := by
  cases markers with
  | false => exact standalone_nil
  | true => exact standalone_op trivial rfl

theorem Expr.WellTyped.standalone_effect {e : Expr} (h : e.WellTyped c) :
    Standalone inLoop e.effect := by
  unfold Expr.effect
  split
  · exact h.standalone
  · exact h.standalone.append (standalone_op trivial rfl)

theorem Expr.FitsResult.standalone {value : Option Expr} (h : Expr.FitsResult c value) :
    Standalone inLoop (returnCode value) := by
  cases value with
  | none => exact standalone_op trivial rfl
  | some value => exact h.1.standalone.append (standalone_op trivial rfl)

mutual

/-- The jumps of a statement stay inside its code, up to those that leave the loop around it. -/
theorem Statement.WellTyped.standalone {markers inLoop : Bool} :
    {s : Statement} → s.WellTyped c inLoop → Standalone inLoop (s.code markers)
  | .expr _ line, h =>
    (standalone_marker markers line).append (Expr.WellTyped.standalone_effect h)
  | .declare _ _ line, h =>
    ((standalone_marker markers line).append h.1.standalone).append (standalone_op trivial rfl)
  | .ifElse _ whenTrue whenFalse line, h => by
    obtain ⟨htest, -, htrue, hfalse⟩ := h
    refine ((standalone_marker markers line).append htest.standalone).append ?_
    unfold branchCode
    split
    · exact .choose (Statement.AllWellTyped.standalone htrue)
        (Statement.AllWellTyped.standalone hfalse)
    · exact .skip (Statement.AllWellTyped.standalone htrue)
  | .loop test step body line, h => by
    obtain ⟨htest, hstep, hbody⟩ := h
    refine (standalone_marker markers line).append
      (.repeatWhile ?_ (Statement.AllWellTyped.standalone hbody) ?_)
    · intro code hcode
      obtain ⟨condition, hcondition, rfl⟩ := Option.map_eq_some_iff.mp hcode
      exact (htest condition hcondition).1.standalone
    · cases step with
      | none => exact standalone_nil
      | some e => exact (hstep e rfl).standalone_effect
  | .doLoop _ _ line, h =>
    (standalone_marker markers line).append
      (.repeatUntil (Statement.AllWellTyped.standalone h.1) h.2.1.standalone)
  | .returnFrom _ line, h =>
    (standalone_marker markers line).append (Expr.FitsResult.standalone h)
  | .leave kind line, h => by
    cases (h : inLoop = true)
    exact (standalone_marker markers line).append (Item.standalone_leave kind)
  | .discardPixel line, _ => (standalone_marker markers line).append (standalone_op trivial rfl)
  | .block _, h => Statement.AllWellTyped.standalone h

theorem Statement.AllWellTyped.standalone {markers inLoop : Bool} :
    {ss : List Statement} → Statement.AllWellTyped c inLoop ss →
      Standalone inLoop (Statement.codeAll markers ss)
  | [], _ => standalone_nil
  | _ :: _, h => h.1.standalone.append (Statement.AllWellTyped.standalone h.2)

end

end Typed

/-! ## Assembling and fetching -/

/-- An instruction is fetched from the bytes of the code it stands in. -/
theorem fetch?_encodeAll (before after : List Instruction) {i : Instruction} (h : i.WellFormed) :
    fetch? (encodeAll (before ++ i :: after)) (sizeAll before)
      = some (i, sizeAll before + i.size) := by
  have hdrop : (encodeAll (before ++ i :: after)).drop (sizeAll before)
      = i.encode ++ encodeAll after := by
    rw [encodeAll, List.flatMap_append, ← length_encodeAll, encodeAll, List.drop_left,
      List.flatMap_cons]
    rfl
  unfold fetch?
  rw [hdrop, Decode.instruction_reads i h]
  rfl

namespace Item

variable {before after p : Nat} {items : List Item} {code : List Instruction}

/-- What jumps inside bytes that have a place can be assembled there. -/
theorem AllInside.exists_assemble (base : Nat) (h : AllInside false before items after)
    (hsize : base + before + sizeAll items + after < UInt32.size) :
    ∃ code, ShaderBytecode.assemble (base + before) items = .ok code := by
  induction items generalizing before with
  | nil => exact ⟨[], rfl⟩
  | cons item rest ih =>
    rw [sizeAll] at hsize
    obtain ⟨more, hmore⟩ := ih h.2 (by omega)
    rw [← Nat.add_assoc] at hmore
    have hitem := h.1
    cases item with
    | op i => exact ⟨i :: more, assemble_cons.mpr ⟨i, more, rfl, hmore, rfl⟩⟩
    | jump condition distance =>
      simp only [Inside] at hitem
      rw [size] at hsize
      obtain ⟨target, htarget⟩ := Int.eq_ofNat_of_zero_le
        (show 0 ≤ ((base + before : Nat) : Int) + jumpSize + distance by omega)
      exact ⟨_, assemble_cons.mpr ⟨_, more, assemble_jump htarget.symm (by omega), hmore, rfl⟩⟩
    | leave kind => exact absurd hitem Bool.false_ne_true

theorem AllInside.wellFormed {inLoop : Bool} (h : AllInside inLoop before items after)
    (hcode : ShaderBytecode.assemble p items = .ok code) : ∀ i ∈ code, i.WellFormed := by
  induction items generalizing before p code with
  | nil =>
    cases hcode
    exact List.forall_mem_nil _
  | cons item rest ih =>
    obtain ⟨i, more, hitem, hmore, rfl⟩ := assemble_cons.mp hcode
    refine List.forall_mem_cons.mpr ⟨?_, ih h.2 hmore⟩
    have hinside := h.1
    cases item with
    | op instruction =>
      cases hitem
      exact hinside.1
    | jump condition distance =>
      obtain ⟨target, -, rfl⟩ := eq_jump_of_assemble hitem
      trivial
    | leave kind => cases hitem

theorem AllInside.jumps {inLoop : Bool} {base : Nat} (h : AllInside inLoop before items after)
    (hcode : ShaderBytecode.assemble (base + before) items = .ok code) :
    ∀ i ∈ code, ∀ target ∈ i.jumpTarget?,
      base ≤ target.toNat ∧ target.toNat ≤ base + before + sizeAll items + after := by
  induction items generalizing before code with
  | nil =>
    cases hcode
    exact List.forall_mem_nil _
  | cons item rest ih =>
    obtain ⟨i, more, hitem, hmore, rfl⟩ := assemble_cons.mp hcode
    rw [Nat.add_assoc] at hmore
    refine List.forall_mem_cons.mpr ⟨fun target htarget => ?_, fun j hj target htarget => ?_⟩
    · have hinside := h.1
      cases item with
      | op instruction =>
        cases hitem
        rw [hinside.2] at htarget
        cases htarget
      | jump condition distance =>
        obtain ⟨target', htarget', rfl⟩ := eq_jump_of_assemble hitem
        cases htarget
        simp only [Inside] at hinside
        rw [sizeAll, size]
        omega
      | leave kind => cases hitem
    · have hrest := ih h.2 hmore j hj target htarget
      rw [sizeAll]
      omega

theorem allPlaced_of_assemble (targets : Leave → Nat) {front : List Instruction}
    (back : List Instruction)
    (hcode : ShaderBytecode.assemble (ShaderBytecode.sizeAll front) items = .ok code)
    (h : ∀ i ∈ code, i.WellFormed) :
    AllPlaced (encodeAll (front ++ (code ++ back))) targets (ShaderBytecode.sizeAll front)
      items := by
  induction items generalizing front code with
  | nil => trivial
  | cons item rest ih =>
    obtain ⟨i, more, hitem, hmore, rfl⟩ := assemble_cons.mp hcode
    obtain ⟨hi, hrest⟩ := List.forall_mem_cons.mp h
    have hfetch := fetch?_encodeAll front (more ++ back) hi
    have hstep :
        ShaderBytecode.sizeAll (front ++ [i]) = ShaderBytecode.sizeAll front + item.size := by
      rw [sizeAll_code_append, ShaderBytecode.sizeAll, ShaderBytecode.sizeAll, size_assemble hitem,
        Nat.add_zero]
    rw [← hstep] at hmore
    have hplaced := ih hmore hrest
    rw [hstep, List.append_assoc] at hplaced
    refine ⟨?_, hplaced⟩
    cases item with
    | op instruction =>
      cases hitem
      exact hfetch
    | jump condition distance =>
      obtain ⟨target, htarget, rfl⟩ := eq_jump_of_assemble hitem
      exact ⟨target, htarget, hfetch⟩
    | leave kind => cases hitem

/-- What stands alone before a last instruction can be assembled where the end has a place. -/
theorem Standalone.exists_assemble {i : Instruction} (h : Standalone false items)
    (hsize : p + sizeAll (items ++ [.op i]) ≤ UInt32.size) :
    ∃ code, ShaderBytecode.assemble p (items ++ [.op i]) = .ok code := by
  have hpos : 0 < (Item.op i).size := i.size_pos
  rw [sizeAll_append, sizeAll, sizeAll] at hsize
  obtain ⟨front, hfront⟩ := AllInside.exists_assemble p h (by omega)
  exact ⟨front ++ [i], assemble_append.mpr ⟨front, [i], hfront, rfl, rfl⟩⟩

end Item

end ShaderBytecode
