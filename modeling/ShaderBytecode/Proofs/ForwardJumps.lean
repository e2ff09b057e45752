import Mathlib.Algebra.Group.Nat.Defs
import ShaderBytecode.CodeBuffer

/-!
# Forward jumps

A code buffer is bytes, and the target of a forward jump is written over four of them, at a place
that was noted when the jump was. Whatever is done to it, it stands for a list of instructions
with some targets still to be filled in. What carries this from operation to operation is where the
noted places are: one byte behind all the instructions in front of the jump. A target has the same
size whichever it is, so filling one in moves no other.
-/

namespace ShaderBytecode

/-- What is done to a code buffer. A forward jump is named by its number since the last reset. -/
inductive Writing where
  | emit (i : Instruction)
  | forwardJump (opcode : Opcode)
  | retarget (jump target : Nat)
  | retargetToHere (jump : Nat)
  | reset
deriving DecidableEq, Repr

/-- A code buffer and the forward jumps that it gave out since the last reset. -/
structure Writer where
  buffer : CodeBuffer := {}
  jumps : List PendingJump := []

/-- What a writer stands for: instructions, and where the forward jumps are among them. -/
structure Draft where
  code : List Instruction := []
  jumps : List Nat := []

namespace Writer

/-- A step on a forward jump that was given out. -/
def aim (w : Writer) (k : Nat) (step : PendingJump → CodeBuffer.Step Unit) :
    Option BufferError × Writer :=
  match w.jumps[k]? with
  | none => (none, w)
  | some jump =>
    match (step jump).run w.buffer with
    | .ok () buffer => (none, { w with buffer })
    | .error fault buffer => (some fault, { w with buffer })

/-- A writer behind an operation, and why the operation is refused if it is. -/
def apply (w : Writer) : Writing → Option BufferError × Writer
  | .emit i => (none, { w with buffer := w.buffer.emit i })
  | .forwardJump opcode =>
    match (CodeBuffer.forwardJump opcode).run w.buffer with
    | .ok jump buffer => (none, ⟨buffer, w.jumps ++ [jump]⟩)
    | .error fault buffer => (some fault, { w with buffer })
  | .retarget k target => w.aim k (CodeBuffer.retarget · target)
  | .retargetToHere k => w.aim k CodeBuffer.retargetToHere
  | .reset => (none, ⟨w.buffer.reset, []⟩)

def run (history : List Writing) : Writer :=
  history.foldl (fun w op => (w.apply op).2) {}

end Writer

def Instruction.withTarget (target : UInt32) : Instruction → Instruction
  | jump condition _ => jump condition target
  | other => other

namespace Draft

def retarget (d : Draft) (k target : Nat) : Option BufferError × Draft :=
  match d.jumps[k]? with
  | none => (none, d)
  | some index =>
    if target ≤ 2 ^ 32 - 1 then
      (none, { d with code := d.code.modify index (Instruction.withTarget (.ofNat target)) })
    else (some (.targetTooLarge target), d)

def apply (d : Draft) : Writing → Option BufferError × Draft
  | .emit i => (none, { d with code := d.code ++ [i] })
  | .forwardJump (.jump condition) =>
    (none, ⟨d.code ++ [.jump condition 0], d.jumps ++ [d.code.length]⟩)
  | .forwardJump opcode => (some (.notAJump opcode), d)
  | .retarget k target => d.retarget k target
  | .retargetToHere k => d.retarget k (sizeAll d.code)
  | .reset => (none, {})

def run (history : List Writing) : Draft :=
  history.foldl (fun d op => (d.apply op).2) {}

end Draft

namespace CodeBuffer

theorem run_forwardJump (b : CodeBuffer) (condition : JumpWhen) :
    (forwardJump (.jump condition)).run b
      = .ok ⟨b.position + 1⟩ (b.emit (.jump condition 0)) := by
  have hbytes : b.bytes ++ [(Opcode.jump condition).byte] ++ List.replicate targetWidth 0
      = b.bytes ++ (Instruction.jump condition 0).encode := List.append_assoc ..
  have hoperand : (b.bytes ++ [(Opcode.jump condition).byte]).length = b.position + 1 :=
    List.length_append
  show EStateM.Result.ok
    (PendingJump.mk (b.bytes ++ [(Opcode.jump condition).byte]).length)
    (mk (b.bytes ++ [(Opcode.jump condition).byte] ++ List.replicate targetWidth 0)) = _
  rw [hbytes, hoperand]
  rfl

theorem run_retarget (b : CodeBuffer) {jump : PendingJump}
    (hinside : jump.operand + targetWidth ≤ b.bytes.length) (target : Nat) :
    (retarget jump target).run b
      = if target ≤ 2 ^ 32 - 1 then
          .ok () ⟨b.bytes.take jump.operand ++ wordBytes (.ofNat target)
            ++ b.bytes.drop (jump.operand + targetWidth)⟩
        else .error (.targetTooLarge target) b := by
  unfold retarget
  by_cases hfits : target ≤ 2 ^ 32 - 1
  · have hlt : target < 0x100000000 := by omega
    rw [if_pos hfits, if_pos hlt]
    have hrest : ∀ step : CodeBuffer.Step Unit, (do
        unless jump.operand + targetWidth ≤ b.bytes.length do
          throw (.operandOutside jump.operand)
        step) = step := by
      intro step
      rw [if_pos hinside]
    exact congrArg (EStateM.run · b) (hrest _)
  · have hge : ¬target < 0x100000000 := by omega
    rw [if_neg hfits, if_neg hge]
    rfl

end CodeBuffer

/-! ## Targets in the middle of the code -/

theorem Instruction.size_withTarget (target : UInt32) (i : Instruction) :
    (i.withTarget target).size = i.size := by
  cases i <;> rfl

section Code

variable {code : List Instruction} {index : Nat}

theorem sizeAll_take_modify (target : UInt32) (n : Nat) :
    sizeAll ((code.modify index (Instruction.withTarget target)).take n)
      = sizeAll (code.take n) := by
  induction code generalizing index n with
  | nil => rw [List.modify_nil]
  | cons i rest ih =>
    cases n with
    | zero => rfl
    | succ n =>
      cases index with
      | zero => exact congrArg (· + _) (i.size_withTarget target)
      | succ index => exact congrArg (_ + ·) (ih n)

theorem sizeAll_take_add_le {i : Instruction} (h : code[index]? = some i) :
    sizeAll (code.take index) + i.size ≤ sizeAll code := by
  induction code generalizing index with
  | nil => cases h
  | cons first rest ih =>
    cases index with
    | zero =>
      cases h
      simp [sizeAll]
    | succ index =>
      have hrest := ih h
      simp only [List.take_succ_cons, sizeAll]
      omega

/-- Writing over the four bytes behind the opcode of a jump changes its target and nothing else. -/
theorem encodeAll_modify {condition : JumpWhen} {old : UInt32}
    (h : code[index]? = some (.jump condition old)) (target : UInt32) :
    encodeAll (code.modify index (Instruction.withTarget target))
      = (encodeAll code).take (sizeAll (code.take index) + 1) ++ wordBytes target
        ++ (encodeAll code).drop (sizeAll (code.take index) + 1 + targetWidth) := by
  induction code generalizing index with
  | nil => cases h
  | cons i rest ih =>
    cases index with
    | zero =>
      cases h
      rfl
    | succ index =>
      have hsize : sizeAll ((i :: rest).take (index + 1)) + 1
          = i.encode.length + (sizeAll (rest.take index) + 1) := Nat.add_assoc ..
      show i.encode ++ encodeAll (rest.modify index _)
        = (i.encode ++ encodeAll rest).take _ ++ _ ++ (i.encode ++ encodeAll rest).drop _
      rw [ih h, hsize, List.take_length_add_append, Nat.add_assoc i.encode.length,
        List.drop_length_add_append]
      simp only [List.append_assoc]

end Code

/-! ## What a writer stands for -/

structure Writer.Holds (w : Writer) (d : Draft) : Prop where
  bytes : w.buffer.bytes = encodeAll d.code
  jumps : w.jumps = d.jumps.map fun index => ⟨sizeAll (d.code.take index) + 1⟩
  isJump : ∀ index ∈ d.jumps, ∃ condition target, d.code[index]? = some (.jump condition target)

/-- One jump of a draft gets another target. No instruction moves and no other one changes. -/
structure Draft.Retargets (d : Draft) (index : Nat) (target : UInt32) (d' : Draft) : Prop where
  jump : ∃ condition old, d.code[index]? = some (.jump condition old)
    ∧ d'.code[index]? = some (.jump condition target)
  others : ∀ n ≠ index, d'.code[n]? = d.code[n]?
  offsets : ∀ n, sizeAll (d'.code.take n) = sizeAll (d.code.take n)
  jumps : d'.jumps = d.jumps

namespace Draft

def Refuses (d : Draft) : Writing → Prop
  | .forwardJump opcode => opcode.isJump = false
  | .retarget k target => k < d.jumps.length ∧ 2 ^ 32 - 1 < target
  | .retargetToHere k => k < d.jumps.length ∧ 2 ^ 32 - 1 < sizeAll d.code
  | .emit _ | .reset => False

theorem retarget_of_getElem? {d : Draft} {k index : Nat} (h : d.jumps[k]? = some index)
    (target : Nat) : d.retarget k target
      = if target ≤ 2 ^ 32 - 1 then
          (none, { d with code := d.code.modify index (Instruction.withTarget (.ofNat target)) })
        else (some (.targetTooLarge target), d) := by
  rw [retarget, h]

theorem retarget_refused (d : Draft) (k target : Nat) :
    ((d.retarget k target).1.isSome ↔ k < d.jumps.length ∧ 2 ^ 32 - 1 < target)
      ∧ ((d.retarget k target).1.isSome → (d.retarget k target).2 = d) := by
  cases hindex : d.jumps[k]? with
  | none =>
    have hout : d.jumps.length ≤ k := List.getElem?_eq_none_iff.mp hindex
    rw [retarget, hindex]
    exact ⟨⟨nofun, fun h => absurd h.1 (by omega)⟩, nofun⟩
  | some index =>
    have hin : k < d.jumps.length := (List.getElem?_eq_some_iff.mp hindex).1
    rw [retarget_of_getElem? hindex]
    by_cases hfits : target ≤ 2 ^ 32 - 1
    · rw [if_pos hfits]
      exact ⟨⟨nofun, fun h => absurd h.2 (by omega)⟩, nofun⟩
    · rw [if_neg hfits]
      exact ⟨iff_of_true rfl ⟨hin, by omega⟩, fun _ => rfl⟩

/-- What is refused, and that it leaves the draft as it was. -/
theorem apply_refused (d : Draft) (op : Writing) :
    ((d.apply op).1.isSome ↔ d.Refuses op) ∧ ((d.apply op).1.isSome → (d.apply op).2 = d) := by
  cases op with
  | emit i => exact ⟨⟨nofun, nofun⟩, nofun⟩
  | forwardJump opcode =>
    cases opcode with
    | jump condition => exact ⟨⟨nofun, nofun⟩, nofun⟩
    | _ => exact ⟨iff_of_true rfl rfl, fun _ => rfl⟩
  | retarget k target => exact d.retarget_refused k target
  | retargetToHere k => exact d.retarget_refused k (sizeAll d.code)
  | reset => exact ⟨⟨nofun, nofun⟩, nofun⟩

end Draft

namespace Writer

variable {w : Writer} {d : Draft}

theorem Holds.emit (h : w.Holds d) (i : Instruction) :
    Holds { w with buffer := w.buffer.emit i } { d with code := d.code ++ [i] } where
  bytes := by
    show w.buffer.bytes ++ i.encode = encodeAll (d.code ++ [i])
    rw [h.bytes, encodeAll, encodeAll, List.flatMap_append, List.flatMap_singleton]
  jumps := by
    refine h.jumps.trans (List.map_congr_left fun index hindex => ?_)
    obtain ⟨_, _, hjump⟩ := h.isJump index hindex
    rw [List.take_append_of_le_length (Nat.le_of_lt (List.getElem?_eq_some_iff.mp hjump).1)]
  isJump := by
    intro index hindex
    obtain ⟨condition, target, hjump⟩ := h.isJump index hindex
    exact ⟨condition, target,
      (List.getElem?_append_left (List.getElem?_eq_some_iff.mp hjump).1).trans hjump⟩

theorem Holds.position (h : w.Holds d) : w.buffer.position = sizeAll d.code := by
  rw [← length_encodeAll, ← h.bytes]
  rfl

theorem Holds.forwardJump (h : w.Holds d) (condition : JumpWhen) :
    Holds ⟨w.buffer.emit (.jump condition 0), w.jumps ++ [⟨w.buffer.position + 1⟩]⟩
      ⟨d.code ++ [.jump condition 0], d.jumps ++ [d.code.length]⟩ := by
  have hemitted := h.emit (.jump condition 0)
  have hposition : w.buffer.position
      = sizeAll ((d.code ++ [Instruction.jump condition 0]).take d.code.length) := by
    rw [List.take_left, h.position]
  refine ⟨hemitted.bytes, ?_, ?_⟩
  · rw [List.map_append, ← hemitted.jumps, hposition]
    rfl
  · rw [List.forall_mem_append, List.forall_mem_singleton]
    exact ⟨hemitted.isJump, condition, 0, List.getElem?_concat_length⟩

/-- The draft behind a new target, and the writer that stands for it: only the four bytes at the
noted place are written. -/
theorem Holds.retarget (h : w.Holds d) {k index : Nat} (hindex : d.jumps[k]? = some index)
    (target : UInt32) :
    ∃ jump, w.jumps[k]? = some jump ∧ jump.operand + targetWidth ≤ w.buffer.bytes.length
      ∧ d.Retargets index target
        { d with code := d.code.modify index (Instruction.withTarget target) }
      ∧ Holds ⟨⟨w.buffer.bytes.take jump.operand ++ wordBytes target
          ++ w.buffer.bytes.drop (jump.operand + targetWidth)⟩, w.jumps⟩
        { d with code := d.code.modify index (Instruction.withTarget target) } := by
  obtain ⟨condition, old, hjump⟩ := h.isJump index (List.mem_of_getElem? hindex)
  have hretargets : d.Retargets index target
      { d with code := d.code.modify index (Instruction.withTarget target) } := by
    refine ⟨⟨condition, old, hjump, ?_⟩, fun n hn => ?_, sizeAll_take_modify target, rfl⟩
    · simp [hjump, Instruction.withTarget]
    · simp [hn.symm]
  refine ⟨⟨sizeAll (d.code.take index) + 1⟩, ?_, ?_, hretargets, ?_, ?_, ?_⟩
  · rw [h.jumps, List.getElem?_map, hindex]
    rfl
  · have hend := sizeAll_take_add_le hjump
    rw [h.bytes, length_encodeAll]
    exact hend
  · rw [h.bytes]
    exact (encodeAll_modify hjump target).symm
  · simp only [hretargets.offsets]
    exact h.jumps
  · intro other hother
    by_cases hsame : other = index
    · obtain ⟨condition, _, _, hnew⟩ := hretargets.jump
      exact ⟨condition, target, hsame ▸ hnew⟩
    · rw [hretargets.others other hsame]
      exact h.isJump other hother

theorem Holds.aim (h : w.Holds d) (k target : Nat) :
    (w.aim k (CodeBuffer.retarget · target)).1 = (d.retarget k target).1
      ∧ (w.aim k (CodeBuffer.retarget · target)).2.Holds (d.retarget k target).2 := by
  cases hindex : d.jumps[k]? with
  | none =>
    have hnone : w.jumps[k]? = none := by
      rw [h.jumps, List.getElem?_map, hindex]
      rfl
    rw [Writer.aim, hnone, Draft.retarget, hindex]
    exact ⟨rfl, h⟩
  | some index =>
    obtain ⟨jump, hjump, hinside, -, hholds⟩ := h.retarget hindex (.ofNat target)
    have hrun := w.buffer.run_retarget hinside target
    rw [Draft.retarget_of_getElem? hindex]
    simp only [Writer.aim, hjump, hrun]
    by_cases hfits : target ≤ 2 ^ 32 - 1
    · simp only [if_pos hfits]
      exact ⟨trivial, hholds⟩
    · simp only [if_neg hfits]
      exact ⟨trivial, h⟩

/-- One operation: it is refused for the same reason, and what the writer stands for stays true. -/
theorem Holds.apply (h : w.Holds d) (op : Writing) :
    (w.apply op).1 = (d.apply op).1 ∧ (w.apply op).2.Holds (d.apply op).2 := by
  cases op with
  | emit i => exact ⟨rfl, h.emit i⟩
  | forwardJump opcode =>
    cases opcode with
    | jump condition =>
      simp only [Writer.apply, CodeBuffer.run_forwardJump]
      exact ⟨rfl, h.forwardJump condition⟩
    | _ => exact ⟨rfl, h⟩
  | retarget k target => exact h.aim k target
  | retargetToHere k =>
    have hhere : w.apply (.retargetToHere k) = w.aim k (CodeBuffer.retarget · w.buffer.position) :=
      rfl
    rw [hhere, h.position]
    exact h.aim k (sizeAll d.code)
  | reset => exact ⟨rfl, rfl, rfl, nofun⟩

theorem run_holds (history : List Writing) : (run history).Holds (Draft.run history) := by
  suffices hfrom : ∀ w d, Holds w d →
      Holds (history.foldl (fun w op => (w.apply op).2) w)
        (history.foldl (fun d op => (d.apply op).2) d) from
    hfrom {} {} ⟨rfl, rfl, nofun⟩
  induction history with
  | nil => exact fun w d h => h
  | cons op rest ih => exact fun w d h => ih _ _ (h.apply op).2

/-- After any history the bytes of a code buffer are the encodings of a list of instructions that
grows by what is emitted, in which jumps get their targets, and that a reset empties. An operation
is refused only for an opcode that is no jump and for a target that takes more than four bytes, and
then no byte has changed. A new target changes its own jump only, and moves nothing. -/
theorem run_refines (history : List Writing) :
    let w := run history
    let d := Draft.run history
    w.buffer.bytes = encodeAll d.code
      ∧ (∀ op, (w.apply op).1 = (d.apply op).1 ∧ ((w.apply op).1.isSome ↔ d.Refuses op)
        ∧ ((w.apply op).1.isSome → (w.apply op).2.buffer.bytes = w.buffer.bytes))
      ∧ ∀ k index target, d.jumps[k]? = some index → target ≤ 2 ^ 32 - 1 →
        d.Retargets index (.ofNat target) (d.retarget k target).2 := by
  intro w d
  have h : w.Holds d := run_holds history
  refine ⟨h.bytes, fun op => ?_, fun k index target hindex hfits => ?_⟩
  · obtain ⟨hanswer, hholds⟩ := h.apply op
    obtain ⟨hrefused, hsame⟩ := d.apply_refused op
    rw [hanswer]
    refine ⟨rfl, hrefused, fun hsome => ?_⟩
    rw [hholds.bytes, hsame hsome, h.bytes]
  · obtain ⟨_, _, _, hretargets, _⟩ := h.retarget hindex (.ofNat target)
    rw [Draft.retarget_of_getElem? hindex, if_pos hfits]
    exact hretargets

end Writer

end ShaderBytecode
