import ShaderBytecode.CodeBuffer
import ShaderBytecode.Proofs.Decoding

/-!
# What a code buffer holds is read back

Instructions that are written one after the other into a code buffer are read back from its bytes,
each at the sum of the sizes before it. A selection that names no component, too many of them or one
that does not exist is written as well, but no reader accepts it.
-/

namespace ShaderBytecode

/-! ## Rejected bytes -/

namespace Decode

variable {α β : Type}

/-- A reading step rejects `bytes` with a fault reported at `offset`, wherever they stand and whatever
follows them. -/
def Refuses (step : Decode α) (bytes : List UInt8) (offset : Nat) : Prop :=
  ∀ position rest, ∃ fault reader,
    step.run ⟨position, bytes ++ rest⟩ = .error ⟨offset, fault⟩ reader

theorem Reads.bind_refuses {step : Decode α} {f : α → Decode β} {first second : List UInt8} {a : α}
    {offset : Nat} (h : Reads step first a) (h' : Refuses (f a) second offset) :
    Refuses (step >>= f) (first ++ second) offset := by
  intro position rest
  rw [EStateM.run_bind, List.append_assoc, h position (second ++ rest)]
  exact h' (position + first.length) rest

theorem Refuses.bind {step : Decode α} {bytes : List UInt8} {offset : Nat}
    (h : Refuses step bytes offset) (f : α → Decode β) : Refuses (step >>= f) bytes offset := by
  intro position rest
  obtain ⟨fault, reader, hrun⟩ := h position rest
  exact ⟨fault, reader, by rw [EStateM.run_bind, hrun]⟩

theorem fail_refuses (offset : Nat) (fault : DecodeFault) (bytes : List UInt8) :
    Refuses (fail offset fault : Decode α) bytes offset := by
  intro position rest
  exact ⟨fault, ⟨position, bytes ++ rest⟩, rfl⟩

theorem refuses_of_position {f : Nat → Decode α} {bytes : List UInt8}
    (h : ∀ offset, Refuses (f offset) bytes offset) (position : Nat) (rest : List UInt8) :
    ∃ fault reader,
      (Decode.position >>= f).run ⟨position, bytes ++ rest⟩ = .error ⟨position, fault⟩ reader :=
  h position position rest

variable {components : List UInt8}

theorem componentList_refuses (offset : Nat) (h : ∃ c ∈ components, 3 < c) :
    Refuses (componentList offset components.length) components offset := by
  induction components with
  | nil => simp at h
  | cons c rest ih =>
    refine (byte_reads c).bind_refuses ?_
    by_cases hc : 3 < c
    · simp only [hc, if_true]
      exact fail_refuses offset _ rest
    · have hrest : ∃ c ∈ rest, 3 < c := by simpa [hc] using h
      simp only [hc, if_false]
      exact (ih hrest).bind _

theorem components_refuses (offset : Nat) (hlength : components.length ≤ 255)
    (h : ¬((1 ≤ components.length ∧ components.length ≤ 4) ∧ ∀ c ∈ components, c ≤ 3)) :
    Refuses (Decode.components offset) (.ofNat components.length :: components) offset := by
  have hcount : (UInt8.ofNat components.length).toNat = components.length :=
    UInt8.toNat_ofNat_of_lt' (by simp only [UInt8.size]; omega)
  refine (byte_reads (.ofNat components.length)).bind_refuses ?_
  by_cases hvalid : UInt8.ofNat components.length = 0 ∨ 4 < UInt8.ofNat components.length
  · simp only [hvalid, if_true]
    exact fail_refuses offset _ components
  · have hsize : 1 ≤ components.length ∧ components.length ≤ 4 := by
      rw [UInt8.lt_iff_toNat_lt, ← UInt8.toNat_inj, hcount] at hvalid
      simp only [UInt8.reduceToNat] at hvalid
      omega
    have hlarge : ∃ c ∈ components, 3 < c := by simpa [hsize] using h
    simp only [hvalid, if_false, hcount]
    exact componentList_refuses offset hlarge

/-- A selection that breaks the rule of components is rejected, with a fault at its start. Its count
is one byte, which tells the number of at most 255 components. -/
theorem select_refuses (op : SelectOp) (hlength : components.length ≤ 255)
    (h : ¬(Instruction.select op components).WellFormed) (position : Nat) (rest : List UInt8) :
    ∃ fault reader,
      instruction.run ⟨position, (Instruction.select op components).encode ++ rest⟩
        = .error ⟨position, fault⟩ reader := by
  refine refuses_of_position (fun offset => ?_) position rest
  refine (byte_reads (Opcode.select op).byte).bind_refuses ?_
  rw [Opcode.ofByte?_byte]
  exact (components_refuses offset hlength h).bind _

end Decode

/-! ## Code buffers -/

theorem encodeAll_cons (i : Instruction) (rest : List Instruction) :
    encodeAll (i :: rest) = i.encode ++ encodeAll rest :=
  List.flatMap_cons

/-- The bytes of a code buffer are those it had and those of the instructions written to it. -/
theorem bytes_foldl_emit (b : CodeBuffer) (code : List Instruction) :
    (code.foldl CodeBuffer.emit b).bytes = b.bytes ++ encodeAll code := by
  induction code generalizing b with
  | nil => simp [encodeAll]
  | cons i rest ih => simp [ih, encodeAll_cons, CodeBuffer.emit]

theorem getElem?_entriesFrom (p : Nat) (code : List Instruction) (k : Nat) :
    (entriesFrom p code)[k]? = code[k]?.map (Entry.mk (p + sizeAll (code.take k))) := by
  induction code generalizing p k with
  | nil => simp [entriesFrom]
  | cons i rest ih =>
    cases k with
    | zero => simp [entriesFrom, sizeAll]
    | succ k => simp [entriesFrom, sizeAll, ih, Nat.add_assoc]

/-- The sum of the first sizes is where an instruction starts, or the end. -/
theorem isInstructionStart_sizeAll_take (code : List Instruction) (k : Nat) :
    sizeAll (code.take k) = sizeAll code
      ∨ isInstructionStart (entriesFrom 0 code) (sizeAll (code.take k)) = true := by
  cases hi : code[k]? with
  | none =>
    left
    rw [List.take_of_length_le (List.getElem?_eq_none_iff.mp hi)]
  | some i =>
    right
    have hentry : (entriesFrom 0 code)[k]? = some ⟨sizeAll (code.take k), i⟩ := by
      rw [getElem?_entriesFrom, hi, Nat.zero_add]
      rfl
    exact (isInstructionStart_iff (pairwise_entriesFrom 0 code)).mpr
      ⟨_, List.mem_of_getElem? hentry, rfl⟩

/-- Instructions are read back from the code buffer they were written to, if selections name one to
four of the four components and jumps lead to where an instruction starts or to the end: each of
them at the number of bytes before it. A selection of at most 255 components that breaks the rule is
always rejected, with a fault at its start. -/
theorem disassemble_foldl_emit :
    (∀ code : List Instruction, (∀ i ∈ code, i.WellFormed) →
      (∀ i ∈ code, ∀ target ∈ i.jumpTarget?,
        ∃ k ≤ code.length, target.toNat = (encodeAll (code.take k)).length) →
      ∃ entries, disassemble (code.foldl CodeBuffer.emit {}).bytes = .ok entries
        ∧ entries.map Entry.instruction = code
        ∧ ∀ k e, entries[k]? = some e → e.offset = (encodeAll (code.take k)).length)
    ∧ ∀ (op : SelectOp) (components : List UInt8), components.length ≤ 255 →
      ¬(Instruction.select op components).WellFormed → ∀ position rest, ∃ fault reader,
        Reader.next?.run ⟨position, (Instruction.select op components).encode ++ rest⟩
          = .error ⟨position, fault⟩ reader := by
  refine ⟨fun code hformed hjumps => ?_, fun op components hlength hbad position rest => ?_⟩
  · have hbytes : (code.foldl CodeBuffer.emit {}).bytes = encodeAll code := by
      simp [bytes_foldl_emit]
    refine ⟨entriesFrom 0 code, ?_, map_instruction_entriesFrom 0 code, ?_⟩
    · rw [hbytes]
      refine disassemble_encodeAll hformed fun i hi target htarget => ?_
      obtain ⟨k, -, hk⟩ := hjumps i hi target htarget
      rw [hk, length_encodeAll]
      exact isInstructionStart_sizeAll_take code k
    · intro k e he
      rw [getElem?_entriesFrom] at he
      obtain ⟨i, -, rfl⟩ := Option.map_eq_some_iff.mp he
      simp [length_encodeAll]
  · obtain ⟨fault, reader, hrun⟩ := Decode.select_refuses op hlength hbad position rest
    have hnext : Reader.next?.run ⟨position, (Instruction.select op components).encode ++ rest⟩ =
        (do return some (position, ← Decode.instruction)).run
          ⟨position, (Instruction.select op components).encode ++ rest⟩ := rfl
    refine ⟨fault, reader, ?_⟩
    rw [hnext, EStateM.run_bind, hrun]

/-- Instructions with the largest operands, a nested type and jumps to both ends. -/
def boundaryCode : List Instruction :=
  [.jump .ifFalse 45, .pushInt (-2147483648), .indexed .getGlobal 4294967295,
    .construct (.array (.array (.vector .float 255) 4294967295) 1) 128, .select .swizzle [3, 0],
    .pushFloat ⟨0x7FC00001⟩, .jump .always 0]

theorem disassemble_foldl_emit_boundaryCode :
    (∃ entries, disassemble (boundaryCode.foldl CodeBuffer.emit {}).bytes = .ok entries
      ∧ entries.map Entry.instruction = boundaryCode)
    ∧ ∃ fault reader, Reader.next?.run ⟨7, (Instruction.select .refSwizzle [0, 4]).encode ++ [0]⟩
      = .error ⟨7, fault⟩ reader := by
  obtain ⟨hread, hrefuse⟩ := disassemble_foldl_emit
  have hformed : ∀ i ∈ boundaryCode, i.WellFormed := by
    simp [boundaryCode, Instruction.WellFormed]
  have hjumps : ∀ i ∈ boundaryCode, ∀ target ∈ i.jumpTarget?,
      ∃ k ≤ boundaryCode.length, target.toNat = (encodeAll (boundaryCode.take k)).length := by
    intro i hi target htarget
    have hends : boundaryCode.filterMap Instruction.jumpTarget? = [45, 0] := rfl
    have hmem : target ∈ boundaryCode.filterMap Instruction.jumpTarget? :=
      List.mem_filterMap.mpr ⟨i, hi, htarget⟩
    rw [hends, List.mem_cons, List.mem_singleton] at hmem
    rcases hmem with rfl | rfl
    · exact ⟨boundaryCode.length, Nat.le_refl _, by decide +kernel⟩
    · exact ⟨0, Nat.zero_le _, rfl⟩
  obtain ⟨entries, hentries, hcode, -⟩ := hread boundaryCode hformed hjumps
  exact ⟨⟨entries, hentries, hcode⟩, hrefuse .refSwizzle [0, 4] (by decide)
    (by simp [Instruction.WellFormed]) 7 [0]⟩

end ShaderBytecode
