import ShaderBytecode.Proofs.ReadingSteps

/-!
# Listings of arbitrary bytes

Bytes that have a listing are cut by it into the bytes of its instructions. Written again, an
instruction takes no more bytes than it was read from, and the same ones if none of its LEB128
numbers was padded.
-/

namespace ShaderBytecode

/-! ## Numbers -/

/-- Bytes are no longer than others, and the same if they are as long. -/
def Shortens (short bytes : List UInt8) : Prop :=
  short.length ≤ bytes.length ∧ (bytes.length ≤ short.length → bytes = short)

theorem Shortens.refl (bytes : List UInt8) : Shortens bytes bytes :=
  ⟨Nat.le_refl _, fun _ => rfl⟩

theorem Shortens.append {short bytes short' bytes' : List UInt8} (h : Shortens short bytes)
    (h' : Shortens short' bytes') : Shortens (short ++ short') (bytes ++ bytes') := by
  have hle := h.1
  have hle' := h'.1
  unfold Shortens
  rw [List.length_append, List.length_append]
  refine ⟨by omega, fun hlength => ?_⟩
  rw [h.2 (by omega), h'.2 (by omega)]

theorem shortens_of_lt {short bytes : List UInt8} (h : short.length < bytes.length) :
    Shortens short bytes :=
  ⟨Nat.le_of_lt h, fun hlength => absurd hlength (Nat.not_le.mpr h)⟩

namespace Leb128

variable {bytes : List UInt8} {n : Nat}

theorem Groups.length_pos (h : Groups bytes n) : 0 < bytes.length := by
  cases h <;> exact Nat.succ_pos _

theorem SignedGroups.length_pos {n : Int} (h : SignedGroups bytes n) : 0 < bytes.length := by
  cases h <;> exact Nat.succ_pos _

theorem ofNat_eq {b : UInt8} (h : n = b.toNat) : UInt8.ofNat n = b := by
  rw [h, UInt8.ofNat_toNat]

/-- No bytes that write a number are fewer than those of its encoding. -/
theorem Groups.shortens (h : Groups bytes n) (limit : Nat) :
    Shortens (unsignedWithin limit n) bytes := by
  induction limit generalizing bytes n with
  | zero => exact shortens_of_lt h.length_pos
  | succ limit ih =>
    rw [unsignedWithin]
    cases h with
    | last hb =>
      rw [if_pos hb, ofNat_eq rfl]
      exact .refl _
    | @more b bytes high hb hrest =>
      have hbyte := b.toNat_lt
      split
      · exact shortens_of_lt (Nat.succ_lt_succ hrest.length_pos)
      · rw [show (b.toNat - 128 + 128 * high) / 128 = high by omega, ofNat_eq (b := b) (by omega)]
        exact (Shortens.refl [b]).append (ih hrest)

theorem SignedGroups.shortens {n : Int} (h : SignedGroups bytes n) (limit : Nat) :
    Shortens (signedWithin limit n) bytes := by
  induction limit generalizing bytes n with
  | zero => exact shortens_of_lt h.length_pos
  | succ limit ih =>
    rw [signedWithin]
    cases h with
    | @last b hb =>
      rw [if_pos (by omega), ofNat_eq (b := b) (by omega)]
      exact .refl _
    | @negative b hb hb' =>
      rw [if_pos (by omega), ofNat_eq (b := b) (by omega)]
      exact .refl _
    | @more b bytes high hb hrest =>
      have hbyte := b.toNat_lt
      split
      · exact shortens_of_lt (Nat.succ_lt_succ hrest.length_pos)
      · rw [show ((b.toNat : Int) - 128 + 128 * high) / 128 = high by omega,
          ofNat_eq (b := b) (by omega)]
        exact (Shortens.refl [b]).append (ih hrest)

/-- Bytes write a number, and no fewer bytes do. -/
def Minimal {α : Type} (W : List UInt8 → α → Prop) (bytes : List UInt8) (n : α) : Prop :=
  W bytes n ∧ ∀ other, W other n → bytes.length ≤ other.length

end Leb128

variable {bytes : List UInt8}

theorem Decode.Reads.meets {α : Type} {step : Decode α} {a : α} {P : List UInt8 → α → Prop}
    (h : Reads step bytes a) (h' : Meets 0 step P) : P bytes a := by
  obtain ⟨taken, hpass, htaken⟩ := h'.passes (Nat.zero_le 0) (h 0 [])
  rwa [List.append_cancel_right hpass.1]

theorem Leb128.Minimal.eq_unsigned {n : UInt32} (h : Minimal Writes bytes n) : bytes = unsigned n :=
  (Groups.shortens h.1 maxLength).2
    (h.2 _ ((Decode.unsigned_reads n).meets Decode.unsigned_meets))

theorem Leb128.Minimal.eq_signed {n : Int32} (h : Minimal WritesSigned bytes n) :
    bytes = signed n :=
  (SignedGroups.shortens h.1 maxLength).2
    (h.2 _ ((Decode.signed_reads n).meets Decode.signed_meets))

/-! ## Instructions -/

section Encodings

variable {R : List UInt8 → List UInt8 → Prop} (hrefl : ∀ bytes, R bytes bytes)
  (happend : ∀ {a b c d}, R a b → R c d → R (a ++ c) (b ++ d))
  {U : List UInt8 → UInt32 → Prop} (hU : ∀ bytes n, U bytes n → R (Leb128.unsigned n) bytes)
include hrefl happend hU

/-- What relates the encodings of numbers to their written forms relates those of type codes. -/
theorem TypeCode.Written.encodes {type : TypeCode} {bytes : List UInt8} (h : type.Written U bytes) :
    R type.encode bytes := by
  induction type generalizing bytes with
  | struct index =>
    obtain ⟨number, rfl, hnumber⟩ := h
    exact happend (hrefl [5]) (hU number index hnumber)
  | array element length ih =>
    obtain ⟨number, rest, rfl, hnumber, hrest⟩ := h
    exact happend (hrefl [6]) (happend (hU number length hnumber) (ih hrest))
  | _ =>
    obtain rfl := h
    exact hrefl _

theorem Instruction.Written.encodes {S : List UInt8 → Int32 → Prop}
    (hS : ∀ bytes n, S bytes n → R (Leb128.signed n) bytes) {i : Instruction} {bytes : List UInt8}
    (h : i.Written U S bytes) : R i.encode bytes := by
  obtain ⟨operands, rfl, h⟩ := h
  refine happend (hrefl [i.opcode.byte]) ?_
  cases i with
  | indexed op index => exact hU operands index h
  | pushInt value => exact hS operands value h
  | construct type arguments =>
    obtain ⟨first, second, rfl, hfirst, hsecond⟩ := h
    exact happend (hfirst.encodes hrefl happend hU) (hU second arguments hsecond)
  | call kind callee arguments =>
    obtain ⟨first, second, rfl, hfirst, hsecond⟩ := h
    exact happend (hU first callee hfirst) (hU second arguments hsecond)
  | _ =>
    obtain rfl := h
    exact hrefl _

end Encodings

/-! ## Entries -/

/-- The bytes from the offset of an entry up to where the next one starts. -/
def Entry.slice (bytes : List UInt8) (e : Entry) (stop : Nat) : List UInt8 :=
  (bytes.take stop).drop e.offset

/-- An entry is read from exactly the bytes up to where the next one starts. Written again it is no
longer than they are, reads back as it is, and is the same bytes if their numbers are minimal. -/
structure Entry.Recodes (bytes : List UInt8) (e : Entry) (stop : Nat) : Prop where
  bounds : e.offset < stop ∧ stop ≤ bytes.length
  read : Reader.next?.run ⟨e.offset, bytes.drop e.offset⟩
    = .ok (some (e.offset, e.instruction)) ⟨stop, bytes.drop stop⟩
  written : e.instruction.Written Leb128.Writes Leb128.WritesSigned (e.slice bytes stop)
  wellFormed : e.instruction.WellFormed
  shorter : e.instruction.encode.length ≤ (e.slice bytes stop).length
  reads : Decode.Reads Decode.instruction e.instruction.encode e.instruction
  encode_eq : e.instruction.Written (Leb128.Minimal Leb128.Writes)
    (Leb128.Minimal Leb128.WritesSigned) (e.slice bytes stop) →
      e.instruction.encode = e.slice bytes stop

/-- Where the first of some entries starts, or the end of the code. -/
def startOf (length : Nat) (entries : List Entry) : Nat :=
  (entries.head?.map Entry.offset).getD length

/-- Entries that are read one behind the other up to the end. -/
inductive Cuts : Reader → List Entry → Prop
  | nil {r : Reader} (h : r.rest = []) : Cuts r []
  | cons {r r' : Reader} {b : UInt8} {taken : List UInt8} {i : Instruction} {rest : List Entry}
      (read : Reader.next?.run r = .ok (some (r.position, i)) r') (passes : r.Passes (b :: taken) r')
      (written : i.Written Leb128.Writes Leb128.WritesSigned (b :: taken))
      (wellFormed : i.WellFormed) (more : Cuts r' rest) : Cuts r (⟨r.position, i⟩ :: rest)

theorem Reader.Loop.cuts {r : Reader} {result : Except DecodeError (List Entry)}
    (h : Loop r result) {entries : List Entry} (hresult : result = .ok entries) :
    Cuts r entries := by
  induction h generalizing entries with
  | @atEnd r r' hrun =>
    have hcalls := calls_next? r
    rw [hrun] at hcalls
    cases hresult
    cases hcalls with
    | atEnd hend => exact .nil hend
  | fault => cases hresult
  | @read r r' offset i result hrun hrest ih =>
    have hcalls := calls_next? r
    rw [hrun] at hcalls
    cases result with
    | error e => cases hresult
    | ok rest =>
      cases hresult
      cases hcalls with
      | read hpass hwritten hformed => exact .cons hrun hpass hwritten hformed (ih rfl)

namespace Cuts

variable {bytes : List UInt8} {r : Reader} {entries : List Entry}

theorem startOf_eq (h : Cuts r entries) (hr : r.At bytes) :
    startOf bytes.length entries = r.position := by
  have hstop := hr.stop_eq
  cases h with
  | nil hend =>
    rw [Reader.stop, hend] at hstop
    exact hstop.symm
  | cons => rfl

theorem position_le (h : Cuts r entries) : ∀ e ∈ entries, r.position ≤ e.offset := by
  induction h with
  | nil => exact List.forall_mem_nil _
  | cons _ hpass _ _ _ ih =>
    refine List.forall_mem_cons.mpr ⟨Nat.le_refl _, fun e he => ?_⟩
    exact Nat.le_trans (hpass.2 ▸ Nat.le_add_right _ _) (ih e he)

theorem pairwise (h : Cuts r entries) : entries.Pairwise (·.offset < ·.offset) := by
  induction h with
  | nil => exact .nil
  | cons _ hpass _ _ hmore ih =>
    refine List.pairwise_cons.mpr ⟨fun e he => ?_, ih⟩
    refine Nat.lt_of_lt_of_le ?_ (hmore.position_le e he)
    rw [hpass.2]
    exact Nat.lt_add_of_pos_right (Nat.succ_pos _)

theorem recodes (h : Cuts r entries) (hr : r.At bytes) {before after : List Entry} {e : Entry}
    (hentries : entries = before ++ e :: after) :
    e.Recodes bytes (startOf bytes.length after) := by
  induction h generalizing before with
  | nil => cases before <;> cases hentries
  | @cons r r' b taken i rest hread hpass hwritten hformed hmore ih =>
    have hr' := hr.passes hpass
    cases before with
    | cons first before => exact ih hr' (List.cons.inj hentries).2
    | nil =>
      obtain ⟨rfl, rfl⟩ := List.cons.inj hentries
      rw [hmore.startOf_eq hr']
      have hslice : Entry.slice bytes ⟨r.position, i⟩ r'.position = b :: taken := by
        show (bytes.take r'.position).drop r.position = b :: taken
        rw [List.drop_take, ← hr.2, hpass.1, hpass.2, Nat.add_sub_cancel_left, List.take_left]
      refine ⟨⟨?_, hr'.1⟩, ?_, hslice ▸ hwritten, hformed, ?_, ?_, ?_⟩
      · show r.position < r'.position
        rw [hpass.2]
        exact Nat.lt_add_of_pos_right (Nat.succ_pos _)
      · show Reader.next?.run ⟨r.position, bytes.drop r.position⟩ = _
        rw [← hr.2, ← hr'.2]
        exact hread
      · rw [hslice]
        exact (hwritten.encodes Shortens.refl Shortens.append
          (fun _ _ hn => Leb128.Groups.shortens hn _)
          (fun _ _ hn => Leb128.SignedGroups.shortens hn _)).1
      · exact Decode.instruction_reads i hformed
      · intro hminimal
        exact hminimal.encodes (fun _ => rfl) (fun h h' => congrArg₂ _ h h')
          (fun _ _ hn => hn.eq_unsigned.symm) (fun _ _ hn => hn.eq_signed.symm)

end Cuts

theorem disassemble_eq_ok {bytes : List UInt8} {entries : List Entry}
    (h : disassemble bytes = .ok entries) :
    readEntries bytes.length (.ofBytes bytes) = .ok entries
      ∧ badJump? entries bytes.length = none := by
  unfold disassemble at h
  cases hread : readEntries bytes.length (.ofBytes bytes) with
  | error e =>
    rw [hread] at h
    cases h
  | ok found =>
    rw [hread] at h
    simp only [bind, Except.bind] at h
    split at h
    · cases h
    · rename_i hjumps
      cases h
      exact ⟨rfl, hjumps⟩

/-- Bytes that have a listing are cut by it into the bytes of its instructions, which can be written
again. Its offsets are what a search finds, and every jump leads to one of them or to the end. -/
theorem disassemble_recodes {bytes : List UInt8} {entries : List Entry}
    (h : disassemble bytes = .ok entries) :
    startOf bytes.length entries = 0 ∧ entries.Pairwise (·.offset < ·.offset)
      ∧ (∀ before e after, entries = before ++ e :: after →
          e.Recodes bytes (startOf bytes.length after))
      ∧ (∀ offset, isInstructionStart entries offset = true ↔ ∃ e ∈ entries, e.offset = offset)
      ∧ ∀ e ∈ entries, ∀ target ∈ e.instruction.jumpTarget?,
          target.toNat = bytes.length ∨ ∃ e' ∈ entries, e'.offset = target.toNat := by
  obtain ⟨hread, hjumps⟩ := disassemble_eq_ok h
  have hat : (Reader.ofBytes bytes).At bytes := ⟨Nat.zero_le _, rfl⟩
  have hcuts : Cuts (.ofBytes bytes) entries :=
    (Reader.loop_readEntries (Nat.le_refl _)).cuts hread
  refine ⟨hcuts.startOf_eq hat, hcuts.pairwise, fun _ _ _ => hcuts.recodes hat,
    fun _ => isInstructionStart_iff hcuts.pairwise, fun e he target htarget => ?_⟩
  have hgood := List.findSome?_eq_none_iff.mp hjumps e he
  rw [Option.mem_def.mp htarget] at hgood
  by_cases hend : target.toNat = bytes.length
  · exact .inl hend
  · refine .inr ((isInstructionStart_iff hcuts.pairwise).mp ?_)
    by_contra hstart
    simp [hend, hstart] at hgood

/-- A line number in two bytes where one would do, and a jump back to it. -/
def paddedCode : List UInt8 :=
  [0x01, 0x81, 0x00, 0x60, 0, 0, 0, 0]

theorem disassemble_recodes_paddedCode :
    disassemble paddedCode = .ok [⟨0, .indexed .line 1⟩, ⟨3, .jump .always 0⟩]
      ∧ Entry.Recodes paddedCode ⟨0, .indexed .line 1⟩ 3 :=
  have h : disassemble paddedCode = .ok [⟨0, .indexed .line 1⟩, ⟨3, .jump .always 0⟩] := by
    with_unfolding_all rfl
  ⟨h, (disassemble_recodes h).2.2.1 [] ⟨0, .indexed .line 1⟩ [⟨3, .jump .always 0⟩] rfl⟩

end ShaderBytecode
