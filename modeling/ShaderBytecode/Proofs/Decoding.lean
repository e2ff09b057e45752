import Mathlib.Algebra.Group.Int.Defs
import Mathlib.Algebra.Group.Nat.Defs
import ShaderBytecode.Listing

/-!
# Decoding reads back what encoding wrote

A reading step that is given the bytes of a value, whatever follows them, returns the value and
stands behind the bytes. This is shown for every operand, then for instructions, and from it for
whole codes: their listing is the list of their instructions at the running sums of their sizes.
-/

namespace ShaderBytecode

namespace Decode

variable {α β : Type}

/-- A reading step takes `bytes` for `value`, wherever they stand and whatever follows them. -/
def Reads (step : Decode α) (bytes : List UInt8) (value : α) : Prop :=
  ∀ position rest,
    step.run ⟨position, bytes ++ rest⟩ = .ok value ⟨position + bytes.length, rest⟩

theorem reads_pure (value : α) : Reads (pure value) [] value := by
  intro position rest
  rfl

variable {a : α} {bytes : List UInt8}

theorem Reads.bind {step : Decode α} {f : α → Decode β} {first second : List UInt8} {b : β}
    (h : Reads step first a) (h' : Reads (f a) second b) :
    Reads (step >>= f) (first ++ second) b := by
  intro position rest
  rw [EStateM.run_bind, List.append_assoc, h position (second ++ rest)]
  rw [List.length_append, ← Nat.add_assoc]
  exact h' (position + first.length) rest

theorem Reads.map {step : Decode α} (h : Reads step bytes a) (g : α → β) :
    Reads (do return g (← step)) bytes (g a) := by
  have hbind := h.bind (f := fun a => pure (g a)) (reads_pure (g a))
  rwa [List.append_nil] at hbind

theorem byte_reads (b : UInt8) : Reads byte [b] b := by
  intro position rest
  rfl

theorem reads_of_position {step : Nat → Decode α} (h : ∀ here, Reads (step here) bytes a) :
    Reads (position >>= step) bytes a := by
  intro p rest
  exact h p p rest

/-! ## Numbers -/

theorem word_value (n : Nat) (h : n < 4294967296) :
    n % 256 + 256 * (n / 256 % 256 + 256 * (n / 65536 % 256 + 256 * (n / 16777216))) = n := by
  omega

theorem word_reads (n : UInt32) : Reads word (wordBytes n) n := by
  intro position rest
  have hn : n.toNat < 4294967296 := n.toNat_lt
  have hvalue := word_value n.toNat hn
  have htop : n.toNat / 16777216 % 256 = n.toNat / 16777216 := by omega
  have hword : word.run ⟨position, wordBytes n ++ rest⟩ =
      .ok (.ofNat ((UInt8.ofNat (n.toNat % 256)).toNat
        + 256 * ((UInt8.ofNat (n.toNat / 256 % 256)).toNat
        + 256 * ((UInt8.ofNat (n.toNat / 65536 % 256)).toNat
        + 256 * (UInt8.ofNat (n.toNat / 16777216)).toNat)))) ⟨position + 4, rest⟩ := rfl
  rw [hword]
  simp only [UInt8.toNat_ofNat', Nat.reducePow, Nat.mod_mod, htop, hvalue, UInt32.ofNat_toNat]
  rfl

theorem unsignedWithin_reads_last (more n : Nat) (h : n < 128) (hfit : n < 16 ∨ more ≠ 0) :
    Reads (unsignedWithin more) [.ofNat n] n := by
  have hbyte : (UInt8.ofNat n).toNat = n :=
    UInt8.toNat_ofNat_of_lt' (by simp only [UInt8.size]; omega)
  intro position rest
  cases more with
  | zero =>
    have hlt : UInt8.ofNat n < 16 := by
      rw [UInt8.lt_iff_toNat_lt, hbyte]
      exact hfit.resolve_right (fun hne => hne rfl)
    have hstep : (unsignedWithin 0).run ⟨position, [UInt8.ofNat n] ++ rest⟩ =
        (if UInt8.ofNat n < 16 then pure (UInt8.ofNat n).toNat
          else fail position (if 128 ≤ UInt8.ofNat n then .tooLong false else .tooLarge false) :
          Decode Nat).run ⟨position + 1, rest⟩ := rfl
    rw [hstep, if_pos hlt, hbyte]
    rfl
  | succ more =>
    have hlt : UInt8.ofNat n < 128 := by
      rw [UInt8.lt_iff_toNat_lt, hbyte]
      exact h
    have hstep : (unsignedWithin (more + 1)).run ⟨position, [UInt8.ofNat n] ++ rest⟩ =
        (if UInt8.ofNat n < 128 then pure (UInt8.ofNat n).toNat
          else do
            let high ← unsignedWithin more
            return (UInt8.ofNat n).toNat - 128 + 128 * high :
          Decode Nat).run ⟨position + 1, rest⟩ := rfl
    rw [hstep, if_pos hlt, hbyte]
    rfl

/-- A byte from 128 on is followed by the rest of an unsigned number. -/
theorem unsignedWithin_reads_more {more high : Nat} (b : UInt8) (h : 128 ≤ b.toNat)
    (hrest : Reads (unsignedWithin more) bytes high) :
    Reads (unsignedWithin (more + 1)) (b :: bytes) (b.toNat - 128 + 128 * high) := by
  have hge : ¬b < 128 := by
    rw [UInt8.lt_iff_toNat_lt]
    exact Nat.not_lt.mpr h
  have htail := hrest.map fun high => b.toNat - 128 + 128 * high
  have hread := (byte_reads b).bind
    (f := fun b => if b < 128 then pure b.toNat else do
      let high ← unsignedWithin more
      return b.toNat - 128 + 128 * high)
    (by rw [if_neg hge]; exact htail)
  exact hread

/-- An unsigned number that fits is read back; the limit on its bytes is the limit on its size. -/
theorem unsignedWithin_reads (more n : Nat) (h : n < 16 * 128 ^ more) :
    Reads (unsignedWithin more) (Leb128.unsignedWithin (more + 1) n) n := by
  induction more generalizing n with
  | zero =>
    have hlt : n < 128 := by omega
    rw [Leb128.unsignedWithin, if_pos hlt]
    exact unsignedWithin_reads_last 0 n hlt (.inl (by omega))
  | succ more ih =>
    rw [Leb128.unsignedWithin]
    by_cases hlt : n < 128
    · rw [if_pos hlt]
      exact unsignedWithin_reads_last (more + 1) n hlt (.inr (by omega))
    · rw [if_neg hlt]
      have hhigh : n / 128 < 16 * 128 ^ more := by
        rw [Nat.pow_succ] at h
        omega
      have hbyte : (UInt8.ofNat (n % 128 + 128)).toNat = n % 128 + 128 :=
        UInt8.toNat_ofNat_of_lt' (by simp only [UInt8.size]; omega)
      have hreads := unsignedWithin_reads_more _ (by rw [hbyte]; omega) (ih _ hhigh)
      rwa [hbyte, Nat.add_sub_cancel, Nat.mod_add_div n 128] at hreads

theorem unsigned_reads (n : UInt32) : Reads unsigned (Leb128.unsigned n) n := by
  have hn : n.toNat < 16 * 128 ^ 4 := n.toNat_lt
  have hreads := (unsignedWithin_reads 4 n.toNat hn).map UInt32.ofNat
  rwa [UInt32.ofNat_toNat] at hreads

/-- A small byte ends a signed number; its second highest bit is the sign. -/
theorem signedWithin_reads_last (more : Nat) (n : Int) (h : -64 ≤ n ∧ n < 64)
    (hfit : (-8 ≤ n ∧ n < 8) ∨ more ≠ 0) :
    Reads (signedWithin more) [.ofNat (n % 128).toNat] n := by
  have hbyte : (UInt8.ofNat (n % 128).toNat).toNat = (n % 128).toNat :=
    UInt8.toNat_ofNat_of_lt' (by simp only [UInt8.size]; omega)
  generalize hb : UInt8.ofNat (n % 128).toNat = b at hbyte
  intro position rest
  cases more with
  | zero =>
    have hn := hfit.resolve_right (fun hne => hne rfl)
    have hstep : (signedWithin 0).run ⟨position, [b] ++ rest⟩ =
        (if b < 8 then pure (b.toNat : Int)
          else if 120 ≤ b ∧ b < 128 then pure ((b.toNat : Int) - 128)
          else fail position (if 128 ≤ b then .tooLong true else .tooLarge true) :
          Decode Int).run ⟨position + 1, rest⟩ := rfl
    rw [hstep]
    simp only [UInt8.lt_iff_toNat_lt, UInt8.le_iff_toNat_le, UInt8.toNat_ofNat, Nat.reducePow,
      Nat.reduceMod, hbyte]
    by_cases hsign : 0 ≤ n
    · rw [if_pos (by omega), show ((n % 128).toNat : Int) = n by omega]
      rfl
    · rw [if_neg (by omega), if_pos (by omega), show ((n % 128).toNat : Int) - 128 = n by omega]
      rfl
  | succ more =>
    have hstep : (signedWithin (more + 1)).run ⟨position, [b] ++ rest⟩ =
        (if b < 64 then pure (b.toNat : Int)
          else if b < 128 then pure ((b.toNat : Int) - 128)
          else do
            let high ← signedWithin more
            return (b.toNat : Int) - 128 + 128 * high :
          Decode Int).run ⟨position + 1, rest⟩ := rfl
    rw [hstep]
    simp only [UInt8.lt_iff_toNat_lt, UInt8.toNat_ofNat, Nat.reducePow, Nat.reduceMod, hbyte]
    by_cases hsign : 0 ≤ n
    · rw [if_pos (by omega), show ((n % 128).toNat : Int) = n by omega]
      rfl
    · rw [if_neg (by omega), if_pos (by omega), show ((n % 128).toNat : Int) - 128 = n by omega]
      rfl

/-- A byte from 128 on is followed by the rest of a signed number. -/
theorem signedWithin_reads_more {more : Nat} {high : Int} (b : UInt8) (h : 128 ≤ b.toNat)
    (hrest : Reads (signedWithin more) bytes high) :
    Reads (signedWithin (more + 1)) (b :: bytes) ((b.toNat : Int) - 128 + 128 * high) := by
  have hge : ¬b < 64 := by
    rw [UInt8.lt_iff_toNat_lt]
    exact Nat.not_lt.mpr (Nat.le_trans (by decide) h)
  have hge' : ¬b < 128 := by
    rw [UInt8.lt_iff_toNat_lt]
    exact Nat.not_lt.mpr h
  have htail := hrest.map fun high => (b.toNat : Int) - 128 + 128 * high
  have hread := (byte_reads b).bind
    (f := fun b => if b < 64 then pure (b.toNat : Int)
      else if b < 128 then pure ((b.toNat : Int) - 128)
      else do
        let high ← signedWithin more
        return (b.toNat : Int) - 128 + 128 * high)
    (by rw [if_neg hge, if_neg hge']; exact htail)
  exact hread

theorem signedWithin_reads (more : Nat) (n : Int) (h : -(8 * 128 ^ more) ≤ n ∧ n < 8 * 128 ^ more) :
    Reads (signedWithin more) (Leb128.signedWithin (more + 1) n) n := by
  induction more generalizing n with
  | zero =>
    have hsmall : -64 ≤ n ∧ n < 64 := by omega
    rw [Leb128.signedWithin, if_pos hsmall]
    exact signedWithin_reads_last 0 n hsmall (.inl (by omega))
  | succ more ih =>
    rw [Leb128.signedWithin]
    by_cases hsmall : -64 ≤ n ∧ n < 64
    · rw [if_pos hsmall]
      exact signedWithin_reads_last (more + 1) n hsmall (.inr (by omega))
    · rw [if_neg hsmall]
      have hhigh : -(8 * 128 ^ more) ≤ n / 128 ∧ n / 128 < 8 * 128 ^ more := by
        rw [Int.pow_succ] at h
        omega
      have hbyte : (UInt8.ofNat ((n % 128).toNat + 128)).toNat = (n % 128).toNat + 128 :=
        UInt8.toNat_ofNat_of_lt' (by simp only [UInt8.size]; omega)
      have hvalue : (((n % 128).toNat + 128 : Nat) : Int) - 128 + 128 * (n / 128) = n := by omega
      have hreads := signedWithin_reads_more _ (by rw [hbyte]; omega) (ih _ hhigh)
      rwa [hbyte, hvalue] at hreads

theorem signed_reads (n : Int32) : Reads signed (Leb128.signed n) n := by
  have hn : -(8 * 128 ^ 4) ≤ n.toInt ∧ n.toInt < 8 * 128 ^ 4 := ⟨n.le_toInt, n.toInt_lt⟩
  have hreads := (signedWithin_reads 4 n.toInt hn).map Int32.ofInt
  rwa [Int32.ofInt_toInt] at hreads

/-! ## Other operands -/

theorem bool_reads (offset : Nat) (b : Bool) : Reads (bool offset) [if b then 1 else 0] b := by
  intro position rest
  cases b <;> rfl

theorem scalar_reads (offset : Nat) (kind : ScalarKind) :
    Reads (scalar offset) [kind.byte] kind := by
  intro position rest
  cases kind <;> rfl

theorem componentList_reads (offset : Nat) (components : List UInt8) (h : ∀ c ∈ components, c ≤ 3) :
    Reads (componentList offset components.length) components components := by
  induction components with
  | nil => exact reads_pure []
  | cons c rest ih =>
    have hc : ¬3 < c := by
      rw [UInt8.lt_iff_toNat_lt]
      exact Nat.not_lt.mpr (UInt8.le_iff_toNat_le.mp (h c (List.mem_cons_self ..)))
    have hrest := ih fun c hmem => h c (List.mem_cons_of_mem _ hmem)
    have hread := (byte_reads c).bind
      (f := fun b => if 3 < b then fail offset (.componentRange b)
        else do return b :: (← componentList offset rest.length))
      (by rw [if_neg hc]; exact hrest.map (c :: ·))
    exact hread

theorem components_reads (offset : Nat) (components : List UInt8)
    (hlength : 1 ≤ components.length ∧ components.length ≤ 4) (h : ∀ c ∈ components, c ≤ 3) :
    Reads (Decode.components offset) (.ofNat components.length :: components) components := by
  have hcount : (UInt8.ofNat components.length).toNat = components.length :=
    UInt8.toNat_ofNat_of_lt' (by simp only [UInt8.size]; omega)
  have hlist := componentList_reads offset components h
  generalize UInt8.ofNat components.length = count at hcount
  rw [← hcount] at hlist hlength
  have hvalid : ¬(count = 0 ∨ 4 < count) := by
    rw [UInt8.lt_iff_toNat_lt, ← UInt8.toNat_inj]
    simp only [UInt8.reduceToNat]
    omega
  have hread := (byte_reads count).bind
    (f := fun b => if b = 0 ∨ 4 < b then fail offset (.componentCount b)
      else componentList offset b.toNat)
    (by rw [if_neg hvalid]; exact hlist)
  exact hread

theorem typeCode_length_pos (type : TypeCode) : 0 < type.encode.length := by
  cases type <;> simp [TypeCode.encode]

/-- A type code is read back within as many levels as it has bytes. -/
theorem typeCodeWithin_reads (offset : Nat) (type : TypeCode) (left : Nat)
    (h : type.encode.length ≤ left + 1) :
    Reads (typeCodeWithin offset (left + 1)) type.encode type := by
  induction type generalizing left with
  | void =>
    intro position rest
    rfl
  | sampler2D =>
    intro position rest
    rfl
  | scalar kind => exact (byte_reads 1).bind ((scalar_reads offset kind).map TypeCode.scalar)
  | vector kind size =>
    exact (byte_reads 2).bind
      ((scalar_reads offset kind).bind ((byte_reads size).map (TypeCode.vector kind)))
  | matrix columns rows =>
    exact (byte_reads 3).bind
      ((byte_reads columns).bind ((byte_reads rows).map (TypeCode.matrix columns)))
  | struct index => exact (byte_reads 5).bind ((unsigned_reads index).map TypeCode.struct)
  | array element length ih =>
    have hpos := typeCode_length_pos element
    have hleft : element.encode.length ≤ left := by
      simp only [TypeCode.encode, List.length_cons, List.length_append] at h
      omega
    obtain ⟨left, rfl⟩ := Nat.exists_eq_succ_of_ne_zero (by omega : left ≠ 0)
    exact (byte_reads 6).bind
      ((unsigned_reads length).bind ((ih left hleft).map (TypeCode.array · length)))

theorem typeCode_reads (offset : Nat) (type : TypeCode) :
    Reads (typeCode offset) type.encode type := by
  intro position rest
  have hpos := typeCode_length_pos type
  obtain ⟨left, hleft⟩ : ∃ left, (type.encode ++ rest).length = left + 1 :=
    Nat.exists_eq_succ_of_ne_zero (by rw [List.length_append]; omega)
  have hrun : (typeCode offset).run ⟨position, type.encode ++ rest⟩ =
      (typeCodeWithin offset (type.encode ++ rest).length).run ⟨position, type.encode ++ rest⟩ :=
    rfl
  rw [hrun, hleft]
  refine typeCodeWithin_reads offset type left ?_ position rest
  rw [← hleft, List.length_append]
  exact Nat.le_add_right _ _

end Decode

/-! ## Instructions and whole codes -/

theorem Opcode.ofByte?_byte (opcode : Opcode) : Opcode.ofByte? opcode.byte = some opcode := by
  cases opcode with
  | simple op => cases op <;> rfl
  | indexed op => cases op <;> rfl
  | select op => cases op <;> rfl
  | jump condition => cases condition <;> rfl
  | call kind => cases kind <;> rfl
  | pushInt => rfl
  | pushFloat => rfl
  | pushBool => rfl
  | construct => rfl

/-- An instruction that a reader accepts: a selection names one to four components, each of them
one of the four. -/
def Instruction.WellFormed : Instruction → Prop
  | .select _ components =>
    (1 ≤ components.length ∧ components.length ≤ 4) ∧ ∀ c ∈ components, c ≤ 3
  | _ => True

namespace Decode

theorem operands_reads (offset : Nat) (i : Instruction) (h : i.WellFormed) :
    Reads (operands offset i.opcode) i.encodeOperands i := by
  cases i with
  | simple op => exact reads_pure _
  | indexed op index => exact (unsigned_reads index).map (Instruction.indexed op)
  | pushInt value => exact (signed_reads value).map Instruction.pushInt
  | pushFloat value => exact (word_reads value.bits).map fun bits => Instruction.pushFloat ⟨bits⟩
  | pushBool value => exact (bool_reads offset value).map Instruction.pushBool
  | select op components =>
    exact (components_reads offset components h.1 h.2).map (Instruction.select op)
  | construct type arguments =>
    exact (typeCode_reads offset type).bind
      ((unsigned_reads arguments).map (Instruction.construct type))
  | jump condition target => exact (word_reads target).map (Instruction.jump condition)
  | call kind callee arguments =>
    exact (unsigned_reads callee).bind
      ((unsigned_reads arguments).map (Instruction.call kind callee))

theorem instruction_reads (i : Instruction) (h : i.WellFormed) : Reads instruction i.encode i := by
  refine reads_of_position fun offset => ?_
  refine (byte_reads i.opcode.byte).bind ?_
  rw [Opcode.ofByte?_byte]
  exact operands_reads offset i h

end Decode

def entriesFrom : (position : Nat) → List Instruction → List Entry
  | _, [] => []
  | position, i :: rest => ⟨position, i⟩ :: entriesFrom (position + i.size) rest

theorem Instruction.size_pos (i : Instruction) : 0 < i.size := by
  simp [Instruction.size, Instruction.encode]

/-- A code is read back from its bytes, if as many instructions may be read as it has. -/
theorem readEntries_encodeAll (count position : Nat) (code : List Instruction)
    (hcount : code.length ≤ count) (h : ∀ i ∈ code, i.WellFormed) :
    readEntries count ⟨position, encodeAll code⟩ = .ok (entriesFrom position code) := by
  induction code generalizing count position with
  | nil => cases count <;> rfl
  | cons i rest ih =>
    have hpos : 0 < count := Nat.lt_of_lt_of_le (Nat.succ_pos _) hcount
    obtain ⟨count, rfl⟩ := Nat.exists_eq_succ_of_ne_zero (Nat.ne_of_gt hpos)
    have hread := Decode.instruction_reads i (h i (List.mem_cons_self ..)) position (encodeAll rest)
    have hnext : Reader.next?.run ⟨position, encodeAll (i :: rest)⟩ =
        .ok (some (position, i)) ⟨position + i.size, encodeAll rest⟩ := by
      have hstep : Reader.next?.run ⟨position, encodeAll (i :: rest)⟩ =
          (do return some (position, ← Decode.instruction)).run
            ⟨position, i.encode ++ encodeAll rest⟩ := rfl
      rw [hstep, EStateM.run_bind, hread]
      rfl
    have hrest := ih count (position + i.size) (Nat.le_of_succ_le_succ hcount)
      fun i hmem => h i (List.mem_cons_of_mem _ hmem)
    rw [readEntries, hnext]
    simp only [hrest]
    rfl

theorem sizeAll_code_append (first second : List Instruction) :
    sizeAll (first ++ second) = sizeAll first + sizeAll second := by
  induction first with
  | nil => exact (Nat.zero_add _).symm
  | cons i rest ih => rw [List.cons_append, sizeAll, sizeAll, ih, Nat.add_assoc]

theorem entriesFrom_append (p : Nat) (first second : List Instruction) :
    entriesFrom p (first ++ second) =
      entriesFrom p first ++ entriesFrom (p + sizeAll first) second := by
  induction first generalizing p with
  | nil => rfl
  | cons i rest ih =>
    rw [List.cons_append, entriesFrom, entriesFrom, ih, sizeAll, Nat.add_assoc, List.cons_append]

theorem map_instruction_entriesFrom (p : Nat) (code : List Instruction) :
    (entriesFrom p code).map Entry.instruction = code := by
  induction code generalizing p with
  | nil => rfl
  | cons i rest ih => rw [entriesFrom, List.map_cons, ih]

variable {code : List Instruction} {offset : Nat}

theorem mem_entriesFrom {p : Nat} {e : Entry} :
    e ∈ entriesFrom p code ↔ ∃ before after, code = before ++ e.instruction :: after
      ∧ e.offset = p + sizeAll before := by
  induction code generalizing p with
  | nil => simp [entriesFrom]
  | cons i rest ih =>
    rw [entriesFrom, List.mem_cons, ih]
    constructor
    · rintro (rfl | ⟨before, after, rfl, hoffset⟩)
      · exact ⟨[], rest, rfl, rfl⟩
      · exact ⟨i :: before, after, rfl, by rw [hoffset, sizeAll, Nat.add_assoc]⟩
    · rintro ⟨before, after, hcode, hoffset⟩
      cases before with
      | nil =>
        obtain ⟨rfl, rfl⟩ := List.cons.inj hcode
        exact .inl (by cases e; cases hoffset; rfl)
      | cons j before =>
        obtain ⟨rfl, rfl⟩ := List.cons.inj hcode
        exact .inr ⟨before, after, rfl, by rw [hoffset, sizeAll, Nat.add_assoc]⟩

theorem entriesFrom_bounds {p : Nat} {e : Entry} (h : e ∈ entriesFrom p code) :
    p ≤ e.offset ∧ e.offset + e.instruction.size ≤ p + sizeAll code := by
  obtain ⟨before, after, rfl, hoffset⟩ := mem_entriesFrom.mp h
  rw [sizeAll_code_append, sizeAll]
  omega

theorem length_le_sizeAll (code : List Instruction) : code.length ≤ sizeAll code := by
  induction code with
  | nil => exact Nat.le_refl 0
  | cons i rest ih =>
    have hsize := i.size_pos
    rw [List.length_cons, sizeAll]
    omega

/-- An offset among sorted ones is found. -/
theorem bisect_eq {offsets : Array Nat} {k base size : Nat} (h : offsets[k]? = some offset)
    (hsorted : offsets.toList.Pairwise (· < ·)) (hbase : base ≤ k) (hsize : k < base + size)
    (hstop : base + size ≤ offsets.size) : bisect offsets offset base size = k := by
  obtain ⟨hk, rfl⟩ := Array.getElem?_eq_some_iff.mp h
  have hless : ∀ i j (hi : i < offsets.size) (hj : j < offsets.size), i < j →
      offsets[i] < offsets[j] := fun i j hi hj => List.pairwise_iff_getElem.mp hsorted i j hi hj
  fun_induction bisect offsets offsets[k] base size with
  | case1 base size hone => omega
  | case2 base size hone half next ih =>
    have hhalf : half = size / 2 := rfl
    have hmiddle : base + half < offsets.size := by omega
    have hget : offsets.getD (base + half) 0 = offsets[base + half] := by
      simp only [Array.getD, hmiddle, dite_true]
      rfl
    by_cases hbelow : offsets[k] < offsets[base + half]
    · -- a later place than the middle would hold a larger offset
      have hnext : next = base := dif_pos (hget.symm ▸ hbelow)
      have hleft : k < base + half := by
        refine Nat.lt_of_not_le fun hle => ?_
        obtain hlt | heq := Nat.lt_or_eq_of_le hle
        · have hmore := hless (base + half) k hmiddle hk hlt
          omega
        · simp only [heq, Nat.lt_irrefl] at hbelow
      exact ih (by omega) (by omega) (by omega)
    · have hnext : next = base + half := dif_neg (hget.symm ▸ hbelow)
      have hright : base + half ≤ k :=
        Nat.le_of_not_lt fun hlt => hbelow (hless k (base + half) hk hmiddle hlt)
      exact ih (by omega) (by omega) (by omega)

theorem exists_of_isInstructionStart {entries : List Entry}
    (h : isInstructionStart entries offset = true) : ∃ e ∈ entries, e.offset = offset := by
  have hmem := Array.mem_of_getElem? (of_decide_eq_true h)
  simpa using hmem

theorem isInstructionStart_iff {entries : List Entry}
    (hsorted : entries.Pairwise (·.offset < ·.offset)) :
    isInstructionStart entries offset = true ↔ ∃ e ∈ entries, e.offset = offset := by
  refine ⟨exists_of_isInstructionStart, ?_⟩
  rintro ⟨e, he, rfl⟩
  obtain ⟨k, hk⟩ := List.mem_iff_getElem?.mp he
  have hget : (entries.map (·.offset)).toArray[k]? = some e.offset := by
    rw [List.getElem?_toArray, List.getElem?_map, hk]
    rfl
  have hplace := bisect_eq hget (List.pairwise_map.mpr hsorted) (Nat.zero_le k)
    (Nat.zero_add _ ▸ (Array.getElem?_eq_some_iff.mp hget).1) (Nat.le_of_eq (Nat.zero_add _))
  rw [isInstructionStart, decide_eq_true_iff, hplace, hget]

theorem pairwise_entriesFrom (p : Nat) (code : List Instruction) :
    (entriesFrom p code).Pairwise (·.offset < ·.offset) := by
  induction code generalizing p with
  | nil => exact .nil
  | cons i rest ih =>
    refine List.pairwise_cons.mpr ⟨fun e he => ?_, ih (p + i.size)⟩
    have hsize := i.size_pos
    have hbounds := entriesFrom_bounds he
    show p < e.offset
    omega

/-- A code whose jumps lead to its end or to instructions has a listing. -/
theorem disassemble_encodeAll (h : ∀ i ∈ code, i.WellFormed)
    (hjumps : ∀ i ∈ code, ∀ target ∈ i.jumpTarget?, target.toNat = sizeAll code
      ∨ isInstructionStart (entriesFrom 0 code) target.toNat = true) :
    disassemble (encodeAll code) = .ok (entriesFrom 0 code) := by
  have hread : readEntries (encodeAll code).length (.ofBytes (encodeAll code)) =
      .ok (entriesFrom 0 code) := by
    refine readEntries_encodeAll _ 0 code ?_ h
    rw [length_encodeAll]
    exact length_le_sizeAll code
  have hgood : badJump? (entriesFrom 0 code) (encodeAll code).length = none := by
    refine List.findSome?_eq_none_iff.mpr fun e he => ?_
    cases htarget : e.instruction.jumpTarget? with
    | none => rfl
    | some target =>
      obtain ⟨before, after, hcode, -⟩ := mem_entriesFrom.mp he
      have hmem : e.instruction ∈ code := by simp [hcode]
      rw [length_encodeAll]
      obtain hend | hstart := hjumps e.instruction hmem target htarget
      · simp [hend]
      · simp [hstart]
  rw [disassemble, hread]
  simp only [bind, Except.bind, hgood]
  rfl

end ShaderBytecode
