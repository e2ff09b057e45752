import Mathlib.Logic.Function.Iterate
import ShaderBytecode.Proofs.Decoding

/-!
# What reading steps take

A reading step is run on arbitrary bytes. If it succeeds it has taken bytes that write its value,
where LEB128 numbers may be padded. If it fails it has moved forward all the same, by no more than
there is, and reports an offset between the place it counts from and the end.
-/

namespace ShaderBytecode

/-! ## Written forms -/

namespace Leb128

/-- Bytes write a number in groups of seven bits, least significant first. Groups of zeros at the
end are allowed. -/
inductive Groups : List UInt8 → Nat → Prop
  | last {b : UInt8} (h : b.toNat < 128) : Groups [b] b.toNat
  | more {b : UInt8} {bytes : List UInt8} {high : Nat} (h : 128 ≤ b.toNat)
      (rest : Groups bytes high) : Groups (b :: bytes) (b.toNat - 128 + 128 * high)

/-- Bytes write an integer. The second highest bit of the last byte is the sign. -/
inductive SignedGroups : List UInt8 → Int → Prop
  | last {b : UInt8} (h : b.toNat < 64) : SignedGroups [b] b.toNat
  | negative {b : UInt8} (h : 64 ≤ b.toNat) (h' : b.toNat < 128) :
      SignedGroups [b] ((b.toNat : Int) - 128)
  | more {b : UInt8} {bytes : List UInt8} {high : Int} (h : 128 ≤ b.toNat)
      (rest : SignedGroups bytes high) :
      SignedGroups (b :: bytes) ((b.toNat : Int) - 128 + 128 * high)

def Writes (bytes : List UInt8) (n : UInt32) : Prop :=
  Groups bytes n.toNat

def WritesSigned (bytes : List UInt8) (n : Int32) : Prop :=
  SignedGroups bytes n.toInt

end Leb128

section Written

variable (U : List UInt8 → UInt32 → Prop) (S : List UInt8 → Int32 → Prop)

/-- Bytes write a type code, where the numbers in it are written in a certain way. -/
def TypeCode.Written : TypeCode → List UInt8 → Prop
  | struct index, bytes => ∃ number, bytes = 5 :: number ∧ U number index
  | array element length, bytes =>
    ∃ number rest, bytes = 6 :: (number ++ rest) ∧ U number length ∧ element.Written rest
  | type, bytes => bytes = type.encode

/-- Bytes write the operands of an instruction, where numbers are written in certain ways. -/
def Instruction.WrittenOperands : Instruction → List UInt8 → Prop
  | indexed _ index, bytes => U bytes index
  | pushInt value, bytes => S bytes value
  | construct type arguments, bytes =>
    ∃ first second, bytes = first ++ second ∧ type.Written U first ∧ U second arguments
  | call _ callee arguments, bytes =>
    ∃ first second, bytes = first ++ second ∧ U first callee ∧ U second arguments
  | i, bytes => bytes = i.encodeOperands

/-- Bytes write an instruction, where the LEB128 numbers in it are written in certain ways. -/
def Instruction.Written (i : Instruction) (bytes : List UInt8) : Prop :=
  ∃ operands, bytes = i.opcode.byte :: operands ∧ i.WrittenOperands U S operands

end Written

/-! ## Steps -/

/-- A reader has passed bytes. -/
def Reader.Passes (r : Reader) (bytes : List UInt8) (r' : Reader) : Prop :=
  r.rest = bytes ++ r'.rest ∧ r'.position = r.position + bytes.length

def Reader.stop (r : Reader) : Nat :=
  r.position + r.rest.length

theorem Reader.Passes.trans {r r' r'' : Reader} {first second : List UInt8}
    (h : r.Passes first r') (h' : r'.Passes second r'') : r.Passes (first ++ second) r'' := by
  refine ⟨by rw [h.1, h'.1, List.append_assoc], ?_⟩
  rw [h'.2, h.2, List.length_append, Nat.add_assoc]

theorem Reader.Passes.stop_eq {r r' : Reader} {bytes : List UInt8} (h : r.Passes bytes r') :
    r'.stop = r.stop := by
  rw [stop, stop, h.1, h.2, List.length_append, Nat.add_assoc]

namespace Decode

variable {α β : Type} {low : Nat}

/-- From an offset on, a step that succeeds has passed bytes that are related to its value, and one
that fails has passed some bytes too. A fault is reported between the offset and the end. -/
def Meets (low : Nat) (step : Decode α) (P : List UInt8 → α → Prop) : Prop :=
  ∀ r, low ≤ r.position → match step.run r with
    | .ok a r' => ∃ bytes, r.Passes bytes r' ∧ P bytes a
    | .error e r' => (∃ bytes, r.Passes bytes r') ∧ low ≤ e.offset ∧ e.offset ≤ r.stop

section Rules

variable {P : List UInt8 → α → Prop} {Q : List UInt8 → β → Prop} {step : Decode α}

theorem meets_pure {a : α} (h : P [] a) : Meets low (pure a) P := by
  intro r _
  exact ⟨[], ⟨rfl, rfl⟩, h⟩

theorem meets_fail {fault : DecodeFault} : Meets low (fail low fault) P := by
  intro r hr
  exact ⟨⟨[], rfl, rfl⟩, Nat.le_refl low, Nat.le_add_right_of_le hr⟩

theorem Meets.passes (h : Meets low step P) {r r' : Reader} {a : α} (hr : low ≤ r.position)
    (hrun : step.run r = .ok a r') : ∃ bytes, r.Passes bytes r' ∧ P bytes a := by
  have hstep := h r hr
  rw [hrun] at hstep
  exact hstep

theorem Meets.bind {f : α → Decode β} (h : Meets low step P)
    (h' : ∀ bytes a, P bytes a → Meets low (f a) fun more b => Q (bytes ++ more) b) :
    Meets low (step >>= f) Q := by
  intro r hr
  have hstep := h r hr
  rw [EStateM.run_bind]
  cases hrun : step.run r with
  | error e r' =>
    rw [hrun] at hstep
    exact hstep
  | ok a r' =>
    rw [hrun] at hstep
    obtain ⟨bytes, hpass, ha⟩ := hstep
    have hrest := h' bytes a ha r' (by rw [hpass.2]; omega)
    simp only
    -- what the second step passes stands behind what the first one has passed
    cases hrun' : (f a).run r' with
    | ok b r'' =>
      rw [hrun'] at hrest
      obtain ⟨more, hpass', hb⟩ := hrest
      exact ⟨bytes ++ more, hpass.trans hpass', hb⟩
    | error e r'' =>
      rw [hrun'] at hrest
      obtain ⟨⟨more, hpass'⟩, hlow, hstop⟩ := hrest
      exact ⟨⟨bytes ++ more, hpass.trans hpass'⟩, hlow, hpass.stop_eq ▸ hstop⟩

theorem Meets.map {g : α → β} (h : Meets low step P) (h' : ∀ bytes a, P bytes a → Q bytes (g a)) :
    Meets low (do return g (← step)) Q :=
  h.bind fun bytes a ha => meets_pure (by rw [List.append_nil]; exact h' bytes a ha)

theorem meets_position {f : Nat → Decode α} (h : ∀ here, Meets here (f here) P) :
    Meets low (position >>= f) P := by
  intro r hr
  have hstep := h r.position r (Nat.le_refl _)
  show match (f r.position).run r with
    | .ok a r' => _
    | .error e r' => _
  split
  · rename_i hrun
    rw [hrun] at hstep
    exact hstep
  · rename_i hrun
    rw [hrun] at hstep
    exact ⟨hstep.1, Nat.le_trans hr hstep.2.1, hstep.2.2⟩

end Rules

theorem byte_meets : Meets low byte fun bytes b => bytes = [b] := by
  rintro ⟨position, _ | ⟨b, rest⟩⟩ hr
  · exact ⟨⟨[], rfl, rfl⟩, hr, Nat.le_refl _⟩
  · exact ⟨[b], ⟨rfl, rfl⟩, rfl⟩

theorem wordBytes_ofNat (b₀ b₁ b₂ b₃ : UInt8) :
    wordBytes (.ofNat (b₀.toNat + 256 * (b₁.toNat + 256 * (b₂.toNat + 256 * b₃.toNat))))
      = [b₀, b₁, b₂, b₃] := by
  have h₀ := b₀.toNat_lt
  have h₁ := b₁.toNat_lt
  have h₂ := b₂.toNat_lt
  have h₃ := b₃.toNat_lt
  rw [wordBytes, UInt32.toNat_ofNat_of_lt' (by simp only [UInt32.size]; omega)]
  have hbyte : ∀ (b : UInt8) (n : Nat), n = b.toNat → UInt8.ofNat n = b := by
    rintro b _ rfl
    exact UInt8.ofNat_toNat
  rw [hbyte b₀ _ (by omega), hbyte b₁ _ (by omega), hbyte b₂ _ (by omega), hbyte b₃ _ (by omega)]

theorem word_meets : Meets low word fun bytes n => bytes = wordBytes n := by
  rintro ⟨position, rest⟩ hr
  rcases rest with _ | ⟨b₀, _ | ⟨b₁, _ | ⟨b₂, _ | ⟨b₃, rest⟩⟩⟩⟩
  case cons.cons.cons.cons =>
    exact ⟨[b₀, b₁, b₂, b₃], ⟨rfl, rfl⟩, (wordBytes_ofNat b₀ b₁ b₂ b₃).symm⟩
  all_goals exact ⟨⟨[], rfl, rfl⟩, hr, Nat.le_add_right _ _⟩

/-! ## Numbers -/

theorem unsignedWithin_meets (more : Nat) : Meets low (unsignedWithin more)
    fun bytes n => Leb128.Groups bytes n ∧ n < 16 * 128 ^ more := by
  induction more generalizing low with
  | zero =>
    refine meets_position fun here => byte_meets.bind ?_
    rintro _ b rfl
    split
    · rename_i hb
      have hsmall : b.toNat < 16 := UInt8.lt_iff_toNat_lt.mp hb
      exact meets_pure ⟨.last (by omega), by omega⟩
    · exact meets_fail
  | succ more ih =>
    refine byte_meets.bind ?_
    rintro _ b rfl
    split
    · rename_i hb
      have hsmall : b.toNat < 128 := UInt8.lt_iff_toNat_lt.mp hb
      refine meets_pure ⟨.last hsmall, ?_⟩
      have hpos := Nat.pow_pos (n := more) (show 0 < 128 by decide)
      rw [Nat.pow_succ]
      omega
    · rename_i hb
      have hlarge : 128 ≤ b.toNat := Nat.not_lt.mp fun h => hb (UInt8.lt_iff_toNat_lt.mpr h)
      refine ih.map fun bytes high hhigh => ⟨.more hlarge hhigh.1, ?_⟩
      have hb' := b.toNat_lt
      have hbound := hhigh.2
      rw [Nat.pow_succ]
      omega

theorem unsigned_meets : Meets low unsigned Leb128.Writes := by
  refine (unsignedWithin_meets 4).map fun bytes n hn => ?_
  show Leb128.Groups bytes (UInt32.ofNat n).toNat
  rw [UInt32.toNat_ofNat_of_lt' (by have := hn.2; simp only [UInt32.size]; omega)]
  exact hn.1

theorem signedWithin_meets (more : Nat) : Meets low (signedWithin more)
    fun bytes n => Leb128.SignedGroups bytes n ∧ -(8 * 128 ^ more) ≤ n ∧ n < 8 * 128 ^ more := by
  induction more generalizing low with
  | zero =>
    refine meets_position fun here => byte_meets.bind ?_
    rintro _ b rfl
    split
    · rename_i hb
      have hsmall : b.toNat < 8 := UInt8.lt_iff_toNat_lt.mp hb
      exact meets_pure ⟨.last (by omega), by omega, by omega⟩
    · split
      · rename_i hb
        have hlow : 120 ≤ b.toNat := UInt8.le_iff_toNat_le.mp hb.1
        have hhigh : b.toNat < 128 := UInt8.lt_iff_toNat_lt.mp hb.2
        exact meets_pure ⟨.negative (by omega) hhigh, by omega, by omega⟩
      · exact meets_fail
  | succ more ih =>
    have hpos : (0 : Int) < 128 ^ more := Int.pow_pos (by decide)
    refine byte_meets.bind ?_
    rintro _ b rfl
    split
    · rename_i hb
      have hsmall : b.toNat < 64 := UInt8.lt_iff_toNat_lt.mp hb
      refine meets_pure ⟨.last hsmall, ?_⟩
      rw [Int.pow_succ]
      omega
    · rename_i hb
      have hlow : 64 ≤ b.toNat := Nat.not_lt.mp fun h => hb (UInt8.lt_iff_toNat_lt.mpr h)
      split
      · rename_i hb'
        have hhigh : b.toNat < 128 := UInt8.lt_iff_toNat_lt.mp hb'
        refine meets_pure ⟨.negative hlow hhigh, ?_⟩
        rw [Int.pow_succ]
        omega
      · rename_i hb'
        have hlarge : 128 ≤ b.toNat := Nat.not_lt.mp fun h => hb' (UInt8.lt_iff_toNat_lt.mpr h)
        refine ih.map fun bytes high hhigh => ⟨.more hlarge hhigh.1, ?_⟩
        have hbyte := b.toNat_lt
        have hbounds := hhigh.2
        rw [Int.pow_succ]
        omega

theorem signed_meets : Meets low signed Leb128.WritesSigned := by
  refine (signedWithin_meets 4).map fun bytes n hn => ?_
  show Leb128.SignedGroups bytes (Int32.ofInt n).toInt
  have hbounds := hn.2
  rw [Int32.toInt_ofInt_of_le (by omega) (by omega)]
  exact hn.1

/-! ## Other operands -/

theorem bool_meets : Meets low (bool low) fun bytes b => bytes = [if b then 1 else 0] := by
  refine byte_meets.bind ?_
  rintro _ b rfl
  split
  · rename_i hb
    exact meets_pure (by rw [hb]; rfl)
  · split
    · rename_i hb
      exact meets_pure (by rw [hb]; rfl)
    · exact meets_fail

theorem scalar_meets : Meets low (scalar low) fun bytes kind => bytes = [kind.byte] := by
  refine byte_meets.bind ?_
  rintro _ b rfl
  split
  · exact meets_pure rfl
  · exact meets_pure rfl
  · exact meets_pure rfl
  · exact meets_fail

theorem componentList_meets (count : Nat) : Meets low (componentList low count)
    fun bytes components => bytes = components ∧ components.length = count
      ∧ ∀ c ∈ components, c ≤ 3 := by
  induction count with
  | zero => exact meets_pure ⟨rfl, rfl, List.forall_mem_nil _⟩
  | succ count ih =>
    refine byte_meets.bind ?_
    rintro _ c rfl
    split
    · exact meets_fail
    · rename_i hc
      refine ih.map ?_
      rintro _ rest ⟨rfl, hlength, hrest⟩
      exact ⟨rfl, congrArg (· + 1) hlength,
        List.forall_mem_cons.mpr ⟨UInt8.not_lt.mp hc, hrest⟩⟩

theorem components_meets : Meets low (components low)
    fun bytes components => bytes = .ofNat components.length :: components
      ∧ (1 ≤ components.length ∧ components.length ≤ 4) ∧ ∀ c ∈ components, c ≤ 3 := by
  refine byte_meets.bind ?_
  rintro _ count rfl
  split
  · exact meets_fail
  · rename_i hcount
    rw [UInt8.lt_iff_toNat_lt, ← UInt8.toNat_inj] at hcount
    simp only [UInt8.reduceToNat] at hcount
    intro r hr
    have hlist := componentList_meets count.toNat r hr
    split
    · rename_i hrun
      rw [hrun] at hlist
      obtain ⟨_, hpass, rfl, hlength, hrange⟩ := hlist
      refine ⟨_, hpass, ?_, by omega, hrange⟩
      rw [hlength, UInt8.ofNat_toNat]
      rfl
    · rename_i hrun
      rw [hrun] at hlist
      exact hlist

/-! ## Type codes -/

/-- One level of a type code, with a step that reads the elements of an array. -/
def typeLevel (offset : Nat) (element : Decode TypeCode) : Decode TypeCode := do
  let tag ← byte
  match tag with
  | 0 => return .void
  | 1 => return .scalar (← scalar offset)
  | 2 =>
    let kind ← scalar offset
    return .vector kind (← byte)
  | 3 =>
    let columns ← byte
    return .matrix columns (← byte)
  | 4 => return .sampler2D
  | 5 => return .struct (← unsigned)
  | 6 =>
    let length ← unsigned
    return .array (← element) length
  | _ => fail offset (.unknownType tag)

theorem typeCodeWithin_succ (offset left : Nat) :
    typeCodeWithin offset (left + 1) = typeLevel offset (typeCodeWithin offset left) :=
  rfl

theorem typeLevel_meets {element : Decode TypeCode}
    (h : Meets low element fun bytes type => type.Written Leb128.Writes bytes) :
    Meets low (typeLevel low element) fun bytes type => type.Written Leb128.Writes bytes := by
  refine byte_meets.bind ?_
  rintro _ tag rfl
  split
  · exact meets_pure rfl
  · refine scalar_meets.map ?_
    rintro _ kind rfl
    rfl
  · refine scalar_meets.bind ?_
    rintro _ kind rfl
    refine byte_meets.map ?_
    rintro _ size rfl
    rfl
  · refine byte_meets.bind ?_
    rintro _ columns rfl
    refine byte_meets.map ?_
    rintro _ rows rfl
    rfl
  · exact meets_pure rfl
  · exact unsigned_meets.map fun number index hindex => ⟨number, rfl, hindex⟩
  · refine unsigned_meets.bind fun number length hlength => ?_
    exact h.map fun rest element helement =>
      ⟨number, rest, by simp only [List.cons_append, List.nil_append], hlength, helement⟩
  · exact meets_fail

theorem typeCodeWithin_meets (left : Nat) : Meets low (typeCodeWithin low left)
    fun bytes type => type.Written Leb128.Writes bytes := by
  induction left with
  | zero => exact meets_position fun _ => meets_fail
  | succ left ih => exact typeLevel_meets ih

theorem typeCode_meets : Meets low (typeCode low)
    fun bytes type => type.Written Leb128.Writes bytes :=
  fun r hr => typeCodeWithin_meets r.rest.length r hr

theorem run_bind_congr {step : Decode α} {f g : α → Decode β} {r : Reader}
    (h : ∀ a r', step.run r = .ok a r' → (f a).run r' = (g a).run r') :
    (step >>= f).run r = (step >>= g).run r := by
  rw [EStateM.run_bind, EStateM.run_bind]
  split
  · exact h _ _ ‹_›
  · rfl

/-- A level of a type code depends on the step for the elements only behind the reader. -/
theorem typeLevel_congr {offset : Nat} {element element' : Decode TypeCode} {r : Reader}
    (h : ∀ r', r'.rest.length < r.rest.length → element.run r' = element'.run r') :
    (typeLevel offset element).run r = (typeLevel offset element').run r := by
  refine run_bind_congr fun tag r₁ hbyte => ?_
  split
  case h_7 =>
    refine run_bind_congr fun length r₂ hlength => ?_
    obtain ⟨_, hpass, rfl⟩ := byte_meets.passes (Nat.zero_le _) hbyte
    obtain ⟨number, hpass', -⟩ := unsigned_meets.passes (Nat.zero_le _) hlength
    have hless : r₂.rest.length < r.rest.length := by
      simp only [hpass.1, hpass'.1, List.length_append, List.length_singleton]
      omega
    rw [EStateM.run_bind, EStateM.run_bind, h r₂ hless]
  all_goals rfl

/-- More levels than there are bytes make no difference. -/
theorem typeCodeWithin_run (offset : Nat) {left : Nat} {r : Reader} (h : r.rest.length ≤ left) :
    (typeCodeWithin offset left).run r = (typeCode offset).run r := by
  suffices hlevels : ∀ left left' (r : Reader), r.rest.length ≤ left → r.rest.length ≤ left' →
      (typeCodeWithin offset left).run r = (typeCodeWithin offset left').run r from
    hlevels left r.rest.length r h (Nat.le_refl _)
  intro left
  induction left with
  | zero =>
    -- with no byte left both fail in the same way, whatever the limit
    intro left' r hr _
    obtain ⟨position, rest⟩ := r
    obtain rfl := List.eq_nil_of_length_eq_zero (Nat.le_zero.mp hr)
    cases left' <;> rfl
  | succ left ih =>
    intro left' r hr hr'
    cases left' with
    | zero =>
      obtain ⟨position, rest⟩ := r
      obtain rfl := List.eq_nil_of_length_eq_zero (Nat.le_zero.mp hr')
      rfl
    | succ left' =>
      exact typeLevel_congr fun r' hless => ih left' r' (by omega) (by omega)

theorem typeCode_eq (offset : Nat) : typeCode offset = typeLevel offset (typeCode offset) := by
  funext r
  show (typeCode offset).run r = (typeLevel offset (typeCode offset)).run r
  rw [← typeCodeWithin_run offset (Nat.le_succ r.rest.length), typeCodeWithin_succ]
  exact typeLevel_congr fun r' hless => typeCodeWithin_run offset (Nat.le_of_lt hless)

/-- The limit on the levels of a type code is never met: type codes are the only step that is a
level whose elements are read by the same step. -/
theorem eq_typeLevel_iff (offset : Nat) (step : Decode TypeCode) :
    step = typeLevel offset step ↔ step = typeCode offset := by
  refine ⟨fun h => ?_, fun h => by rw [h]; exact typeCode_eq offset⟩
  have hrun : ∀ count (r : Reader), r.rest.length < count →
      step.run r = (typeCode offset).run r := by
    intro count
    induction count with
    | zero => exact fun r hr => absurd hr (Nat.not_lt_zero _)
    | succ count ih =>
      intro r hr
      rw [h, typeCode_eq]
      exact typeLevel_congr fun r' hless => ih r' (by omega)
  funext r
  exact hrun (r.rest.length + 1) r (Nat.lt_succ_self _)

/-! ## Instructions -/

theorem operands_meets (opcode : Opcode) : Meets low (operands low opcode) fun bytes i =>
    i.opcode = opcode ∧ i.WrittenOperands Leb128.Writes Leb128.WritesSigned bytes
      ∧ i.WellFormed := by
  cases opcode with
  | simple op => exact meets_pure ⟨rfl, rfl, trivial⟩
  | indexed op => exact unsigned_meets.map fun bytes n hn => ⟨rfl, hn, trivial⟩
  | pushInt => exact signed_meets.map fun bytes n hn => ⟨rfl, hn, trivial⟩
  | pushFloat => exact word_meets.map fun bytes n hn => ⟨rfl, hn, trivial⟩
  | pushBool => exact bool_meets.map fun bytes b hb => ⟨rfl, hb, trivial⟩
  | select op =>
    exact components_meets.map fun bytes components h => ⟨rfl, h.1, h.2⟩
  | construct =>
    refine typeCode_meets.bind fun first type htype => ?_
    exact unsigned_meets.map fun second n hn => ⟨rfl, ⟨first, second, rfl, htype, hn⟩, trivial⟩
  | jump condition => exact word_meets.map fun bytes n hn => ⟨rfl, hn, trivial⟩
  | call kind =>
    refine unsigned_meets.bind fun first callee hcallee => ?_
    exact unsigned_meets.map fun second n hn => ⟨rfl, ⟨first, second, rfl, hcallee, hn⟩, trivial⟩

theorem opcode_meets (b : UInt8) :
    Meets low (match Opcode.ofByte? b with
      | some opcode => operands low opcode
      | none => fail low (.unknownOpcode b)) fun bytes i =>
        i.Written Leb128.Writes Leb128.WritesSigned (b :: bytes) ∧ i.WellFormed := by
  split
  · rename_i opcode hopcode
    have hbyte : opcode.byte = b := by simpa using List.find?_some hopcode
    intro r hr
    have hoperands := operands_meets opcode r hr
    split
    · rename_i hrun
      rw [hrun] at hoperands
      obtain ⟨bytes, hpass, hi, hwritten, hformed⟩ := hoperands
      exact ⟨bytes, hpass, ⟨bytes, by rw [hi, hbyte], hwritten⟩, hformed⟩
    · rename_i hrun
      rw [hrun] at hoperands
      exact hoperands
  · exact meets_fail

end Decode

/-! ## Successive calls -/

namespace Reader

open Decode (Meets)

inductive Calls (r : Reader) :
    EStateM.Result DecodeError Reader (Option (Nat × Instruction)) → Prop
  | atEnd (h : r.rest = []) : Calls r (.ok none r)
  | read {b : UInt8} {bytes : List UInt8} {i : Instruction} {r' : Reader}
      (passes : r.Passes (b :: bytes) r')
      (written : i.Written Leb128.Writes Leb128.WritesSigned (b :: bytes))
      (wellFormed : i.WellFormed) : Calls r (.ok (some (r.position, i)) r')
  | fault {b : UInt8} {bytes : List UInt8} {e : DecodeError} {r' : Reader}
      (passes : r.Passes (b :: bytes) r') (low : r.position ≤ e.offset)
      (high : e.offset ≤ r.stop) : Calls r (.error e r')

theorem calls_next? (r : Reader) : r.Calls (next?.run r) := by
  obtain ⟨position, _ | ⟨b, rest⟩⟩ := r
  · exact .atEnd rfl
  · -- the byte of the operation is read in any case; the rest may fail
    have hbyte : Passes ⟨position, b :: rest⟩ [b] ⟨position + 1, rest⟩ := ⟨rfl, rfl⟩
    have hoperands := Decode.opcode_meets b ⟨position + 1, rest⟩ (Nat.le_succ position)
    have hnext : next?.run ⟨position, b :: rest⟩
        = (Decode.instruction >>= fun i => pure (some (position, i))).run ⟨position, b :: rest⟩ :=
      rfl
    have hopcode : Decode.instruction.run ⟨position, b :: rest⟩ = (match Opcode.ofByte? b with
        | some opcode => Decode.operands position opcode
        | none => Decode.fail position (.unknownOpcode b)).run ⟨position + 1, rest⟩ :=
      rfl
    rw [hnext, EStateM.run_bind, hopcode]
    split
    · rename_i hrun
      rw [hrun] at hoperands
      obtain ⟨bytes, hpass, hwritten, hformed⟩ := hoperands
      exact .read (hbyte.trans hpass) hwritten hformed
    · rename_i hrun
      rw [hrun] at hoperands
      obtain ⟨⟨bytes, hpass⟩, hlow, hstop⟩ := hoperands
      exact .fault (hbyte.trans hpass) hlow (hbyte.stop_eq ▸ hstop)

/-- A reader stands at its position of the bytes. -/
def At (bytes : List UInt8) (r : Reader) : Prop :=
  r.position ≤ bytes.length ∧ r.rest = bytes.drop r.position

variable {bytes : List UInt8} {r : Reader}

theorem At.stop_eq (h : r.At bytes) : r.stop = bytes.length := by
  have hposition := h.1
  rw [stop, h.2, List.length_drop]
  omega

theorem At.passes {taken : List UInt8} {r' : Reader} (h : r.At bytes) (hpass : r.Passes taken r') :
    r'.At bytes := by
  have hstop : r'.stop = bytes.length := hpass.stop_eq.trans h.stop_eq
  refine ⟨hstop ▸ Nat.le_add_right _ _, ?_⟩
  rw [hpass.2, ← List.drop_drop, ← h.2, hpass.1, List.drop_left]

/-- The reader that a call leaves behind, whatever it answers. -/
def after (r : Reader) : Reader :=
  match next?.run r with
  | .ok _ r' | .error _ r' => r'

/-- What a call answers at a reader of so many bytes, and where it leaves it. -/
def Answers (length : Nat) (r : Reader) :
    EStateM.Result DecodeError Reader (Option (Nat × Instruction)) → Prop
  | .ok none r' => r.position = length ∧ r' = r
  | .ok (some (offset, _)) r' =>
    offset = r.position ∧ r.position < r'.position ∧ r'.position ≤ length
  | .error e r' => (r.position < r'.position ∧ r'.position ≤ length)
    ∧ r.position ≤ e.offset ∧ e.offset ≤ length

theorem At.answers (h : r.At bytes) : Answers bytes.length r (next?.run r) := by
  have hstop := h.stop_eq
  have hcalls := calls_next? r
  generalize next?.run r = result at hcalls
  cases hcalls with
  | atEnd hend =>
    rw [stop, hend] at hstop
    exact ⟨hstop, rfl⟩
  | read hpass =>
    have hmove := hpass.2
    rw [List.length_cons] at hmove
    exact ⟨rfl, by omega, (h.passes hpass).1⟩
  | fault hpass hlow hhigh =>
    have hmove := hpass.2
    rw [List.length_cons] at hmove
    exact ⟨⟨by omega, (h.passes hpass).1⟩, hlow, hstop ▸ hhigh⟩

/-- A call passes bytes unless there are none. -/
theorem passes_after (r : Reader) :
    ∃ taken, r.Passes taken r.after ∧ (taken = [] → r.rest = []) := by
  have hcalls := calls_next? r
  rw [after]
  generalize next?.run r = result at hcalls
  cases hcalls with
  | atEnd hend => exact ⟨[], ⟨rfl, rfl⟩, fun _ => hend⟩
  | read hpass | fault hpass => exact ⟨_, hpass, fun h => absurd h (List.cons_ne_nil _ _)⟩

theorem at_calls (bytes : List UInt8) (n : Nat) : (after^[n] (ofBytes bytes)).At bytes := by
  induction n with
  | zero => exact ⟨Nat.zero_le _, rfl⟩
  | succ n ih =>
    rw [Function.iterate_succ_apply']
    obtain ⟨taken, hpass, -⟩ := passes_after (after^[n] (ofBytes bytes))
    exact ih.passes hpass

theorem le_position_calls (bytes : List UInt8) (n : Nat) :
    min n bytes.length ≤ (after^[n] (ofBytes bytes)).position := by
  induction n with
  | zero => exact Nat.le_trans (Nat.min_le_left _ _) (Nat.zero_le _)
  | succ n ih =>
    rw [Function.iterate_succ_apply']
    obtain ⟨taken, hpass, hnil⟩ := passes_after (after^[n] (ofBytes bytes))
    have hstop := (at_calls bytes n).stop_eq
    rw [hpass.2]
    by_cases htaken : taken = []
    · -- nothing was taken, so this was the end
      rw [stop, hnil htaken] at hstop
      have hposition : (after^[n] (ofBytes bytes)).position = bytes.length := hstop
      omega
    · have hlength := List.length_pos_iff.mpr htaken
      omega

/-- Calls are repeated until the end or the first fault, for as long as it takes. -/
inductive Loop : Reader → Except DecodeError (List Entry) → Prop
  | atEnd {r r' : Reader} (h : next?.run r = .ok none r') : Loop r (.ok [])
  | fault {r r' : Reader} {e : DecodeError} (h : next?.run r = .error e r') : Loop r (.error e)
  | read {r r' : Reader} {offset : Nat} {i : Instruction} {result : Except DecodeError (List Entry)}
      (h : next?.run r = .ok (some (offset, i)) r') (rest : Loop r' result) :
      Loop r (result.map (⟨offset, i⟩ :: ·))

theorem loop_readEntries {count : Nat} (h : r.rest.length ≤ count) :
    Loop r (readEntries count r) := by
  induction count generalizing r with
  | zero =>
    obtain ⟨position, rest⟩ := r
    obtain rfl := List.eq_nil_of_length_eq_zero (Nat.le_zero.mp h)
    exact .atEnd rfl
  | succ count ih =>
    have hcalls := calls_next? r
    rw [readEntries]
    cases hrun : next?.run r with
    | error e r' => exact .fault hrun
    | ok answer r' =>
      rw [hrun] at hcalls
      cases hcalls with
      | atEnd => exact .atEnd hrun
      | read hpass =>
        have hlength := congrArg List.length hpass.1
        rw [List.cons_append, List.length_cons, List.length_append] at hlength
        exact .read hrun (ih (by omega))

theorem Loop.unique {result result' : Except DecodeError (List Entry)} (h : Loop r result)
    (h' : Loop r result') : result = result' := by
  induction h generalizing result' with
  | atEnd h => cases h' <;> simp_all
  | fault h => cases h' <;> simp_all
  | read h rest ih =>
    cases h' with
    | atEnd h' => simp_all
    | fault h' => simp_all
    | read h' rest' =>
      rw [h] at h'
      cases h'
      rw [ih rest']

/-- Whatever the bytes are and however often the reader is called, also behind faults: a call at
the end answers nothing and moves nothing; any other moves forward, not behind the end, and its
answer is the instruction at the position or a fault not in front of it. As many calls as there are
bytes reach the end. The limits on the levels of a type code and on the calls for a listing are
never met: both are what they are without limits. -/
theorem calls_reach_end (bytes : List UInt8) :
    (∀ n, let r := after^[n] (ofBytes bytes)
      r.At bytes ∧ Answers bytes.length r (next?.run r) ∧ r.position ≤ r.after.position
        ∧ (bytes.length ≤ n → r.position = bytes.length))
    ∧ (∀ offset step, step = Decode.typeLevel offset step ↔ step = Decode.typeCode offset)
    ∧ ∃ result, (∀ result', Loop (ofBytes bytes) result' ↔ result' = result)
      ∧ disassemble bytes = result.bind fun entries =>
        match badJump? entries bytes.length with
        | some e => .error e
        | none => .ok entries := by
  refine ⟨fun n => ?_, Decode.eq_typeLevel_iff, readEntries bytes.length (ofBytes bytes), ?_, rfl⟩
  · have hat := at_calls bytes n
    obtain ⟨taken, hpass, -⟩ := passes_after (after^[n] (ofBytes bytes))
    refine ⟨hat, hat.answers, hpass.2 ▸ Nat.le_add_right _ _, fun hn => ?_⟩
    have hreach := le_position_calls bytes n
    rw [Nat.min_eq_right hn] at hreach
    exact Nat.le_antisymm hat.1 hreach
  · have hloop : Loop (ofBytes bytes) (readEntries bytes.length (ofBytes bytes)) :=
      loop_readEntries (Nat.le_refl _)
    exact fun result' => ⟨fun h => h.unique hloop, fun h => h ▸ hloop⟩

end Reader

end ShaderBytecode
