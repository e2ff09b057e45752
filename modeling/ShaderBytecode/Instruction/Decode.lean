import ShaderBytecode.Instruction.Encode

/-!
# Decoding of instructions

A reader stands at a position of the code. Reading moves it forward, also when it fails: what was
read stays read, so that reading can go on behind a fault.
-/

namespace ShaderBytecode

/-- What is wrong with bytes that do not decode. -/
inductive DecodeFault where
  | endOfFile
  | tooLong (signed : Bool)
  | tooLarge (signed : Bool)
  | unknownOpcode (byte : UInt8)
  | badBool (byte : UInt8)
  | componentCount (count : UInt8)
  | componentRange (component : UInt8)
  | unknownScalar (byte : UInt8)
  | unknownType (byte : UInt8)
  | badTarget (target : UInt32)
deriving DecidableEq, Repr

def hexByte (b : UInt8) : String :=
  let digit (n : Nat) : Char := (Nat.digitChar n).toUpper
  String.ofList [digit (b.toNat / 16), digit (b.toNat % 16)]

namespace DecodeFault

def operandName (signed : Bool) : String :=
  if signed then "var_i32" else "var_u32"

def message : DecodeFault → String
  | endOfFile => "unexpected end-of-file"
  | tooLong signed => s!"invalid {operandName signed}: integer representation too long"
  | tooLarge signed => s!"invalid {operandName signed}: integer too large"
  | unknownOpcode byte => s!"unknown opcode 0x{hexByte byte}"
  | badBool byte => s!"bool operand must be 0 or 1, found {byte}"
  | componentCount count => s!"swizzle must have 1 to 4 components, found {count}"
  | componentRange component => s!"swizzle component {component} is out of range"
  | unknownScalar byte => s!"unknown scalar code {byte}"
  | unknownType byte => s!"unknown type code {byte}"
  | badTarget target => s!"jump target {target} is not the start of an instruction"

end DecodeFault

/-- A fault and the offset it is reported at. -/
structure DecodeError where
  offset : Nat
  fault : DecodeFault
deriving DecidableEq, Repr

def DecodeError.message (e : DecodeError) : String :=
  s!"invalid bytecode at offset {e.offset}: {e.fault.message}"

/-- A place in the code: the offset reached and the bytes behind it. -/
structure Reader where
  position : Nat
  rest : List UInt8
deriving DecidableEq, Repr

/-- A reading step. A failing step too says where the reader stands afterwards. -/
abbrev Decode := EStateM DecodeError Reader

namespace Reader

def ofBytes (bytes : List UInt8) : Reader :=
  ⟨0, bytes⟩

def atEnd (r : Reader) : Bool :=
  r.rest.isEmpty

end Reader

namespace Decode

def fail {α : Type} (offset : Nat) (fault : DecodeFault) : Decode α :=
  throw ⟨offset, fault⟩

def position : Decode Nat := do
  return (← get).position

def byte : Decode UInt8 := do
  let r ← get
  match r.rest with
  | [] => fail r.position .endOfFile
  | b :: rest =>
    set (Reader.mk (r.position + 1) rest)
    return b

/-- Four bytes, least significant first. If fewer are left none is read. -/
def word : Decode UInt32 := do
  let r ← get
  match r.rest with
  | b₀ :: b₁ :: b₂ :: b₃ :: rest =>
    set (Reader.mk (r.position + targetWidth) rest)
    return .ofNat (b₀.toNat + 256 * (b₁.toNat + 256 * (b₂.toNat + 256 * b₃.toNat)))
  | _ => fail r.position .endOfFile

/-- A LEB128 number of 32 bits with `more` bytes allowed behind the next one. The fifth byte holds
the top four bits and may hold nothing else. -/
def unsignedWithin : (more : Nat) → Decode Nat
  | 0 => do
    let here ← position
    let b ← byte
    if b < 16 then return b.toNat
    else fail here (if 128 ≤ b then .tooLong false else .tooLarge false)
  | more + 1 => do
    let b ← byte
    if b < 128 then return b.toNat
    else
      let high ← unsignedWithin more
      return b.toNat - 128 + 128 * high

/-- A signed LEB128 number of 32 bits. In the fifth byte the bits from the sign on must agree. -/
def signedWithin : (more : Nat) → Decode Int
  | 0 => do
    let here ← position
    let b ← byte
    if b < 8 then return b.toNat
    else if 120 ≤ b ∧ b < 128 then return (b.toNat : Int) - 128
    else fail here (if 128 ≤ b then .tooLong true else .tooLarge true)
  | more + 1 => do
    let b ← byte
    if b < 64 then return b.toNat
    else if b < 128 then return (b.toNat : Int) - 128
    else
      let high ← signedWithin more
      return (b.toNat : Int) - 128 + 128 * high

def unsigned : Decode UInt32 := do
  return .ofNat (← unsignedWithin (Leb128.maxLength - 1))

def signed : Decode Int32 := do
  return .ofInt (← signedWithin (Leb128.maxLength - 1))

def bool (offset : Nat) : Decode Bool := do
  let b ← byte
  if b = 0 then return false
  else if b = 1 then return true
  else fail offset (.badBool b)

def componentList (offset : Nat) : (count : Nat) → Decode (List UInt8)
  | 0 => return []
  | count + 1 => do
    let component ← byte
    if 3 < component then fail offset (.componentRange component)
    else return component :: (← componentList offset count)

def components (offset : Nat) : Decode (List UInt8) := do
  let count ← byte
  if count = 0 ∨ 4 < count then fail offset (.componentCount count)
  else componentList offset count.toNat

def scalar (offset : Nat) : Decode ScalarKind := do
  let b ← byte
  match b with
  | 0 => return .bool
  | 1 => return .int
  | 2 => return .float
  | _ => fail offset (.unknownScalar b)

/-- A type code in at most `left` bytes. Every level of arrays reads bytes, so with none left the
code has ended. -/
def typeCodeWithin (offset : Nat) : (left : Nat) → Decode TypeCode
  | 0 => do fail (← position) .endOfFile
  | left + 1 => do
    let tag ← byte
    match tag with
    | 0 => return .void
    | 1 => return .scalar (← scalar offset)
    | 2 =>
      let kind ← scalar offset
      return .vector kind (← byte)
    | 3 =>
      let columns ← byte
      return .matrix columns (← byte)
    | 4 => return .sampler2D
    | 5 => return .struct (← unsigned)
    | 6 =>
      let length ← unsigned
      return .array (← typeCodeWithin offset left) length
    | _ => fail offset (.unknownType tag)

def typeCode (offset : Nat) : Decode TypeCode := do
  typeCodeWithin offset (← get).rest.length

/-- The instruction of an operation that starts at `offset`. -/
def operands (offset : Nat) : Opcode → Decode Instruction
  | .simple op => return .simple op
  | .indexed op => return .indexed op (← unsigned)
  | .pushInt => return .pushInt (← signed)
  | .pushFloat => return .pushFloat ⟨← word⟩
  | .pushBool => return .pushBool (← bool offset)
  | .select op => return .select op (← components offset)
  | .construct => do
    let type ← typeCode offset
    return .construct type (← unsigned)
  | .jump condition => return .jump condition (← word)
  | .call kind => do
    let callee ← unsigned
    return .call kind callee (← unsigned)

def instruction : Decode Instruction := do
  let offset ← position
  let b ← byte
  match Opcode.ofByte? b with
  | some opcode => operands offset opcode
  | none => fail offset (.unknownOpcode b)

end Decode

/-- The next instruction and its offset, or nothing at the end of the code. -/
def Reader.next? : Decode (Option (Nat × Instruction)) := do
  let r ← get
  if r.atEnd then return none
  else return some (r.position, ← Decode.instruction)

end ShaderBytecode
