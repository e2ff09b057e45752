import ShaderBytecode.Instruction.Basic

/-!
# Encoding of instructions

An instruction is the byte of its operation followed by its operands. Indices and counts are LEB128
numbers of minimal length, jump targets and floats are four bytes, least significant first, so
that a target can be filled in later without moving anything.
-/

namespace ShaderBytecode

namespace Leb128

/-- The bytes of a 32 bit number are never more than this. -/
def maxLength : Nat := 5

/-- Groups of seven bits, least significant first, in at most `limit` bytes; every byte but the
last has its top bit set. -/
def unsignedWithin : (limit n : Nat) → List UInt8
  | 0, _ => []
  | limit + 1, n =>
    if n < 128 then [.ofNat n] else .ofNat (n % 128 + 128) :: unsignedWithin limit (n / 128)

/-- The same for integers: the second highest bit of the last byte is the sign. -/
def signedWithin : (limit : Nat) → (n : Int) → List UInt8
  | 0, _ => []
  | limit + 1, n =>
    if -64 ≤ n ∧ n < 64 then [.ofNat (n % 128).toNat]
    else .ofNat ((n % 128).toNat + 128) :: signedWithin limit (n / 128)

def unsigned (n : UInt32) : List UInt8 :=
  unsignedWithin maxLength n.toNat

def signed (n : Int32) : List UInt8 :=
  signedWithin maxLength n.toInt

end Leb128

def targetWidth : Nat := 4

def wordBytes (n : UInt32) : List UInt8 :=
  [.ofNat (n.toNat % 256), .ofNat (n.toNat / 256 % 256), .ofNat (n.toNat / 65536 % 256),
    .ofNat (n.toNat / 16777216)]

def ScalarKind.byte : ScalarKind → UInt8
  | bool => 0
  | int => 1
  | float => 2

/-- The bytes of a type code. An array is written with its length before its element. -/
def TypeCode.encode : TypeCode → List UInt8
  | void => [0]
  | scalar kind => [1, kind.byte]
  | vector kind size => [2, kind.byte, size]
  | matrix columns rows => [3, columns, rows]
  | sampler2D => [4]
  | struct index => 5 :: Leb128.unsigned index
  | array element length => 6 :: (Leb128.unsigned length ++ element.encode)

namespace Instruction

def encodeOperands : Instruction → List UInt8
  | simple _ => []
  | indexed _ index => Leb128.unsigned index
  | pushInt value => Leb128.signed value
  | pushFloat value => wordBytes value.bits
  | pushBool value => [if value then 1 else 0]
  | select _ components => .ofNat components.length :: components
  | construct type arguments => type.encode ++ Leb128.unsigned arguments
  | jump _ target => wordBytes target
  | call _ callee arguments => Leb128.unsigned callee ++ Leb128.unsigned arguments

def encode (i : Instruction) : List UInt8 :=
  i.opcode.byte :: i.encodeOperands

def size (i : Instruction) : Nat :=
  i.encode.length

end Instruction

def encodeAll (code : List Instruction) : List UInt8 :=
  code.flatMap Instruction.encode

def sizeAll : List Instruction → Nat
  | [] => 0
  | i :: rest => i.size + sizeAll rest

theorem length_encodeAll (code : List Instruction) : (encodeAll code).length = sizeAll code := by
  induction code with
  | nil => rfl
  | cons i rest ih =>
    simp only [encodeAll] at ih
    simp [encodeAll, sizeAll, Instruction.size, ih]

end ShaderBytecode
