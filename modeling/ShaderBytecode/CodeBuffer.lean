import ShaderBytecode.Instruction.Encode

/-!
# Code buffers

A code buffer grows by instructions. A jump whose target is not known yet is written with the
target zero and filled in later, in place.
-/

namespace ShaderBytecode

def Opcode.isJump : Opcode → Bool
  | jump _ => true
  | _ => false

/-- Why an operation on a code buffer is refused. -/
inductive BufferError where
  | notAJump (opcode : Opcode)
  | targetTooLarge (target : Nat)
  | operandOutside (operand : Nat)
deriving DecidableEq, Repr

def BufferError.message : BufferError → String
  | notAJump opcode => s!"{opcode.mnemonic} is not a jump"
  | targetTooLarge target => s!"Jump target {target} doesn't fit the operand"
  | operandOutside operand => s!"Jump operand at {operand} is outside the code"

/-- Code under construction. -/
structure CodeBuffer where
  bytes : List UInt8 := []
deriving DecidableEq, Repr, Inhabited

/-- The offset of the target of a jump that waits for it. -/
structure PendingJump where
  operand : Nat
deriving DecidableEq, Repr

namespace CodeBuffer

def position (b : CodeBuffer) : Nat :=
  b.bytes.length

def isEmpty (b : CodeBuffer) : Bool :=
  b.bytes.isEmpty

def emit (b : CodeBuffer) (i : Instruction) : CodeBuffer :=
  ⟨b.bytes ++ i.encode⟩

def emitAll (b : CodeBuffer) (code : List Instruction) : CodeBuffer :=
  ⟨b.bytes ++ encodeAll code⟩

def reset (_ : CodeBuffer) : CodeBuffer :=
  {}

/-- A step that writes to a code buffer and may be refused: the buffer that it leaves is known in
either case. -/
abbrev Step := EStateM BufferError CodeBuffer

def append (bytes : List UInt8) : Step Unit :=
  modify fun b => ⟨b.bytes ++ bytes⟩

/-- Writes a jump to a target that comes later in the code. -/
def forwardJump (opcode : Opcode) : Step PendingJump := do
  unless opcode.isJump do throw (.notAJump opcode)
  append [opcode.byte]
  let operand := (← get).position
  append (List.replicate targetWidth 0)
  return ⟨operand⟩

/-- Writes the target of a pending jump. -/
def retarget (jump : PendingJump) (target : Nat) : Step Unit := do
  unless target < 0x100000000 do throw (.targetTooLarge target)
  let bytes := (← get).bytes
  unless jump.operand + targetWidth ≤ bytes.length do throw (.operandOutside jump.operand)
  set (⟨bytes.take jump.operand ++ wordBytes (.ofNat target)
    ++ bytes.drop (jump.operand + targetWidth)⟩ : CodeBuffer)

def retargetToHere (jump : PendingJump) : Step Unit := do
  retarget jump (← get).position

/-- The answer of a step and the buffer behind it, unless the step is refused. -/
def after {α : Type} (b : CodeBuffer) (step : Step α) : Except BufferError (α × CodeBuffer) :=
  match step.run b with
  | .ok answer b' => .ok (answer, b')
  | .error fault _ => .error fault

def emitForwardJump (b : CodeBuffer) (opcode : Opcode) :
    Except BufferError (PendingJump × CodeBuffer) :=
  b.after (forwardJump opcode)

def patch (b : CodeBuffer) (jump : PendingJump) (target : Nat) : Except BufferError CodeBuffer :=
  (b.after (retarget jump target)).map Prod.snd

def patchToHere (b : CodeBuffer) (jump : PendingJump) : Except BufferError CodeBuffer :=
  (b.after (retargetToHere jump)).map Prod.snd

end CodeBuffer

end ShaderBytecode
