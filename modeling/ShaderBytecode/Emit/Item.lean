import ShaderBytecode.Instruction.Encode
import ShaderBytecode.Typed

/-!
# Relocatable code

Code is put together from items whose jumps are relative, so that a piece of code means the same
wherever it stands. A jump is as far as the code it skips is long. What leaves a loop stays open
until the loop around it is closed.
-/

namespace ShaderBytecode

open Typed (Leave)

/-- An instruction, a jump over so many bytes behind it, or a jump out of the loop around it. -/
inductive Item where
  | op (instruction : Instruction)
  | jump (condition : JumpWhen) (distance : Int)
  | leave (kind : Leave)
deriving DecidableEq, Repr

def jumpSize : Nat := 1 + targetWidth

namespace Item

def size : Item → Nat
  | op instruction => instruction.size
  | jump _ _ | leave _ => jumpSize

def sizeAll : List Item → Nat
  | [] => 0
  | item :: rest => item.size + sizeAll rest

def simple (operation : SimpleOp) : Item :=
  .op (.simple operation)

def indexed (operation : IndexedOp) (index : Nat) : Item :=
  .op (.indexed operation (.ofNat index))

def skip (condition : JumpWhen) (body : List Item) : List Item :=
  .jump condition (sizeAll body) :: body

/-- Runs the first code if the value on the stack is true and the second otherwise. -/
def choose (whenTrue whenFalse : List Item) : List Item :=
  skip .ifFalse (whenTrue ++ [.jump .always (sizeAll whenFalse)]) ++ whenFalse

/-- Closes a loop's body that is followed by `after` bytes up to the end of the loop: what breaks
out goes there, and what continues goes to the end of the body. -/
def closeLeaves (after : Nat) : List Item → List Item
  | [] => []
  | .leave .breakLoop :: rest =>
    .jump .always (sizeAll rest + after : Nat) :: closeLeaves after rest
  | .leave .continueLoop :: rest => .jump .always (sizeAll rest : Nat) :: closeLeaves after rest
  | other :: rest => other :: closeLeaves after rest

def backWhen (condition : JumpWhen) (body : List Item) : List Item :=
  body ++ [.jump condition (-(sizeAll body + jumpSize : Nat))]

/-- A loop that tests before each round and makes a step after it. -/
def repeatWhile (test : Option (List Item)) (body step : List Item) : List Item :=
  let round := closeLeaves (sizeAll step + jumpSize) body ++ step
  match test with
  | some test =>
    backWhen .always (test ++ [.jump .ifFalse (sizeAll round + jumpSize : Nat)] ++ round)
  | none => backWhen .always round

def repeatUntil (body test : List Item) : List Item :=
  backWhen .ifTrue (closeLeaves (sizeAll test + jumpSize) body ++ test)

end Item

/-- What stops emission. None of these can happen to a typed program of less than 4 GiB of code. -/
inductive EmitFault where
  | bodyMissing (function : String)
  | leaveOutsideLoop (kind : Leave)
  | targetTooLarge (target : Int)
deriving DecidableEq, Repr

def Item.assemble (position : Nat) : Item → Except EmitFault Instruction
  | .op instruction => .ok instruction
  | .jump condition distance =>
    let target : Int := position + jumpSize + distance
    if 0 ≤ target ∧ target < 0x100000000 then .ok (.jump condition (.ofNat target.toNat))
    else .error (.targetTooLarge target)
  | .leave kind => .error (.leaveOutsideLoop kind)

def assemble : (position : Nat) → List Item → Except EmitFault (List Instruction)
  | _, [] => .ok []
  | position, first :: rest => do
    let instruction ← first.assemble position
    let more ← assemble (position + first.size) rest
    return instruction :: more

end ShaderBytecode
