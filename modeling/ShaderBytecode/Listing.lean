import ShaderBytecode.Instruction.Decode

/-!
# Listings
-/

namespace ShaderBytecode

/-- An instruction and the offset it starts at. -/
structure Entry where
  offset : Nat
  instruction : Instruction
deriving DecidableEq, Repr

/-- The text of an entry: the offset to the width of six, two spaces, the instruction. -/
def Entry.text (e : Entry) : String :=
  let offset := toString e.offset
  "".pushn ' ' (6 - offset.length) ++ offset ++ "  " ++ e.instruction.text

/-- The place of an offset among sorted ones, by bisection: if it is one of the `size` offsets from
`base` on then it is the one found. -/
def bisect (offsets : Array Nat) (offset base size : Nat) : Nat :=
  if size ≤ 1 then base
  else
    let half := size / 2
    let base := if offset < offsets.getD (base + half) 0 then base else base + half
    bisect offsets offset base (size - half)
termination_by size

def isInstructionStart (entries : List Entry) (offset : Nat) : Bool :=
  let offsets := (entries.map (·.offset)).toArray
  offsets[bisect offsets offset 0 offsets.size]? = some offset

/-- The instructions from a reader on, at most `count` of them. Every instruction has at least one
byte. -/
def readEntries : (count : Nat) → Reader → Except DecodeError (List Entry)
  | 0, _ => .ok []
  | count + 1, r =>
    match Reader.next?.run r with
    | .error e _ => .error e
    | .ok none _ => .ok []
    | .ok (some (offset, instruction)) r => do
      let entries ← readEntries count r
      return ⟨offset, instruction⟩ :: entries

/-- The first entry that jumps to something that is neither the start of an instruction nor the
end of the code. -/
def badJump? (entries : List Entry) (length : Nat) : Option DecodeError :=
  entries.findSome? fun e => do
    let target ← e.instruction.jumpTarget?
    if target.toNat = length || isInstructionStart entries target.toNat then none
    else some ⟨e.offset, .badTarget target⟩

/-- The entries of a code. Jumps must lead to the start of an instruction or to the end. -/
def disassemble (bytes : List UInt8) : Except DecodeError (List Entry) := do
  let entries ← readEntries bytes.length (.ofBytes bytes)
  match badJump? entries bytes.length with
  | some e => .error e
  | none => return entries

def listingText (entries : List Entry) : String :=
  String.join (entries.map fun e => e.text ++ "\n")

end ShaderBytecode
