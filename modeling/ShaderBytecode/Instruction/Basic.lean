import ShaderBytecode.Intrinsic
import ShaderBytecode.Number.Shortest

/-!
# The instruction set of the stack machine

Instructions are grouped by the operands they carry, so that what treats operands treats each
group once.
-/

namespace ShaderBytecode

/-- Operations without operands. -/
inductive SimpleOp where
  | nop
  | pop
  | dup
  | refIndex
  | load
  /-- Pops a value and a reference, writes the value through the reference and pushes it again. -/
  | store
  | index
  | add
  | sub
  | mul
  | div
  | mod
  | neg
  | not
  | eq
  | ne
  | lt
  | gt
  | le
  | ge
  /-- The step operations pop a reference and push the new or the old value. -/
  | preInc
  | preDec
  | postInc
  | postDec
  | ret
  | retValue
  | discard
deriving DecidableEq, Repr

/-- Operations with one number: a source line, a slot, a place in a registry or a member. -/
inductive IndexedOp where
  | line
  | getLocal
  | setLocal
  | getGlobal
  | setGlobal
  | refLocal
  | refGlobal
  | refMember
  | getMember
deriving DecidableEq, Repr

/-- Operations that select components, of a value or of a reference. -/
inductive SelectOp where
  | refSwizzle
  | swizzle
deriving DecidableEq, Repr

/-- When a jump is taken. A conditional jump pops its condition. -/
inductive JumpWhen where
  | always
  | ifFalse
  | ifTrue
deriving DecidableEq, Repr

/-- What a call runs: a function of the registry or an intrinsic. -/
inductive CallKind where
  | function
  | intrinsic
deriving DecidableEq, Repr

/-- An operation. -/
inductive Opcode where
  | simple (op : SimpleOp)
  | indexed (op : IndexedOp)
  | pushInt
  | pushFloat
  | pushBool
  | select (op : SelectOp)
  | construct
  | jump (condition : JumpWhen)
  | call (kind : CallKind)
deriving DecidableEq, Repr

namespace Opcode

def all : List Opcode :=
  [simple .nop, indexed .line, pushInt, pushFloat, pushBool, simple .pop, simple .dup,
    indexed .getLocal, indexed .setLocal, indexed .getGlobal, indexed .setGlobal,
    indexed .refLocal, indexed .refGlobal, indexed .refMember, select .refSwizzle,
    simple .refIndex, simple .load, simple .store, indexed .getMember, select .swizzle,
    simple .index, construct, simple .add, simple .sub, simple .mul, simple .div, simple .mod,
    simple .neg, simple .not, simple .eq, simple .ne, simple .lt, simple .gt, simple .le,
    simple .ge, simple .preInc, simple .preDec, simple .postInc, simple .postDec, jump .always,
    jump .ifFalse, jump .ifTrue, call .function, call .intrinsic, simple .ret, simple .retValue,
    simple .discard]

def byte : Opcode → UInt8
  | simple .nop => 0x00
  | indexed .line => 0x01
  | pushInt => 0x10
  | pushFloat => 0x11
  | pushBool => 0x12
  | simple .pop => 0x13
  | simple .dup => 0x14
  | indexed .getLocal => 0x20
  | indexed .setLocal => 0x21
  | indexed .getGlobal => 0x22
  | indexed .setGlobal => 0x23
  | indexed .refLocal => 0x28
  | indexed .refGlobal => 0x29
  | indexed .refMember => 0x2A
  | select .refSwizzle => 0x2B
  | simple .refIndex => 0x2C
  | simple .load => 0x2D
  | simple .store => 0x2E
  | indexed .getMember => 0x30
  | select .swizzle => 0x31
  | simple .index => 0x32
  | construct => 0x33
  | simple .add => 0x40
  | simple .sub => 0x41
  | simple .mul => 0x42
  | simple .div => 0x43
  | simple .mod => 0x44
  | simple .neg => 0x45
  | simple .not => 0x46
  | simple .eq => 0x47
  | simple .ne => 0x48
  | simple .lt => 0x49
  | simple .gt => 0x4A
  | simple .le => 0x4B
  | simple .ge => 0x4C
  | simple .preInc => 0x50
  | simple .preDec => 0x51
  | simple .postInc => 0x52
  | simple .postDec => 0x53
  | jump .always => 0x60
  | jump .ifFalse => 0x61
  | jump .ifTrue => 0x62
  | call .function => 0x63
  | call .intrinsic => 0x64
  | simple .ret => 0x65
  | simple .retValue => 0x66
  | simple .discard => 0x67

def ofByte? (b : UInt8) : Option Opcode :=
  all.find? (·.byte = b)

def mnemonic : Opcode → String
  | simple .nop => "nop"
  | indexed .line => "line"
  | pushInt => "push.i"
  | pushFloat => "push.f"
  | pushBool => "push.b"
  | simple .pop => "pop"
  | simple .dup => "dup"
  | indexed .getLocal => "get.local"
  | indexed .setLocal => "set.local"
  | indexed .getGlobal => "get.global"
  | indexed .setGlobal => "set.global"
  | indexed .refLocal => "ref.local"
  | indexed .refGlobal => "ref.global"
  | indexed .refMember => "ref.member"
  | select .refSwizzle => "ref.swizzle"
  | simple .refIndex => "ref.index"
  | simple .load => "load"
  | simple .store => "store"
  | indexed .getMember => "get.member"
  | select .swizzle => "swizzle"
  | simple .index => "index"
  | construct => "construct"
  | simple .add => "add"
  | simple .sub => "sub"
  | simple .mul => "mul"
  | simple .div => "div"
  | simple .mod => "mod"
  | simple .neg => "neg"
  | simple .not => "not"
  | simple .eq => "eq"
  | simple .ne => "ne"
  | simple .lt => "lt"
  | simple .gt => "gt"
  | simple .le => "le"
  | simple .ge => "ge"
  | simple .preInc => "inc.pre"
  | simple .preDec => "dec.pre"
  | simple .postInc => "inc.post"
  | simple .postDec => "dec.post"
  | jump .always => "jump"
  | jump .ifFalse => "jump.false"
  | jump .ifTrue => "jump.true"
  | call .function => "call"
  | call .intrinsic => "call.builtin"
  | simple .ret => "return"
  | simple .retValue => "return.value"
  | simple .discard => "discard"

end Opcode

/-- An instruction. `construct` without arguments makes the zero value of its type, and with one
argument of another type it converts. Jumps lead to a byte offset of the code. -/
inductive Instruction where
  | simple (op : SimpleOp)
  | indexed (op : IndexedOp) (index : UInt32)
  | pushInt (value : Int32)
  | pushFloat (value : Single)
  | pushBool (value : Bool)
  | select (op : SelectOp) (components : List UInt8)
  | construct (type : TypeCode) (arguments : UInt32)
  | jump (condition : JumpWhen) (target : UInt32)
  | call (kind : CallKind) (callee arguments : UInt32)
deriving DecidableEq, Repr

namespace Instruction

def opcode : Instruction → Opcode
  | simple op => .simple op
  | indexed op _ => .indexed op
  | pushInt _ => .pushInt
  | pushFloat _ => .pushFloat
  | pushBool _ => .pushBool
  | select op _ => .select op
  | construct _ _ => .construct
  | jump condition _ => .jump condition
  | call kind _ _ => .call kind

def jumpTarget? : Instruction → Option UInt32
  | jump _ target => some target
  | _ => none

def componentLetter (component : UInt8) : Char :=
  match component with
  | 0 => 'x'
  | 1 => 'y'
  | 2 => 'z'
  | 3 => 'w'
  | _ => '?'

/-- The operands in listings, with the space before them. -/
def operandText : Instruction → String
  | simple _ => ""
  | indexed _ index => s!" {index}"
  | pushInt value => s!" {value.toInt}"
  | pushFloat value => " " ++ value.text .listing
  | pushBool value => if value then " true" else " false"
  | select _ components => " ." ++ String.ofList (components.map componentLetter)
  | construct type arguments => s!" {type.display} {arguments}"
  | jump _ target => s!" @{target}"
  | call .function callee arguments => s!" fn#{callee} {arguments}"
  | call .intrinsic callee arguments =>
    match Intrinsic.ofId? callee with
    | some known => s!" {known.name} {arguments}"
    | none => s!" builtin#{callee} {arguments}"

def text (i : Instruction) : String :=
  i.opcode.mnemonic ++ i.operandText

end Instruction

end ShaderBytecode
