import ShaderBytecode.Emit.Code
import ShaderBytecode.Proofs.StackTyping

/-!
# Evaluation of typed trees

What a tree means is given for any interpretation of the stack machine. Expressions transform
states: operands are evaluated from left to right and each of them once. Statements can go on, leave
a loop or stop, and they can run forever, so they are relations. The bytes of a program mean what
the machine does with them: it decodes the instruction at its offset, follows jumps, and halts at a
return or at `discard`.
-/

namespace ShaderBytecode

universe u

/-- An interpretation of the instructions: what one that is no jump does to a state, and the answer
that a conditional jump finds in a state, with what it leaves of the state. -/
structure Machine (σ : Type u) where
  act : Instruction → σ → σ
  test : σ → Bool × σ

/-- Whether the left value of a logical operator is already its result. -/
def LogicOp.decidedBy : LogicOp → Bool → Bool
  | and, value => !value
  | or, value => value

namespace Machine

variable {σ : Type u} (m : Machine σ)

def simple (op : SimpleOp) : σ → σ :=
  m.act (.simple op)

def indexed (op : IndexedOp) (index : Nat) : σ → σ :=
  m.act (.indexed op (.ofNat index))

/-- What the marker of a line does, if markers are wanted. -/
def mark (markers : Bool) (line : Nat) (s : σ) : σ :=
  if markers then m.indexed .line line s else s

/-- What an assignment does, from what reading and writing its target do if that is a whole
variable, what referring to it does, and what the value does. A compound assignment takes the old
value before the right side is evaluated. -/
def assign (op : Option ArithOp) (access : Option ((σ → σ) × (σ → σ))) (refer value : σ → σ)
    (s : σ) : σ :=
  match access, op with
  | some (_, write), none => write (m.simple .dup (value s))
  | some (read, write), some op => write (m.simple .dup (m.simple op.operation (value (read s))))
  | none, none => m.simple .store (value (refer s))
  | none, some op =>
    m.simple .store (m.simple op.operation (value (m.simple .load (m.simple .dup (refer s)))))

end Machine

namespace Typed

variable {σ : Type u}

/-- What reading and writing a place do, if it is a whole variable. -/
def Place.access (m : Machine σ) : Place → Option ((σ → σ) × (σ → σ))
  | .localVar slot _ => some (m.indexed .getLocal slot, m.indexed .setLocal slot)
  | .globalVar slot _ => some (m.indexed .getGlobal slot, m.indexed .setGlobal slot)
  | .member _ _ _ | .swizzle _ _ _ | .index _ _ _ => none

mutual

def Expr.eval (m : Machine σ) : Expr → σ → σ
  | .int value, s => m.act (.pushInt value) s
  | .float value, s => m.act (.pushFloat value) s
  | .bool value, s => m.act (.pushBool value) s
  | .localVar slot _, s => m.indexed .getLocal slot s
  | .globalVar index _, s => m.indexed .getGlobal index s
  | .member base index _, s => m.indexed .getMember index (base.eval m s)
  | .swizzle base components _, s => m.act (.select .swizzle components) (base.eval m s)
  | .index base index _, s => m.simple .index (index.eval m (base.eval m s))
  | .unary op operand, s => m.simple op.operation (operand.eval m s)
  | .arith op left right _, s => m.simple op.operation (right.eval m (left.eval m s))
  | .compare op left right, s => m.simple op.operation (right.eval m (left.eval m s))
  | .logic op left right, s =>
    -- the test takes a copy of the left value, which is the result or is dropped
    let (value, s) := m.test (m.simple .dup (left.eval m s))
    if op.decidedBy value then s else right.eval m (m.simple .pop s)
  | .ternary test whenTrue whenFalse, s =>
    let (value, s) := m.test (test.eval m s)
    if value then whenTrue.eval m s else whenFalse.eval m s
  | .assign op target value, s =>
    m.assign op (target.access m) (target.refer m) (value.eval m) s
  | .step op target, s => m.simple op.operation (target.refer m s)
  | .call function arguments _, s =>
    m.act (.call .function (.ofNat function.value) (.ofNat arguments.length))
      (Argument.evalAll m arguments s)
  | .intrinsic function arguments _, s =>
    m.act (.call .intrinsic function.id (.ofNat arguments.length)) (Expr.evalAll m arguments s)
  | .construct _ code arguments, s =>
    m.act (.construct code (.ofNat arguments.length)) (Expr.evalAll m arguments s)

def Place.refer (m : Machine σ) : Place → σ → σ
  | .localVar slot _, s => m.indexed .refLocal slot s
  | .globalVar index _, s => m.indexed .refGlobal index s
  | .member base index _, s => m.indexed .refMember index (base.refer m s)
  | .swizzle base components _, s => m.act (.select .refSwizzle components) (base.refer m s)
  | .index base index _, s => m.simple .refIndex (index.eval m (base.refer m s))

def Argument.eval (m : Machine σ) : Argument → σ → σ
  | .value value, s => value.eval m s
  | .reference place, s => place.refer m s

def Expr.evalAll (m : Machine σ) : List Expr → σ → σ
  | [], s => s
  | first :: rest, s => Expr.evalAll m rest (first.eval m s)

def Argument.evalAll (m : Machine σ) : List Argument → σ → σ
  | [], s => s
  | first :: rest, s => Argument.evalAll m rest (first.eval m s)

end

def Expr.perform (m : Machine σ) (e : Expr) (s : σ) : σ :=
  if e.type.isVoid then e.eval m s else m.simple .pop (e.eval m s)

def Expr.performOption (m : Machine σ) : Option Expr → σ → σ
  | none, s => s
  | some e, s => e.perform m s

end Typed

/-! ## Statements -/

open Typed (Leave)

/-- How control gets out of statements: it goes on behind them, leaves the loop around them, or
stops at an instruction. -/
inductive Outcome where
  | goesOn
  | leaves (kind : Leave)
  | stops (final : Instruction)
deriving DecidableEq, Repr

/-- Whether a loop makes its step after a round that ends so. -/
def Outcome.endsRound : Outcome → Prop
  | goesOn | leaves .continueLoop => True
  | leaves .breakLoop | stops _ => False

/-- What statements do: from a state, they get out in some way with another state. -/
abbrev Behaviour (σ : Type u) := σ → Outcome → σ → Prop

namespace Behaviour

variable {σ : Type u}

def ofFunction (outcome : Outcome) (f : σ → σ) : Behaviour σ :=
  fun s o s' => o = outcome ∧ s' = f s

def andThen (first second : Behaviour σ) : Behaviour σ :=
  fun s o s' => (∃ between, first s .goesOn between ∧ second between o s')
    ∨ o ≠ .goesOn ∧ first s o s'

def branch (test : σ → Bool × σ) (whenTrue whenFalse : Behaviour σ) : Behaviour σ :=
  fun s o s' =>
    if (test s).1 then whenTrue (test s).2 o s' else whenFalse (test s).2 o s'

end Behaviour

/-- The rounds of a loop. Before each it is asked whether to enter it, and behind each whether to go
on, also if the body was left by `continue`. A loop that is left by `break` goes on behind it. -/
inductive Rounds {σ : Type u} (enter : σ → Bool × σ) (body : Behaviour σ) (after : σ → Bool × σ) :
    Behaviour σ
  | exit {s s₁ : σ} (henter : enter s = (false, s₁)) : Rounds enter body after s .goesOn s₁
  | again {s s₁ s₂ s₃ s' : σ} {o o' : Outcome} (henter : enter s = (true, s₁))
    (hbody : body s₁ o s₂) (ho : o.endsRound) (hafter : after s₂ = (true, s₃))
    (hrest : Rounds enter body after s₃ o' s') : Rounds enter body after s o' s'
  | last {s s₁ s₂ s₃ : σ} {o : Outcome} (henter : enter s = (true, s₁)) (hbody : body s₁ o s₂)
    (ho : o.endsRound) (hafter : after s₂ = (false, s₃)) : Rounds enter body after s .goesOn s₃
  | broken {s s₁ s₂ : σ} (henter : enter s = (true, s₁))
    (hbody : body s₁ (.leaves .breakLoop) s₂) : Rounds enter body after s .goesOn s₂
  | stopped {s s₁ s₂ : σ} {final : Instruction} (henter : enter s = (true, s₁))
    (hbody : body s₁ (.stops final) s₂) : Rounds enter body after s (.stops final) s₂

namespace Typed

variable {σ : Type u}

/-- The answer of an optional condition. Without one a loop is always entered. -/
def Expr.enters (m : Machine σ) : Option Expr → σ → Bool × σ
  | none, s => (true, s)
  | some test, s => m.test (test.eval m s)

def Expr.returns (m : Machine σ) : Option Expr → Behaviour σ
  | none => .ofFunction (.stops (.simple .ret)) id
  | some value => .ofFunction (.stops (.simple .retValue)) (value.eval m)

mutual

def Statement.Evaluates (m : Machine σ) (markers : Bool) : Statement → Behaviour σ
  | .expr value line, s => Behaviour.ofFunction .goesOn (value.perform m) (m.mark markers line s)
  | .declare slot value line, s =>
    Behaviour.ofFunction .goesOn (fun s => m.indexed .setLocal slot (value.eval m s))
      (m.mark markers line s)
  | .ifElse test whenTrue whenFalse line, s =>
    Behaviour.branch (fun s => m.test (test.eval m s)) (Statement.AllEvaluate m markers whenTrue)
      (Statement.AllEvaluate m markers whenFalse) (m.mark markers line s)
  | .loop test step body line, s =>
    Rounds (Expr.enters m test) (Statement.AllEvaluate m markers body)
      (fun s => (true, Expr.performOption m step s)) (m.mark markers line s)
  | .doLoop body test line, s =>
    Rounds (fun s => (true, s)) (Statement.AllEvaluate m markers body)
      (fun s => m.test (test.eval m s)) (m.mark markers line s)
  | .returnFrom value line, s => Expr.returns m value (m.mark markers line s)
  | .leave kind line, s => Behaviour.ofFunction (.leaves kind) id (m.mark markers line s)
  | .discardPixel line, s =>
    Behaviour.ofFunction (.stops (.simple .discard)) id (m.mark markers line s)
  | .block body, s => Statement.AllEvaluate m markers body s

def Statement.AllEvaluate (m : Machine σ) (markers : Bool) : List Statement → Behaviour σ
  | [] => .ofFunction .goesOn id
  | first :: rest => .andThen (first.Evaluates m markers) (Statement.AllEvaluate m markers rest)

end

/-- What a body does until it stops at an instruction. At its end it returns nothing or the zero
value. -/
def Definition.Evaluates (m : Machine σ) (markers : Bool) (d : Definition) (s : σ)
    (final : Instruction) (s' : σ) : Prop :=
  Behaviour.andThen (Statement.AllEvaluate m markers d.body) (Expr.returns m d.zero) s
    (.stops final) s'

end Typed

/-! ## Running bytes -/

/-- The instruction at an offset of some bytes, and the offset behind it. -/
def fetch? (bytes : List UInt8) (offset : Nat) : Option (Instruction × Nat) :=
  match Decode.instruction.run ⟨offset, bytes.drop offset⟩ with
  | .ok i r => some (i, r.position)
  | .error _ _ => none

namespace Machine

variable {σ : Type u} (m : Machine σ)

/-- Whether a jump is taken in a state, and what it leaves of the state. -/
def takes : JumpWhen → σ → Bool × σ
  | .always, s => (true, s)
  | .ifFalse, s => (!(m.test s).1, (m.test s).2)
  | .ifTrue, s => m.test s

/-- Where control goes and what becomes of the state at an instruction that is followed by one at
another offset. -/
def next (i : Instruction) (behind : Nat) (s : σ) : Nat × σ :=
  match i with
  | .jump condition target =>
    (if (m.takes condition s).1 then target.toNat else behind, (m.takes condition s).2)
  | i => (behind, m.act i s)

/-- Runs bytes from an offset, for less than so many instructions. Gives the instruction at which
control stops and the state there. -/
def run (bytes : List UInt8) : (fuel offset : Nat) → σ → Option (Instruction × σ)
  | 0, _, _ => none
  | fuel + 1, offset, s =>
    match fetch? bytes offset with
    | none => none
    | some (i, behind) =>
      if i.isFinal then some (i, s)
      else run bytes fuel (m.next i behind s).1 (m.next i behind s).2

/-- Running bytes from an offset halts at an instruction with a state. -/
def Halts (bytes : List UInt8) (offset : Nat) (s : σ) (final : Instruction) (s' : σ) : Prop :=
  ∃ fuel, m.run bytes fuel offset s = some (final, s')

end Machine

end ShaderBytecode
