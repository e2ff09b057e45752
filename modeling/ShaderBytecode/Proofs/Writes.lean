import ShaderBytecode.Proofs.Selection

/-!
# What code does with variables and functions

A variable is read by the instructions that get it, and written to by those that set it and those
that make a reference to it. What a tree does with variables, and which functions it calls, can be
read off the tree, in the order of its code.
-/

namespace ShaderBytecode

/-- Whether an operation sets a variable or makes a reference to it. -/
def IndexedOp.writes : IndexedOp → Bool
  | setLocal | setGlobal | refLocal | refGlobal => true
  | line | getLocal | getGlobal | refMember | getMember => false

/-- Whether an instruction sets a variable or makes a reference to it. -/
def Instruction.writes : Instruction → Bool
  | .indexed op _ => op.writes
  | _ => false

/-- Whether an instruction does anything with a variable or calls a function. -/
def Instruction.accesses : Instruction → Bool
  | .indexed op _ => op.writes || op = .getLocal || op = .getGlobal
  | .call target _ _ => target = .function
  | _ => false

namespace Typed

/-- A variable: a slot of a function or a global variable. -/
inductive Cell where
  | slot (slot : Nat)
  | global (index : Nat)
deriving DecidableEq, Repr

def Cell.mention : Cell → Mention
  | .slot n => .slot n
  | .global i => .global i

/-- A way to write to a variable: to set it, or to refer to it, be it to write to a part of it or to
let a function write to it. -/
inductive Write where
  | set (cell : Cell)
  | refer (cell : Cell)
deriving DecidableEq, Repr

def Write.cell : Write → Cell
  | set cell | refer cell => cell

def Write.instruction : Write → Instruction
  | set (.slot slot) => .indexed .setLocal (.ofNat slot)
  | set (.global index) => .indexed .setGlobal (.ofNat index)
  | refer (.slot slot) => .indexed .refLocal (.ofNat slot)
  | refer (.global index) => .indexed .refGlobal (.ofNat index)

/-- What a tree does with a variable or a function. A local is declared by setting it. -/
inductive Access where
  | get (cell : Cell)
  | write (how : Write)
  | declare (slot : Nat)
  | call (function : Located Nat) (count : Nat)
deriving DecidableEq, Repr

def Access.write? : Access → Option Write
  | get _ | call _ _ => none
  | write how => some how
  | declare slot => some (.set (.slot slot))

def Access.declared? : Access → Option Nat
  | declare slot => some slot
  | get _ | write _ | call _ _ => none

def Access.mention? : Access → Option Mention
  | get cell => some cell.mention
  | write how => some how.cell.mention
  | declare _ => none
  | call function _ => some (.call function)

def Access.instruction : Access → Instruction
  | get (.slot slot) => .indexed .getLocal (.ofNat slot)
  | get (.global index) => .indexed .getGlobal (.ofNat index)
  | write how => how.instruction
  | declare slot => .indexed .setLocal (.ofNat slot)
  | call function count => .call .function (.ofNat function.value) (.ofNat count)

def Place.cell? : Place → Option Cell
  | .localVar slot _ => some (.slot slot)
  | .globalVar place _ => some (.global place)
  | .member _ _ _ | .swizzle _ _ _ | .index _ _ _ => none

/-- What an assignment does with variables, from what a reference to its target and what the value
does. A variable as a whole is set once the value is there, and is read before that if the assignment
combines the two. -/
def assignmentAccesses (op : Option ArithOp) (target : Place) (reference value : List Access) :
    List Access :=
  match target.cell? with
  | some cell => (if op.isSome then [.get cell] else []) ++ value ++ [.write (.set cell)]
  | none => reference ++ value

mutual

def Expr.accesses : Expr → List Access
  | .int _ | .float _ | .bool _ => []
  | .localVar slot _ => [.get (.slot slot)]
  | .globalVar index _ => [.get (.global index)]
  | .member base _ _ | .swizzle base _ _ => base.accesses
  | .index base index _ => base.accesses ++ index.accesses
  | .unary _ operand => operand.accesses
  | .arith _ left right _ | .compare _ left right | .logic _ left right =>
    left.accesses ++ right.accesses
  | .ternary test whenTrue whenFalse => test.accesses ++ whenTrue.accesses ++ whenFalse.accesses
  | .assign op target value => assignmentAccesses op target target.accesses value.accesses
  | .step _ target => target.accesses
  | .call function arguments _ =>
    Argument.accessesAll arguments ++ [.call function arguments.length]
  | .intrinsic _ arguments _ | .construct _ _ arguments => Expr.accessesAll arguments

def Place.accesses : Place → List Access
  | .localVar slot _ => [.write (.refer (.slot slot))]
  | .globalVar index _ => [.write (.refer (.global index))]
  | .member base _ _ | .swizzle base _ _ => base.accesses
  | .index base index _ => base.accesses ++ index.accesses

def Argument.accesses : Argument → List Access
  | .value value => value.accesses
  | .reference place => place.accesses

def Expr.accessesAll : List Expr → List Access
  | [] => []
  | first :: rest => first.accesses ++ Expr.accessesAll rest

def Argument.accessesAll : List Argument → List Access
  | [] => []
  | first :: rest => first.accesses ++ Argument.accessesAll rest

end

def Expr.optionAccesses (value : Option Expr) : List Access :=
  (value.map Expr.accesses).getD []

mutual

/-- What a statement does, in the order of its code. -/
def Statement.accesses : Statement → List Access
  | .expr value _ => value.accesses
  | .declare slot value _ => value.accesses ++ [.declare slot]
  | .ifElse test whenTrue whenFalse _ =>
    test.accesses ++ Statement.accessesAll whenTrue ++ Statement.accessesAll whenFalse
  | .loop test step body _ =>
    Expr.optionAccesses test ++ Statement.accessesAll body ++ Expr.optionAccesses step
  | .doLoop body test _ => Statement.accessesAll body ++ test.accesses
  | .returnFrom value _ => Expr.optionAccesses value
  | .leave _ _ | .discardPixel _ => []
  | .block body => Statement.accessesAll body

def Statement.accessesAll : List Statement → List Access
  | [] => []
  | first :: rest => first.accesses ++ Statement.accessesAll rest

end

theorem Statement.accessesAll_append (first second : List Statement) :
    Statement.accessesAll (first ++ second)
      = Statement.accessesAll first ++ Statement.accessesAll second := by
  induction first with
  | nil => rfl
  | cons s rest ih => simp [Statement.accessesAll, ih]

/-! ## Mentions -/

theorem Place.accesses_of_cell? {target : Place} {cell : Cell} (h : target.cell? = some cell) :
    target.accesses = [.write (.refer cell)] := by
  cases target <;> cases h <;> rfl

theorem mem_mention_assignment {op : Option ArithOp} {target : Place} {value : List Access}
    {x : Option Mention} :
    x ∈ (assignmentAccesses op target target.accesses value).map Access.mention?
      ↔ x ∈ target.accesses.map Access.mention? ∨ x ∈ value.map Access.mention? := by
  cases hcell : target.cell? with
  | none => rw [assignmentAccesses, hcell, List.map_append, List.mem_append]
  | some cell =>
    rw [Place.accesses_of_cell? hcell, assignmentAccesses, hcell]
    cases op with
    | none => simp [Access.mention?, Write.cell, or_comm]
    | some op =>
      simp only [Option.isSome_some, if_true, List.map_append, List.map_cons, List.map_nil,
        List.mem_append, List.mem_singleton, Access.mention?, Write.cell]
      exact ⟨fun h => h.elim id .inl, .inl⟩

mutual

/-- An expression does something with what it mentions, and declares nothing. -/
theorem Expr.mem_mention {x : Option Mention} :
    (e : Expr) → (x ∈ e.accesses.map Access.mention? ↔ x ∈ e.mentions.map some)
  | .int _ | .float _ | .bool _ | .localVar _ _ | .globalVar _ _ => Iff.rfl
  | .member base _ _ | .swizzle base _ _ => base.mem_mention
  | .unary _ operand => operand.mem_mention
  | .index left right _ | .arith _ left right _ | .compare _ left right | .logic _ left right => by
    simp only [Expr.accesses, Expr.mentions, List.map_append, List.mem_append, left.mem_mention,
      right.mem_mention]
  | .ternary test whenTrue whenFalse => by
    simp only [Expr.accesses, Expr.mentions, List.map_append, List.mem_append, test.mem_mention,
      whenTrue.mem_mention, whenFalse.mem_mention]
  | .assign _ target value => by
    simp only [Expr.accesses, Expr.mentions, List.map_append, List.mem_append,
      mem_mention_assignment, target.mem_mention, value.mem_mention]
  | .step _ target => target.mem_mention
  | .call _ arguments _ => by
    simp only [Expr.accesses, Expr.mentions, List.map_append, List.mem_append,
      Argument.mem_mentionsAll arguments]
    rfl
  | .intrinsic _ arguments _ | .construct _ _ arguments => Expr.mem_mentionsAll arguments

theorem Place.mem_mention {x : Option Mention} :
    (place : Place) → (x ∈ place.accesses.map Access.mention? ↔ x ∈ place.mentions.map some)
  | .localVar _ _ | .globalVar _ _ => Iff.rfl
  | .member base _ _ | .swizzle base _ _ => base.mem_mention
  | .index base index _ => by
    simp only [Place.accesses, Place.mentions, List.map_append, List.mem_append, base.mem_mention,
      index.mem_mention]

theorem Argument.mem_mention {x : Option Mention} :
    (a : Argument) → (x ∈ a.accesses.map Access.mention? ↔ x ∈ a.mentions.map some)
  | .value value => value.mem_mention
  | .reference place => place.mem_mention

theorem Expr.mem_mentionsAll {x : Option Mention} : (es : List Expr) →
    (x ∈ (Expr.accessesAll es).map Access.mention? ↔ x ∈ (Expr.mentionsAll es).map some)
  | [] => Iff.rfl
  | first :: rest => by
    simp only [Expr.accessesAll, Expr.mentionsAll, List.map_append, List.mem_append,
      first.mem_mention, Expr.mem_mentionsAll rest]

theorem Argument.mem_mentionsAll {x : Option Mention} : (arguments : List Argument) →
    (x ∈ (Argument.accessesAll arguments).map Access.mention?
      ↔ x ∈ (Argument.mentionsAll arguments).map some)
  | [] => Iff.rfl
  | first :: rest => by
    simp only [Argument.accessesAll, Argument.mentionsAll, List.map_append, List.mem_append,
      first.mem_mention, Argument.mem_mentionsAll rest]

end

theorem Expr.mem_optionMentions {x : Option Mention} (e : Option Expr) :
    x ∈ (Expr.optionAccesses e).map Access.mention? ↔ x ∈ (Expr.optionMentions e).map some := by
  cases e with
  | none => rfl
  | some e => exact e.mem_mention

theorem Expr.optionAccesses_eq_nil {e : Option Expr} (h : Expr.optionMentions e = []) :
    Expr.optionAccesses e = [] := by
  refine List.eq_nil_iff_forall_not_mem.mpr fun a ha => ?_
  have hx := (Expr.mem_optionMentions e).mp (List.mem_map_of_mem ha)
  rw [h] at hx
  cases hx

@[simp] theorem Expr.declared_optionAccesses (e : Option Expr) :
    (Expr.optionAccesses e).filterMap Access.declared? = [] := by
  refine List.filterMap_eq_nil_iff.mpr fun a ha => ?_
  cases a with
  | declare slot =>
    have hnone : none ∈ (Expr.optionMentions e).map some :=
      (Expr.mem_optionMentions e).mp (List.mem_map.mpr ⟨_, ha, rfl⟩)
    simp at hnone
  | _ => rfl

@[simp] theorem Expr.declared_accesses (e : Expr) : e.accesses.filterMap Access.declared? = [] :=
  Expr.declared_optionAccesses (some e)

mutual

/-- A statement does something with what it mentions. -/
theorem Statement.mem_mentions {m : Mention} :
    (s : Statement) → (some m ∈ s.accesses.map Access.mention? ↔ m ∈ s.mentions)
  | .expr value _ => by simp only [Statement.accesses, Statement.mentions, value.mem_mention,
      List.mem_map, Option.some.injEq, exists_eq_right]
  | .declare _ value _ => by
    simp [Statement.accesses, Statement.mentions, value.mem_mention, Access.mention?]
  | .ifElse test whenTrue whenFalse _ => by
    simp [Statement.accesses, Statement.mentions, test.mem_mention,
      Statement.mem_mentionsAll whenTrue, Statement.mem_mentionsAll whenFalse]
  | .loop test step body _ => by
    simp only [Statement.accesses, Statement.mentions, List.map_append, List.mem_append,
      Expr.mem_optionMentions, Statement.mem_mentionsAll body]
    simp [or_right_comm]
  | .doLoop body test _ => by
    simp [Statement.accesses, Statement.mentions, test.mem_mention,
      Statement.mem_mentionsAll body]
  | .returnFrom value _ => by
    simp [Statement.accesses, Statement.mentions, Expr.mem_optionMentions]
  | .leave _ _ | .discardPixel _ => by simp [Statement.accesses, Statement.mentions]
  | .block body => Statement.mem_mentionsAll body

theorem Statement.mem_mentionsAll {m : Mention} : (body : List Statement) →
    (some m ∈ (Statement.accessesAll body).map Access.mention? ↔ m ∈ Statement.mentionsAll body)
  | [] => by simp [Statement.accessesAll, Statement.mentionsAll]
  | first :: rest => by
    simp only [Statement.accessesAll, Statement.mentionsAll, List.map_append, List.mem_append,
      Statement.mem_mentions first, Statement.mem_mentionsAll rest]

end

/-! ## Code -/

section Code

variable {β : Type} {f : Instruction → Option β}

/-- Picking leaves out what does nothing with variables and functions. -/
def PicksAccesses (f : Instruction → Option β) : Prop :=
  ∀ i, i.accesses = false → f i = none

theorem PicksAccesses.concat (hf : PicksAccesses f) (items : List Item) {i : Instruction}
    (h : i.accesses = false) : Item.pick f (items ++ [.op i]) = Item.pick f items := by
  simp [hf i h]

def Access.pickAll (f : Instruction → Option β) (accesses : List Access) : List β :=
  accesses.flatMap fun a => (f a.instruction).toList

@[simp] theorem Access.pickAll_nil : Access.pickAll f [] = [] :=
  rfl

@[simp] theorem Access.pickAll_cons (a : Access) (rest : List Access) :
    Access.pickAll f (a :: rest) = (f a.instruction).toList ++ Access.pickAll f rest :=
  List.flatMap_cons

@[simp] theorem Access.pickAll_append (first second : List Access) :
    Access.pickAll f (first ++ second) = Access.pickAll f first ++ Access.pickAll f second :=
  List.flatMap_append

theorem PicksAccesses.assignmentCode (hf : PicksAccesses f) (op : Option ArithOp) (target : Place)
    {reference value : List Item} {written read : List Access}
    (hreference : Item.pick f reference = Access.pickAll f written)
    (hvalue : Item.pick f value = Access.pickAll f read) :
    Item.pick f (assignmentCode op target reference value)
      = Access.pickAll f (assignmentAccesses op target written read) := by
  have hsimple : ∀ o, f (.simple o) = none := fun o => hf (.simple o) rfl
  cases target <;> cases op <;>
    simp [Typed.assignmentCode, assignmentAccesses, Place.access?, Place.cell?, Access.instruction,
      Write.instruction, hsimple, hreference, hvalue]

mutual

/-- What is picked out of the code of an expression comes from what it does. -/
theorem Expr.pick_code (hf : PicksAccesses f) :
    (e : Expr) → Item.pick f e.code = Access.pickAll f e.accesses
  | .int _ | .float _ | .bool _ => hf.concat [] rfl
  | .localVar _ _ | .globalVar _ _ => by simp [Expr.code, Expr.accesses, Access.instruction]
  | .member base _ _ | .swizzle base _ _ => (hf.concat _ rfl).trans (base.pick_code hf)
  | .unary _ operand => (hf.concat _ rfl).trans (operand.pick_code hf)
  | .index base index _ => by
    refine (hf.concat _ rfl).trans ?_
    simp [Expr.accesses, base.pick_code hf, index.pick_code hf]
  | .arith _ left right _ | .compare _ left right => by
    refine (hf.concat _ rfl).trans ?_
    simp [Expr.accesses, left.pick_code hf, right.pick_code hf]
  | .logic _ left right => by
    simp [Expr.code, Expr.accesses, left.pick_code hf, right.pick_code hf, hf (.simple _) rfl]
  | .ternary test whenTrue whenFalse => by
    simp [Expr.code, Expr.accesses, test.pick_code hf, whenTrue.pick_code hf,
      whenFalse.pick_code hf]
  | .assign op target value =>
    hf.assignmentCode op target (target.pick_reference hf) (value.pick_code hf)
  | .step _ target => (hf.concat _ rfl).trans (target.pick_reference hf)
  | .call _ arguments _ => by
    simp [Expr.code, Expr.accesses, Access.instruction, Argument.pick_codeAll hf arguments]
  | .intrinsic _ arguments _ | .construct _ _ arguments =>
    (hf.concat _ rfl).trans (Expr.pick_codeAll hf arguments)

theorem Place.pick_reference (hf : PicksAccesses f) :
    (place : Place) → Item.pick f place.reference = Access.pickAll f place.accesses
  | .localVar _ _ | .globalVar _ _ => by
    simp [Place.reference, Place.accesses, Access.instruction, Write.instruction]
  | .member base _ _ | .swizzle base _ _ => (hf.concat _ rfl).trans (base.pick_reference hf)
  | .index base index _ => by
    refine (hf.concat _ rfl).trans ?_
    simp [Place.accesses, base.pick_reference hf, index.pick_code hf]

theorem Argument.pick_code (hf : PicksAccesses f) :
    (argument : Argument) → Item.pick f argument.code = Access.pickAll f argument.accesses
  | .value value => value.pick_code hf
  | .reference place => place.pick_reference hf

theorem Expr.pick_codeAll (hf : PicksAccesses f) :
    (es : List Expr) → Item.pick f (Expr.codeAll es) = Access.pickAll f (Expr.accessesAll es)
  | [] => rfl
  | first :: rest => by
    simp [Expr.codeAll, Expr.accessesAll, first.pick_code hf, Expr.pick_codeAll hf rest]

theorem Argument.pick_codeAll (hf : PicksAccesses f) : (arguments : List Argument) →
    Item.pick f (Argument.codeAll arguments) = Access.pickAll f (Argument.accessesAll arguments)
  | [] => rfl
  | first :: rest => by
    simp [Argument.codeAll, Argument.accessesAll, first.pick_code hf,
      Argument.pick_codeAll hf rest]

end

theorem PicksAccesses.marker (hf : PicksAccesses f) (markers : Bool) (line : Nat) :
    Item.pick f (marker markers line) = [] := by
  unfold Typed.marker
  split
  · exact hf.concat [] rfl
  · rfl

theorem Expr.pick_optionCode (hf : PicksAccesses f) (e : Option Expr) :
    Item.pick f ((e.map Expr.code).getD []) = Access.pickAll f (Expr.optionAccesses e) := by
  cases e with
  | none => rfl
  | some e => exact e.pick_code hf

theorem Expr.pick_effect (hf : PicksAccesses f) (e : Expr) :
    Item.pick f e.effect = Access.pickAll f e.accesses := by
  unfold Expr.effect
  split
  · exact e.pick_code hf
  · exact (hf.concat _ rfl).trans (e.pick_code hf)

theorem Expr.pick_optionEffect (hf : PicksAccesses f) (e : Option Expr) :
    Item.pick f (Expr.optionEffect e) = Access.pickAll f (Expr.optionAccesses e) := by
  cases e with
  | none => rfl
  | some e => exact e.pick_effect hf

theorem PicksAccesses.returnCode (hf : PicksAccesses f) (e : Option Expr) :
    Item.pick f (returnCode e) = Access.pickAll f (Expr.optionAccesses e) := by
  cases e with
  | none => exact hf.concat [] rfl
  | some e => exact (hf.concat _ rfl).trans (e.pick_code hf)

variable {markers : Bool}

mutual

/-- What is picked out of the code of a statement comes from what it does. -/
theorem Statement.pick_code (hf : PicksAccesses f) :
    (s : Statement) → Item.pick f (s.code markers) = Access.pickAll f s.accesses
  | .expr value _ => by
    simp [Statement.code, Statement.accesses, hf.marker, value.pick_effect hf]
  | .declare slot value _ => by
    simp [Statement.code, Statement.accesses, hf.marker, value.pick_code hf, Access.instruction]
  | .ifElse test whenTrue whenFalse _ => by
    have hbranch : Item.pick f (branchCode (Statement.codeAll markers whenTrue)
        (Statement.codeAll markers whenFalse) !whenFalse.isEmpty)
        = Access.pickAll f (Statement.accessesAll whenTrue ++ Statement.accessesAll whenFalse) := by
      -- A branch that is absent has no code.
      cases whenFalse with
      | nil => simp [branchCode, Statement.pick_codeAll hf whenTrue, Statement.accessesAll]
      | cons s rest =>
        simp [branchCode, Statement.pick_codeAll hf whenTrue, Statement.pick_codeAll hf (s :: rest)]
    simp [Statement.code, Statement.accesses, hf.marker, test.pick_code hf, hbranch]
  | .loop test step body _ => by
    simp [Statement.code, Statement.accesses, hf.marker, Expr.pick_optionCode hf,
      Expr.pick_optionEffect hf, Statement.pick_codeAll hf body]
  | .doLoop body test _ => by
    simp [Statement.code, Statement.accesses, hf.marker, test.pick_code hf,
      Statement.pick_codeAll hf body]
  | .returnFrom value _ => by simp [Statement.code, Statement.accesses, hf.marker, hf.returnCode]
  | .leave _ _ => by simp [Statement.code, Statement.accesses, hf.marker]
  | .discardPixel line => (hf.concat _ rfl).trans (hf.marker markers line)
  | .block body => Statement.pick_codeAll hf body

theorem Statement.pick_codeAll (hf : PicksAccesses f) : (body : List Statement) →
    Item.pick f (Statement.codeAll markers body) = Access.pickAll f (Statement.accessesAll body)
  | [] => rfl
  | first :: rest => by
    simp [Statement.codeAll, Statement.accessesAll, Statement.pick_code hf first,
      Statement.pick_codeAll hf rest]

end

/-- What is picked out of the code of a function whose last value does nothing. -/
theorem Definition.pick_code (hf : PicksAccesses f) {d : Definition}
    (h : Expr.optionAccesses d.zero = []) :
    Item.pick f (d.code markers) = Access.pickAll f (Statement.accessesAll d.body) := by
  have hzero : Item.pick f (if endsInReturn d.body then [] else returnCode d.zero) = [] := by
    split
    · rfl
    · rw [hf.returnCode, h]
      rfl
  rw [Definition.code, Item.pick_append, hzero, List.append_nil, Statement.pick_codeAll hf]

end Code

/-! ## Writes -/

def Expr.writes (e : Expr) : List Write :=
  e.accesses.filterMap Access.write?

def Statement.writesAll (body : List Statement) : List Write :=
  (Statement.accessesAll body).filterMap Access.write?

abbrev writers (items : List Item) : List Instruction :=
  Item.pick (Option.guard Instruction.writes) items

theorem picksAccesses_writes : PicksAccesses (Option.guard Instruction.writes) := by
  intro i hi
  cases i with
  | indexed op operand => cases op <;> first | rfl | cases hi
  | _ => rfl

theorem pickAll_writes (accesses : List Access) :
    Access.pickAll (Option.guard Instruction.writes) accesses
      = (accesses.filterMap Access.write?).map Write.instruction := by
  induction accesses with
  | nil => rfl
  | cons a rest ih =>
    rw [Access.pickAll_cons, ih]
    obtain (_ | _) | ((_ | _) | (_ | _)) | _ | _ := a <;> rfl

/-- The writing instructions in the code of an expression are those of its writes. -/
theorem Expr.writers_code (e : Expr) : writers e.code = e.writes.map Write.instruction :=
  (e.pick_code picksAccesses_writes).trans (pickAll_writes _)

/-- The writing instructions in the code of a function whose last value does nothing. -/
theorem Definition.writers_code {markers : Bool} {d : Definition}
    (h : Expr.optionAccesses d.zero = []) :
    writers (d.code markers) = (Statement.writesAll d.body).map Write.instruction :=
  (Definition.pick_code picksAccesses_writes h).trans (pickAll_writes _)

end Typed

end ShaderBytecode
