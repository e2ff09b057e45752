import ShaderBytecode.Proofs.Routines

/-!
# Instructions picked out of code

Assembling computes jumps and changes nothing else. So what is picked out of the instructions of
assembled code is what was picked out of its items, in the same order.
-/

namespace ShaderBytecode.Item

variable {β : Type} (f : Instruction → Option β)

def pick (items : List Item) : List β :=
  items.filterMap fun
    | .op i => f i
    | .jump _ _ | .leave _ => none

@[simp] theorem pick_nil : pick f [] = [] :=
  rfl

@[simp] theorem pick_append (first second : List Item) :
    pick f (first ++ second) = pick f first ++ pick f second :=
  List.filterMap_append

@[simp] theorem pick_op (i : Instruction) (rest : List Item) :
    pick f (.op i :: rest) = (f i).toList ++ pick f rest := by
  unfold pick
  cases h : f i with
  | none => exact List.filterMap_cons_none h
  | some b => exact List.filterMap_cons_some h

@[simp] theorem pick_simple (op : SimpleOp) (rest : List Item) :
    pick f (.simple op :: rest) = (f (.simple op)).toList ++ pick f rest :=
  pick_op f _ rest

@[simp] theorem pick_indexed (op : IndexedOp) (index : Nat) (rest : List Item) :
    pick f (.indexed op index :: rest)
      = (f (.indexed op (.ofNat index))).toList ++ pick f rest :=
  pick_op f _ rest

@[simp] theorem pick_jump (condition : JumpWhen) (distance : Int) (rest : List Item) :
    pick f (.jump condition distance :: rest) = pick f rest :=
  rfl

@[simp] theorem pick_leave (kind : Typed.Leave) (rest : List Item) :
    pick f (.leave kind :: rest) = pick f rest :=
  rfl

@[simp] theorem pick_skip (condition : JumpWhen) (body : List Item) :
    pick f (skip condition body) = pick f body := by
  simp [skip]

@[simp] theorem pick_choose (first second : List Item) :
    pick f (choose first second) = pick f first ++ pick f second := by
  simp [choose]

@[simp] theorem pick_closeLeaves (after : Nat) (body : List Item) :
    pick f (closeLeaves after body) = pick f body := by
  induction body with
  | nil => rfl
  | cons item rest ih =>
    cases item with
    | op i => simp [closeLeaves, ih]
    | jump condition distance => simp [closeLeaves, ih]
    | leave kind => cases kind <;> simp [closeLeaves, ih]

@[simp] theorem pick_backWhen (condition : JumpWhen) (body : List Item) :
    pick f (backWhen condition body) = pick f body := by
  simp [backWhen]

@[simp] theorem pick_repeatWhile (test : Option (List Item)) (body step : List Item) :
    pick f (repeatWhile test body step)
      = pick f (test.getD []) ++ pick f body ++ pick f step := by
  cases test with
  | none => simp [repeatWhile]
  | some test => simp [repeatWhile]

@[simp] theorem pick_repeatUntil (body test : List Item) :
    pick f (repeatUntil body test) = pick f body ++ pick f test := by
  simp [repeatUntil]

theorem filterMap_assemble (hjump : ∀ condition target, f (.jump condition target) = none)
    {p : Nat} {items : List Item} {code : List Instruction}
    (h : ShaderBytecode.assemble p items = .ok code) : code.filterMap f = pick f items := by
  induction items generalizing p code with
  | nil =>
    cases h
    rfl
  | cons item rest ih =>
    obtain ⟨i, more, hitem, hmore, rfl⟩ := assemble_cons.mp h
    rw [List.filterMap_cons, ih hmore]
    cases item with
    | op instruction =>
      cases hitem
      rw [pick_op]
      cases f i <;> rfl
    | jump condition distance =>
      obtain ⟨target, -, rfl⟩ := eq_jump_of_assemble hitem
      rw [hjump, pick_jump]
    | leave kind => cases hitem

end ShaderBytecode.Item
