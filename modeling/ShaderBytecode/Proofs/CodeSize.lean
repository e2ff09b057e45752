import ShaderBytecode.Proofs.RoutineTyping

/-!
# The size of code

Every instruction is short: numbers take five bytes at most, types twelve and a swizzle four
components. So the code of a well typed tree is not much larger than the tree.
-/

namespace ShaderBytecode

open Item (sizeAll_append)

/-! ## Instructions -/

theorem Leb128.length_unsignedWithin (limit n : Nat) :
    (Leb128.unsignedWithin limit n).length ≤ limit := by
  induction limit generalizing n with
  | zero => exact Nat.le_refl 0
  | succ limit ih =>
    rw [Leb128.unsignedWithin]
    split
    · exact Nat.succ_le_succ (Nat.zero_le _)
    · exact Nat.succ_le_succ (ih _)

theorem Leb128.length_signedWithin (limit : Nat) (n : Int) :
    (Leb128.signedWithin limit n).length ≤ limit := by
  induction limit generalizing n with
  | zero => exact Nat.le_refl 0
  | succ limit ih =>
    rw [Leb128.signedWithin]
    split
    · exact Nat.succ_le_succ (Nat.zero_le _)
    · exact Nat.succ_le_succ (ih _)

theorem Leb128.length_unsigned (n : UInt32) : (Leb128.unsigned n).length ≤ 5 :=
  Leb128.length_unsignedWithin _ _

theorem Leb128.length_signed (n : Int32) : (Leb128.signed n).length ≤ 5 :=
  Leb128.length_signedWithin _ _

theorem size_simple (op : SimpleOp) : (Item.simple op).size = 1 :=
  rfl

theorem size_jump (condition : JumpWhen) (distance : Int) :
    (Item.jump condition distance).size = 5 :=
  rfl

theorem size_indexed (op : IndexedOp) (index : Nat) : (Item.indexed op index).size ≤ 6 :=
  Nat.succ_le_succ (Leb128.length_unsigned _)

theorem size_pushInt (value : Int32) : (Item.op (.pushInt value)).size ≤ 6 :=
  Nat.succ_le_succ (Leb128.length_signed value)

theorem size_call (kind : CallKind) (callee count : UInt32) :
    (Item.op (.call kind callee count)).size ≤ 11 := by
  have hcallee := Leb128.length_unsigned callee
  have hcount := Leb128.length_unsigned count
  simp only [Item.size, Instruction.size, Instruction.encode, Instruction.encodeOperands,
    List.length_cons, List.length_append]
  omega

variable {type : DataType} {c : CodeContext} {code : TypeCode}

theorem size_select {op : SelectOp} {base : DataType} {components : List UInt8}
    (h : swizzled? base components = some type) : (Item.op (.select op components)).size ≤ 6 := by
  have hlength : components.length ≤ 4 := by
    unfold swizzled? at h
    split at h
    · split at h
      · rename_i hall
        exact hall.2.1
      · cases h
    · cases h
  simp only [Item.size, Instruction.size, Instruction.encode, Instruction.encodeOperands,
    List.length_cons]
  omega

theorem length_encode_element (hvalue : type.IsElement) (h : c.code? type = some code) :
    code.encode.length ≤ 6 := by
  cases type with
  | struct name =>
    simp only [CodeContext.code?, DataType.code?, Option.map_eq_some_iff] at h
    obtain ⟨index, -, rfl⟩ := h
    exact Nat.succ_le_succ (Leb128.length_unsigned index)
  | void => exact hvalue.elim
  | array element length => exact hvalue.elim
  | _ =>
    cases h
    simp [TypeCode.encode]

theorem length_encode_value (hvalue : type.IsValue) (h : c.code? type = some code) :
    code.encode.length ≤ 12 := by
  cases type with
  | array element length =>
    simp only [CodeContext.code?, DataType.code?, Option.map_eq_some_iff] at h
    obtain ⟨inner, hinner, rfl⟩ := h
    have helement := length_encode_element hvalue hinner
    have hlength := Leb128.length_unsigned length
    simp only [TypeCode.encode, List.length_cons, List.length_append]
    omega
  | void => exact hvalue.elim
  | _ =>
    have helement := length_encode_element (by trivial) h
    omega

theorem size_construct {count : UInt32} (hvalue : type.IsValue) (h : c.code? type = some code) :
    (Item.op (.construct code count)).size ≤ 18 := by
  have hcode := length_encode_value hvalue h
  have hcount := Leb128.length_unsigned count
  simp only [Item.size, Instruction.size, Instruction.encode, Instruction.encodeOperands,
    List.length_cons, List.length_append]
  omega

/-! ## Expressions -/

/-- The bytes of code that there are at most for each node of a tree. -/
def nodeSize : Nat := 32

/-- Code takes so many bytes at most for its nodes, and some more. -/
def Compact (code : List Item) (nodes extra : Nat) : Prop :=
  Item.sizeAll code ≤ nodeSize * nodes + extra

section Compact

variable {first second : List Item} {m n x y : Nat}

theorem compact_nil : Compact [] 0 0 :=
  Nat.le_refl 0

theorem compact_item {item : Item} (h : item.size ≤ x) : Compact [item] 0 x :=
  Nat.le_trans h (Nat.le_add_left x _)

theorem compact_simple (op : SimpleOp) : Compact [.simple op] 0 1 :=
  compact_item (Nat.le_refl 1)

theorem Compact.append (h : Compact first m x) (h' : Compact second n y) :
    Compact (first ++ second) (m + n) (x + y) := by
  unfold Compact at *
  rw [sizeAll_append, Nat.mul_add]
  omega

theorem Compact.cons {item : Item} (hitem : item.size ≤ x) (h : Compact second n y) :
    Compact (item :: second) n (x + y) := by
  unfold Compact at *
  rw [Item.sizeAll]
  omega

/-- What code takes besides its nodes may be counted as one node more. -/
theorem Compact.node (h : Compact first m x) (hx : x ≤ nodeSize) : Compact first (m + 1) 0 := by
  unfold Compact at *
  rw [Nat.mul_succ]
  omega

theorem Compact.of_le (h : Compact first m x)
    (hle : Item.sizeAll second + x ≤ Item.sizeAll first + y) : Compact second m y := by
  unfold Compact at *
  omega

theorem Compact.choose (h : Compact first m x) (h' : Compact second n y) :
    Compact (Item.choose first second) (m + n) (5 + (x + 5) + y) :=
  (Compact.cons (Nat.le_refl 5) (h.append (compact_item (Nat.le_refl 5)))).append h'

theorem compact_marker (markers : Bool) (line : Nat) : Compact (Typed.marker markers line) 0 6 := by
  cases markers with
  | false => exact Nat.zero_le _
  | true => exact compact_item (size_indexed .line line)

theorem Compact.marked (h : Compact first n x) (markers : Bool)
    (line : Nat) : Compact (Typed.marker markers line ++ first) n (6 + x) := by
  have hmarked := (compact_marker markers line).append h
  rwa [Nat.zero_add] at hmarked

theorem Compact.branchCode (h : Compact first m 0) (h' : Compact second n 0) (hasElse : Bool) :
    Compact (Typed.branchCode first second hasElse) (m + n) 10 := by
  refine (h.append h').of_le ?_
  cases hasElse <;> simp only [Typed.branchCode, Item.choose, Item.skip, sizeAll_append,
    Item.sizeAll, size_jump, if_true, Bool.false_eq_true, if_false] <;> omega

theorem Compact.repeatWhile {test : Option (List Item)} {k : Nat}
    (htest : Compact (test.getD []) m 0) (hstep : Compact second k 1) (hbody : Compact first n 0) :
    Compact (Item.repeatWhile test first second) (m + k + n) 11 := by
  refine ((htest.append hstep).append hbody).of_le ?_
  rw [sizeAll_append, sizeAll_append]
  cases test <;> simp only [Item.repeatWhile, Item.backWhen, sizeAll_append, sizeAll_closeLeaves,
    Item.sizeAll, size_jump, Option.getD] <;> omega

theorem Compact.repeatUntil (h : Compact first m 0) (h' : Compact second n 0) :
    Compact (Item.repeatUntil first second) (m + n) 5 := by
  refine (h.append h').of_le ?_
  simp only [Item.repeatUntil, Item.backWhen, sizeAll_append, sizeAll_closeLeaves, Item.sizeAll,
    size_jump]
  omega

end Compact

namespace Typed

mutual

def Expr.nodes : Expr → Nat
  | .int _ | .float _ | .bool _ | .localVar _ _ | .globalVar _ _ => 1
  | .member base _ _ | .swizzle base _ _ | .unary _ base => base.nodes + 1
  | .index left right _ | .arith _ left right _ | .compare _ left right | .logic _ left right =>
    left.nodes + right.nodes + 1
  | .ternary test whenTrue whenFalse => test.nodes + whenTrue.nodes + whenFalse.nodes + 1
  | .assign _ target value => target.nodes + value.nodes + 1
  | .step _ target => target.nodes + 1
  | .call _ arguments _ => Argument.nodesAll arguments + 1
  | .intrinsic _ arguments _ | .construct _ _ arguments => Expr.nodesAll arguments + 1

def Place.nodes : Place → Nat
  | .localVar _ _ | .globalVar _ _ => 1
  | .member base _ _ | .swizzle base _ _ => base.nodes + 1
  | .index base index _ => base.nodes + index.nodes + 1

def Argument.nodes : Argument → Nat
  | .value value => value.nodes
  | .reference place => place.nodes

def Expr.nodesAll : List Expr → Nat
  | [] => 0
  | first :: rest => first.nodes + Expr.nodesAll rest

def Argument.nodesAll : List Argument → Nat
  | [] => 0
  | first :: rest => first.nodes + Argument.nodesAll rest

end

variable {c : CodeContext}

theorem compact_assignmentCode (op : Option ArithOp) (target : Place) {reference value : List Item}
    {m n : Nat} (h : Compact reference m 0) (h' : Compact value n 0) :
    Compact (assignmentCode op target reference value) (m + n) 14 := by
  refine (h.append h').of_le ?_
  rw [sizeAll_append]
  unfold assignmentCode
  cases target with
  | localVar slot type =>
    have hread := size_indexed .getLocal slot
    have hwrite := size_indexed .setLocal slot
    cases op <;> simp only [Place.access?, List.cons_append, Item.sizeAll, sizeAll_append,
      size_simple] <;> omega
  | globalVar slot type =>
    have hread := size_indexed .getGlobal slot
    have hwrite := size_indexed .setGlobal slot
    cases op <;> simp only [Place.access?, List.cons_append, Item.sizeAll, sizeAll_append,
      size_simple] <;> omega
  | _ =>
    cases op <;> simp only [Place.access?, Item.sizeAll, sizeAll_append, size_simple] <;> omega

mutual

theorem Expr.WellTyped.compact : {e : Expr} → e.WellTyped c → Compact e.code e.nodes 0
  | .int value, _ => (compact_item (size_pushInt value)).node (by decide)
  | .float _, _ => (compact_item (Nat.le_refl 5)).node (by decide)
  | .bool _, _ => (compact_item (Nat.le_refl 2)).node (by decide)
  | .localVar _ _, _ | .globalVar _ _, _ => (compact_item (size_indexed _ _)).node (by decide)
  | .member _ _ _, h => (h.1.compact.append (compact_item (size_indexed _ _))).node (by decide)
  | .swizzle _ _ _, h => (h.1.compact.append (compact_item (size_select h.2))).node (by decide)
  | .unary _ _, h => (h.1.compact.append (compact_simple _)).node (by decide)
  | .index _ _ _, h | .arith _ _ _ _, h | .compare _ _ _, h =>
    ((h.1.compact.append h.2.1.compact).append (compact_simple _)).node (by decide)
  | .logic _ _ _, h =>
    (h.1.compact.append (.cons (Nat.le_refl 1) (.cons (Nat.le_refl 5)
      (.cons (Nat.le_refl 1) h.2.1.compact)))).node (by decide)
  | .ternary _ _ _, h => by
    rw [Expr.nodes, Nat.add_assoc (Expr.nodes _)]
    exact (h.1.compact.append (h.2.1.compact.choose h.2.2.1.compact)).node (by decide)
  | .assign op target _, h =>
    (compact_assignmentCode op target h.1.compact h.2.1.compact).node (by decide)
  | .step _ _, h => (h.1.compact.append (compact_simple _)).node (by decide)
  | .call _ _ _, ⟨_, _, _, harguments⟩ =>
    (harguments.compact.append (compact_item (size_call ..))).node (by decide)
  | .intrinsic _ _ _, h => (h.1.compact.append (compact_item (size_call ..))).node (by decide)
  | .construct _ _ _, ⟨harguments, hvalue, htype, _⟩ =>
    (harguments.compact.append (compact_item (size_construct hvalue htype))).node (by decide)

theorem Place.WellTyped.compact :
    {place : Place} → place.WellTyped c → Compact place.reference place.nodes 0
  | .localVar _ _, _ | .globalVar _ _, _ => (compact_item (size_indexed _ _)).node (by decide)
  | .member _ _ _, h => (h.1.compact.append (compact_item (size_indexed _ _))).node (by decide)
  | .swizzle _ _ _, h => (h.1.compact.append (compact_item (size_select h.2.1))).node (by decide)
  | .index _ _ _, h =>
    ((h.1.compact.append h.2.1.compact).append (compact_simple _)).node (by decide)

theorem Argument.WellTyped.compact {type : DataType} {passing : Passing} : {argument : Argument} →
    argument.WellTyped c type passing → Compact argument.code argument.nodes 0
  | .value _, h => h.2.2.compact
  | .reference _, h => h.2.2.compact

theorem Expr.AllWellTyped.compact : {es : List Expr} → Expr.AllWellTyped c es →
    Compact (Expr.codeAll es) (Expr.nodesAll es) 0
  | [], _ => compact_nil
  | _ :: _, h => h.1.compact.append (Expr.AllWellTyped.compact h.2)

theorem Argument.AllWellTyped.compact : {parameters : List (DataType × Passing)} →
    {arguments : List Argument} → Argument.AllWellTyped c parameters arguments →
      Compact (Argument.codeAll arguments) (Argument.nodesAll arguments) 0
  | [], [], _ => compact_nil
  | _ :: _, _ :: _, h => h.1.compact.append (Argument.AllWellTyped.compact h.2)

end

/-! ## Statements -/

def Expr.optionNodes (e : Option Expr) : Nat :=
  (e.map Expr.nodes).getD 0

mutual

def Statement.nodes : Statement → Nat
  | .expr value _ | .declare _ value _ => value.nodes + 1
  | .ifElse test whenTrue whenFalse _ =>
    test.nodes + Statement.nodesAll whenTrue + Statement.nodesAll whenFalse + 1
  | .loop test step body _ =>
    Expr.optionNodes test + Expr.optionNodes step + Statement.nodesAll body + 1
  | .doLoop body test _ => Statement.nodesAll body + test.nodes + 1
  | .returnFrom value _ => Expr.optionNodes value + 1
  | .leave _ _ | .discardPixel _ => 1
  | .block body => Statement.nodesAll body + 1

def Statement.nodesAll : List Statement → Nat
  | [] => 0
  | first :: rest => first.nodes + Statement.nodesAll rest

end

theorem Statement.nodesAll_append (front back : List Statement) :
    Statement.nodesAll (front ++ back) = Statement.nodesAll front + Statement.nodesAll back := by
  induction front with
  | nil => exact (Nat.zero_add _).symm
  | cons first rest ih =>
    rw [List.cons_append, Statement.nodesAll, Statement.nodesAll, ih, Nat.add_assoc]

theorem Expr.WellTyped.compact_effect {e : Expr} (h : e.WellTyped c) :
    Compact e.effect e.nodes 1 := by
  unfold Expr.effect
  split
  · exact h.compact.of_le (Nat.le_succ _)
  · exact h.compact.append (compact_simple _)

theorem compact_optionEffect {e : Option Expr} (h : ∀ step ∈ e, step.WellTyped c) :
    Compact (Expr.optionEffect e) (Expr.optionNodes e) 1 := by
  cases e with
  | none => exact Nat.zero_le _
  | some step => exact (h step rfl).compact_effect

theorem Expr.FitsResult.compact {value : Option Expr} (h : Expr.FitsResult c value) :
    Compact (returnCode value) (Expr.optionNodes value) 1 := by
  cases value with
  | none => exact compact_simple .ret
  | some value => exact h.1.compact.append (compact_simple _)

theorem Expr.OptionalCondition.compact {test : Option Expr} (h : Expr.OptionalCondition c test) :
    Compact ((test.map Expr.code).getD []) (Expr.optionNodes test) 0 := by
  cases test with
  | none => exact compact_nil
  | some test => exact (h test rfl).1.compact

mutual

theorem Statement.WellTyped.compact (markers : Bool) {inLoop : Bool} : {st : Statement} →
    st.WellTyped c inLoop → Compact (st.code markers) st.nodes 0
  | .expr _ line, h => ((Expr.WellTyped.compact_effect h).marked markers line).node (by decide)
  | .declare _ _ line, h =>
    ((h.1.compact.marked markers line).append (compact_item (size_indexed _ _))).node (by decide)
  | .ifElse test _ _ line, ⟨htest, _, htrue, hfalse⟩ => by
    rw [Statement.nodes, Nat.add_assoc test.nodes]
    exact ((htest.compact.marked markers line).append
      ((htrue.compact markers).branchCode (hfalse.compact markers) _)).node (by decide)
  | .loop _ _ _ line, ⟨htest, hstep, hbody⟩ =>
    ((htest.compact.repeatWhile (compact_optionEffect hstep) (hbody.compact markers)).marked
      markers line).node (by decide)
  | .doLoop _ _ line, ⟨hbody, htest, _⟩ =>
    (((hbody.compact markers).repeatUntil htest.compact).marked markers line).node (by decide)
  | .returnFrom _ line, h => ((Expr.FitsResult.compact h).marked markers line).node (by decide)
  | .leave _ line, _ =>
    ((compact_item (Nat.le_refl 5)).marked markers line).node (by decide)
  | .discardPixel line, _ =>
    ((compact_simple _).marked markers line).node (by decide)
  | .block _, h => (Statement.AllWellTyped.compact markers h).node (by decide)

theorem Statement.AllWellTyped.compact (markers : Bool) {inLoop : Bool} :
    {body : List Statement} → Statement.AllWellTyped c inLoop body →
      Compact (Statement.codeAll markers body) (Statement.nodesAll body) 0
  | [], _ => compact_nil
  | _ :: _, h => (h.1.compact markers).append (Statement.AllWellTyped.compact markers h.2)

end

def Definition.nodes (d : Definition) : Nat :=
  Statement.nodesAll d.body + Expr.optionNodes d.zero + 1

theorem Definition.sizeAll_code_le (markers : Bool) {d : Definition}
    (hbody : Statement.AllWellTyped c false d.body) (hzero : Expr.FitsResult c d.zero) :
    Item.sizeAll (d.code markers) ≤ nodeSize * d.nodes := by
  have hcode : Compact (d.code markers)
      (Statement.nodesAll d.body + Expr.optionNodes d.zero) 1 := by
    unfold Definition.code
    split
    · exact (hbody.compact markers).append (show Compact [] _ 1 from Nat.zero_le _)
    · exact (hbody.compact markers).append hzero.compact
  exact hcode.node (by decide)

def Global.nodes (g : Global) : Nat :=
  Expr.optionNodes g.initializer + 1

theorem Global.WellTyped.sizeAll_code_le (markers : Bool) {index : Nat} {g : Global}
    (h : g.WellTyped c index) : Item.sizeAll (g.code markers index) ≤ nodeSize * g.nodes := by
  unfold Global.code Global.nodes
  cases hinit : g.initializer with
  | none => exact Nat.zero_le _
  | some value =>
    exact (((h.2 value hinit).1.compact.marked markers g.line).append
      (compact_item (size_indexed .setGlobal index))).node (by decide)

end Typed

end ShaderBytecode
