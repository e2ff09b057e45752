import ShaderBytecode.Emit.Code
import ShaderBytecode.Proofs.FragmentTyping

/-!
# The code of well typed expressions obeys the stack rules

The code of an expression leaves its value, and the code of a place leaves a reference to it.
Numbers in instructions are words, so all of this is for registries and codes that are not too large
for them.
-/

namespace ShaderBytecode

open Item (sizeAll_append)

/-- Every place of the registries has a number that fits a word. -/
structure CodeContext.Small (c : CodeContext) : Prop where
  locals : c.locals.length ≤ UInt32.size
  globals : c.globals.length ≤ UInt32.size
  functions : c.functions.length ≤ UInt32.size
  structures : c.structures.length ≤ UInt32.size
  members : ∀ s ∈ c.structures, s.members.length ≤ UInt32.size

theorem toNat_ofNat_of_getElem? {α : Type} {l : List α} (hl : l.length ≤ UInt32.size) {i : Nat}
    {a : α} (h : l[i]? = some a) : (UInt32.ofNat i).toNat = i := by
  have hi : i < l.length := (List.getElem?_eq_some_iff.mp h).1
  exact UInt32.toNat_ofNat_of_lt' (Nat.lt_of_lt_of_le hi hl)

section Operations

variable {c : CodeContext} {inLoop : Bool} {s s' : StackType}

theorem Turns.simple {op : SimpleOp} (h : op.effect? c s = some s') :
    Turns c inLoop [.simple op] s s' :=
  .op rfl h

theorem Turns.indexed {op : IndexedOp} {index : Nat} (hindex : (UInt32.ofNat index).toNat = index)
    (h : op.effect? c index s = some s') : Turns c inLoop [.indexed op index] s s' := by
  refine .op rfl ?_
  rw [Instruction.effect?, hindex]
  exact h

variable {type base : DataType}

theorem DataType.onto_of_value (h : type.isVoid = false) : type.onto s = .value type :: s := by
  rw [DataType.onto, h]
  rfl

theorem effect?_arith (op : ArithOp) (left right : DataType) :
    op.operation.effect? c (.value right :: .value left :: s) =
      (arithType? c.dialect op left right).map (.value · :: s) := by
  cases op <;> rfl

theorem effect?_compare {op : CompareOp} {left right : DataType}
    (h : comparable op left right = true) :
    op.operation.effect? c (.value right :: .value left :: s) = some (.value .bool :: s) := by
  have heffect : op.operation.effect? c (.value right :: .value left :: s) =
      (if comparable op left right then some DataType.bool else none).map (.value · :: s) := by
    cases op <;> rfl
  rw [heffect, if_pos h]
  rfl

theorem effect?_unary {op : Ast.UnaryOp} (h : op.accepts type) :
    op.operation.effect? c (.value type :: s) = some (.value type :: s) := by
  cases op with
  | negate => exact if_pos h
  | not =>
    cases h
    rfl

theorem effect?_step {op : Ast.StepOp} (h : type.isNumeric = true) :
    op.operation.effect? c (.reference type :: s) = some (.value type :: s) := by
  have heffect : op.operation.effect? c (.reference type :: s) =
      if type.isNumeric then some (.value type :: s) else none := by
    cases op <;> rfl
  rw [heffect, if_pos h]

/-! ## Operands that are no value would not be legal -/

theorem isVoid_of_memberType? {index : Nat} (h : c.memberType? base index = some type) :
    base.isVoid = false := by
  cases base with
  | void => cases h
  | _ => rfl

theorem isVoid_of_swizzled? {components : List UInt8} (h : swizzled? base components = some type) :
    base.isVoid = false := by
  cases base with
  | void => cases h
  | _ => rfl

theorem isVoid_of_elementType? (h : elementType? base = some type) : base.isVoid = false := by
  cases base with
  | void => cases h
  | _ => rfl

theorem isVoid_of_accepts {op : Ast.UnaryOp} (h : op.accepts type) : type.isVoid = false := by
  cases type with
  | void => cases op <;> cases h
  | _ => rfl

theorem isVoid_of_comparable {op : CompareOp} {left right : DataType}
    (h : comparable op left right = true) : left.isVoid = false ∧ right.isVoid = false := by
  have heq : left = right := by
    unfold comparable at h
    split at h <;> split at h <;> grind
  subst heq
  cases left with
  | void => cases op <;> cases h
  | _ => exact ⟨rfl, rfl⟩

theorem isVoid_of_constructs (hc : c.Valid) {arguments : List DataType}
    (h : c.constructs type arguments = true) : ∀ a ∈ arguments, a.isVoid = false := by
  intro a ha
  have hcount : ∀ needed, builtFrom type needed arguments = true → a.isVoid = false := by
    intro needed hbuilt
    simp only [builtFrom, Bool.and_eq_true, List.all_eq_true] at hbuilt
    have hsome := hbuilt.1 a ha
    cases a with
    | void => cases hsome
    | _ => rfl
  have hother : (type.componentCount?.any fun needed => builtFrom type needed arguments) = true →
      a.isVoid = false := by
    intro hany
    obtain ⟨needed, -, hbuilt⟩ := (Option.any_eq_true _ _).mp hany
    exact hcount needed hbuilt
  cases arguments with
  | nil => cases ha
  | cons first rest =>
    cases type with
    | struct name =>
      obtain ⟨struct, hstruct, hmembers⟩ := (Option.any_eq_true _ _).mp h
      rw [← of_decide_eq_true hmembers] at ha
      obtain ⟨m, hm, rfl⟩ := List.mem_map.mp ha
      exact (hc.members struct (List.mem_of_find?_eq_some hstruct) m hm).isVoid
    | _ => exact hother h

/-! ## Several operands -/

theorem takeValues?_values (types : List DataType) (s : StackType) :
    takeValues? types.length ((types.map StackEntry.value).reverse ++ s) = some (types, s) := by
  have htop : ∀ top : List DataType,
      takeValues? top.length (top.map StackEntry.value ++ s) = some (top.reverse, s) := by
    intro top
    induction top with
    | nil => rfl
    | cons first rest ih =>
      rw [List.length_cons, List.map_cons, List.cons_append, takeValues?, ih]
      simp only [Option.map_some, List.reverse_cons]
  have h := htop types.reverse
  rwa [List.length_reverse, List.map_reverse, List.reverse_reverse] at h

theorem takeEntries?_entries (entries s : StackType) :
    takeEntries? entries (entries.reverse ++ s) = some s := by
  rw [takeEntries?, if_pos (List.isPrefixOf_iff_prefix.mpr (List.prefix_append _ _)),
    ← List.length_reverse, List.drop_left]

theorem type?_of_code? (hc : c.structures.length ≤ UInt32.size) {code : TypeCode}
    (h : c.code? type = some code) : code.type? c.structures = some type := by
  induction type generalizing code with
  | struct name =>
    simp only [CodeContext.code?, DataType.code?, Option.map_eq_some_iff] at h
    obtain ⟨index, ⟨i, hi, rfl⟩, rfl⟩ := h
    obtain ⟨hlt, hname, -⟩ := List.findIdx?_eq_some_iff_getElem.mp hi
    have hget : c.structures[i]? = some c.structures[i] := List.getElem?_eq_getElem hlt
    rw [TypeCode.type?, toNat_ofNat_of_getElem? hc hget, hget, Option.map_some,
      of_decide_eq_true hname]
  | array element length ih =>
    simp only [CodeContext.code?, DataType.code?, Option.map_eq_some_iff] at h
    obtain ⟨inner, hinner, rfl⟩ := h
    rw [TypeCode.type?, ih hinner]
    rfl
  | _ =>
    cases h
    rfl

theorem Intrinsic.ofId?_id (function : Intrinsic) :
    Intrinsic.ofId? function.id = some function := by
  cases function <;> rfl

end Operations

namespace Typed

section Trees

variable {c : CodeContext} {inLoop : Bool} {s : StackType}

theorem Place.WellTyped.access (hs : c.Small) {place : Place} (h : place.WellTyped c)
    {read write : Item} (haccess : place.access? = some (read, write)) :
    Turns c inLoop [read] s (.value place.type :: s)
      ∧ Turns c inLoop [write] (.value place.type :: s) s := by
  cases place with
  | localVar slot type =>
    cases haccess
    have hplace : c.locals[slot]? = some type := h
    have hslot := toNat_ofNat_of_getElem? hs.locals hplace
    refine ⟨.indexed hslot ?_, .indexed hslot ?_⟩
    · rw [IndexedOp.effect?, hplace]
      rfl
    · rw [IndexedOp.effect?, writeEffect?, hplace]
      exact if_pos rfl
  | globalVar slot type =>
    cases haccess
    have hplace : c.globals[slot]? = some type := h
    have hslot := toNat_ofNat_of_getElem? hs.globals hplace
    refine ⟨.indexed hslot ?_, .indexed hslot ?_⟩
    · rw [IndexedOp.effect?, hplace]
      rfl
    · rw [IndexedOp.effect?, writeEffect?, hplace]
      exact if_pos rfl
  | member base index type => cases haccess
  | swizzle base components type => cases haccess
  | index base index type => cases haccess

variable {type base : DataType} {n index : Nat} {arguments : List Item}

theorem turns_assignmentCode (hs : c.Small) {op : Option ArithOp} {target : Place}
    {reference value : List Item} (htarget : target.WellTyped c)
    (hreference : target.access? = none →
      ∀ s, Turns c inLoop reference s (.reference target.type :: s))
    (hvalue : ∀ s, Turns c inLoop value s (.value type :: s))
    (hassigns : assigns c.dialect op target.type type) :
    Turns c inLoop (assignmentCode op target reference value) s (.value target.type :: s) := by
  have harith : ∀ o s, op = some o →
      Turns c inLoop [.simple o.operation] (.value type :: .value target.type :: s)
        (.value target.type :: s) := by
    rintro o s rfl
    have hresult : arithType? c.dialect o target.type type = some target.type := hassigns
    refine .simple ?_
    rw [effect?_arith, hresult]
    rfl
  unfold assignmentCode
  cases haccess : target.access? with
  | some access =>
    have hread : Turns c inLoop [access.1] s (.value target.type :: s) :=
      (htarget.access hs haccess).1
    have hwrite : Turns c inLoop [access.2] (.value target.type :: .value target.type :: s)
        (.value target.type :: s) := (htarget.access hs haccess).2
    cases op with
    | none =>
      cases (hassigns : type = target.type)
      exact (hvalue s).append (.cons (.simple rfl) hwrite)
    | some op =>
      exact .append (.cons hread (hvalue _))
        (.cons (harith op s rfl) (.cons (.simple rfl) hwrite))
  | none =>
    cases op with
    | none =>
      cases (hassigns : type = target.type)
      exact ((hreference haccess s).append (hvalue _)).append (.simple (if_pos rfl))
    | some op =>
      exact (((hreference haccess s).append (.cons (.simple rfl) (.simple rfl))).append
        (hvalue _)).append
        (.cons (harith op (.reference target.type :: s) rfl) (.simple (if_pos rfl)))

theorem Expr.code_ne_nil (e : Expr) : e.code ≠ [] := by
  cases e with
  | assign op target value =>
    rw [Expr.code]
    unfold assignmentCode
    split <;> simp
  | ternary test whenTrue whenFalse => simp [Expr.code, Item.choose, Item.skip]
  | _ => simp [Expr.code]

theorem Place.reference_ne_nil (place : Place) : place.reference ≠ [] := by
  cases place with
  | _ => simp [Place.reference]

theorem sizeAll_pos {code : List Item} (h : code ≠ []) : 0 < Item.sizeAll code := by
  cases code with
  | nil => exact absurd rfl h
  | cons item rest => exact Nat.add_pos_left item.size_pos _

/-- Each operand takes at least a byte of code, so that code of a word's length has a word's number
of operands at most. -/
theorem Expr.length_le_codeAll (es : List Expr) : es.length ≤ Item.sizeAll (Expr.codeAll es) := by
  induction es with
  | nil => exact Nat.zero_le _
  | cons first rest ih =>
    have hfirst := sizeAll_pos first.code_ne_nil
    rw [Expr.codeAll, sizeAll_append, List.length_cons]
    omega

theorem Argument.length_le_codeAll (arguments : List Argument) :
    arguments.length ≤ Item.sizeAll (Argument.codeAll arguments) := by
  induction arguments with
  | nil => exact Nat.zero_le _
  | cons first rest ih =>
    have hfirst : 0 < Item.sizeAll first.code := by
      cases first with
      | value value => exact sizeAll_pos value.code_ne_nil
      | reference place => exact sizeAll_pos place.reference_ne_nil
    rw [Argument.codeAll, sizeAll_append, List.length_cons]
    omega

theorem Argument.AllWellTyped.length {parameters : List (DataType × Passing)}
    {arguments : List Argument} (h : Argument.AllWellTyped c parameters arguments) :
    arguments.length = parameters.length := by
  induction parameters generalizing arguments with
  | nil =>
    cases arguments with
    | nil => rfl
    | cons _ _ => exact h.elim
  | cons _ _ ih =>
    cases arguments with
    | nil => exact h.elim
    | cons _ _ => exact congrArg (· + 1) (ih h.2)

theorem size_left {first second : List Item} (h : Item.sizeAll (first ++ second) < n) :
    Item.sizeAll first < n := by
  rw [sizeAll_append] at h
  omega

theorem size_right {first second : List Item} (h : Item.sizeAll (first ++ second) < n) :
    Item.sizeAll second < n := by
  rw [sizeAll_append] at h
  omega

theorem size_tail {item : Item} {rest : List Item} (h : Item.sizeAll (item :: rest) < n) :
    Item.sizeAll rest < n := by
  rw [Item.sizeAll] at h
  omega

/-- Code that leaves the result of an expression leaves its value, if it has one. -/
theorem turns_value {code : List Item} (h : Turns c inLoop code s (type.onto s))
    (hvalue : type.isVoid = false) : Turns c inLoop code s (.value type :: s) := by
  rw [← DataType.onto_of_value hvalue]
  exact h

theorem sizeAll_assignmentCode (op : Option ArithOp) (target : Place)
    (reference value : List Item) :
    Item.sizeAll value ≤ Item.sizeAll (assignmentCode op target reference value)
      ∧ (target.access? = none →
        Item.sizeAll reference ≤ Item.sizeAll (assignmentCode op target reference value)) := by
  unfold assignmentCode
  split <;> simp only [List.cons_append, Item.sizeAll, sizeAll_append] <;> grind

/-! ## One rule for each form -/

theorem memberIndex (hs : c.Small) (h : c.memberType? base index = some type) :
    (UInt32.ofNat index).toNat = index := by
  cases base with
  | struct name =>
    simp only [CodeContext.memberType?, Option.bind_eq_bind, Option.bind_eq_some_iff] at h
    obtain ⟨struct, hstruct, m, hm, -⟩ := h
    exact toNat_ofNat_of_getElem? (hs.members struct (List.mem_of_find?_eq_some hstruct)) hm
  | _ => cases h

theorem turns_getMember (hs : c.Small) (h : c.memberType? base index = some type) :
    Turns c inLoop [.indexed .getMember index] (.value base :: s) (.value type :: s) := by
  refine .indexed (memberIndex hs h) ?_
  rw [IndexedOp.effect?, h]
  rfl

theorem turns_refMember (hs : c.Small) (h : c.memberType? base index = some type) :
    Turns c inLoop [.indexed .refMember index] (.reference base :: s) (.reference type :: s) := by
  refine .indexed (memberIndex hs h) ?_
  rw [IndexedOp.effect?, h]
  rfl

theorem turns_swizzle {components : List UInt8} (h : swizzled? base components = some type) :
    Turns c inLoop [.op (.select .swizzle components)] (.value base :: s) (.value type :: s) := by
  refine .op rfl ?_
  rw [Instruction.effect?, SelectOp.effect?, h]
  rfl

theorem turns_refSwizzle {components : List UInt8} (h : swizzled? base components = some type)
    (hrepeats : Env.hasRepeats components = false) :
    Turns c inLoop [.op (.select .refSwizzle components)] (.reference base :: s)
      (.reference type :: s) := by
  refine .op rfl ?_
  rw [Instruction.effect?, SelectOp.effect?, hrepeats, h]
  rfl

theorem turns_index (h : elementType? base = some type) :
    Turns c inLoop [.simple .index] (.value .int :: .value base :: s) (.value type :: s) := by
  refine .simple ?_
  rw [SimpleOp.effect?, if_pos rfl, h]
  rfl

theorem turns_refIndex (h : elementType? base = some type) :
    Turns c inLoop [.simple .refIndex] (.value .int :: .reference base :: s)
      (.reference type :: s) := by
  refine .simple ?_
  rw [SimpleOp.effect?, if_pos rfl, h]
  rfl

theorem turns_arith {op : ArithOp} {left right : DataType}
    (h : arithType? c.dialect op left right = some type) :
    Turns c inLoop [.simple op.operation] (.value right :: .value left :: s)
      (.value type :: s) := by
  refine .simple ?_
  rw [effect?_arith, h]
  rfl

/-- The right operand is skipped with the left value on the stack, or takes its place. -/
theorem turns_logic (op : LogicOp) {left right : List Item}
    (hleft : Turns c inLoop left s (.value .bool :: s))
    (hright : Turns c inLoop right s (.value .bool :: s)) :
    Turns c inLoop (left ++ .simple .dup :: Item.skip op.decides (.simple .pop :: right)) s
      (.value .bool :: s) := by
  have hdecides : op.decides ≠ .always := by cases op <;> decide
  exact hleft.append (.cons (.simple rfl) (.skip hdecides (.cons (.simple rfl) hright)))

theorem turns_call (hs : c.Small) {function : Nat} {shape : CallShape} {count : Nat}
    (hfunction : c.functions[function]? = some shape) (hcount : count = shape.parameters.length)
    (hsmall : count < UInt32.size)
    (harguments : Turns c inLoop arguments s (shape.entries.reverse ++ s)) :
    Turns c inLoop (arguments ++ [.op (.call .function (.ofNat function) (.ofNat count))]) s
      (shape.result.onto s) := by
  refine harguments.append (.op rfl ?_)
  rw [Instruction.effect?, UInt32.toNat_ofNat_of_lt' hsmall, CallKind.effect?,
    toNat_ofNat_of_getElem? hs.functions hfunction, hfunction]
  simp only [Option.bind_eq_bind, Option.bind_some, takeEntries?_entries]
  exact if_pos hcount

theorem turns_intrinsic {function : Intrinsic} {types : List DataType}
    (hresult : function.shape.result? c.dialect types = some type)
    (harguments : Turns c inLoop arguments s ((types.map StackEntry.value).reverse ++ s)) :
    Turns c inLoop (arguments ++ [.op (.call .intrinsic function.id (.ofNat types.length))]) s
      (type.onto s) := by
  have harity : types.length = function.arity := (Intrinsic.Shape.result?_spec hresult).1
  have hsmall : types.length < UInt32.size := by
    rw [harity]
    cases function <;> decide
  refine harguments.append (.op rfl ?_)
  rw [Instruction.effect?, UInt32.toNat_ofNat_of_lt' hsmall, CallKind.effect?, Intrinsic.ofId?_id]
  simp only [Option.bind_eq_bind, Option.bind_some, takeValues?_values, hresult]
  exact if_pos harity

theorem turns_construct (hs : c.Small) {code : TypeCode} {types : List DataType}
    (hcode : c.code? type = some code) (hconstructs : c.constructs type types = true)
    (hsmall : types.length < UInt32.size)
    (harguments : Turns c inLoop arguments s ((types.map StackEntry.value).reverse ++ s)) :
    Turns c inLoop (arguments ++ [.op (.construct code (.ofNat types.length))]) s
      (.value type :: s) := by
  refine harguments.append (.op rfl ?_)
  rw [Instruction.effect?, UInt32.toNat_ofNat_of_lt' hsmall, constructEffect?,
    type?_of_code? hs.structures hcode]
  simp only [Option.bind_eq_bind, Option.bind_some, takeValues?_values]
  exact if_pos hconstructs

/-! ## Expressions -/

mutual

theorem Expr.WellTyped.turns (hv : c.Valid) (hs : c.Small) : {e : Expr} → e.WellTyped c →
    Item.sizeAll e.code < UInt32.size → (s : StackType) → Turns c inLoop e.code s (e.type.onto s)
  | .int _, _, _, _ => .op rfl rfl
  | .float _, _, _, _ => .op rfl rfl
  | .bool _, _, _, _ => .op rfl rfl
  | .localVar slot type, h, _, s => by
    have hplace : (Place.localVar slot type).WellTyped c := h
    have hvoid : type.isVoid = false := (hplace.isValue hv).isVoid
    rw [Expr.type, DataType.onto_of_value hvoid]
    exact (hplace.access hs rfl).1
  | .globalVar slot type, h, _, s => by
    have hplace : (Place.globalVar slot type).WellTyped c := h
    have hvoid : type.isVoid = false := (hplace.isValue hv).isVoid
    rw [Expr.type, DataType.onto_of_value hvoid]
    exact (hplace.access hs rfl).1
  | .member base place type, h, hsize, s => by
    have hbase := turns_value (h.1.turns hv hs (size_left hsize) s) (isVoid_of_memberType? h.2)
    rw [Expr.type, DataType.onto_of_value (hv.memberType? h.2).isVoid]
    exact hbase.append (turns_getMember hs h.2)
  | .swizzle base components type, h, hsize, s => by
    have hbase := turns_value (h.1.turns hv hs (size_left hsize) s) (isVoid_of_swizzled? h.2)
    rw [Expr.type, DataType.onto_of_value (isValue_of_swizzled? h.2).isVoid]
    exact hbase.append (turns_swizzle h.2)
  | .index base place type, h, hsize, s => by
    obtain ⟨hbase, hplace, hint, helement⟩ := h
    have hvoid : base.type.isVoid = false := isVoid_of_elementType? helement
    have hvalue : base.type.IsValue := (hbase.isResult hv).resolve_left (by rw [hvoid]; decide)
    have hcode := turns_value (hbase.turns hv hs (size_left (size_left hsize)) s) hvoid
    have hindex := hplace.turns hv hs (size_right (size_left hsize)) (.value base.type :: s)
    rw [hint] at hindex
    rw [Expr.type, DataType.onto_of_value (isValue_of_elementType? hvalue helement).isVoid]
    exact (hcode.append hindex).append (turns_index helement)
  | .unary op operand, h, hsize, s => by
    have hvoid := isVoid_of_accepts h.2
    have hoperand := turns_value (h.1.turns hv hs (size_left hsize) s) hvoid
    rw [Expr.type, DataType.onto_of_value hvoid]
    exact hoperand.append (.simple (effect?_unary h.2))
  | .arith op left right type, h, hsize, s => by
    obtain ⟨hleft, hright, htype⟩ := h
    obtain ⟨hvalue, hvalue', hresult⟩ := isValue_of_arithType? htype
    have hcode := turns_value (hleft.turns hv hs (size_left (size_left hsize)) s) hvalue.isVoid
    have hcode' := turns_value
      (hright.turns hv hs (size_right (size_left hsize)) (.value left.type :: s)) hvalue'.isVoid
    rw [Expr.type, DataType.onto_of_value hresult.isVoid]
    exact (hcode.append hcode').append (turns_arith htype)
  | .compare op left right, h, hsize, s => by
    obtain ⟨hleft, hright, hcomparable⟩ := h
    obtain ⟨hvoid, hvoid'⟩ := isVoid_of_comparable hcomparable
    have hcode := turns_value (hleft.turns hv hs (size_left (size_left hsize)) s) hvoid
    have hcode' := turns_value
      (hright.turns hv hs (size_right (size_left hsize)) (.value left.type :: s)) hvoid'
    exact (hcode.append hcode').append (.simple (effect?_compare hcomparable))
  | .logic op left right, h, hsize, s => by
    obtain ⟨hleft, hright, htype, htype'⟩ := h
    have hcode := hleft.turns hv hs (size_left hsize) s
    -- Between the operands stand a copy, the jump over the right one, and a pop.
    have hcode' := hright.turns hv hs (size_tail (size_tail (size_tail (size_right hsize)))) s
    rw [htype] at hcode
    rw [htype'] at hcode'
    exact turns_logic op hcode hcode'
  | .ternary test whenTrue whenFalse, h, hsize, s => by
    obtain ⟨htest, htrue, hfalse, htype, htypes⟩ := h
    have hchoice := size_right hsize
    have hcode := htest.turns hv hs (size_left hsize) s
    have hcode' := htrue.turns hv hs (size_left (size_tail (size_left hchoice))) s
    have hcode'' := hfalse.turns hv hs (size_right hchoice) s
    rw [htype] at hcode
    rw [← htypes] at hcode''
    exact hcode.append (.choose hcode' hcode'')
  | .assign op target value, h, hsize, s => by
    obtain ⟨htarget, hvalue, hassigns⟩ := h
    obtain ⟨hsize', hsize''⟩ := sizeAll_assignmentCode op target target.reference value.code
    have hplace := htarget.isValue hv
    have hvoid : value.type.isVoid = false := by
      cases op with
      | none => exact hassigns ▸ hplace.isVoid
      | some op => exact (isValue_of_arithType? hassigns).2.1.isVoid
    rw [Expr.type, DataType.onto_of_value hplace.isVoid]
    exact turns_assignmentCode hs htarget
      (fun haccess s => htarget.turns hv hs (Nat.lt_of_le_of_lt (hsize'' haccess) hsize) s)
      (fun s => turns_value (hvalue.turns hv hs (Nat.lt_of_le_of_lt hsize' hsize) s) hvoid) hassigns
  | .step op target, h, hsize, s => by
    have hreference := h.1.turns hv hs (size_left hsize) s
    rw [Expr.type, DataType.onto_of_value (h.1.isValue hv).isVoid]
    exact hreference.append (.simple (effect?_step h.2))
  | .call function arguments type, h, hsize, s => by
    obtain ⟨shape, hshape, rfl, harguments⟩ := h
    have hsmall : arguments.length < UInt32.size :=
      Nat.lt_of_le_of_lt (Argument.length_le_codeAll arguments) (size_left hsize)
    have hparameters := hv.parameters shape (List.mem_of_getElem? hshape)
    exact turns_call hs hshape harguments.length hsmall
      (Argument.AllWellTyped.turns hv hs hparameters harguments (size_left hsize) s)
  | .intrinsic function arguments type, h, hsize, s => by
    obtain ⟨harguments, hresult⟩ := h
    have hvalues := (Intrinsic.Shape.result?_spec hresult).2.1
    have hcode := Expr.AllWellTyped.turns hv hs harguments (fun a ha => (hvalues a ha).isVoid)
      (size_left hsize) s
    have hcall := turns_intrinsic hresult hcode
    rwa [List.length_map] at hcall
  | .construct type code arguments, h, hsize, s => by
    obtain ⟨harguments, hvalue, hcode, hconstructs⟩ := h
    have hsmall : (arguments.map Expr.type).length < UInt32.size := by
      rw [List.length_map]
      exact Nat.lt_of_le_of_lt (Expr.length_le_codeAll arguments) (size_left hsize)
    have hbuilt := turns_construct hs hcode hconstructs hsmall
      (Expr.AllWellTyped.turns hv hs harguments (isVoid_of_constructs hv hconstructs)
        (size_left hsize) s)
    rw [List.length_map] at hbuilt
    rw [Expr.type, DataType.onto_of_value hvalue.isVoid]
    exact hbuilt

theorem Place.WellTyped.turns (hv : c.Valid) (hs : c.Small) :
    {place : Place} → place.WellTyped c → Item.sizeAll place.reference < UInt32.size →
      (s : StackType) → Turns c inLoop place.reference s (.reference place.type :: s)
  | .localVar slot type, h, _, s => by
    have hplace : c.locals[slot]? = some type := h
    refine .indexed (toNat_ofNat_of_getElem? hs.locals hplace) ?_
    rw [IndexedOp.effect?, hplace]
    rfl
  | .globalVar slot type, h, _, s => by
    have hplace : c.globals[slot]? = some type := h
    refine .indexed (toNat_ofNat_of_getElem? hs.globals hplace) ?_
    rw [IndexedOp.effect?, hplace]
    rfl
  | .member base place type, h, hsize, s =>
    (h.1.turns hv hs (size_left hsize) s).append (turns_refMember hs h.2)
  | .swizzle base components type, h, hsize, s =>
    (h.1.turns hv hs (size_left hsize) s).append (turns_refSwizzle h.2.1 h.2.2)
  | .index base place type, h, hsize, s => by
    obtain ⟨hbase, hplace, hint, helement⟩ := h
    have hcode := hbase.turns hv hs (size_left (size_left hsize)) s
    have hindex := hplace.turns hv hs (size_right (size_left hsize)) (.reference base.type :: s)
    rw [hint] at hindex
    exact (hcode.append hindex).append (turns_refIndex helement)

theorem Argument.WellTyped.turns (hv : c.Valid) (hs : c.Small)
    {type : DataType} {passing : Passing} (hvalue : type.IsValue) :
    {argument : Argument} → argument.WellTyped c type passing →
      Item.sizeAll argument.code < UInt32.size → (s : StackType) →
        Turns c inLoop argument.code s (passing.entry type :: s)
  | .value value, h, hsize, s => by
    obtain ⟨hpassing, rfl, hwell⟩ := h
    rw [Passing.entry, hpassing]
    exact turns_value (hwell.turns hv hs hsize s) hvalue.isVoid
  | .reference place, h, hsize, s => by
    obtain ⟨hpassing, rfl, hwell⟩ := h
    rw [Passing.entry, hpassing]
    exact hwell.turns hv hs hsize s

theorem Expr.AllWellTyped.turns (hv : c.Valid) (hs : c.Small) :
    {es : List Expr} → Expr.AllWellTyped c es → (∀ type ∈ es.map Expr.type, type.isVoid = false) →
      Item.sizeAll (Expr.codeAll es) < UInt32.size → (s : StackType) →
        Turns c inLoop (Expr.codeAll es) s (((es.map Expr.type).map StackEntry.value).reverse ++ s)
  | [], _, _, _, _ => .nil
  | first :: rest, h, hvoid, hsize, s => by
    have hfirst := turns_value (h.1.turns hv hs (size_left hsize) s)
      (hvoid _ (List.mem_cons_self ..))
    have hrest := Expr.AllWellTyped.turns hv hs h.2
      (fun type hmem => hvoid type (List.mem_cons_of_mem _ hmem)) (size_right hsize)
      (.value first.type :: s)
    rw [List.map_cons, List.map_cons, List.reverse_cons, List.append_assoc]
    exact hfirst.append hrest

/-- The code of arguments leaves what the parameters take, that of the last on top. -/
theorem Argument.AllWellTyped.turns (hv : c.Valid) (hs : c.Small) :
    {parameters : List (DataType × Passing)} → {arguments : List Argument} →
      (∀ p ∈ parameters, p.1.IsValue) → Argument.AllWellTyped c parameters arguments →
        Item.sizeAll (Argument.codeAll arguments) < UInt32.size → (s : StackType) →
          Turns c inLoop (Argument.codeAll arguments) s
            ((parameters.map fun (type, passing) => passing.entry type).reverse ++ s)
  | [], [], _, _, _, _ => .nil
  | (type, passing) :: parameters, first :: rest, hvalues, h, hsize, s => by
    have hfirst := h.1.turns hv hs (hvalues _ (List.mem_cons_self ..)) (size_left hsize) s
    have hrest := Argument.AllWellTyped.turns hv hs
      (fun p hp => hvalues p (List.mem_cons_of_mem _ hp)) h.2 (size_right hsize)
      (passing.entry type :: s)
    rw [List.map_cons, List.reverse_cons, List.append_assoc]
    exact hfirst.append hrest

end

theorem Expr.WellTyped.turns_value (hv : c.Valid) (hs : c.Small) {e : Expr} (h : e.WellTyped c)
    (htype : e.type = type) (hvoid : type.isVoid = false)
    (hsize : Item.sizeAll e.code < UInt32.size) : Turns c inLoop e.code s (.value type :: s) := by
  subst htype
  exact Typed.turns_value (h.turns hv hs hsize s) hvoid

end Trees

end Typed

end ShaderBytecode
