import ShaderBytecode.Proofs.StackTyping

/-!
# Well typed trees

The rules that typed trees obey in a context. They say what is true of a tree, by recursion on it,
and not how it came about: the checker is proved to give such trees, and the code of such trees is
proved to obey the rules of the stack machine.
-/

namespace ShaderBytecode

/-- Whether an operator in front takes an operand of a type. -/
def Ast.UnaryOp.accepts : Ast.UnaryOp → DataType → Prop
  | .negate, type => type.isNumeric = true
  | .not, type => type = .bool

/-- Whether an assignment takes a value of a type for a place of a type. -/
def assigns (d : Dialect) (op : Option ArithOp) (target value : DataType) : Prop :=
  match op with
  | none => value = target
  | some op => arithType? d op target value = some target

/-- The types that elements of arrays have: all but `void` and arrays. -/
def DataType.IsElement : DataType → Prop
  | .void | .array _ _ => False
  | _ => True

/-- The types that values have: all but `void`, and arrays of elements. -/
def DataType.IsValue : DataType → Prop
  | .void => False
  | .array element _ => element.IsElement
  | _ => True

variable {type : DataType}

theorem DataType.IsElement.isValue (h : type.IsElement) : type.IsValue := by
  cases type with
  | void => exact h.elim
  | array element length => exact h.elim
  | _ => trivial

theorem DataType.IsValue.isVoid (h : type.IsValue) : type.isVoid = false := by
  cases type with
  | void => exact h.elim
  | _ => rfl

theorem DataType.IsValue.constructs_nil {c : CodeContext} (h : type.IsValue) :
    c.constructs type [] = true := by
  rw [CodeContext.constructs.eq_def]
  simp only [h.isVoid, Bool.not_false]

/-- The types that expressions have: those of values, and `void` for calls without a result. -/
def DataType.IsResult (type : DataType) : Prop :=
  type.isVoid = true ∨ type.IsValue

def CodeContext.code? (c : CodeContext) (type : DataType) : Option TypeCode :=
  type.code? fun name => (c.structures.findIdx? (·.name = name)).map .ofNat

namespace Typed

mutual

def Expr.WellTyped (c : CodeContext) : Expr → Prop
  | .int _ | .float _ | .bool _ => True
  | .localVar slot type => c.locals[slot]? = some type
  | .globalVar index type => c.globals[index]? = some type
  | .member base index type => base.WellTyped c ∧ c.memberType? base.type index = some type
  | .swizzle base components type =>
    base.WellTyped c ∧ swizzled? base.type components = some type
  | .index base index type =>
    base.WellTyped c ∧ index.WellTyped c ∧ index.type = .int ∧ elementType? base.type = some type
  | .unary op operand => operand.WellTyped c ∧ op.accepts operand.type
  | .arith op left right type =>
    left.WellTyped c ∧ right.WellTyped c
      ∧ arithType? c.dialect op left.type right.type = some type
  | .compare op left right =>
    left.WellTyped c ∧ right.WellTyped c ∧ comparable op left.type right.type = true
  | .logic _ left right =>
    left.WellTyped c ∧ right.WellTyped c ∧ left.type = .bool ∧ right.type = .bool
  | .ternary test whenTrue whenFalse =>
    test.WellTyped c ∧ whenTrue.WellTyped c ∧ whenFalse.WellTyped c ∧ test.type = .bool
      ∧ whenTrue.type = whenFalse.type
  | .assign op target value =>
    target.WellTyped c ∧ value.WellTyped c ∧ assigns c.dialect op target.type value.type
  | .step _ target => target.WellTyped c ∧ target.type.isNumeric = true
  | .call function arguments type =>
    ∃ shape, c.functions[function.value]? = some shape ∧ shape.result = type
      ∧ Argument.AllWellTyped c shape.parameters arguments
  | .intrinsic function arguments type =>
    Expr.AllWellTyped c arguments
      ∧ function.shape.result? c.dialect (arguments.map Expr.type) = some type
  | .construct type code arguments =>
    Expr.AllWellTyped c arguments ∧ type.IsValue ∧ c.code? type = some code
      ∧ c.constructs type (arguments.map Expr.type) = true

def Place.WellTyped (c : CodeContext) : Place → Prop
  | .localVar slot type => c.locals[slot]? = some type
  | .globalVar index type => c.globals[index]? = some type
  | .member base index type => base.WellTyped c ∧ c.memberType? base.type index = some type
  | .swizzle base components type =>
    base.WellTyped c ∧ swizzled? base.type components = some type
      ∧ Env.hasRepeats components = false
  | .index base index type =>
    base.WellTyped c ∧ index.WellTyped c ∧ index.type = .int ∧ elementType? base.type = some type

/-- The rules of an argument for a parameter: a value for one that is read, and otherwise a place
of the very type. -/
def Argument.WellTyped (c : CodeContext) (type : DataType) (passing : Passing) : Argument → Prop
  | .value value => passing.byReference = false ∧ value.type = type ∧ value.WellTyped c
  | .reference place => passing.byReference = true ∧ place.type = type ∧ place.WellTyped c

def Expr.AllWellTyped (c : CodeContext) : List Expr → Prop
  | [] => True
  | first :: rest => first.WellTyped c ∧ Expr.AllWellTyped c rest

def Argument.AllWellTyped (c : CodeContext) : List (DataType × Passing) → List Argument → Prop
  | [], [] => True
  | (type, passing) :: parameters, first :: rest =>
    first.WellTyped c type passing ∧ Argument.AllWellTyped c parameters rest
  | _, _ => False

end

def Expr.OptionalCondition (c : CodeContext) (e : Option Expr) : Prop :=
  ∀ condition ∈ e, condition.WellTyped c ∧ condition.type = .bool

/-- What a return statement gives fits the result of the function. -/
def Expr.FitsResult (c : CodeContext) : Option Expr → Prop
  | some value => value.WellTyped c ∧ value.type = c.result ∧ c.result.isVoid = false
  | none => c.result.isVoid = true

mutual

/-- The rules of statements. Only what is in a loop can leave one. -/
def Statement.WellTyped (c : CodeContext) (inLoop : Bool) : Statement → Prop
  | .expr value _ => value.WellTyped c
  | .declare slot value _ => value.WellTyped c ∧ c.locals[slot]? = some value.type
  | .ifElse condition whenTrue whenFalse _ =>
    condition.WellTyped c ∧ condition.type = .bool ∧ Statement.AllWellTyped c inLoop whenTrue
      ∧ Statement.AllWellTyped c inLoop whenFalse
  | .loop condition step body _ =>
    Expr.OptionalCondition c condition ∧ (∀ e ∈ step, e.WellTyped c)
      ∧ Statement.AllWellTyped c true body
  | .doLoop body condition _ =>
    Statement.AllWellTyped c true body ∧ condition.WellTyped c ∧ condition.type = .bool
  | .returnFrom value _ => Expr.FitsResult c value
  | .leave _ _ => inLoop = true
  | .discardPixel _ => True
  | .block body => Statement.AllWellTyped c inLoop body

def Statement.AllWellTyped (c : CodeContext) (inLoop : Bool) : List Statement → Prop
  | [] => True
  | first :: rest => first.WellTyped c inLoop ∧ Statement.AllWellTyped c inLoop rest

end

end Typed

/-! ## Growing contexts -/

/-- A context that knows all that another one knows, at the same places. -/
structure CodeContext.Extends (c c' : CodeContext) : Prop where
  dialect : c.dialect = c'.dialect
  structures : c.structures <+: c'.structures
  globals : c.globals <+: c'.globals
  functions : c.functions <+: c'.functions
  locals : c.locals <+: c'.locals
  result : c.result = c'.result

/-- What stands at a place of a list stands there in every longer one. -/
theorem getElem?_mono {α : Type} {short long : List α} (h : short <+: long) {i : Nat} {a : α}
    (ha : short[i]? = some a) : long[i]? = some a := by
  obtain ⟨rest, rfl⟩ := h
  have hi : i < short.length := (List.getElem?_eq_some_iff.mp ha).1
  rw [List.getElem?_append_left hi]
  exact ha

namespace CodeContext

variable {c c' : CodeContext}

theorem Extends.struct? (h : c.Extends c') {name : String} {s : Structure}
    (hs : c.struct? name = some s) : c'.struct? name = some s :=
  h.structures.find?_eq_some hs

theorem Extends.memberType? (h : c.Extends c') {type member : DataType} {index : Nat}
    (hm : c.memberType? type index = some member) : c'.memberType? type index = some member := by
  cases type with
  | struct name =>
    simp only [CodeContext.memberType?, Option.bind_eq_bind, Option.bind_eq_some_iff] at hm ⊢
    obtain ⟨s, hs, hm⟩ := hm
    exact ⟨s, h.struct? hs, hm⟩
  | _ => cases hm

theorem Extends.code? (h : c.Extends c') {type : DataType} {code : TypeCode}
    (hcode : c.code? type = some code) : c'.code? type = some code := by
  induction type generalizing code with
  | struct name =>
    simp only [CodeContext.code?, DataType.code?, Option.map_eq_some_iff] at hcode ⊢
    obtain ⟨index, ⟨i, hi, rfl⟩, rfl⟩ := hcode
    exact ⟨_, ⟨i, h.structures.findIdx?_eq_some hi, rfl⟩, rfl⟩
  | array element length ih =>
    simp only [CodeContext.code?, DataType.code?, Option.map_eq_some_iff] at hcode ⊢
    obtain ⟨inner, hinner, rfl⟩ := hcode
    exact ⟨inner, ih hinner, rfl⟩
  | _ => exact hcode

theorem Extends.constructs (h : c.Extends c') {type : DataType} {arguments : List DataType}
    (hc : c.constructs type arguments = true) : c'.constructs type arguments = true := by
  cases arguments with
  | nil => exact hc
  | cons first rest =>
    cases type with
    | struct name =>
      simp only [CodeContext.constructs, Option.any_eq_true] at hc ⊢
      obtain ⟨s, hs, hmembers⟩ := hc
      exact ⟨s, h.struct? hs, hmembers⟩
    | _ => exact hc

end CodeContext

namespace Typed

variable {c c' : CodeContext}

mutual

theorem Expr.WellTyped.extend (hc : c.Extends c') : {e : Expr} → e.WellTyped c → e.WellTyped c'
  | .int _, _ => trivial
  | .float _, _ => trivial
  | .bool _, _ => trivial
  | .localVar _ _, h => getElem?_mono hc.locals h
  | .globalVar _ _, h => getElem?_mono hc.globals h
  | .member _ _ _, h => ⟨h.1.extend hc, hc.memberType? h.2⟩
  | .swizzle _ _ _, h => ⟨h.1.extend hc, h.2⟩
  | .index _ _ _, h => ⟨h.1.extend hc, h.2.1.extend hc, h.2.2⟩
  | .unary _ _, h => ⟨h.1.extend hc, h.2⟩
  | .arith _ _ _ _, h => ⟨h.1.extend hc, h.2.1.extend hc, hc.dialect ▸ h.2.2⟩
  | .compare _ _ _, h => ⟨h.1.extend hc, h.2.1.extend hc, h.2.2⟩
  | .logic _ _ _, h => ⟨h.1.extend hc, h.2.1.extend hc, h.2.2⟩
  | .ternary _ _ _, h => ⟨h.1.extend hc, h.2.1.extend hc, h.2.2.1.extend hc, h.2.2.2⟩
  | .assign _ _ _, h => ⟨h.1.extend hc, h.2.1.extend hc, hc.dialect ▸ h.2.2⟩
  | .step _ _, h => ⟨h.1.extend hc, h.2⟩
  | .call _ _ _, h =>
    let ⟨shape, hshape, hresult, harguments⟩ := h
    ⟨shape, getElem?_mono hc.functions hshape, hresult, Argument.AllWellTyped.extend hc harguments⟩
  | .intrinsic _ _ _, h => ⟨Expr.AllWellTyped.extend hc h.1, hc.dialect ▸ h.2⟩
  | .construct _ _ _, h =>
    ⟨Expr.AllWellTyped.extend hc h.1, h.2.1, hc.code? h.2.2.1, hc.constructs h.2.2.2⟩

theorem Place.WellTyped.extend (hc : c.Extends c') :
    {place : Place} → place.WellTyped c → place.WellTyped c'
  | .localVar _ _, h => getElem?_mono hc.locals h
  | .globalVar _ _, h => getElem?_mono hc.globals h
  | .member _ _ _, h => ⟨h.1.extend hc, hc.memberType? h.2⟩
  | .swizzle _ _ _, h => ⟨h.1.extend hc, h.2⟩
  | .index _ _ _, h => ⟨h.1.extend hc, h.2.1.extend hc, h.2.2⟩

theorem Argument.WellTyped.extend (hc : c.Extends c') {type : DataType} {passing : Passing} :
    {argument : Argument} → argument.WellTyped c type passing → argument.WellTyped c' type passing
  | .value _, h => ⟨h.1, h.2.1, h.2.2.extend hc⟩
  | .reference _, h => ⟨h.1, h.2.1, h.2.2.extend hc⟩

theorem Expr.AllWellTyped.extend (hc : c.Extends c') :
    {es : List Expr} → Expr.AllWellTyped c es → Expr.AllWellTyped c' es
  | [], _ => trivial
  | _ :: _, h => ⟨h.1.extend hc, Expr.AllWellTyped.extend hc h.2⟩

theorem Argument.AllWellTyped.extend (hc : c.Extends c') :
    {parameters : List (DataType × Passing)} → {arguments : List Argument} →
      Argument.AllWellTyped c parameters arguments → Argument.AllWellTyped c' parameters arguments
  | [], [], _ => trivial
  | _ :: _, _ :: _, h => ⟨h.1.extend hc, Argument.AllWellTyped.extend hc h.2⟩

end

theorem Expr.OptionalCondition.extend (hc : c.Extends c') {e : Option Expr}
    (h : Expr.OptionalCondition c e) : Expr.OptionalCondition c' e := by
  intro condition hmem
  obtain ⟨htyped, htype⟩ := h condition hmem
  exact ⟨htyped.extend hc, htype⟩

theorem Expr.FitsResult.extend (hc : c.Extends c') {value : Option Expr}
    (h : Expr.FitsResult c value) : Expr.FitsResult c' value := by
  cases value with
  | none =>
    rw [Expr.FitsResult, ← hc.result]
    exact h
  | some value =>
    rw [Expr.FitsResult, ← hc.result]
    exact ⟨h.1.extend hc, h.2⟩

mutual

theorem Statement.WellTyped.extend (hc : c.Extends c') {inLoop : Bool} :
    {s : Statement} → s.WellTyped c inLoop → s.WellTyped c' inLoop
  | .expr _ _, h => Expr.WellTyped.extend hc h
  | .declare _ _ _, h => ⟨h.1.extend hc, getElem?_mono hc.locals h.2⟩
  | .ifElse _ _ _ _, h =>
    ⟨h.1.extend hc, h.2.1, Statement.AllWellTyped.extend hc h.2.2.1,
      Statement.AllWellTyped.extend hc h.2.2.2⟩
  | .loop _ _ _ _, h =>
    ⟨h.1.extend hc, fun e he => (h.2.1 e he).extend hc, Statement.AllWellTyped.extend hc h.2.2⟩
  | .doLoop _ _ _, h => ⟨Statement.AllWellTyped.extend hc h.1, h.2.1.extend hc, h.2.2⟩
  | .returnFrom _ _, h => Expr.FitsResult.extend hc h
  | .leave _ _, h => h
  | .discardPixel _, _ => trivial
  | .block _, h => Statement.AllWellTyped.extend hc h

theorem Statement.AllWellTyped.extend (hc : c.Extends c') {inLoop : Bool} :
    {body : List Statement} → Statement.AllWellTyped c inLoop body →
      Statement.AllWellTyped c' inLoop body
  | [], _ => trivial
  | _ :: _, h => ⟨h.1.extend hc, Statement.AllWellTyped.extend hc h.2⟩

end

theorem Statement.allWellTyped_append {inLoop : Bool} {first second : List Statement} :
    Statement.AllWellTyped c inLoop (first ++ second) ↔
      Statement.AllWellTyped c inLoop first ∧ Statement.AllWellTyped c inLoop second := by
  induction first with
  | nil => exact (and_iff_right trivial).symm
  | cons s rest ih =>
    simp only [List.cons_append, Statement.AllWellTyped, ih, and_assoc]

end Typed

/-! ## What holds values -/

/-- Variables, members and parameters hold values, and functions have results. -/
structure CodeContext.Valid (c : CodeContext) : Prop where
  locals : ∀ type ∈ c.locals, type.IsValue
  globals : ∀ type ∈ c.globals, type.IsValue
  members : ∀ s ∈ c.structures, ∀ m ∈ s.members, m.type.IsValue
  parameters : ∀ f ∈ c.functions, ∀ p ∈ f.parameters, p.1.IsValue
  results : ∀ f ∈ c.functions, f.result.IsResult

variable {c : CodeContext} {base type left right : DataType}

theorem CodeContext.Valid.memberType? (hc : c.Valid) {index : Nat}
    (h : c.memberType? base index = some type) : type.IsValue := by
  cases base with
  | struct name =>
    simp only [CodeContext.memberType?, Option.bind_eq_bind, Option.bind_eq_some_iff,
      Option.pure_def, Option.some.injEq] at h
    obtain ⟨s, hs, m, hm, rfl⟩ := h
    exact hc.members s (List.mem_of_find?_eq_some hs) m (List.mem_of_getElem? hm)
  | _ => cases h

theorem isValue_of_swizzled? {components : List UInt8} (h : swizzled? base components = some type) :
    type.IsValue := by
  have htype : type = Env.swizzleType base components := by
    unfold swizzled? at h
    split at h
    · split at h
      · exact (Option.some.inj h).symm
      · cases h
    · cases h
  rw [htype, Env.swizzleType, DataType.withComponents]
  split <;> trivial

theorem isValue_of_isNumeric (h : type.isNumeric = true) : type.IsValue := by
  cases type with
  | void => cases h
  | array element length => cases h
  | _ => trivial

theorem isNumeric_floatVector (size : UInt8) : (DataType.floatVector size).isNumeric = true := by
  unfold DataType.floatVector DataType.withComponents
  split <;> rfl

theorem isValue_of_elementType? (hbase : base.IsValue) (h : elementType? base = some type) :
    type.IsValue := by
  cases base with
  | array element length =>
    cases h
    exact DataType.IsElement.isValue hbase
  | vector kind size =>
    cases h
    trivial
  | matrix columns rows =>
    cases h
    exact isValue_of_isNumeric (isNumeric_floatVector _)
  | _ => cases h

theorem Typed.Place.WellTyped.isValue (hc : c.Valid) :
    {place : Typed.Place} → place.WellTyped c → place.type.IsValue
  | .localVar _ _, h => hc.locals _ (List.mem_of_getElem? h)
  | .globalVar _ _, h => hc.globals _ (List.mem_of_getElem? h)
  | .member _ _ _, h => hc.memberType? h.2
  | .swizzle _ _ _, h => isValue_of_swizzled? h.2.1
  | .index _ _ _, h => isValue_of_elementType? (h.1.isValue hc) h.2.2.2

theorem isNumeric_of_componentwiseType? (hleft : left.isNumeric = true)
    (hright : right.isNumeric = true) (h : componentwiseType? left right = some type) :
    type.isNumeric = true := by
  unfold componentwiseType? at h
  split at h
  · cases h
    exact hleft
  · split at h
    · cases h
      exact hright
    · split at h
      · cases h
        exact hleft
      · cases h

theorem isNumeric_of_productType? (h : productType? left right = some type) :
    type.isNumeric = true := by
  unfold productType? at h
  split at h
  · split at h
    · cases h
      exact isNumeric_floatVector _
    · cases h
  · split at h
    · cases h
      exact isNumeric_floatVector _
    · cases h
  · split at h
    · cases h
      rfl
    · cases h
  · cases h

theorem isNumeric_of_arithType? {d : Dialect} {op : ArithOp}
    (h : arithType? d op left right = some type) :
    left.isNumeric = true ∧ right.isNumeric = true ∧ type.isNumeric = true := by
  unfold arithType? at h
  split at h
  · cases h
  · rename_i hnumeric
    simp only [Bool.or_eq_true, Bool.not_eq_true', not_or, Bool.not_eq_false] at hnumeric
    obtain ⟨⟨hleft, hright⟩, -⟩ := hnumeric
    refine ⟨hleft, hright, ?_⟩
    split at h
    · split at h
      · exact isNumeric_of_componentwiseType? hleft hright h
      · cases h
    · cases hproduct : productType? left right with
      | none =>
        rw [hproduct] at h
        exact isNumeric_of_componentwiseType? hleft hright h
      | some product =>
        rw [hproduct] at h
        cases h
        exact isNumeric_of_productType? hproduct
    · exact isNumeric_of_componentwiseType? hleft hright h

theorem isValue_of_arithType? {d : Dialect} {op : ArithOp}
    (h : arithType? d op left right = some type) : left.IsValue ∧ right.IsValue ∧ type.IsValue := by
  obtain ⟨hleft, hright, htype⟩ := isNumeric_of_arithType? h
  exact ⟨isValue_of_isNumeric hleft, isValue_of_isNumeric hright, isValue_of_isNumeric htype⟩

theorem isValue_of_isFloatScalarOrVector (h : type.isFloatScalarOrVector = true) :
    type.IsValue := by
  cases type with
  | void => cases h
  | array element length => cases h
  | _ => trivial

/-- An intrinsic takes values, as many as its shape says, and has a result. -/
theorem Intrinsic.Shape.result?_spec {d : Dialect} {shape : Intrinsic.Shape}
    {arguments : List DataType} (h : shape.result? d arguments = some type) :
    arguments.length = shape.arity ∧ (∀ a ∈ arguments, a.IsValue) ∧ type.IsResult := by
  have hvector : ∀ size, (DataType.floatVector size).IsValue := fun size =>
    isValue_of_isNumeric (isNumeric_floatVector size)
  unfold Intrinsic.Shape.result? at h
  split at h
  all_goals grind [DataType.IsResult, DataType.isVoid, DataType.IsValue, DataType.float,
    Intrinsic.Shape.arity, → isValue_of_arithType?, isValue_of_isFloatScalarOrVector]

theorem Typed.Expr.WellTyped.isResult (hc : c.Valid) :
    {e : Typed.Expr} → e.WellTyped c → e.type.IsResult
  | .int _, _ => .inr trivial
  | .float _, _ => .inr trivial
  | .bool _, _ => .inr trivial
  | .localVar _ _, h => .inr (hc.locals _ (List.mem_of_getElem? h))
  | .globalVar _ _, h => .inr (hc.globals _ (List.mem_of_getElem? h))
  | .member _ _ _, h => .inr (hc.memberType? h.2)
  | .swizzle _ _ _, h => .inr (isValue_of_swizzled? h.2)
  | .index base _ type, h => by
    have helement : elementType? base.type = some type := h.2.2.2
    obtain hvoid | hvalue := h.1.isResult hc
    · cases hbase : base.type with
      | void =>
        rw [hbase] at helement
        cases helement
      | _ =>
        rw [hbase] at hvoid
        cases hvoid
    · exact .inr (isValue_of_elementType? hvalue helement)
  | .unary _ _, h => h.1.isResult hc
  | .arith _ _ _ _, h => .inr (isValue_of_arithType? h.2.2).2.2
  | .compare _ _ _, _ => .inr trivial
  | .logic _ _ _, _ => .inr trivial
  | .ternary _ _ _, h => h.2.1.isResult hc
  | .assign _ _ _, h => .inr (h.1.isValue hc)
  | .step _ _, h => .inr (h.1.isValue hc)
  | .call _ _ _, h => by
    obtain ⟨shape, hshape, hresult, -⟩ := h
    exact hresult ▸ hc.results shape (List.mem_of_getElem? hshape)
  | .intrinsic _ _ _, h => (Intrinsic.Shape.result?_spec h.2).2.2
  | .construct _ _ _, h => .inr h.2.1

/-! ## Tables -/

section Tables

variable {α β : Type} {test : α → Bool} {table : List α} {place : Nat} {entry : α}

/-- The first entry of a table that passes a test, and its place. -/
def findPlace? (test : α → Bool) (table : List α) : Option (Nat × α) := do
  let place ← table.findIdx? test
  let entry ← table[place]?
  return (place, entry)

theorem findPlace?_eq_some_iff : findPlace? test table = some (place, entry)
    ↔ table.findIdx? test = some place ∧ table[place]? = some entry := by
  simp only [findPlace?, Option.bind_eq_bind, Option.bind_eq_some_iff, Option.pure_def,
    Option.some.injEq, Prod.mk.injEq]
  constructor
  · rintro ⟨_, hplace, _, hentry, rfl, rfl⟩
    exact ⟨hplace, hentry⟩
  · rintro ⟨hplace, hentry⟩
    exact ⟨_, hplace, _, hentry, rfl, rfl⟩

theorem passes_of_findPlace? (h : findPlace? test table = some (place, entry)) :
    entry ∈ table ∧ test entry = true := by
  obtain ⟨hplace, hentry⟩ := findPlace?_eq_some_iff.mp h
  obtain ⟨hlt, htest, -⟩ := List.findIdx?_eq_some_iff_getElem.mp hplace
  obtain ⟨-, rfl⟩ := List.getElem?_eq_some_iff.mp hentry
  exact ⟨List.getElem_mem hlt, htest⟩

theorem map_findPlace? (test : α → Bool) (table : List α) :
    (findPlace? test table).map (·.1) = table.findIdx? test := by
  cases hplace : table.findIdx? test with
  | none => simp only [findPlace?, hplace, Option.bind_eq_bind, Option.bind_none, Option.map_none]
  | some place =>
    obtain ⟨hlt, -⟩ := List.findIdx?_eq_some_iff_getElem.mp hplace
    rw [findPlace?_eq_some_iff.mpr ⟨hplace, List.getElem?_eq_getElem hlt⟩]
    rfl

theorem findPlace?_eq_none_iff :
    findPlace? test table = none ↔ ∀ entry ∈ table, test entry = false := by
  rw [← List.findIdx?_eq_none_iff, ← map_findPlace?, Option.map_eq_none_iff]

/-- Entries that change are found where they were found before. -/
theorem findPlace?_map {f : α → β} {test' : β → Bool}
    (h : ∀ entry ∈ table, test' (f entry) = test entry) : findPlace? test' (table.map f)
      = (findPlace? test table).map fun found => (found.1, f found.2) := by
  have hplaces : (table.map f).findIdx? test' = table.findIdx? test := by
    induction table with
    | nil => rfl
    | cons first rest ih =>
      obtain ⟨hfirst, hrest⟩ := List.forall_mem_cons.mp h
      rw [List.map_cons, List.findIdx?_cons, List.findIdx?_cons, hfirst, ih hrest]
  simp only [findPlace?, hplaces, List.getElem?_map, Option.bind_eq_bind, Option.map_bind]
  cases table.findIdx? test with
  | none => rfl
  | some place => cases hentry : table[place]? <;> simp [hentry]

end Tables

end ShaderBytecode
