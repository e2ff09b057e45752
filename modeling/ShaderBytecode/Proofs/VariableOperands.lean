import ShaderBytecode.Proofs.Acceptance
import ShaderBytecode.Proofs.Writes

/-!
# The variables that accepted expressions use

An instruction that gets, sets or refers to a variable names it by a number. The variables that the
code of an expression names are those that the expression names, in the order of the code, each by
the number that its name has where the expression stands. What it writes to is a variable in sight
that could be written to: no constant among the locals and no global that is read only.
-/

namespace ShaderBytecode

open Typed (Access Argument Cell Expr Place PicksAccesses Registry Write)

/-- A variable as an instruction names it. -/
inductive Operand where
  | slot (number : UInt32)
  | global (number : UInt32)
deriving DecidableEq, Repr

def IndexedOp.operand? (number : UInt32) : IndexedOp → Option Operand
  | .getLocal | .setLocal | .refLocal => some (.slot number)
  | .getGlobal | .setGlobal | .refGlobal => some (.global number)
  | _ => none

def Instruction.operand? : Instruction → Option Operand
  | .indexed op number => op.operand? number
  | _ => none

abbrev Item.operands (items : List Item) : List Operand :=
  pick Instruction.operand? items

@[simp] theorem Instruction.operand?_simple (op : SimpleOp) :
    (Instruction.simple op).operand? = none :=
  rfl

@[simp] theorem Instruction.operand?_indexed (op : IndexedOp) (number : UInt32) :
    (Instruction.indexed op number).operand? = op.operand? number :=
  rfl

/-- What an assignment names, from what its target and its value name. A variable as a whole is set
once the value is there, and is read before that if the assignment combines the two. -/
def assignmentNames {α : Type} (whole combines : Bool) (target value : List α) : List α :=
  if whole then (if combines then target else []) ++ value ++ target else target ++ value

theorem map_assignmentNames {α β : Type} (f : α → β) (whole combines : Bool)
    (target value : List α) : (assignmentNames whole combines target value).map f
      = assignmentNames whole combines (target.map f) (value.map f) := by
  cases whole <;> cases combines <;> simp [assignmentNames]

/-- Operands are what certain things denote, in this order. -/
def Denote {α : Type} (meaning : α → Option Operand) (xs : List α) (operands : List Operand) :
    Prop :=
  operands.map some = xs.map meaning

section Denote

variable {α β : Type} {meaning : α → Option Operand} {xs ys : List α}
variable {operands rest : List Operand}

theorem denote_nil : Denote meaning [] [] :=
  rfl

theorem denote_singleton {x : α} {operand : Operand} (h : meaning x = some operand) :
    Denote meaning [x] [operand] :=
  congrArg (fun found => [found]) h.symm

theorem Denote.append (h : Denote meaning xs operands) (h' : Denote meaning ys rest) :
    Denote meaning (xs ++ ys) (operands ++ rest) := by
  unfold Denote at *
  rw [List.map_append, List.map_append, h, h']

theorem Denote.of_eq (h : Denote meaning xs operands) (heq : rest = operands) :
    Denote meaning xs rest :=
  heq ▸ h

theorem Denote.assignment (h : Denote meaning xs operands) (h' : Denote meaning ys rest)
    (whole combines : Bool) : Denote meaning (assignmentNames whole combines xs ys)
      (assignmentNames whole combines operands rest) := by
  unfold Denote at *
  rw [map_assignmentNames, map_assignmentNames, h, h']

theorem Denote.mono {elsewhere : α → Option Operand} (h : Denote meaning xs operands)
    (hmeaning : ∀ x o, meaning x = some o → elsewhere x = some o) :
    Denote elsewhere xs operands := by
  unfold Denote at *
  rw [h]
  refine List.map_congr_left fun x hx => ?_
  have hsome : meaning x ∈ operands.map some := h ▸ List.mem_map_of_mem hx
  obtain ⟨o, -, ho⟩ := List.mem_map.mp hsome
  exact ho.symm.trans (hmeaning x o ho.symm).symm

theorem Denote.map {elsewhere : β → Option Operand} {f : α → β} (h : Denote meaning xs operands)
    (hmeaning : ∀ x o, meaning x = some o → elsewhere (f x) = some o) :
    Denote elsewhere (xs.map f) operands := by
  have hcomp : Denote (elsewhere ∘ f) xs operands := h.mono hmeaning
  rwa [Denote, ← List.map_map] at hcomp

end Denote

namespace Ast

def Expr.isVariable : Expr → Bool
  | .name _ _ => true
  | _ => false

mutual

/-- The variables that an expression names, in the order of its code. -/
def Expr.variables : Expr → List String
  | .int _ _ | .float _ _ | .bool _ _ => []
  | .name n _ => [n]
  | .call _ arguments _ => Expr.variablesAll arguments
  | .member base _ _ => base.variables
  | .index base position _ => base.variables ++ position.variables
  | .unary _ operand _ => operand.variables
  | .binary _ left right _ => left.variables ++ right.variables
  | .assign op target value _ =>
    assignmentNames target.isVariable op.isSome target.variables value.variables
  | .ternary test whenTrue whenFalse _ =>
    test.variables ++ whenTrue.variables ++ whenFalse.variables
  | .step _ operand _ => operand.variables

def Expr.variablesAll : List Expr → List String
  | [] => []
  | first :: rest => first.variables ++ Expr.variablesAll rest

end

def Expr.optionVariables (e : Option Expr) : List String :=
  (e.map Expr.variables).getD []

end Ast

/-! ## Code -/

namespace Typed

/-- The variables of what a tree does, as instructions name them. -/
abbrev Access.operands (accesses : List Access) : List Operand :=
  Access.pickAll Instruction.operand? accesses

theorem picksAccesses_operand : PicksAccesses Instruction.operand? := by
  intro i hi
  cases i with
  | indexed op number => cases op <;> first | rfl | cases hi
  | _ => rfl

abbrev Expr.operands (e : Expr) : List Operand :=
  Item.operands e.code

theorem operands_concat {items : List Item} {i : Instruction} (h : i.operand? = none) :
    Item.operands (items ++ [.op i]) = Item.operands items := by
  rw [Item.operands, Item.pick_append, Item.pick_op, h]
  exact List.append_nil _

@[simp] theorem Expr.accesses_toFloat (e : Expr) : e.toFloat.accesses = e.accesses :=
  List.append_nil _

def Write.Only (P : Cell → Prop) (writes : List Write) : Prop :=
  ∀ w ∈ writes, P w.cell

@[simp] theorem Write.only_nil {P : Cell → Prop} : Write.Only P [] :=
  List.forall_mem_nil _

end Typed

/-! ## Operators -/

open Check

namespace Env

variable {env : Env} {r : Registry}

variable {e : Located Expr} {span : Span} {base : DataType} {arguments : List (Located Expr)}
  {function : Intrinsic} {position : Nat}

theorem coerce_accesses {target : DataType} {purpose : Purpose} :
    (env.coerce e target purpose).Settles fun t => t.accesses = e.value.accesses :=
  carries_ite (carries_ok rfl) (carries_ite (carries_ok e.value.accesses_toFloat) (carries_fail rfl))

theorem promoteOperands_accesses (env : Env) (left right : Expr) :
    (env.promoteOperands left right).1.accesses = left.accesses
      ∧ (env.promoteOperands left right).2.accesses = right.accesses := by
  unfold promoteOperands
  split
  · exact ⟨rfl, rfl⟩
  · split
    · exact ⟨left.accesses_toFloat, rfl⟩
    · split
      · exact ⟨rfl, right.accesses_toFloat⟩
      · exact ⟨rfl, rfl⟩

theorem condition_accesses : (condition e).Settles fun t => t.accesses = e.value.accesses :=
  carries_ite (carries_ok rfl) (carries_fail rfl)

theorem binary_accesses {op : BinaryOp} {left right : Expr} :
    (env.binary op left right span).Settles
      fun t => t.accesses = left.accesses ++ right.accesses := by
  obtain ⟨hleft, hright⟩ := promoteOperands_accesses env left right
  unfold binary
  cases op with
  | logic op => exact carries_ite (carries_ok rfl) (carries_fail rfl)
  | compare op =>
    simp only []
    refine carries_ite (carries_ok ?_) (carries_fail rfl)
    rw [Expr.accesses, hleft, hright]
  | arith op =>
    simp only []
    split
    · refine carries_ok ?_
      rw [Expr.accesses, hleft, hright]
    · exact carries_fail rfl

theorem unary_accesses {op : Ast.UnaryOp} {operand : Expr} :
    (unary op operand span).Settles fun t => t.accesses = operand.accesses := by
  unfold unary
  split
  · split
    · split
      · exact carries_ok rfl
      · exact carries_ok rfl
      · exact carries_ok rfl
    · exact carries_fail rfl
  · exact carries_ite (carries_ok rfl) (carries_fail rfl)

theorem ternary_accesses {test whenTrue whenFalse : Expr} :
    (env.ternary test whenTrue whenFalse span).Settles
      fun t => t.accesses = test.accesses ++ whenTrue.accesses ++ whenFalse.accesses := by
  obtain ⟨htrue, hfalse⟩ := promoteOperands_accesses env whenTrue whenFalse
  simp only [ternary]
  refine carries_ite (carries_ok ?_) (carries_fail rfl)
  rw [Expr.accesses, htrue, hfalse]

theorem accesses_ite_toFloat {condition : Prop} [Decidable condition] (e : Expr) :
    (if condition then e.toFloat else e).accesses = e.accesses := by
  split
  · exact e.accesses_toFloat
  · rfl

theorem assigned_accesses {op : Option ArithOp} {target : DataType} :
    (env.assigned op target e span).Settles fun t => t.accesses = e.value.accesses := by
  cases op with
  | none => exact coerce_accesses
  | some op => exact carries_ite (carries_ok (accesses_ite_toFloat _)) (carries_fail rfl)

theorem indexValue_accesses :
    (indexValue e base).Settles fun t => t.accesses = e.value.accesses := by
  unfold indexValue
  split
  · exact carries_fail rfl
  · split
    · exact carries_ite (carries_fail rfl) (carries_ok rfl)
    · exact carries_ok rfl

theorem elementType_settles : (elementType base span).Settles fun _ => True := by
  unfold elementType
  split
  · exact carries_ok trivial
  · exact carries_fail rfl

theorem swizzle_within (base : DataType) (swizzle : String) (span : Span) :
    (env.within r).swizzle base swizzle span = env.swizzle base swizzle span := by
  have hletters : ∀ size set letters,
      (env.within r).swizzleLetters base swizzle size span set letters
        = env.swizzleLetters base swizzle size span set letters := by
    intro size set letters
    induction letters generalizing set with
    | nil => rfl
    | cons letter rest ih => simp only [swizzleLetters, context_within, ih]
  simp only [Env.swizzle, hletters]

theorem swizzle_settles {text : String} : (env.swizzle base text span).Settles fun _ => True := by
  have hletters : ∀ size set letters,
      (env.swizzleLetters base text size span set letters).Settles fun _ => True := by
    intro size set letters
    induction letters generalizing set with
    | nil => exact carries_ok trivial
    | cons letter rest ih =>
      rw [swizzleLetters]
      split
      · exact carries_fail rfl
      · exact carries_ite (carries_fail rfl)
          (carries_ite (carries_fail rfl) ((ih _).bind fun _ _ => carries_ok trivial))
  unfold swizzle
  split
  · exact carries_fail rfl
  · exact carries_ite (carries_fail rfl) (hletters ..)

theorem memberExpr_accesses (hgrows : env.Grows r) {base : Expr} {member : String} :
    (env.memberExpr base member span).Carries ((env.within r).memberExpr base member span)
      fun t => t.accesses = base.accesses := by
  unfold memberExpr
  split
  · exact (structMember_carries hgrows).bind fun _ _ => carries_ok rfl
  · rw [swizzle_within]
    exact swizzle_settles.bind fun _ _ => carries_ok rfl

theorem memberPlace_accesses (hgrows : env.Grows r) {base : Place} {member : String} :
    (env.memberPlace base member span).Carries ((env.within r).memberPlace base member span)
      fun place => place.accesses = base.accesses ∧ place.access? = none := by
  unfold memberPlace
  split
  · exact (structMember_carries hgrows).bind fun _ _ => carries_ok ⟨rfl, rfl⟩
  · rw [swizzle_within]
    exact swizzle_settles.bind fun _ _ => carries_ite (carries_fail rfl) (carries_ok ⟨rfl, rfl⟩)

theorem constructor_accesses (hgrows : env.Grows r) {type : DataType} {needed : Nat} :
    (env.constructor type needed arguments span).Carries
      ((env.within r).constructor type needed arguments span)
      fun t => t.accesses = Expr.accessesAll (arguments.map (·.value)) := by
  have hcounts : ∀ arguments : List (Located Expr),
      Settles (arguments.mapM (argumentComponents type)) fun _ => True := by
    intro arguments
    induction arguments with
    | nil => exact carries_ok trivial
    | cons first rest ih =>
      rw [List.mapM_cons]
      refine Carries.bind (P := fun _ => True) ?_ fun _ _ => ih.bind fun _ _ => carries_ok trivial
      unfold argumentComponents
      split
      · exact carries_ok trivial
      · exact carries_fail rfl
  refine (hcounts arguments).bind fun counts _ => Carries.bind (P := fun _ => True) ?_ fun _ _ =>
    (code_carries hgrows).bind fun _ _ => carries_ok rfl
  unfold checkComponents
  repeat' split
  all_goals first | exact carries_ok trivial | exact carries_fail rfl

theorem floatArgument_accesses :
    (env.floatArgument function position e).Settles fun t => t.accesses = e.value.accesses :=
  carries_ite (carries_ok (accesses_ite_toFloat _)) (carries_fail rfl)

theorem matchingArgument_accesses {like : DataType} {scalarToo : Bool} :
    (env.matchingArgument function position like scalarToo e).Settles
      fun t => t.accesses = e.value.accesses :=
  floatArgument_accesses.bind fun _ ht => carries_ite (carries_ok ht) (carries_fail rfl)

theorem Intrinsic.arity_of_void (h : function.shape = .void) : function.arity = 0 := by
  cases function <;> first | rfl | cases h

theorem intrinsicOperands_accesses (hlength : arguments.length = function.arity) :
    (env.intrinsicOperands function arguments span).Settles
      fun found => Expr.accessesAll found.1 = Expr.accessesAll (arguments.map (·.value)) := by
  unfold intrinsicOperands
  simp only []
  split
  case h_1 hshape =>
    rw [Intrinsic.arity_of_void hshape, List.length_eq_zero_iff] at hlength
    subst hlength
    exact carries_ok rfl
  case h_2 | h_3 =>
    exact floatArgument_accesses.bind fun a ha => carries_ok (by simp [Expr.accessesAll, ha])
  case h_4 | h_5 | h_6 =>
    exact floatArgument_accesses.bind fun a ha => matchingArgument_accesses.bind fun b hb =>
      carries_ok (by simp [Expr.accessesAll, ha, hb])
  case h_7 =>
    exact floatArgument_accesses.bind fun a ha => matchingArgument_accesses.bind fun b hb =>
      carries_ite (carries_ok (by simp [Expr.accessesAll, ha, hb])) (carries_fail rfl)
  case h_8 | h_9 | h_10 =>
    exact floatArgument_accesses.bind fun a ha => matchingArgument_accesses.bind fun b hb =>
      matchingArgument_accesses.bind fun c hc => carries_ok (by simp [Expr.accessesAll, ha, hb, hc])
  case h_11 =>
    exact floatArgument_accesses.bind fun b hb => matchingArgument_accesses.bind fun a ha =>
      carries_ok (by simp [Expr.accessesAll, ha, hb])
  case h_12 =>
    exact floatArgument_accesses.bind fun c hc => matchingArgument_accesses.bind fun a ha =>
      matchingArgument_accesses.bind fun b hb => carries_ok (by simp [Expr.accessesAll, ha, hb, hc])
  case h_13 =>
    split
    · exact carries_fail rfl
    · exact coerce_accesses.bind fun b hb => carries_ok (by simp [Expr.accessesAll, hb])
  case h_14 a b _ =>
    obtain ⟨ha, hb⟩ := promoteOperands_accesses env a.value b.value
    split
    · exact carries_ok (by simp [Expr.accessesAll, ha, hb])
    · exact carries_fail rfl
  case h_15 => exact carries_fail rfl

theorem intrinsic_accesses (hlength : arguments.length = function.arity) :
    (env.intrinsic function arguments span).Settles
      fun t => t.accesses = Expr.accessesAll (arguments.map (·.value)) :=
  (intrinsicOperands_accesses hlength).bind fun _ hfound =>
    carries_ok hfound

theorem checkIntrinsic_gives {count : Nat} :
    (env.checkIntrinsic function count span).Settles fun _ => count = function.arity := by
  unfold checkIntrinsic
  split
  · exact carries_guard rfl fun _ => carries_guard rfl fun hcount =>
      carries_ok (Decidable.not_not.mp hcount)
  · exact carries_guard rfl fun hcount => carries_ok (Decidable.not_not.mp hcount)

theorem referenceOf_accesses {place : Located Place} {type : DataType} {function : String} :
    (referenceOf place type position function).Settles
      fun argument => argument.accesses = place.value.accesses :=
  carries_ite (carries_ok rfl) (carries_fail rfl)

/-! ## Expressions -/

/-- The variable that a name means: the innermost local, or else the global. -/
def operand? (env : Env) (name : String) : Option Operand :=
  match env.scopes.find? name with
  | some found => some (.slot (.ofNat found.slot))
  | none => (env.registry.global? name).map fun found => .global (.ofNat found.1)

/-- Operands are the variables that certain names mean, in this order. -/
abbrev Names (env : Env) : List String → List Operand → Prop :=
  Denote env.operand?

/-- The variables in sight that are neither constants nor read only have a property. -/
structure Permits (env : Env) (P : Cell → Prop) : Prop where
  slots : ∀ name x, env.scopes.find? name = some x → x.isConst = false → P (.slot x.slot)
  globals : ∀ name i v, env.registry.global? name = some (i, v) →
    v.isReadOnly env.context = false → P (.global i)

/-- The variables that something is done with are those that certain names mean, and what is written
to has a property. -/
structure Reaches (env : Env) (P : Cell → Prop) (names : List String) (accesses : List Access) :
    Prop where
  names : env.Names names (Access.operands accesses)
  writes : Write.Only P (accesses.filterMap Access.write?)

section Reaches

variable {P : Cell → Prop} {names more : List String} {accesses rest : List Access}

theorem reaches_nil : env.Reaches P [] [] :=
  ⟨rfl, List.forall_mem_nil _⟩

theorem Reaches.append (h : env.Reaches P names accesses) (h' : env.Reaches P more rest) :
    env.Reaches P (names ++ more) (accesses ++ rest) where
  names := by
    rw [Access.operands, Access.pickAll_append]
    exact h.names.append h'.names
  writes := by
    rw [List.filterMap_append]
    exact List.forall_mem_append.mpr ⟨h.writes, h'.writes⟩

theorem Reaches.of_eq (h : env.Reaches P names accesses) (heq : rest = accesses) :
    env.Reaches P names rest :=
  heq ▸ h

/-- A call reaches what its arguments reach. -/
theorem Reaches.call (h : env.Reaches P names accesses) {function : Located Nat} {count : Nat} :
    env.Reaches P names (accesses ++ [.call function count]) := by
  have hcall : env.Reaches P [] [.call function count] := ⟨rfl, List.forall_mem_nil _⟩
  simpa using h.append hcall

/-- A place that is assigned to is one that could be referred to. -/
theorem Reaches.assignment {target : Place} (h : env.Reaches P names target.accesses)
    (h' : env.Reaches P more accesses) (op : Option ArithOp) :
    env.Reaches P (assignmentNames target.access?.isSome op.isSome names more)
      (Typed.assignmentAccesses op target target.accesses accesses) where
  names := by
    have heq : Access.operands (Typed.assignmentAccesses op target target.accesses accesses)
        = assignmentNames target.access?.isSome op.isSome (Access.operands target.accesses)
          (Access.operands accesses) := by
      cases target <;> cases op <;>
        simp [Typed.assignmentAccesses, Place.access?, Place.cell?, Place.accesses,
          Access.instruction, Write.instruction, IndexedOp.operand?, assignmentNames]
    rw [heq]
    exact h.names.assignment h'.names _ _
  writes := by
    cases hcell : target.cell? with
    | none =>
      rw [Typed.assignmentAccesses, hcell]
      exact (h.append h').writes
    | some cell =>
      have heq : (Typed.assignmentAccesses op target target.accesses accesses).filterMap
          Access.write? = accesses.filterMap Access.write? ++ [.set cell] := by
        cases op <;> simp [Typed.assignmentAccesses, hcell, List.filterMap_cons, Access.write?]
      have hset : Write.Only P [.set cell] := by
        cases target <;> cases hcell <;>
          exact List.forall_mem_singleton.mpr (h.writes (.refer _) (.head _))
      rw [heq]
      exact List.forall_mem_append.mpr ⟨h'.writes, hset⟩

end Reaches

section Permitted

variable {P : Cell → Prop}

theorem variableExpr_reaches (hgrows : env.Grows r) {name : String} {span : Span} :
    (env.variableExpr name span).Carries ((env.within r).variableExpr name span)
      fun t => env.Reaches P [name] t.accesses := by
  unfold variableExpr
  simp only [scopes_within, registry_within]
  cases hlocal : env.scopes.find? name with
  | some found =>
    refine carries_ok ⟨denote_singleton ?_, Write.only_nil⟩
    rw [operand?, hlocal]
  | none =>
    cases hfound : env.registry.global? name with
    | none => exact carries_fail rfl
    | some found =>
      rw [hgrows.global? name found hfound]
      refine carries_ok ⟨denote_singleton ?_, Write.only_nil⟩
      rw [operand?, hlocal, hfound]
      rfl

/-- A variable that is written to is no constant and not read only. -/
theorem variablePlace_reaches (henv : env.Permits P) (hgrows : env.Grows r) {name : String}
    {span : Span} : (env.variablePlace name span).Carries ((env.within r).variablePlace name span)
      fun p => env.Reaches P [name] p.accesses ∧ p.access?.isSome = true := by
  unfold variablePlace
  simp only [scopes_within, registry_within, context_within]
  cases hlocal : env.scopes.find? name with
  | some x =>
    refine carries_guard rfl fun hconst => carries_ok ⟨⟨denote_singleton ?_,
      List.forall_mem_singleton.mpr (henv.slots name x hlocal (Bool.eq_false_iff.mpr hconst))⟩, rfl⟩
    rw [operand?, hlocal]
  | none =>
    cases hfound : env.registry.global? name with
    | none => exact carries_fail rfl
    | some found =>
      rw [hgrows.global? name found hfound]
      refine carries_guard rfl fun hreadOnly => carries_ok ⟨⟨denote_singleton ?_,
        List.forall_mem_singleton.mpr
          (henv.globals name _ _ hfound (Bool.eq_false_iff.mpr hreadOnly))⟩, rfl⟩
      rw [operand?, hlocal, hfound]
      rfl

mutual

/-- An accepted expression reaches the variables that it names. -/
theorem expr_reaches (henv : env.Permits P) (hgrows : env.Grows r) : (e : Ast.Expr) →
    (env.expr e).Carries ((env.within r).expr e) fun t => env.Reaches P e.variables t.accesses
  | .int _ _ | .float _ _ | .bool _ _ => carries_ok reaches_nil
  | .name _ _ => variableExpr_reaches hgrows
  | .member base _ _ =>
    (expr_reaches henv hgrows base).bind fun _ ht =>
      (memberExpr_accesses hgrows).mono fun _ ht' => ht.of_eq ht'
  | .index base index _ =>
    (expr_reaches henv hgrows base).bind fun _ ht =>
      (expr_reaches henv hgrows index).bind fun _ hi =>
        indexValue_accesses.bind fun _ hi' => elementType_settles.bind fun _ _ =>
          carries_ok (ht.append (hi.of_eq hi'))
  | .unary _ operand _ =>
    (expr_reaches henv hgrows operand).bind fun _ ht =>
      unary_accesses.mono fun _ ht' => ht.of_eq ht'
  | .binary _ left right _ =>
    (expr_reaches henv hgrows left).bind fun _ hl =>
      (expr_reaches henv hgrows right).bind fun _ hr =>
        binary_accesses.mono fun _ ht => (hl.append hr).of_eq ht
  | .assign _ target value _ =>
    (place_reaches henv hgrows target).bind fun _ hp =>
      (expr_reaches henv hgrows value).bind fun _ hv =>
        assigned_accesses.bind fun _ ht => carries_ok (by
          rw [Ast.Expr.variables, ← hp.2]
          exact hp.1.assignment (hv.of_eq ht) _)
  | .ternary test whenTrue whenFalse _ =>
    (expr_reaches henv hgrows test).bind fun _ ht => condition_accesses.bind fun _ ht' =>
      (expr_reaches henv hgrows whenTrue).bind fun _ hl => (expr_reaches henv hgrows whenFalse).bind
        fun _ hr => ternary_accesses.mono fun _ h =>
          (((ht.of_eq ht').append hl).append hr).of_eq h
  | .step _ operand _ =>
    (place_reaches henv hgrows operand).bind fun _ hp =>
      carries_ite (carries_ok hp.1) (carries_fail rfl)
  | .call callee arguments span => by
    rw [expr, expr]
    simp only [context_within, registry_within, scopes_within]
    cases env.scopes.find? callee with
    | some found => exact carries_fail rfl
    | none =>
      cases env.context.dialect.builtinType? callee with
      | some type =>
        simp only []
        cases type.componentCount? with
        | none => exact carries_fail rfl
        | some needed =>
          exact carries_ite (carries_fail rfl) ((exprs_reaches henv hgrows arguments).bind
            fun _ hts => (constructor_accesses hgrows).mono fun _ ht => hts.1.of_eq ht)
      | none =>
        cases hstruct : env.registry.struct? callee with
        | some struct =>
          rw [hgrows.struct? callee struct hstruct]
          refine carries_guard rfl fun hcount => ?_
          have hlength : (struct.members.map (·.type)).length = arguments.length :=
            (List.length_map _).trans (Decidable.not_not.mp hcount)
          exact (fields_reaches henv hgrows callee 0 _ arguments hlength).bind fun _ hts =>
            (code_carries hgrows).bind fun _ _ => carries_ok hts
        | none =>
          cases hfunction : env.registry.function? callee with
          | some found =>
            obtain ⟨index, function⟩ := found
            -- What is registered later is never found in place of this function.
            obtain ⟨hstruct', function', hfunction', hsame⟩ :=
              hgrows.function? callee index function hfunction hstruct
            obtain ⟨-, htype, hshapes⟩ := Function.sameSignature_iff.mp hsame
            have hlength := congrArg List.length hshapes
            simp only [List.length_map] at hlength
            rw [hstruct', hfunction']
            simp only [htype, hlength]
            refine carries_guard rfl fun hcount => ?_
            exact (arguments_reaches henv hgrows callee 0 _ _ arguments hshapes
              (hlength.trans (Decidable.not_not.mp hcount))).bind fun _ hts => carries_ok hts.call
          | none =>
            cases hintrinsic : Intrinsic.lookup? env.context.dialect callee arguments.length with
            | some function =>
              obtain ⟨hstruct', hfunction'⟩ :=
                hgrows.intrinsic callee (Intrinsic.isName_of_lookup? hintrinsic) hstruct hfunction
              rw [hstruct', hfunction']
              exact checkIntrinsic_gives.bind fun _ hcount =>
                (exprs_reaches henv hgrows arguments).bind fun _ hts =>
                  (intrinsic_accesses (hts.2.trans hcount)).mono fun _ ht => hts.1.of_eq ht
            | none => exact carries_fail rfl

theorem place_reaches (henv : env.Permits P) (hgrows : env.Grows r) : (e : Ast.Expr) →
    (env.place e).Carries ((env.within r).place e) fun p =>
      env.Reaches P e.variables p.accesses ∧ p.access?.isSome = e.isVariable
  | .name _ _ => variablePlace_reaches henv hgrows
  | .member base _ _ =>
    (place_reaches henv hgrows base).bind fun _ hp =>
      (memberPlace_accesses hgrows).mono fun _ hp' =>
        ⟨hp.1.of_eq hp'.1, congrArg Option.isSome hp'.2⟩
  | .index base index _ =>
    (place_reaches henv hgrows base).bind fun _ hp =>
      (expr_reaches henv hgrows index).bind fun _ hi =>
        indexValue_accesses.bind fun _ hi' => elementType_settles.bind fun _ _ =>
          carries_ok ⟨hp.1.append (hi.of_eq hi'), rfl⟩
  | .int _ _ | .float _ _ | .bool _ _ | .call _ _ _ | .unary _ _ _ | .binary _ _ _ _
  | .assign _ _ _ _ | .ternary _ _ _ _ | .step _ _ _ => carries_fail rfl

theorem exprs_reaches (henv : env.Permits P) (hgrows : env.Grows r) : (es : List Ast.Expr) →
    (env.exprs es).Carries ((env.within r).exprs es) fun ts =>
      env.Reaches P (Ast.Expr.variablesAll es) (Expr.accessesAll (ts.map (·.value)))
      ∧ ts.length = es.length
  | [] => carries_ok ⟨reaches_nil, rfl⟩
  | first :: rest =>
    (expr_reaches henv hgrows first).bind fun _ ht =>
      (exprs_reaches henv hgrows rest).bind fun _ hts =>
        carries_ok ⟨ht.append hts.1, congrArg (· + 1) hts.2⟩

theorem fields_reaches (henv : env.Permits P) (hgrows : env.Grows r) (struct : String) :
    (position : Nat) → (types : List DataType) → (es : List Ast.Expr) →
      types.length = es.length → (env.fields struct position types es).Carries
        ((env.within r).fields struct position types es) fun ts =>
          env.Reaches P (Ast.Expr.variablesAll es) (Expr.accessesAll ts)
  | position, _ :: types, first :: rest, hlength =>
    (expr_reaches henv hgrows first).bind fun _ ht => coerce_accesses.bind fun _ ht' =>
      (fields_reaches henv hgrows struct (position + 1) types rest (Nat.succ.inj hlength)).bind
        fun _ hts => carries_ok ((ht.of_eq ht').append hts)
  | _, [], [], _ => by
    unfold fields
    exact carries_ok reaches_nil

theorem arguments_reaches (henv : env.Permits P) (hgrows : env.Grows r) (function : String) :
    (position : Nat) → (parameters parameters' : List Parameter) → (es : List Ast.Expr) →
      parameters.map Parameter.shape = parameters'.map Parameter.shape →
        parameters.length = es.length → (env.arguments function position parameters es).Carries
          ((env.within r).arguments function position parameters' es)
          fun ts => env.Reaches P (Ast.Expr.variablesAll es) (Argument.accessesAll ts)
  | position, parameter :: parameters, parameter' :: parameters', first :: rest, hshapes,
      hlength => by
    simp only [List.map_cons, List.cons.injEq, Parameter.shape, Prod.mk.injEq] at hshapes
    obtain ⟨⟨htype, hpassing⟩, hshapes⟩ := hshapes
    have hrest : ∀ t : Argument, env.Reaches P first.variables t.accesses → Check.Carries
        (do
          let more ← env.arguments function (position + 1) parameters rest
          return t :: more)
        (do
          let more ← (env.within r).arguments function (position + 1) parameters' rest
          return t :: more)
        fun ts => env.Reaches P (Ast.Expr.variablesAll (first :: rest)) (Argument.accessesAll ts) :=
      fun _ ht => (arguments_reaches henv hgrows function (position + 1) parameters parameters' rest
        hshapes (Nat.succ.inj hlength)).bind fun _ hts => carries_ok (ht.append hts)
    rw [arguments, arguments, htype, hpassing]
    split
    · exact (place_reaches henv hgrows first).bind fun _ hp => referenceOf_accesses.bind
        fun _ ht => hrest _ (hp.1.of_eq ht)
    · exact (expr_reaches henv hgrows first).bind fun _ ht => coerce_accesses.bind fun _ ht' =>
        hrest _ (ht.of_eq ht')
  | _, [], [], [], _, _ => by
    unfold arguments
    exact carries_ok reaches_nil

end

theorem exprOf_reaches (henv : env.Permits P) (hgrows : env.Grows r) (e : Ast.Expr)
    {type : DataType} {purpose : Purpose} :
    (env.exprOf e type purpose).Carries ((env.within r).exprOf e type purpose)
      fun t => env.Reaches P e.variables t.accesses :=
  (expr_reaches henv hgrows e).bind fun _ ht => coerce_accesses.mono fun _ ht' => ht.of_eq ht'

theorem conditionExpr_reaches (henv : env.Permits P) (hgrows : env.Grows r) (e : Ast.Expr) :
    (env.conditionExpr e).Carries ((env.within r).conditionExpr e)
      fun t => env.Reaches P e.variables t.accesses :=
  (expr_reaches henv hgrows e).bind fun _ ht => condition_accesses.mono fun _ ht' => ht.of_eq ht'

theorem exprOf_writes (henv : env.Permits P) (e : Ast.Expr) {type : DataType} {purpose : Purpose} :
    (env.exprOf e type purpose).Gives fun t => Write.Only P t.writes :=
  fun t ht => ((exprOf_reaches henv (.refl _ _) e).gives t ht).writes

end Permitted

theorem permits_all : env.Permits fun _ => True :=
  ⟨fun _ _ _ _ => trivial, fun _ _ _ _ _ => trivial⟩

theorem Reaches.operands {P : Cell → Prop} {names : List String} {t : Expr}
    (h : env.Reaches P names t.accesses) : env.Names names t.operands :=
  h.names.of_eq (t.pick_code Typed.picksAccesses_operand)

theorem exprOf_names (e : Ast.Expr) {type : DataType} {purpose : Purpose} :
    (env.exprOf e type purpose).Gives fun t => env.Names e.variables t.operands :=
  fun t ht => ((exprOf_reaches permits_all (.refl _ _) e).gives t ht).operands

end Env

end ShaderBytecode
