import ShaderBytecode.Proofs.ExprTyping
import ShaderBytecode.Typing.Statement

/-!
# Typing gives well typed bodies

While a body is typed its frame grows. The types of its slots are kept beside the frame: they start
with the parameters, and every declared local adds one at the end, so that what was well typed stays
so.
-/

namespace ShaderBytecode

open Typed (Expr Statement)

/-- What is registered holds values, and functions have results. -/
structure Typed.Registry.Valid (r : Typed.Registry) : Prop where
  globals : ∀ v ∈ r.allGlobals, v.type.IsValue
  members : ∀ s ∈ r.structures, ∀ m ∈ s.members, m.type.IsValue
  parameters : ∀ f ∈ r.functions, ∀ p ∈ f.signature.parameters, p.type.IsValue
  results : ∀ f ∈ r.functions, f.signature.returnType.IsResult

theorem Typed.Registry.Valid.codeContext {r : Typed.Registry} (h : r.Valid) {d : Dialect}
    {locals : List DataType} {result : DataType} (hlocals : ∀ type ∈ locals, type.IsValue) :
    (r.codeContext d locals result).Valid where
  locals := hlocals
  globals := by
    intro type htype
    obtain ⟨v, hv, rfl⟩ := List.mem_map.mp htype
    exact h.globals v hv
  members := h.members
  parameters := by
    intro shape hshape p hp
    obtain ⟨f, hf, rfl⟩ := List.mem_map.mp hshape
    obtain ⟨parameter, hparameter, rfl⟩ := List.mem_map.mp hp
    exact h.parameters f hf parameter hparameter
  results := by
    intro shape hshape
    obtain ⟨f, hf, rfl⟩ := List.mem_map.mp hshape
    exact h.results f hf

namespace BodyEnv

variable (b : BodyEnv)

/-- What the code of a body can refer to, once it has so many slots. -/
def codeContext (slots : List DataType) : CodeContext :=
  b.registry.codeContext b.context.dialect slots b.returnType

def Sees (slots : List DataType) (scopes : Scopes) : Prop :=
  ∀ scope ∈ scopes, ∀ x ∈ scope, slots[x.slot]? = some x.type

variable {b}

variable {slots : List DataType} {scopes : Scopes}

theorem codeContext_extends {slots' : List DataType} (h : slots <+: slots') :
    (b.codeContext slots).Extends (b.codeContext slots') :=
  ⟨rfl, List.prefix_rfl, List.prefix_rfl, List.prefix_rfl, h, rfl⟩

theorem Sees.extend {slots' : List DataType} (h : slots <+: slots') (hsees : Sees slots scopes) :
    Sees slots' scopes :=
  fun scope hscope x hx => getElem?_mono h (hsees scope hscope x hx)

theorem Sees.push (h : Sees slots scopes) : Sees slots ([] :: scopes) := by
  intro scope hscope x hx
  obtain rfl | hscope := List.mem_cons.mp hscope
  · cases hx
  · exact h scope hscope x hx

theorem Sees.bind {x : Binding} (h : Sees slots scopes) (hx : slots[x.slot]? = some x.type) :
    Sees slots (scopes.bind x) := by
  cases scopes with
  | nil => exact h
  | cons inner outer =>
    intro scope hscope y hy
    obtain rfl | hscope := List.mem_cons.mp hscope
    · obtain rfl | hy := List.mem_cons.mp hy
      · exact hx
      · exact h inner (List.mem_cons_self ..) y hy
    · exact h scope (List.mem_cons_of_mem _ hscope) y hy

theorem env_models (hr : b.registry.Valid) (hslots : ∀ type ∈ slots, type.IsValue)
    (hsees : Sees slots scopes) : (b.env scopes).Models (b.codeContext slots) :=
  ⟨rfl, rfl, rfl, rfl, hsees, hr.codeContext hslots⟩

end BodyEnv

/-! ## Steps -/

namespace FrameM

variable {α β : Type} {b : BodyEnv} {slots : List DataType}

/-- A step that starts with certain slots keeps them and may add some; what it gives has a property
in the slots it ends with. It fails only for a fault of the source. -/
def Meets (b : BodyEnv) (step : FrameM α) (slots : List DataType)
    (P : List DataType → α → Prop) : Prop :=
  ∀ frame, b.parameterCount + frame.length = slots.length → (∀ type ∈ slots, type.IsValue) →
    match step.run frame with
    | .ok a frame' => ∃ slots', slots <+: slots' ∧ b.parameterCount + frame'.length = slots'.length
      ∧ (∀ type ∈ slots', type.IsValue) ∧ P slots' a
    | .error fault _ => fault.value.kind ≠ .compiler

variable {P : List DataType → α → Prop}

theorem meets_pure {a : α} (h : P slots a) : Meets b (pure a) slots P :=
  fun _ hcount hvalues => ⟨slots, List.prefix_rfl, hcount, hvalues, h⟩

theorem meets_fail {span : Span} {fault : TypingFault} (h : fault.kind ≠ .compiler) :
    Meets b (FrameM.fail span fault) slots P :=
  fun _ _ _ => h

theorem Meets.bind {Q : List DataType → β → Prop} {step : FrameM α} {f : α → FrameM β}
    (h : Meets b step slots P)
    (h' : ∀ slots' a, slots <+: slots' → P slots' a → Meets b (f a) slots' Q) :
    Meets b (step >>= f) slots Q := by
  intro frame hcount hvalues
  have hstep := h frame hcount hvalues
  rw [EStateM.run_bind]
  cases hrun : step.run frame with
  | ok a frame' =>
    rw [hrun] at hstep
    obtain ⟨slots', hslots, hcount', hvalues', hP⟩ := hstep
    have hnext := h' slots' a hslots hP frame' hcount' hvalues'
    simp only []
    split
    · rename_i hrun'
      rw [hrun'] at hnext
      obtain ⟨slots'', hslots', hrest⟩ := hnext
      exact ⟨slots'', hslots.trans hslots', hrest⟩
    · rename_i hrun'
      rw [hrun'] at hnext
      exact hnext
  | error fault frame' =>
    rw [hrun] at hstep
    exact hstep

theorem Meets.check {P : α → Prop} {Q : List DataType → β → Prop} {r : Check α}
    {f : α → FrameM β} (h : (∀ type ∈ slots, type.IsValue) → r.Meets P)
    (h' : ∀ a, P a → Meets b (f a) slots Q) : Meets b (FrameM.ofCheck r >>= f) slots Q := by
  intro frame hcount hvalues
  have hr := h hvalues
  cases r with
  | ok a => exact h' a hr frame hcount hvalues
  | error fault => exact hr

end FrameM

/-! ## Locals -/

namespace BodyEnv

open FrameM (Meets meets_pure meets_fail)

variable {b : BodyEnv} {slots : List DataType} {scopes : Scopes}

variable {type : DataType}

theorem declareLocal_meets {name : String} {isConst : Bool} {span : Span} (htype : type.IsValue) :
    Meets b (b.declareLocal scopes name type isConst span) slots fun slots' x =>
      slots' = slots ++ [type] ∧ x.slot = slots.length ∧ x.type = type := by
  intro frame hcount hvalues
  unfold declareLocal
  by_cases htaken : scopes.isTaken name = true
  · rw [if_pos htaken]
    exact nofun
  · rw [if_neg htaken]
    refine ⟨slots ++ [type], List.prefix_append _ _, ?_, ?_, rfl, hcount, rfl⟩
    · rw [List.length_append, List.length_append, ← Nat.add_assoc, hcount]
      rfl
    · exact List.forall_mem_append.mpr ⟨hvalues, List.forall_mem_singleton.mpr htype⟩

theorem checkLocal_meets {isConst : Bool} {d : Ast.Declarator} :
    (checkLocal isConst type d).Meets fun _ => True :=
  Check.meets_unless nofun fun _ => Check.meets_unless nofun fun _ => Check.meets_unless nofun
    fun _ => Check.meets_ok trivial

theorem startValue_meets {e : Option Ast.Expr} (henv : (b.env scopes).Models (b.codeContext slots))
    (htype : type.IsValue) (hcode : ((b.codeContext slots).code? type).isSome = true) :
    (b.startValue scopes type e).Meets fun t => t.WellTyped (b.codeContext slots) ∧ t.type = type
      ∧ t.nodes ≤ 2 * Ast.Expr.optionWeight e + 1 := by
  cases e with
  | some e =>
    exact (Env.exprOf_meets henv e).mono fun t ht => ⟨ht.1, ht.2.1, Nat.le_succ_of_le ht.2.2⟩
  | none =>
    exact (Env.code_meets henv hcode).bind fun code hcode =>
      Check.meets_ok ⟨⟨trivial, htype, hcode, htype.constructs_nil⟩, rfl, Nat.le_refl _⟩

theorem localIsConst_meets {v : Ast.Variables} : (localIsConst v).Meets fun _ => True := by
  unfold localIsConst
  cases v.storage with
  | none => exact Check.meets_require nofun fun _ => trivial
  | some storage =>
    cases storage with
    | const => exact Check.meets_require nofun fun _ => trivial
    | _ => exact Check.meets_fail nofun

section Declared

variable (hr : b.registry.Valid)
include hr

theorem declarator_meets {isConst : Bool} {typeName : Located String} {d : Ast.Declarator}
    (hsees : Sees slots scopes) :
    Meets b (b.declarator scopes isConst typeName d) slots fun slots' found =>
      found.2.WellTyped (b.codeContext slots') ∧ found.2.type = found.1.type
        ∧ slots'[found.1.slot]? = some found.1.type ∧ found.2.nodes + 1 ≤ 2 * d.weight
        ∧ slots'.length = slots.length + 1 := by
  refine Meets.check (fun hvalues => Env.resolveValueType_meets (env_models hr hvalues hsees))
    fun type htype => ?_
  refine Meets.check (fun _ => checkLocal_meets) fun _ _ => ?_
  refine Meets.check (fun hvalues => startValue_meets (env_models hr hvalues hsees) htype.1 htype.2)
    fun value hvalue => ?_
  refine (declareLocal_meets htype.1).bind fun slots' x hslots hx => meets_pure ?_
  obtain ⟨rfl, hslot, rfl⟩ := hx
  refine ⟨hvalue.1.extend (codeContext_extends hslots), hvalue.2.1, ?_, ?_, List.length_append⟩
  · rw [hslot]
    exact List.getElem?_concat_length
  · have hnodes := hvalue.2.2
    simp only [Ast.Declarator.weight]
    omega

/-- What a declaration of locals gives: well typed statements, and the locals in sight. -/
theorem declarators_meets (inLoop : Bool) {isConst : Bool} {typeName : Located String}
    (ds : List Ast.Declarator) (hsees : Sees slots scopes) :
    Meets b (b.declarators isConst typeName scopes ds) slots fun slots' found =>
      Statement.AllWellTyped (b.codeContext slots') inLoop found.1 ∧ Sees slots' found.2
        ∧ Statement.nodesAll found.1 ≤ 2 * Ast.Declarator.weightAll ds
        ∧ slots'.length ≤ slots.length + Ast.Declarator.weightAll ds := by
  induction ds generalizing slots scopes with
  | nil => exact meets_pure ⟨trivial, hsees, Nat.le_refl _, Nat.le_refl _⟩
  | cons first rest ih =>
    refine (declarator_meets hr hsees).bind fun slots' found hslots hfound => ?_
    refine (ih ((hsees.extend hslots).bind hfound.2.2.1)).bind fun slots'' more hslots' hmore =>
      meets_pure ⟨⟨⟨?_, ?_⟩, hmore.1⟩, hmore.2.1, ?_, ?_⟩
    · exact hfound.1.extend (codeContext_extends hslots')
    · rw [hfound.2.1]
      exact getElem?_mono hslots' hfound.2.2.1
    · have hfirst := hfound.2.2.2.1
      have hrest := hmore.2.2.1
      simp only [Statement.nodesAll, Statement.nodes, Ast.Declarator.weightAll]
      omega
    · have hfirst := hfound.2.2.2.2
      have hrest := hmore.2.2.2
      simp only [Ast.Declarator.weightAll, Ast.Declarator.weight]
      omega

end Declared

/-! ## Statements -/

/-- What typing a statement of a given weight gives, if there are `start` slots before it. -/
structure GivesStatement (b : BodyEnv) (inLoop : Bool) (start weight : Nat)
    (slots : List DataType) (found : Statement × Scopes) : Prop where
  typed : found.1.WellTyped (b.codeContext slots) inLoop
  sees : Sees slots found.2
  nodes : found.1.nodes ≤ 2 * weight
  slots : slots.length ≤ start + weight

section Simple

variable (hr : b.registry.Valid)
include hr

theorem declareLocals_meets (inLoop : Bool) {line : Nat} {v : Ast.Variables}
    (hsees : Sees slots scopes) :
    Meets b (b.declareLocals scopes line v) slots
      (GivesStatement b inLoop slots.length v.weight) := by
  refine Meets.check (fun _ => localIsConst_meets) fun isConst _ => ?_
  refine (declarators_meets hr inLoop v.declarators hsees).bind fun slots' found hslots hfound => ?_
  obtain ⟨declared, scopes'⟩ := found
  obtain ⟨htyped, hsees', hnodes, hcount⟩ := hfound
  have hcount' : slots'.length ≤ slots.length + v.weight := Nat.le_succ_of_le hcount
  simp only [] at htyped hsees' hnodes ⊢
  split
  · refine meets_pure ⟨htyped.1, hsees', ?_, hcount'⟩
    simp only [Statement.nodesAll, Statement.nodes, Ast.Variables.weight] at hnodes ⊢
    omega
  · refine meets_pure ⟨htyped, hsees', ?_, hcount'⟩
    simp only [Statement.nodes, Ast.Variables.weight]
    omega

theorem simple_meets (inLoop : Bool) {line : Nat} {s : Ast.Simple} (hsees : Sees slots scopes) :
    Meets b (b.simple scopes line s) slots (GivesStatement b inLoop slots.length s.weight) := by
  cases s with
  | declare v => exact declareLocals_meets hr inLoop hsees
  | expr e =>
    exact Meets.check (fun hvalues => Env.expr_meets (env_models hr hvalues hsees) e)
      fun t ht => meets_pure ⟨ht.1, hsees, ht.2, Nat.le_add_right _ _⟩

theorem loopStart_meets (inLoop : Bool) {start : Option (Located Ast.Simple)}
    (hsees : Sees slots scopes) :
    Meets b (b.loopStart scopes start) slots fun slots' found =>
      Statement.AllWellTyped (b.codeContext slots') inLoop found.1 ∧ Sees slots' found.2
        ∧ Statement.nodesAll found.1 ≤ 2 * (start.map fun s => s.value.weight).getD 0
        ∧ slots'.length ≤ slots.length + (start.map fun s => s.value.weight).getD 0 := by
  cases start with
  | none => exact meets_pure ⟨trivial, hsees, Nat.le_refl _, Nat.le_refl _⟩
  | some start =>
    exact (simple_meets hr inLoop hsees).bind fun slots' found _ hfound =>
      meets_pure ⟨⟨hfound.typed, trivial⟩, hfound.sees, hfound.nodes, hfound.slots⟩

end Simple

section Optional

variable {c : CodeContext} (henv : (b.env scopes).Models c)
include henv

theorem optionalExpr_meets (e : Option Ast.Expr) :
    (b.optionalExpr scopes e).Meets fun t =>
      (∀ value ∈ t, value.WellTyped c) ∧ Expr.optionNodes t ≤ 2 * Ast.Expr.optionWeight e := by
  cases e with
  | none => exact Check.meets_ok ⟨nofun, Nat.le_refl _⟩
  | some e =>
    refine (Env.expr_meets henv e).bind fun t ht => Check.meets_ok ⟨?_, Nat.le_of_succ_le ht.2⟩
    rintro value ⟨⟩
    exact ht.1

theorem optionalCondition_meets (e : Option Ast.Expr) :
    (b.optionalCondition scopes e).Meets fun t =>
      Expr.OptionalCondition c t ∧ Expr.optionNodes t ≤ 2 * Ast.Expr.optionWeight e := by
  cases e with
  | none => exact Check.meets_ok ⟨nofun, Nat.le_refl _⟩
  | some e =>
    refine (Env.conditionExpr_meets henv e).bind fun t ht =>
      Check.meets_ok ⟨?_, Nat.le_of_succ_le ht.2⟩
    rintro value ⟨⟩
    exact ht.1

theorem result_meets (hresult : c.result = b.returnType) {span : Span} (e : Option Ast.Expr) :
    (b.result scopes span e).Meets fun t =>
      Expr.FitsResult c t ∧ Expr.optionNodes t ≤ 2 * Ast.Expr.optionWeight e := by
  cases e with
  | none =>
    rw [result]
    split
    · rename_i hvoid
      refine Check.meets_ok ⟨?_, Nat.le_refl _⟩
      rw [Expr.FitsResult, hresult]
      exact hvoid
    · exact Check.meets_fail (by rintro ⟨⟩)
  | some e =>
    rw [result]
    split
    · exact Check.meets_fail (by rintro ⟨⟩)
    · rename_i hvoid
      refine (Env.exprOf_meets henv e).bind fun t ht => Check.meets_ok ⟨⟨ht.1, ?_, ?_⟩, ht.2.2⟩
      · rw [hresult]
        exact ht.2.1
      · rw [hresult]
        exact Bool.eq_false_iff.mpr hvoid

end Optional

theorem branch_wellTyped {c : CodeContext} {inLoop : Bool} (s : Ast.Statement) {t : Statement}
    (h : t.WellTyped c inLoop) : Statement.AllWellTyped c inLoop (branch s t) := by
  unfold branch
  split
  · exact h
  · exact ⟨h, trivial⟩

theorem nodesAll_branch_le (s : Ast.Statement) (t : Statement) :
    Statement.nodesAll (branch s t) ≤ t.nodes := by
  unfold branch
  split
  · exact Nat.le_succ _
  · exact Nat.le_refl _

theorem leave_meets {inLoop : Bool} {kind : Typed.Leave} {line : Nat} {span : Span}
    {word : String} (hsees : Sees slots scopes) :
    Meets b (if inLoop then pure (Statement.leave kind line, scopes)
      else FrameM.fail span (.leaveOutsideLoop word)) slots
        (GivesStatement b inLoop slots.length 1) := by
  cases inLoop with
  | true => exact meets_pure ⟨rfl, hsees, Nat.le_succ 1, Nat.le_succ _⟩
  | false => exact meets_fail nofun

mutual

theorem statement_meets (hr : b.registry.Valid) (inLoop : Bool) {slots : List DataType}
    {scopes : Scopes} (hsees : Sees slots scopes) : (s : Ast.Statement) →
      Meets b (b.statement inLoop scopes s) slots (GivesStatement b inLoop slots.length s.weight)
  | .block body _ => by
    refine (statements_meets hr inLoop hsees.push body).bind fun slots' typed hslots htyped =>
      meets_pure ⟨htyped.1, hsees.extend hslots, ?_, Nat.le_succ_of_le htyped.2.2⟩
    have hnodes := htyped.2.1
    simp only [Statement.nodes, Ast.Statement.weight]
    omega
  | .simple _ _ => simple_meets hr inLoop hsees
  | .ifThen test body _ => by
    refine Meets.check (fun hvalues => Env.conditionExpr_meets (env_models hr hvalues hsees) test)
      fun t ht => ?_
    refine (statement_meets hr inLoop hsees.push body).bind fun slots' first hslots hfirst => ?_
    have htest := ht.2
    have hbody := hfirst.nodes
    have hcount := hfirst.slots
    have hbranch := nodesAll_branch_le body first.1
    refine meets_pure ⟨⟨ht.1.1.extend (codeContext_extends hslots), ht.1.2,
      branch_wellTyped body hfirst.typed, trivial⟩, hsees.extend hslots, ?_, ?_⟩
    · simp only [Statement.nodes, Statement.nodesAll, Ast.Statement.weight]
      omega
    · simp only [Ast.Statement.weight]
      omega
  | .ifElse test whenTrue whenFalse _ => by
    refine Meets.check (fun hvalues => Env.conditionExpr_meets (env_models hr hvalues hsees) test)
      fun t ht => ?_
    refine (statement_meets hr inLoop hsees.push whenTrue).bind fun slots' first hslots hfirst => ?_
    have hsees' := hsees.extend hslots
    refine (statement_meets hr inLoop hsees'.push whenFalse).bind
      fun slots'' second hslots' hsecond => ?_
    have hc := codeContext_extends (b := b) hslots'
    have htest := ht.2
    have hnodes := hfirst.nodes
    have hnodes' := hsecond.nodes
    have hcount := hfirst.slots
    have hcount' := hsecond.slots
    have hbranch := nodesAll_branch_le whenTrue first.1
    have hbranch' := nodesAll_branch_le whenFalse second.1
    refine meets_pure ⟨⟨(ht.1.1.extend (codeContext_extends hslots)).extend hc, ht.1.2,
      (branch_wellTyped whenTrue hfirst.typed).extend hc, branch_wellTyped whenFalse hsecond.typed⟩,
      hsees'.extend hslots', ?_, ?_⟩
    · simp only [Statement.nodes, Ast.Statement.weight]
      omega
    · simp only [Ast.Statement.weight]
      omega
  | .forLoop start test step body _ => by
    refine (loopStart_meets hr inLoop hsees.push).bind fun slots' found hslots hfound => ?_
    obtain ⟨first, inner⟩ := found
    obtain ⟨hfirst, hinner, hfirstNodes, hcount⟩ := hfound
    refine Meets.check (fun hvalues =>
      optionalCondition_meets (env_models hr hvalues hinner) test) fun t ht => ?_
    refine Meets.check (fun hvalues =>
      optionalExpr_meets (env_models hr hvalues hinner) step) fun next hnext => ?_
    refine (statement_meets hr true hinner.push body).bind fun slots'' typed hslots' htyped => ?_
    -- The body may add slots, so the header is read again in the longer frame.
    have hc := codeContext_extends (b := b) hslots'
    have hbody := htyped.nodes
    have hcount' := htyped.slots
    have hbranch := nodesAll_branch_le body typed.1
    have htest := ht.2
    have hstep := hnext.2
    refine meets_pure ⟨Statement.allWellTyped_append.mpr ⟨hfirst.extend hc,
      ⟨ht.1.extend hc, fun e he => (hnext.1 e he).extend hc, branch_wellTyped body htyped.typed⟩,
      trivial⟩, (hsees.extend hslots).extend hslots', ?_, ?_⟩
    · simp only [Statement.nodes, Statement.nodesAll_append, Statement.nodesAll,
        Ast.Statement.weight] at *
      omega
    · simp only [Ast.Statement.weight]
      omega
  | .whileLoop test body _ => by
    refine Meets.check (fun hvalues => Env.conditionExpr_meets (env_models hr hvalues hsees) test)
      fun t ht => ?_
    refine (statement_meets hr true hsees.push body).bind fun slots' typed hslots htyped => ?_
    have htest := ht.2
    have hbody := htyped.nodes
    have hcount := htyped.slots
    have hbranch := nodesAll_branch_le body typed.1
    refine meets_pure ⟨⟨?_, nofun, branch_wellTyped body htyped.typed⟩, hsees.extend hslots, ?_, ?_⟩
    · rintro condition ⟨⟩
      exact ⟨ht.1.1.extend (codeContext_extends hslots), ht.1.2⟩
    · simp only [Statement.nodes, Expr.optionNodes, Option.map_some, Option.map_none,
        Option.getD_some, Option.getD_none, Ast.Statement.weight]
      omega
    · simp only [Ast.Statement.weight]
      omega
  | .doLoop body test _ => by
    refine (statement_meets hr true hsees.push body).bind fun slots' typed hslots htyped => ?_
    have hsees' := hsees.extend hslots
    refine Meets.check (fun hvalues => Env.conditionExpr_meets (env_models hr hvalues hsees') test)
      fun t ht => ?_
    have htest := ht.2
    have hbody := htyped.nodes
    have hcount := htyped.slots
    have hbranch := nodesAll_branch_le body typed.1
    refine meets_pure ⟨⟨branch_wellTyped body htyped.typed, ht.1⟩, hsees', ?_, ?_⟩
    · simp only [Statement.nodes, Ast.Statement.weight]
      omega
    · simp only [Ast.Statement.weight]
      omega
  | .returnFrom value _ => by
    refine Meets.check (fun hvalues => result_meets (env_models hr hvalues hsees) rfl value)
      fun t ht => meets_pure ⟨ht.1, hsees, ?_, Nat.le_add_right _ _⟩
    have hnodes := ht.2
    simp only [Statement.nodes, Ast.Statement.weight]
    omega
  | .breakLoop _ => leave_meets hsees
  | .continueLoop _ => leave_meets hsees
  | .discardPixel _ => by
    rw [statement]
    split
    · exact meets_pure ⟨trivial, hsees, Nat.le_succ 1, Nat.le_succ _⟩
    · exact meets_fail nofun
  | .empty _ => meets_pure ⟨trivial, hsees, Nat.le_succ 1, Nat.le_succ _⟩

theorem statements_meets (hr : b.registry.Valid) (inLoop : Bool) {slots : List DataType}
    {scopes : Scopes} (hsees : Sees slots scopes) : (body : List Ast.Statement) →
      Meets b (b.statements inLoop scopes body) slots fun slots' typed =>
        Statement.AllWellTyped (b.codeContext slots') inLoop typed
          ∧ Statement.nodesAll typed ≤ 2 * Ast.Statement.weightAll body
          ∧ slots'.length ≤ slots.length + Ast.Statement.weightAll body
  | [] => meets_pure ⟨trivial, Nat.le_refl _, Nat.le_refl _⟩
  | first :: rest => by
    refine (statement_meets hr inLoop hsees first).bind fun slots' found hslots hfound => ?_
    refine (statements_meets hr inLoop hfound.sees rest).bind fun slots'' more hslots' hmore => ?_
    have hfirst := hfound.nodes
    have hcount := hfound.slots
    have hrest := hmore.2
    refine meets_pure ⟨⟨hfound.typed.extend (codeContext_extends hslots'), hmore.1⟩, ?_, ?_⟩
    · simp only [Statement.nodesAll, Ast.Statement.weightAll]
      omega
    · simp only [Ast.Statement.weightAll]
      omega

end

end BodyEnv

end ShaderBytecode
