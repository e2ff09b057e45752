import ShaderBytecode.Proofs.CodeTyping

/-!
# The code of routines obeys the stack rules

The code of a statement leaves the empty stack empty. A routine is a function or the initialisation
of the globals: its code starts with an empty stack and ends in the return that fits its result.
-/

namespace ShaderBytecode

open Item (sizeAll_append)

namespace Typed

section Trees

variable {c : CodeContext} {inLoop : Bool} {s : StackType}

/-! ## Statements -/

theorem turns_marker (markers : Bool) (line : Nat) : Turns c inLoop (marker markers line) s s := by
  cases markers with
  | false => exact .nil
  | true => exact .op rfl rfl

/-- An expression whose value is not needed leaves the stack as it was. -/
theorem Expr.WellTyped.turns_effect (hv : c.Valid) (hs : c.Small) {e : Expr} (h : e.WellTyped c)
    (hsize : Item.sizeAll e.effect < UInt32.size) : Turns c inLoop e.effect s s := by
  unfold Expr.effect at hsize ⊢
  by_cases hvoid : e.type.isVoid = true
  · rw [if_pos hvoid] at hsize ⊢
    have hcode : Turns c inLoop e.code s (e.type.onto s) := h.turns hv hs hsize s
    rwa [DataType.onto, if_pos hvoid] at hcode
  · rw [if_neg hvoid] at hsize ⊢
    have hvalue : e.type.isVoid = false := Bool.eq_false_iff.mpr hvoid
    exact (h.turns_value hv hs rfl hvalue (size_left hsize)).append (.simple rfl)

theorem turns_optionEffect (hv : c.Valid) (hs : c.Small) {e : Option Expr}
    (h : ∀ step ∈ e, step.WellTyped c) (hsize : Item.sizeAll (Expr.optionEffect e) < UInt32.size) :
    Turns c inLoop (Expr.optionEffect e) s s := by
  cases e with
  | none => exact .nil
  | some step => exact (h step rfl).turns_effect hv hs hsize

/-- A return ends control, so anything may be said of the stack behind it. -/
theorem Expr.FitsResult.turns (hv : c.Valid) (hs : c.Small) {value : Option Expr}
    (h : Expr.FitsResult c value) (hsize : Item.sizeAll (returnCode value) < UInt32.size) :
    Turns c inLoop (returnCode value) [] s := by
  cases value with
  | none => exact .final rfl (if_pos h) rfl
  | some value =>
    obtain ⟨hvalue, htype, hvoid⟩ := h
    refine (hvalue.turns_value hv hs htype hvoid (size_left hsize)).append
      (.final rfl (if_pos ?_) rfl)
    rw [hvoid]
    exact decide_eq_true rfl

theorem size_repeatWhile {test : Option (List Item)} {body step : List Item} {n : Nat}
    (h : Item.sizeAll (Item.repeatWhile test body step) < n) :
    (∀ t ∈ test, Item.sizeAll t < n) ∧ Item.sizeAll body < n ∧ Item.sizeAll step < n := by
  cases test with
  | none =>
    simp only [Item.repeatWhile, Item.backWhen, sizeAll_append, sizeAll_closeLeaves] at h
    exact ⟨fun t ht => (by cases ht), by omega, by omega⟩
  | some test =>
    simp only [Item.repeatWhile, Item.backWhen, sizeAll_append, sizeAll_closeLeaves] at h
    refine ⟨fun t ht => ?_, by omega, by omega⟩
    cases ht
    omega

theorem size_repeatUntil {body test : List Item} {n : Nat}
    (h : Item.sizeAll (Item.repeatUntil body test) < n) :
    Item.sizeAll body < n ∧ Item.sizeAll test < n := by
  simp only [Item.repeatUntil, Item.backWhen, sizeAll_append, sizeAll_closeLeaves] at h
  omega

mutual

theorem Statement.WellTyped.turns (hv : c.Valid) (hs : c.Small) {markers inLoop : Bool} :
    {st : Statement} → st.WellTyped c inLoop → Item.sizeAll (st.code markers) < UInt32.size →
      Turns c inLoop (st.code markers) [] []
  | .expr value line, h, hsize =>
    (turns_marker markers line).append (Expr.WellTyped.turns_effect hv hs h (size_right hsize))
  | .declare slot value line, h, hsize => by
    have hvalue := hv.locals value.type (List.mem_of_getElem? h.2)
    refine ((turns_marker markers line).append
      (h.1.turns_value hv hs rfl hvalue.isVoid (size_right (size_left hsize)))).append
      (.indexed (toNat_ofNat_of_getElem? hs.locals h.2) ?_)
    rw [IndexedOp.effect?, writeEffect?, h.2]
    exact if_pos rfl
  | .ifElse test whenTrue whenFalse line, h, hsize => by
    obtain ⟨htest, htype, htrue, hfalse⟩ := h
    have hbranch := size_right hsize
    refine ((turns_marker markers line).append
      (htest.turns_value hv hs htype rfl (size_right (size_left hsize)))).append ?_
    unfold branchCode at hbranch ⊢
    by_cases hempty : whenFalse.isEmpty = true
    · rw [hempty] at hbranch ⊢
      exact .skip (by decide) (Statement.AllWellTyped.turns hv hs htrue (size_tail hbranch))
    · rw [Bool.eq_false_iff.mpr hempty] at hbranch ⊢
      exact .choose
        (Statement.AllWellTyped.turns hv hs htrue (size_left (size_tail (size_left hbranch))))
        (Statement.AllWellTyped.turns hv hs hfalse (size_right hbranch))
  | .loop test step body line, h, hsize => by
    obtain ⟨htest, hstep, hbody⟩ := h
    obtain ⟨hsizeTest, hsizeBody, hsizeStep⟩ := size_repeatWhile (size_right hsize)
    refine (turns_marker markers line).append (.repeatWhile ?_
      (Statement.AllWellTyped.turns hv hs hbody hsizeBody)
      (turns_optionEffect hv hs hstep hsizeStep))
    intro code hmem
    obtain ⟨condition, hcondition, rfl⟩ := Option.map_eq_some_iff.mp hmem
    obtain ⟨hwell, htype⟩ := htest condition hcondition
    exact hwell.turns_value hv hs htype rfl (hsizeTest _ hmem)
  | .doLoop body test line, h, hsize => by
    obtain ⟨hbody, htest, htype⟩ := h
    obtain ⟨hsizeBody, hsizeTest⟩ := size_repeatUntil (size_right hsize)
    exact (turns_marker markers line).append
      (.repeatUntil (Statement.AllWellTyped.turns hv hs hbody hsizeBody)
        (htest.turns_value hv hs htype rfl hsizeTest))
  | .returnFrom value line, h, hsize =>
    (turns_marker markers line).append (Expr.FitsResult.turns hv hs h (size_right hsize))
  | .leave kind line, h, hsize => by
    cases (h : inLoop = true)
    exact (turns_marker markers line).append (.leave kind)
  | .discardPixel line, _, _ => (turns_marker markers line).append (.final rfl rfl rfl)
  | .block body, h, hsize => Statement.AllWellTyped.turns hv hs h hsize

theorem Statement.AllWellTyped.turns (hv : c.Valid) (hs : c.Small) {markers inLoop : Bool} :
    {body : List Statement} → Statement.AllWellTyped c inLoop body →
      Item.sizeAll (Statement.codeAll markers body) < UInt32.size →
        Turns c inLoop (Statement.codeAll markers body) [] []
  | [], _, _ => .nil
  | _ :: _, h, hsize =>
    (h.1.turns hv hs (size_left hsize)).append
      (Statement.AllWellTyped.turns hv hs h.2 (size_right hsize))

end

/-! ## Routines -/

theorem Statement.codeAll_append (markers : Bool) (first second : List Statement) :
    Statement.codeAll markers (first ++ second) =
      Statement.codeAll markers first ++ Statement.codeAll markers second := by
  induction first with
  | nil => rfl
  | cons s rest ih =>
    rw [List.cons_append, Statement.codeAll, Statement.codeAll, ih, List.append_assoc]

end Trees

end Typed

/-- The code of a routine: it starts with an empty stack, and its last instruction is a legal
return. -/
def Closes (c : CodeContext) (code : List Item) : Prop :=
  ∃ front s, ∃ op : SimpleOp, code = front ++ [.simple op] ∧ (op = .ret ∨ op = .retValue)
    ∧ Turns c false front [] s ∧ op.effect? c s = some []

theorem Closes.append {c : CodeContext} {first second : List Item} (h : Turns c false first [] [])
    (h' : Closes c second) : Closes c (first ++ second) := by
  obtain ⟨front, s, op, rfl, hop, hfront, heffect⟩ := h'
  exact ⟨first ++ front, s, op, (List.append_assoc ..).symm, hop, h.append hfront, heffect⟩

namespace Typed

variable {c : CodeContext}

theorem Expr.FitsResult.closes (hv : c.Valid) (hs : c.Small) {value : Option Expr}
    (h : Expr.FitsResult c value) (hsize : Item.sizeAll (returnCode value) < UInt32.size) :
    Closes c (returnCode value) := by
  cases value with
  | none => exact ⟨[], [], .ret, rfl, .inl rfl, .nil, if_pos h⟩
  | some value =>
    obtain ⟨hvalue, htype, hvoid⟩ := h
    refine ⟨value.code, [.value c.result], .retValue, rfl, .inr rfl,
      hvalue.turns_value hv hs htype hvoid (size_left hsize), if_pos ?_⟩
    rw [hvoid]
    exact decide_eq_true rfl

/-- A body whose last statement returns consists of the others and the return. -/
theorem endsInReturn_iff {body : List Statement} :
    endsInReturn body = true ↔ ∃ init value line, body = init ++ [.returnFrom value line] := by
  constructor
  · intro h
    unfold endsInReturn at h
    split at h
    · rename_i value line hlast
      obtain ⟨init, rfl⟩ := List.getLast?_eq_some_iff.mp hlast
      exact ⟨init, value, line, rfl⟩
    · cases h
  · rintro ⟨init, value, line, rfl⟩
    rw [endsInReturn, List.getLast?_append]
    rfl

theorem Definition.closes (hv : c.Valid) (hs : c.Small) {markers : Bool} {d : Definition}
    (hbody : Statement.AllWellTyped c false d.body) (hzero : Expr.FitsResult c d.zero)
    (hsize : Item.sizeAll (d.code markers) < UInt32.size) : Closes c (d.code markers) := by
  unfold Definition.code at hsize ⊢
  by_cases hends : endsInReturn d.body = true
  · obtain ⟨init, value, line, hsplit⟩ := endsInReturn_iff.mp hends
    rw [if_pos hends, List.append_nil, hsplit, Statement.codeAll_append] at hsize ⊢
    rw [hsplit, Statement.allWellTyped_append] at hbody
    have hreturn : Statement.codeAll markers [.returnFrom value line] =
        marker markers line ++ returnCode value := List.append_nil _
    rw [hreturn] at hsize ⊢
    exact .append (hbody.1.turns hv hs (size_left hsize)) (.append (turns_marker markers line)
      (Expr.FitsResult.closes hv hs hbody.2.1 (size_right (size_right hsize))))
  · rw [if_neg hends] at hsize ⊢
    exact .append (hbody.turns hv hs (size_left hsize)) (hzero.closes hv hs (size_right hsize))

/-- A global variable stands at its place, and its start value has its type. -/
def Global.WellTyped (c : CodeContext) (index : Nat) (g : Global) : Prop :=
  c.globals[index]? = some g.symbol.type
    ∧ ∀ value ∈ g.initializer, value.WellTyped c ∧ value.type = g.symbol.type

theorem Global.WellTyped.turns (hv : c.Valid) (hs : c.Small) {markers inLoop : Bool} {index : Nat}
    {g : Global} (h : g.WellTyped c index)
    (hsize : Item.sizeAll (g.code markers index) < UInt32.size) :
    Turns c inLoop (g.code markers index) [] [] := by
  obtain ⟨hplace, hvalue⟩ := h
  unfold Global.code at hsize ⊢
  cases hinit : g.initializer with
  | none => exact .nil
  | some value =>
    rw [hinit] at hsize
    obtain ⟨hwell, htype⟩ := hvalue value hinit
    have hvoid := (hv.globals _ (List.mem_of_getElem? hplace)).isVoid
    refine ((turns_marker markers g.line).append
      (hwell.turns_value hv hs htype hvoid (size_right (size_left hsize)))).append
      (.indexed (toNat_ofNat_of_getElem? hs.globals hplace) ?_)
    rw [IndexedOp.effect?, writeEffect?, hplace]
    exact if_pos rfl

/-- The code that sets the global variables is a routine without a result. -/
theorem Registry.closes_initCode (hv : c.Valid) (hs : c.Small) {markers : Bool} {r : Registry}
    (hresult : c.result = .void)
    (hglobals : ∀ g index, (g, index) ∈ r.globals.zipIdx r.builtins.length → g.WellTyped c index)
    (hsize : Item.sizeAll (r.initCode markers) < UInt32.size) : Closes c (r.initCode markers) := by
  have hturns : ∀ pairs : List (Global × Nat),
      (∀ g index, (g, index) ∈ pairs → g.WellTyped c index) →
      Item.sizeAll (pairs.flatMap fun pair => pair.1.code markers pair.2) < UInt32.size →
        Turns c false (pairs.flatMap fun pair => pair.1.code markers pair.2) [] [] := by
    intro pairs hpairs hfits
    induction pairs with
    | nil => exact .nil
    | cons pair rest ih =>
      rw [List.flatMap_cons] at hfits ⊢
      exact .append ((hpairs _ _ (List.mem_cons_self ..)).turns hv hs (size_left hfits))
        (ih (fun g index hmem => hpairs g index (List.mem_cons_of_mem _ hmem)) (size_right hfits))
  refine .append (hturns _ hglobals (size_left hsize)) ⟨[], [], .ret, rfl, .inl rfl, .nil, ?_⟩
  rw [SimpleOp.effect?, hresult]
  rfl

end Typed

end ShaderBytecode
