import ShaderBytecode.Compiler
import ShaderBytecode.Proofs.RegistryTyping

/-!
# Typing gives well typed sources

Every step of typing a source keeps its registries well typed, also one that is refused half way,
and what it registers is bounded by the weight of the declaration.
-/

namespace ShaderBytecode

open Typed (Expr Statement Registry)

/-! ## Steps -/

namespace ModuleM

variable {α β : Type} {d : Dialect} {bound : Nat} {r : Registry}

/-- A step leaves well typed registries that hold no more than a bound, whether it succeeds or not.
It fails only for a fault of the source. -/
def Meets (d : Dialect) (bound : Nat) (step : ModuleM α) (r : Registry)
    (P : Registry → α → Prop) : Prop :=
  ∀ remarks, match step.run ⟨r, remarks⟩ with
    | .ok a s => s.registry.WellTyped d ∧ s.registry.load ≤ bound ∧ P s.registry a
    | .error fault s => s.registry.WellTyped d ∧ s.registry.load ≤ bound
      ∧ fault.value.kind ≠ .compiler

variable {step : ModuleM α} {P : Registry → α → Prop} {Q : Registry → β → Prop}

theorem Meets.mono {bound' : Nat} {Q : Registry → α → Prop} (h : Meets d bound step r P)
    (hbound : bound ≤ bound') (hPQ : ∀ r' a, r'.load ≤ bound → P r' a → Q r' a) :
    Meets d bound' step r Q := by
  intro remarks
  have hstep := h remarks
  split
  · rename_i hrun
    rw [hrun] at hstep
    exact ⟨hstep.1, Nat.le_trans hstep.2.1 hbound, hPQ _ _ hstep.2.1 hstep.2.2⟩
  · rename_i hrun
    rw [hrun] at hstep
    exact ⟨hstep.1, Nat.le_trans hstep.2.1 hbound, hstep.2.2⟩

theorem Meets.of_ok {s s' : ModuleState} {a : α} (h : Meets d bound step s.registry P)
    (hrun : step.run s = .ok a s') :
    s'.registry.WellTyped d ∧ s'.registry.load ≤ bound ∧ P s'.registry a := by
  obtain ⟨registry, remarks⟩ := s
  have hstep := h remarks
  rw [hrun] at hstep
  exact hstep

theorem Meets.of_error {s s' : ModuleState} {fault : Located TypingFault}
    (h : Meets d bound step s.registry P) (hrun : step.run s = .error fault s') :
    s'.registry.WellTyped d ∧ s'.registry.load ≤ bound ∧ fault.value.kind ≠ .compiler := by
  obtain ⟨registry, remarks⟩ := s
  have hstep := h remarks
  rw [hrun] at hstep
  exact hstep

theorem meets_pure {a : α} (hr : r.WellTyped d) (hbound : r.load ≤ bound) (h : P r a) :
    Meets d bound (pure a) r P :=
  fun _ => ⟨hr, hbound, h⟩

theorem Meets.bind {f : α → ModuleM β} (h : Meets d bound step r P)
    (h' : ∀ r' a, r'.WellTyped d → r'.load ≤ bound → P r' a → Meets d bound (f a) r' Q) :
    Meets d bound (step >>= f) r Q := by
  intro remarks
  have hstep := h remarks
  rw [EStateM.run_bind]
  cases hrun : step.run ⟨r, remarks⟩ with
  | ok a s =>
    rw [hrun] at hstep
    exact h' s.registry a hstep.1 hstep.2.1 hstep.2.2 s.remarks
  | error fault s =>
    rw [hrun] at hstep
    exact hstep

theorem Meets.check {P : α → Prop} {result : Check α} {f : α → ModuleM β} (hr : r.WellTyped d)
    (hbound : r.load ≤ bound) (h : result.Meets P) (h' : ∀ a, P a → Meets d bound (f a) r Q) :
    Meets d bound (ofCheck result >>= f) r Q := by
  intro remarks
  cases result with
  | ok a => exact h' a h remarks
  | error fault => exact ⟨hr, hbound, h⟩

theorem meets_env {c : Context} {f : Env → ModuleM β}
    (h : Meets d bound (f { context := c, registry := r }) r Q) : Meets d bound (env c >>= f) r Q :=
  fun remarks => h remarks

theorem meets_update {P : Registry → Unit → Prop} {f : Registry → Registry}
    (hr : (f r).WellTyped d) (hbound : (f r).load ≤ bound) (h : P (f r) ()) :
    Meets d bound (update f) r P :=
  fun _ => ⟨hr, hbound, h⟩

theorem meets_remark {remarks : List (Located Remark)} {f : Unit → ModuleM β}
    (h : Meets d bound (f ()) r Q) : Meets d bound (remark remarks >>= f) r Q :=
  fun earlier => h (earlier ++ remarks)

/-- Steps for each of some items, with a bound that grows by what an item may add. -/
theorem meets_forM {ι : Type} {step : ι → ModuleM Unit} (cost : ι → Nat)
    (hstep : ∀ r i, r.WellTyped d → Meets d (r.load + cost i) (step i) r fun _ _ => True) :
    ∀ (items : List ι) (r : Registry), r.WellTyped d →
      Meets d (r.load + (items.map cost).sum) (items.forM step) r fun _ _ => True
  | [], _, hr => meets_pure hr (Nat.le_refl _) trivial
  | first :: rest, r, hr => by
    have hcost : r.load + cost first ≤ r.load + ((first :: rest).map cost).sum := by
      simp only [List.map_cons, List.sum_cons]
      omega
    refine ((hstep r first hr).mono hcost fun _ _ hload _ => hload).bind
      fun r' _ hr' _ hload => (meets_forM cost hstep rest r' hr').mono ?_ fun _ _ _ _ => trivial
    simp only [List.map_cons, List.sum_cons]
    omega

end ModuleM

/-! ## Checks of declarations -/

section Declarations

open Check (meets_ok meets_fail meets_unless meets_guard)

variable {env : Env} {c : CodeContext}

theorem Env.checkName_meets {name : String} {span : Span} :
    (env.checkName name span).Meets fun _ => True := by
  refine meets_unless nofun fun _ => meets_unless nofun fun _ => ?_
  split
  · exact meets_fail nofun
  · exact meets_ok trivial

theorem checkStorage_meets {context : Context} {type : DataType} {storage : Option Storage}
    {d : Ast.Declarator} : (checkStorage context type storage d).Meets fun _ => True := by
  unfold checkStorage
  simp only []
  split
  · exact meets_fail nofun
  · exact meets_guard nofun fun _ => meets_guard nofun fun _ => meets_unless nofun fun _ =>
      meets_ok trivial

theorem structMembers_meets (henv : env.Models c) {struct : String} (found : List Member)
    (members : List Ast.Member) (hfound : ∀ m ∈ found, m.type.IsValue) :
    (structMembers env struct found members).Meets fun all =>
      (∀ m ∈ all, m.type.IsValue) ∧ all.length = found.length + members.length := by
  induction members generalizing found with
  | nil => exact meets_ok ⟨hfound, rfl⟩
  | cons first rest ih =>
    refine (Env.resolveValueType_meets henv).bind fun type htype => ?_
    refine meets_guard nofun fun _ => meets_guard nofun fun _ => ?_
    refine (ih _ ?_).mono fun all hall => ⟨hall.1, ?_⟩
    · exact List.forall_mem_append.mpr ⟨hfound, List.forall_mem_singleton.mpr htype.1⟩
    · rw [hall.2]
      simp only [List.length_append, List.length_cons, List.length_nil]
      omega

theorem functionParameters_meets (henv : env.Models c) {function : String} (found : List Parameter)
    (parameters : List Ast.Parameter) (hfound : ∀ p ∈ found, p.type.IsValue) :
    (functionParameters env function found parameters).Meets fun all =>
      (∀ p ∈ all, p.type.IsValue) ∧ all.length = found.length + parameters.length := by
  induction parameters generalizing found with
  | nil => exact meets_ok ⟨hfound, rfl⟩
  | cons first rest ih =>
    refine (Env.resolveValueType_meets henv).bind fun type htype => ?_
    refine meets_guard nofun fun _ => meets_guard nofun fun _ => ?_
    refine (ih _ ?_).mono fun all hall => ⟨hall.1, ?_⟩
    · exact List.forall_mem_append.mpr ⟨hfound, List.forall_mem_singleton.mpr htype.1⟩
    · rw [hall.2]
      simp only [List.length_append, List.length_cons, List.length_nil]
      omega

structure SignatureOf (c : CodeContext) (f : Ast.Function) (signature : Function) : Prop where
  name : signature.name = f.name
  count : signature.parameters.length = f.parameters.length
  parameters : ∀ p ∈ signature.parameters, p.type.IsValue
  result : signature.returnType.isVoid = false → signature.returnType.IsValue
  resultCode : (c.code? signature.returnType).isSome = true

variable {f : Ast.Function}

theorem functionSignature_meets (henv : env.Models c) :
    (functionSignature env f).Meets (SignatureOf c f) := by
  refine (Env.resolveType_meets henv).bind fun type htype => ?_
  refine (functionParameters_meets henv [] f.parameters nofun).bind fun all hall => meets_ok ?_
  exact ⟨rfl, hall.2.trans (Nat.zero_add _), hall.1, htype.1, htype.2⟩

theorem SignatureOf.isResult {signature : Function} (h : SignatureOf c f signature) :
    signature.returnType.IsResult := by
  cases hvoid : signature.returnType.isVoid with
  | true => exact .inl hvoid
  | false => exact .inr (h.result hvoid)

theorem checkAgain_meets {earlier : Typed.Function} {signature : Function} :
    (checkAgain earlier signature f).Meets fun _ =>
      earlier.signature.sameSignature signature = true := by
  refine meets_unless nofun fun hsame => meets_unless nofun fun _ => meets_ok ?_
  rw [Bool.not_eq_true, Bool.not_eq_false'] at hsame
  exact hsame

end Declarations

/-! ## Declarations -/

theorem Typed.Registry.WellTyped.models {r : Registry} {c : Context} (h : r.WellTyped c.dialect) :
    Env.Models { context := c, registry := r } (r.codeContext c.dialect [] .void) :=
  ⟨rfl, rfl, rfl, rfl, nofun, h.valid.codeContext nofun⟩

theorem Typed.Registry.ne_of_function?_eq_none {r : Registry} {name : String}
    (h : r.function? name = none) : ∀ f ∈ r.functions, f.signature.name ≠ name :=
  fun f hf => of_decide_eq_false (findPlace?_eq_none_iff.mp h f hf)

theorem Function.sameSignature_self (f : Function) : f.sameSignature f = true := by
  simp only [Function.sameSignature, decide_true, Bool.and_self]

theorem BodyEnv.sees_parameterScope (signature : Function) (parameters : List Ast.Parameter) :
    Sees (signature.parameters.map (·.type)) [[], parameterScope signature parameters] := by
  intro scope hscope x hx
  obtain rfl | hscope := List.mem_cons.mp hscope
  · cases hx
  · rw [List.mem_singleton.mp hscope] at hx
    obtain ⟨⟨⟨p, declared⟩, slot⟩, hmem, rfl⟩ := List.mem_map.mp (List.mem_filter.mp hx).1
    have hzip := List.mem_zipIdx_iff_getElem?.mp hmem
    have hp : signature.parameters[slot]? = some p := (List.getElem?_zip_eq_some.mp hzip).1
    rw [List.getElem?_map, hp]
    rfl

namespace ModuleM

variable {c : Context} {r : Registry}

section Registering

variable (hr : r.WellTyped c.dialect)
include hr

theorem struct_meets (s : Ast.Structure) :
    Meets c.dialect (r.load + (s.members.length + 1)) (struct c s) r fun _ _ => True := by
  have hstart : r.load ≤ r.load + (s.members.length + 1) := Nat.le_add_right _ _
  refine meets_env (Meets.check hr hstart Env.checkName_meets fun _ _ => ?_)
  refine Meets.check hr hstart (structMembers_meets hr.models [] s.members nofun)
    fun members hmembers => ?_
  refine meets_update (hr.addStructure hmembers.1) (Nat.le_of_eq ?_) trivial
  rw [Typed.Registry.load_addStructure, hmembers.2, List.length_nil, Nat.zero_add]

theorem addGlobal_meets {bound : Nat} {g : Typed.Global} (htype : g.symbol.type.IsValue)
    (hvalue : ∀ value ∈ g.initializer, value.WellTyped (r.codeContext c.dialect [] .void)
      ∧ value.type = g.symbol.type) (hbound : r.load + g.nodes ≤ bound) :
    Meets c.dialect bound (addGlobal g) r fun _ _ => True := by
  refine meets_update (hr.addGlobal htype hvalue) ?_ trivial
  rw [Typed.Registry.load_addGlobal]
  exact hbound

theorem globalVariable_meets (v : Ast.Variables) (d : Ast.Declarator) :
    Meets c.dialect (r.load + 2 * d.weight) (globalVariable c v d) r fun _ _ => True := by
  have hstart : r.load ≤ r.load + 2 * d.weight := Nat.le_add_right _ _
  refine meets_env (Meets.check hr hstart (Env.resolveValueType_meets hr.models)
    fun type htype => ?_)
  refine Meets.check hr hstart Env.checkName_meets fun _ _ => ?_
  refine Meets.check hr hstart checkStorage_meets fun _ _ => ?_
  cases hinitializer : d.initializer with
  | none =>
    refine addGlobal_meets hr htype.1 nofun ?_
    simp only [Typed.Global.nodes, Expr.optionNodes, Ast.Declarator.weight, Option.map_none,
      Option.getD_none]
    omega
  | some e =>
    simp only [map_eq_pure_bind, bind_assoc, pure_bind]
    refine Meets.check hr hstart (Env.exprOf_meets hr.models e) fun value hvalue => ?_
    refine addGlobal_meets hr htype.1 ?_ ?_
    · rintro _ ⟨⟩
      exact ⟨hvalue.1, hvalue.2.1⟩
    · have hnodes := hvalue.2.2
      simp only [Typed.Global.nodes, Expr.optionNodes, Ast.Declarator.weight, hinitializer,
        Ast.Expr.optionWeight, Option.map_some, Option.getD_some]
      omega

theorem bufferMember_meets (buffer : BufferBinding) (m : Ast.Member) :
    Meets c.dialect (r.load + 1) (bufferMember c buffer m) r fun _ _ => True := by
  have hstart : r.load ≤ r.load + 1 := Nat.le_succ _
  refine meets_env (Meets.check hr hstart (Env.resolveValueType_meets hr.models)
    fun type htype => ?_)
  refine Meets.check hr hstart Env.checkName_meets fun _ _ => ?_
  exact addGlobal_meets hr htype.1 nofun (Nat.le_refl _)

end Registering

section Functions

variable (hr : r.WellTyped c.dialect) {bound : Nat} {signature : Function} {f : Ast.Function}
include hr

/-- A function has its place, with how it is called, before its body is typed. -/
theorem functionIndex_meets (h : SignatureOf (r.codeContext c.dialect [] .void) f signature)
    (hbound : r.load + (f.parameters.length + 1) ≤ bound) :
    Meets c.dialect bound (functionIndex c signature f) r fun r' index =>
      (∃ earlier, r'.functions[index]? = some earlier
        ∧ earlier.signature.sameSignature signature = true)
      ∧ SignatureOf (r'.codeContext c.dialect [] .void) f signature
      ∧ r'.load ≤ r.load + (f.parameters.length + 1) := by
  have hstart : r.load ≤ bound := Nat.le_trans (Nat.le_add_right _ _) hbound
  refine meets_env ?_
  cases hfound : r.function? f.name with
  | some found =>
    obtain ⟨index, earlier⟩ := found
    have hplace : r.functions[index]? = some earlier := Typed.Registry.getElem?_of_function? hfound
    simp only []
    exact Meets.check hr hstart checkAgain_meets fun _ hsame =>
      meets_pure hr hstart ⟨⟨earlier, hplace, hsame⟩, h, Nat.le_add_right _ _⟩
  | none =>
    simp only []
    refine Meets.check hr hstart Env.checkName_meets fun _ _ => ?_
    split
    · exact fun _ => ⟨hr, hstart, nofun⟩
    · have hname : ∀ g ∈ r.functions, g.signature.name ≠ signature.name := by
        rw [h.name]
        exact Typed.Registry.ne_of_function?_eq_none hfound
      have hload := r.load_addFunction ⟨signature, none, f.span⟩
      have hone : (Typed.Function.mk signature none f.span).load = f.parameters.length + 1 := by
        simp only [Typed.Function.load, h.count, Option.map_none, Option.getD_none, Nat.add_zero]
      rw [hone] at hload
      refine Meets.bind (meets_update (P := fun r' _ =>
        r' = { r with functions := r.functions ++ [⟨signature, none, f.span⟩] })
        (hr.addFunction h.parameters h.isResult hname) (hload ▸ hbound) rfl) ?_
      rintro _ _ hr' _ rfl
      exact meets_pure hr' (hload ▸ hbound) ⟨⟨⟨signature, none, f.span⟩,
        List.getElem?_concat_length, signature.sameSignature_self⟩,
        ⟨h.name, h.count, h.parameters, h.result, h.resultCode⟩, Nat.le_of_eq hload⟩

theorem zeroResult_meets (h : SignatureOf (r.codeContext c.dialect [] .void) f signature)
    (hbound : r.load ≤ bound) (slots : List DataType) :
    Meets c.dialect bound (zeroResult c signature.returnType) r fun r' zero => r' = r
      ∧ Expr.FitsResult (r.codeContext c.dialect slots signature.returnType) zero
      ∧ Expr.optionMentions zero = [] ∧ Expr.optionNodes zero ≤ 1 := by
  unfold zeroResult
  split
  · rename_i hvoid
    exact meets_pure hr hbound ⟨rfl, hvoid, rfl, Nat.zero_le 1⟩
  · rename_i hvoid
    have hvalue := h.result (Bool.eq_false_iff.mpr hvoid)
    exact meets_env (Meets.check hr hbound (Env.code_meets hr.models h.resultCode)
      fun code hcode => meets_pure hr hbound ⟨rfl, ⟨⟨trivial, hvalue, hcode, hvalue.constructs_nil⟩,
        rfl, Bool.eq_false_iff.mpr hvoid⟩, rfl, Nat.le_refl 1⟩)

/-- An accepted body is well typed, and is as large as its source allows. -/
theorem functionBody_meets (h : SignatureOf (r.codeContext c.dialect [] .void) f signature)
    (hbound : r.load ≤ bound) (body : Ast.Body) :
    Meets c.dialect bound (functionBody c signature f body) r fun r' definition => r' = r
      ∧ (∃ slots, definition.WellTyped (r.codeContext c.dialect slots signature.returnType)
        (signature.parameters.map (·.type)))
      ∧ definition.locals.length + definition.nodes
        ≤ 3 * Ast.Statement.weightAll body.statements + 2 := by
  refine meets_env ?_
  have hvalues : ∀ type ∈ signature.parameters.map (·.type), type.IsValue := by
    intro type htype
    obtain ⟨p, hp, rfl⟩ := List.mem_map.mp htype
    exact h.parameters p hp
  let b : BodyEnv := ⟨c, r, signature.parameters.length, signature.returnType⟩
  have hbody := BodyEnv.statements_meets (b := b) hr.valid false
    (BodyEnv.sees_parameterScope signature f.parameters) body.statements []
    (by rw [List.length_map]; rfl) hvalues
  simp only []
  split
  · rename_i hrun
    rw [hrun] at hbody
    exact fun _ => ⟨hr, hbound, hbody⟩
  · rename_i statements frame hrun
    rw [hrun] at hbody
    obtain ⟨slots, hslots, hcount, hvalues', htyped, hnodes, hadded⟩ := hbody
    have hframe : signature.parameters.length + frame.length = slots.length := hcount
    rw [List.length_map] at hadded
    refine meets_remark ?_
    have hend : Meets c.dialect bound (do
        return ⟨frame.map (·.name), statements, ← zeroResult c signature.returnType⟩) r
        fun r' (definition : Typed.Definition) => r' = r
          ∧ (∃ slots, definition.WellTyped (r.codeContext c.dialect slots signature.returnType)
            (signature.parameters.map (·.type)))
          ∧ definition.locals.length + definition.nodes
            ≤ 3 * Ast.Statement.weightAll body.statements + 2 := by
      refine (zeroResult_meets hr h hbound slots).bind fun r' zero _ _ hzero => ?_
      obtain ⟨rfl, hzero, hconstant, hone⟩ := hzero
      refine meets_pure hr hbound
        ⟨rfl, ⟨slots, hslots, ?_, hvalues', htyped, hzero, hconstant⟩, ?_⟩
      · rw [List.length_map, List.length_map]
        exact hcount.symm
      · simp only [Typed.Definition.nodes, List.length_map]
        omega
    split
    · exact meets_remark hend
    · exact hend

end Functions

theorem function_meets (hr : r.WellTyped c.dialect) (f : Ast.Function) :
    Meets c.dialect (r.load + 4 * f.weight) (function c f) r fun _ _ => True := by
  have hweight : f.parameters.length + 1 ≤ f.weight := by
    unfold Ast.Function.weight
    omega
  have hstart : r.load ≤ r.load + 4 * f.weight := Nat.le_add_right _ _
  refine meets_env (Meets.check hr hstart (functionSignature_meets hr.models)
    fun signature hsignature => ?_)
  refine (functionIndex_meets hr hsignature (by omega)).bind fun r' index hr' hload hindex => ?_
  obtain ⟨⟨earlier, hplace, hsame⟩, hsignature', hadded⟩ := hindex
  cases hbody : f.body with
  | none => exact meets_pure hr' hload trivial
  | some body =>
    refine (functionBody_meets hr' hsignature' hload body).bind fun r'' definition _ _ hfound => ?_
    obtain ⟨rfl, htyped, hsize⟩ := hfound
    have hdefined : (Typed.Function.mk signature (some definition) f.span).WellTyped c.dialect
        r'' := by
      rintro _ ⟨⟩
      exact htyped
    refine meets_update (hr'.setFunction hplace hsame hdefined) ?_ trivial
    refine Nat.le_trans (Typed.Registry.load_setFunction_le ..) ?_
    have hcount := hsignature.count
    simp only [Typed.Function.load, Option.map_some, Option.getD_some, Ast.Function.weight, hbody]
    omega

theorem sum_weight_declarators (ds : List Ast.Declarator) :
    (ds.map fun d => 2 * d.weight).sum = 2 * Ast.Declarator.weightAll ds := by
  induction ds with
  | nil => rfl
  | cons first rest ih =>
    rw [List.map_cons, List.sum_cons, ih, Ast.Declarator.weightAll, Nat.mul_add]

/-- A declaration registers at most four times its weight, also if it is refused. -/
theorem declaration_meets (hr : r.WellTyped c.dialect) (d : Ast.Declaration) :
    Meets c.dialect (r.load + 4 * d.weight) (declaration c d) r fun _ _ => True := by
  cases d with
  | struct s =>
    refine (struct_meets hr s).mono ?_ fun _ _ _ _ => trivial
    simp only [Ast.Declaration.weight]
    omega
  | declare v =>
    refine (meets_forM (2 * ·.weight) (fun r d hr => globalVariable_meets hr v d) v.declarators r
      hr).mono ?_ fun _ _ _ _ => trivial
    rw [sum_weight_declarators]
    simp only [Ast.Declaration.weight, Ast.Variables.weight]
    omega
  | buffer b =>
    refine (meets_forM (fun _ => 1) (fun r m hr => bufferMember_meets hr _ m) b.members r
      hr).mono ?_ fun _ _ _ _ => trivial
    simp only [Ast.Declaration.weight, List.map_const', List.sum_replicate_nat]
    omega
  | function f => exact function_meets hr f

end ModuleM

/-! ## Sources -/

/-- What holds after one declaration holds after all, whichever of them are refused. -/
theorem typeDeclarations_meets (c : Context) (limit : Nat) (declarations : List Ast.Declaration)
    (state : ModuleState) (h : state.registry.WellTyped c.dialect) :
    (typeDeclarations c limit declarations state).2.registry.WellTyped c.dialect
      ∧ (typeDeclarations c limit declarations state).2.registry.load
        ≤ state.registry.load + 4 * Ast.Declaration.weightAll declarations
      ∧ ∀ fault ∈ (typeDeclarations c limit declarations state).1,
        fault.value.kind ≠ .compiler := by
  fun_induction typeDeclarations c limit declarations state with
  | case1 => exact ⟨h, Nat.le_refl _, List.forall_mem_nil _⟩
  | case2 => exact ⟨h, Nat.le_add_right _ _, List.forall_mem_nil _⟩
  | case3 limit first rest state _ state' hrun ih =>
    obtain ⟨hstate, hfirst, -⟩ := (ModuleM.declaration_meets h first).of_ok hrun
    obtain ⟨htyped, hload, hfaults⟩ := ih hstate
    refine ⟨htyped, ?_, hfaults⟩
    simp only [Ast.Declaration.weightAll]
    omega
  | case4 limit first rest state fault state' hrun faults state'' hrest ih =>
    obtain ⟨hstate, hfirst, hkind⟩ := (ModuleM.declaration_meets h first).of_error hrun
    obtain ⟨htyped, hload, hfaults⟩ := ih hstate
    rw [hrest] at htyped hload hfaults
    refine ⟨htyped, ?_, ?_⟩
    · simp only [Ast.Declaration.weightAll] at hload ⊢
      omega
    · intro f hf
      obtain rfl | hf := List.mem_cons.mp hf
      · exact hkind
      · exact hfaults f hf

theorem stageVariables_isValue (d : Dialect) (stage : Stage) :
    ∀ v ∈ stageVariables d stage, v.type.IsValue := by
  cases d with
  | hlsl => exact List.forall_mem_nil _
  | glsl =>
    cases stage with
    | vertex =>
      simp only [stageVariables, List.forall_mem_cons]
      exact ⟨trivial, trivial, trivial, trivial, List.forall_mem_nil _⟩
    | pixel =>
      simp only [stageVariables, List.forall_mem_cons]
      exact ⟨trivial, trivial, trivial, trivial, trivial, List.forall_mem_nil _⟩
    | geometry =>
      simp only [stageVariables, List.forall_mem_cons]
      exact ⟨trivial, trivial, trivial, List.forall_mem_nil _⟩
    | compute =>
      simp only [stageVariables, List.forall_mem_cons]
      exact ⟨trivial, trivial, trivial, trivial, List.forall_mem_nil _⟩

theorem length_stageVariables_le (d : Dialect) (stage : Stage) :
    (stageVariables d stage).length ≤ 5 := by
  cases d <;> cases stage <;> decide

/-- Before the first declaration there are the variables of the stage. -/
theorem Typed.Registry.WellTyped.start (d : Dialect) (stage : Stage) :
    ({ builtins := stageVariables d stage } : Registry).WellTyped d where
  valid := by
    refine ⟨?_, List.forall_mem_nil _, List.forall_mem_nil _, List.forall_mem_nil _⟩
    intro v hv
    rw [Typed.Registry.allGlobals, List.map_nil, List.append_nil] at hv
    exact stageVariables_isValue d stage v hv
  names := List.nodup_nil
  globals := by
    intro i g hg
    rw [List.getElem?_nil] at hg
    cases hg
  functions := List.forall_mem_nil _

theorem ModuleFault.kind_ne_compiler (fault : ModuleFault) : fault.kind ≠ .compiler := by
  cases fault <;> exact nofun

variable {r : Registry}

/-- If nothing is wrong with a source as a whole, every function is defined, and there are no more of
them than numbers. -/
theorem Typed.Registry.defined_of_moduleFaults (h : r.moduleFaults = []) {i : Nat} {f : Function}
    (hf : r.functions[i]? = some f) : f.definition.isSome = true ∧ i < UInt32.size := by
  have hnone := List.map_eq_nil_iff.mp (List.append_eq_nil_iff.mp h).1
  have hundefined := List.filter_eq_nil_iff.mp hnone (f, i) (List.mem_zipIdx_iff_getElem?.mpr hf)
  simp only [Bool.or_eq_true, decide_eq_true_eq, not_or, Nat.not_le] at hundefined
  exact ⟨Option.isSome_iff_ne_none.mpr fun hnone =>
    hundefined.1 (Option.isNone_iff_eq_none.mpr hnone), hundefined.2⟩

theorem Typed.Registry.isSome_of_moduleFaults (h : r.moduleFaults = []) :
    ∀ f ∈ r.functions, f.definition.isSome = true := by
  intro f hf
  obtain ⟨i, hi⟩ := List.getElem?_of_mem hf
  exact (defined_of_moduleFaults h hi).1

/-- What is known of an accepted source of a given weight. -/
structure Typed.Registry.Accepted (d : Dialect) (weight : Nat) (r : Registry) : Prop where
  typed : r.WellTyped d
  load : r.load ≤ 5 + 4 * weight
  faultless : r.moduleFaults = []

theorem Typed.Registry.Accepted.defined {d : Dialect} {weight : Nat} (h : r.Accepted d weight) :
    ∀ f ∈ r.functions, f.definition.isSome = true :=
  isSome_of_moduleFaults h.faultless

/-- An accepted source is well typed and defines all its functions. A refused one has errors, and
they are its own. -/
theorem typeSource_meets (d : Dialect) (config : Config) (stage : Stage)
    (declarations : List Ast.Declaration) :
    match (typeSource d config stage declarations).1 with
    | .ok r => r.Accepted d (Ast.Declaration.weightAll declarations)
    | .error errors => errors ≠ [] ∧ ∀ e ∈ errors, e.cause.kind ≠ .compiler := by
  let context : Context := ⟨d, stage, config.promoteInts⟩
  let start : ModuleState := { registry := { builtins := stageVariables d stage } }
  have hall := typeDeclarations_meets context config.maxErrors declarations start (.start d stage)
  have hnone : config.maxErrors = 0 →
      (typeDeclarations context config.maxErrors declarations start).2 = start := by
    intro hzero
    rw [hzero]
    cases declarations <;> rfl
  have hstart : start.registry.load ≤ 5 := length_stageVariables_le d stage
  simp only [typeSource]
  generalize typeDeclarations context config.maxErrors declarations start = outcome at hall hnone
  obtain ⟨faults, state⟩ := outcome
  obtain ⟨htyped, hload, hfaults⟩ := hall
  simp only [] at htyped hload hfaults hnone ⊢
  cases faults with
  | cons first rest =>
    refine ⟨List.cons_ne_nil _ _, fun e he => ?_⟩
    obtain ⟨fault, hfault, rfl⟩ := List.mem_map.mp he
    exact hfaults fault hfault
  | nil =>
    simp only [List.isEmpty_nil, if_true]
    cases htake : state.registry.moduleFaults.take config.maxErrors with
    | nil =>
      refine ⟨htyped, by omega, ?_⟩
      obtain hzero | hempty := List.take_eq_nil_iff.mp htake
      · rw [hnone hzero]
        rfl
      · exact hempty
    | cons first rest =>
      refine ⟨List.cons_ne_nil _ _, fun e he => ?_⟩
      obtain ⟨fault, -, rfl⟩ := List.mem_map.mp he
      exact fault.value.kind_ne_compiler

end ShaderBytecode
