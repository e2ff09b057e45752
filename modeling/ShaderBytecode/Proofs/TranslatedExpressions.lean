import ShaderBytecode.Proofs.TranslatedOperands
import ShaderBytecode.Proofs.Uses

/-!
# Translated expressions

An expression that is spelled anew is typed as the expression is, up to the new names: its variables,
members and callees mean what they meant.
-/

namespace ShaderBytecode

open Typed (Argument Expr Place)

namespace Translation

/-- A translation knows what becomes of a word in its use. -/
def Admits (T : Translation) : Use → Prop
  | .reads w => T.Reads w
  | .declares w => T.Declares w
  | .labels w => T.Labels w

def AdmitsAll (T : Translation) (uses : List Use) : Prop :=
  ∀ u ∈ uses, T.Admits u

variable {T : Translation} {e : Env}

@[simp]
theorem admitsAll_cons {u : Use} {uses : List Use} :
    T.AdmitsAll (u :: uses) ↔ T.Admits u ∧ T.AdmitsAll uses :=
  List.forall_mem_cons

@[simp]
theorem admitsAll_append {first second : List Use} :
    T.AdmitsAll (first ++ second) ↔ T.AdmitsAll first ∧ T.AdmitsAll second :=
  List.forall_mem_append

/-! ## Variables -/

theorem undeclared_follows {α β : Type} {R : α → β → Prop} (he : T.Fits e) (w : String)
    (span : Span) :
    T.Follows R (e.undeclared w span)
      ((T.env e).undeclared (T.spelling.word w) (T.spelling.span span)) := by
  refine follows_fail rfl fun hexact => ?_
  rw [show (T.env e).registry = T.registry e.registry from rfl,
    he.registry.function? (means_word w), Option.isSome_map, hexact.word]

theorem find?_env (he : T.Fits e) {w w' : String} (hmeans : T.Means w w') :
    (T.env e).scopes.find? w' = (e.scopes.find? w).map T.binding :=
  find?_scopes he.scopes hmeans

theorem variableExpr_follows (he : T.Fits e) {w : String} (hreads : T.Reads w)
    (span : Span) : T.Maps T.expr (e.variableExpr w span)
      ((T.env e).variableExpr (T.spelling.word w) (T.spelling.span span)) := by
  have hglobal := he.registry.global? (means_word w) hreads
  unfold Env.variableExpr
  rw [find?_env he (means_word w)]
  cases e.scopes.find? w with
  | some found => exact follows_ok rfl
  | none =>
    rw [show (T.env e).registry = T.registry e.registry from rfl, hglobal]
    cases e.registry.global? w with
    | some found => exact follows_ok rfl
    | none => exact undeclared_follows he w span

theorem isReadOnly_rename (hsame : T.Same) (v : Variable) :
    (v.rename T.name).isReadOnly T.target = v.isReadOnly T.context := by
  unfold Variable.isReadOnly target
  rw [← show T.context.dialect = T.dialect from hsame]
  rfl

theorem variablePlace_follows (he : T.Fits e) {w : String} (hreads : T.Reads w)
    (span : Span) : T.Maps T.place (e.variablePlace w span)
      ((T.env e).variablePlace (T.spelling.word w) (T.spelling.span span)) := by
  have hglobal := he.registry.global? (means_word w) hreads
  unfold Env.variablePlace
  rw [find?_env he (means_word w)]
  cases e.scopes.find? w with
  | some found =>
    refine follows_unless Iff.rfl rfl ?_ fun _ => follows_ok rfl
    intro hexact
    rw [hexact.word]
  | none =>
    rw [show (T.env e).registry = T.registry e.registry from rfl, hglobal]
    cases hfound : e.registry.global? w with
    | some found =>
      have hsame : T.Same := by
        by_contra hsame
        rw [he.registry.global?_across hsame hreads] at hfound
        cases hfound
      refine follows_unless ?_ rfl ?_ fun _ => follows_ok rfl
      · rw [show (T.env e).context = T.target from rfl, he.context, isReadOnly_rename hsame]
      · intro hexact
        rw [hexact.word, he.context]
        rfl
    | none => exact undeclared_follows he w span

/-! ## Calls -/

theorem checkIntrinsic_follows (he : T.Fits e) (function : Intrinsic) (count : Nat)
    (span : Span) :
    T.Follows (fun _ _ => True) (e.checkIntrinsic function count span)
      ((T.env e).checkIntrinsic function count (T.spelling.span span)) := by
  unfold Env.checkIntrinsic
  rw [he.context, show (T.env e).context.stage = T.context.stage from rfl]
  cases function.requiredStage? with
  | none =>
    exact follows_unless Iff.rfl rfl (fun _ => rfl) fun _ => follows_ok trivial
  | some stage =>
    refine follows_unless Iff.rfl rfl (fun _ => rfl) fun _ => ?_
    exact follows_unless Iff.rfl rfl (fun _ => rfl) fun _ => follows_ok trivial

/-- The intrinsics of only one stage are of one that HLSL does not have. -/
theorem checkIntrinsic_across (he : T.Fits e) (hsame : ¬T.Same) {function : Intrinsic}
    (hstage : function.requiredStage? ≠ none) (count : Nat) (span : Span) :
    ∃ fault, e.checkIntrinsic function count span = .fail span fault := by
  have hgeometry : function.requiredStage? = some .geometry := by
    cases function <;> first | rfl | exact absurd rfl hstage
  unfold Env.checkIntrinsic
  rw [hgeometry, he.context]
  exact ⟨_, if_pos (T.across hsame).2.2.symm⟩

theorem referenceOf_follows {span : Span} (p : Place) (type : DataType) (position : Nat)
    {function function' : String} (hfunction : T.Exact → function' = function) :
    T.Maps (Argument.relabel T.labels) (Env.referenceOf ⟨p, span⟩ type position function)
      (Env.referenceOf ⟨T.place p, T.spelling.span span⟩ (type.rename T.name) position
        function') := by
  unfold Env.referenceOf
  simp only [type_place]
  refine follows_require rename_inj rfl rfl ?_
  intro hexact
  rw [hfunction hexact, hexact.rename, hexact.rename]

theorem callee_declared {n : String} (h : T.Declares n) (k : Nat) :
    T.spelling.callee n k = T.name n :=
  (T.callee_iff h n k).mpr rfl

/-- A call that is spelled anew means what it meant, if its arguments do. -/
theorem call_follows (he : T.Fits e) {callee : String} {arguments : List Ast.Expr} {span : Span}
    (hexprs : T.Maps (List.map T.located) (e.exprs arguments)
      ((T.env e).exprs (Ast.Expr.respellAll T.spelling arguments)))
    (hfields : ∀ {s s'}, (T.Exact → s' = s) → ∀ types,
      T.Maps (Expr.relabelAll T.labels) (e.fields s 0 types arguments)
        ((T.env e).fields s' 0 (types.map (DataType.rename T.name))
          (Ast.Expr.respellAll T.spelling arguments)))
    (harguments : ∀ {f f'}, (T.Exact → f' = f) → ∀ parameters,
      T.Maps (Argument.relabelAll T.labels) (e.arguments f 0 parameters arguments)
        ((T.env e).arguments f' 0 (parameters.map (Parameter.rename T.name))
          (Ast.Expr.respellAll T.spelling arguments))) :
    T.Maps T.expr (e.expr (.call callee arguments span))
      ((T.env e).expr ((Ast.Expr.call callee arguments span).respell T.spelling)) := by
  have hmeans := means_callee (T := T) callee arguments.length
  have hstruct := he.registry.struct? hmeans
  have hfunction := he.registry.function? hmeans
  have hempty : (Ast.Expr.respellAll T.spelling arguments).isEmpty = arguments.isEmpty := by
    cases arguments <;> rfl
  simp only [Ast.Expr.respell]
  rw [Env.expr, Env.expr, find?_env he hmeans, Ast.Expr.length_respellAll, hempty,
    show (T.env e).registry = T.registry e.registry from rfl, hstruct, hfunction, he.context,
    show (T.env e).context.dialect = T.dialect from rfl]
  -- The order of the lookup: variables, types, structures, functions, intrinsics.
  cases e.scopes.find? callee with
  | some found =>
    refine follows_fail rfl fun hexact => ?_
    rw [hexact.callee]
    exact congrArg _ (hexact.rename _)
  | none =>
    simp only [Option.map_none]
    cases htype : T.context.dialect.builtinType? callee with
    | some type =>
      rw [T.callee_type _ htype]
      cases hcount : type.componentCount? with
      | none =>
        simp only [hcount]
        exact follows_fail rfl fun _ => rfl
      | some needed =>
        simp only [hcount]
        refine follows_unless Iff.rfl rfl (fun _ => rfl) fun _ => ?_
        exact hexprs.next fun ts => constructor_follows hcount ts _
    | none =>
      cases hfound : e.registry.struct? callee with
      | some s =>
        have hdeclared := he.registry.declares_of_struct? hfound
        rw [T.callee_typeless _ (.inr hdeclared) htype, callee_declared hdeclared]
        simp only [Option.map_some, Structure.rename, List.length_map, List.map_map]
        refine follows_unless Iff.rfl rfl ?_ fun _ => ?_
        · intro hexact
          rw [hexact.name]
        · have hmembers := hfields (fun hexact => hexact.name callee) (s.members.map (·.type))
          rw [List.map_map] at hmembers
          refine hmembers.next fun ts => ?_
          exact (code_follows (.struct callee)).next fun code => follows_ok rfl
      | none =>
        cases hcalled : e.registry.function? callee with
        | some found =>
          have hdeclared := he.registry.declares_of_function? hcalled
          rw [T.callee_typeless _ (.inr hdeclared) htype]
          simp only [Option.map_none, Option.map_some, Typed.Function.relabel, Function.rename,
            List.length_map]
          refine follows_unless Iff.rfl rfl ?_ fun _ => ?_
          · intro hexact
            rw [hexact.callee]
          · refine (harguments (fun hexact => hexact.callee _ _)
              found.2.signature.parameters).next fun ts => ?_
            exact follows_ok rfl
        | none =>
          simp only [Option.map_none]
          cases hlookup : Intrinsic.lookup? T.context.dialect callee arguments.length with
          | none =>
            by_cases hsame : T.Same
            · rw [T.callee_typeless _ (.inl hsame) htype, T.notIntrinsic hsame hlookup]
              exact follows_fail rfl fun hexact => by rw [hexact.callee]
            · exact follows_of_across hsame
          | some function =>
            -- Across dialects the stage is never the one that an intrinsic needs.
            by_cases hknown : T.Same ∨ function.requiredStage? = none
            · obtain ⟨hlookup', htype'⟩ := T.intrinsic htype hlookup hknown
              rw [htype', hlookup']
              refine (checkIntrinsic_follows he function _ _).bind fun _ _ _ => ?_
              exact hexprs.next fun ts => intrinsic_follows he.context function ts _
            · obtain ⟨hsame, hstage⟩ := not_or.mp hknown
              obtain ⟨fault, hfault⟩ :=
                checkIntrinsic_across he hsame hstage arguments.length span
              simp only [hfault]
              exact follows_of_across hsame

mutual

theorem expr_follows (he : T.Fits e) : (a : Ast.Expr) → T.AdmitsAll a.uses →
    T.Maps T.expr (e.expr a) ((T.env e).expr (a.respell T.spelling))
  | .int _ _, _ | .float _ _, _ | .bool _ _, _ => follows_ok rfl
  | .name w span, h => variableExpr_follows he (admitsAll_cons.mp h).1 _
  | .member base w span, h => by
    obtain ⟨hlabel, hbase⟩ := admitsAll_cons.mp h
    simp only [Ast.Expr.respell, Env.expr]
    refine (expr_follows he base hbase).next fun t => ?_
    rw [T.word_label hlabel]
    exact memberExpr_follows he.context hlabel t _
  | .index base index span, h => by
    obtain ⟨hbase, hindex⟩ := admitsAll_append.mp h
    simp only [Ast.Expr.respell, Env.expr, Ast.Expr.span_respell]
    refine (expr_follows he base hbase).next fun t => ?_
    refine (expr_follows he index hindex).next fun i => ?_
    rw [type_expr]
    refine (indexValue_follows i t.type).next fun i => ?_
    exact (elementType_follows t.type _).next fun type => follows_ok rfl
  | .unary op operand span, h => by
    simp only [Ast.Expr.respell, Env.expr]
    exact (expr_follows he operand h).next fun t => unary_follows op t _
  | .binary op left right span, h => by
    obtain ⟨hleft, hright⟩ := admitsAll_append.mp h
    simp only [Ast.Expr.respell, Env.expr]
    refine (expr_follows he left hleft).next fun l => ?_
    exact (expr_follows he right hright).next fun r => binary_follows he.context op l r _
  | .assign op target value span, h => by
    obtain ⟨htarget, hvalue⟩ := admitsAll_append.mp h
    simp only [Ast.Expr.respell, Env.expr, Ast.Expr.span_respell]
    refine (place_follows he target htarget).next fun p => ?_
    refine (expr_follows he value hvalue).next fun t => ?_
    rw [type_place]
    exact (assigned_follows he.context op p.type t _).next fun t => follows_ok rfl
  | .ternary test whenTrue whenFalse span, h => by
    obtain ⟨hboth, hfalse⟩ := admitsAll_append.mp h
    obtain ⟨htest, htrue⟩ := admitsAll_append.mp hboth
    simp only [Ast.Expr.respell, Env.expr, Ast.Expr.span_respell]
    refine (expr_follows he test htest).next fun t => ?_
    refine (condition_follows t).next fun t => ?_
    refine (expr_follows he whenTrue htrue).next fun l => ?_
    exact (expr_follows he whenFalse hfalse).next fun r => ternary_follows he.context t l r _
  | .step op operand span, h => by
    simp only [Ast.Expr.respell, Env.expr]
    refine (place_follows he operand h).next fun p => ?_
    rw [type_place, DataType.isNumeric_rename]
    refine follows_require Iff.rfl rfl rfl ?_
    intro hexact
    rw [hexact.rename]
  | .call callee arguments span, h => by
    exact call_follows he (exprs_follows he arguments h)
      (fun hs types => fields_follows he hs 0 types arguments h)
      fun hf parameters => arguments_follows he hf 0 parameters arguments h

theorem place_follows (he : T.Fits e) : (a : Ast.Expr) → T.AdmitsAll a.uses →
    T.Maps T.place (e.place a) ((T.env e).place (a.respell T.spelling))
  | .name w span, h => variablePlace_follows he (admitsAll_cons.mp h).1 _
  | .member base w span, h => by
    obtain ⟨hlabel, hbase⟩ := admitsAll_cons.mp h
    simp only [Ast.Expr.respell, Env.place]
    refine (place_follows he base hbase).next fun p => ?_
    rw [T.word_label hlabel]
    exact memberPlace_follows he.context hlabel p _
  | .index base index span, h => by
    obtain ⟨hbase, hindex⟩ := admitsAll_append.mp h
    simp only [Ast.Expr.respell, Env.place, Ast.Expr.span_respell]
    refine (place_follows he base hbase).next fun p => ?_
    refine (expr_follows he index hindex).next fun i => ?_
    rw [type_place]
    refine (indexValue_follows i p.type).next fun i => ?_
    exact (elementType_follows p.type _).next fun type => follows_ok rfl
  | .int _ _, _ | .float _ _, _ | .bool _ _, _ | .call _ _ _, _ | .unary _ _ _, _
  | .binary _ _ _ _, _ | .assign _ _ _ _, _ | .ternary _ _ _ _, _ | .step _ _ _, _ =>
    follows_fail rfl fun _ => rfl

theorem exprs_follows (he : T.Fits e) : (as : List Ast.Expr) → T.AdmitsAll (Ast.Expr.usesAll as) →
    T.Maps (List.map T.located) (e.exprs as) ((T.env e).exprs (Ast.Expr.respellAll T.spelling as))
  | [], _ => follows_ok rfl
  | first :: rest, h => by
    obtain ⟨hfirst, hrest⟩ := admitsAll_append.mp h
    simp only [Ast.Expr.respellAll, Env.exprs, Ast.Expr.span_respell]
    refine (expr_follows he first hfirst).next fun t => ?_
    exact (exprs_follows he rest hrest).next fun ts => follows_ok rfl

theorem fields_follows (he : T.Fits e) {s s' : String} (hs : T.Exact → s' = s) :
    (position : Nat) → (types : List DataType) → (as : List Ast.Expr) →
      T.AdmitsAll (Ast.Expr.usesAll as) →
      T.Maps (Expr.relabelAll T.labels) (e.fields s position types as)
        ((T.env e).fields s' position (types.map (DataType.rename T.name))
          (Ast.Expr.respellAll T.spelling as))
  | position, type :: types, first :: rest, h => by
    obtain ⟨hfirst, hrest⟩ := admitsAll_append.mp h
    simp only [Ast.Expr.respellAll, List.map_cons, Env.fields, Ast.Expr.span_respell]
    refine (expr_follows he first hfirst).next fun t => ?_
    refine (coerce_follows he.context t type fun hexact => by rw [hs hexact]).next fun t => ?_
    exact (fields_follows he hs (position + 1) types rest hrest).next fun ts => follows_ok rfl
  | _, [], as, _ => by
    rw [List.map_nil]
    unfold Env.fields
    exact follows_ok rfl
  | _, _ :: _, [], _ => follows_ok rfl

theorem arguments_follows (he : T.Fits e) {f f' : String} (hf : T.Exact → f' = f) :
    (position : Nat) → (parameters : List Parameter) → (as : List Ast.Expr) →
      T.AdmitsAll (Ast.Expr.usesAll as) →
      T.Maps (Argument.relabelAll T.labels) (e.arguments f position parameters as)
        ((T.env e).arguments f' position (parameters.map (Parameter.rename T.name))
          (Ast.Expr.respellAll T.spelling as))
  | position, parameter :: parameters, first :: rest, h => by
    obtain ⟨hfirst, hrest⟩ := admitsAll_append.mp h
    have hmore : ∀ t t' : Argument, t' = t.relabel T.labels →
        T.Maps (Argument.relabelAll T.labels)
          (do
            let more ← e.arguments f (position + 1) parameters rest
            return t :: more)
          (do
            let more ← (T.env e).arguments f' (position + 1)
              (parameters.map (Parameter.rename T.name)) (Ast.Expr.respellAll T.spelling rest)
            return t' :: more) := by
      rintro t _ rfl
      exact (arguments_follows he hf (position + 1) parameters rest hrest).next fun ts =>
        follows_ok rfl
    simp only [Ast.Expr.respellAll, List.map_cons, Env.arguments, Ast.Expr.span_respell]
    refine follows_ite Iff.rfl (fun _ => ?_) fun _ => ?_
    · exact (place_follows he first hfirst).next fun p =>
        (referenceOf_follows p parameter.type position hf).bind hmore
    · refine (expr_follows he first hfirst).next fun t => ?_
      exact (coerce_follows he.context t parameter.type fun hexact => by rw [hf hexact]).next fun t =>
        hmore (.value t) _ rfl
  | _, [], as, _ => by
    rw [List.map_nil]
    unfold Env.arguments
    exact follows_ok rfl
  | _, _ :: _, [], _ => follows_ok rfl

end

theorem conditionExpr_follows (he : T.Fits e) {a : Ast.Expr} (h : T.AdmitsAll a.uses) :
    T.Maps T.expr (e.conditionExpr a) ((T.env e).conditionExpr (a.respell T.spelling)) := by
  refine (expr_follows he a h).next fun t => ?_
  rw [Ast.Expr.span_respell]
  exact condition_follows t

theorem exprOf_follows (he : T.Fits e) {a : Ast.Expr} (h : T.AdmitsAll a.uses) (type : DataType)
    (purpose : Purpose) : T.Maps T.expr (e.exprOf a type purpose)
      ((T.env e).exprOf (a.respell T.spelling) (type.rename T.name) purpose) := by
  refine (expr_follows he a h).next fun t => ?_
  rw [Ast.Expr.span_respell]
  exact coerce_follows he.context t type fun _ => rfl

end Translation

end ShaderBytecode
