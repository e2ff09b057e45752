import ShaderBytecode.Proofs.Checking
import ShaderBytecode.Proofs.Weight

/-!
# Typing gives well typed expressions

An expression that is accepted is well typed and not much larger than the one in the source, and one
that is refused has a fault of its own.
-/

namespace ShaderBytecode

open Typed (Argument Expr Place)
open Check

theorem Typed.Registry.getElem?_of_function? {r : Typed.Registry} {name : String} {index : Nat}
    {f : Typed.Function} (h : r.function? name = some (index, f)) :
    r.functions[index]? = some f :=
  (findPlace?_eq_some_iff.mp h).2

namespace Env

variable {c : CodeContext} {env : Env} {span : Span}

/-! ## Variables -/

theorem variableExpr_meets (henv : env.Models c) {name : String} :
    (env.variableExpr name span).Meets fun t => t.WellTyped c ∧ t.nodes = 1 := by
  unfold variableExpr
  split
  · rename_i found hfound
    exact meets_ok ⟨henv.find? hfound, rfl⟩
  · split
    · rename_i index found hfound
      exact meets_ok ⟨henv.global? hfound, rfl⟩
    · exact meets_fail nofun

theorem variablePlace_meets (henv : env.Models c) {name : String} :
    (env.variablePlace name span).Meets fun t => t.WellTyped c ∧ t.nodes = 1 := by
  unfold variablePlace
  split
  · rename_i found hfound
    exact meets_unless nofun fun _ => meets_ok ⟨henv.find? hfound, rfl⟩
  · split
    · rename_i index found hfound
      exact meets_unless nofun fun _ => meets_ok ⟨henv.global? hfound, rfl⟩
    · exact meets_fail nofun

theorem memberExpr_meets (henv : env.Models c) {base : Expr} {member : String}
    (h : base.WellTyped c) :
    (env.memberExpr base member span).Meets fun t =>
      t.WellTyped c ∧ t.nodes = base.nodes + 1 := by
  unfold memberExpr
  split
  · rename_i name htype
    refine (structMember_meets henv).bind fun found hfound => meets_ok ⟨⟨h, ?_⟩, rfl⟩
    rw [htype]
    exact hfound
  · exact env.swizzle_meets.bind fun components hcomponents => meets_ok ⟨⟨h, hcomponents⟩, rfl⟩

theorem memberPlace_meets (henv : env.Models c) {base : Place} {member : String}
    (h : base.WellTyped c) :
    (env.memberPlace base member span).Meets fun t =>
      t.WellTyped c ∧ t.nodes = base.nodes + 1 := by
  unfold memberPlace
  split
  · rename_i name htype
    refine (structMember_meets henv).bind fun found hfound => meets_ok ⟨⟨h, ?_⟩, rfl⟩
    rw [htype]
    exact hfound
  · exact env.swizzle_meets.bind fun components hcomponents => meets_unless nofun fun hrepeats =>
      meets_ok ⟨⟨h, hcomponents, Bool.eq_false_iff.mpr hrepeats⟩, rfl⟩

theorem checkIntrinsic_meets {function : Intrinsic} {count : Nat} :
    (env.checkIntrinsic function count span).Meets fun _ => count = function.arity := by
  unfold checkIntrinsic
  have harity : Meets (if count ≠ function.arity then .fail span (.intrinsicArity function count)
      else .ok ()) fun _ => count = function.arity :=
    meets_unless nofun fun h => meets_ok (Decidable.not_not.mp h)
  split
  · exact meets_unless nofun fun _ => harity
  · exact harity

theorem referenceOf_meets {place : Located Place} {type : DataType} {passing : Passing}
    {position : Nat} {function : String} (hpassing : passing.byReference = true)
    (h : place.value.WellTyped c) :
    (referenceOf place type position function).Meets fun t =>
      t.WellTyped c type passing ∧ t.nodes = place.value.nodes :=
  meets_require nofun fun htype => ⟨⟨hpassing, htype, h⟩, rfl⟩

/-! ## Expressions -/

variable {name : String}

/-- A structure is constructed from values of the types of its members. -/
theorem Models.constructs_struct (henv : env.Models c) {s : Structure}
    (h : env.registry.struct? name = some s) {types : List DataType}
    (htypes : types = s.members.map (·.type)) : c.constructs (.struct name) types = true := by
  have hstruct : c.struct? name = some s := by
    rw [CodeContext.struct?, henv.structures]
    exact h
  cases types with
  | nil => rfl
  | cons first rest =>
    simp only [CodeContext.constructs, hstruct, Option.any_some, decide_eq_true_eq]
    exact htypes.symm

theorem Models.function? (henv : env.Models c) {index : Nat} {f : Typed.Function}
    (h : env.registry.function? name = some (index, f)) :
    c.functions[index]? = some f.signature.callShape := by
  rw [henv.functions, List.getElem?_map, Typed.Registry.getElem?_of_function? h]
  rfl

mutual

/-- An accepted expression is well typed and has at most two nodes for each of the source. -/
theorem expr_meets (henv : env.Models c) : (e : Ast.Expr) →
    (env.expr e).Meets fun t => t.WellTyped c ∧ t.nodes + 1 ≤ 2 * e.weight
  | .int _ _ => meets_ok ⟨trivial, Nat.le_refl _⟩
  | .float _ _ => meets_ok ⟨trivial, Nat.le_refl _⟩
  | .bool _ _ => meets_ok ⟨trivial, Nat.le_refl _⟩
  | .name name span => by
    refine (variableExpr_meets henv).mono fun t ht => ⟨ht.1, ?_⟩
    rw [ht.2]
    exact Nat.le_refl _
  | .member base member span => by
    refine (expr_meets henv base).bind fun t ht =>
      (memberExpr_meets henv ht.1).mono fun t' ht' => ⟨ht'.1, ?_⟩
    rw [ht'.2, Ast.Expr.weight]
    omega
  | .index base index span => by
    refine (expr_meets henv base).bind fun t ht => ?_
    refine (expr_meets henv index).bind fun i hi => ?_
    refine (indexValue_meets hi.1).bind fun i' hi' => ?_
    refine elementType_meets.bind fun type htype => meets_ok ⟨⟨ht.1, hi'.1, hi'.2.1, htype⟩, ?_⟩
    have hnodes : i'.nodes ≤ i.nodes := hi'.2.2
    simp only [Expr.nodes, Ast.Expr.weight]
    omega
  | .unary op operand span => by
    refine (expr_meets henv operand).bind fun t ht =>
      (unary_meets ht.1).mono fun t' ht' => ⟨ht'.1, ?_⟩
    have hnodes := ht'.2
    simp only [Ast.Expr.weight]
    omega
  | .binary op left right span => by
    refine (expr_meets henv left).bind fun l hl => (expr_meets henv right).bind fun r hr =>
      (binary_meets henv hl.1 hr.1).mono fun t ht => ⟨ht.1, ?_⟩
    have hnodes := ht.2
    simp only [Ast.Expr.weight]
    omega
  | .assign op target value span => by
    refine (place_meets henv target).bind fun p hp => ?_
    refine (expr_meets henv value).bind fun v hv => ?_
    refine (assigned_meets henv hv.1).bind fun t ht => meets_ok ⟨⟨hp.1, ht.1, ht.2.1⟩, ?_⟩
    have hnodes : t.nodes ≤ v.nodes + 1 := ht.2.2
    simp only [Expr.nodes, Ast.Expr.weight]
    omega
  | .ternary test whenTrue whenFalse span => by
    refine (expr_meets henv test).bind fun t ht => ?_
    refine (condition_meets ht.1).bind fun t' ht' => ?_
    refine (expr_meets henv whenTrue).bind fun l hl => ?_
    refine (expr_meets henv whenFalse).bind fun r hr =>
      (ternary_meets ht'.1 hl.1 hr.1).mono fun u hu => ⟨hu.1, ?_⟩
    have hnodes := hu.2
    have htest : t'.nodes ≤ t.nodes := ht'.2
    simp only [Ast.Expr.weight]
    omega
  | .step op operand span => by
    refine (place_meets henv operand).bind fun p hp => meets_require nofun fun hnumeric =>
      ⟨⟨hp.1, hnumeric⟩, ?_⟩
    simp only [Expr.nodes, Ast.Expr.weight]
    omega
  | .call callee arguments span => by
    -- A callee is a variable, a type, a structure, a function or an intrinsic, tried in this order.
    rw [expr, Ast.Expr.weight]
    split
    · exact meets_fail nofun
    · split
      · split
        · exact meets_fail nofun
        · rename_i type _ needed hneeded
          refine meets_unless nofun fun hne => (exprs_meets henv arguments).bind fun ts hts => ?_
          have hts' : ts ≠ [] := by
            rintro rfl
            exact hne (List.isEmpty_iff_length_eq_zero.mpr hts.2.1.symm)
          refine (constructor_meets henv hneeded hts' hts.1).mono fun t ht => ⟨ht.1, ?_⟩
          have hnodes := ht.2
          have hnodes' := hts.2.2
          omega
      · split
        · rename_i struct hstruct
          refine meets_unless nofun fun hlength => ?_
          have hlength' : (struct.members.map (·.type)).length = arguments.length := by
            rw [List.length_map]
            exact Decidable.not_not.mp hlength
          refine (fields_meets henv callee 0 _ arguments hlength').bind fun ts hts => ?_
          refine (code_meets henv (henv.code?_struct hstruct)).bind fun code hcode =>
            meets_ok ⟨⟨hts.1, trivial, hcode, henv.constructs_struct hstruct hts.2.1⟩, ?_⟩
          have hnodes := hts.2.2
          simp only [Expr.nodes]
          omega
        · split
          · rename_i index function hfunction
            refine meets_unless nofun fun hlength => (arguments_meets henv callee 0 _ arguments
              (Decidable.not_not.mp hlength)).bind fun ts hts =>
                meets_ok ⟨⟨_, henv.function? hfunction, rfl, hts.1⟩, ?_⟩
            have hnodes := hts.2
            simp only [Expr.nodes]
            omega
          · split
            · rename_i function hfunction
              refine checkIntrinsic_meets.bind fun _ harity => ?_
              refine (exprs_meets henv arguments).bind fun ts hts =>
                (intrinsic_meets henv (hts.2.1.trans harity) hts.1).mono fun t ht => ⟨ht.1, ?_⟩
              have hnodes := ht.2
              have hnodes' := hts.2.2
              omega
            · exact meets_fail nofun

theorem place_meets (henv : env.Models c) : (e : Ast.Expr) →
    (env.place e).Meets fun t => t.WellTyped c ∧ t.nodes + 1 ≤ 2 * e.weight
  | .name name span => by
    refine (variablePlace_meets henv).mono fun t ht => ⟨ht.1, ?_⟩
    rw [ht.2]
    exact Nat.le_refl _
  | .member base member span => by
    refine (place_meets henv base).bind fun t ht =>
      (memberPlace_meets henv ht.1).mono fun t' ht' => ⟨ht'.1, ?_⟩
    rw [ht'.2, Ast.Expr.weight]
    omega
  | .index base index span => by
    refine (place_meets henv base).bind fun t ht => ?_
    refine (expr_meets henv index).bind fun i hi => ?_
    refine (indexValue_meets hi.1).bind fun i' hi' => ?_
    refine elementType_meets.bind fun type htype => meets_ok ⟨⟨ht.1, hi'.1, hi'.2.1, htype⟩, ?_⟩
    have hnodes : i'.nodes ≤ i.nodes := hi'.2.2
    simp only [Place.nodes, Ast.Expr.weight]
    omega
  | .int _ _ => meets_fail nofun
  | .float _ _ => meets_fail nofun
  | .bool _ _ => meets_fail nofun
  | .call _ _ _ => meets_fail nofun
  | .unary _ _ _ => meets_fail nofun
  | .binary _ _ _ _ => meets_fail nofun
  | .assign _ _ _ _ => meets_fail nofun
  | .ternary _ _ _ _ => meets_fail nofun
  | .step _ _ _ => meets_fail nofun

theorem exprs_meets (henv : env.Models c) : (es : List Ast.Expr) →
    (env.exprs es).Meets fun ts => Expr.AllWellTyped c (ts.map (·.value)) ∧ ts.length = es.length
      ∧ Expr.nodesAll (ts.map (·.value)) + es.length ≤ 2 * Ast.Expr.weightAll es
  | [] => meets_ok ⟨trivial, rfl, Nat.le_refl _⟩
  | first :: rest => by
    refine (expr_meets henv first).bind fun t ht => ?_
    refine (exprs_meets henv rest).bind fun ts hts =>
      meets_ok ⟨⟨ht.1, hts.1⟩, congrArg (· + 1) hts.2.1, ?_⟩
    have hnodes := hts.2.2
    simp only [List.map_cons, Expr.nodesAll, List.length_cons, Ast.Expr.weightAll]
    omega

theorem fields_meets (henv : env.Models c) (struct : String) :
    (position : Nat) → (types : List DataType) → (es : List Ast.Expr) → types.length = es.length →
      (env.fields struct position types es).Meets fun ts => Expr.AllWellTyped c ts
        ∧ ts.map Expr.type = types ∧ Expr.nodesAll ts ≤ 2 * Ast.Expr.weightAll es
  | _, [], [], _ => meets_ok ⟨trivial, rfl, Nat.le_refl _⟩
  | position, type :: types, first :: rest, hlength => by
    refine (expr_meets henv first).bind fun t ht => ?_
    refine (coerce_meets ht.1).bind fun t' ht' => ?_
    refine (fields_meets henv struct (position + 1) types rest (Nat.succ.inj hlength)).bind
      fun ts hts => meets_ok ⟨⟨ht'.1, hts.1⟩, ?_, ?_⟩
    · rw [List.map_cons, ht'.2.1, hts.2.1]
    · have hfirst : t'.nodes ≤ t.nodes + 1 := ht'.2.2
      have hnodes := hts.2.2
      simp only [Expr.nodesAll, Ast.Expr.weightAll]
      omega

theorem arguments_meets (henv : env.Models c) (function : String) :
    (position : Nat) → (parameters : List Parameter) → (es : List Ast.Expr) →
      parameters.length = es.length →
        (env.arguments function position parameters es).Meets fun ts =>
          Argument.AllWellTyped c (parameters.map fun p => (p.type, p.passing)) ts
            ∧ Argument.nodesAll ts ≤ 2 * Ast.Expr.weightAll es
  | _, [], [], _ => meets_ok ⟨trivial, Nat.le_refl _⟩
  | position, parameter :: parameters, first :: rest, hlength => by
    have hrest : ∀ t : Argument, t.WellTyped c parameter.type parameter.passing →
        t.nodes ≤ 2 * first.weight →
        Meets (do
          let more ← env.arguments function (position + 1) parameters rest
          return t :: more) fun ts =>
            Argument.AllWellTyped c ((parameter :: parameters).map fun p => (p.type, p.passing)) ts
              ∧ Argument.nodesAll ts ≤ 2 * Ast.Expr.weightAll (first :: rest) := by
      intro t ht hfirst
      refine (arguments_meets henv function (position + 1) parameters rest
        (Nat.succ.inj hlength)).bind fun ts hts => meets_ok ⟨⟨ht, hts.1⟩, ?_⟩
      have hnodes := hts.2
      simp only [Argument.nodesAll, Ast.Expr.weightAll]
      omega
    rw [arguments]
    split
    · rename_i hpassing
      refine (place_meets henv first).bind fun p hp =>
        (referenceOf_meets hpassing hp.1).bind fun t ht => hrest t ht.1 ?_
      have hnodes : t.nodes = p.nodes := ht.2
      omega
    · rename_i hpassing
      refine (expr_meets henv first).bind fun t ht => (coerce_meets ht.1).bind fun t' ht' =>
        hrest (.value t') ⟨Bool.eq_false_iff.mpr hpassing, ht'.2.1, ht'.1⟩ ?_
      have hnodes : t'.nodes ≤ t.nodes + 1 := ht'.2.2
      simp only [Argument.nodes]
      omega

end

theorem conditionExpr_meets (henv : env.Models c) (e : Ast.Expr) :
    (env.conditionExpr e).Meets fun t =>
      (t.WellTyped c ∧ t.type = .bool) ∧ t.nodes + 1 ≤ 2 * e.weight := by
  refine (expr_meets henv e).bind fun t ht =>
    (condition_meets ht.1).mono fun t' ht' => ⟨ht'.1, ?_⟩
  have hnodes : t'.nodes ≤ t.nodes := ht'.2
  omega

theorem exprOf_meets (henv : env.Models c) (e : Ast.Expr) {type : DataType}
    {purpose : Purpose} :
    (env.exprOf e type purpose).Meets fun t =>
      t.WellTyped c ∧ t.type = type ∧ t.nodes ≤ 2 * e.weight := by
  refine (expr_meets henv e).bind fun t ht =>
    (coerce_meets ht.1).mono fun t' ht' => ⟨ht'.1, ht'.2.1, ?_⟩
  have hnodes : t'.nodes ≤ t.nodes + 1 := ht'.2.2
  omega

end Env

end ShaderBytecode
