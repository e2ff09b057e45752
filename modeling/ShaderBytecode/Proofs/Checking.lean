import ShaderBytecode.Diagnostic.Typing
import ShaderBytecode.Proofs.CodeSize

/-!
# What checks give

A check meets a specification if what it gives has a property and what it refuses is a fault of the
source, never one of the compiler itself. Each rule of typing has one lemma of this kind, in an
environment that agrees with a code context.
-/

namespace ShaderBytecode

open Typed (Expr)

namespace Check

variable {α β : Type}

/-- A check gives something with a property, or finds a fault of the source. -/
def Meets (r : Check α) (P : α → Prop) : Prop :=
  match r with
  | .ok a => P a
  | .error fault => fault.value.kind ≠ .compiler

variable {P : α → Prop}

theorem meets_ok {a : α} (h : P a) : Meets (.ok a) P :=
  h

theorem meets_fail {span : Span} {fault : TypingFault} (h : fault.kind ≠ .compiler) :
    Meets (.fail span fault) P :=
  h

theorem Meets.mono {Q : α → Prop} {r : Check α} (h : r.Meets P) (hPQ : ∀ a, P a → Q a) :
    r.Meets Q := by
  cases r with
  | ok a => exact hPQ a h
  | error fault => exact h

theorem Meets.bind {Q : β → Prop} {r : Check α} {f : α → Check β} (h : r.Meets P)
    (h' : ∀ a, P a → (f a).Meets Q) : Meets (r >>= f) Q := by
  cases r with
  | ok a => exact h' a h
  | error fault => exact h

section Cases

variable {condition : Prop} [Decidable condition] {span : Span} {fault : TypingFault}
  {r r' : Check α}

theorem meets_ite (h : condition → r.Meets P) (h' : ¬condition → r'.Meets P) :
    Meets (if condition then r else r') P := by
  split
  · rename_i hcondition
    exact h hcondition
  · rename_i hcondition
    exact h' hcondition

/-- What is given under a condition only. -/
theorem meets_require {a : α} (hfault : fault.kind ≠ .compiler) (h : condition → P a) :
    Meets (if condition then .ok a else .fail span fault) P :=
  meets_ite h fun _ => hfault

/-- What is given unless a condition holds. -/
theorem meets_unless (hfault : fault.kind ≠ .compiler) (h : ¬condition → r.Meets P) :
    Meets (if condition then .fail span fault else r) P :=
  meets_ite (fun _ => hfault) h

theorem meets_guard {f : β → Check α} (hfault : fault.kind ≠ .compiler)
    (h : ¬condition → r.Meets P) :
    Meets (if condition then Check.fail span fault >>= f else r) P :=
  meets_ite (fun _ => hfault) h

end Cases

end Check

open Check

def Typed.Registry.codeContext (r : Typed.Registry) (d : Dialect) (locals : List DataType)
    (result : DataType) : CodeContext where
  dialect := d
  structures := r.structures
  globals := r.allGlobals.map (·.type)
  functions := r.functions.map (·.signature.callShape)
  locals := locals
  result := result

/-- A code context has what the names of an environment mean: the registries, and the local in sight
under each name at its slot. -/
structure Env.Models (env : Env) (c : CodeContext) : Prop where
  dialect : c.dialect = env.context.dialect
  structures : c.structures = env.registry.structures
  globals : c.globals = env.registry.allGlobals.map (·.type)
  functions : c.functions = env.registry.functions.map (·.signature.callShape)
  scopes : ∀ scope ∈ env.scopes, ∀ b ∈ scope, c.locals[b.slot]? = some b.type
  valid : c.Valid

/-! ## Conversions -/

section Conversions

variable {c : CodeContext} {env : Env}

theorem Typed.Expr.WellTyped.toFloat {e : Expr} (h : e.WellTyped c)
    (hint : e.type.isIntBased = true) : e.toFloat.WellTyped c := by
  refine ⟨⟨h, trivial⟩, ?_⟩
  cases htype : e.type with
  | scalar kind =>
    rw [htype] at hint
    cases kind <;> simp_all [DataType.isIntBased, DataType.toFloatBased, DataType.IsValue,
      DataType.float, DataType.floatCode, CodeContext.code?, DataType.code?, CodeContext.constructs,
      DataType.componentCount?, builtFrom]
  | vector kind size =>
    rw [htype] at hint
    cases kind <;> simp_all [DataType.isIntBased, DataType.toFloatBased, DataType.IsValue,
      DataType.floatCode, CodeContext.code?, DataType.code?, CodeContext.constructs,
      DataType.componentCount?, builtFrom]
  | _ =>
    rw [htype] at hint
    cases hint

theorem Env.coerce_meets {e : Located Expr} {target : DataType} {purpose : Purpose}
    (h : e.value.WellTyped c) : (env.coerce e target purpose).Meets fun t =>
      t.WellTyped c ∧ t.type = target ∧ t.nodes ≤ e.value.nodes + 1 := by
  refine meets_ite (fun hsame => meets_ok ⟨h, hsame, Nat.le_succ _⟩) fun hsame =>
    meets_require nofun fun hconverts => ?_
  simp only [DataType.convertsTo, Bool.or_eq_true, decide_eq_true_eq,
    Bool.and_eq_true] at hconverts
  obtain heq | ⟨⟨-, hint⟩, htarget⟩ := hconverts
  · exact absurd heq hsame
  · exact ⟨h.toFloat hint, htarget, Nat.le_refl _⟩

theorem Env.promoteOperands_spec (env : Env) {left right : Expr} (hleft : left.WellTyped c)
    (hright : right.WellTyped c) :
    (env.promoteOperands left right).1.WellTyped c
      ∧ (env.promoteOperands left right).2.WellTyped c
      ∧ (env.promoteOperands left right).1.nodes + (env.promoteOperands left right).2.nodes ≤
        left.nodes + right.nodes + 1
      ∧ (env.promoteOperands left right).1.nodes ≤ left.nodes + 1
      ∧ (env.promoteOperands left right).2.nodes ≤ right.nodes + 1 := by
  unfold Env.promoteOperands
  split
  · exact ⟨hleft, hright, Nat.le_succ _, Nat.le_succ _, Nat.le_succ _⟩
  · split
    · rename_i hint
      rw [Bool.and_eq_true] at hint
      exact ⟨hleft.toFloat hint.1, hright, Nat.le_of_eq (Nat.add_right_comm ..), Nat.le_refl _,
        Nat.le_succ _⟩
    · split
      · rename_i hint
        rw [Bool.and_eq_true] at hint
        exact ⟨hleft, hright.toFloat hint.1, Nat.le_refl _, Nat.le_succ _, Nat.le_refl _⟩
      · exact ⟨hleft, hright, Nat.le_succ _, Nat.le_succ _, Nat.le_succ _⟩

end Conversions

/-! ## Operators -/

section Operators

variable {c : CodeContext} {env : Env}

theorem DataType.eq_bool_of_isBool {type : DataType} (h : type.isBool = true) : type = .bool := by
  unfold DataType.isBool at h
  split at h
  · rfl
  · cases h

variable {e : Located Expr} {span : Span}

theorem Env.condition_meets (h : e.value.WellTyped c) :
    (Env.condition e).Meets fun t =>
      (t.WellTyped c ∧ t.type = .bool) ∧ t.nodes ≤ e.value.nodes :=
  meets_require nofun fun hbool => ⟨⟨h, DataType.eq_bool_of_isBool hbool⟩, Nat.le_refl _⟩

theorem Env.binary_meets (henv : env.Models c) {op : BinaryOp} {left right : Expr}
    (hleft : left.WellTyped c) (hright : right.WellTyped c) :
    (env.binary op left right span).Meets fun t =>
      t.WellTyped c ∧ t.nodes ≤ left.nodes + right.nodes + 2 := by
  obtain ⟨hleft', hright', hnodes, -⟩ := env.promoteOperands_spec hleft hright
  cases op with
  | logic op =>
    refine meets_require nofun fun hbool => ?_
    rw [Bool.and_eq_true] at hbool
    exact ⟨⟨hleft, hright, DataType.eq_bool_of_isBool hbool.1,
      DataType.eq_bool_of_isBool hbool.2⟩, Nat.le_succ _⟩
  | compare op =>
    exact meets_require nofun fun hcomparable =>
      ⟨⟨hleft', hright', hcomparable⟩, Nat.succ_le_succ hnodes⟩
  | arith op =>
    simp only [Env.binary]
    split
    · rename_i type htype
      rw [← henv.dialect] at htype
      exact meets_ok ⟨⟨hleft', hright', htype⟩, Nat.succ_le_succ hnodes⟩
    · exact meets_fail nofun

theorem Env.unary_meets {op : Ast.UnaryOp} {operand : Expr} (h : operand.WellTyped c) :
    (Env.unary op operand span).Meets fun t => t.WellTyped c ∧ t.nodes ≤ operand.nodes + 1 := by
  cases op with
  | negate =>
    refine meets_ite (fun hnumeric => ?_) fun _ => meets_fail nofun
    split
    · exact meets_ok ⟨trivial, by simp [Expr.nodes]⟩
    · exact meets_ok ⟨trivial, by simp [Expr.nodes]⟩
    · exact meets_ok ⟨⟨h, hnumeric⟩, Nat.le_refl _⟩
  | not =>
    exact meets_require nofun fun hbool => ⟨⟨h, DataType.eq_bool_of_isBool hbool⟩, Nat.le_refl _⟩

theorem Env.ternary_meets {test whenTrue whenFalse : Expr}
    (htest : test.WellTyped c ∧ test.type = .bool) (htrue : whenTrue.WellTyped c)
    (hfalse : whenFalse.WellTyped c) :
    (env.ternary test whenTrue whenFalse span).Meets fun t =>
      t.WellTyped c ∧ t.nodes ≤ test.nodes + whenTrue.nodes + whenFalse.nodes + 2 := by
  obtain ⟨htrue', hfalse', hnodes, -⟩ := env.promoteOperands_spec htrue hfalse
  simp only [Env.ternary]
  refine meets_require nofun fun hsame => ⟨⟨htest.1, htrue', hfalse', htest.2, hsame⟩, ?_⟩
  simp only [Expr.nodes]
  omega

theorem Env.assigned_meets (henv : env.Models c) {op : Option ArithOp} {target : DataType}
    (h : e.value.WellTyped c) :
    (env.assigned op target e span).Meets fun t =>
      t.WellTyped c ∧ assigns c.dialect op target t.type ∧ t.nodes ≤ e.value.nodes + 1 := by
  cases op with
  | none => exact Env.coerce_meets h
  | some op =>
    simp only [Env.assigned]
    split
    · rename_i hint
      simp only [Bool.and_eq_true] at hint
      exact meets_require nofun fun htype =>
        ⟨h.toFloat hint.1.2, henv.dialect ▸ htype, Nat.le_refl _⟩
    · exact meets_require nofun fun htype => ⟨h, henv.dialect ▸ htype, Nat.le_succ _⟩

theorem Env.indexValue_meets {base : DataType} (h : e.value.WellTyped c) :
    (Env.indexValue e base).Meets fun t =>
      t.WellTyped c ∧ t.type = .int ∧ t.nodes ≤ e.value.nodes := by
  refine meets_unless nofun fun hint => ?_
  have hsame : Meets (.ok e.value) fun t : Expr =>
      t.WellTyped c ∧ t.type = .int ∧ t.nodes ≤ e.value.nodes :=
    meets_ok ⟨h, Decidable.not_not.mp hint, Nat.le_refl _⟩
  split
  · exact meets_unless nofun fun _ => hsame
  · exact hsame

theorem Env.elementType_meets {base : DataType} :
    (Env.elementType base span).Meets fun type => elementType? base = some type := by
  unfold Env.elementType
  split
  · rename_i type htype
    exact meets_ok htype
  · exact meets_fail nofun

end Operators

/-! ## Members and variables -/

section Members

variable {c : CodeContext} {env : Env}

theorem swizzleComponent?_le {d : Dialect} {letter : Char} {component : UInt8} {set : SwizzleSet}
    (h : d.swizzleComponent? letter = some (component, set)) : component ≤ 3 := by
  unfold Dialect.swizzleComponent? at h
  split at h <;> grind

theorem Env.swizzleLetters_meets {base : DataType} {text : String} {size : UInt8} {span : Span}
    {set : Option SwizzleSet} {letters : List Char} :
    (env.swizzleLetters base text size span set letters).Meets fun components =>
      components.length = letters.length ∧ ∀ k ∈ components, k < size ∧ k ≤ 3 := by
  induction letters generalizing set with
  | nil => exact meets_ok ⟨rfl, nofun⟩
  | cons letter rest ih =>
    unfold Env.swizzleLetters
    split
    · exact meets_fail nofun
    · rename_i component letterSet hletter
      refine meets_unless nofun fun _ => meets_unless nofun fun hrange =>
        ih.bind fun more hmore => meets_ok ⟨congrArg (· + 1) hmore.1, ?_⟩
      exact List.forall_mem_cons.mpr
        ⟨⟨UInt8.not_le.mp hrange, swizzleComponent?_le hletter⟩, hmore.2⟩

theorem Env.swizzle_meets {base : DataType} {text : String} {span : Span} :
    (env.swizzle base text span).Meets fun components =>
      swizzled? base components = some (Env.swizzleType base components) := by
  unfold Env.swizzle
  split
  · exact meets_fail nofun
  · rename_i size hsize
    refine meets_unless nofun fun hlength => ?_
    simp only [Bool.or_eq_true, decide_eq_true_eq, not_or, Nat.not_lt] at hlength
    have hpos : 0 < text.toList.length := by
      rw [String.isEmpty_iff] at hlength
      exact List.length_pos_iff.mpr fun hnil => hlength.1 (String.toList_eq_nil_iff.mp hnil)
    have hle : text.toList.length ≤ 4 := by
      rw [String.length_toList]
      exact hlength.2
    refine env.swizzleLetters_meets.mono fun components hcomponents => ?_
    rw [← hcomponents.1] at hpos hle
    simp only [swizzled?, hsize]
    refine if_pos ⟨hpos, hle, List.all_eq_true.mpr fun k hk => ?_⟩
    rw [Bool.and_eq_true, decide_eq_true_eq, decide_eq_true_eq]
    exact hcomponents.2 k hk

theorem Env.structMember_meets (henv : env.Models c) {struct member : String} {span : Span} :
    (env.structMember struct member span).Meets fun found =>
      c.memberType? (.struct struct) found.1 = some found.2 := by
  unfold Env.structMember
  split
  · rename_i index found hfound
    obtain ⟨s, hs, hmember⟩ := Option.bind_eq_some_iff.mp hfound
    obtain ⟨-, hm⟩ := findPlace?_eq_some_iff.mp hmember
    refine meets_ok ?_
    have hstruct : c.struct? struct = some s := by
      rw [CodeContext.struct?, henv.structures]
      exact hs
    simp only [CodeContext.memberType?, Option.bind_eq_bind, hstruct, Option.bind_some, hm]
    rfl
  · exact meets_fail (by rintro ⟨⟩)

theorem Env.Models.find? (henv : env.Models c) {name : String} {b : Binding}
    (h : env.scopes.find? name = some b) : c.locals[b.slot]? = some b.type := by
  obtain ⟨scope, hscope, hb⟩ := List.exists_of_findSome?_eq_some h
  exact henv.scopes scope hscope b (List.mem_of_find?_eq_some hb)

theorem Env.Models.global? (henv : env.Models c) {name : String} {index : Nat} {v : Variable}
    (h : env.registry.global? name = some (index, v)) : c.globals[index]? = some v.type := by
  rw [henv.globals, List.getElem?_map, (findPlace?_eq_some_iff.mp h).2]
  rfl

end Members

/-! ## Constructors -/

section Constructors

variable {c : CodeContext} {env : Env}

theorem Env.Models.code?_eq (henv : env.Models c) (type : DataType) :
    c.code? type = type.code? env.registry.structIndex? := by
  rw [CodeContext.code?, henv.structures]
  rfl

variable {type : DataType} {needed : Nat} {arguments : List (Located Expr)}

theorem Env.code_meets (henv : env.Models c) (h : (c.code? type).isSome = true) :
    (env.code type).Meets fun code => c.code? type = some code := by
  rw [henv.code?_eq] at h ⊢
  unfold Env.code
  split
  · rename_i code hcode
    exact meets_ok hcode
  · rename_i hnone
    rw [hnone] at h
    cases h

theorem code?_isSome_of_componentCount? {count : Nat} (h : type.componentCount? = some count) :
    (c.code? type).isSome = true := by
  cases type with
  | struct name => cases h
  | array element length => cases h
  | _ => rfl

theorem isValue_of_componentCount? {count : Nat} (h : type.componentCount? = some count) :
    type.IsValue := by
  cases type with
  | void => cases h
  | array element length => cases h
  | _ => trivial

/-- One value fills, converts or resizes; otherwise the components must suffice, and the last value
must be needed. -/
theorem constructs_of_components {types : List DataType} {counts : List Nat}
    (hneeded : type.componentCount? = some needed)
    (hcounts : types.map DataType.componentCount? = counts.map some) (h : (∃ only, types = [only]
        ∧ (only.isScalar || type.isScalar || (type.isMatrix && only.isMatrix)) = true)
      ∨ (types ≠ [] ∧ type.isScalar = false ∧ needed ≤ counts.foldl Nat.add 0
        ∧ counts.dropLast.foldl Nat.add 0 < needed)) : c.constructs type types = true := by
  have hall : (types.all fun t => t.componentCount?.isSome) = true := by
    refine List.all_eq_true.mpr fun t ht => ?_
    have hmem : t.componentCount? ∈ counts.map some := hcounts ▸ List.mem_map_of_mem ht
    obtain ⟨count, -, hcount⟩ := List.mem_map.mp hmem
    rw [← hcount]
    rfl
  have hcomponents : types.filterMap DataType.componentCount? = counts := by
    have hid : (types.map DataType.componentCount?).filterMap id = counts := by
      rw [hcounts, List.filterMap_map]
      exact List.filterMap_some
    rwa [List.filterMap_map] at hid
  have hbuilt : builtFrom type needed types = true := by
    unfold builtFrom
    rw [hall, Bool.true_and, hcomponents]
    obtain ⟨only, rfl, honly⟩ | ⟨-, hscalar, hgiven, hlast⟩ := h
    · simp only [Bool.or_eq_true] at honly ⊢
      obtain (hfill | hconvert) | hresize := honly
      · exact .inl (.inl (.inl (.inr hfill)))
      · exact .inl (.inl (.inr hconvert))
      · exact .inl (.inr hresize)
    · have hsuffice : componentsSuffice needed counts = true := by
        rw [componentsSuffice, Bool.and_eq_true, decide_eq_true_eq, decide_eq_true_eq]
        exact ⟨hgiven, hlast⟩
      split
      · rw [hsuffice, Bool.or_true]
      · rw [hsuffice, hscalar]
        rfl
  have hother : (type.componentCount?.any fun needed => builtFrom type needed types) = true := by
    rw [hneeded]
    exact hbuilt
  cases types with
  | nil =>
    obtain ⟨only, hsplit, -⟩ | ⟨hne, -⟩ := h
    · cases hsplit
    · exact absurd rfl hne
  | cons first rest =>
    cases type with
    | struct name => cases hneeded
    | _ => exact hother

theorem Env.argumentComponents_meets :
    Meets (arguments.mapM (Env.argumentComponents type)) fun counts =>
      (arguments.map fun a => a.value.type).map DataType.componentCount? = counts.map some := by
  induction arguments with
  | nil => exact meets_ok rfl
  | cons first rest ih =>
    rw [List.mapM_cons]
    have hfirst : (Env.argumentComponents type first).Meets fun count =>
        first.value.type.componentCount? = some count := by
      unfold Env.argumentComponents
      split
      · rename_i count hcount
        exact meets_ok hcount
      · exact meets_fail nofun
    refine hfirst.bind fun count hcount => ih.bind fun counts hcounts => meets_ok ?_
    rw [List.map_cons, List.map_cons, List.map_cons, hcounts, hcount]

theorem Env.checkComponents_meets {counts : List Nat} {span : Span}
    (hneeded : type.componentCount? = some needed) (hne : arguments ≠ [])
    (hcounts : (arguments.map fun a => a.value.type).map DataType.componentCount? =
      counts.map some) :
    (Env.checkComponents type needed arguments counts span).Meets fun _ =>
      c.constructs type (arguments.map fun a => a.value.type) = true := by
  refine meets_ite (fun hscalar => meets_require nofun fun hone => ?_) fun hscalar =>
    meets_ite (fun hfills => meets_ok ?_) fun _ => meets_unless nofun fun hgiven =>
      meets_unless nofun fun hlast => meets_ok ?_
  · obtain ⟨only, rfl⟩ := List.length_eq_one_iff.mp hone
    refine constructs_of_components hneeded hcounts (.inl ⟨_, rfl, ?_⟩)
    rw [hscalar, Bool.or_true, Bool.true_or]
  · refine constructs_of_components hneeded hcounts (.inl ?_)
    unfold Env.fills at hfills
    split at hfills
    · rename_i only
      refine ⟨_, rfl, ?_⟩
      rw [Bool.or_right_comm, hfills, Bool.true_or]
    · cases hfills
  · refine constructs_of_components hneeded hcounts (.inr ⟨?_, Bool.eq_false_iff.mpr hscalar,
      Nat.not_lt.mp hgiven, Nat.not_le.mp hlast⟩)
    rwa [ne_eq, List.map_eq_nil_iff]

theorem Env.constructor_meets (henv : env.Models c) {span : Span}
    (hneeded : type.componentCount? = some needed) (hne : arguments ≠ [])
    (h : Expr.AllWellTyped c (arguments.map (·.value))) :
    (env.constructor type needed arguments span).Meets fun t =>
      t.WellTyped c ∧ t.nodes ≤ Expr.nodesAll (arguments.map (·.value)) + 1 := by
  refine Env.argumentComponents_meets.bind fun counts hcounts => ?_
  refine (Env.checkComponents_meets (c := c) hneeded hne hcounts).bind fun _ hconstructs => ?_
  have hcode := Env.code_meets henv (code?_isSome_of_componentCount? hneeded)
  refine hcode.bind fun code hcode =>
    meets_ok ⟨⟨h, isValue_of_componentCount? hneeded, hcode, ?_⟩, Nat.le_refl _⟩
  rw [List.map_map]
  exact hconstructs

end Constructors

/-! ## Intrinsics -/

section Intrinsics

variable {c : CodeContext} {env : Env}

variable {function : Intrinsic}

theorem Env.floatArgument_meets {position : Nat} {e : Located Expr} (h : e.value.WellTyped c) :
    (env.floatArgument function position e).Meets fun t =>
      (t.WellTyped c ∧ t.nodes ≤ e.value.nodes + 1) ∧ t.type.isFloatScalarOrVector = true := by
  simp only [Env.floatArgument]
  split
  · rename_i hint
    rw [Bool.and_eq_true] at hint
    exact meets_require nofun fun hfloat => ⟨⟨h.toFloat hint.2, Nat.le_refl _⟩, hfloat⟩
  · exact meets_require nofun fun hfloat => ⟨⟨h, Nat.le_succ _⟩, hfloat⟩

theorem Env.matchingArgument_meets {position : Nat} {like : DataType} {scalarToo : Bool}
    {e : Located Expr} (h : e.value.WellTyped c) :
    (env.matchingArgument function position like scalarToo e).Meets fun t =>
      (t.WellTyped c ∧ t.nodes ≤ e.value.nodes + 1)
        ∧ (t.type = like ∨ (scalarToo = true ∧ t.type = .float)) := by
  refine (Env.floatArgument_meets h).bind fun v hv => meets_require nofun fun hlike => ?_
  simp only [Bool.or_eq_true, decide_eq_true_eq, Bool.and_eq_true] at hlike
  exact ⟨hv.1, hlike⟩

def Converted (c : CodeContext) : List Expr → List (Located Expr) → Prop
  | [], [] => True
  | t :: found, e :: arguments =>
    (t.WellTyped c ∧ t.nodes ≤ e.value.nodes + 1) ∧ Converted c found arguments
  | _, _ => False

theorem Converted.spec : {found : List Expr} → {arguments : List (Located Expr)} →
    Converted c found arguments → Expr.AllWellTyped c found
      ∧ Expr.nodesAll found ≤ Expr.nodesAll (arguments.map (·.value)) + arguments.length
  | [], [], _ => ⟨trivial, Nat.le_refl 0⟩
  | t :: found, e :: arguments, h => by
    obtain ⟨hfound, hnodes⟩ := Converted.spec h.2
    refine ⟨⟨h.1.1, hfound⟩, ?_⟩
    have hfirst := h.1.2
    simp only [List.map_cons, Expr.nodesAll, List.length_cons]
    omega

theorem eq_pair_of_length {α : Type} : {l : List α} → l.length = 2 → ∃ x y, l = [x, y]
  | [x, y], _ => ⟨x, y, rfl⟩

theorem eq_triple_of_length {α : Type} : {l : List α} → l.length = 3 → ∃ x y z, l = [x, y, z]
  | [x, y, z], _ => ⟨x, y, z, rfl⟩

/-- The converted arguments of an intrinsic are those its shape takes. -/
theorem Env.intrinsicOperands_meets (henv : env.Models c) {arguments : List (Located Expr)}
    {span : Span} (hlength : arguments.length = function.arity)
    (h : Expr.AllWellTyped c (arguments.map (·.value))) :
    (env.intrinsicOperands function arguments span).Meets fun found =>
      Converted c found.1 arguments
        ∧ function.shape.result? c.dialect (found.1.map Expr.type) = some found.2 := by
  have hfloat : ∀ {position : Nat} {e : Located Expr}, e.value.WellTyped c →
      (env.floatArgument function position e).Meets _ := Env.floatArgument_meets
  have hlike : ∀ {position : Nat} {like : DataType} {scalarToo : Bool} {e : Located Expr},
      e.value.WellTyped c → (env.matchingArgument function position like scalarToo e).Meets _ :=
    Env.matchingArgument_meets
  rw [Intrinsic.arity] at hlength
  unfold Env.intrinsicOperands
  cases hshape : function.shape with
  | void =>
    rw [hshape] at hlength
    cases List.length_eq_zero_iff.mp hlength
    exact meets_ok ⟨trivial, rfl⟩
  | unary | length =>
    rw [hshape] at hlength
    obtain ⟨a, rfl⟩ := List.length_eq_one_iff.mp hlength
    exact (hfloat h.1).bind fun x hx => meets_ok ⟨⟨hx.1, trivial⟩, if_pos hx.2⟩
  | binary | binaryScalarRight | dot =>
    rw [hshape] at hlength
    obtain ⟨a, b, rfl⟩ := eq_pair_of_length hlength
    refine (hfloat h.1).bind fun x hx => (hlike h.2.1).bind fun y hy =>
      meets_ok ⟨⟨hx.1, hy.1, trivial⟩, if_pos ?_⟩
    simp_all
  | cross =>
    rw [hshape] at hlength
    obtain ⟨a, b, rfl⟩ := eq_pair_of_length hlength
    refine (hfloat h.1).bind fun x hx => (hlike h.2.1).bind fun y hy =>
      meets_require nofun fun hsize => ⟨⟨hx.1, hy.1, trivial⟩, if_pos ?_⟩
    simp_all
  | clamp | mix | refract =>
    rw [hshape] at hlength
    obtain ⟨a, b, d, rfl⟩ := eq_triple_of_length hlength
    refine (hfloat h.1).bind fun x hx => (hlike h.2.1).bind fun y hy =>
      (hlike h.2.2.1).bind fun z hz => meets_ok ⟨⟨hx.1, hy.1, hz.1, trivial⟩, if_pos ?_⟩
    simp_all
  | step =>
    rw [hshape] at hlength
    -- The edge is matched against the last argument, which is checked first.
    obtain ⟨edge, a, rfl⟩ := eq_pair_of_length hlength
    refine (hfloat h.2.1).bind fun x hx => (hlike h.1).bind fun y hy =>
      meets_ok ⟨⟨hy.1, hx.1, trivial⟩, if_pos ?_⟩
    simp_all
  | smoothstep =>
    rw [hshape] at hlength
    obtain ⟨low, high, a, rfl⟩ := eq_triple_of_length hlength
    refine (hfloat h.2.2.1).bind fun x hx => (hlike h.1).bind fun y hy =>
      (hlike h.2.1).bind fun z hz => meets_ok ⟨⟨hy.1, hz.1, hx.1, trivial⟩, if_pos ?_⟩
    simp_all
  | texture =>
    rw [hshape] at hlength
    obtain ⟨sampler, coordinates, rfl⟩ := eq_pair_of_length hlength
    refine meets_guard nofun fun hsampler => (Env.coerce_meets h.2.1).bind fun y hy =>
      meets_ok ⟨⟨⟨h.1, Nat.le_succ _⟩, ⟨hy.1, hy.2.2⟩, trivial⟩, if_pos ?_⟩
    simp_all
  | matrixMultiply =>
    rw [hshape] at hlength
    obtain ⟨a, b, rfl⟩ := eq_pair_of_length hlength
    obtain ⟨hleft, hright, -, hnodes⟩ := env.promoteOperands_spec h.1 h.2.1
    simp only []
    split
    · rename_i type htype
      rw [← henv.dialect] at htype
      exact meets_ok ⟨⟨⟨hleft, hnodes.1⟩, ⟨hright, hnodes.2⟩, trivial⟩, htype⟩
    · exact meets_fail nofun

theorem Env.intrinsic_meets (henv : env.Models c) {arguments : List (Located Expr)} {span : Span}
    (hlength : arguments.length = function.arity)
    (h : Expr.AllWellTyped c (arguments.map (·.value))) :
    (env.intrinsic function arguments span).Meets fun t => t.WellTyped c
      ∧ t.nodes ≤ Expr.nodesAll (arguments.map (·.value)) + arguments.length + 1 := by
  refine (Env.intrinsicOperands_meets henv hlength h).bind fun found hfound => ?_
  obtain ⟨hwell, hnodes⟩ := hfound.1.spec
  exact meets_ok ⟨⟨hwell, hfound.2⟩, Nat.succ_le_succ hnodes⟩

end Intrinsics

/-! ## Types -/

section Types

variable {c : CodeContext} {env : Env}

def DataType.IsBasic : DataType → Prop
  | .struct _ | .array _ _ => False
  | _ => True

variable {type : DataType} {name : Located String} {length : Option UInt32}

theorem isBasic_glslType? {word : List Char} (h : Dialect.glslType? word = some type) :
    type.IsBasic := by
  unfold Dialect.glslType? at h
  repeat' split at h
  all_goals simp only [Option.map_eq_some_iff, reduceCtorEq] at h
  all_goals
    obtain ⟨size, -, rfl⟩ := h
    trivial

theorem isBasic_hlslType? {word : List Char} (h : Dialect.hlslType? word = some type) :
    type.IsBasic := by
  unfold Dialect.hlslType? at h
  simp only [] at h
  split at h
  · cases h
    trivial
  · repeat' split at h
    all_goals simp only [Option.map_eq_some_iff, reduceCtorEq] at h
    all_goals
      obtain ⟨size, -, rfl⟩ := h
      trivial

theorem isBasic_builtinType? {d : Dialect} {word : String} (h : d.builtinType? word = some type) :
    type.IsBasic := by
  unfold Dialect.builtinType? at h
  split at h
  case h_6 =>
    cases d with
    | glsl => exact isBasic_glslType? h
    | hlsl => exact isBasic_hlslType? h
  all_goals
    cases h
    trivial

theorem DataType.IsBasic.code? (h : type.IsBasic) : (c.code? type).isSome = true := by
  cases type with
  | struct name => exact h.elim
  | array element length => exact h.elim
  | _ => rfl

theorem DataType.IsBasic.isElement (h : type.IsBasic) (hvoid : type.isVoid = false) :
    type.IsElement := by
  cases type with
  | struct name => exact h.elim
  | array element length => exact h.elim
  | void => cases hvoid
  | _ => trivial

theorem Env.Models.code?_struct (henv : env.Models c) {name : String} {s : Structure}
    (h : env.registry.struct? name = some s) : (c.code? (.struct name)).isSome = true := by
  have hfind : (env.registry.structures.findIdx? (·.name = name)).isSome = true := by
    rw [List.findIdx?_isSome]
    have hname := List.find?_some (p := fun s : Structure => decide (s.name = name)) h
    exact List.any_eq_true.mpr ⟨s, List.mem_of_find?_eq_some h, hname⟩
  simp only [CodeContext.code?, DataType.code?, henv.structures, Option.isSome_map, hfind]

theorem Env.namedType_meets (henv : env.Models c) :
    (env.namedType name).Meets fun type =>
      (type.isVoid = false → type.IsElement) ∧ (c.code? type).isSome = true := by
  unfold Env.namedType
  split
  · rename_i type htype
    have hbasic := isBasic_builtinType? htype
    exact meets_ok ⟨hbasic.isElement, hbasic.code?⟩
  · refine meets_require nofun fun hstruct => ?_
    obtain ⟨s, hs⟩ := Option.isSome_iff_exists.mp hstruct
    exact ⟨fun _ => trivial, henv.code?_struct hs⟩

theorem Env.arrayOf_meets {element : DataType} {span : Span}
    (helement : element.isVoid = false → element.IsElement)
    (hcode : (c.code? element).isSome = true) :
    (Env.arrayOf element length span).Meets fun type =>
      (type.isVoid = false → type.IsValue) ∧ (c.code? type).isSome = true := by
  cases length with
  | none => exact meets_ok ⟨fun hvoid => (helement hvoid).isValue, hcode⟩
  | some length =>
    refine meets_unless nofun fun hvoid =>
      meets_ok ⟨fun _ => helement (Bool.eq_false_iff.mpr hvoid), ?_⟩
    simp only [CodeContext.code?, DataType.code?, Option.isSome_map] at hcode ⊢
    exact hcode

/-- A type of the source is one of values or `void`, and it has a code. -/
theorem Env.resolveType_meets (henv : env.Models c) :
    (env.resolveType name length).Meets fun type =>
      (type.isVoid = false → type.IsValue) ∧ (c.code? type).isSome = true :=
  (Env.namedType_meets henv).bind fun _ helement => Env.arrayOf_meets helement.1 helement.2

theorem Env.resolveValueType_meets (henv : env.Models c) {holder : Holder} :
    (env.resolveValueType name length holder).Meets fun type =>
      type.IsValue ∧ (c.code? type).isSome = true :=
  (Env.resolveType_meets henv).bind fun _ htype => meets_unless nofun fun hvoid =>
    meets_ok ⟨htype.1 (Bool.eq_false_iff.mpr hvoid), htype.2⟩

end Types

end ShaderBytecode
