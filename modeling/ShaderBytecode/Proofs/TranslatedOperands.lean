import ShaderBytecode.Proofs.Translation

/-!
# Translated operators and intrinsics

The rules of typing that look at types only follow a translation: no rule tells the new names of
structures from the old ones. Two rules ask for the dialect. HLSL has the remainder wherever GLSL has
it, and it lacks one family of letters for swizzles.
-/

namespace ShaderBytecode

open Typed (Expr Place)

/-! ## Types -/

section Types

variable {name : String → String}

theorem DataType.floatCode_rename (t : DataType) : (t.rename name).floatCode = t.floatCode := by
  cases t <;> rfl

theorem DataType.convertsTo_rename (h : Function.Injective name) (s t : DataType) (promote : Bool) :
    (s.rename name).convertsTo (t.rename name) promote = s.convertsTo t promote := by
  simp only [DataType.convertsTo, DataType.isIntBased_rename, DataType.toFloatBased_rename,
    DataType.rename_inj h]

theorem DataType.rename_eq_int (t : DataType) : t.rename name = .int ↔ t = .int := by
  cases t <;> simp [DataType.rename, DataType.int]

theorem DataType.rename_eq_float (t : DataType) : t.rename name = .float ↔ t = .float := by
  cases t <;> simp [DataType.rename, DataType.float]

theorem DataType.rename_eq_sampler2D (t : DataType) :
    t.rename name = .sampler2D ↔ t = .sampler2D := by
  cases t <;> simp [DataType.rename]

variable {t s u : DataType}

theorem DataType.rename_of_componentCount? {n : Nat} (h : t.componentCount? = some n) :
    t.rename name = t := by
  cases t with
  | struct n => cases h
  | array element length => cases h
  | _ => rfl

theorem DataType.rename_of_isNumeric (h : t.isNumeric = true) : t.rename name = t := by
  cases t with
  | struct n => cases h
  | array element length => cases h
  | _ => rfl

theorem DataType.isMatrix_of_scalarKind? (h : t.scalarKind? = some .int) : t.isMatrix = false := by
  cases t with
  | matrix columns rows => cases h
  | _ => rfl

theorem elementType?_rename (t : DataType) :
    elementType? (t.rename name) = (elementType? t).map (DataType.rename name) := by
  cases t with
  | matrix columns rows => simp [DataType.rename, elementType?]
  | _ => rfl

theorem elementCount?_rename (t : DataType) : elementCount? (t.rename name) = elementCount? t := by
  cases t <;> rfl

theorem comparable_rename (h : Function.Injective name) (op : CompareOp) (s t : DataType) :
    comparable op (s.rename name) (t.rename name) = comparable op s t := by
  have hinj : s.rename name = t.rename name ↔ s = t := DataType.rename_inj h
  unfold comparable
  split
  · cases s <;> simp_all [DataType.rename]
  · cases s with
    | scalar kind => cases kind <;> simp_all [DataType.rename]
    | _ => rfl

theorem arithType?_rename (d : Dialect) (op : ArithOp) (s t : DataType) :
    arithType? d op (s.rename name) (t.rename name)
      = (arithType? d op s t).map (DataType.rename name) := by
  by_cases hnumeric : s.isNumeric = true ∧ t.isNumeric = true
  · rw [DataType.rename_of_isNumeric hnumeric.1, DataType.rename_of_isNumeric hnumeric.2]
    cases htype : arithType? d op s t with
    | none => rfl
    | some u =>
      rw [Option.map_some, DataType.rename_of_isNumeric (isNumeric_of_arithType? htype).2.2]
  · have hrefused : (!s.isNumeric || !t.isNumeric) = true := by
      cases hs : s.isNumeric <;> cases ht : t.isNumeric <;> simp_all
    simp only [arithType?, DataType.isNumeric_rename, hrefused, Bool.true_or, if_true]
    rfl

theorem arithType?_hlsl {op : ArithOp} (h : arithType? .glsl op s t = some u) :
    arithType? .hlsl op s t = some u := by
  unfold arithType? at h ⊢
  split at h
  · cases h
  · rename_i hcombine
    rw [if_neg hcombine]
    cases op with
    | mod =>
      simp only [] at h ⊢
      split at h
      · rename_i hint
        have hremainder : Dialect.hlsl.hasRemainder s t = true := by
          have hs : s.scalarKind? = some .int := of_decide_eq_true hint
          have ht : t.scalarKind? = some .int := by
            rw [← hs]
            simp_all
          simp only [Dialect.hasRemainder, DataType.isMatrix_of_scalarKind? hs,
            DataType.isMatrix_of_scalarKind? ht, Bool.not_false, Bool.and_self]
        rw [if_pos hremainder]
        exact h
      · cases h
    | _ => exact h

end Types

/-! ## Operators -/

variable {left right : DataType}

theorem arithType?_of_ne {d : Dialect} {op : ArithOp} (h : left.scalarKind? ≠ right.scalarKind?) :
    arithType? d op left right = none := by
  unfold arithType?
  rw [if_pos (by simp [h])]

theorem eq_of_comparable {op : CompareOp} (h : comparable op left right = true) : left = right := by
  unfold comparable at h
  split at h
  all_goals
    split at h
    all_goals first | cases h | exact of_decide_eq_true h

theorem DataType.scalarKind?_of_isIntBased {type : DataType} (h : type.isIntBased = true) :
    type.scalarKind? = some .int := by
  unfold isIntBased at h
  split at h
  · rfl
  · rfl
  · cases h

theorem DataType.scalarKind?_of_isFloatScalarOrVector {type : DataType}
    (h : type.isFloatScalarOrVector = true) : type.scalarKind? = some .float := by
  unfold isFloatScalarOrVector at h
  split at h
  · rfl
  · rfl
  · cases h

theorem DataType.not_mixed (h : left.scalarKind? = right.scalarKind?) :
    (left.isIntBased && right.hasFloats) = false := by
  rw [Bool.eq_false_iff]
  intro hmixed
  obtain ⟨hint, hfloat⟩ := Bool.and_eq_true_iff.mp hmixed
  have hkind := (scalarKind?_of_isIntBased hint).symm.trans (h.trans (of_decide_eq_true hfloat))
  cases hkind

theorem Env.promoteOperands_of_eq (env : Env) {left right : Expr}
    (h : left.type.scalarKind? = right.type.scalarKind?) :
    env.promoteOperands left right = (left, right) := by
  simp only [promoteOperands, DataType.not_mixed h, DataType.not_mixed h.symm, Bool.false_eq_true,
    if_false, ite_self]

theorem Typed.Expr.toFloat_relabel (m : Relabelling) (e : Expr) :
    (e.relabel m).toFloat = e.toFloat.relabel m := by
  simp only [toFloat, relabel, relabelAll, type_relabel, DataType.toFloatBased_rename,
    DataType.floatCode_rename]

namespace Translation

variable {T : Translation} {e : Env}

def expr (T : Translation) (t : Expr) : Expr :=
  t.relabel T.labels

def place (T : Translation) (p : Place) : Place :=
  p.relabel T.labels

def located (T : Translation) (t : Located Expr) : Located Expr :=
  ⟨T.expr t.value, T.spelling.span t.span⟩

@[simp]
theorem type_expr (t : Expr) : (T.expr t).type = t.type.rename T.name :=
  Expr.type_relabel t

@[simp]
theorem type_place (p : Place) : (T.place p).type = p.type.rename T.name :=
  Place.type_relabel p

theorem toFloat_expr (t : Expr) : (T.expr t).toFloat = T.expr t.toFloat :=
  Expr.toFloat_relabel T.labels t

theorem rename_inj {s t : DataType} : s.rename T.name = t.rename T.name ↔ s = t :=
  DataType.rename_inj T.name_injective

theorem arithType?_of_some {op : ArithOp} {s t u : DataType}
    (h : arithType? T.context.dialect op s t = some u) :
    arithType? T.dialect op (s.rename T.name) (t.rename T.name) = some (u.rename T.name) := by
  rw [arithType?_rename]
  by_cases hsame : T.Same
  · rw [← show T.context.dialect = T.dialect from hsame, h, Option.map_some]
  · obtain ⟨hglsl, hhlsl, -⟩ := T.across hsame
    rw [hglsl] at h
    rw [hhlsl, arithType?_hlsl h, Option.map_some]

theorem arithType?_of_same (hsame : T.Same) (op : ArithOp) (s t : DataType) :
    arithType? T.dialect op (s.rename T.name) (t.rename T.name)
      = (arithType? T.context.dialect op s t).map (DataType.rename T.name) := by
  rw [arithType?_rename, ← show T.context.dialect = T.dialect from hsame]

variable {span : Span}

/-- What is found if operands combine is found for the translated operands. -/
theorem arith_follows {α β : Type} {R : α → β → Prop} {g : DataType → α} {g' : DataType → β}
    {op : ArithOp} {l r : DataType} {fault fault' : TypingFault}
    (hresult : ∀ type, R (g type) (g' (type.rename T.name)))
    (hswizzle : fault'.strangeSwizzle? = fault.strangeSwizzle?)
    (hfault : T.Exact → fault' = fault) : T.Follows R
      (match arithType? T.context.dialect op l r with
        | some type => .ok (g type)
        | none => .fail span fault)
      (match arithType? T.dialect op (l.rename T.name) (r.rename T.name) with
        | some type => .ok (g' type)
        | none => .fail (T.spelling.span span) fault') := by
  cases htype : arithType? T.context.dialect op l r with
  | some type =>
    rw [arithType?_of_some htype]
    exact follows_ok (hresult type)
  | none =>
    by_cases hsame : T.Same
    · rw [arithType?_of_same hsame, htype]
      exact follows_fail hswizzle hfault
    · exact follows_of_across hsame

/-- A value is promoted in the translated source too, unless only the translated source promotes. -/
theorem promoted_cases (he : e.context = T.context) (mixed : Bool) (t : Expr) :
    (if ((T.env e).context.promote && mixed) = true then T.expr t.toFloat else T.expr t)
        = T.expr (if (e.context.promote && mixed) = true then t.toFloat else t)
      ∨ ¬T.Strict ∧ e.context.promote = false ∧ mixed = true := by
  rw [he]
  obtain hpromote | hpromote := T.promote_or
  · left
    rw [show (T.env e).context.promote = T.context.promote from hpromote]
    split <;> rfl
  · by_cases hkept : T.promote = true ∧ mixed = true
    · refine .inr ⟨fun hstrict => ?_, hpromote, hkept.2⟩
      cases hpromote.symm.trans (hstrict.2.symm.trans hkept.1)
    · left
      have hkept' : ¬((T.env e).context.promote && mixed) = true :=
        fun h => hkept (Bool.and_eq_true_iff.mp h)
      rw [hpromote, if_neg hkept', if_neg (by simp)]

theorem coerce_follows (he : e.context = T.context) (t : Expr) (target : DataType)
    {purpose purpose' : Purpose} (hpurpose : T.Exact → purpose' = purpose) :
    T.Maps T.expr (e.coerce ⟨t, span⟩ target purpose)
      ((T.env e).coerce ⟨T.expr t, T.spelling.span span⟩ (target.rename T.name) purpose') := by
  unfold Env.coerce
  simp only [type_expr, DataType.convertsTo_rename T.name_injective, he]
  refine follows_ite rename_inj (fun _ => follows_ok rfl) fun hne => ?_
  by_cases hpromote : T.promote = T.context.promote
  · rw [show (T.env e).context.promote = T.context.promote from hpromote]
    refine follows_require Iff.rfl (toFloat_expr t) rfl ?_
    intro hexact
    rw [hpurpose hexact, hexact.rename, hexact.rename]
  · have hrefused : t.type.convertsTo target T.context.promote = false := by
      simp [DataType.convertsTo, T.promote_or.resolve_left hpromote, hne]
    rw [if_neg (Bool.eq_false_iff.mp hrefused)]
    exact follows_of_lax fun hstrict => hpromote hstrict.2

/-- Operands are promoted in the translated source too, unless they are of two kinds and only the
translated source promotes. -/
theorem promoteOperands_cases (he : e.context = T.context) (l r : Expr) :
    (T.env e).promoteOperands (T.expr l) (T.expr r)
        = (T.expr (e.promoteOperands l r).1, T.expr (e.promoteOperands l r).2)
      ∨ ¬T.Strict ∧ e.promoteOperands l r = (l, r) ∧ l.type.scalarKind? ≠ r.type.scalarKind? := by
  by_cases hkinds : l.type.scalarKind? = r.type.scalarKind?
  · left
    rw [Env.promoteOperands_of_eq _ (by simpa using hkinds), Env.promoteOperands_of_eq _ hkinds]
  · by_cases hpromote : T.promote = T.context.promote
    · left
      unfold Env.promoteOperands
      simp only [type_expr, he, show (T.env e).context.promote = T.context.promote from hpromote,
        DataType.isIntBased_rename, DataType.hasFloats_rename, toFloat_expr]
      split
      · rfl
      · split
        · rfl
        · split <;> rfl
    · refine .inr ⟨fun hstrict => hpromote hstrict.2, ?_, hkinds⟩
      simp [Env.promoteOperands, he, T.promote_or.resolve_left hpromote]

theorem condition_follows (t : Expr) :
    T.Maps T.expr (Env.condition ⟨t, span⟩) (Env.condition ⟨T.expr t, T.spelling.span span⟩) := by
  unfold Env.condition
  simp only [type_expr, DataType.isBool_rename]
  refine follows_require Iff.rfl rfl rfl ?_
  intro hexact
  rw [hexact.rename]

theorem binary_follows (he : e.context = T.context) (op : BinaryOp) (l r : Expr)
    (span : Span) : T.Maps T.expr (e.binary op l r span)
      ((T.env e).binary op (T.expr l) (T.expr r) (T.spelling.span span)) := by
  cases op with
  | logic op =>
    simp only [Env.binary, type_expr, DataType.isBool_rename]
    refine follows_require Iff.rfl rfl rfl ?_
    intro hexact
    rw [hexact.rename, hexact.rename]
  | compare op =>
    obtain hoperands | ⟨hlax, hplain, hkinds⟩ := promoteOperands_cases he l r
    · simp only [Env.binary, hoperands, type_expr, comparable_rename T.name_injective]
      refine follows_require Iff.rfl rfl rfl ?_
      intro hexact
      rw [hexact.rename, hexact.rename]
    · simp only [Env.binary, hplain]
      rw [if_neg fun hcomparable => hkinds (congrArg _ (eq_of_comparable hcomparable))]
      exact follows_of_lax hlax
  | arith op =>
    obtain hoperands | ⟨hlax, hplain, hkinds⟩ := promoteOperands_cases he l r
    · simp only [Env.binary, hoperands, type_expr, he]
      refine arith_follows (fun _ => rfl) rfl fun hexact => ?_
      rw [hexact.rename, hexact.rename]
    · simp only [Env.binary, hplain, arithType?_of_ne hkinds]
      exact follows_of_lax hlax

theorem unary_follows (op : Ast.UnaryOp) (t : Expr) (span : Span) :
    T.Maps T.expr (Env.unary op t span) (Env.unary op (T.expr t) (T.spelling.span span)) := by
  cases op with
  | negate =>
    simp only [Env.unary, type_expr, DataType.isNumeric_rename]
    refine follows_ite Iff.rfl (fun _ => ?_) fun _ => follows_fail rfl ?_
    · cases t <;> exact follows_ok rfl
    · intro hexact
      rw [hexact.rename]
  | not =>
    simp only [Env.unary, type_expr, DataType.isBool_rename]
    refine follows_require Iff.rfl rfl rfl ?_
    intro hexact
    rw [hexact.rename]

theorem ternary_follows (he : e.context = T.context) (test l r : Expr) (span : Span) :
    T.Maps T.expr (e.ternary test l r span)
      ((T.env e).ternary (T.expr test) (T.expr l) (T.expr r) (T.spelling.span span)) := by
  obtain hoperands | ⟨hlax, hplain, hkinds⟩ := promoteOperands_cases he l r
  · simp only [Env.ternary, hoperands, type_expr]
    refine follows_require rename_inj rfl rfl ?_
    intro hexact
    rw [hexact.rename, hexact.rename]
  · simp only [Env.ternary, hplain]
    rw [if_neg fun htypes => hkinds (congrArg _ htypes)]
    exact follows_of_lax hlax

theorem assigned_follows (he : e.context = T.context) (op : Option ArithOp) (target : DataType)
    (t : Expr) (around : Span) : T.Maps T.expr (e.assigned op target ⟨t, span⟩ around)
      ((T.env e).assigned op (target.rename T.name) ⟨T.expr t, T.spelling.span span⟩
        (T.spelling.span around)) := by
  cases op with
  | none => exact coerce_follows he t target fun _ => rfl
  | some op =>
    simp only [Env.assigned, type_expr, DataType.isIntBased_rename, DataType.hasFloats_rename,
      toFloat_expr, Bool.and_assoc]
    obtain hvalue | ⟨hlax, hplain, hmixed⟩ :=
      promoted_cases he (t.type.isIntBased && target.hasFloats) t
    case inr =>
      have hkinds : target.scalarKind? ≠ t.type.scalarKind? := fun hkind =>
        Bool.eq_false_iff.mp (DataType.not_mixed hkind.symm) hmixed
      simp only [hplain, Bool.false_and, Bool.false_eq_true, if_false, arithType?_of_ne hkinds,
        reduceCtorEq]
      exact follows_of_lax hlax
    rw [hvalue]
    generalize (if (e.context.promote && (t.type.isIntBased && target.hasFloats)) = true
      then t.toFloat else t) = value
    simp only [type_expr, he, env, Translation.target]
    by_cases htype : arithType? T.context.dialect op target value.type = some target
    · rw [if_pos htype, if_pos (arithType?_of_some htype)]
      exact follows_ok rfl
    · rw [if_neg htype]
      by_cases hsame : T.Same
      · rw [if_neg]
        · exact follows_fail rfl fun hexact => by rw [hexact.rename, hexact.rename]
        · rw [arithType?_of_same hsame, Option.map_eq_some_iff]
          rintro ⟨type, hfound, hrename⟩
          rw [rename_inj.mp hrename] at hfound
          exact htype hfound
      · exact follows_of_across hsame

theorem indexValue_follows (t : Expr) (base : DataType) :
    T.Maps T.expr (Env.indexValue ⟨t, span⟩ base)
      (Env.indexValue ⟨T.expr t, T.spelling.span span⟩ (base.rename T.name)) := by
  unfold Env.indexValue
  simp only [type_expr, elementCount?_rename]
  refine follows_unless (not_congr (DataType.rename_eq_int t.type)) rfl ?_ fun _ => ?_
  · intro hexact
    rw [hexact.rename]
  · cases t with
    | int value =>
      cases elementCount? base with
      | none => exact follows_ok rfl
      | some count =>
        refine follows_unless Iff.rfl rfl ?_ fun _ => follows_ok rfl
        intro hexact
        rw [hexact.rename]
    | _ => exact follows_ok rfl

theorem elementType_follows (base : DataType) (span : Span) :
    T.Maps (DataType.rename T.name) (Env.elementType base span)
      (Env.elementType (base.rename T.name) (T.spelling.span span)) := by
  unfold Env.elementType
  rw [elementType?_rename]
  cases elementType? base with
  | none => exact follows_fail rfl fun hexact => by rw [hexact.rename]
  | some type => exact follows_ok rfl

end Translation

/-! ## Members -/

/-- A letter of GLSL selects the same component in HLSL, or HLSL does not have its family. -/
theorem swizzleComponent?_glsl {c : Char} {component : UInt8} {set : SwizzleSet}
    (h : Dialect.glsl.swizzleComponent? c = some (component, set)) :
    (set ≠ .texture ∧ Dialect.hlsl.swizzleComponent? c = some (component, set))
      ∨ (set = .texture ∧ c ∈ textureLetters ∧ Dialect.hlsl.swizzleComponent? c = none) := by
  unfold Dialect.swizzleComponent? at h
  split at h
  case h_13 => cases h
  all_goals
    obtain ⟨rfl, rfl⟩ := Prod.mk.inj (Option.some.inj h)
    first
    | exact .inl ⟨nofun, rfl⟩
    | exact .inr ⟨rfl, by decide, rfl⟩

theorem Structure.member?_rename (name : String → String) (s : Structure) (w : String) :
    (s.rename name).member? w = (s.member? w).map fun found => (found.1, found.2.rename name) :=
  findPlace?_map fun _ _ => rfl

theorem Env.swizzleLetters_cons_eq_ok {e : Env} {base : DataType} {swizzle : String} {size : UInt8}
    {span : Span} {set : Option SwizzleSet} {letter : Char} {rest : List Char}
    {components : List UInt8} :
    e.swizzleLetters base swizzle size span set (letter :: rest) = .ok components
      ↔ ∃ component letterSet more,
        e.context.dialect.swizzleComponent? letter = some (component, letterSet)
        ∧ (∀ s, set = some s → s = letterSet) ∧ ¬size ≤ component
        ∧ e.swizzleLetters base swizzle size span (some letterSet) rest = .ok more
        ∧ components = component :: more := by
  rw [swizzleLetters]
  cases e.context.dialect.swizzleComponent? letter with
  | none => exact ⟨nofun, nofun⟩
  | some found =>
    obtain ⟨component, letterSet⟩ := found
    have hmixed : set.any (· ≠ letterSet) = true ↔ ¬∀ s, set = some s → s = letterSet := by
      cases set <;> simp
    simp only [hmixed, Option.some.injEq, Prod.mk.injEq]
    constructor
    · intro h
      split at h
      · cases h
      · rename_i hset
        split at h
        · cases h
        · rename_i hsize
          cases hrest : e.swizzleLetters base swizzle size span (some letterSet) rest with
          | error fault =>
            rw [hrest] at h
            cases h
          | ok more =>
            rw [hrest] at h
            cases h
            exact ⟨component, letterSet, more, ⟨rfl, rfl⟩, not_not.mp hset, hsize, hrest, rfl⟩
    · rintro ⟨_, _, more, ⟨rfl, rfl⟩, hset, hsize, hrest, rfl⟩
      rw [if_neg (not_not.mpr hset), if_neg hsize, hrest]
      rfl

namespace Translation

variable {T : Translation} {e : Env}

variable {base type : DataType} {swizzle member : String} {size : UInt8} {span : Span}

/-- The letters of a swizzle that starts with the family of texture coordinates. -/
theorem mem_textureLetters (he : e.context.dialect = .glsl) {letters : List Char}
    {components : List UInt8}
    (h : e.swizzleLetters base swizzle size span (some .texture) letters = .ok components) :
    ∀ c ∈ letters, c ∈ textureLetters := by
  induction letters generalizing components with
  | nil => exact nofun
  | cons letter rest ih =>
    obtain ⟨component, letterSet, more, hletter, hset, -, hrest, -⟩ :=
      Env.swizzleLetters_cons_eq_ok.mp h
    cases hset _ rfl
    rw [he] at hletter
    obtain ⟨hother, -⟩ | ⟨-, hmem, -⟩ := swizzleComponent?_glsl hletter
    · exact absurd rfl hother
    · exact List.forall_mem_cons.mpr ⟨hmem, ih hrest⟩

theorem swizzleLetters_across (he : e.context.dialect = .glsl) (hdialect : T.dialect = .hlsl)
    {set : SwizzleSet} (hset : set ≠ .texture) {letters : List Char} {components : List UInt8}
    (h : e.swizzleLetters base swizzle size span (some set) letters = .ok components) :
    (T.env e).swizzleLetters (base.rename T.name) swizzle size (T.spelling.span span) (some set)
      letters = .ok components := by
  induction letters generalizing components with
  | nil => exact h
  | cons letter rest ih =>
    obtain ⟨component, letterSet, more, hletter, hmixed, hsize, hrest, hcomponents⟩ :=
      Env.swizzleLetters_cons_eq_ok.mp h
    cases hmixed _ rfl
    rw [he] at hletter
    obtain ⟨-, hsame⟩ | ⟨htexture, -⟩ := swizzleComponent?_glsl hletter
    · rw [← hdialect] at hsame
      exact Env.swizzleLetters_cons_eq_ok.mpr
        ⟨component, set, more, hsame, hmixed, hsize, ih hrest, hcomponents⟩
    · exact absurd htexture hset

theorem swizzleLetters_same (hcontext : e.context = T.context) (hsame : T.Same)
    {set : Option SwizzleSet} (letters : List Char) :
    T.Follows (fun cs cs' => cs' = cs) (e.swizzleLetters base swizzle size span set letters)
      ((T.env e).swizzleLetters (base.rename T.name) swizzle size (T.spelling.span span) set
        letters) := by
  induction letters generalizing set with
  | nil => exact follows_ok rfl
  | cons letter rest ih =>
    have hdialect : (T.env e).context.dialect = e.context.dialect := by
      rw [hcontext]
      exact hsame.symm
    rw [Env.swizzleLetters, Env.swizzleLetters, hdialect]
    cases e.context.dialect.swizzleComponent? letter with
    | none => exact follows_fail rfl fun hexact => by rw [hexact.rename]
    | some found =>
      refine follows_unless Iff.rfl rfl (fun _ => rfl) fun _ => ?_
      refine follows_unless Iff.rfl rfl ?_ fun _ => ?_
      · intro hexact
        rw [hexact.rename]
      · exact ih.next fun more => follows_ok rfl

/-- A swizzle selects the same components, unless the dialect does not have its letters. -/
theorem swizzle_follows (hcontext : e.context = T.context) (hlabel : T.Labels swizzle)
    (base : DataType) (span : Span) :
    T.Follows (fun cs cs' => cs' = cs) (e.swizzle base swizzle span)
      ((T.env e).swizzle (base.rename T.name) swizzle (T.spelling.span span)) := by
  have hsize : Env.swizzleSize? (base.rename T.name) = Env.swizzleSize? base := by
    cases base <;> rfl
  unfold Env.swizzle
  rw [hsize]
  cases Env.swizzleSize? base with
  | none => exact follows_fail rfl fun hexact => by rw [hexact.rename]
  | some size =>
    refine follows_unless Iff.rfl rfl (fun _ => rfl) fun _ => ?_
    by_cases hsame : T.Same
    · exact swizzleLetters_same hcontext hsame _
    · obtain ⟨hglsl, hhlsl, -⟩ := T.across hsame
      have he : e.context.dialect = .glsl := hcontext ▸ hglsl
      cases hfound : e.swizzleLetters base swizzle size span none swizzle.toList with
      | error fault => exact follows_of_across hsame
      | ok components =>
        cases hletters : swizzle.toList with
        | nil =>
          rw [hletters] at hfound
          exact follows_ok (Except.ok.inj hfound)
        | cons letter rest =>
          rw [hletters] at hfound
          obtain ⟨component, set, more, hletter, -, hrange, hrest, hcomponents⟩ :=
            Env.swizzleLetters_cons_eq_ok.mp hfound
          rw [he] at hletter
          obtain ⟨hset, hother⟩ | ⟨htexture, hmem, hnone⟩ := swizzleComponent?_glsl hletter
          · rw [← hhlsl] at hother
            have htarget : (T.env e).swizzleLetters (base.rename T.name) swizzle size
                (T.spelling.span span) none (letter :: rest) = .ok components :=
              Env.swizzleLetters_cons_eq_ok.mpr ⟨component, set, more, hother, nofun, hrange,
                swizzleLetters_across he hhlsl hset hrest, hcomponents⟩
            rw [htarget]
            exact follows_ok rfl
          · subst htexture
            rw [← hhlsl] at hnone
            have htarget : (T.env e).swizzleLetters (base.rename T.name) swizzle size
                (T.spelling.span span) none (letter :: rest)
                = .fail (T.spelling.span span) (.unknownLetter (base.rename T.name) swizzle) := by
              rw [Env.swizzleLetters]
              simp only [env, target, hnone]
            rw [htarget]
            refine ⟨hsame, _, _, rfl, hlabel, ?_⟩
            rw [hletters]
            exact List.forall_mem_cons.mpr ⟨hmem, mem_textureLetters he hrest⟩

theorem swizzleType_rename (base : DataType) (components : List UInt8) :
    Env.swizzleType (base.rename T.name) components
      = (Env.swizzleType base components).rename T.name := by
  simp only [Env.swizzleType, DataType.scalarKind?_rename, DataType.rename_withComponents]

theorem structMember_follows (s : String) (span : Span) :
    T.Follows (fun found found' => found' = (found.1, found.2.rename T.name))
      (e.structMember s member span)
      ((T.env e).structMember (T.name s) member (T.spelling.span span)) := by
  unfold Env.structMember
  rw [show (T.env e).registry = T.registry e.registry from rfl, registry_struct?_name]
  cases e.registry.struct? s with
  | none => exact follows_fail rfl fun hexact => by rw [hexact.name]
  | some found =>
    simp only [Option.map_some, Option.bind_some, Structure.member?_rename]
    cases found.member? member with
    | none => exact follows_fail rfl fun hexact => by rw [hexact.name]
    | some place => exact follows_ok rfl

theorem memberExpr_follows (hcontext : e.context = T.context) (hlabel : T.Labels member) (t : Expr)
    (span : Span) : T.Maps T.expr (e.memberExpr t member span)
      ((T.env e).memberExpr (T.expr t) member (T.spelling.span span)) := by
  have hswizzle : T.Maps T.expr
      (do
        let components ← e.swizzle t.type member span
        return .swizzle t components (Env.swizzleType t.type components))
      (do
        let components ← (T.env e).swizzle (t.type.rename T.name) member (T.spelling.span span)
        return .swizzle (T.expr t) components
          (Env.swizzleType (t.type.rename T.name) components)) := by
    refine (swizzle_follows hcontext hlabel t.type span).next fun components => ?_
    refine follows_ok ?_
    rw [swizzleType_rename]
    rfl
  unfold Env.memberExpr
  rw [type_expr]
  cases htype : t.type with
  | struct s =>
    exact (structMember_follows s span).next fun found => follows_ok rfl
  | _ =>
    rw [htype] at hswizzle
    exact hswizzle

theorem memberPlace_follows (hcontext : e.context = T.context) (hlabel : T.Labels member)
    (p : Place) (span : Span) : T.Maps T.place (e.memberPlace p member span)
      ((T.env e).memberPlace (T.place p) member (T.spelling.span span)) := by
  have hswizzle : T.Maps T.place
      (do
        let components ← e.swizzle p.type member span
        if Env.hasRepeats components then .fail span (.componentRepeated member)
        else return .swizzle p components (Env.swizzleType p.type components))
      (do
        let components ← (T.env e).swizzle (p.type.rename T.name) member (T.spelling.span span)
        if Env.hasRepeats components then .fail (T.spelling.span span) (.componentRepeated member)
        else
          return .swizzle (T.place p) components
            (Env.swizzleType (p.type.rename T.name) components)) := by
    refine (swizzle_follows hcontext hlabel p.type span).next fun components => ?_
    refine follows_unless Iff.rfl rfl (fun _ => rfl) fun _ => follows_ok ?_
    rw [swizzleType_rename]
    rfl
  unfold Env.memberPlace
  rw [type_place]
  cases htype : p.type with
  | struct s =>
    exact (structMember_follows s span).next fun found => follows_ok rfl
  | _ =>
    rw [htype] at hswizzle
    exact hswizzle

/-! ## Calls -/

theorem argumentComponents_follows (t : Located Expr) :
    T.Follows (fun n n' => n' = n) (Env.argumentComponents type t)
      (Env.argumentComponents type (T.located t)) := by
  unfold Env.argumentComponents located
  simp only [type_expr, DataType.componentCount?_rename]
  cases t.value.type.componentCount? with
  | none => exact follows_fail rfl fun hexact => by rw [hexact.rename]
  | some count => exact follows_ok rfl

theorem mapM_argumentComponents_follows (ts : List (Located Expr)) :
    T.Follows (fun ns ns' => ns' = ns) (ts.mapM (Env.argumentComponents type))
      ((ts.map T.located).mapM (Env.argumentComponents type)) := by
  induction ts with
  | nil => exact follows_ok rfl
  | cons first rest ih =>
    rw [List.map_cons, List.mapM_cons, List.mapM_cons]
    refine (argumentComponents_follows first).next fun count => ?_
    exact ih.next fun counts => follows_ok rfl

theorem fills_located (type : DataType) (ts : List (Located Expr)) :
    Env.fills type (ts.map T.located) = Env.fills type ts := by
  match ts with
  | [] => rfl
  | [only] =>
    simp only [List.map_cons, List.map_nil, Env.fills, located, type_expr,
      DataType.isScalar_rename, DataType.isMatrix_rename]
  | _ :: _ :: _ => rfl

theorem checkComponents_follows (type : DataType) (needed : Nat) (ts : List (Located Expr))
    (counts : List Nat) (span : Span) :
    T.Follows (fun _ _ => True) (Env.checkComponents type needed ts counts span)
      (Env.checkComponents type needed (ts.map T.located) counts (T.spelling.span span)) := by
  unfold Env.checkComponents
  rw [List.length_map, fills_located]
  refine follows_ite Iff.rfl (fun _ => ?_) fun _ => ?_
  · exact follows_require Iff.rfl trivial rfl fun _ => rfl
  · refine follows_ite Iff.rfl (fun _ => follows_ok trivial) fun _ => ?_
    refine follows_unless Iff.rfl rfl (fun _ => rfl) fun _ => ?_
    exact follows_unless Iff.rfl rfl (fun _ => rfl) fun _ => follows_ok trivial

theorem map_value_located (ts : List (Located Expr)) :
    (ts.map T.located).map (·.value) = Expr.relabelAll T.labels (ts.map (·.value)) := by
  rw [Expr.relabelAll_eq_map, List.map_map, List.map_map]
  rfl

theorem constructor_follows {needed : Nat} (hcount : type.componentCount? = some needed)
    (ts : List (Located Expr)) (span : Span) : T.Maps T.expr (e.constructor type needed ts span)
      ((T.env e).constructor type needed (ts.map T.located) (T.spelling.span span)) := by
  have htype : type.rename T.name = type := DataType.rename_of_componentCount? hcount
  have hcode := code_follows (T := T) (e := e) type
  rw [htype] at hcode
  refine (mapM_argumentComponents_follows ts).bind ?_
  rintro _ counts rfl
  refine (checkComponents_follows type needed ts counts span).bind fun _ _ _ => ?_
  refine hcode.next fun code => ?_
  refine follows_ok ?_
  rw [map_value_located]
  simp only [expr, Expr.relabel]
  rw [show type.rename T.labels.name = type from htype]

theorem floatArgument_follows (hcontext : e.context = T.context) (function : Intrinsic)
    (position : Nat) (t : Located Expr) : T.Maps T.expr (e.floatArgument function position t)
      ((T.env e).floatArgument function position (T.located t)) := by
  unfold Env.floatArgument located
  simp only [type_expr, DataType.isIntBased_rename, toFloat_expr]
  obtain hvalue | ⟨hlax, hplain, hint⟩ := promoted_cases hcontext t.value.type.isIntBased t.value
  · simp only [hvalue, type_expr, DataType.isFloatScalarOrVector_rename]
    refine follows_require Iff.rfl rfl rfl ?_
    intro hexact
    rw [hexact.rename]
  · have hrefused : t.value.type.isFloatScalarOrVector = false := by
      rw [Bool.eq_false_iff]
      intro hfloat
      have hkind := DataType.scalarKind?_of_isIntBased hint
      cases hkind.symm.trans (DataType.scalarKind?_of_isFloatScalarOrVector hfloat)
    simp only [hplain, Bool.false_and, Bool.false_eq_true, if_false, hrefused]
    exact follows_of_lax hlax

theorem matchingArgument_follows (hcontext : e.context = T.context) (function : Intrinsic)
    (position : Nat) {like like' : DataType} (hlike : like' = like.rename T.name) (scalarToo : Bool)
    (t : Located Expr) : T.Maps T.expr (e.matchingArgument function position like scalarToo t)
      ((T.env e).matchingArgument function position like' scalarToo (T.located t)) := by
  subst hlike
  refine (floatArgument_follows hcontext function position t).next fun value => ?_
  refine follows_require ?_ rfl rfl ?_
  · simp only [type_expr, rename_inj, DataType.rename_eq_float]
  · intro hexact
    rw [type_expr, hexact.rename, hexact.rename]

def operands (T : Translation) (found : List Expr × DataType) : List Expr × DataType :=
  (Expr.relabelAll T.labels found.1, found.2.rename T.name)

theorem intrinsicOperands_follows (hcontext : e.context = T.context) (function : Intrinsic)
    (ts : List (Located Expr)) (span : Span) :
    T.Maps T.operands (e.intrinsicOperands function ts span)
      ((T.env e).intrinsicOperands function (ts.map T.located) (T.spelling.span span)) := by
  have hfloat := floatArgument_follows hcontext function
  have hlike := @matchingArgument_follows T e hcontext function
  have hmissing : T.Maps T.operands
      (.fail {} (.argumentMissing function)) (.fail {} (.argumentMissing function)) :=
    follows_fail_nowhere rfl fun _ => rfl
  unfold Env.intrinsicOperands
  cases hshape : function.shape <;> rcases ts with _ | ⟨a, _ | ⟨b, _ | ⟨c, _ | ⟨x, rest⟩⟩⟩⟩ <;>
    simp only [List.map_cons, List.map_nil]
  all_goals try exact hmissing
  case void.nil | void.cons.nil | void.cons.cons.nil | void.cons.cons.cons.nil
      | void.cons.cons.cons.cons =>
    exact follows_ok rfl
  case unary.cons.nil =>
    exact (hfloat 0 a).next fun t => follows_ok (Prod.ext rfl (type_expr t))
  case length.cons.nil =>
    exact (hfloat 0 a).next fun t => follows_ok rfl
  case binary.cons.cons.nil | binaryScalarRight.cons.cons.nil =>
    refine (hfloat 0 a).next fun t => ?_
    exact (hlike 1 (type_expr t) _ b).next fun u => follows_ok (Prod.ext rfl (type_expr t))
  case dot.cons.cons.nil =>
    refine (hfloat 0 a).next fun t => ?_
    exact (hlike 1 (type_expr t) _ b).next fun u => follows_ok rfl
  case cross.cons.cons.nil =>
    refine (hfloat 0 a).next fun t => ?_
    refine (hlike 1 (type_expr t) _ b).next fun u => ?_
    refine follows_require ?_ (Prod.ext rfl (type_expr t)) rfl fun hexact => ?_
    · rw [type_expr, ← rename_inj (s := t.type), DataType.rename_floatVector]
    · rw [type_expr, hexact.rename]
  case clamp.cons.cons.cons.nil | mix.cons.cons.cons.nil =>
    refine (hfloat 0 a).next fun t => ?_
    refine (hlike 1 (type_expr t) _ b).next fun u => ?_
    exact (hlike 2 (type_expr t) _ c).next fun v => follows_ok (Prod.ext rfl (type_expr t))
  case refract.cons.cons.cons.nil =>
    refine (hfloat 0 a).next fun t => ?_
    refine (hlike 1 (type_expr t) _ b).next fun u => ?_
    exact (hlike 2 (DataType.rename_float).symm _ c).next fun v =>
      follows_ok (Prod.ext rfl (type_expr t))
  case step.cons.cons.nil =>
    refine (hfloat 1 b).next fun t => ?_
    exact (hlike 0 (type_expr t) _ a).next fun u => follows_ok (Prod.ext rfl (type_expr t))
  case smoothstep.cons.cons.cons.nil =>
    refine (hfloat 2 c).next fun t => ?_
    refine (hlike 0 (type_expr t) _ a).next fun u => ?_
    exact (hlike 1 (type_expr t) _ b).next fun v => follows_ok (Prod.ext rfl (type_expr t))
  case texture.cons.cons.nil =>
    have hcoordinates : T.Maps T.expr (e.coerce b (.floatVector 2) .textureCoordinates)
        ((T.env e).coerce (T.located b) ((DataType.floatVector 2).rename T.name)
          .textureCoordinates) :=
      coerce_follows hcontext b.value (.floatVector 2) fun _ => rfl
    rw [DataType.rename_floatVector] at hcoordinates
    refine follows_guard ?_ rfl (fun hexact => ?_) fun _ => ?_
    · exact not_congr ((type_expr a.value).symm ▸ DataType.rename_eq_sampler2D a.value.type)
    · exact congrArg TypingFault.textureSampler ((type_expr a.value).trans (hexact.rename _))
    · refine hcoordinates.next fun t => ?_
      refine follows_ok ?_
      rw [operands, DataType.rename_floatVector]
      rfl
  case matrixMultiply.cons.cons.nil =>
    obtain hoperands | ⟨hlax, hplain, hkinds⟩ := promoteOperands_cases hcontext a.value b.value
    · simp only [located, hoperands, type_expr, hcontext]
      refine arith_follows (fun _ => rfl) rfl fun hexact => ?_
      rw [hexact.rename, hexact.rename]
    · simp only [hplain, arithType?_of_ne hkinds]
      exact follows_of_lax hlax

theorem intrinsic_follows (hcontext : e.context = T.context) (function : Intrinsic)
    (ts : List (Located Expr)) (span : Span) : T.Maps T.expr (e.intrinsic function ts span)
      ((T.env e).intrinsic function (ts.map T.located) (T.spelling.span span)) := by
  exact (intrinsicOperands_follows hcontext function ts span).next fun found => follows_ok rfl

end Translation

end ShaderBytecode
