import ShaderBytecode.Proofs.Registration

/-!
# Products of matrices

A product of two matrices is typed as one whose inner dimensions agree. If they do not, it is typed
as an operation on components, which needs operands of one type: so a product of two matrices of the
same shape is accepted also where the shape is not square.
-/

namespace ShaderBytecode

namespace Typed

/-! ## Expressions in trees -/

mutual

def Expr.inner : Expr → List Expr
  | .int _ | .float _ | .bool _ | .localVar _ _ | .globalVar _ _ => []
  | .member base _ _ | .swizzle base _ _ | .unary _ base => base :: base.inner
  | .index left right _ | .arith _ left right _ | .compare _ left right | .logic _ left right =>
    left :: left.inner ++ right :: right.inner
  | .ternary test whenTrue whenFalse =>
    test :: test.inner ++ whenTrue :: whenTrue.inner ++ whenFalse :: whenFalse.inner
  | .assign _ target value => target.inner ++ value :: value.inner
  | .step _ target => target.inner
  | .call _ arguments _ => Argument.innerAll arguments
  | .intrinsic _ arguments _ | .construct _ _ arguments => Expr.innerAll arguments

def Place.inner : Place → List Expr
  | .localVar _ _ | .globalVar _ _ => []
  | .member base _ _ | .swizzle base _ _ => base.inner
  | .index base index _ => base.inner ++ index :: index.inner

def Argument.inner : Argument → List Expr
  | .value value => value :: value.inner
  | .reference place => place.inner

def Expr.innerAll : List Expr → List Expr
  | [] => []
  | first :: rest => first :: first.inner ++ Expr.innerAll rest

def Argument.innerAll : List Argument → List Expr
  | [] => []
  | first :: rest => first.inner ++ Argument.innerAll rest

end

mutual

def Statement.exprs : Statement → List Expr
  | .expr value _ | .declare _ value _ => Expr.innerAll [value]
  | .ifElse test whenTrue whenFalse _ =>
    Expr.innerAll [test] ++ Statement.exprsAll whenTrue ++ Statement.exprsAll whenFalse
  | .loop test step body _ =>
    Expr.innerAll test.toList ++ Expr.innerAll step.toList ++ Statement.exprsAll body
  | .doLoop body test _ => Statement.exprsAll body ++ Expr.innerAll [test]
  | .returnFrom value _ => Expr.innerAll value.toList
  | .leave _ _ | .discardPixel _ => []
  | .block body => Statement.exprsAll body

def Statement.exprsAll : List Statement → List Expr
  | [] => []
  | first :: rest => first.exprs ++ Statement.exprsAll rest

end

/-- All expressions of a source: those in the start values of its globals and in the bodies of its
functions. -/
def Registry.exprs (r : Registry) : List Expr :=
  (r.globals.flatMap fun g => Expr.innerAll g.initializer.toList)
    ++ (r.functions.filterMap (·.definition)).flatMap fun d => Statement.exprsAll d.body

section WellTyped

variable {c : CodeContext}

mutual

theorem Expr.WellTyped.inner : {e : Expr} → e.WellTyped c → ∀ x ∈ e.inner, x.WellTyped c
  | .int _, _ | .float _, _ | .bool _, _ | .localVar _ _, _ | .globalVar _ _, _ => nofun
  | .member _ _ _, h | .swizzle _ _ _, h | .unary _ _, h =>
    List.forall_mem_cons.mpr ⟨h.1, h.1.inner⟩
  | .index _ _ _, h | .arith _ _ _ _, h | .compare _ _ _, h | .logic _ _ _, h =>
    List.forall_mem_append.mpr ⟨List.forall_mem_cons.mpr ⟨h.1, h.1.inner⟩,
      List.forall_mem_cons.mpr ⟨h.2.1, h.2.1.inner⟩⟩
  | .ternary _ _ _, h =>
    List.forall_mem_append.mpr ⟨List.forall_mem_append.mpr
      ⟨List.forall_mem_cons.mpr ⟨h.1, h.1.inner⟩, List.forall_mem_cons.mpr ⟨h.2.1, h.2.1.inner⟩⟩,
      List.forall_mem_cons.mpr ⟨h.2.2.1, h.2.2.1.inner⟩⟩
  | .assign _ _ _, h =>
    List.forall_mem_append.mpr ⟨h.1.inner, List.forall_mem_cons.mpr ⟨h.2.1, h.2.1.inner⟩⟩
  | .step _ _, h => h.1.inner
  | .call _ _ _, h =>
    let ⟨_, _, _, harguments⟩ := h
    Argument.AllWellTyped.inner harguments
  | .intrinsic _ _ _, h | .construct _ _ _, h => Expr.AllWellTyped.inner h.1

theorem Place.WellTyped.inner : {p : Place} → p.WellTyped c → ∀ x ∈ p.inner, x.WellTyped c
  | .localVar _ _, _ | .globalVar _ _, _ => nofun
  | .member _ _ _, h | .swizzle _ _ _, h => h.1.inner
  | .index _ _ _, h =>
    List.forall_mem_append.mpr ⟨h.1.inner, List.forall_mem_cons.mpr ⟨h.2.1, h.2.1.inner⟩⟩

theorem Argument.WellTyped.inner {type : DataType} {passing : Passing} :
    {a : Argument} → a.WellTyped c type passing → ∀ x ∈ a.inner, x.WellTyped c
  | .value _, h => List.forall_mem_cons.mpr ⟨h.2.2, h.2.2.inner⟩
  | .reference _, h => h.2.2.inner

theorem Expr.AllWellTyped.inner :
    {es : List Expr} → Expr.AllWellTyped c es → ∀ x ∈ Expr.innerAll es, x.WellTyped c
  | [], _ => nofun
  | _ :: _, h =>
    List.forall_mem_append.mpr ⟨List.forall_mem_cons.mpr ⟨h.1, h.1.inner⟩,
      Expr.AllWellTyped.inner h.2⟩

theorem Argument.AllWellTyped.inner :
    {parameters : List (DataType × Passing)} → {arguments : List Argument} →
      Argument.AllWellTyped c parameters arguments →
      ∀ x ∈ Argument.innerAll arguments, x.WellTyped c
  | [], [], _ => nofun
  | _ :: _, _ :: _, h =>
    List.forall_mem_append.mpr ⟨h.1.inner, Argument.AllWellTyped.inner h.2⟩

end

theorem Expr.allWellTyped_toList {e : Option Expr} (h : ∀ value ∈ e, value.WellTyped c) :
    Expr.AllWellTyped c e.toList := by
  cases e with
  | none => trivial
  | some value => exact ⟨h value rfl, trivial⟩

mutual

theorem Statement.WellTyped.exprs {inLoop : Bool} :
    {s : Statement} → s.WellTyped c inLoop → ∀ x ∈ s.exprs, x.WellTyped c
  | .expr _ _, h => Expr.AllWellTyped.inner ⟨h, trivial⟩
  | .declare _ _ _, h => Expr.AllWellTyped.inner ⟨h.1, trivial⟩
  | .ifElse _ _ _ _, h =>
    List.forall_mem_append.mpr ⟨List.forall_mem_append.mpr
      ⟨Expr.AllWellTyped.inner ⟨h.1, trivial⟩, Statement.AllWellTyped.exprs h.2.2.1⟩,
      Statement.AllWellTyped.exprs h.2.2.2⟩
  | .loop _ _ _ _, h =>
    List.forall_mem_append.mpr ⟨List.forall_mem_append.mpr
      ⟨(Expr.allWellTyped_toList fun e he => (h.1 e he).1).inner,
        (Expr.allWellTyped_toList h.2.1).inner⟩,
      Statement.AllWellTyped.exprs h.2.2⟩
  | .doLoop _ _ _, h =>
    List.forall_mem_append.mpr
      ⟨Statement.AllWellTyped.exprs h.1, Expr.AllWellTyped.inner ⟨h.2.1, trivial⟩⟩
  | .returnFrom none _, _ => nofun
  | .returnFrom (some _) _, h => Expr.AllWellTyped.inner ⟨h.1, trivial⟩
  | .leave _ _, _ | .discardPixel _, _ => nofun
  | .block _, h => Statement.AllWellTyped.exprs h

theorem Statement.AllWellTyped.exprs {inLoop : Bool} :
    {body : List Statement} → Statement.AllWellTyped c inLoop body →
      ∀ x ∈ Statement.exprsAll body, x.WellTyped c
  | [], _ => nofun
  | _ :: _, h => List.forall_mem_append.mpr ⟨h.1.exprs, Statement.AllWellTyped.exprs h.2⟩

end

/-- All expressions of a well typed source are well typed, each with the slots of its function. -/
theorem Registry.WellTyped.exprs {d : Dialect} {r : Registry} (h : r.WellTyped d) :
    ∀ e ∈ r.exprs, ∃ slots result, e.WellTyped (r.codeContext d slots result) := by
  refine List.forall_mem_append.mpr ⟨fun e he => ?_, fun e he => ?_⟩
  · obtain ⟨g, hg, he⟩ := List.mem_flatMap.mp he
    obtain ⟨i, hi⟩ := List.getElem?_of_mem hg
    have hvalue := (h.globals i g hi).2
    exact ⟨[], .void, (Expr.allWellTyped_toList fun v hv => (hvalue v hv).1).inner e he⟩
  · obtain ⟨definition, hdefinition, he⟩ := List.mem_flatMap.mp he
    obtain ⟨f, hf, hdefinition⟩ := List.mem_filterMap.mp hdefinition
    obtain ⟨slots, htyped⟩ := h.functions f hf definition hdefinition
    exact ⟨slots, f.signature.returnType, htyped.body.exprs e he⟩

end WellTyped

/-! ## Products -/

/-- The types of the operands and of the result of a product: of one written with the operator, of
one in an assignment, whose result is stored in the left operand, and of a call of the intrinsic. -/
def Expr.product? : Expr → Option (DataType × DataType × DataType)
  | .arith .mul left right type => some (left.type, right.type, type)
  | .assign (some .mul) target value => some (target.type, value.type, target.type)
  | .intrinsic .matrixMultiply [left, right] type => some (left.type, right.type, type)
  | _ => none

theorem Expr.WellTyped.product? {c : CodeContext} {e : Expr} {left right type : DataType}
    (h : e.WellTyped c) (hproduct : e.product? = some (left, right, type)) :
    arithType? c.dialect .mul left right = some type := by
  unfold Expr.product? at hproduct
  split at hproduct <;> cases hproduct
  · exact h.2.2
  · exact h.2.2
  · exact h.2

end Typed

/-- A product of two matrices has matching inner dimensions, or both have the same shape. -/
theorem arithType?_mul_matrix {d : Dialect} {columns rows columns' rows' : UInt8}
    {type : DataType}
    (h : arithType? d .mul (.matrix columns rows) (.matrix columns' rows') = some type) :
    columns = rows' ∧ type = .matrix columns' rows
      ∨ columns ≠ rows' ∧ columns = columns' ∧ rows = rows' ∧ type = .matrix columns rows := by
  change (productType? _ _ <|> componentwiseType? _ _) = some type at h
  by_cases hinner : columns = rows'
  · rw [productType?, if_pos hinner] at h
    exact .inl ⟨hinner, (Option.some.inj h).symm⟩
  · rw [productType?, if_neg hinner] at h
    change componentwiseType? _ _ = some type at h
    unfold componentwiseType? at h
    split at h
    · rename_i hsame
      cases hsame
      exact .inr ⟨hinner, rfl, rfl, (Option.some.inj h).symm⟩
    · cases h

section Compiled

variable {d : Dialect} {config : Config} {request : Request} {compiled : Compiled}

/-- The products of matrices in a compiled source, written with the operator, in an assignment or as
a call. Their inner dimensions agree and their result has the outer ones, or else both matrices have
one shape that is not square, and this is that of the result. -/
theorem compile_products (h : compile d config request = .ok compiled) :
    ∃ r e, Declares d config request r ∧ r.emit config.lineMarkers = .ok e
      ∧ compiled.code = e.code
      ∧ ∀ x ∈ r.exprs, ∀ columns rows columns' rows' type,
          x.product? = some (.matrix columns rows, .matrix columns' rows', type) →
          columns = rows' ∧ type = .matrix columns' rows
            ∨ columns ≠ rows ∧ columns = columns' ∧ rows = rows' ∧ type = .matrix columns rows := by
  obtain ⟨-, -, r, e, -, -, hdeclares, htyped, hemit, hcode, -⟩ := run_of_compile h
  refine ⟨r, e, hdeclares, hemit, hcode, fun x hx columns rows columns' rows' type hproduct => ?_⟩
  obtain ⟨slots, result, hx⟩ := htyped.exprs x hx
  obtain hinner | ⟨hinner, hcolumns, rfl, htype⟩ := arithType?_mul_matrix (hx.product? hproduct)
  · exact .inl hinner
  · exact .inr ⟨hinner, hcolumns, rfl, htype⟩

end Compiled

/-- A source with products of matrices whose inner dimensions agree. -/
def productsRequest : Request where
  stage := .vertex
  source := "mat2x3 f(mat4x3 a, mat2x4 b) { mat2 c; c *= c; return a * b * c; } void main() { }"

theorem compile_products_productsRequest :
    ∃ compiled, compile .glsl {} productsRequest = .ok compiled
      ∧ ∃ r e, Declares .glsl {} productsRequest r ∧ r.emit true = .ok e ∧ compiled.code = e.code
        ∧ ∀ x ∈ r.exprs, ∀ columns rows columns' rows' type,
          x.product? = some (.matrix columns rows, .matrix columns' rows', type) →
          columns = rows' ∧ type = .matrix columns' rows
            ∨ columns ≠ rows ∧ columns = columns' ∧ rows = rows' ∧ type = .matrix columns rows := by
  have hsome : (compile .glsl {} productsRequest).toOption.any (fun _ => true) = true := by
    decide +kernel
  obtain ⟨compiled, h, -⟩ := exists_ok_of_any hsome
  exact ⟨compiled, h, compile_products h⟩

/-- A source is compiled although it multiplies a matrix of two columns and three rows by itself. -/
def CompilesOblong (d : Dialect) (source : String) : Prop :=
  ∃ compiled r, compile d {} { stage := .vertex, source := source } = .ok compiled
    ∧ Declares d {} { stage := .vertex, source := source } r
    ∧ ∃ x ∈ r.exprs, x.product? = some (.matrix 2 3, .matrix 2 3, .matrix 2 3)

theorem compilesOblong {d : Dialect} {source : String}
    (hcompiled : (compile d {} { stage := .vertex, source := source }).toOption.isSome = true)
    (hanalysed : (analyse d {} { stage := .vertex, source := source }).toOption.any (fun found =>
      found.1.exprs.any (·.product? = some (.matrix 2 3, .matrix 2 3, .matrix 2 3))) = true) :
    CompilesOblong d source := by
  obtain ⟨compiled, hcompiled⟩ := exists_ok_of_isSome hcompiled
  obtain ⟨⟨r, remarks⟩, hanalyse, hproduct⟩ := exists_ok_of_any hanalysed
  simp only [List.any_eq_true, decide_eq_true_eq] at hproduct
  exact ⟨compiled, r, hcompiled, declares_of_analyse hanalyse, hproduct⟩

/-- Products whose inner dimensions do not agree are compiled: with the operator, in an assignment,
and by a call. -/
theorem compile_oblongSources : CompilesOblong .glsl "void main() { mat2x3 a; a = a * a; }"
    ∧ CompilesOblong .glsl "void main() { mat2x3 a; a *= a; }"
    ∧ CompilesOblong .hlsl "void main() { float3x2 a; a = mul(a, a); }" :=
  ⟨compilesOblong (by decide +kernel) (by decide +kernel),
    compilesOblong (by decide +kernel) (by decide +kernel),
    compilesOblong (by decide +kernel) (by decide +kernel)⟩

end ShaderBytecode
