import ShaderBytecode.Proofs.Reading

/-!
# Trees that are read

What is known of a tree that is read from tokens: each node is a stretch of the source that starts
where a token starts, expressions are no deeper than the limit on nesting allows, each array length
is a literal, and structures have members.
-/

namespace ShaderBytecode

/-! ## Spans -/

namespace Ast

mutual

def Expr.Spans (A : Span → Prop) : Expr → Prop
  | .int _ span | .float _ span | .bool _ span | .name _ span => A span
  | .call _ arguments span => A span ∧ Expr.SpansAll A arguments
  | .member base _ span => A span ∧ base.Spans A
  | .index base place span => A span ∧ base.Spans A ∧ place.Spans A
  | .unary _ operand span | .step _ operand span => A span ∧ operand.Spans A
  | .binary _ left right span => A span ∧ left.Spans A ∧ right.Spans A
  | .assign _ target value span => A span ∧ target.Spans A ∧ value.Spans A
  | .ternary condition whenTrue whenFalse span =>
    A span ∧ condition.Spans A ∧ whenTrue.Spans A ∧ whenFalse.Spans A

def Expr.SpansAll (A : Span → Prop) : List Expr → Prop
  | [] => True
  | first :: rest => first.Spans A ∧ Expr.SpansAll A rest

end

variable {A : Span → Prop}

theorem Expr.spansAll_iff {es : List Expr} : Expr.SpansAll A es ↔ ∀ e ∈ es, e.Spans A := by
  induction es with
  | nil => simp [Expr.SpansAll]
  | cons first rest ih => simp [Expr.SpansAll, ih]

structure Declarator.Spans (A : Span → Prop) (d : Declarator) : Prop where
  span : A d.span
  initializer : ∀ e ∈ d.initializer, e.Spans A

structure Variables.Spans (A : Span → Prop) (v : Variables) : Prop where
  type : A v.type.span
  declarators : ∀ d ∈ v.declarators, d.Spans A

structure Member.Spans (A : Span → Prop) (m : Member) : Prop where
  type : A m.type.span
  span : A m.span

structure Parameter.Spans (A : Span → Prop) (p : Parameter) : Prop where
  type : A p.type.span
  span : A p.span

def Simple.Spans (A : Span → Prop) : Simple → Prop
  | .declare v => v.Spans A
  | .expr e => e.Spans A

mutual

def Statement.Spans (A : Span → Prop) : Statement → Prop
  | .block body span => A span ∧ Statement.SpansAll A body
  | .simple s span => A span ∧ s.Spans A
  | .ifThen test body span => A span ∧ test.Spans A ∧ body.Spans A
  | .ifElse test first second span => A span ∧ test.Spans A ∧ first.Spans A ∧ second.Spans A
  | .forLoop start test step body span =>
    A span ∧ (∀ s ∈ start, A s.span ∧ s.value.Spans A) ∧ (∀ e ∈ test, e.Spans A)
      ∧ (∀ e ∈ step, e.Spans A) ∧ body.Spans A
  | .whileLoop test body span => A span ∧ test.Spans A ∧ body.Spans A
  | .doLoop body test span => A span ∧ body.Spans A ∧ test.Spans A
  | .returnFrom value span => A span ∧ ∀ e ∈ value, e.Spans A
  | .breakLoop span | .continueLoop span | .discardPixel span | .empty span => A span

def Statement.SpansAll (A : Span → Prop) : List Statement → Prop
  | [] => True
  | first :: rest => first.Spans A ∧ Statement.SpansAll A rest

end

structure Body.Spans (A : Span → Prop) (b : Body) : Prop where
  span : A b.span
  statements : Statement.SpansAll A b.statements

structure Function.Spans (A : Span → Prop) (f : Function) : Prop where
  returnType : A f.returnType.span
  parameters : ∀ p ∈ f.parameters, p.Spans A
  body : ∀ b ∈ f.body, b.Spans A
  span : A f.span

def Declaration.Spans (A : Span → Prop) : Declaration → Prop
  | .struct s => A s.span ∧ ∀ m ∈ s.members, m.Spans A
  | .declare v => v.Spans A
  | .buffer b => ∀ m ∈ b.members, m.Spans A
  | .function f => f.Spans A

end Ast

/-- A stretch of a source that starts with a token. -/
structure Span.Marked (text : List Char) (tokens : List Token) (s : Span) : Prop where
  within : s.Within text
  token : ∃ t ∈ tokens, t.span.start = s.start

/-! ## Expressions -/

namespace Ast

mutual

/-- The number of operators on the deepest path of an expression. Calls and assignments are on the
path but do not count. -/
def Expr.operatorDepth : Expr → Nat
  | .int _ _ | .float _ _ | .bool _ _ | .name _ _ => 0
  | .call _ arguments _ => Expr.operatorDepthAll arguments
  | .member base _ _ => base.operatorDepth + 1
  | .index base place _ => max base.operatorDepth place.operatorDepth + 1
  | .unary _ operand _ => operand.operatorDepth + 1
  | .binary _ left right _ => max left.operatorDepth right.operatorDepth + 1
  | .assign _ target value _ => max target.operatorDepth value.operatorDepth
  | .ternary condition whenTrue whenFalse _ =>
    max condition.operatorDepth (max whenTrue.operatorDepth whenFalse.operatorDepth) + 1
  | .step _ operand _ => operand.operatorDepth + 1

def Expr.operatorDepthAll : List Expr → Nat
  | [] => 0
  | first :: rest => max first.operatorDepth (Expr.operatorDepthAll rest)

end

theorem Expr.operatorDepthAll_le {limit : Nat} : {all : List Expr} →
    (∀ e ∈ all, e.operatorDepth ≤ limit) → Expr.operatorDepthAll all ≤ limit
  | [], _ => Nat.zero_le _
  | first :: rest, h => by
    obtain ⟨hfirst, hrest⟩ := List.forall_mem_cons.mp h
    exact Nat.max_le.mpr ⟨hfirst, operatorDepthAll_le hrest⟩

def Variables.exprs (v : Variables) : List Expr :=
  v.declarators.filterMap (·.initializer)

def Simple.exprs : Simple → List Expr
  | .declare v => v.exprs
  | .expr e => [e]

mutual

/-- The expressions of a statement. Those inside other expressions are not listed. -/
def Statement.exprs : Statement → List Expr
  | .block body _ => Statement.exprsAll body
  | .simple s _ => s.exprs
  | .ifThen condition body _ | .whileLoop condition body _ | .doLoop body condition _ =>
    condition :: body.exprs
  | .ifElse condition whenTrue whenFalse _ => condition :: (whenTrue.exprs ++ whenFalse.exprs)
  | .forLoop start condition step body _ =>
    (start.map (·.value.exprs)).getD [] ++ condition.toList ++ step.toList ++ body.exprs
  | .returnFrom value _ => value.toList
  | .breakLoop _ | .continueLoop _ | .discardPixel _ | .empty _ => []

def Statement.exprsAll : List Statement → List Expr
  | [] => []
  | first :: rest => first.exprs ++ Statement.exprsAll rest

end

def Declaration.exprs : Declaration → List Expr
  | .declare v => v.exprs
  | .function f => (f.body.map (Statement.exprsAll ·.statements)).getD []
  | .struct _ | .buffer _ => []

end Ast

/-- How deep expressions can be that are read with a budget. -/
def depthLimit (budget : Nat) : Nat :=
  budget ^ 2 - 2

theorem depthLimit_mono {b b' : Nat} (h : b ≤ b') : depthLimit b ≤ depthLimit b' :=
  Nat.sub_le_sub_right (Nat.pow_le_pow_left h 2) 2

theorem depthLimit_le_succ (b : Nat) : depthLimit b ≤ depthLimit (b + 1) :=
  depthLimit_mono (Nat.le_add_right b 1)

theorem square_succ (b : Nat) : (b + 1) ^ 2 = b ^ 2 + 2 * b + 1 := by
  rw [Nat.pow_two, Nat.pow_two, Nat.add_mul, Nat.mul_add]
  omega

/-- One unit of the budget adds twice what there was, and one more. -/
theorem depthLimit_succ {b : Nat} (h : 2 ≤ b) : depthLimit (b + 1) = depthLimit b + 2 * b + 1 := by
  have hsquare : b ≤ b ^ 2 := Nat.le_self_pow (by decide) b
  unfold depthLimit
  rw [square_succ]
  omega

theorem depthLimit_add_le (b : Nat) : depthLimit b + 2 * b ≤ depthLimit (b + 1) := by
  have hsquare : b ≤ b ^ 2 := Nat.le_self_pow (by decide) b
  unfold depthLimit
  rw [square_succ]
  omega

/-! ## What is read -/

def Ground.Length (G : Ground) (length : Option UInt32) : Prop :=
  ∀ n ∈ length, ∃ m, G.token (.int (m + 1)) ∧ n = .ofNat (m + 1)

namespace Ast

/-- An expression that is read. -/
structure Expr.Read (G : Ground) (e : Expr) : Prop where
  spans : e.Spans G.Marked
  depth : e.operatorDepth ≤ depthLimit nestingLimit

structure Declarator.Read (G : Ground) (d : Declarator) : Prop where
  length : G.Length d.length
  initializer : ∀ e ∈ d.initializer, e.Read G
  span : G.Marked d.span

structure Variables.Read (G : Ground) (v : Variables) : Prop where
  type : G.Marked v.type.span
  declarators : ∀ d ∈ v.declarators, d.Read G

structure Member.Read (G : Ground) (m : Member) : Prop where
  type : G.Marked m.type.span
  length : G.Length m.length
  span : G.Marked m.span

structure Parameter.Read (G : Ground) (p : Parameter) : Prop where
  type : G.Marked p.type.span
  length : G.Length p.length
  span : G.Marked p.span

def Simple.Read (G : Ground) : Simple → Prop
  | .declare v => v.Read G
  | .expr e => e.Read G

mutual

def Statement.Read (G : Ground) : Statement → Prop
  | .block body span => G.Marked span ∧ Statement.ReadAll G body
  | .simple s span => G.Marked span ∧ s.Read G
  | .ifThen test body span => G.Marked span ∧ test.Read G ∧ body.Read G
  | .ifElse test first second span => G.Marked span ∧ test.Read G ∧ first.Read G ∧ second.Read G
  | .forLoop start test step body span =>
    G.Marked span ∧ (∀ s ∈ start, G.Marked s.span ∧ s.value.Read G) ∧ (∀ e ∈ test, e.Read G)
      ∧ (∀ e ∈ step, e.Read G) ∧ body.Read G
  | .whileLoop test body span => G.Marked span ∧ test.Read G ∧ body.Read G
  | .doLoop body test span => G.Marked span ∧ body.Read G ∧ test.Read G
  | .returnFrom value span => G.Marked span ∧ ∀ e ∈ value, e.Read G
  | .breakLoop span | .continueLoop span | .discardPixel span | .empty span => G.Marked span

def Statement.ReadAll (G : Ground) : List Statement → Prop
  | [] => True
  | first :: rest => first.Read G ∧ Statement.ReadAll G rest

end

structure Body.Read (G : Ground) (b : Body) : Prop where
  span : G.Marked b.span
  statements : Statement.ReadAll G b.statements

structure Function.Read (G : Ground) (f : Function) : Prop where
  returnType : G.Marked f.returnType.span
  parameters : ∀ p ∈ f.parameters, p.Read G
  body : ∀ b ∈ f.body, b.Read G
  span : G.Marked f.span

structure Structure.Read (G : Ground) (s : Structure) : Prop where
  nonempty : s.members ≠ []
  members : ∀ m ∈ s.members, m.Read G
  span : G.Marked s.span

def Declaration.Read (G : Ground) : Declaration → Prop
  | .struct s => s.Read G
  | .declare v => v.Read G
  | .buffer b => ∀ m ∈ b.members, m.Read G
  | .function f => f.Read G

variable {G : Ground}

theorem Member.Read.spans {m : Member} (h : m.Read G) : m.Spans G.Marked :=
  ⟨h.type, h.span⟩

theorem Variables.Read.spans {v : Variables} (h : v.Read G) : v.Spans G.Marked :=
  ⟨h.type, fun d hd => ⟨(h.declarators d hd).span,
    fun e he => ((h.declarators d hd).initializer e he).spans⟩⟩

theorem Variables.Read.of_mem_exprs {v : Variables} (h : v.Read G) : ∀ e ∈ v.exprs, e.Read G := by
  intro e he
  obtain ⟨d, hd, he⟩ := List.mem_filterMap.mp he
  exact (h.declarators d hd).initializer e he

theorem Simple.Read.spans {s : Simple} (h : s.Read G) : s.Spans G.Marked := by
  cases s with
  | declare v => exact Variables.Read.spans h
  | expr e => exact Expr.Read.spans h

theorem Simple.Read.of_mem_exprs {s : Simple} (h : s.Read G) : ∀ e ∈ s.exprs, e.Read G := by
  cases s with
  | declare v => exact Variables.Read.of_mem_exprs h
  | expr e => exact List.forall_mem_singleton.mpr h

mutual

theorem Statement.Read.spans : {s : Statement} → s.Read G → s.Spans G.Marked
  | .block _ _, h => ⟨h.1, Statement.ReadAll.spans h.2⟩
  | .simple _ _, h => ⟨h.1, h.2.spans⟩
  | .ifThen _ _ _, ⟨hspan, htest, hbody⟩ => ⟨hspan, htest.spans, hbody.spans⟩
  | .ifElse _ _ _ _, ⟨hspan, htest, hfirst, hsecond⟩ =>
    ⟨hspan, htest.spans, hfirst.spans, hsecond.spans⟩
  | .forLoop _ _ _ _ _, ⟨hspan, hstart, htest, hstep, hbody⟩ =>
    ⟨hspan, fun s hs => ⟨(hstart s hs).1, (hstart s hs).2.spans⟩, fun e he => (htest e he).spans,
      fun e he => (hstep e he).spans, hbody.spans⟩
  | .whileLoop _ _ _, ⟨hspan, htest, hbody⟩ => ⟨hspan, htest.spans, hbody.spans⟩
  | .doLoop _ _ _, ⟨hspan, hbody, htest⟩ => ⟨hspan, hbody.spans, htest.spans⟩
  | .returnFrom _ _, ⟨hspan, hvalue⟩ => ⟨hspan, fun e he => (hvalue e he).spans⟩
  | .breakLoop _, h | .continueLoop _, h | .discardPixel _, h | .empty _, h => h

theorem Statement.ReadAll.spans : {all : List Statement} → Statement.ReadAll G all →
    Statement.SpansAll G.Marked all
  | [], _ => trivial
  | _ :: _, h => ⟨h.1.spans, Statement.ReadAll.spans h.2⟩

end

mutual

theorem Statement.Read.of_mem_exprs : {s : Statement} → s.Read G → ∀ e ∈ s.exprs, e.Read G
  | .block _ _, h => Statement.ReadAll.of_mem_exprs h.2
  | .simple _ _, h => h.2.of_mem_exprs
  | .ifThen _ _ _, ⟨_, htest, hbody⟩ => List.forall_mem_cons.mpr ⟨htest, hbody.of_mem_exprs⟩
  | .ifElse _ _ _ _, ⟨_, htest, hfirst, hsecond⟩ => List.forall_mem_cons.mpr
    ⟨htest, List.forall_mem_append.mpr ⟨hfirst.of_mem_exprs, hsecond.of_mem_exprs⟩⟩
  | .forLoop start test step _ _, ⟨_, hstart, htest, hstep, hbody⟩ => by
    have hfirst : ∀ e ∈ (start.map (·.value.exprs)).getD [], e.Read G := by
      cases start with
      | none => exact List.forall_mem_nil _
      | some s => exact (hstart s rfl).2.of_mem_exprs
    simp only [Statement.exprs, List.forall_mem_append, Option.mem_toList]
    exact ⟨⟨⟨hfirst, htest⟩, hstep⟩, hbody.of_mem_exprs⟩
  | .whileLoop _ _ _, ⟨_, htest, hbody⟩ => List.forall_mem_cons.mpr ⟨htest, hbody.of_mem_exprs⟩
  | .doLoop _ _ _, ⟨_, hbody, htest⟩ => List.forall_mem_cons.mpr ⟨htest, hbody.of_mem_exprs⟩
  | .returnFrom _ _, ⟨_, hvalue⟩ => fun e he => hvalue e (Option.mem_toList.mp he)
  | .breakLoop _, _ | .continueLoop _, _ | .discardPixel _, _ | .empty _, _ => List.forall_mem_nil _

theorem Statement.ReadAll.of_mem_exprs : {all : List Statement} → Statement.ReadAll G all →
    ∀ e ∈ Statement.exprsAll all, e.Read G
  | [], _ => List.forall_mem_nil _
  | _ :: _, h =>
    List.forall_mem_append.mpr ⟨h.1.of_mem_exprs, Statement.ReadAll.of_mem_exprs h.2⟩

end

theorem Function.Read.spans {f : Function} (h : f.Read G) : f.Spans G.Marked where
  returnType := h.returnType
  parameters p hp := ⟨(h.parameters p hp).type, (h.parameters p hp).span⟩
  body b hb := ⟨(h.body b hb).span, (h.body b hb).statements.spans⟩
  span := h.span

theorem Declaration.Read.spans {x : Declaration} (h : x.Read G) : x.Spans G.Marked := by
  cases x with
  | struct s => exact ⟨h.span, fun m hm => (h.members m hm).spans⟩
  | declare v => exact Variables.Read.spans h
  | buffer b => exact fun m hm => (h m hm).spans
  | function f => exact Function.Read.spans h

theorem Declaration.Read.of_mem_exprs {x : Declaration} (h : x.Read G) :
    ∀ e ∈ x.exprs, e.Read G := by
  cases x with
  | struct s => exact List.forall_mem_nil _
  | declare v => exact Variables.Read.of_mem_exprs h
  | buffer b => exact List.forall_mem_nil _
  | function f =>
    intro e he
    cases hbody : f.body with
    | none => simp [exprs, hbody] at he
    | some body =>
      simp only [exprs, hbody, Option.map_some, Option.getD_some] at he
      exact (Function.Read.body h body hbody).statements.of_mem_exprs e he

end Ast

end ShaderBytecode
