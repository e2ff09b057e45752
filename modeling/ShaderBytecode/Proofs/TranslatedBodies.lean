import ShaderBytecode.Proofs.TranslatedExpressions

/-!
# Translated bodies

The statements of a function that are spelled anew are typed as the statements are, up to the new
names and lines, and declare the same locals under their new names.
-/

namespace ShaderBytecode

open Typed (Expr Statement)

namespace Translation

variable {T : Translation}

/-! ## Steps -/

section FollowsFrom

variable {σ α β γ δ : Type} {S : σ → σ → Prop}

/-- A step of typing something that is translated does what the step of the source does, from states
that belong together to such states. A refused step, too, leaves such states if what is refused
stays refused. -/
def FollowsFrom (T : Translation) (S : σ → σ → Prop) (R : α → β → Prop)
    (x : EStateM (Located TypingFault) σ α) (x' : EStateM (Located TypingFault) σ β) : Prop :=
  ∀ s s', S s s' → match x s, x' s' with
    | .ok a t, .ok b t' => R a b ∧ S t t'
    | .ok _ _, .error e _ => T.Excused e.value
    | .error e t, .error e' t' => (T.Strict → S t t') ∧ T.Faults e e'
    | .error _ _, .ok _ _ => ¬T.Strict

variable {R : α → β → Prop} {x y : EStateM (Located TypingFault) σ α}
  {x' y' : EStateM (Located TypingFault) σ β}

theorem followsFrom_pure {a : α} {b : β} (h : R a b) : T.FollowsFrom S R (pure a) (pure b) :=
  fun _ _ hstates => ⟨h, hstates⟩

theorem followsFrom_throw {e e' : Located TypingFault} (h : T.Faults e e') :
    T.FollowsFrom S R (throw e) (throw e') :=
  fun _ _ hstates => ⟨fun _ => hstates, h⟩

theorem followsFrom_check {c : Check α} {c' : Check β} : T.Follows R c c' →
    T.FollowsFrom S R (match c with | .ok a => pure a | .error e => throw e)
      (match c' with | .ok b => pure b | .error e => throw e) := by
  intro h s s' hstates
  cases c with
  | ok a =>
    cases c' with
    | ok b => exact ⟨h, hstates⟩
    | error e => exact h
  | error e =>
    cases c' with
    | ok b => exact h
    | error e' => exact ⟨fun _ => hstates, h⟩

theorem FollowsFrom.bind {Q : γ → δ → Prop} {k : α → EStateM (Located TypingFault) σ γ}
    {k' : β → EStateM (Located TypingFault) σ δ} (h : T.FollowsFrom S R x x')
    (h' : ∀ a b, R a b → T.FollowsFrom S Q (k a) (k' b)) :
    T.FollowsFrom S Q (x >>= k) (x' >>= k') := by
  intro s s' hstates
  have hfirst := h s s' hstates
  rw [show (x >>= k) s = EStateM.bind x k s from rfl,
    show (x' >>= k') s' = EStateM.bind x' k' s' from rfl, EStateM.bind, EStateM.bind]
  cases hx : x s with
  | ok a t =>
    cases hx' : x' s' with
    | ok b t' =>
      rw [hx, hx'] at hfirst
      exact h' a b hfirst.1 t t' hfirst.2
    | error e t' =>
      rw [hx, hx'] at hfirst
      have hlax := not_strict hfirst.1
      simp only []
      cases k a t with
      | ok c _ => exact hfirst
      | error e' _ => exact ⟨fun hstrict => absurd hstrict hlax, faults_of_lax hlax _ _⟩
  | error e t =>
    cases hx' : x' s' with
    | ok b t' =>
      rw [hx, hx'] at hfirst
      simp only []
      cases k' b t' with
      | ok d _ => exact hfirst
      | error e' _ => exact ⟨fun hstrict => absurd hstrict hfirst, faults_of_lax hfirst _ _⟩
    | error e' t' =>
      rw [hx, hx'] at hfirst
      exact hfirst

theorem FollowsFrom.next {Q : γ → δ → Prop} {k : α → EStateM (Located TypingFault) σ γ}
    {k' : β → EStateM (Located TypingFault) σ δ} {g : α → β}
    (h : T.FollowsFrom S (fun a b => b = g a) x x')
    (h' : ∀ a, T.FollowsFrom S Q (k a) (k' (g a))) : T.FollowsFrom S Q (x >>= k) (x' >>= k') := by
  refine h.bind ?_
  rintro a _ rfl
  exact h' a

theorem followsFrom_ite {c c' : Prop} [Decidable c] [Decidable c'] (hc : c' ↔ c)
    (hx : T.FollowsFrom S R x x') (hy : T.FollowsFrom S R y y') :
    T.FollowsFrom S R (if c then x else y) (if c' then x' else y') := by
  by_cases h : c
  · rw [if_pos h, if_pos (hc.mpr h)]
    exact hx
  · rw [if_neg h, if_neg (hc.not.mpr h)]
    exact hy

def frameLocal (T : Translation) (l : FrameLocal) : FrameLocal :=
  ⟨T.name l.name, T.spelling.span l.span, l.hidesGlobal⟩

/-- Frames with the same locals under their old and their new names. -/
def Frames (T : Translation) (f f' : List FrameLocal) : Prop :=
  f' = f.map T.frameLocal

/-- A step of typing a translated body does what the step of the body does. -/
abbrev FollowsIn (T : Translation) (R : α → β → Prop) (x : FrameM α) (x' : FrameM β) : Prop :=
  T.FollowsFrom T.Frames R x x'

theorem followsIn_fail {span : Span} {fault fault' : TypingFault}
    (hswizzle : fault'.strangeSwizzle? = fault.strangeSwizzle?) (h : T.Exact → fault' = fault) :
    T.FollowsIn R (FrameM.fail span fault) (FrameM.fail (T.spelling.span span) fault') :=
  followsFrom_throw ⟨h, fun _ => hswizzle, fun _ => .inl rfl⟩

theorem followsIn_ofCheck {c : Check α} {c' : Check β} (h : T.Follows R c c') :
    T.FollowsIn R (.ofCheck c) (.ofCheck c') :=
  followsFrom_check h

end FollowsFrom

/-! ## Locals -/

/-- What becomes of what the statements of a function have in common. -/
def body (T : Translation) (b : BodyEnv) : BodyEnv :=
  ⟨T.target, T.registry b.registry, b.parameterCount, b.returnType.rename T.name⟩

structure FitsBody (T : Translation) (b : BodyEnv) : Prop where
  context : b.context = T.context
  registry : T.Registered b.registry

variable {b : BodyEnv} {scopes : Scopes}

theorem FitsBody.env (hb : T.FitsBody b) (hscopes : T.InSight scopes) : T.Fits (b.env scopes) :=
  ⟨hb.context, hb.registry, hscopes⟩

def Bindings (T : Translation) (x x' : Binding) : Prop :=
  x' = T.binding x ∧ T.Declares x.name

theorem declareLocal_follows (hb : T.FitsBody b) (scopes : Scopes) {n : String}
    (hn : T.Declares n) (type : DataType) (isConst : Bool) (span : Span) :
    T.FollowsIn T.Bindings (b.declareLocal scopes n type isConst span)
      ((T.body b).declareLocal (T.scopes scopes) (T.spelling.word n) (type.rename T.name) isConst
        (T.spelling.span span)) := by
  rw [word_declared hn]
  unfold BodyEnv.declareLocal
  rw [isTaken_scopes]
  intro f f' hframes
  by_cases htaken : scopes.isTaken n = true
  · rw [if_pos htaken, if_pos htaken]
    exact ⟨fun _ => hframes, fun hexact => congrArg TypingFault.duplicateLocal (hexact.name n),
      fun _ => rfl, fun _ => .inl rfl⟩
  · rw [if_neg htaken, if_neg htaken]
    cases hframes
    refine ⟨⟨?_, hn⟩, ?_⟩
    · simp only [binding, body, List.length_map]
    · simp only [Frames, List.map_append, List.map_cons, List.map_nil, frameLocal, body,
        hb.registry.isSome_global? hn]

variable {a : Option Ast.Expr}

theorem startValue_follows (hb : T.FitsBody b) (hscopes : T.InSight scopes) (type : DataType)
    (h : T.AdmitsAll (Ast.Expr.optionUses a)) : T.Maps T.expr (b.startValue scopes type a)
      ((T.body b).startValue (T.scopes scopes) (type.rename T.name)
        (a.map (Ast.Expr.respell T.spelling))) := by
  cases a with
  | some a => exact exprOf_follows (hb.env hscopes) h type .initializer
  | none =>
    exact (code_follows type).next fun code => follows_ok rfl

theorem checkLocal_follows (isConst : Bool) (type : DataType) (d : Ast.Declarator) :
    T.Follows (fun _ _ => True) (BodyEnv.checkLocal isConst type d)
      (BodyEnv.checkLocal isConst (type.rename T.name) (d.respell T.spelling)) := by
  unfold BodyEnv.checkLocal Ast.Declarator.respell
  simp only [Option.isSome_map, Option.isNone_map]
  refine follows_unless (DataType.rename_eq_sampler2D type) rfl ?_ fun _ => ?_
  · intro hexact
    rw [hexact.word]
  refine follows_unless Iff.rfl rfl ?_ fun _ => ?_
  · intro hexact
    rw [hexact.word]
  refine follows_unless Iff.rfl rfl ?_ fun _ => follows_ok trivial
  intro hexact
  rw [hexact.word]

theorem declarator_follows (hb : T.FitsBody b) (hscopes : T.InSight scopes) (isConst : Bool)
    (typeName : Located String) {d : Ast.Declarator} (h : T.AdmitsAll d.uses) :
    T.FollowsIn (fun x x' => T.Bindings x.1 x'.1 ∧ x'.2 = T.expr x.2)
      (b.declarator scopes isConst typeName d)
      ((T.body b).declarator (T.scopes scopes) isConst (T.spelling.name typeName)
        (d.respell T.spelling)) := by
  obtain ⟨hhead, hinitializer⟩ := admitsAll_append.mp h
  obtain ⟨hname, -⟩ := admitsAll_cons.mp hhead
  refine (followsIn_ofCheck (resolveValueType_follows (hb.env hscopes) typeName d.length
    .localVariable)).next fun type => ?_
  refine (followsIn_ofCheck (checkLocal_follows isConst type d)).bind fun _ _ _ => ?_
  refine (followsIn_ofCheck (startValue_follows hb hscopes type hinitializer)).next fun value => ?_
  refine (declareLocal_follows hb scopes hname type isConst _).bind fun x x' hx => ?_
  exact followsFrom_pure ⟨hx, rfl⟩

structure Statements (T : Translation) (x x' : List Statement × Scopes) : Prop where
  statements : x'.1 = Statement.relabelAll T.labels x.1
  scopes : x'.2 = T.scopes x.2
  inSight : T.InSight x.2

theorem declarators_follows (hb : T.FitsBody b) (isConst : Bool) (typeName : Located String)
    {ds : List Ast.Declarator} (h : T.AdmitsAll (ds.flatMap Ast.Declarator.uses))
    (hscopes : T.InSight scopes) :
    T.FollowsIn T.Statements (b.declarators isConst typeName scopes ds)
      ((T.body b).declarators isConst (T.spelling.name typeName) (T.scopes scopes)
        (ds.map (Ast.Declarator.respell T.spelling))) := by
  induction ds generalizing scopes with
  | nil => exact followsFrom_pure ⟨rfl, rfl, hscopes⟩
  | cons first rest ih =>
    rw [List.flatMap_cons] at h
    obtain ⟨hfirst, hrest⟩ := admitsAll_append.mp h
    rw [List.map_cons, BodyEnv.declarators, BodyEnv.declarators]
    refine (declarator_follows hb hscopes isConst typeName hfirst).bind ?_
    rintro ⟨x, value⟩ ⟨_, _⟩ ⟨⟨rfl, hdeclared⟩, rfl⟩
    have hmore := ih hrest (hscopes.bind hdeclared)
    rw [scopes_bind] at hmore
    refine hmore.bind ?_
    rintro ⟨more, after⟩ ⟨_, _⟩ ⟨rfl, rfl, hinSight⟩
    refine followsFrom_pure ⟨?_, rfl, hinSight⟩
    simp only [Ast.Declarator.respell, T.line_span]
    rfl

theorem localIsConst_follows (v : Ast.Variables) :
    T.Follows (fun c c' => c' = c) (BodyEnv.localIsConst v)
      (BodyEnv.localIsConst (v.respell T.spelling)) := by
  obtain ⟨storage, layout, type, declarators⟩ := v
  have hlayout : ∀ isConst, T.Follows (fun c c' : Bool => c' = c)
      (if layout.isEmpty then return isConst else .fail type.span .localLayout)
      (if (layout.map T.spelling.layoutEntry).isEmpty then return isConst
        else .fail (T.spelling.name type).span .localLayout) := by
    intro isConst
    rw [List.isEmpty_map]
    exact follows_require Iff.rfl rfl rfl fun _ => rfl
  unfold BodyEnv.localIsConst Ast.Variables.respell
  simp only []
  cases storage with
  | none => exact hlayout false
  | some storage =>
    cases storage with
    | const => exact hlayout true
    | _ => exact follows_fail rfl fun _ => rfl

structure After (T : Translation) (x x' : Statement × Scopes) : Prop where
  statement : x'.1 = x.1.relabel T.labels
  scopes : x'.2 = T.scopes x.2
  inSight : T.InSight x.2

theorem declareLocals_follows (hb : T.FitsBody b) (hscopes : T.InSight scopes) (line : Nat)
    {v : Ast.Variables} (h : T.AdmitsAll v.uses) :
    T.FollowsIn T.After (b.declareLocals scopes line v)
      ((T.body b).declareLocals (T.scopes scopes) (T.line line) (v.respell T.spelling)) := by
  refine (followsIn_ofCheck (localIsConst_follows v)).bind ?_
  rintro _ isConst rfl
  refine (declarators_follows hb isConst v.type (admitsAll_append.mp h).2 hscopes).bind ?_
  rintro ⟨declared, after⟩ ⟨_, _⟩ ⟨rfl, rfl, hinSight⟩
  -- Only a single declaration is taken out of its block.
  match declared with
  | [] => exact followsFrom_pure ⟨rfl, rfl, hinSight⟩
  | [only] => cases only <;> exact followsFrom_pure ⟨rfl, rfl, hinSight⟩
  | first :: _ :: _ => cases first <;> exact followsFrom_pure ⟨rfl, rfl, hinSight⟩

theorem simple_follows (hb : T.FitsBody b) (hscopes : T.InSight scopes) (line : Nat)
    {s : Ast.Simple} (h : T.AdmitsAll s.uses) :
    T.FollowsIn T.After (b.simple scopes line s)
      ((T.body b).simple (T.scopes scopes) (T.line line) (s.respell T.spelling)) := by
  cases s with
  | declare v => exact declareLocals_follows hb hscopes line h
  | expr a =>
    exact (followsIn_ofCheck (expr_follows (hb.env hscopes) a h)).next fun value =>
      followsFrom_pure ⟨rfl, rfl, hscopes⟩

theorem loopStart_follows (hb : T.FitsBody b) (hscopes : T.InSight scopes)
    {start : Option (Located Ast.Simple)} (h : T.AdmitsAll (Ast.Simple.optionUses start)) :
    T.FollowsIn T.Statements (b.loopStart scopes start)
      ((T.body b).loopStart (T.scopes scopes) (start.map (Ast.Simple.respellAt T.spelling))) := by
  cases start with
  | none => exact followsFrom_pure ⟨rfl, rfl, hscopes⟩
  | some start =>
    simp only [Option.map_some, BodyEnv.loopStart, Ast.Simple.respellAt, T.line_span]
    refine (simple_follows hb hscopes start.span.line h).bind ?_
    rintro ⟨first, after⟩ ⟨_, _⟩ ⟨rfl, rfl, hinSight⟩
    exact followsFrom_pure ⟨rfl, rfl, hinSight⟩

theorem optionalExpr_follows (hb : T.FitsBody b) (hscopes : T.InSight scopes)
    (h : T.AdmitsAll (Ast.Expr.optionUses a)) : T.Maps (Option.map T.expr) (b.optionalExpr scopes a)
      ((T.body b).optionalExpr (T.scopes scopes) (a.map (Ast.Expr.respell T.spelling))) := by
  cases a with
  | none => exact follows_ok rfl
  | some a =>
    exact (expr_follows (hb.env hscopes) a h).next fun t => follows_ok rfl

theorem optionalCondition_follows (hb : T.FitsBody b) (hscopes : T.InSight scopes)
    (h : T.AdmitsAll (Ast.Expr.optionUses a)) :
    T.Maps (Option.map T.expr) (b.optionalCondition scopes a)
      ((T.body b).optionalCondition (T.scopes scopes) (a.map (Ast.Expr.respell T.spelling))) := by
  cases a with
  | none => exact follows_ok rfl
  | some a =>
    exact (conditionExpr_follows (hb.env hscopes) h).next fun t => follows_ok rfl

theorem result_follows (hb : T.FitsBody b) (hscopes : T.InSight scopes) (span : Span)
    (h : T.AdmitsAll (Ast.Expr.optionUses a)) : T.Maps (Option.map T.expr) (b.result scopes span a)
      ((T.body b).result (T.scopes scopes) (T.spelling.span span)
        (a.map (Ast.Expr.respell T.spelling))) := by
  have hvoid : (T.body b).returnType.isVoid = b.returnType.isVoid :=
    DataType.isVoid_rename b.returnType
  cases a with
  | none =>
    simp only [Option.map_none, BodyEnv.result, hvoid]
    refine follows_require Iff.rfl rfl rfl ?_
    exact fun hexact => congrArg TypingFault.resultMissing (hexact.rename b.returnType)
  | some a =>
    simp only [Option.map_some, BodyEnv.result, hvoid]
    refine follows_unless Iff.rfl rfl (fun _ => rfl) fun _ => ?_
    exact (exprOf_follows (hb.env hscopes) h b.returnType .result).next fun t => follows_ok rfl

/-! ## Statements -/

theorem branch_relabel (a : Ast.Statement) (s : Statement) :
    BodyEnv.branch (a.respell T.spelling) (s.relabel T.labels)
      = Statement.relabelAll T.labels (BodyEnv.branch a s) := by
  cases a with
  | block body span => cases s <;> rfl
  | _ => rfl

mutual

theorem statement_follows (hb : T.FitsBody b) (inLoop : Bool) (scopes : Scopes)
    (hscopes : T.InSight scopes) : (a : Ast.Statement) → T.AdmitsAll a.uses →
      T.FollowsIn T.After (b.statement inLoop scopes a)
        ((T.body b).statement inLoop (T.scopes scopes) (a.respell T.spelling))
  | .block body span, h => by
    simp only [Ast.Statement.respell, BodyEnv.statement]
    exact (statements_follows hb inLoop ([] :: scopes) hscopes.push body h).next fun body =>
      followsFrom_pure ⟨rfl, rfl, hscopes⟩
  | .simple s span, h => by
    simp only [Ast.Statement.respell, BodyEnv.statement, T.line_span]
    exact simple_follows hb hscopes span.line h
  | .ifThen test body span, h => by
    obtain ⟨htest, hbody⟩ := admitsAll_append.mp h
    simp only [Ast.Statement.respell, BodyEnv.statement, T.line_span]
    refine (followsIn_ofCheck (conditionExpr_follows (hb.env hscopes) htest)).next fun t => ?_
    refine (statement_follows hb inLoop ([] :: scopes) hscopes.push body hbody).bind ?_
    -- The scopes behind a branch are dropped with it.
    rintro ⟨s, after⟩ ⟨_, _⟩ ⟨rfl, -, -⟩
    refine followsFrom_pure ⟨?_, rfl, hscopes⟩
    rw [branch_relabel]
    rfl
  | .ifElse test first second span, h => by
    obtain ⟨hboth, hsecond⟩ := admitsAll_append.mp h
    obtain ⟨htest, hfirst⟩ := admitsAll_append.mp hboth
    simp only [Ast.Statement.respell, BodyEnv.statement, T.line_span]
    refine (followsIn_ofCheck (conditionExpr_follows (hb.env hscopes) htest)).next fun t => ?_
    refine (statement_follows hb inLoop ([] :: scopes) hscopes.push first hfirst).bind ?_
    rintro ⟨s, after⟩ ⟨_, _⟩ ⟨rfl, -, -⟩
    refine (statement_follows hb inLoop ([] :: scopes) hscopes.push second hsecond).bind ?_
    rintro ⟨s', after'⟩ ⟨_, _⟩ ⟨rfl, -, -⟩
    refine followsFrom_pure ⟨?_, rfl, hscopes⟩
    rw [branch_relabel, branch_relabel]
    rfl
  | .forLoop start test step body span, h => by
    obtain ⟨hheader, hbody⟩ := admitsAll_append.mp h
    obtain ⟨hstartTest, hstep⟩ := admitsAll_append.mp hheader
    obtain ⟨hstart, htest⟩ := admitsAll_append.mp hstartTest
    simp only [Ast.Statement.respell, BodyEnv.statement, T.line_span]
    refine (loopStart_follows hb hscopes.push hstart).bind ?_
    rintro ⟨first, inner⟩ ⟨_, _⟩ ⟨rfl, rfl, hinner⟩
    refine (followsIn_ofCheck (optionalCondition_follows hb hinner htest)).next fun t => ?_
    refine (followsIn_ofCheck (optionalExpr_follows hb hinner hstep)).next fun u => ?_
    refine (statement_follows hb true ([] :: inner) hinner.push body hbody).bind ?_
    rintro ⟨s, after⟩ ⟨_, _⟩ ⟨rfl, -, -⟩
    refine followsFrom_pure ⟨?_, rfl, hscopes⟩
    rw [branch_relabel]
    simp only [Statement.relabel, Statement.relabelAll_eq_map, List.map_append, List.map_cons,
      List.map_nil]
    rfl
  | .whileLoop test body span, h => by
    obtain ⟨htest, hbody⟩ := admitsAll_append.mp h
    simp only [Ast.Statement.respell, BodyEnv.statement, T.line_span]
    refine (followsIn_ofCheck (conditionExpr_follows (hb.env hscopes) htest)).next fun t => ?_
    refine (statement_follows hb true ([] :: scopes) hscopes.push body hbody).bind ?_
    rintro ⟨s, after⟩ ⟨_, _⟩ ⟨rfl, -, -⟩
    refine followsFrom_pure ⟨?_, rfl, hscopes⟩
    rw [branch_relabel]
    rfl
  | .doLoop body test span, h => by
    obtain ⟨htest, hbody⟩ := admitsAll_append.mp h
    simp only [Ast.Statement.respell, BodyEnv.statement, T.line_span]
    refine (statement_follows hb true ([] :: scopes) hscopes.push body hbody).bind ?_
    rintro ⟨s, after⟩ ⟨_, _⟩ ⟨rfl, -, -⟩
    refine (followsIn_ofCheck (conditionExpr_follows (hb.env hscopes) htest)).next fun t => ?_
    refine followsFrom_pure ⟨?_, rfl, hscopes⟩
    rw [branch_relabel]
    rfl
  | .returnFrom value span, h => by
    simp only [Ast.Statement.respell, BodyEnv.statement, T.line_span]
    exact (followsIn_ofCheck (result_follows hb hscopes span h)).next fun t =>
      followsFrom_pure ⟨rfl, rfl, hscopes⟩
  | .breakLoop span, _ => by
    simp only [Ast.Statement.respell, BodyEnv.statement, T.line_span]
    exact followsFrom_ite Iff.rfl (followsFrom_pure ⟨rfl, rfl, hscopes⟩)
      (followsIn_fail rfl fun _ => rfl)
  | .continueLoop span, _ => by
    simp only [Ast.Statement.respell, BodyEnv.statement, T.line_span]
    exact followsFrom_ite Iff.rfl (followsFrom_pure ⟨rfl, rfl, hscopes⟩)
      (followsIn_fail rfl fun _ => rfl)
  | .discardPixel span, _ => by
    simp only [Ast.Statement.respell, BodyEnv.statement, T.line_span, hb.context]
    exact followsFrom_ite Iff.rfl (followsFrom_pure ⟨rfl, rfl, hscopes⟩)
      (followsIn_fail rfl fun _ => rfl)
  | .empty _, _ => followsFrom_pure ⟨rfl, rfl, hscopes⟩

theorem statements_follows (hb : T.FitsBody b) (inLoop : Bool) (scopes : Scopes)
    (hscopes : T.InSight scopes) : (as : List Ast.Statement) →
      T.AdmitsAll (Ast.Statement.usesAll as) →
        T.FollowsIn (fun x x' => x' = Statement.relabelAll T.labels x)
          (b.statements inLoop scopes as)
          ((T.body b).statements inLoop (T.scopes scopes) (Ast.Statement.respellAll T.spelling as))
  | [], _ => followsFrom_pure rfl
  | first :: rest, h => by
    obtain ⟨hfirst, hrest⟩ := admitsAll_append.mp h
    simp only [Ast.Statement.respellAll, BodyEnv.statements]
    refine (statement_follows hb inLoop scopes hscopes first hfirst).bind ?_
    rintro ⟨s, after⟩ ⟨_, _⟩ ⟨rfl, rfl, hinSight⟩
    exact (statements_follows hb inLoop after hinSight rest hrest).next fun more =>
      followsFrom_pure rfl

end

end Translation

end ShaderBytecode
