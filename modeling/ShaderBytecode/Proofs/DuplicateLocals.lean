import ShaderBytecode.Proofs.LexicalScopes

/-!
# Locals declared twice

While a body is typed, each scope on the stack holds the locals that the text declares in it so far.
So a declaration is refused as a duplicate just if its scope declares the name already, where the
outermost block and the parameters are one scope. No check of an expression or of a type refuses
anything for that reason.
-/

namespace ShaderBytecode

open Typed (Expr Place Registry Statement)

/-! ## Locals of a body -/

namespace Ast.Function

variable (f : Ast.Function)

/-- The name of a local is declared in its scope already. The outermost block and the parameters are
one scope. -/
def Taken (declared : List Local) (l : Local) : Prop :=
  (∃ other ∈ declared, other.scope = l.scope ∧ other.name = l.name)
    ∨ l.scope = 0 ∧ l.name ∈ f.sight.map (·.1)

/-- None of some locals has a name that is taken where it is declared. -/
def Apart (declared : List Local) : Prop :=
  ∀ before l after, declared = before ++ l :: after → ¬f.Taken before l

/-- A body is refused after some of its locals are declared. If it is refused as one that declares a
local twice, the name of the next local is taken. -/
structure Refused (all : List Local) (e : Located TypingFault) (reached : List Local) : Prop where
  within : reached <+: all
  apart : f.Apart reached
  taken : ∀ name, e.value = .duplicateLocal name →
    ∃ l, reached ++ [l] <+: all ∧ f.Taken reached l ∧ l.place = (name, e.span)

/-- A body declares a name that is taken, at a certain place behind locals that stand apart. -/
def DeclaresTwice (body : Body) (name : String) (span : Span) : Prop :=
  ∃ before l, before ++ [l] <+: body.places ∧ f.Apart before ∧ f.Taken before l
    ∧ l.place = (name, span)

variable {f} {declared : List Local}

theorem apart_nil : f.Apart [] := by
  intro before l after h
  cases before <;> cases h

theorem Apart.concat (h : f.Apart declared) {l : Local} (hl : ¬f.Taken declared l) :
    f.Apart (declared ++ [l]) := by
  intro before other after heq
  obtain rfl | ⟨last, final, rfl⟩ := after.eq_nil_or_concat'
  · obtain ⟨rfl, hlast⟩ := List.append_inj' heq rfl
    cases hlast
    exact hl
  · rw [← List.cons_append, ← List.append_assoc] at heq
    exact h before other last (List.append_inj_left' heq rfl)

end Ast.Function

/-! ## Steps -/

namespace FrameM

open Ast (Local)

variable {α β : Type} {f : Ast.Function} {declared added more : List Local}

/-- A step adds certain locals to the frame, none of which is taken, or it is refused after some of
them. -/
def Separates (f : Ast.Function) (step : FrameM α) (declared added : List Local) (P : α → Prop) :
    Prop :=
  ∀ frame, frame.map placeOf = declared.map Local.place → f.Apart declared →
    match step.run frame with
    | .ok a frame' => frame'.map placeOf = (declared ++ added).map Local.place
      ∧ f.Apart (declared ++ added) ∧ P a
    | .error e frame' => ∃ reached, frame'.map placeOf = reached.map Local.place
      ∧ f.Refused (declared ++ added) e reached

variable {P : α → Prop} {Q : β → Prop} {next : α → FrameM β}

theorem separates_pure {a : α} (h : P a) : Separates f (pure a) declared [] P := by
  intro frame hframe hapart
  rw [List.append_nil]
  exact ⟨hframe, hapart, h⟩

theorem separates_throw {e : Located TypingFault} (h : ∀ name, e.value ≠ .duplicateLocal name) :
    Separates f (throw e) declared added P :=
  fun _ hframe hapart => ⟨declared, hframe, List.prefix_append .., hapart,
    fun name hname => absurd hname (h name)⟩

theorem Separates.bind {step : FrameM α} (h : Separates f step declared added P)
    (h' : ∀ a, P a → Separates f (next a) (declared ++ added) more Q) :
    Separates f (step >>= next) declared (added ++ more) Q := by
  intro frame hframe hapart
  have hstep := h frame hframe hapart
  rw [EStateM.run_bind, ← List.append_assoc]
  cases hrun : step.run frame with
  | ok a frame' =>
    rw [hrun] at hstep
    exact h' a hstep.2.2 frame' hstep.1 hstep.2.1
  | error e frame' =>
    rw [hrun] at hstep
    obtain ⟨reached, hreached, hrefused⟩ := hstep
    refine ⟨reached, hreached, hrefused.within.trans (List.prefix_append ..), hrefused.apart, ?_⟩
    intro name hname
    obtain ⟨l, hl, htaken⟩ := hrefused.taken name hname
    exact ⟨l, hl.trans (List.prefix_append ..), htaken⟩

theorem Separates.finish {step : FrameM α} (h : Separates f step declared added P)
    (h' : ∀ a, P a → Separates f (next a) (declared ++ added) [] Q) :
    Separates f (step >>= next) declared added Q := by
  have hbind := h.bind h'
  rwa [List.append_nil] at hbind

theorem Separates.check {r r' : Check α} (h : r.Carries r' P)
    (h' : ∀ a, Separates f (next a) declared added Q) :
    Separates f (FrameM.ofCheck r >>= next) declared added Q := by
  cases r with
  | ok a => exact h' a
  | error e => exact separates_throw (h.ne_duplicateLocal e rfl)

end FrameM

/-! ## Scopes -/

namespace BodyEnv

open Ast (Local Numbered)
open Env (permits_all)
open FrameM (Separates separates_pure separates_throw)

/-- A scope holds the locals that are declared in the scope with a number. -/
def Lists (declared : List Local) (scope : Nat) (inner : List Binding) : Prop :=
  ∀ name, Scopes.declares inner name = true ↔ ∃ l ∈ declared, l.scope = scope ∧ l.name = name

/-- The scopes of a body hold the locals that are declared in the scopes with certain numbers. The
outermost of them stands before the parameters. -/
inductive Stacked (f : Ast.Function) (declared : List Local) : List Nat → Scopes → Prop
  | body {inner parameters : List Binding} (hinner : Lists declared 0 inner)
      (hparameters : ∀ name, Scopes.declares parameters name = true ↔ name ∈ f.sight.map (·.1)) :
      Stacked f declared [0] [inner, parameters]
  | push {scope : Nat} {around : List Nat} {inner : List Binding} {outer : Scopes}
      (hscope : scope ≠ 0) (hinner : Lists declared scope inner)
      (houter : Stacked f declared around outer) :
      Stacked f declared (scope :: around) (inner :: outer)

variable {f : Ast.Function} {declared more : List Local} {scope next : Nat} {around : List Nat}
variable {scopes : Scopes}

theorem Lists.behind {inner : List Binding} (h : Lists declared scope inner)
    (hmore : ∀ l ∈ more, l.scope ≠ scope) : Lists (declared ++ more) scope inner := by
  intro name
  rw [h name]
  constructor
  · rintro ⟨l, hl, hmatch⟩
    exact ⟨l, List.mem_append_left _ hl, hmatch⟩
  · rintro ⟨l, hl, hmatch⟩
    obtain hl | hl := List.mem_append.mp hl
    · exact ⟨l, hl, hmatch⟩
    · exact absurd hmatch.1 (hmore l hl)

theorem Lists.bind {inner : List Binding} (h : Lists declared scope inner) (x : Binding)
    (span : Span) : Lists (declared ++ [⟨scope, x.name, span⟩]) scope (x :: inner) := by
  intro name
  have hinner := h name
  simp only [Scopes.declares, List.any_cons, Bool.or_eq_true, decide_eq_true_eq] at hinner ⊢
  rw [hinner]
  simp only [List.mem_append, List.mem_singleton, or_and_right, exists_or, exists_eq_left,
    true_and, or_comm]

theorem Stacked.behind (h : Stacked f declared around scopes)
    (hmore : ∀ l ∈ more, l.scope ∉ around) : Stacked f (declared ++ more) around scopes := by
  induction h with
  | body hinner hparameters =>
    refine .body (hinner.behind fun l hl hscope => hmore l hl ?_) hparameters
    rw [hscope]
    exact List.mem_singleton_self 0
  | push hscope hinner _ ih =>
    refine .push hscope (hinner.behind fun l hl hmem => hmore l hl ?_)
      (ih fun l hl hmem => hmore l hl (List.mem_cons_of_mem _ hmem))
    exact hmem ▸ List.mem_cons_self ..

theorem Stacked.bind (h : Stacked f declared (scope :: around) scopes) (hscope : scope ∉ around)
    (x : Binding) (span : Span) :
    Stacked f (declared ++ [⟨scope, x.name, span⟩]) (scope :: around) (scopes.bind x) := by
  cases h with
  | body hinner hparameters => exact .body (hinner.bind x span) hparameters
  | push hne hinner houter =>
    exact .push hne (hinner.bind x span)
      (houter.behind fun l hl => List.mem_singleton.mp hl ▸ hscope)

/-- A scope is entered with the next number. -/
theorem Stacked.enter (h : Stacked f declared around scopes)
    (hnumbers : Numbered declared around next) :
    Stacked f declared (next :: around) ([] :: scopes) := by
  have hpos : next ≠ 0 := by
    rintro rfl
    cases h with
    | body => exact Nat.not_lt_zero _ (hnumbers.scopes 0 (List.mem_cons_self ..))
    | push => exact Nat.not_lt_zero _ (hnumbers.scopes _ (List.mem_cons_self ..))
  refine .push hpos (fun name => ⟨nofun, ?_⟩) h
  rintro ⟨l, hl, hscope, -⟩
  exact absurd (hnumbers.locals l hl) (hscope ▸ Nat.lt_irrefl next)

theorem Stacked.exists_cons (h : Stacked f declared around scopes) :
    ∃ inner outer rest, scopes = inner :: outer :: rest := by
  induction h with
  | body => exact ⟨_, _, [], rfl⟩
  | push _ _ _ ih =>
    obtain ⟨inner, outer, rest, rfl⟩ := ih
    exact ⟨_, _, _, rfl⟩

theorem Stacked.isTaken_iff (h : Stacked f declared (scope :: around) scopes) (name : String)
    (span : Span) : scopes.isTaken name = true ↔ f.Taken declared ⟨scope, name, span⟩ := by
  cases h with
  | body hinner hparameters =>
    rw [Scopes.isTaken, Bool.or_eq_true, hinner, hparameters]
    simp [Ast.Function.Taken]
  | push hscope hinner houter =>
    obtain ⟨second, third, rest, rfl⟩ := houter.exists_cons
    show Scopes.declares _ name = true ↔ _
    rw [hinner]
    simp [Ast.Function.Taken, hscope]

/-! ## Bodies -/

variable {b : BodyEnv}

variable {isConst : Bool}

/-- A declaration is refused as a second one just if its name is taken. -/
theorem declareLocal_eq_error_iff (h : Stacked f declared (scope :: around) scopes) {name : String}
    {type : DataType} {span : Span} {frame : List FrameLocal} :
    (b.declareLocal scopes name type isConst span).run frame
        = .error ⟨.duplicateLocal name, span⟩ frame
      ↔ f.Taken declared ⟨scope, name, span⟩ := by
  rw [← h.isTaken_iff name span]
  unfold declareLocal
  by_cases hname : scopes.isTaken name = true
  · rw [if_pos hname]
    exact ⟨fun _ => hname, fun _ => rfl⟩
  · rw [if_neg hname]
    exact ⟨nofun, fun h => absurd h hname⟩

/-- A local is declared unless its name is taken. -/
theorem declareLocal_separates (h : Stacked f declared (scope :: around) scopes) {name : String}
    {type : DataType} {span : Span} :
    Separates f (b.declareLocal scopes name type isConst span) declared [⟨scope, name, span⟩]
      fun x => x.name = name := by
  intro frame hframe hapart
  have htaken := h.isTaken_iff name span
  unfold declareLocal
  by_cases hname : scopes.isTaken name = true
  · rw [if_pos hname]
    refine ⟨declared, hframe, List.prefix_append .., hapart, ?_⟩
    rintro _ ⟨⟩
    exact ⟨_, List.prefix_rfl, htaken.mp hname, rfl⟩
  · rw [if_neg hname]
    refine ⟨?_, hapart.concat (htaken.not.mp hname), rfl⟩
    rw [List.map_append, List.map_append, ← hframe]
    rfl

theorem declarators_separates {typeName : Located String} (hscope : scope ∉ around)
    (ds : List Ast.Declarator) {declared : List Local} {scopes : Scopes}
    (h : Stacked f declared (scope :: around) scopes) :
    Separates f (b.declarators isConst typeName scopes ds) declared
      (Ast.Declarator.places scope ds) fun found =>
        Stacked f (declared ++ Ast.Declarator.places scope ds) (scope :: around) found.2 := by
  induction ds generalizing declared scopes with
  | nil => exact separates_pure (by rwa [Ast.Declarator.places, List.map_nil, List.append_nil])
  | cons first rest ih =>
    have hfirst : Separates f (b.declarator scopes isConst typeName first) declared
        [⟨scope, first.name, first.span⟩] fun found => found.1.name = first.name :=
      .check (Env.resolveValueType_carries (.refl _ _)) fun type =>
        .check checkLocal_settles fun _ =>
          .check (startValue_reaches permits_all (.refl _ _) _) fun value =>
            (declareLocal_separates h).finish fun x hx => separates_pure hx
    refine hfirst.bind fun found hfound => ?_
    have hbound := h.bind hscope found.1 first.span
    rw [hfound] at hbound
    refine (ih hbound).finish fun more hmore => separates_pure ?_
    rwa [List.append_assoc] at hmore

theorem simple_separates (hscope : scope ∉ around) (h : Stacked f declared (scope :: around) scopes)
    {line : Nat} (s : Ast.Simple) :
    Separates f (b.simple scopes line s) declared (s.places scope) fun found =>
      Stacked f (declared ++ s.places scope) (scope :: around) found.2 := by
  cases s with
  | expr e =>
    exact .check (Env.expr_reaches permits_all (.refl _ _) e) fun _ =>
      separates_pure (by rwa [Ast.Simple.places, List.append_nil])
  | declare v =>
    refine .check localIsConst_settles fun isConst =>
      (declarators_separates hscope v.declarators h).finish fun found hfound => ?_
    obtain ⟨typed, scopes'⟩ := found
    simp only []
    split
    · exact separates_pure hfound
    · exact separates_pure hfound

theorem loopStart_separates (hscope : scope ∉ around)
    (h : Stacked f declared (scope :: around) scopes) (start : Option (Located Ast.Simple)) :
    Separates f (b.loopStart scopes start) declared (Ast.startPlaces scope start) fun found =>
      Stacked f (declared ++ Ast.startPlaces scope start) (scope :: around) found.2 := by
  cases start with
  | none => exact separates_pure (by simpa [Ast.startPlaces] using h)
  | some start =>
    exact (simple_separates hscope h start.value).finish fun found hfound => separates_pure hfound

/-- What is declared in further scopes is not in those that are open. -/
theorem Stacked.leave (h : Stacked f declared around scopes)
    (hnumbers : Numbered declared around next) (hmore : ∀ l ∈ more, next ≤ l.scope) :
    Stacked f (declared ++ more) around scopes :=
  h.behind fun l hl hmem => Nat.not_lt.mpr (hmore l hl) (hnumbers.scopes _ hmem)

mutual

/-- A statement declares its locals unless the name of one is taken, and leaves the scopes with
those that it declares in the innermost. -/
theorem statement_separates {declared : List Local} {scope next : Nat} {outer : List Nat}
    {scopes : Scopes} (inLoop : Bool) (hnumbers : Numbered declared (scope :: outer) next)
    (h : Stacked f declared (scope :: outer) scopes) : (s : Ast.Statement) →
      Separates f (b.statement inLoop scopes s) declared (s.places scope next) fun found =>
        Stacked f (declared ++ s.places scope next) (scope :: outer) found.2
  | .block body _ => by
    refine (statements_separates inLoop hnumbers.push (h.enter hnumbers) body).finish fun _ _ =>
      separates_pure (h.leave hnumbers fun l hl => ?_)
    have hscope := Ast.Statement.scope_of_mem_placesAll body hl
    omega
  | .simple s _ => simple_separates (List.nodup_cons.mp hnumbers.nodup).1 h s
  | .ifThen test body _ =>
    .check (Env.conditionExpr_reaches permits_all (.refl _ _) test) fun _ =>
      (statement_separates inLoop hnumbers.push (h.enter hnumbers) body).finish fun _ _ =>
        separates_pure (h.leave hnumbers fun _ hl => Ast.Statement.le_of_mem_places hl)
  | .whileLoop test body _ =>
    .check (Env.conditionExpr_reaches permits_all (.refl _ _) test) fun _ =>
      (statement_separates true hnumbers.push (h.enter hnumbers) body).finish fun _ _ =>
        separates_pure (h.leave hnumbers fun _ hl => Ast.Statement.le_of_mem_places hl)
  | .doLoop body test _ =>
    (statement_separates true hnumbers.push (h.enter hnumbers) body).finish fun _ _ =>
      .check (Env.conditionExpr_reaches permits_all (.refl _ _) test) fun _ =>
        separates_pure (h.leave hnumbers fun _ hl => Ast.Statement.le_of_mem_places hl)
  | .ifElse test first second _ => by
    -- The second branch is numbered behind all scopes of the first.
    have hplaces : ∀ l ∈ first.places next (next + 1), next ≤ l.scope
        ∧ l.scope < next + (1 + first.scopeCount) := by
      intro l hl
      have hscope := first.scope_of_mem_places hl
      omega
    have hnumbers' := hnumbers.extend fun l hl => (hplaces l hl).2
    have hbehind := h.leave hnumbers fun l hl => (hplaces l hl).1
    rw [← Nat.add_assoc] at hnumbers'
    refine .check (Env.conditionExpr_reaches permits_all (.refl _ _) test) fun _ =>
      (statement_separates inLoop hnumbers.push (h.enter hnumbers) first).bind fun _ _ =>
        (statement_separates inLoop hnumbers'.push (hbehind.enter hnumbers') second).finish
          fun _ _ => separates_pure (h.leave hnumbers fun l hl => ?_)
    obtain hl | hl := List.mem_append.mp hl
    · exact (hplaces l hl).1
    · have hscope := Ast.Statement.le_of_mem_places hl
      omega
  | .forLoop start test step body _ => by
    -- The start of a loop has a scope of its own, and the body another one in it.
    have hscope := (List.nodup_cons.mp hnumbers.push.nodup).1
    have hinner : Numbered (declared ++ Ast.startPlaces next start) (next :: scope :: outer)
        (next + 1 + 0) := by
      refine hnumbers.push.extend fun l hl => ?_
      have hplace := Ast.scope_of_mem_startPlaces hl
      omega
    refine (loopStart_separates hscope (h.enter hnumbers) start).bind fun found hfound =>
      .check (optionalCondition_reaches permits_all (.refl _ _) test) fun _ =>
        .check (optionalExpr_reaches permits_all (.refl _ _) step) fun _ =>
         (statement_separates true hinner.push (hfound.enter hinner) body).finish
          fun _ _ => separates_pure (h.leave hnumbers fun l hl => ?_)
    obtain hl | hl := List.mem_append.mp hl
    · exact (Ast.scope_of_mem_startPlaces hl).ge
    · exact (Nat.le_succ next).trans (Ast.Statement.le_of_mem_places hl)
  | .returnFrom value _ =>
    .check (result_reaches permits_all (.refl _ _) value) fun _ =>
      separates_pure (by rwa [Ast.Statement.places, List.append_nil])
  | .breakLoop _ | .continueLoop _ => by
    have hsame : Stacked f (declared ++ []) (scope :: outer) scopes := by rwa [List.append_nil]
    cases inLoop with
    | true => exact separates_pure hsame
    | false => exact separates_throw nofun
  | .discardPixel _ => by
    have hsame : Stacked f (declared ++ []) (scope :: outer) scopes := by rwa [List.append_nil]
    unfold statement
    split
    · exact separates_pure hsame
    · exact separates_throw nofun
  | .empty _ => separates_pure (by rwa [Ast.Statement.places, List.append_nil])

theorem statements_separates {declared : List Local} {scope next : Nat} {outer : List Nat}
    {scopes : Scopes} (inLoop : Bool) (hnumbers : Numbered declared (scope :: outer) next)
    (h : Stacked f declared (scope :: outer) scopes) : (body : List Ast.Statement) →
      Separates f (b.statements inLoop scopes body) declared
        (Ast.Statement.placesAll scope next body) fun _ => True
  | [] => separates_pure trivial
  | first :: rest =>
    (statement_separates inLoop hnumbers h first).bind fun _ hfound =>
      (statements_separates inLoop (hnumbers.behind first) hfound rest).finish fun _ _ =>
        separates_pure trivial

end

end BodyEnv

/-! ## Functions -/

open Check (carries_ok carries_fail carries_ite)

namespace ModuleM

variable {α β : Type} {f : Ast.Function} {body : Ast.Body}

/-- A step is refused as one that declares a local twice only if the body does. -/
def Duplicates (f : Ast.Function) (body : Ast.Body) (step : ModuleM α) : Prop :=
  ∀ s e s', step.run s = .error e s' → ∀ name, e.value = .duplicateLocal name →
    f.DeclaresTwice body name e.span

theorem duplicates_pure {a : α} : Duplicates f body (pure a) := by
  rintro _ _ _ ⟨⟩

theorem Duplicates.bind {step : ModuleM α} {next : α → ModuleM β} (h : Duplicates f body step)
    (h' : ∀ a, Duplicates f body (next a)) : Duplicates f body (step >>= next) := by
  intro s e s' hrun
  rw [EStateM.run_bind] at hrun
  cases hstep : step.run s with
  | ok a s₁ =>
    rw [hstep] at hrun
    exact h' a s₁ e s' hrun
  | error e₁ s₁ =>
    rw [hstep] at hrun
    cases hrun
    exact h s e s' hstep

theorem Duplicates.check {P : α → Prop} {r r' : Check α} {next : α → ModuleM β} (h : r.Carries r' P)
    (h' : ∀ a, r = .ok a → Duplicates f body (next a)) :
    Duplicates f body (ofCheck r >>= next) := by
  cases r with
  | ok a => exact h' a rfl
  | error e =>
    rintro s _ _ ⟨⟩ name hname
    exact absurd hname (h.ne_duplicateLocal e rfl name)

theorem duplicates_modify {g : ModuleState → ModuleState} : Duplicates f body (modify g) := by
  rintro _ _ _ ⟨⟩

theorem duplicates_env {c : Context} {next : Env → ModuleM β}
    (h : ∀ env, Duplicates f body (next env)) : Duplicates f body (env c >>= next) :=
  fun s => h _ s

theorem functionIndex_duplicates {c : Context} {signature : Function} :
    Duplicates f body (functionIndex c signature f) := by
  refine duplicates_env fun env => ?_
  cases env.registry.function? f.name with
  | some found =>
    have hagain : (checkAgain found.2 signature f).Settles fun _ => True :=
      carries_ite (carries_fail rfl) (carries_ite (carries_fail rfl) (carries_ok trivial))
    exact .check hagain fun _ _ => duplicates_pure
  | none =>
    have hname : (env.checkName f.name f.span).Settles fun _ => True := by
      refine carries_ite (carries_fail rfl) (carries_ite (carries_fail rfl) ?_)
      split
      · exact carries_fail rfl
      · exact carries_ok trivial
    refine Duplicates.check hname fun _ _ => ?_
    split
    · rintro _ _ _ ⟨⟩
      exact nofun
    · exact duplicates_modify.bind fun _ => duplicates_pure

theorem zeroResult_duplicates {c : Context} {type : DataType} :
    Duplicates f body (zeroResult c type) := by
  unfold zeroResult
  split
  · exact duplicates_pure
  · exact duplicates_env fun env => .check (Env.code_carries (.refl _ _)) fun _ _ => duplicates_pure

end ModuleM

namespace Typed.Registry

variable {c : Context} {r : Registry} {env : Env} {f : Ast.Function}
variable {signature : ShaderBytecode.Function}

/-- The locals of a body stand apart, or it is refused after some that do. -/
theorem body_separates (h : functionSignature env f = .ok signature) (body : Ast.Body) :
    FrameM.Separates f ((r.bodyEnv c signature).statements false
      [[], parameterScope signature f.parameters] body.statements) [] body.places
        fun _ => True := by
  have hsight := sight_parameterScope (Env.signatureOf_of_functionSignature h).parameters
  have hnumbers := Ast.numbered_start
  refine BodyEnv.statements_separates false hnumbers (.body ?_ ?_) body.statements
  · exact fun name => ⟨nofun, fun ⟨_, hl, _⟩ => absurd hl List.not_mem_nil⟩
  · intro name
    rw [← hsight, Scopes.declares, List.any_eq_true]
    simp only [Scopes.sight, List.flatten_cons, List.flatten_nil, List.nil_append, List.append_nil,
      List.map_map, List.mem_map, decide_eq_true_eq, Function.comp_apply]

end Typed.Registry

namespace ModuleM

variable {f : Ast.Function} {body : Ast.Body}

theorem functionBody_duplicates {c : Context} {env : Env} {signature : Function}
    (h : functionSignature env f = .ok signature) :
    Duplicates f body (functionBody c signature f body) := by
  refine duplicates_env fun outer => ?_
  have hbody := Typed.Registry.body_separates (r := outer.registry) (c := c) h body []
    rfl Ast.Function.apart_nil
  unfold Typed.Registry.bodyEnv at hbody
  simp only []
  split
  · rename_i e frame hrun
    rw [hrun] at hbody
    obtain ⟨reached, -, hrefused⟩ := hbody
    refine duplicates_modify.bind fun _ => ?_
    rintro _ _ _ ⟨⟩ name hname
    obtain ⟨l, hl⟩ := hrefused.taken name hname
    exact ⟨reached, l, hl.1, hrefused.apart, hl.2⟩
  · refine duplicates_modify.bind fun _ => ?_
    split
    · exact duplicates_modify.bind fun _ => zeroResult_duplicates.bind fun _ => duplicates_pure
    · exact zeroResult_duplicates.bind fun _ => duplicates_pure

theorem function_duplicates {c : Context} (hbody : f.body = some body) :
    Duplicates f body (function c f) := by
  refine duplicates_env fun env => .check (functionSignature_carries (.refl _ _)) fun signature h =>
    functionIndex_duplicates.bind fun index => ?_
  rw [hbody]
  exact (functionBody_duplicates h).bind fun _ => duplicates_modify

end ModuleM

/-- A definition resolves the names in its body by lexical scoping: its locals are those of the
source in the order of the text, they take the next slots behind the parameters, no two share a
scope and a name, and the variables in the code are those that the reference rule finds. -/
structure Typed.Registry.Scoped (r : Registry) (f : Ast.Function) (body : Ast.Body)
    (d : Typed.Definition) : Prop where
  locals : d.locals = body.places.map (·.name)
  slots : Statement.slotsAll d.body = List.range' f.parameters.length body.places.length
  apart : f.Apart body.places
  finds : ∀ markers, r.Finds (f.references body) (Item.operands (d.code markers))

theorem Typed.Registry.Registers.allGlobals_eq {c : Context} {r r' : Registry} {f : Ast.Function}
    (h : r.Registers c (.function f) r') : r'.allGlobals = r.allGlobals := by
  cases h with
  | prototype _ hplace => exact hplace.rest.1
  | function _ hplace => exact hplace.rest.1

theorem Typed.Registry.DefinedBy.scoped {c : Context} {r : Registry} {f : Ast.Function}
    {body : Ast.Body} {g : Typed.Function} {d : Typed.Definition}
    (h : r.DefinedBy c f body g d) : r.Scoped f body d := by
  obtain ⟨r₀, r₁, index, hbefore, hsignature, -, haccepts⟩ := h.accepted
  obtain ⟨frame, hrun, hlocals⟩ := haccepts.statements
  have hcount := (Env.signatureOf_of_functionSignature hsignature).parameters.length_eq.symm
  have hseparates := body_separates (r := r₁) (c := c) hsignature body [] rfl
    Ast.Function.apart_nil
  rw [hrun] at hseparates
  obtain ⟨hframe, hapart, -⟩ := hseparates
  obtain ⟨hdeclared, hkept⟩ := declares_body hcount hrun
  have hlength : (Ast.Statement.declaredAll body.statements).length = body.places.length := by
    simpa using congrArg List.length (hdeclared.symm.trans hframe)
  refine ⟨?_, ?_, hapart, fun markers => ?_⟩
  · rw [hlocals]
    simpa [Function.comp_def] using congrArg (List.map Prod.fst) hframe
  · rw [hkept.slots, List.length_map, hlength]
  · rw [← Ast.Function.meanings_eq]
    exact h.operands markers

/-- Names are resolved by lexical scoping. A function that is accepted finds its names by the
reference rule and declares none twice in a scope; one that is refused for a local that is declared
twice does so; and where the locals so far are known, a declaration is refused as a second one just
if its name is taken. -/
theorem ModuleM.function_scoped (c : Context) (s : ModuleState) {f : Ast.Function}
    {body : Ast.Body} (hbody : f.body = some body) :
    (match (ModuleM.function c f).run s with
    | .ok _ s' => ∃ g ∈ s'.registry.functions, ∃ d, g.signature.name = f.name
      ∧ g.definition = some d ∧ s'.registry.allGlobals = s.registry.allGlobals
      ∧ s'.registry.Scoped f body d
    | .error e _ => ∀ name, e.value = .duplicateLocal name → f.DeclaresTwice body name e.span)
    ∧ ∀ (b : BodyEnv) declared scope around scopes,
      BodyEnv.Stacked f declared (scope :: around) scopes → ∀ name type isConst span frame,
        ((b.declareLocal scopes name type isConst span).run frame
            = .error ⟨.duplicateLocal name, span⟩ frame
          ↔ f.Taken declared ⟨scope, name, span⟩) := by
  constructor
  · cases hrun : (ModuleM.function c f).run s with
    | error e s' => exact ModuleM.function_duplicates hbody s e s' hrun
    | ok u s' =>
      obtain ⟨added, -, hregisters, -⟩ :=
        ModuleM.function_registers (c := c) (r := s.registry) f s.remarks u s' hrun
      obtain ⟨g, hg, d, hd⟩ := hregisters.exists_definedBy hbody
      exact ⟨g, hg, d, hd.name, hd.definition, hregisters.allGlobals_eq, hd.scoped⟩
  · intro b declared scope around scopes h name type isConst span frame
    exact BodyEnv.declareLocal_eq_error_iff h

/-- A declaration of an `int` that starts with the value of a variable. -/
def declareInt (name value : String) : Ast.Simple :=
  .declare ⟨none, [], ⟨"int", {}⟩, [⟨name, none, none, some (.name value {}), {}⟩]⟩

/-- The body `{ int y = x; for (int y = y; false; ) int x = y; return y; }`. -/
def nestedBody : Ast.Body where
  statements := [.simple (declareInt "y" "x") {},
    .forLoop (some ⟨declareInt "y" "y", {}⟩) (some (.bool false {})) none
      (.simple (declareInt "x" "y") {}) {},
    .returnFrom (some (.name "y" {})) {}]
  span := {}

def nestedFunction : Ast.Function where
  returnType := ⟨"int", {}⟩
  name := "f"
  parameters := [⟨.input, false, ⟨"int", {}⟩, some "x", none, none, {}⟩]
  returnSemantic := none
  body := some nestedBody
  span := {}

theorem ModuleM.function_scoped_nested :
    nestedFunction.body = some nestedBody
    ∧ nestedFunction.references nestedBody
      = [.slot 0, .slot 1, .slot 1, .slot 2, .slot 2, .slot 3, .slot 1]
    ∧ ∃ s', (ModuleM.function ⟨.glsl, .vertex, false⟩ nestedFunction).run ⟨{}, []⟩ = .ok () s'
      ∧ ∃ g ∈ s'.registry.functions, ∃ d, g.signature.name = "f" ∧ g.definition = some d
        ∧ s'.registry.allGlobals = [] ∧ s'.registry.Scoped nestedFunction nestedBody d := by
  have hbody : nestedFunction.body = some nestedBody := rfl
  have hscoped := (ModuleM.function_scoped ⟨.glsl, .vertex, false⟩ ⟨{}, []⟩ hbody).1
  refine ⟨hbody, by decide, ?_⟩
  cases hrun : (ModuleM.function ⟨.glsl, .vertex, false⟩ nestedFunction).run ⟨{}, []⟩ with
  | ok u s' =>
    rw [hrun] at hscoped
    exact ⟨s', rfl, hscoped⟩
  | error e s' =>
    have hok : (match (ModuleM.function ⟨.glsl, .vertex, false⟩ nestedFunction).run ⟨{}, []⟩ with
      | .ok _ _ => true
      | .error _ _ => false) = true := by decide +kernel
    rw [hrun] at hok
    cases hok

end ShaderBytecode
