import ShaderBytecode.Proofs.Compilation
import ShaderBytecode.Proofs.TranslatedSources

/-!
# Translated programs

A translated source is compiled to the code of the source, and its program has the new names.
-/

namespace ShaderBytecode

open Typed (Registry)

/-! ## Outcomes -/

/-- The code and the program of a source, or its errors. -/
abbrev Verdict := Except (List Diagnostic) (List Instruction × Program)

def outcome : Except Failure Compiled → Verdict
  | .ok compiled => .ok (compiled.code, compiled.program)
  | .error failure => .error failure.errors

/-- What compiling gives for a syntax tree, apart from remarks. -/
def compileTree (d : Dialect) (config : Config) (request : Request)
    (declarations : List Ast.Declaration) : Verdict :=
  match (typeSource d config request.stage declarations).1 with
  | .error errors => .error errors
  | .ok r => (emitSource config request r).mapError fun error => [error]

def compileTokens (d : Dialect) (config : Config) (request : Request) (scanned : Scanned) :
    Verdict :=
  match Ast.ofTokens d scanned with
  | .error fault => .error [⟨.reading fault.value, fault.span⟩]
  | .ok declarations => compileTree d config request declarations

theorem outcome_compile (d : Dialect) (config : Config) (request : Request) :
    outcome (compile d config request) =
      if d.supports request.stage then
        match scan d request.source with
        | .error fault => .error [⟨.scanning fault.value, fault.span⟩]
        | .ok scanned => compileTokens d config request scanned
      else .error [{ cause := .unsupportedStage d request.stage }] := by
  rw [compile_eq]
  unfold analyse compileTokens compileTree
  cases d.supports request.stage with
  | false => rfl
  | true =>
    cases scan d request.source with
    | error fault => rfl
    | ok scanned =>
      cases hread : Ast.ofTokens d scanned with
      | error fault =>
        simp only [hread, bind, Except.bind, pure, Except.pure, Bool.not_true, if_true,
          Bool.false_eq_true, if_false]
        rfl
      | ok declarations =>
        simp only [hread, bind, Except.bind, pure, Except.pure, Bool.not_true, if_true,
          Bool.false_eq_true, if_false]
        generalize typeSource d config request.stage declarations = typed
        obtain ⟨typed, remarks⟩ := typed
        cases typed with
        | error errors => rfl
        | ok r =>
          simp only []
          cases emitSource config request r with
          | error error => rfl
          | ok emitted => rfl

def Cause.strangeSwizzle? : Cause → Option String
  | .typing _ fault => fault.strangeSwizzle?
  | _ => none

namespace Translation

variable {T : Translation}

structure Errors (T : Translation) (e e' : Diagnostic) : Prop where
  eq : T.Exact → e'.cause = e.cause
  swizzle : e'.cause.strangeSwizzle? = e.cause.strangeSwizzle?

/-- What a translated source has in the place of a swizzle with letters of its old dialect. -/
def ExcusedBy (T : Translation) (errors : List Diagnostic) : Prop :=
  ∃ error rest fault, errors = error :: rest ∧ error.cause = .typing T.dialect fault
    ∧ T.Excused fault

/-! ## Typing -/

/-- What typing may give for a source and the translated one. -/
def Registries (T : Translation) : Except (List Diagnostic) Registry →
    Except (List Diagnostic) Registry → Prop
  | .ok r, .ok r' => T.Registered r ∧ r' = T.registry r
  | .ok _, .error errors => T.ExcusedBy errors
  | .error errors, .error errors' => T.Same → List.Forall₂ T.Errors errors errors'
  | .error _, .ok _ => ¬T.Same

theorem states_start :
    T.States { registry := { builtins := stageVariables T.context.dialect T.context.stage } }
      { registry := { builtins := stageVariables T.target.dialect T.target.stage } } :=
  ⟨⟨rfl, List.forall_mem_nil _, List.forall_mem_nil _, List.forall_mem_nil _, fun _ => rfl⟩, rfl,
    rfl⟩

theorem Exact.moduleFault (h : T.Exact) (fault : ModuleFault) : fault.rename T.name = fault := by
  cases fault with
  | undefined signature => exact congrArg _ (h.function signature)
  | selfCall function => exact congrArg _ (h.name function)
  | callCycle caller callee => exact congrArg₂ _ (h.name caller) (h.name callee)

theorem errors_moduleFaults (r : Registry) (limit : Nat) :
    List.Forall₂ T.Errors
      ((r.moduleFaults.take limit).map fun f => Diagnostic.mk (.checking f.value) f.span)
      (((T.registry r).moduleFaults.take limit).map
        fun f => Diagnostic.mk (.checking f.value) f.span) := by
  rw [registry, Registry.moduleFaults_relabel _ _ T.name_empty, ← List.map_take, List.map_map,
    List.forall₂_map_left_iff, List.forall₂_map_right_iff, List.forall₂_same]
  intro fault _
  exact ⟨fun hexact => congrArg Cause.checking (hexact.moduleFault fault.value), rfl⟩

theorem typeSource_follows {config : Config}
    (hpromote : T.context.promote = config.promoteInts ∧ T.promote = config.promoteInts)
    {declarations : List Ast.Declaration} (h : ∀ d ∈ declarations, T.AdmitsDeclaration d) :
    T.Registries (typeSource T.context.dialect config T.context.stage declarations).1
      (typeSource T.dialect config T.context.stage
        (declarations.map (Ast.Declaration.respell T.spelling))).1 := by
  have htyped := typeDeclarations_follows h config.maxErrors states_start
  have hstrict : T.Same → T.Strict := fun hsame => ⟨hsame, hpromote.2.trans hpromote.1.symm⟩
  have hcontext : (⟨T.context.dialect, T.context.stage, config.promoteInts⟩ : Context)
      = T.context := congrArg (Context.mk T.context.dialect T.context.stage) hpromote.1.symm
  have htarget : (⟨T.dialect, T.context.stage, config.promoteInts⟩ : Context) = T.target :=
    congrArg (Context.mk T.dialect T.context.stage) hpromote.2.symm
  unfold typeSource
  simp only [hcontext, htarget]
  change T.Typings _ (typeDeclarations T.target config.maxErrors _
    { registry := { builtins := stageVariables T.dialect T.context.stage } }) at htyped
  generalize typeDeclarations T.context config.maxErrors declarations _ = typed at htyped ⊢
  generalize typeDeclarations T.target config.maxErrors _ _ = typed' at htyped ⊢
  obtain ⟨faults, s⟩ := typed
  obtain ⟨faults', s'⟩ := typed'
  -- The module is checked as a whole only if every declaration was accepted.
  have hcheck : T.States s s' → T.Registries
      (if ((s.registry.moduleFaults.take config.maxErrors).map fun f =>
          Diagnostic.mk (.checking f.value) f.span).isEmpty then .ok s.registry
        else .error ((s.registry.moduleFaults.take config.maxErrors).map fun f =>
          Diagnostic.mk (.checking f.value) f.span))
      (if ((s'.registry.moduleFaults.take config.maxErrors).map fun f =>
          Diagnostic.mk (.checking f.value) f.span).isEmpty then .ok s'.registry
        else .error ((s'.registry.moduleFaults.take config.maxErrors).map fun f =>
          Diagnostic.mk (.checking f.value) f.span)) := by
    intro hstates
    have herrors := errors_moduleFaults (T := T) s.registry config.maxErrors
    rw [hstates.registry]
    generalize List.map _ (List.take _ s.registry.moduleFaults) = errors at herrors ⊢
    generalize List.map _ (List.take _ (T.registry s.registry).moduleFaults) = errors' at herrors ⊢
    cases herrors with
    | nil => exact ⟨hstates.registered, rfl⟩
    | cons hfirst hrest => exact fun _ => .cons hfirst hrest
  cases faults with
  | nil =>
    obtain ⟨hnone, hstates⟩ | ⟨fault, rest, hfaults, hexcused⟩ := htyped.accepted rfl
    · cases hnone
      exact hcheck hstates
    · cases hfaults
      simp only [List.isEmpty_nil, List.isEmpty_cons, if_true, Bool.false_eq_true, if_false,
        List.map_cons]
      split
      · exact ⟨_, _, fault.value, rfl, rfl, hexcused⟩
      · exact fun hsame => absurd hsame hexcused.1
  | cons fault rest =>
    cases faults' with
    | nil =>
      simp only [List.isEmpty_nil, List.isEmpty_cons, if_true, Bool.false_eq_true, if_false,
        List.map_cons]
      split
      · exact fun hsame => nomatch (htyped.strict (hstrict hsame)).1
      · exact fun hsame => nomatch (htyped.strict (hstrict hsame)).1
    | cons fault' rest' =>
      intro hsame
      have hdialect : T.context.dialect = T.dialect := hsame
      refine List.forall₂_map_left_iff.mpr (List.forall₂_map_right_iff.mpr ?_)
      refine (htyped.strict (hstrict hsame)).1.imp fun f f' hf =>
        ⟨fun hexact => ?_, hf.swizzle (hstrict hsame)⟩
      simp only [hf.eq hexact, hdialect]

/-! ## Emission -/

/-- What compiling may give for a source and the translated one: the same code, and a program with
the new names and with the variables that the stage has in the new dialect. -/
def Outcomes (T : Translation) : Verdict → Verdict → Prop
  | .ok (code, p), .ok (code', p') => code' = code
    ∧ p.builtins = stageVariables T.context.dialect T.context.stage
    ∧ p' = { p.rename T.name with builtins := T.builtins }
  | .ok _, .error errors => T.ExcusedBy errors
  | .error errors, .error errors' => T.Same → List.Forall₂ T.Errors errors errors'
  | .error _, .ok _ => ¬T.Same

theorem Exact.emitFault (h : T.Exact) (fault : EmitFault) : fault.rename T.name = fault := by
  cases fault with
  | bodyMissing function => exact congrArg _ (h.name function)
  | leaveOutsideLoop kind => rfl
  | targetTooLarge target => rfl

variable {config : Config} {request request' : Request}

theorem emitSource_follows (hlines : T.labels.KeepsLines config.lineMarkers)
    (hstage : request'.stage = request.stage)
    (hentry : request'.entryPoint = T.name request.entryPoint) {r : Registry}
    (hr : T.Registered r) :
    T.Outcomes ((emitSource config request r).mapError fun error => [error])
      ((emitSource config request' (T.registry r)).mapError fun error => [error]) := by
  have hbuiltins : T.builtins.length = r.builtins.length ∨ r.globals = [] := by
    by_cases hsame : T.Same
    · rw [hr.builtins, Translation.builtins, ← show T.context.dialect = T.dialect from hsame]
      exact .inl rfl
    · exact .inr (hr.across hsame)
  have hemit : (T.registry r).emit config.lineMarkers
      = ((r.emit config.lineMarkers).mapError (EmitFault.rename T.name)).map
        (Emitted.rename T.name) := Registry.emit_relabel hlines hbuiltins
  unfold emitSource programOf
  rw [hemit]
  cases r.emit config.lineMarkers with
  | error fault =>
    refine fun _ => .cons ⟨fun hexact => ?_, rfl⟩ .nil
    exact congrArg Cause.emitting (hexact.emitFault fault)
  | ok e =>
    have hprogram : Program.ofEmitted (T.registry r) request.stage (T.name request.entryPoint)
        (e.rename T.name) = { (Program.ofEmitted r request.stage request.entryPoint e).rename T.name
          with builtins := T.builtins } := Program.ofEmitted_relabel T.labels T.builtins r _ _ e
    simp only [mapError_ok, Except.map, hstage, hentry, hprogram]
    generalize hp : Program.ofEmitted r request.stage request.entryPoint e = p
    have hfound : Program.function? { p.rename T.name with builtins := T.builtins }
        (T.name request.entryPoint) = (p.function? request.entryPoint).map
          (Function.rename T.name) := p.function?_rename T.name_injective request.entryPoint
    rw [hfound, Option.isSome_map]
    by_cases hdefined : (p.function? request.entryPoint).isSome = true
    · rw [if_pos hdefined, if_pos hdefined]
      refine ⟨rfl, ?_, rfl⟩
      rw [← hp, ← hr.builtins]
      rfl
    · rw [if_neg hdefined, if_neg hdefined]
      refine fun _ => .cons ⟨fun hexact => ?_, rfl⟩ .nil
      have hnames : (p.rename T.name).functions.map (·.name) = p.functions.map (·.name) := by
        rw [Program.rename, List.map_map]
        exact List.map_congr_left fun f _ => hexact.name f.name
      exact congrArg₂ Cause.entryPointMissing (hexact.name _) hnames

theorem compileTree_follows (hstage : T.context.stage = request.stage)
    (hpromote : T.context.promote = config.promoteInts ∧ T.promote = config.promoteInts)
    (hlines : T.labels.KeepsLines config.lineMarkers)
    (hstages : request'.stage = request.stage)
    (hentry : request'.entryPoint = T.name request.entryPoint)
    {declarations : List Ast.Declaration} (h : ∀ d ∈ declarations, T.AdmitsDeclaration d) :
    T.Outcomes (compileTree T.context.dialect config request declarations)
      (compileTree T.dialect config request'
        (declarations.map (Ast.Declaration.respell T.spelling))) := by
  have htyped := typeSource_follows hpromote h
  unfold compileTree
  rw [hstages, ← hstage]
  generalize (typeSource T.context.dialect config T.context.stage declarations).1 = typed
    at htyped ⊢
  generalize (typeSource T.dialect config T.context.stage _).1 = typed' at htyped ⊢
  cases typed with
  | ok r =>
    cases typed' with
    | ok r' =>
      obtain ⟨hr, rfl⟩ := htyped
      exact emitSource_follows hlines hstages hentry hr
    | error errors' =>
      simp only []
      cases emitSource config request r with
      | ok emitted => exact htyped
      | error error =>
        obtain ⟨_, _, _, -, -, hexcused⟩ := htyped
        exact fun hsame => absurd hsame hexcused.1
  | error errors =>
    cases typed' with
    | ok r' =>
      simp only []
      cases emitSource config request' r' with
      | ok emitted => exact htyped
      | error error => exact fun hsame => absurd hsame htyped
    | error errors' => exact htyped

/-! ## Sources with a common translation -/

structure JointErrors (T T' : Translation) (e e' : Diagnostic) : Prop where
  eq : T.Exact → T'.Exact → e'.cause = e.cause
  swizzle : e'.cause.strangeSwizzle? = e.cause.strangeSwizzle?

/-- What compiling may give for two sources with a common translation, of which the second one stays
in its dialect. -/
def Joint (T T' : Translation) : Verdict → Verdict → Prop
  | .ok (code, p), .ok (code', p') => code' = code
    ∧ p.builtins = stageVariables T.context.dialect T.context.stage
    ∧ p'.builtins = stageVariables T'.context.dialect T'.context.stage
    ∧ { p'.rename T'.name with builtins := [] } = { p.rename T.name with builtins := [] }
  | .ok _, .error errors => ¬T.Same ∧ ∃ error rest swizzle, errors = error :: rest
    ∧ error.cause.strangeSwizzle? = some swizzle ∧ T.Labels swizzle
    ∧ ∀ c ∈ swizzle.toList, c ∈ textureLetters
  | .error errors, .error errors' => T.Same → List.Forall₂ (T.JointErrors T') errors errors'
  | .error _, .ok _ => ¬T.Same

variable {T' : Translation}

theorem Outcomes.joint {x x' y : Verdict} (h : T.Outcomes x y) (h' : T'.Outcomes x' y)
    (hsame : T'.Same) : T.Joint T' x x' := by
  cases x with
  | ok found =>
    obtain ⟨code, p⟩ := found
    cases x' with
    | ok found' =>
      obtain ⟨code', p'⟩ := found'
      cases y with
      | ok common =>
        obtain ⟨hcode, hbuiltins, hprogram⟩ := h
        obtain ⟨hcode', hbuiltins', hprogram'⟩ := h'
        refine ⟨hcode'.symm.trans hcode, hbuiltins, hbuiltins', ?_⟩
        have hcommon := hprogram'.symm.trans hprogram
        exact congrArg (fun p : Program => { p with builtins := [] }) hcommon
      | error errors =>
        obtain ⟨_, _, _, -, -, hexcused⟩ := h'
        exact absurd hsame hexcused.1
    | error errors' =>
      cases y with
      | ok common => exact absurd hsame h'
      | error errors =>
        -- One side may refuse alone: a swizzle that it has no letters for.
        obtain ⟨error, rest, fault, rfl, hcause, hother, type, swizzle, rfl, hlabel, hletters⟩ := h
        cases h' hsame with
        | cons hfirst hrest =>
          refine ⟨hother, _, _, swizzle, rfl, ?_, hlabel, hletters⟩
          rw [← hfirst.swizzle, hcause]
          rfl
  | error errors =>
    cases x' with
    | ok found' =>
      cases y with
      | ok common => exact h
      | error errors' =>
        obtain ⟨_, _, _, -, -, hexcused⟩ := h'
        exact absurd hsame hexcused.1
    | error errors' =>
      cases y with
      | ok common => exact absurd hsame h'
      | error common =>
        intro hsource
        have hboth := h hsource
        have hboth' := h' hsame
        clear h h'
        induction hboth generalizing errors' with
        | nil =>
          cases hboth'
          exact .nil
        | cons hfirst _ ih =>
          cases hboth' with
          | cons hfirst' hrest' =>
            refine .cons ⟨fun hexact hexact' => ?_, ?_⟩ (ih _ hrest')
            · exact (hfirst'.eq hexact').symm.trans (hfirst.eq hexact)
            · exact hfirst'.swizzle.symm.trans hfirst.swizzle

/-- Two syntax trees with a common translation are compiled alike. -/
theorem compileTree_joint (hsame : T'.Same) (hdialect : T'.dialect = T.dialect)
    (hstage : T.context.stage = request.stage) (hstage' : T'.context.stage = request'.stage)
    (hpromote : T.context.promote = config.promoteInts ∧ T.promote = config.promoteInts)
    (hpromote' : T'.context.promote = config.promoteInts ∧ T'.promote = config.promoteInts)
    (hlines : T.labels.KeepsLines config.lineMarkers)
    (hlines' : T'.labels.KeepsLines config.lineMarkers)
    (hstages : request'.stage = request.stage)
    (hentry : T'.name request'.entryPoint = T.name request.entryPoint)
    {ds ds' : List Ast.Declaration}
    (htrees : ds.map (Ast.Declaration.respell T.spelling)
      = ds'.map (Ast.Declaration.respell T'.spelling))
    (h : ∀ d ∈ ds, T.AdmitsDeclaration d) (h' : ∀ d ∈ ds', T'.AdmitsDeclaration d) :
    T.Joint T' (compileTree T.context.dialect config request ds)
      (compileTree T'.context.dialect config request' ds') := by
  have hcommon : (Request.mk request.stage "" (T.name request.entryPoint)).stage = request.stage :=
    rfl
  have hleft := compileTree_follows hstage hpromote hlines hcommon rfl h
  have hright := compileTree_follows hstage' hpromote' hlines' (hcommon.trans hstages.symm)
    hentry.symm h'
  rw [hdialect, ← htrees] at hright
  exact hleft.joint hright hsame

end Translation

end ShaderBytecode
