import Mathlib.Data.List.ReduceOption
import ShaderBytecode.Proofs.CallChains

/-!
# The limit on errors

Typing a source goes on behind a declaration that is refused, until as many are refused as the limit
allows. The limit decides where typing stops and nothing else: the errors under a limit are the
first of those that a larger limit gives, and what is accepted under one limit is accepted under any
other.
-/

namespace ShaderBytecode

open Typed (Registry)

/-- For each declaration the fault it is refused with, if it is. Each is typed in the state that the
ones before it leave, which is also left by a declaration that is refused. -/
def refusals (c : Context) :
    List Ast.Declaration → ModuleState → List (Option (Located TypingFault))
  | [], _ => []
  | first :: rest, state =>
    match (ModuleM.declaration c first).run state with
    | .ok _ state => none :: refusals c rest state
    | .error fault state => some fault :: refusals c rest state

@[simp]
theorem length_refusals (c : Context) (declarations : List Ast.Declaration) (state : ModuleState) :
    (refusals c declarations state).length = declarations.length := by
  fun_induction refusals c declarations state with
  | case1 => rfl
  | case2 first rest state _ state' hrun ih => simp [ih]
  | case3 first rest state fault state' hrun ih => simp [ih]

section Typing

variable (c : Context) (declarations : List Ast.Declaration) (state : ModuleState) {m n : Nat}

theorem typeDeclarations_faults (c : Context) (limit : Nat) (declarations : List Ast.Declaration)
    (state : ModuleState) : (typeDeclarations c limit declarations state).1
      = (refusals c declarations state).reduceOption.take limit := by
  fun_induction typeDeclarations c limit declarations state with
  | case1 limit state => simp [refusals]
  | case2 declarations state hne => simp
  | case3 limit first rest state _ state' hrun ih =>
    simp only [refusals, hrun, List.reduceOption_cons_of_none]
    exact ih
  | case4 limit first rest state fault state' hrun faults state'' hrest ih =>
    simp only [refusals, hrun, List.reduceOption_cons_of_some, List.take_succ_cons]
    rw [hrest] at ih
    rw [← ih]

theorem typeDeclarations_faults_take (h : m ≤ n) : (typeDeclarations c m declarations state).1
    = (typeDeclarations c n declarations state).1.take m := by
  rw [typeDeclarations_faults, typeDeclarations_faults, List.take_take, Nat.min_eq_left h]

theorem typeDeclarations_eq_of_faultless (hm : m ≠ 0) (hn : n ≠ 0)
    (h : (typeDeclarations c m declarations state).1 = []) :
    typeDeclarations c n declarations state = typeDeclarations c m declarations state := by
  obtain ⟨k, rfl⟩ := Nat.exists_eq_succ_of_ne_zero hn
  fun_induction typeDeclarations c m declarations state with
  | case1 => simp [typeDeclarations]
  | case2 => exact absurd rfl hm
  | case3 limit first rest state _ state' hrun ih =>
    simp only [typeDeclarations, hrun]
    exact ih hm h
  | case4 => cases h

end Typing

/-! ## Remarks -/

namespace ModuleM

variable {α β : Type} {c : Context}

/-- The state that a step leaves, whether it succeeds or not. -/
def stateAfter (step : ModuleM α) (s : ModuleState) : ModuleState :=
  match step.run s with
  | .ok _ s' => s'
  | .error _ s' => s'

/-- A step keeps the remarks there are and only adds some. -/
def Appends (step : ModuleM α) : Prop :=
  ∀ s, s.remarks <+: (step.stateAfter s).remarks

theorem appends_pure (a : α) : Appends (pure a) :=
  fun _ => List.prefix_rfl

theorem appends_throw (e : Located TypingFault) : Appends (throw e : ModuleM α) :=
  fun _ => List.prefix_rfl

theorem appends_ofCheck (x : Check α) : Appends (ofCheck x) := by
  cases x with
  | ok a => exact appends_pure a
  | error e => exact appends_throw e

theorem appends_env : Appends (env c) :=
  fun _ => List.prefix_rfl

theorem appends_update (f : Registry → Registry) : Appends (update f) :=
  fun _ => List.prefix_rfl

theorem appends_remark (remarks : List (Located Remark)) : Appends (remark remarks) :=
  fun _ => List.prefix_append _ _

theorem Appends.bind {step : ModuleM α} {f : α → ModuleM β} (h : Appends step)
    (hf : ∀ a, Appends (f a)) : Appends (step >>= f) := by
  intro s
  have hstep := h s
  unfold stateAfter at hstep ⊢
  rw [EStateM.run_bind]
  cases hrun : step.run s with
  | error e s' =>
    rw [hrun] at hstep
    exact hstep
  | ok a s' =>
    rw [hrun] at hstep
    exact hstep.trans (hf a s')

theorem Appends.ite {condition : Prop} [Decidable condition] {step step' : ModuleM α}
    (h : Appends step) (h' : Appends step') : Appends (if condition then step else step') := by
  split
  · exact h
  · exact h'

theorem Appends.forM {ι : Type} {step : ι → ModuleM Unit} (h : ∀ i, Appends (step i))
    (items : List ι) : Appends (items.forM step) := by
  induction items with
  | nil => exact appends_pure ()
  | cons first rest ih => exact (h first).bind fun _ => ih

theorem struct_appends (s : Ast.Structure) : Appends (struct c s) :=
  appends_env.bind fun _ => (appends_ofCheck _).bind fun _ => (appends_ofCheck _).bind fun _ =>
    appends_update _

theorem globalVariable_appends (v : Ast.Variables) (d : Ast.Declarator) :
    Appends (globalVariable c v d) := by
  refine appends_env.bind fun env => (appends_ofCheck _).bind fun type =>
    (appends_ofCheck _).bind fun _ => (appends_ofCheck _).bind fun _ => ?_
  cases d.initializer with
  | none =>
    simp only [pure_bind]
    exact appends_update _
  | some e =>
    simp only [map_eq_pure_bind, bind_assoc, pure_bind]
    exact (appends_ofCheck _).bind fun _ => appends_update _

theorem bufferMember_appends (buffer : BufferBinding) (m : Ast.Member) :
    Appends (bufferMember c buffer m) :=
  appends_env.bind fun _ => (appends_ofCheck _).bind fun _ => (appends_ofCheck _).bind fun _ =>
    appends_update _

theorem functionIndex_appends (signature : Function) (f : Ast.Function) :
    Appends (functionIndex c signature f) := by
  refine appends_env.bind fun env => ?_
  cases env.registry.function? f.name with
  | some found => exact (appends_ofCheck _).bind fun _ => appends_pure _
  | none =>
    refine (appends_ofCheck _).bind fun _ => ?_
    split
    · exact (appends_throw _).bind fun _ => (appends_update _).bind fun _ => appends_pure _
    · exact (appends_update _).bind fun _ => appends_pure _

theorem zeroResult_appends (returnType : DataType) : Appends (zeroResult c returnType) :=
  .ite (appends_pure _) <| appends_env.bind fun _ => (appends_ofCheck _).bind fun _ =>
    appends_pure _

theorem functionBody_appends (signature : Function) (f : Ast.Function) (body : Ast.Body) :
    Appends (functionBody c signature f body) := by
  have hend : ∀ locals statements, Appends (do
      return (⟨locals, statements, ← zeroResult c signature.returnType⟩ : Typed.Definition)) :=
    fun _ _ => (zeroResult_appends _).bind fun _ => appends_pure _
  refine appends_env.bind fun env => ?_
  simp only []
  split
  · exact (appends_remark _).bind fun _ => appends_throw _
  · refine (appends_remark _).bind fun _ => ?_
    split
    · exact (appends_remark _).bind fun _ => hend _ _
    · exact hend _ _

theorem function_appends (f : Ast.Function) : Appends (function c f) := by
  refine appends_env.bind fun env => (appends_ofCheck _).bind fun signature =>
    (functionIndex_appends signature f).bind fun index => ?_
  cases f.body with
  | none => exact appends_pure _
  | some body => exact (functionBody_appends signature f body).bind fun _ => appends_update _

theorem declaration_appends (d : Ast.Declaration) : Appends (declaration c d) := by
  cases d with
  | struct s => exact struct_appends s
  | declare v => exact .forM (globalVariable_appends v) v.declarators
  | buffer b => exact .forM (bufferMember_appends _) b.members
  | function f => exact function_appends f

theorem declaration_remarks {d : Ast.Declaration} {s s' : ModuleState}
    (h : (∃ a, (declaration c d).run s = .ok a s') ∨ ∃ e, (declaration c d).run s = .error e s') :
    s.remarks <+: s'.remarks := by
  have happends := declaration_appends (c := c) d s
  unfold stateAfter at happends
  obtain ⟨a, h⟩ | ⟨e, h⟩ := h
  · rwa [h] at happends
  · rwa [h] at happends

end ModuleM

theorem typeDeclarations_remarks (c : Context) (limit : Nat) (declarations : List Ast.Declaration)
    (state : ModuleState) :
    state.remarks <+: (typeDeclarations c limit declarations state).2.remarks := by
  fun_induction typeDeclarations c limit declarations state with
  | case1 => exact List.prefix_rfl
  | case2 => exact List.prefix_rfl
  | case3 limit first rest state _ state' hrun ih =>
    exact (ModuleM.declaration_remarks (.inl ⟨_, hrun⟩)).trans ih
  | case4 limit first rest state fault state' hrun faults state'' hrest ih =>
    rw [hrest] at ih
    exact (ModuleM.declaration_remarks (.inr ⟨_, hrun⟩)).trans ih

theorem typeDeclarations_remarks_prefix {c : Context} {m n : Nat} (h : m ≤ n)
    (declarations : List Ast.Declaration) (state : ModuleState) :
    (typeDeclarations c m declarations state).2.remarks
      <+: (typeDeclarations c n declarations state).2.remarks := by
  fun_induction typeDeclarations c m declarations state generalizing n with
  | case1 => simp [typeDeclarations]
  | case2 declarations state => exact typeDeclarations_remarks c n declarations state
  | case3 limit first rest state _ state' hrun ih =>
    obtain ⟨k, rfl⟩ := Nat.exists_eq_add_of_le' (Nat.le_trans (Nat.le_add_left 1 limit) h)
    simp only [typeDeclarations, hrun]
    exact ih h
  | case4 limit first rest state fault state' hrun faults state'' hrest ih =>
    obtain ⟨k, rfl⟩ := Nat.exists_eq_add_of_le' (Nat.le_trans (Nat.le_add_left 1 limit) h)
    simp only [typeDeclarations, hrun]
    have hstate := ih (Nat.le_of_succ_le_succ h)
    rwa [hrest] at hstate

/-! ## Compiled sources -/

/-- What is found under a limit, against what is found under a larger one: the same, or the first of
the errors and of the remarks. -/
inductive Truncates {α : Type} (limit : Nat) : Except Failure α → Except Failure α → Prop
  | accepted (a : α) : Truncates limit (.ok a) (.ok a)
  | refused {failure failure' : Failure} (errors : failure.errors = failure'.errors.take limit)
      (remarks : failure.remarks <+: failure'.remarks) :
      Truncates limit (.error failure) (.error failure')

theorem Truncates.single {α : Type} {limit : Nat} (hlimit : limit ≠ 0) (error : Diagnostic)
    (remarks : List (Located Remark)) :
    Truncates limit (.error ⟨[error], remarks⟩ : Except Failure α) (.error ⟨[error], remarks⟩) := by
  refine .refused ?_ List.prefix_rfl
  rw [List.take_of_length_le (Nat.one_le_iff_ne_zero.mpr hlimit)]

/-- Whether a source is refused for one of its declarations. -/
def Cause.isTyping : Cause → Bool
  | .typing _ _ => true
  | _ => false

def Failure.typingErrors (f : Failure) : List Diagnostic :=
  f.errors.filter (·.cause.isTyping)

def startState (d : Dialect) (stage : Stage) : ModuleState where
  registry := { builtins := stageVariables d stage }

/-- For each declaration of a source the error it is refused with, if it is. -/
def declarationErrors (d : Dialect) (config : Config) (stage : Stage)
    (declarations : List Ast.Declaration) : List (Option Diagnostic) :=
  (refusals ⟨d, stage, config.promoteInts⟩ declarations (startState d stage)).map
    (Option.map fun f => ⟨.typing d f.value, f.span⟩)

section Compiled

variable {d : Dialect} {config : Config} {stage : Stage} {request : Request}
variable {declarations : List Ast.Declaration} {m n : Nat}

/-- Under two limits a source is accepted alike, or it has the first of the errors and remarks. -/
theorem typeSource_truncates (d : Dialect) (config : Config) (stage : Stage)
    (declarations : List Ast.Declaration) (hm : m ≠ 0) (h : m ≤ n) :
    ((∃ r, (typeSource d { config with maxErrors := m } stage declarations).1 = .ok r)
      ∧ typeSource d { config with maxErrors := n } stage declarations
        = typeSource d { config with maxErrors := m } stage declarations)
    ∨ ∃ errors remarks remarks',
      typeSource d { config with maxErrors := m } stage declarations
        = (.error (errors.take m), remarks)
      ∧ typeSource d { config with maxErrors := n } stage declarations = (.error errors, remarks')
      ∧ remarks <+: remarks' := by
  have hn : n ≠ 0 := fun hzero => hm (Nat.le_zero.mp (hzero ▸ h))
  have htake := typeDeclarations_faults_take ⟨d, stage, config.promoteInts⟩ declarations
    (startState d stage) h
  have hremarks := typeDeclarations_remarks_prefix (c := ⟨d, stage, config.promoteInts⟩) h
    declarations (startState d stage)
  have hsame := typeDeclarations_eq_of_faultless ⟨d, stage, config.promoteInts⟩ declarations
    (startState d stage) hm hn
  unfold startState at htake hremarks hsame
  unfold typeSource
  simp only []
  generalize typeDeclarations ⟨d, stage, config.promoteInts⟩ m declarations _ = typed at *
  generalize typeDeclarations ⟨d, stage, config.promoteInts⟩ n declarations _ = typed' at *
  cases hfaults : typed.1 with
  | nil =>
    -- Nothing is refused, and checking the source as a whole decides.
    obtain rfl := hsame hfaults
    simp only [hfaults, List.isEmpty_nil, if_true]
    cases hmodule : typed'.2.registry.moduleFaults with
    | nil =>
      simp only [List.take_nil, List.map_nil, List.isEmpty_nil, if_true]
      exact .inl ⟨⟨_, rfl⟩, trivial⟩
    | cons first rest =>
      right
      obtain ⟨k, rfl⟩ := Nat.exists_eq_succ_of_ne_zero hm
      obtain ⟨l, rfl⟩ := Nat.exists_eq_succ_of_ne_zero hn
      refine ⟨_, _, _, ?_, rfl, hremarks⟩
      simp only [List.take_succ_cons, List.map_cons, List.isEmpty_cons, Bool.false_eq_true,
        if_false, ← List.map_take, List.take_take, Nat.min_eq_left (Nat.le_of_succ_le_succ h)]
  | cons first rest =>
    obtain ⟨k, rfl⟩ := Nat.exists_eq_succ_of_ne_zero hm
    rw [hfaults] at htake
    cases hfaults' : typed'.1 with
    | nil =>
      rw [hfaults'] at htake
      cases htake
    | cons first' rest' =>
      right
      rw [hfaults'] at htake
      refine ⟨_, _, _, ?_, rfl, hremarks⟩
      simp only [htake, List.take_succ_cons, List.map_cons, List.isEmpty_cons,
        Bool.false_eq_true, if_false, ← List.map_take]

theorem analyse_truncates (d : Dialect) (config : Config) (request : Request) (hm : m ≠ 0)
    (h : m ≤ n) :
    Truncates m (analyse d { config with maxErrors := m } request)
      (analyse d { config with maxErrors := n } request) := by
  unfold analyse
  simp only []
  split
  · exact .single hm _ _
  · split
    · exact .single hm _ _
    · rename_i scanned hscan
      simp only [pure_bind]
      split
      · exact .single hm _ _
      · rename_i declarations hread
        obtain ⟨⟨r, hr⟩, hsame⟩ | ⟨errors, remarks, remarks', htyped, htyped', hremarks⟩ :=
          typeSource_truncates d config request.stage declarations hm h
        · rw [hsame]
          simp only [hr]
          exact .accepted _
        · simp only [htyped, htyped']
          exact .refused rfl ((List.prefix_append_right_inj _).mpr hremarks)

theorem length_declarationErrors :
    (declarationErrors d config stage declarations).length = declarations.length := by
  rw [declarationErrors, List.length_map, length_refusals]

theorem take_declarationErrors :
    (declarationErrors d config stage declarations).reduceOption.take config.maxErrors
      = (typingFaults d config stage declarations).map fun f => ⟨.typing d f.value, f.span⟩ := by
  unfold declarationErrors typingFaults
  rw [List.reduceOption_map, ← List.map_take, ← typeDeclarations_faults]
  rfl

/-- The errors of typing are those of the first declarations that are refused. -/
theorem typingErrors_of_analyse {scanned : Scanned} {failure : Failure}
    (hsupports : d.supports request.stage = true) (hscan : scan d request.source = .ok scanned)
    (hread : Ast.ofTokens d scanned = .ok declarations)
    (h : analyse d config request = .error failure) : failure.typingErrors
      = (declarationErrors d config request.stage declarations).reduceOption.take
        config.maxErrors := by
  rw [take_declarationErrors]
  unfold typingFaults
  unfold analyse at h
  simp only [hsupports, Bool.not_true, Bool.false_eq_true, if_false, hscan, pure_bind, hread,
    typeSource] at h
  generalize typeDeclarations ⟨d, request.stage, config.promoteInts⟩ config.maxErrors declarations _
    = typed at *
  obtain ⟨faults, state⟩ := typed
  cases faults with
  | nil =>
    simp only [List.isEmpty_nil, if_true] at h
    split at h
    · rename_i errors herrors
      cases h
      split at herrors
      · cases herrors
      · cases herrors
        refine List.filter_eq_nil_iff.mpr fun e he => ?_
        obtain ⟨f, -, rfl⟩ := List.mem_map.mp he
        exact Bool.false_ne_true
    · cases h
  | cons first rest =>
    simp only [List.isEmpty_cons, Bool.false_eq_true, if_false, List.map_cons] at h
    cases h
    exact List.filter_eq_self.mpr (by simp [Cause.isTyping])

/-- What is emitted has no errors of typing, and none of its declarations is refused. -/
theorem declarationErrors_of_analyse {scanned : Scanned} {r : Registry}
    {remarks : List (Located Remark)} (hscan : scan d request.source = .ok scanned)
    (hread : Ast.ofTokens d scanned = .ok declarations)
    (h : analyse d config request = .ok (r, remarks)) :
    (declarationErrors d config request.stage declarations).reduceOption.take config.maxErrors
      = [] := by
  obtain ⟨scanned', declarations', r', -, hscan', hread', hr, -⟩ | ⟨failure, hfailed, -⟩ :=
    analyse_spec d config request
  · cases hscan.symm.trans hscan'
    cases hread.symm.trans hread'
    rw [take_declarationErrors, (declared_of_typeSource hr).1]
    rfl
  · cases h.symm.trans hfailed

/-- What emission refuses, it refuses with one error, which is none of typing. -/
theorem isTyping_of_emitSource {r : Registry} {error : Diagnostic}
    (h : emitSource config request r = .error error) : error.cause.isTyping = false := by
  unfold emitSource programOf at h
  split at h
  · cases h
    rfl
  · simp only [] at h
    split at h
    · cases h
    · cases h
      rfl

/-- A limit on errors only cuts them off. Under two limits, of which one is smaller, a source is
compiled to the same, or it is refused under both, and under the smaller limit it has the first of
the errors and the first of the remarks. A source that is refused has an error, and the errors of
its declarations are those of the first declarations that are refused, one for each, in the order of
the source. -/
theorem compile_truncates (d : Dialect) (config : Config) (request : Request) {m n : Nat}
    (hm : 1 ≤ m) (h : m ≤ n) :
    Truncates m (compile d { config with maxErrors := m } request)
      (compile d { config with maxErrors := n } request)
    ∧ ∀ failure, compile d config request = .error failure → failure.errors ≠ []
      ∧ ∀ scanned declarations, d.supports request.stage = true →
        scan d request.source = .ok scanned → Ast.ofTokens d scanned = .ok declarations →
        (declarationErrors d config request.stage declarations).length = declarations.length
          ∧ failure.typingErrors
            = (declarationErrors d config request.stage declarations).reduceOption.take
              config.maxErrors := by
  refine ⟨?_, fun failure hfailure => ?_⟩
  · have htruncates := analyse_truncates d config request (Nat.one_le_iff_ne_zero.mp hm) h
    rw [compile_eq, compile_eq]
    generalize analyse d { config with maxErrors := m } request = analysed at htruncates ⊢
    generalize analyse d { config with maxErrors := n } request = analysed' at htruncates ⊢
    cases htruncates with
    | accepted found =>
      have hemit : emitSource { config with maxErrors := m } request found.1
          = emitSource { config with maxErrors := n } request found.1 := rfl
      simp only [hemit]
      split
      · exact .single (Nat.one_le_iff_ne_zero.mp hm) _ _
      · exact .accepted _
    | refused herrors hremarks =>
      refine .refused herrors ?_
      simp only []
      split
      · exact hremarks
      · exact List.prefix_rfl
  · rw [compile_eq] at hfailure
    cases hanalyse : analyse d config request with
    | error found =>
      obtain ⟨_, _, _, -, -, -, -, hok⟩ | ⟨_, hfailed, hsource⟩ := analyse_spec d config request
      · cases hanalyse.symm.trans hok
      · cases hanalyse.symm.trans hfailed
        rw [hanalyse] at hfailure
        cases hfailure
        refine ⟨hsource.1, fun scanned declarations hsupports hscan hread =>
          ⟨length_declarationErrors, ?_⟩⟩
        change found.typingErrors = _
        exact typingErrors_of_analyse hsupports hscan hread hanalyse
    | ok found =>
      obtain ⟨r, remarks⟩ := found
      simp only [hanalyse] at hfailure
      split at hfailure
      -- A failure to emit is a single error, and none of typing.
      · rename_i error hemit
        cases hfailure
        refine ⟨List.cons_ne_nil _ _, fun scanned declarations _ hscan hread =>
          ⟨length_declarationErrors, ?_⟩⟩
        rw [declarationErrors_of_analyse hscan hread hanalyse, Failure.typingErrors,
          List.filter_cons_of_neg (by simp [isTyping_of_emitSource hemit]), List.filter_nil]
      · cases hfailure

/-- A source in which three of four declarations are refused, the last one after a remark. -/
def refusedRequest : Request where
  stage := .vertex
  source := "float f() { return a; } float g; float h() { return b; }
    void main() { float g; c = g; }"

theorem compile_truncates_refusedRequest :
    ∃ failure failure', compile .glsl { maxErrors := 2 } refusedRequest = .error failure
      ∧ compile .glsl { maxErrors := 3 } refusedRequest = .error failure'
      ∧ failure'.errors.length = 3 ∧ failure'.remarks.length = 1
      ∧ failure.errors = failure'.errors.take 2 ∧ failure.remarks <+: failure'.remarks := by
  have htruncates := (compile_truncates .glsl {} refusedRequest (m := 2) (n := 3) (by decide)
    (by decide)).1
  have hthree : (compile .glsl { maxErrors := 3 } refusedRequest).mapError
      (fun failure => (failure.errors.length, failure.remarks.length)) = .error (3, 1) := by
    decide +kernel
  generalize compile .glsl { maxErrors := 2 } refusedRequest = found at htruncates ⊢
  generalize compile .glsl { maxErrors := 3 } refusedRequest = found' at htruncates hthree ⊢
  cases htruncates with
  | accepted compiled => cases hthree
  | @refused failure failure' herrors hremarks =>
    obtain ⟨hlength, hremark⟩ := Prod.ext_iff.mp (Except.error.inj hthree)
    exact ⟨failure, failure', rfl, rfl, hlength, hremark, herrors, hremarks⟩

end Compiled

end ShaderBytecode
