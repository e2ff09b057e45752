import ShaderBytecode.Proofs.Emission
import ShaderBytecode.Proofs.ReadSources

/-!
# Compiling

What compiling a source gives: a program made of verified routines, or errors that are the source's
own.
-/

namespace ShaderBytecode

open Typed (Registry)

/-- What is known of a compiled source: its registries, and the routines its code is made of. -/
structure CompiledAs (d : Dialect) (request : Request) (compiled : Compiled) (r : Registry)
    (routines : List Routine) (init : Routine) : Prop where
  typed : r.WellTyped d
  emitted : ∃ e, r.EmittedAs d e routines init ∧ compiled.code = e.code
    ∧ compiled.program = Program.ofEmitted r request.stage request.entryPoint e
  entryPoint : (compiled.program.function? request.entryPoint).isSome = true

def Failure.OfSource (f : Failure) : Prop :=
  f.errors ≠ [] ∧ ∀ e ∈ f.errors, e.cause.kind ≠ .compiler

theorem Failure.ofSource_singleton {error : Diagnostic} {remarks : List (Located Remark)}
    (h : error.cause.kind ≠ .compiler) : Failure.OfSource ⟨[error], remarks⟩ :=
  ⟨List.cons_ne_nil _ _, List.forall_mem_singleton.mpr h⟩

theorem eq_ok_of_toOption {ε α : Type} {x : Except ε α} {a : α} (h : x.toOption = some a) :
    x = .ok a := by
  cases x with
  | error e => cases h
  | ok b =>
    cases h
    rfl

theorem exists_ok_of_any {ε α : Type} {x : Except ε α} {p : α → Bool}
    (h : x.toOption.any p = true) : ∃ a, x = .ok a ∧ p a = true := by
  obtain ⟨a, ha, hp⟩ := (Option.any_eq_true _ _).mp h
  exact ⟨a, eq_ok_of_toOption ha, hp⟩

theorem exists_ok_of_isSome {ε α : Type} {x : Except ε α} (h : x.toOption.isSome = true) :
    ∃ a, x = .ok a := by
  obtain ⟨a, ha⟩ := Option.isSome_iff_exists.mp h
  exact ⟨a, eq_ok_of_toOption ha⟩

variable {d : Dialect} (config : Config) {request : Request}

/-- An accepted source is emitted, and all that can be wrong then is that its entry point is
missing. -/
theorem emitSource_cases (request : Request) {r : Registry} {weight : Nat}
    (h : r.Accepted d weight) (hweight : weight < 2 ^ 24) :
    (∃ code program, emitSource config request r = .ok (code, program) ∧
      ∀ remarks, ∃ routines init, CompiledAs d request ⟨code, program, remarks⟩ r routines init)
    ∨ ∃ error, emitSource config request r = .error error ∧ error.cause.kind ≠ .compiler := by
  obtain ⟨e, routines, init, hemit, hemitted⟩ :=
    r.exists_emit config.lineMarkers h.typed (Registry.fits_of_load h.load hweight) h.defined
  unfold emitSource programOf
  rw [hemit]
  simp only []
  split
  · rename_i hentry
    exact .inl ⟨_, _, rfl, fun remarks =>
      ⟨routines, init, h.typed, ⟨e, hemitted, rfl, rfl⟩, hentry⟩⟩
  · exact .inr ⟨_, rfl, nofun⟩

/-- The program of an emitted source has its code and its registries. -/
theorem exists_of_programOf {request : Request} {r : Registry} {emission : Except EmitFault Emitted}
    {code : List Instruction} {program : Program}
    (h : programOf request r emission = .ok (code, program)) : ∃ e, emission = .ok e
      ∧ code = e.code ∧ program = Program.ofEmitted r request.stage request.entryPoint e := by
  unfold programOf at h
  split at h
  · cases h
  · rename_i e
    simp only [] at h
    split at h
    · cases h
      exact ⟨e, rfl, rfl, rfl⟩
    · cases h

/-- Compiling a source is analysing and emitting it. Remarks are kept only if warnings are wanted. -/
theorem compile_eq (d : Dialect) (request : Request) : compile d config request =
    match analyse d config request with
    | .error failure =>
      .error { failure with remarks := if config.warnings then failure.remarks else [] }
    | .ok (r, remarks) =>
      match emitSource config request r with
      | .error error => .error ⟨[error], if config.warnings then remarks else []⟩
      | .ok (code, program) => .ok ⟨code, program, if config.warnings then remarks else []⟩ := by
  unfold compile compileVerbose
  cases analyse d config request with
  | error failure => cases config.warnings <;> rfl
  | ok analysed =>
    simp only [bind, Except.bind]
    cases emitSource config request analysed.1 with
    | error error => cases config.warnings <;> rfl
    | ok emitted => cases config.warnings <;> rfl

/-- What compiling a source may give: a program made of verified routines, or errors of the
source. -/
def Answers (d : Dialect) (request : Request) : Except Failure Compiled → Prop
  | .ok compiled => ∃ r routines init, CompiledAs d request compiled r routines init
  | .error failure => failure.OfSource

theorem analyse_spec (d : Dialect) (config : Config) (request : Request) :
    (∃ scanned declarations r, d.supports request.stage = true
      ∧ scan d request.source = .ok scanned ∧ Ast.ofTokens d scanned = .ok declarations
      ∧ (typeSource d config request.stage declarations).1 = .ok r
      ∧ analyse d config request = .ok (r, scanned.pragmas.map (Located.mk .ignoredPragma)
        ++ (typeSource d config request.stage declarations).2))
    ∨ ∃ failure, analyse d config request = .error failure ∧ failure.OfSource := by
  unfold analyse
  simp only []
  split
  · exact .inr ⟨_, rfl, Failure.ofSource_singleton nofun⟩
  · rename_i hstage
    split
    · exact .inr ⟨_, rfl, Failure.ofSource_singleton nofun⟩
    · rename_i scanned hscan
      simp only [pure_bind]
      split
      · exact .inr ⟨_, rfl, Failure.ofSource_singleton nofun⟩
      · rename_i declarations hread
        have htyped := typeSource_meets d config request.stage declarations
        split
        · rename_i errors herrors
          rw [herrors] at htyped
          exact .inr ⟨_, rfl, htyped⟩
        · rename_i r hr
          exact .inl ⟨scanned, declarations, r, by simpa using hstage, hscan, hread, hr, rfl⟩

/-- A source of fewer than so many characters is accepted, or it has errors of its own. -/
theorem analyse_cases (hlength : request.source.length < 2 ^ 24) :
    (∃ r remarks weight, analyse d config request = .ok (r, remarks) ∧ r.Accepted d weight
      ∧ weight < 2 ^ 24)
    ∨ ∃ failure, analyse d config request = .error failure ∧ failure.OfSource := by
  obtain ⟨scanned, declarations, r, -, hscan, hread, hr, hanalyse⟩ | hfailed :=
    analyse_spec d config request
  · have haccepted := typeSource_meets d config request.stage declarations
    rw [hr] at haccepted
    exact .inl ⟨r, _, _, hanalyse, haccepted,
      Nat.lt_of_le_of_lt (Ast.weightAll_le_length hscan hread) hlength⟩
  · exact .inr hfailed

theorem compileVerbose_answers (hlength : request.source.length < 2 ^ 24) :
    Answers d request (compileVerbose d config request) := by
  unfold compileVerbose
  obtain ⟨r, remarks, weight, hanalyse, haccepted, hweight⟩ | ⟨failure, hanalyse, hsource⟩ :=
    analyse_cases config hlength
  · rw [hanalyse]
    obtain ⟨code, program, hemit, hall⟩ | ⟨error, hemit, hkind⟩ :=
      emitSource_cases config request haccepted hweight
    · simp only [bind, Except.bind, hemit]
      exact ⟨r, hall remarks⟩
    · simp only [bind, Except.bind, hemit]
      exact Failure.ofSource_singleton hkind
  · rw [hanalyse]
    exact hsource

/-- A source of fewer than so many characters is compiled to verified routines, or it has errors of
its own. -/
theorem compile_answers (hlength : request.source.length < 2 ^ 24) :
    Answers d request (compile d config request) := by
  have hanswers := compileVerbose_answers (d := d) config hlength
  unfold compile
  split
  · rename_i compiled hcompiled
    rw [hcompiled] at hanswers
    obtain ⟨r, routines, init, hknown⟩ := hanswers
    refine ⟨r, routines, init, ?_⟩
    split
    · exact hknown
    · exact ⟨hknown.typed, hknown.emitted, hknown.entryPoint⟩
  · rename_i failure hfailure
    rw [hfailure] at hanswers
    split
    · exact hanswers
    · exact hanswers

end ShaderBytecode
