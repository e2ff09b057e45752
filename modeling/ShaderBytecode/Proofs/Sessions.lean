import ShaderBytecode.Proofs.Compilation

/-!
# Sessions have no memory

What a session answers to a source, and what it keeps of it, depends on its dialect and its options
only: not on the sources before, accepted or refused, and not on what its user did to the code
buffer between them. A source that is refused leaves nothing behind. A batch is therefore answered
as if each source had a session of its own.
-/

namespace ShaderBytecode

namespace Session

/-- What can be done to a session: a source is compiled, or its code buffer is written to, patched
or reset. -/
inductive Operation where
  | parse (request : Request)
  | emit (i : Instruction)
  | emitForwardJump (opcode : Opcode)
  | patch (jump : PendingJump) (target : Nat)
  | patchToHere (jump : PendingJump)
  | reset
deriving DecidableEq, Repr

def settings (s : Session) : Dialect × Config :=
  (s.dialect, s.config)

/-- A session with another code buffer, if there is one. -/
def withBuffer (s : Session) : Except BufferError CodeBuffer → Session
  | .ok buffer => { s with buffer }
  | .error _ => s

/-- A session behind an operation. What a code buffer refuses changes nothing. -/
def apply (s : Session) : Operation → Session
  | .parse request => (s.parse request).2
  | .emit i => s.withBuffer (.ok (s.buffer.emit i))
  | .emitForwardJump opcode => s.withBuffer ((s.buffer.emitForwardJump opcode).map Prod.snd)
  | .patch jump target => s.withBuffer (s.buffer.patch jump target)
  | .patchToHere jump => s.withBuffer (s.buffer.patchToHere jump)
  | .reset => s.withBuffer (.ok s.buffer.reset)

def run (s : Session) (history : List Operation) : Session :=
  history.foldl apply s

/-- What the user of a session gets for a source: the errors, or the code, the registries and the
remarks that the session keeps. -/
def answer : Option Failure × Session →
    Except Failure (List UInt8 × Program × List (Located Remark))
  | (some failure, _) => .error failure
  | (none, s) => .ok (s.buffer.bytes, s.program, s.remarks)

variable {s s' : Session}

/-! ## Histories -/

theorem settings_withBuffer (buffer : Except BufferError CodeBuffer) :
    (s.withBuffer buffer).settings = s.settings := by
  cases buffer with
  | ok _ => rfl
  | error _ => rfl

theorem settings_parse (s : Session) (request : Request) :
    (s.parse request).2.settings = s.settings := by
  unfold parse
  simp only []
  split
  · rfl
  · rfl

theorem settings_apply (s : Session) (operation : Operation) :
    (s.apply operation).settings = s.settings := by
  cases operation with
  | parse request => exact s.settings_parse request
  | _ => exact settings_withBuffer _

theorem settings_run (s : Session) (history : List Operation) :
    (s.run history).settings = s.settings := by
  induction history generalizing s with
  | nil => rfl
  | cons operation rest ih => exact (ih (s.apply operation)).trans (s.settings_apply operation)

/-- Sessions of one dialect with the same options answer a source alike and keep the same of it. -/
theorem parse_congr (h : s.settings = s'.settings) (request : Request) :
    s.parse request = s'.parse request := by
  obtain ⟨hdialect, hconfig⟩ := Prod.mk.inj h
  have hclear : s.clear = s'.clear := by
    simp only [clear, CodeBuffer.reset, hdialect, hconfig]
  unfold parse
  rw [hclear]

theorem parse_run (s : Session) (history : List Operation) (request : Request) :
    (s.run history).parse request = s.parse request :=
  parse_congr (s.settings_run history) request

theorem eq_clear_of_parse {request : Request} {failure : Failure}
    (h : s.parse request = (some failure, s')) : s' = s.clear := by
  unfold parse at h
  simp only [] at h
  split at h
  · cases h
  · cases h
    rfl

end Session

/-! ## Emission into a buffer -/

theorem encodeAll_append (first second : List Instruction) :
    encodeAll (first ++ second) = encodeAll first ++ encodeAll second :=
  List.flatMap_append

/-- Emitted into an empty buffer a source has the code it has on its own. -/
theorem CodeBuffer.emitSource_empty (r : Typed.Registry) (markers : Bool) :
    (∃ fault b, r.emit markers = .error fault
      ∧ ({} : CodeBuffer).emitSource r markers = (.error fault, b))
    ∨ ∃ e, r.emit markers = .ok e
      ∧ ({} : CodeBuffer).emitSource r markers = (.ok e, ⟨encodeAll e.code⟩) := by
  have hempty : ({} : CodeBuffer).position = 0 := rfl
  unfold CodeBuffer.emitSource Typed.Registry.emit
  rw [hempty]
  cases Typed.emitFunctions markers 0 r.functions with
  | error fault => exact .inl ⟨fault, _, rfl, rfl⟩
  | ok result =>
    obtain ⟨code, functions⟩ := result
    have hposition : (({} : CodeBuffer).emitAll code).position = sizeAll code :=
      length_encodeAll code
    simp only [bind, Except.bind, hposition]
    cases assemble (sizeAll code) (r.initCode markers) with
    | error fault => exact .inl ⟨fault, _, rfl, rfl⟩
    | ok init =>
      refine .inr ⟨_, rfl, ?_⟩
      simp only [encodeAll_append]
      rfl

/-- Compiling a source into an empty buffer gives what compiling it on its own gives. -/
theorem compileInto_empty (d : Dialect) (config : Config) (request : Request) :
    (∃ failure b, compileInto d config request {} = (.error failure, b)
      ∧ compile d config request
        = .error { failure with remarks := if config.warnings then failure.remarks else [] })
    ∨ ∃ code program remarks,
      compileInto d config request {} = (.ok (program, remarks), ⟨encodeAll code⟩)
      ∧ compile d config request
        = .ok ⟨code, program, if config.warnings then remarks else []⟩ := by
  unfold compileInto
  rw [compile_eq]
  cases analyse d config request with
  | error failure => exact .inl ⟨failure, _, rfl, rfl⟩
  | ok analysed =>
    obtain ⟨r, remarks⟩ := analysed
    obtain ⟨fault, b, hemit, hbuffer⟩ | ⟨e, hemit, hbuffer⟩ :=
      CodeBuffer.emitSource_empty r config.lineMarkers
    · simp only [hbuffer, emitSource, hemit]
      exact .inl ⟨_, b, rfl, rfl⟩
    · simp only [hbuffer, emitSource, hemit]
      cases hprogram : programOf request r (.ok e) with
      | error error => exact .inl ⟨_, _, rfl, rfl⟩
      | ok result =>
        obtain ⟨code, program⟩ := result
        obtain ⟨_, hsame, rfl, -⟩ := exists_of_programOf hprogram
        cases hsame
        exact .inr ⟨_, program, remarks, rfl, rfl⟩

namespace Session

theorem answer_parse_new (d : Dialect) (config : Config) (request : Request) :
    answer (({ dialect := d, config } : Session).parse request)
      = (compile d config request).map fun c => (c.bytes, c.program, c.remarks) := by
  have hclear : ({ dialect := d, config } : Session).clear = { dialect := d, config } := rfl
  unfold parse
  rw [hclear]
  obtain ⟨failure, b, hinto, hcompile⟩ | ⟨code, program, remarks, hinto, hcompile⟩ :=
    compileInto_empty d config request
  · simp only [hinto, hcompile, answer]
    by_cases h : config.warnings = true
    · rw [if_pos h, if_pos h]
      rfl
    · rw [if_neg h, if_neg h]
      rfl
  · simp only [hinto, hcompile, answer]
    rfl

/-- A session has no memory: behind any history it answers a source as a new session does, and keeps
the same of it. A source that is refused leaves no code, no registries and no remarks, and the
options as they were. A batch gives for each of its sources, in their order, what a session with any
history gives for it. -/
theorem parse_memoryless (d : Dialect) (config : Config) (history : List Operation) :
    (∀ request, (({ dialect := d, config } : Session).run history).parse request
      = ({ dialect := d, config } : Session).parse request)
    ∧ (∀ request failure s,
        (({ dialect := d, config } : Session).run history).parse request = (some failure, s) →
        s.buffer.bytes = [] ∧ s.program = {} ∧ s.remarks = [] ∧ s.config = config)
    ∧ ∀ (jobs : List Job) (i : Nat),
      (compileBatch config jobs)[i]?.map (fun (name, result) =>
          (name, result.map fun c => (c.bytes, c.program, c.remarks)))
        = jobs[i]?.map fun job => (job.name, answer
          ((({ dialect := job.dialect, config } : Session).run history).parse job.request)) := by
  refine ⟨fun request => parse_run _ history request, ?_, fun jobs i => ?_⟩
  · intro request failure s h
    rw [parse_run] at h
    rw [eq_clear_of_parse h]
    exact ⟨rfl, rfl, rfl, rfl⟩
  · rw [compileBatch, List.getElem?_map, Option.map_map]
    congr 1
    funext job
    simp only [Function.comp_apply, parse_run, answer_parse_new]

/-- A source whose entry point is missing, which shows only behind its emission. -/
def strayRequest : Request where
  stage := .pixel
  source := "float x = 1.0; void f() \x7b x = 2.0; \x7d"

/-- A history with an accepted source, a patched jump and a refused source. -/
def busyHistory : List Operation :=
  [.parse { strayRequest with entryPoint := "f" }, .emitForwardJump (.jump .always),
    .patch ⟨1⟩ 7, .parse strayRequest, .emit (.simple .nop)]

theorem parse_memoryless_busyHistory : ∃ failure s,
    (({ dialect := .glsl, config := {} } : Session).run busyHistory).parse strayRequest
      = (some failure, s)
    ∧ s.buffer.bytes = [] ∧ s.program = {} ∧ s.remarks = [] ∧ s.config = {} := by
  have hrefused : (({ dialect := .glsl, config := {} } : Session).parse strayRequest).1.isSome
      = true := by
    decide +kernel
  obtain ⟨hsame, hfailed, -⟩ := parse_memoryless .glsl {} busyHistory
  have hparse := hsame strayRequest
  generalize ({ dialect := .glsl, config := {} } : Session).parse strayRequest = refused
    at hrefused hparse
  obtain ⟨result, s⟩ := refused
  obtain ⟨failure, rfl⟩ := Option.isSome_iff_exists.mp hrefused
  exact ⟨failure, s, hparse, hfailed strayRequest failure s hparse⟩

end Session

end ShaderBytecode
