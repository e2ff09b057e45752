import ShaderBytecode.Proofs.Compilation

/-!
# Compiled programs are verified

The code of a program is cut where its routines start. Each piece is a routine of its own: control
enters it at its start with an empty stack, never leaves it by a jump or by falling through, and
every instruction is legal on the stack it finds.
-/

namespace ShaderBytecode

/-- The end of the piece that starts at an offset, if code of some length is cut at offsets. -/
def pieceEnd (cuts : List Nat) (length start : Nat) : Nat :=
  (cuts.find? (start < ·)).getD length

namespace Program

variable (p : Program)

/-- Where the routines of a program start, and what they return: the functions in their order, and
the initialisation of the globals. -/
def parts : List (Nat × DataType) :=
  p.functions.map (fun f => (f.address, f.returnType)) ++ [(p.initAddress, .void)]

/-- The instructions of the routine that starts at an address, if the instructions of code of some
length are cut where routines start. -/
def partAt (length : Nat) (entries : List Entry) (address : Nat) : List Entry :=
  slice address (pieceEnd (p.parts.map Prod.fst) length address) entries

/-- What the code of a program can refer to in a routine with certain slots and a result. -/
def codeContext (d : Dialect) (slots : List DataType) (result : DataType) : CodeContext where
  dialect := d
  structures := p.structures
  globals := (p.builtins ++ p.globals).map (·.type)
  functions := p.functions.map Function.callShape
  locals := slots
  result := result

end Program

/-- Control stays in a routine until it returns, and it returns what the routine has to: its last
instruction is the return of its kind, it has none of the other kind, and wherever control goes from
an instruction, by a jump or by falling through, is an instruction of the routine. -/
structure ClosedRoutine (result : DataType) (entries : List Entry) : Prop where
  returns : ∃ last, entries.getLast? = some last
    ∧ last.instruction = .simple (if result.isVoid then .ret else .retValue)
  only : ∀ e ∈ entries, e.instruction ≠ .simple (if result.isVoid then .retValue else .ret)
  jumps : ∀ e ∈ entries, ∀ target ∈ e.instruction.jumpTarget?,
    isInstructionStart entries target.toNat = true
  stays : ∀ e ∈ entries, ∀ next ∈ e.successors, isInstructionStart entries next = true

theorem Routine.Verified.closed {r : Routine} {types : Nat → StackType} (h : r.Verified types) :
    ClosedRoutine r.context.result r.entries where
  returns := h.getLast?
  only := by
    intro e he hother
    cases hvoid : r.context.result.isVoid with
    | true =>
      rw [hvoid, if_pos rfl] at hother
      rw [h.isVoid_of_retValue he hother] at hvoid
      cases hvoid
    | false =>
      rw [hvoid, if_neg Bool.false_ne_true] at hother
      rw [h.isVoid_of_ret he hother] at hvoid
      cases hvoid
  jumps := h.jumps
  stays := h.stays

/-- In a chain the piece that starts with a routine ends with it. -/
theorem Chain.pieceEnd_eq {p : Nat} {routines : List Routine} (h : Chain p routines) {r : Routine}
    (hr : r ∈ routines) :
    pieceEnd (routines.map Routine.start) (p + sizeAll (routines.flatMap (·.code))) r.start
      = r.stop := by
  induction routines generalizing p with
  | nil => cases hr
  | cons first rest ih =>
    obtain ⟨rfl, hne, hrest⟩ := h
    have hbefore : ¬ r.start < first.start := by
      obtain rfl | hr := List.mem_cons.mp hr
      · exact Nat.lt_irrefl _
      · exact Nat.not_lt.mpr (Nat.le_trans (Nat.le_of_lt (start_lt_stop hne)) (start_le hrest hr))
    rw [List.flatMap_cons, sizeAll_code_append, ← Nat.add_assoc, pieceEnd, List.map_cons,
      List.find?_cons_of_neg (by simpa using hbefore)]
    obtain rfl | hr := List.mem_cons.mp hr
    · cases rest with
      | nil => rfl
      | cons next others =>
        have hnext : r.start < next.start := hrest.1 ▸ start_lt_stop hne
        rw [List.map_cons, List.find?_cons_of_pos (by simpa using hnext)]
        exact hrest.1
    · exact ih hrest hr

/-! ## The routines of a compiled source -/

section Pairs

variable {α β γ δ : Type} {R : α → β → Prop} {g : α → β → γ} {as : List α} {bs : List β}

theorem map_zipWith_right (h : List.Forall₂ R as bs) {f : γ → δ} {k : β → δ}
    (hk : ∀ a b, R a b → f (g a b) = k b) : (List.zipWith g as bs).map f = bs.map k := by
  induction h with
  | nil => rfl
  | cons hab _ ih => rw [List.zipWith_cons_cons, List.map_cons, List.map_cons, ih, hk _ _ hab]

theorem map_zipWith_left (h : List.Forall₂ R as bs) {f : γ → δ} {k : α → δ}
    (hk : ∀ a b, R a b → f (g a b) = k a) : (List.zipWith g as bs).map f = as.map k := by
  induction h with
  | nil => rfl
  | cons hab _ ih => rw [List.zipWith_cons_cons, List.map_cons, List.map_cons, ih, hk _ _ hab]

theorem mem_zipWith (h : List.Forall₂ R as bs) {c : γ} (hc : c ∈ List.zipWith g as bs) :
    ∃ a ∈ as, ∃ b ∈ bs, R a b ∧ c = g a b := by
  induction h with
  | nil => cases hc
  | @cons a b _ _ hab _ ih =>
    obtain rfl | hc := List.mem_cons.mp hc
    · exact ⟨a, List.mem_cons_self .., b, List.mem_cons_self .., hab, rfl⟩
    · obtain ⟨a', ha', b', hb', hrest⟩ := ih hc
      exact ⟨a', List.mem_cons_of_mem _ ha', b', List.mem_cons_of_mem _ hb', hrest⟩

theorem exists_of_mem_right (h : List.Forall₂ R as bs) {b : β} (hb : b ∈ bs) :
    ∃ a ∈ as, R a b := by
  induction h with
  | nil => cases hb
  | @cons a b' _ _ hab _ ih =>
    obtain rfl | hb := List.mem_cons.mp hb
    · exact ⟨a, List.mem_cons_self .., hab⟩
    · obtain ⟨a', ha', hrest⟩ := ih hb
      exact ⟨a', List.mem_cons_of_mem _ ha', hrest⟩

theorem exists_getElem?_right (h : List.Forall₂ R as bs) {i : Nat} {a : α} (ha : as[i]? = some a) :
    ∃ b, bs[i]? = some b ∧ R a b := by
  induction h generalizing i with
  | nil => cases ha
  | @cons a' b _ _ hab _ ih =>
    cases i with
    | zero =>
      cases ha
      exact ⟨b, rfl, hab⟩
    | succ i => exact ih ha

end Pairs

namespace CompiledAs

variable {d : Dialect} {request : Request} {compiled : Compiled} {r : Typed.Registry}
variable {routines : List Routine} {init : Routine}
variable (h : CompiledAs d request compiled r routines init)
include h

theorem chain : Chain 0 (routines ++ [init]) := by
  obtain ⟨e, hemitted, -⟩ := h.emitted
  exact hemitted.chain

theorem placed : List.Forall₂ (Typed.Function.PlacedAs d r) r.functions routines := by
  obtain ⟨e, hemitted, -⟩ := h.emitted
  exact hemitted.placed

theorem functions :
    compiled.program.functions = List.zipWith Typed.Function.placedAt r.functions routines := by
  obtain ⟨e, hemitted, -, hprogram⟩ := h.emitted
  rw [hprogram]
  exact hemitted.functions

theorem bytes : compiled.bytes = encodeAll ((routines ++ [init]).flatMap (·.code)) := by
  obtain ⟨e, hemitted, hcode, -⟩ := h.emitted
  rw [Compiled.bytes, hcode, hemitted.code]

theorem length_bytes :
    compiled.bytes.length = 0 + sizeAll ((routines ++ [init]).flatMap (·.code)) := by
  rw [h.bytes, length_encodeAll, Nat.zero_add]

theorem initAddress : compiled.program.initAddress = init.start := by
  obtain ⟨e, hemitted, -, hprogram⟩ := h.emitted
  rw [hprogram]
  exact hemitted.initAddress

theorem init_context : init.context = r.codeContext d [] .void := by
  obtain ⟨e, hemitted, -⟩ := h.emitted
  exact hemitted.context

theorem exists_types : ∃ types, ∀ x ∈ routines ++ [init], x.Verified types := by
  refine h.chain.exists_types fun x hx => ?_
  obtain hx | hx := List.mem_append.mp hx
  · obtain ⟨f, -, hplaced⟩ := exists_of_mem_right h.placed hx
    exact hplaced.verified
  · obtain ⟨e, hemitted, -⟩ := h.emitted
    rw [List.mem_singleton.mp hx]
    exact hemitted.verified

theorem parts :
    compiled.program.parts = (routines ++ [init]).map fun x => (x.start, x.context.result) := by
  rw [Program.parts, h.functions, h.initAddress, List.map_append, List.map_singleton,
    h.init_context, map_zipWith_right h.placed]
  · rfl
  · intro f x hplaced
    obtain ⟨definition, slots, -, hcontext, -⟩ := hplaced.context
    rw [hcontext]
    rfl

theorem starts :
    compiled.program.parts.map Prod.fst = (routines ++ [init]).map Routine.start := by
  rw [h.parts, List.map_map]
  rfl

theorem disassemble_eq :
    disassemble compiled.bytes = .ok ((routines ++ [init]).flatMap Routine.entries) := by
  obtain ⟨types, hverified⟩ := h.exists_types
  rw [h.bytes, ← h.chain.entries]
  refine disassemble_encodeAll ?_ ?_
  · intro i hi
    obtain ⟨x, hx, hi⟩ := List.mem_flatMap.mp hi
    exact (hverified x hx).wellFormed i hi
  · intro i hi target htarget
    obtain ⟨x, hx, hi⟩ := List.mem_flatMap.mp hi
    obtain ⟨before, after, hcode⟩ := List.append_of_mem hi
    have he : Entry.mk (x.start + sizeAll before) i ∈ x.entries :=
      mem_entriesFrom.mpr ⟨before, after, hcode, rfl⟩
    obtain ⟨e', he', hoffset⟩ :=
      exists_of_isInstructionStart ((hverified x hx).jumps _ he target htarget)
    refine .inr ((isInstructionStart_iff (pairwise_entriesFrom _ _)).mpr ⟨e', ?_, hoffset⟩)
    rw [h.chain.entries]
    exact List.mem_flatMap.mpr ⟨x, hx, he'⟩

theorem partAt_eq {x : Routine} (hx : x ∈ routines ++ [init]) :
    compiled.program.partAt compiled.bytes.length ((routines ++ [init]).flatMap Routine.entries)
      x.start = x.entries := by
  rw [Program.partAt, h.starts, h.length_bytes, h.chain.pieceEnd_eq hx, h.chain.slice_entries hx]

/-- What the code of the program can refer to is what was registered. -/
theorem codeContext (slots : List DataType) (result : DataType) :
    compiled.program.codeContext d slots result = r.codeContext d slots result := by
  have hfunctions : compiled.program.functions.map Function.callShape
      = r.functions.map (·.signature.callShape) := by
    rw [h.functions, map_zipWith_left h.placed]
    intro f x _
    rfl
  obtain ⟨e, -, -, hprogram⟩ := h.emitted
  rw [Program.codeContext, hfunctions, hprogram]
  rfl

end CompiledAs

/-! ## Closed routines -/

variable {d : Dialect} {config : Config} {request : Request} {compiled : Compiled}

theorem compiledAs_of_compile (hlength : request.source.length < 2 ^ 24)
    (h : compile d config request = .ok compiled) :
    ∃ r routines init, CompiledAs d request compiled r routines init := by
  have hanswers := compile_answers (d := d) config hlength
  rwa [h] at hanswers

/-- A source with a function that leaves its loop, and a call of it. -/
def leavingRequest : Request where
  stage := .pixel
  source := "float f(float x) \x7b while (x > 1.0) \x7b if (x > 9.0) break; x--; \x7d return x; \x7d
    void main() \x7b f(2.0); \x7d"

theorem length_leavingRequest : leavingRequest.source.length < 2 ^ 24 := by
  decide +kernel

theorem exists_compile_leavingRequest :
    ∃ compiled, compile .glsl {} leavingRequest = .ok compiled := by
  have hsome : (compile .glsl {} leavingRequest).toOption.isSome = true := by
    decide +kernel
  obtain ⟨compiled, hcompiled⟩ := exists_ok_of_isSome hsome
  exact ⟨compiled, hcompiled⟩

theorem CompiledAs.head?_functions {r : Typed.Registry} {routines : List Routine} {init : Routine}
    (h : CompiledAs d request compiled r routines init) :
    compiled.program.functions.head?.map (·.address) = some 0 := by
  obtain ⟨f, hf⟩ := Option.isSome_iff_exists.mp h.entryPoint
  have hmem : f ∈ compiled.program.functions := List.mem_of_find?_eq_some hf
  rw [h.functions] at hmem ⊢
  cases hregistered : r.functions with
  | nil =>
    rw [hregistered] at hmem
    cases hmem
  | cons first others =>
    cases routines with
    | nil =>
      rw [List.zipWith_nil_right] at hmem
      cases hmem
    | cons x rest => exact congrArg some h.chain.1

/-- The code of a compiled source can be read back and falls apart into closed routines. The
functions start one after the other in the order of the registry, the first of them at the first
byte, and the initialisation of the globals stands behind them and before the end. Every routine
starts with an instruction, its piece of the code has a return of its kind at its end and no other
kind of return, and no control leaves it. -/
theorem compile_closedRoutines (hlength : request.source.length < 2 ^ 24)
    (h : compile d config request = .ok compiled) :
    ∃ entries, disassemble compiled.bytes = .ok entries
      ∧ compiled.program.functions.head?.map (·.address) = some 0
      ∧ (compiled.program.parts.map Prod.fst ++ [compiled.bytes.length]).Pairwise (· < ·)
      ∧ (∀ part ∈ compiled.program.parts, isInstructionStart entries part.1 = true)
      ∧ (compiled.program.parts.flatMap fun part =>
          compiled.program.partAt compiled.bytes.length entries part.1) = entries
      ∧ ∀ part ∈ compiled.program.parts, ClosedRoutine part.2
          (compiled.program.partAt compiled.bytes.length entries part.1) := by
  obtain ⟨r, routines, init, hknown⟩ := compiledAs_of_compile hlength h
  obtain ⟨types, hverified⟩ := hknown.exists_types
  refine ⟨(routines ++ [init]).flatMap Routine.entries, hknown.disassemble_eq,
    hknown.head?_functions, ?_, ?_, ?_, ?_⟩
  · rw [hknown.starts]
    refine List.pairwise_append.mpr ⟨hknown.chain.pairwise_start, List.pairwise_singleton _ _, ?_⟩
    intro start hstart length hlength
    obtain ⟨x, hx, rfl⟩ := List.mem_map.mp hstart
    rw [List.mem_singleton.mp hlength, hknown.length_bytes]
    exact Nat.lt_of_lt_of_le (Chain.start_lt_stop (hknown.chain.ne_nil hx))
      (hknown.chain.stop_le hx)
  · intro part hpart
    rw [hknown.parts] at hpart
    obtain ⟨x, hx, rfl⟩ := List.mem_map.mp hpart
    obtain ⟨e, he, hoffset⟩ := Routine.exists_entry_start (hknown.chain.ne_nil hx)
    have hsorted := pairwise_entriesFrom 0 ((routines ++ [init]).flatMap (·.code))
    rw [hknown.chain.entries] at hsorted
    exact (isInstructionStart_iff hsorted).mpr ⟨e, List.mem_flatMap.mpr ⟨x, hx, he⟩, hoffset⟩
  · rw [hknown.parts, List.flatMap_map]
    exact List.flatMap_congr fun x hx => hknown.partAt_eq hx
  · intro part hpart
    rw [hknown.parts] at hpart
    obtain ⟨x, hx, rfl⟩ := List.mem_map.mp hpart
    rw [hknown.partAt_eq hx]
    exact (hverified x hx).closed

theorem compile_closedRoutines_leavingRequest :
    leavingRequest.source.length < 2 ^ 24 ∧ ∃ compiled entries,
      compile .glsl {} leavingRequest = .ok compiled
      ∧ disassemble compiled.bytes = .ok entries
      ∧ ∀ part ∈ compiled.program.parts, ClosedRoutine part.2
          (compiled.program.partAt compiled.bytes.length entries part.1) := by
  obtain ⟨compiled, hcompiled⟩ := exists_compile_leavingRequest
  obtain ⟨entries, hentries, -, -, -, -, hclosed⟩ :=
    compile_closedRoutines length_leavingRequest hcompiled
  exact ⟨length_leavingRequest, compiled, entries, hcompiled, hentries, hclosed⟩

/-! ## Bytecode verification -/

namespace Typed

/-- The names of the locals of a function, if it has any, under its own name. -/
def Function.localNames? (f : Function) : Option (String × List String) := do
  let definition ← f.definition
  if definition.locals.isEmpty then none else some (f.signature.name, definition.locals)

theorem lookup_localNames_eq_none {fs : List Function} {name : String}
    (h : name ∉ fs.map (·.signature.name)) :
    (fs.filterMap Function.localNames?).lookup name = none := by
  refine List.lookup_eq_none_iff.mpr fun pair hpair => ?_
  obtain ⟨f, hf, hnames⟩ := List.mem_filterMap.mp hpair
  obtain ⟨definition, -, hsome⟩ := Option.bind_eq_some_iff.mp hnames
  split at hsome
  · cases hsome
  · cases hsome
    exact bne_iff_ne.mpr fun hsame => h (hsame ▸ List.mem_map_of_mem hf)

theorem Registry.lookup_localNames {r : Registry} (h : (r.functions.map (·.signature.name)).Nodup)
    {f : Function} (hf : f ∈ r.functions) {definition : Definition}
    (hdefinition : f.definition = some definition) :
    (r.localNames.lookup f.signature.name).getD [] = definition.locals := by
  obtain ⟨before, after, hfunctions⟩ := List.append_of_mem hf
  rw [hfunctions, List.map_append, List.map_cons] at h
  obtain ⟨-, hafter, hbefore⟩ := List.nodup_append.mp h
  have hlater := lookup_localNames_eq_none (List.nodup_cons.mp hafter).1
  have hearlier := lookup_localNames_eq_none fun hmem =>
    hbefore _ hmem _ (List.mem_cons_self ..) rfl
  have hnames : r.localNames = (before ++ f :: after).filterMap Function.localNames? := by
    rw [← hfunctions]
    rfl
  rw [hnames, List.filterMap_append, List.lookup_append, hearlier, Option.none_or]
  cases hlocals : definition.locals with
  | nil =>
    have hnone : f.localNames? = none := by
      simp [Function.localNames?, hdefinition, hlocals]
    rw [List.filterMap_cons_none hnone, hlater, Option.getD_none]
  | cons name names =>
    have hsome : f.localNames? = some (f.signature.name, name :: names) := by
      simp [Function.localNames?, hdefinition, hlocals]
    rw [List.filterMap_cons_some hsome, List.lookup_cons_self, Option.getD_some]

end Typed

/-- Stack types verify the entries of a routine that starts at an address: the stack is empty there,
every instruction is legal on the stack it finds and leaves the one that all that follow it find,
and those are instructions of the routine. -/
structure VerifiedRoutine (c : CodeContext) (types : Nat → StackType) (address : Nat)
    (entries : List Entry) : Prop where
  start : types address = []
  accepts : ∀ e ∈ entries, c.Accepts types e
  stays : ∀ e ∈ entries, ∀ next ∈ e.successors, isInstructionStart entries next = true

theorem Routine.Verified.verifiedRoutine {r : Routine} {types : Nat → StackType}
    (h : r.Verified types) : VerifiedRoutine r.context types r.start r.entries :=
  ⟨h.start, h.accepts, h.stays⟩

/-- The code of a compiled source passes bytecode verification: one assignment of stack types to the
offsets of the code verifies every function, with slots for its parameters and behind them for its
locals, and the initialisation of the globals, which has no slots. -/
theorem compile_verified (hlength : request.source.length < 2 ^ 24)
    (h : compile d config request = .ok compiled) :
    ∃ entries types, disassemble compiled.bytes = .ok entries
      ∧ (∀ f ∈ compiled.program.functions, ∃ slots, f.parameters.map (·.type) <+: slots
        ∧ slots.length
          = f.parameters.length + ((compiled.program.localsOf? f.name).getD []).length
        ∧ VerifiedRoutine (compiled.program.codeContext d slots f.returnType) types f.address
          (compiled.program.partAt compiled.bytes.length entries f.address))
      ∧ VerifiedRoutine (compiled.program.codeContext d [] .void) types
          compiled.program.initAddress
          (compiled.program.partAt compiled.bytes.length entries
            compiled.program.initAddress) := by
  obtain ⟨r, routines, init, hknown⟩ := compiledAs_of_compile hlength h
  obtain ⟨types, hverified⟩ := hknown.exists_types
  refine ⟨_, types, hknown.disassemble_eq, ?_, ?_⟩
  · intro f hf
    rw [hknown.functions] at hf
    obtain ⟨g, hg, x, hx, hplaced, rfl⟩ := mem_zipWith hknown.placed hf
    obtain ⟨definition, slots, hdefinition, hcontext, hstart, hcount⟩ := hplaced.context
    have hin : x ∈ routines ++ [init] := List.mem_append_left _ hx
    refine ⟨slots, hstart, ?_, ?_⟩
    · have hlocals : compiled.program.localsOf? g.signature.name
          = r.localNames.lookup g.signature.name := by
        obtain ⟨e, -, -, hprogram⟩ := hknown.emitted
        rw [hprogram]
        rfl
      rw [Typed.Function.placedAt, hlocals, r.lookup_localNames hknown.typed.names hg hdefinition]
      exact hcount
    · have hpart : compiled.program.partAt compiled.bytes.length
          ((routines ++ [init]).flatMap Routine.entries) (g.placedAt x).address = x.entries :=
        hknown.partAt_eq hin
      have hresult : (g.placedAt x).returnType = g.signature.returnType := rfl
      rw [hpart, hknown.codeContext, hresult, ← hcontext]
      exact (hverified x hin).verifiedRoutine
  · have hin : init ∈ routines ++ [init] := List.mem_append_right _ (List.mem_singleton_self _)
    rw [hknown.initAddress, hknown.partAt_eq hin, hknown.codeContext, ← hknown.init_context]
    exact (hverified init hin).verifiedRoutine

theorem compile_verified_leavingRequest :
    leavingRequest.source.length < 2 ^ 24 ∧ ∃ compiled entries types,
      compile .glsl {} leavingRequest = .ok compiled
      ∧ disassemble compiled.bytes = .ok entries
      ∧ ∀ f ∈ compiled.program.functions, ∃ slots, f.parameters.map (·.type) <+: slots
        ∧ VerifiedRoutine (compiled.program.codeContext .glsl slots f.returnType) types f.address
          (compiled.program.partAt compiled.bytes.length entries f.address) := by
  obtain ⟨compiled, hcompiled⟩ := exists_compile_leavingRequest
  obtain ⟨entries, types, hentries, hfunctions, -⟩ :=
    compile_verified length_leavingRequest hcompiled
  refine ⟨length_leavingRequest, compiled, entries, types, hcompiled, hentries, fun f hf => ?_⟩
  obtain ⟨slots, hstart, -, hverified⟩ := hfunctions f hf
  exact ⟨slots, hstart, hverified⟩

end ShaderBytecode
