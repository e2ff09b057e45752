import Mathlib.Data.List.Chain
import ShaderBytecode.Proofs.CallCycles
import ShaderBytecode.Proofs.Placement
import ShaderBytecode.Proofs.Writes

/-!
# Call chains are short

The calls in the code of a function are the calls in its body. A source with a recursion is not
compiled, so in the code of a compiled source no function calls itself, directly or through others,
and a chain of calls is no longer than there are functions.
-/

namespace ShaderBytecode

open Relation (ReflTransGen TransGen)

/-- The number of the function that an instruction calls. -/
def Instruction.callee? : Instruction → Option Nat
  | .call .function callee _ => some callee.toNat
  | _ => none

abbrev Item.callees (items : List Item) : List Nat :=
  Item.pick Instruction.callee? items

/-! ## Trees -/

namespace Typed

/-- The functions that are called among mentions, with their numbers in code. -/
def Mention.callees (mentions : List Mention) : List Nat :=
  (Mention.calls mentions).map fun call => (UInt32.ofNat call.value).toNat

theorem picksAccesses_callee : PicksAccesses Instruction.callee? := by
  intro i hi
  cases i with
  | call target callee count =>
    cases target with
    | function => cases hi
    | intrinsic => rfl
  | _ => rfl

theorem Access.callee?_instruction {a : Access} {j : Nat} : a.instruction.callee? = some j
    ↔ ∃ function, a.mention? = some (.call function)
      ∧ (UInt32.ofNat function.value).toNat = j := by
  obtain (_ | _) | ((_ | _) | (_ | _)) | _ | _ := a <;>
    simp [Access.instruction, Write.instruction, Access.mention?, Cell.mention, Write.cell,
      Instruction.callee?]

/-- The code of a function calls what its body calls. -/
theorem Definition.mem_callees_code {markers : Bool} {d : Definition} {j : Nat}
    (h : Expr.optionMentions d.zero = []) :
    j ∈ Item.callees (d.code markers) ↔ j ∈ Mention.callees (Statement.mentionsAll d.body) := by
  have hpick : Item.callees (d.code markers) = _ :=
    Definition.pick_code picksAccesses_callee (Expr.optionAccesses_eq_nil h)
  rw [hpick, Mention.callees]
  simp only [Access.pickAll, List.mem_flatMap, Option.mem_toList, Access.callee?_instruction,
    List.mem_map, Mention.mem_calls, ← Statement.mem_mentionsAll]
  constructor
  · rintro ⟨a, ha, function, hcall, hj⟩
    exact ⟨function, ⟨a, ha, hcall⟩, hj⟩
  · rintro ⟨function, ⟨a, ha, hcall⟩, hj⟩
    exact ⟨a, ha, function, hcall, hj⟩

/-! ## Emitted sources -/

namespace Registry

variable {d : Dialect} {r : Registry}

/-- A source with nothing wrong as a whole has no more functions than numbers. -/
theorem length_functions_le (h : r.moduleFaults = []) : r.functions.length ≤ UInt32.size := by
  by_contra hlarge
  obtain ⟨f, hf⟩ : ∃ f, r.functions[UInt32.size]? = some f :=
    ⟨_, List.getElem?_eq_getElem (Nat.not_le.mp hlarge)⟩
  exact Nat.lt_irrefl _ (defined_of_moduleFaults h hf).2

theorem acyclic_of_moduleFaults (h : r.moduleFaults = []) (i : Nat) : ¬TransGen r.Calls i i := by
  intro hcycle
  have hsome := recursion?_isSome_iff.mpr ⟨i, hcycle⟩
  obtain ⟨fault, hfault⟩ := Option.isSome_iff_exists.mp hsome
  have hnone := (List.append_eq_nil_iff.mp h).2
  rw [hfault] at hnone
  cases hnone

theorem Calls.lt (hr : r.WellTyped d) {i j : Nat} (h : r.Calls i j) :
    i < r.functions.length ∧ j < r.functions.length := by
  obtain ⟨span, f, definition, hf, hdefinition, hcall⟩ := h
  obtain ⟨hi, rfl⟩ := List.getElem?_eq_some_iff.mp hf
  obtain ⟨slots, htyped⟩ := hr.functions _ (List.getElem_mem hi) definition hdefinition
  have hj := htyped.body.inRange _ hcall
  rw [(r.lengths_codeContext d slots _).2] at hj
  exact ⟨hi, hj⟩

/-- The numbers of the functions that a body calls fit into code. -/
theorem mem_callees_mentions (hr : r.WellTyped d) (h : r.moduleFaults = []) {i j : Nat}
    {f : Function} {definition : Definition} (hf : r.functions[i]? = some f)
    (hdefinition : f.definition = some definition) :
    j ∈ Mention.callees (Statement.mentionsAll definition.body) ↔ r.Calls i j := by
  have hsame : ∀ callee span, .call ⟨callee, span⟩ ∈ Statement.mentionsAll definition.body →
      (UInt32.ofNat callee).toNat = callee := by
    intro callee span hcall
    have hlt := (Calls.lt hr ⟨span, f, definition, hf, hdefinition, hcall⟩).2
    exact UInt32.toNat_ofNat_of_lt' (Nat.lt_of_lt_of_le hlt (length_functions_le h))
  rw [Mention.callees, List.mem_map]
  constructor
  · rintro ⟨⟨callee, span⟩, hcall, rfl⟩
    rw [Mention.mem_calls] at hcall
    rw [hsame callee span hcall]
    exact ⟨span, f, definition, hf, hdefinition, hcall⟩
  · rintro ⟨span, f', definition', hf', hdefinition', hcall⟩
    cases hf.symm.trans hf'
    cases hdefinition.symm.trans hdefinition'
    exact ⟨⟨j, span⟩, Mention.mem_calls.mpr hcall, hsame j span hcall⟩

theorem exists_call_iff (hr : r.WellTyped d) (h : r.moduleFaults = []) {markers : Bool}
    {i j : Nat} {f : Function} {x : Routine} (hf : r.functions[i]? = some f)
    (hlaid : f.LaidAs markers x) :
    (∃ e ∈ x.entries, e.instruction.callee? = some j) ↔ r.Calls i j := by
  obtain ⟨definition, hdefinition, hown⟩ := hlaid
  obtain ⟨slots, htyped⟩ := hr.functions f (List.mem_of_getElem? hf) definition hdefinition
  calc (∃ e ∈ x.entries, e.instruction.callee? = some j)
      ↔ j ∈ (x.entries.map Entry.instruction).filterMap Instruction.callee? := by simp
    _ ↔ j ∈ Item.callees (definition.code markers) := by
      rw [Routine.entries, map_instruction_entriesFrom, Item.filterMap_assemble _ (fun _ _ => rfl) hown]
    _ ↔ j ∈ Mention.callees (Statement.mentionsAll definition.body) :=
      Definition.mem_callees_code htyped.constant
    _ ↔ r.Calls i j := mem_callees_mentions hr h hf hdefinition

end Registry

end Typed

/-- The piece of the code of a function has a call of another one, if the instructions of code of
some length are cut where routines start. -/
def Program.CallsIn (p : Program) (length : Nat) (entries : List Entry) (caller callee : Nat) :
    Prop :=
  ∃ f, p.functions[caller]? = some f
    ∧ ∃ e ∈ p.partAt length entries f.address, e.instruction.callee? = some callee

namespace Typed.Registry.LaidOut

variable {markers : Bool} {d : Dialect} {r : Registry} {e : Emitted} {routines : List Routine}
variable {init : Routine} (h : r.LaidOut markers e routines init)
include h

theorem starts (stage : Stage) (entryPoint : String) :
    (Program.ofEmitted r stage entryPoint e).parts.map Prod.fst
      = (routines ++ [init]).map Routine.start := by
  simp only [Program.parts, Program.ofEmitted, h.functions, h.initAddress, List.map_append,
    List.map_map, List.map_singleton]
  rw [map_zipWith_right h.laid]
  intro f x _
  rfl

theorem partAt_eq (stage : Stage) (entryPoint : String) {x : Routine} (hx : x ∈ routines ++ [init]) :
    (Program.ofEmitted r stage entryPoint e).partAt (encodeAll e.code).length
      (entriesFrom 0 e.code) x.start = x.entries := by
  have hlength : (encodeAll e.code).length
      = 0 + sizeAll ((routines ++ [init]).flatMap (·.code)) := by
    rw [length_encodeAll, h.code, Nat.zero_add]
  rw [Program.partAt, h.starts, hlength, h.chain_all.pieceEnd_eq hx, h.code, h.chain_all.entries,
    h.chain_all.slice_entries hx]

theorem flatMap_partAt (stage : Stage) (entryPoint : String) :
    (Program.ofEmitted r stage entryPoint e).parts.flatMap
      (fun part => (Program.ofEmitted r stage entryPoint e).partAt (encodeAll e.code).length
        (entriesFrom 0 e.code) part.1) = entriesFrom 0 e.code := by
  have hcut : ((Program.ofEmitted r stage entryPoint e).parts.map Prod.fst).flatMap
      (fun start => (Program.ofEmitted r stage entryPoint e).partAt (encodeAll e.code).length
        (entriesFrom 0 e.code) start) = entriesFrom 0 e.code := by
    rw [h.starts, List.flatMap_map]
    refine (List.flatMap_congr fun x hx => h.partAt_eq stage entryPoint hx).trans ?_
    rw [h.code, h.chain_all.entries]
  rwa [List.flatMap_map] at hcut

/-- The calls in the code of an emitted source are those of its bodies. -/
theorem callsIn_iff (hr : r.WellTyped d) (hfaults : r.moduleFaults = []) (stage : Stage)
    (entryPoint : String) {i j : Nat} :
    (Program.ofEmitted r stage entryPoint e).CallsIn (encodeAll e.code).length
      (entriesFrom 0 e.code) i j ↔ r.Calls i j := by
  have hfunctions : (Program.ofEmitted r stage entryPoint e).functions
      = List.zipWith Function.placedAt r.functions routines := h.functions
  cases hf : r.functions[i]? with
  | none =>
    constructor
    · rintro ⟨placed, hplaced, -⟩
      simp [hfunctions, List.getElem?_zipWith, hf] at hplaced
    · rintro ⟨span, f, definition, hsome, -⟩
      cases hf.symm.trans hsome
  | some f =>
    obtain ⟨x, hx, hlaid⟩ := exists_getElem?_right h.laid hf
    have hpart := h.partAt_eq stage entryPoint
      (List.mem_append_left [init] (List.mem_of_getElem? hx))
    rw [← exists_call_iff hr hfaults hf hlaid]
    simp only [Program.CallsIn, hfunctions, List.getElem?_zipWith, hf, hx, Option.some.injEq,
      exists_eq_left']
    rw [Function.placedAt, hpart]

end Typed.Registry.LaidOut

/-! ## Compiled sources -/

theorem nodup_of_isChain {α : Type} {R : α → α → Prop} (hacyclic : ∀ a, ¬TransGen R a a)
    {l : List α} (h : l.IsChain R) : l.Nodup := by
  have hchain : l.IsChain (TransGen R) := h.imp fun _ _ => TransGen.single
  refine hchain.pairwise.imp ?_
  rintro a _ hab rfl
  exact hacyclic a hab

def typingFaults (d : Dialect) (config : Config) (stage : Stage)
    (declarations : List Ast.Declaration) : List (Located TypingFault) :=
  (typeDeclarations ⟨d, stage, config.promoteInts⟩ config.maxErrors declarations
    { registry := { builtins := stageVariables d stage } }).1

/-- A source is read and typed without an error, so that it is checked as a whole. -/
structure Declares (d : Dialect) (config : Config) (request : Request) (r : Typed.Registry) :
    Prop where
  supports : d.supports request.stage = true
  typed : ∃ scanned declarations, scan d request.source = .ok scanned
    ∧ Ast.ofTokens d scanned = .ok declarations
    ∧ typingFaults d config request.stage declarations = []
    ∧ r = declaredBy d config request.stage declarations

/-- The errors of a source in which something is wrong as a whole. -/
def checkingErrors (config : Config) (r : Typed.Registry) : List Diagnostic :=
  (r.moduleFaults.take config.maxErrors).map fun f => ⟨.checking f.value, f.span⟩

variable {d : Dialect} {config : Config} {request : Request} {compiled : Compiled}
variable {r : Typed.Registry}

section Typing

variable {stage : Stage} {declarations : List Ast.Declaration}

/-- If typing a source finds nothing, checking it as a whole decides. -/
theorem typeSource_of_typed (h : typingFaults d config stage declarations = []) :
    (typeSource d config stage declarations).1
      = if (checkingErrors config (declaredBy d config stage declarations)).isEmpty
        then .ok (declaredBy d config stage declarations)
        else .error (checkingErrors config (declaredBy d config stage declarations)) := by
  unfold typingFaults at h
  simp only [typeSource, h, List.isEmpty_nil, if_true]
  rfl

theorem declared_of_typeSource (h : (typeSource d config stage declarations).1 = .ok r) :
    typingFaults d config stage declarations = [] ∧ r = declaredBy d config stage declarations := by
  cases hfaults : typingFaults d config stage declarations with
  | cons first rest =>
    unfold typingFaults at hfaults
    simp only [typeSource, hfaults] at h
    cases h
  | nil =>
    rw [typeSource_of_typed hfaults] at h
    by_cases hnone : (checkingErrors config (declaredBy d config stage declarations)).isEmpty = true
    · rw [if_pos hnone] at h
      exact ⟨rfl, (Except.ok.inj h).symm⟩
    · rw [if_neg hnone] at h
      cases h

end Typing

/-- A source that is typed without an error has the errors of checking it as a whole. -/
theorem Declares.compile_eq_error (h : Declares d config request r)
    (hne : checkingErrors config r ≠ []) :
    ∃ remarks, compile d config request = .error ⟨checkingErrors config r, remarks⟩ := by
  obtain ⟨scanned, declarations, hscan, hread, htyped, rfl⟩ := h.typed
  have herrors : (typeSource d config request.stage declarations).1
      = .error (checkingErrors config (declaredBy d config request.stage declarations)) := by
    rw [typeSource_of_typed htyped, if_neg (by simpa using hne)]
  have hanalyse : ∃ remarks, analyse d config request
      = .error ⟨checkingErrors config (declaredBy d config request.stage declarations), remarks⟩ := by
    unfold analyse
    simp only [h.supports, Bool.not_true, Bool.false_eq_true, if_false, hscan, pure_bind, hread,
      herrors]
    exact ⟨_, rfl⟩
  obtain ⟨remarks, hanalyse⟩ := hanalyse
  rw [compile_eq, hanalyse]
  exact ⟨_, rfl⟩

/-- A compiled source is emitted from what it declares, and nothing is wrong with that. -/
theorem exists_emit_of_compile (h : compile d config request = .ok compiled) :
    ∃ r e, Declares d config request r ∧ r.WellTyped d ∧ r.moduleFaults = []
      ∧ r.emit config.lineMarkers = .ok e ∧ compiled.code = e.code
      ∧ compiled.program = Program.ofEmitted r request.stage request.entryPoint e := by
  rw [compile_eq] at h
  obtain ⟨scanned, declarations, r, hsupports, hscan, hread, hr, hanalyse⟩
    | ⟨failure, hanalyse, -⟩ := analyse_spec d config request
  · have haccepted := typeSource_meets d config request.stage declarations
    rw [hr] at haccepted
    obtain ⟨htyped, hdeclared⟩ := declared_of_typeSource hr
    simp only [hanalyse] at h
    split at h
    · cases h
    · rename_i code program hemit
      cases h
      obtain ⟨e, he, rfl, rfl⟩ := exists_of_programOf hemit
      exact ⟨r, e, ⟨hsupports, scanned, declarations, hscan, hread, htyped, hdeclared⟩,
        haccepted.typed, haccepted.faultless, he, rfl, rfl⟩
  · simp only [hanalyse] at h
    cases h

/-- Recursion is rejected exactly. If a source is typed without an error, checking it as a whole
finds a recursion just if the calls in the bodies of its functions have a cycle, the recursion is a
call on such a cycle, and what is found are the errors of the source. The calls in the code of a
compiled source are those of the bodies, so they have no cycle, and a chain of calls has at most as
many functions as the source. -/
theorem compile_rejectsRecursion (d : Dialect) (config : Config) (request : Request) :
    (∀ r, Declares d config request r →
      ((∃ fault ∈ r.moduleFaults, fault.value.isRecursion = true) ↔ ∃ i, TransGen r.Calls i i)
      ∧ (∀ fault ∈ r.moduleFaults, fault.value.isRecursion = true → ∃ caller callee,
          r.CallsAt caller callee fault.span ∧ ReflTransGen r.Calls callee caller
            ∧ fault.value = r.cycleFault caller callee)
      ∧ (checkingErrors config r ≠ [] →
          ∃ remarks, compile d config request = .error ⟨checkingErrors config r, remarks⟩))
    ∧ ∀ compiled, compile d config request = .ok compiled → ∃ r entries,
      Declares d config request r ∧ disassemble compiled.bytes = .ok entries
      ∧ (∀ i j, compiled.program.CallsIn compiled.bytes.length entries i j ↔ r.Calls i j)
      ∧ (∀ i, ¬TransGen (compiled.program.CallsIn compiled.bytes.length entries) i i)
      ∧ ∀ chain : List Nat, (∀ i ∈ chain, i < compiled.program.functions.length) →
        chain.IsChain (compiled.program.CallsIn compiled.bytes.length entries) →
        chain.length ≤ compiled.program.functions.length := by
  refine ⟨fun r hdeclares => ⟨?_, ?_, hdeclares.compile_eq_error⟩, fun compiled h => ?_⟩
  · rw [← Typed.Registry.recursion?_isSome_iff, Option.isSome_iff_exists]
    constructor
    · rintro ⟨fault, hfault, hrecursion⟩
      exact ⟨fault, (Typed.Registry.mem_moduleFaults_recursion hrecursion).mp hfault⟩
    · rintro ⟨fault, hfault⟩
      have hrecursion : fault.value.isRecursion = true := by
        obtain ⟨caller, callee, -, -, hvalue⟩ := Typed.Registry.recursion?_spec hfault
        rw [hvalue, Typed.Registry.cycleFault]
        split
        · rfl
        · rfl
      exact ⟨fault, (Typed.Registry.mem_moduleFaults_recursion hrecursion).mpr hfault, hrecursion⟩
  · intro fault hfault hrecursion
    exact Typed.Registry.recursion?_spec
      ((Typed.Registry.mem_moduleFaults_recursion hrecursion).mp hfault)
  · obtain ⟨r, e, hdeclares, htyped, hfaults, hemit, hcode, hprogram⟩ := exists_emit_of_compile h
    obtain ⟨routines, init, hlaid⟩ := Typed.Registry.exists_laidOut d hemit
    have hcalls : ∀ i j, compiled.program.CallsIn compiled.bytes.length (entriesFrom 0 e.code) i j
        ↔ r.Calls i j := by
      intro i j
      rw [hprogram, Compiled.bytes, hcode]
      exact hlaid.callsIn_iff htyped hfaults request.stage request.entryPoint
    have hsame : compiled.program.CallsIn compiled.bytes.length (entriesFrom 0 e.code) = r.Calls :=
      funext fun i => funext fun j => propext (hcalls i j)
    refine ⟨r, entriesFrom 0 e.code, hdeclares, ?_, hcalls, ?_, ?_⟩
    · rw [Compiled.bytes, hcode]
      exact hlaid.disassemble_eq htyped
    · rw [hsame]
      exact Typed.Registry.acyclic_of_moduleFaults hfaults
    · rw [hsame]
      intro chain hbounds hchain
      exact length_le_of_nodup
        (nodup_of_isChain (Typed.Registry.acyclic_of_moduleFaults hfaults) hchain) hbounds

/-- The source whose functions call each other is typed without an error, and its recursion is
found. -/
theorem exists_declares_cyclicRequest : ∃ r, Declares .glsl {} cyclicRequest r
    ∧ ∃ fault ∈ r.moduleFaults, fault.value.isRecursion = true := by
  have hfound : ((scan .glsl cyclicRequest.source).toOption.bind fun scanned =>
      (Ast.ofTokens .glsl scanned).toOption).any (fun declarations =>
        (typingFaults .glsl {} cyclicRequest.stage declarations).isEmpty
          && (declaredBy .glsl {} cyclicRequest.stage declarations).moduleFaults.any
            (·.value.isRecursion)) = true := by
    decide +kernel
  obtain ⟨declarations, hread, hfound⟩ := (Option.any_eq_true _ _).mp hfound
  obtain ⟨scanned, hscan, hread⟩ := Option.bind_eq_some_iff.mp hread
  rw [Bool.and_eq_true, List.isEmpty_iff, List.any_eq_true] at hfound
  exact ⟨_, ⟨rfl, scanned, declarations, eq_ok_of_toOption hscan, eq_ok_of_toOption hread, hfound.1,
    rfl⟩, hfound.2⟩

theorem compile_rejectsRecursion_cyclicRequest :
    (∃ r i, Declares .glsl {} cyclicRequest r ∧ TransGen r.Calls i i)
    ∧ ∃ compiled entries, compile .glsl {} leavingRequest = .ok compiled
      ∧ disassemble compiled.bytes = .ok entries
      ∧ ∀ i, ¬TransGen (compiled.program.CallsIn compiled.bytes.length entries) i i := by
  obtain ⟨r, hdeclares, hfound⟩ := exists_declares_cyclicRequest
  obtain ⟨i, hcycle⟩ := ((compile_rejectsRecursion .glsl {} cyclicRequest).1 r hdeclares).1.mp hfound
  obtain ⟨compiled, hcompiled⟩ := exists_compile_leavingRequest
  obtain ⟨-, entries, -, hread, -, hacyclic, -⟩ :=
    (compile_rejectsRecursion .glsl {} leavingRequest).2 compiled hcompiled
  exact ⟨⟨r, i, hdeclares, hcycle⟩, compiled, entries, hcompiled, hread, hacyclic⟩

end ShaderBytecode
