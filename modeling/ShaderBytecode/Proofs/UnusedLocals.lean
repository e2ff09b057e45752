import Mathlib.Data.List.Nodup
import ShaderBytecode.Proofs.ReadOnly

/-!
# Unused locals

A local is remarked on as unused if no name in the body means it. The code of the body then does
nothing with its slot but to set it where it is declared, and the slot of every other local occurs
once more, be it that its value is got, that it is set or that it is referred to.
-/

namespace ShaderBytecode

/-- The slot that an instruction gets, sets or refers to. -/
def Instruction.access? : Instruction → Option (IndexedOp × UInt32)
  | .indexed .getLocal slot => some (.getLocal, slot)
  | .indexed .setLocal slot => some (.setLocal, slot)
  | .indexed .refLocal slot => some (.refLocal, slot)
  | _ => none

def IndexedOp.withOperand (access : IndexedOp × Nat) : IndexedOp × UInt32 :=
  (access.1, .ofNat access.2)

namespace Typed

/-- Accesses to slots are those of mentions and of declarations: a slot that is not mentioned is set
as often as it is declared, and one that is mentioned is accessed more often. -/
structure Accesses (bound : Nat) (mentions : List Mention) (declared : List Nat)
    (accesses : List (IndexedOp × Nat)) : Prop where
  bounded : ∀ a ∈ accesses, a.2 < bound
  unused : ∀ n, .slot n ∉ mentions →
    accesses.filter (·.2 = n) = List.replicate (declared.count n) (.setLocal, n)
  used : ∀ n, .slot n ∈ mentions → declared.count n < (accesses.filter (·.2 = n)).length

mutual

theorem Statement.declared_accesses :
    (s : Statement) → s.accesses.filterMap Access.declared? = s.slots
  | .expr value _ => value.declared_accesses
  | .declare _ value _ => by
    simp [Statement.accesses, Statement.slots, Access.declared?]
  | .ifElse test whenTrue whenFalse _ => by
    simp [Statement.accesses, Statement.slots, Statement.declared_accessesAll whenTrue,
      Statement.declared_accessesAll whenFalse]
  | .loop test step body _ => by
    simp [Statement.accesses, Statement.slots, Statement.declared_accessesAll body]
  | .doLoop body test _ => by
    simp [Statement.accesses, Statement.slots, Statement.declared_accessesAll body]
  | .returnFrom value _ => Expr.declared_optionAccesses value
  | .leave _ _ | .discardPixel _ => rfl
  | .block body => Statement.declared_accessesAll body

theorem Statement.declared_accessesAll : (body : List Statement) →
    (Statement.accessesAll body).filterMap Access.declared? = Statement.slotsAll body
  | [] => rfl
  | first :: rest => by
    simp [Statement.accessesAll, Statement.slotsAll, Statement.declared_accesses first,
      Statement.declared_accessesAll rest]

end

/-- The slot that something is done with, and how. -/
def Access.slot? : Access → Option (IndexedOp × Nat)
  | .get (.slot n) => some (.getLocal, n)
  | .write (.set (.slot n)) | .declare n => some (.setLocal, n)
  | .write (.refer (.slot n)) => some (.refLocal, n)
  | .get (.global _) | .write (.set (.global _)) | .write (.refer (.global _)) | .call _ _ => none

theorem picksAccesses_slot : PicksAccesses Instruction.access? := by
  intro i hi
  cases i with
  | indexed op slot => cases op <;> first | rfl | cases hi
  | _ => rfl

theorem pickAll_slot (accesses : List Access) : Access.pickAll Instruction.access? accesses
    = (accesses.filterMap Access.slot?).map IndexedOp.withOperand := by
  induction accesses with
  | nil => rfl
  | cons a rest ih =>
    rw [Access.pickAll_cons, ih]
    obtain (_ | _) | ((_ | _) | (_ | _)) | _ | _ := a <;> rfl

/-- A slot that is not declared is mentioned. -/
theorem Access.mention?_of_slot? {a : Access} {x : IndexedOp × Nat} (h : a.slot? = some x) :
    a.mention? = some (.slot x.2) ∨ a = .declare x.2 ∧ x.1 = .setLocal := by
  obtain (_ | _) | ((_ | _) | (_ | _)) | _ | _ := a <;> cases h <;>
    simp [Access.mention?, Cell.mention, Write.cell]

/-- Each time that something is done with a slot it is declared or mentioned. -/
theorem length_filter_slot (n : Nat) (accesses : List Access) :
    ((accesses.filterMap Access.slot?).filter (·.2 = n)).length
      = (accesses.filterMap Access.declared?).count n
        + (accesses.map Access.mention?).count (some (.slot n)) := by
  induction accesses with
  | nil => rfl
  | cons a rest ih =>
    obtain (m | m) | ((m | m) | (m | m)) | m | ⟨⟨m, _⟩, _⟩ := a
    all_goals
      simp only [List.filterMap_cons, Access.slot?, Access.declared?, List.map_cons,
        Access.mention?, Cell.mention, Write.cell, List.filter_cons, List.count_cons]
      by_cases hm : m = n <;> simp [hm, ih] <;> omega

theorem accesses_body {bound : Nat} {body : List Statement}
    (hmentioned : ∀ n, .slot n ∈ Statement.mentionsAll body → n < bound)
    (hdeclared : ∀ n ∈ Statement.slotsAll body, n < bound) :
    Accesses bound (Statement.mentionsAll body) (Statement.slotsAll body)
      ((Statement.accessesAll body).filterMap Access.slot?) := by
  have hlength := fun n => length_filter_slot n (Statement.accessesAll body)
  rw [Statement.declared_accessesAll] at hlength
  refine ⟨fun x hx => ?_, fun n hn => ?_, fun n hn => ?_⟩
  · obtain ⟨a, ha, hslot⟩ := List.mem_filterMap.mp hx
    obtain hmention | ⟨rfl, -⟩ := Access.mention?_of_slot? hslot
    · exact hmentioned _ ((Statement.mem_mentionsAll body).mp (List.mem_map.mpr ⟨a, ha, hmention⟩))
    · rw [← Statement.declared_accessesAll] at hdeclared
      exact hdeclared _ (List.mem_filterMap.mpr ⟨_, ha, rfl⟩)
  · rw [← Statement.mem_mentionsAll] at hn
    refine List.eq_replicate_iff.mpr ⟨?_, fun x hx => ?_⟩
    · rw [hlength, List.count_eq_zero.mpr hn, Nat.add_zero]
    · obtain ⟨hmem, hslot⟩ := List.mem_filter.mp hx
      obtain ⟨a, ha, haccess⟩ := List.mem_filterMap.mp hmem
      obtain rfl : x.2 = n := of_decide_eq_true hslot
      obtain hmention | ⟨-, hset⟩ := Access.mention?_of_slot? haccess
      · exact absurd (List.mem_map.mpr ⟨a, ha, hmention⟩) hn
      · exact Prod.ext hset rfl
  · rw [← Statement.mem_mentionsAll] at hn
    have hpos := List.count_pos_iff.mpr hn
    rw [hlength]
    omega

end Typed

/-! ## Remarks -/

def Remark.isUnused : Remark → Bool
  | .unusedLocal _ => true
  | _ => false

/-- The remarks on the locals of a function that accesses to slots do no more than set once, in the
order of the source. The slots of the locals stand behind those of the parameters. -/
def Ast.Function.unusedIn (f : Ast.Function) (body : Ast.Body)
    (accesses : List (IndexedOp × Nat)) : List (Located Remark) :=
  ((Ast.Statement.declaredAll body.statements).zipIdx.filter fun (_, k) =>
    accesses.filter (·.2 = f.parameters.length + k) = [(.setLocal, f.parameters.length + k)]).map
      fun (x, _) => ⟨.unusedLocal x.2.name, x.2.span⟩

namespace Typed

theorem Accesses.filter_eq_iff {bound start count : Nat} {mentions : List Mention}
    {accesses : List (IndexedOp × Nat)}
    (h : Accesses bound mentions (List.range' start count) accesses) {k : Nat} (hk : k < count) :
    accesses.filter (·.2 = start + k) = [(.setLocal, start + k)]
      ↔ .slot (start + k) ∉ mentions := by
  have hcount : (List.range' start count).count (start + k) = 1 :=
    List.count_eq_one_of_mem List.nodup_range' (List.mem_range'_1.mpr (by omega))
  constructor
  · intro hfilter hmem
    have hused := h.used _ hmem
    rw [hfilter, hcount] at hused
    exact Nat.lt_irrefl _ hused
  · intro hmem
    rw [h.unused _ hmem, hcount]
    rfl

/-- The remarks on unused locals of a body are those on locals that its code only declares. -/
theorem Accesses.unusedRemarks_eq {bound : Nat} {f : Ast.Function} {body : Ast.Body}
    {frame : List FrameLocal} {statements : List Statement} {accesses : List (IndexedOp × Nat)}
    (h : Accesses bound (Statement.mentionsAll statements)
      (List.range' f.parameters.length (Ast.Statement.declaredAll body.statements).length) accesses)
    (hframe : frame.map FrameM.placeOf
      = (Ast.Statement.declaredAll body.statements).map fun x => (x.2.name, x.2.span)) :
    unusedRemarks f.parameters.length frame statements = f.unusedIn body accesses := by
  let unused : (String × Span) × Nat → Bool := fun x =>
    !(Statement.mentionsAll statements).contains (.slot (f.parameters.length + x.2))
  let remark : (String × Span) × Nat → Located Remark := fun x => ⟨.unusedLocal x.1.1, x.1.2⟩
  have hleft : unusedRemarks f.parameters.length frame statements
      = ((frame.map FrameM.placeOf).zipIdx.filter unused).map remark := by
    rw [List.zipIdx_map, List.filter_map, List.map_map]
    rfl
  have hright : f.unusedIn body accesses
      = (((Ast.Statement.declaredAll body.statements).map fun x =>
        (x.2.name, x.2.span)).zipIdx.filter unused).map remark := by
    rw [List.zipIdx_map, List.filter_map, List.map_map, Ast.Function.unusedIn]
    congr 1
    refine List.filter_congr fun x hx => ?_
    have hlt : x.2 < (Ast.Statement.declaredAll body.statements).length :=
      (List.getElem?_eq_some_iff.mp (List.mem_zipIdx_iff_getElem?.mp hx)).1
    simp [unused, h.filter_eq_iff hlt]
  rw [hleft, hright, hframe]

theorem Registry.filter_bodyRemarks (signature : ShaderBytecode.Function) (f : Ast.Function)
    (body : Ast.Body) (frame : List FrameLocal) (statements : List Statement) :
    (Registry.bodyRemarks signature f body frame statements).filter (·.value.isUnused)
      = unusedRemarks signature.parameters.length frame statements := by
  have hhidden : (hiddenRemarks frame).filter (·.value.isUnused) = [] := by
    rw [hiddenRemarks, List.filter_map, List.filter_eq_nil_iff.mpr (by simp [Remark.isUnused])]
    rfl
  have hunused : (unusedRemarks signature.parameters.length frame statements).filter
      (·.value.isUnused) = unusedRemarks signature.parameters.length frame statements := by
    rw [unusedRemarks, List.filter_map, List.filter_eq_self.mpr (by simp [Remark.isUnused])]
  rw [Registry.bodyRemarks, List.filter_append, List.filter_append, hhidden, hunused]
  split <;> simp [Remark.isUnused]

end Typed

/-- Code of a function accesses slots of its parameters and locals, and remarks are those on the
locals that it does no more than declare. -/
def Ast.Function.UnusedBy (f : Ast.Function) (body : Ast.Body) (code : List Entry)
    (remarks : List (Located Remark)) : Prop :=
  ∃ accesses, code.filterMap (·.instruction.access?) = accesses.map IndexedOp.withOperand
    ∧ (∀ a ∈ accesses,
      a.2 < f.parameters.length + (Ast.Statement.declaredAll body.statements).length)
    ∧ remarks = f.unusedIn body accesses

/-- The remarks on the unused locals of a function that is registered. -/
theorem Typed.Registry.Notes.unusedBy {c : Context} {d : Dialect} {r : Typed.Registry}
    {source : Ast.Function} {body : Ast.Body} {remarks : List (Located Remark)}
    (h : r.Notes c (source, body) remarks) (hr : r.WellTyped d) (markers : Bool) :
    ∃ g ∈ r.functions, g.signature.name = source.name
      ∧ (∃ definition, g.definition = some definition
        ∧ definition.locals = (Ast.Statement.declaredAll body.statements).map (·.2.name))
      ∧ ∀ x, g.LaidAs markers x →
        source.UnusedBy body x.entries (remarks.filter (·.value.isUnused)) := by
  obtain ⟨g, hg, definition, r₁, frame, hdefined, hrun, rfl⟩ := h
  have hlocals : definition.locals
      = (Ast.Statement.declaredAll body.statements).map (·.2.name) := by
    rw [hdefined.defines.locals, Ast.Statement.localsAll_eq, List.map_map]
    rfl
  refine ⟨g, hg, hdefined.name, ⟨definition, hdefined.definition, hlocals⟩,
    fun x ⟨found, hfound, hcode⟩ => ?_⟩
  cases hdefined.definition.symm.trans hfound
  have hcount := hdefined.defines.count
  obtain ⟨hframe, hkept⟩ := declares_body hcount hrun
  have hslots := hkept.slots
  rw [List.length_map] at hslots
  obtain ⟨slots, hwell⟩ := hr.functions g hg definition hdefined.definition
  have htotal : slots.length
      = (g.signature.parameters.map Parameter.type).length + definition.locals.length :=
    hwell.count
  rw [List.length_map, hlocals, List.length_map, hcount] at htotal
  have hpick : Item.pick Instruction.access? (definition.code markers) = _ :=
    (Definition.pick_code picksAccesses_slot (Expr.optionAccesses_eq_nil hwell.constant)).trans
      (pickAll_slot _)
  have hdeclared : ∀ n ∈ Statement.slotsAll definition.body, n < slots.length := by
    intro n hn
    rw [hslots, List.mem_range'_1] at hn
    exact htotal ▸ hn.2
  have haccesses := accesses_body (fun n hn => hwell.body.inRange _ hn) hdeclared
  rw [hslots] at haccesses
  refine ⟨_, ?_, htotal ▸ haccesses.bounded, ?_⟩
  · rw [← hpick, ← Item.filterMap_assemble Instruction.access? (fun _ _ => rfl) hcode,
      ← map_instruction_entriesFrom x.start x.code, List.filterMap_map]
    rfl
  · rw [filter_bodyRemarks, hcount]
    exact haccesses.unusedRemarks_eq hframe

section Compiled

variable {d : Dialect} {config : Config} {request : Request} {compiled : Compiled}

/-- The remarks on unused locals are exact. With warnings, those on a compiled source are those on
its functions, one after the other. A function is remarked on for each of its locals that its code
does no more than set once, in the order of their slots. Locals are named by the program in that
order too. -/
theorem compile_remarksUnused (h : compile d config request = .ok compiled)
    (hwarnings : config.warnings = true) :
    ∃ scanned declarations entries groups, scan d request.source = .ok scanned
      ∧ Ast.ofTokens d scanned = .ok declarations
      ∧ disassemble compiled.bytes = .ok entries
      ∧ compiled.remarks.filter (·.value.isUnused) = groups.flatten
      ∧ List.Forall₂ (fun definition remarks =>
        ∃ f ∈ compiled.program.functions, f.name = definition.1.name
          ∧ (compiled.program.localsOf? f.name).getD []
            = (Ast.Statement.declaredAll definition.2.statements).map (·.2.name)
          ∧ definition.1.UnusedBy definition.2
            (compiled.program.partAt compiled.bytes.length entries f.address) remarks)
        (declarations.flatMap Ast.Declaration.defined) groups
      ∧ ∀ f ∈ compiled.program.functions, ∃ definition ∈ declarations.flatMap
        Ast.Declaration.defined, definition.1.name = f.name := by
  obtain ⟨scanned, declarations, r, e, hscan, hread, hdeclares, htyped, hemit, hcode, hprogram,
    hrun⟩ := run_of_compile h
  obtain ⟨scanned', declarations', r', remarks, notes, hscan', hread', hanalyse, hremarks, hnotes,
    groups, hgroups, hflat⟩ := notes_of_compile h
  obtain rfl := hdeclares.unique (declares_of_analyse hanalyse)
  cases hscan.symm.trans hscan'
  cases hread.symm.trans hread'
  obtain ⟨routines, init, hlaid⟩ := r.exists_laidOut d hemit
  refine ⟨scanned, declarations, entriesFrom 0 e.code,
    groups.map (List.filter (·.value.isUnused)), hscan, hread, ?_, ?_, ?_, fun f hf => ?_⟩
  · rw [Compiled.bytes, hcode]
    exact hlaid.disassemble_eq htyped
  · have hpragmas :
        (scanned.pragmas.map (Located.mk Remark.ignoredPragma)).filter (·.value.isUnused) = [] := by
      rw [List.filter_map]
      exact List.map_eq_nil_iff.mpr (List.filter_eq_nil_iff.mpr fun _ _ => Bool.false_ne_true)
    rw [hremarks, if_pos hwarnings, hnotes, List.filter_append, hpragmas, List.nil_append, hflat,
      List.filter_flatten]
  · refine List.forall₂_map_right_iff.mpr (hgroups.imp fun definition notes hnoted => ?_)
    obtain ⟨g, hg, hname, ⟨found, hfound, hlocals⟩, hunused⟩ :=
      hnoted.unusedBy htyped config.lineMarkers
    obtain ⟨x, hx, hown, hplaced⟩ := hlaid.exists_placed hg
    refine ⟨g.placedAt x, ?_, hname, ?_, ?_⟩
    · rw [hprogram]
      exact hplaced
    · rw [hprogram, ← hlocals]
      exact r.lookup_localNames htyped.names hg hfound
    · rw [hprogram, Compiled.bytes, hcode, Typed.Function.placedAt,
        hlaid.partAt_eq request.stage request.entryPoint (List.mem_append_left _ hx)]
      exact hunused x hown
  · rw [hprogram, Program.ofEmitted, hlaid.functions] at hf
    obtain ⟨g, hg, x, -, ⟨definition, hdefinition, -⟩, rfl⟩ := mem_zipWith hlaid.laid hf
    obtain ⟨source, body, hsource, hdefined⟩ := hrun.exists_source rfl g hg definition hdefinition
    exact ⟨(source, body), Ast.mem_defined.mpr ⟨hsource, hdefined.hasBody⟩, hdefined.name.symm⟩

end Compiled

/-- A source with a local that is shadowed and not used, and with one that is only assigned to. -/
def unusedRequest : Request where
  stage := .pixel
  source := "float f(float x) { float y = x; float z; { float y = y; } z = 1.0; return x; }
    void main() { gl_FragColor = vec4(f(1.0)); }"

theorem compile_remarksUnused_unusedRequest :
    ∃ compiled, compile .glsl {} unusedRequest = .ok compiled
      ∧ (compiled.remarks.filter (·.value.isUnused)).length = 1
      ∧ ∃ scanned declarations entries groups, scan .glsl unusedRequest.source = .ok scanned
        ∧ Ast.ofTokens .glsl scanned = .ok declarations
        ∧ disassemble compiled.bytes = .ok entries
        ∧ compiled.remarks.filter (·.value.isUnused) = groups.flatten
        ∧ List.Forall₂ (fun definition remarks =>
          ∃ f ∈ compiled.program.functions, f.name = definition.1.name
            ∧ (compiled.program.localsOf? f.name).getD []
              = (Ast.Statement.declaredAll definition.2.statements).map (·.2.name)
            ∧ definition.1.UnusedBy definition.2
              (compiled.program.partAt compiled.bytes.length entries f.address) remarks)
          (declarations.flatMap Ast.Declaration.defined) groups
        ∧ ∀ f ∈ compiled.program.functions, ∃ definition ∈ declarations.flatMap
          Ast.Declaration.defined, definition.1.name = f.name := by
  have hsome : (compile .glsl {} unusedRequest).toOption.any (fun compiled =>
      (compiled.remarks.filter (·.value.isUnused)).length = 1) = true := by
    decide +kernel
  obtain ⟨compiled, h, hlength⟩ := exists_ok_of_any hsome
  exact ⟨compiled, h, of_decide_eq_true hlength, compile_remarksUnused h rfl⟩

end ShaderBytecode
