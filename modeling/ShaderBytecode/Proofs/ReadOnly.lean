import ShaderBytecode.Proofs.DeclaredWrites

/-!
# Read-only storage is never written

In the code of a compiled source a global that is read only is written to at most by its own
initialisation, and a constant of a function only where it is declared.
-/

namespace ShaderBytecode

open Typed (Cell Expr Registry Statement Write)

/-- A global that a shader may write to: no constant, uniform or input, in a pixel shader nothing
that varies, in HLSL nothing without a qualifier, and no member of a constant buffer. -/
structure Variable.Writable (d : Dialect) (stage : Stage) (v : Variable) : Prop where
  notConst : v.storage ≠ some .const
  notUniform : v.storage ≠ some .uniform
  notInput : v.storage ≠ some .input
  notAttribute : v.storage ≠ some .vertexAttribute
  notVarying : stage = .pixel → v.storage ≠ some .varying
  qualified : d = .hlsl → v.storage ≠ none
  unbuffered : v.buffer = none

theorem Variable.writable_of_isReadOnly {v : Variable} {c : Context} (h : v.isReadOnly c = false)
    (hbuffer : v.buffer ≠ none → v.storage = some .uniform) : v.Writable c.dialect c.stage := by
  have hstorage : ∀ storage, v.storage = storage →
      Variable.isReadOnly { v with storage } c = false := by
    rintro _ rfl
    exact h
  refine ⟨fun hs => ?_, fun hs => ?_, fun hs => ?_, fun hs => ?_, fun hstage hs => ?_,
    fun hd hs => ?_, ?_⟩
  · cases hstorage _ hs
  · cases hstorage _ hs
  · cases hstorage _ hs
  · cases hstorage _ hs
  · exact of_decide_eq_false (hstorage _ hs) hstage
  · exact of_decide_eq_false (hstorage _ hs) hd
  · by_contra hne
    cases hstorage _ (hbuffer hne)

/-! ## Code -/

/-- An instruction that sets a global or refers to one does so with one that a shader may write
to. -/
def Program.Spares (d : Dialect) (stage : Stage) (p : Program) (i : Instruction) : Prop :=
  ∀ op operand, i = .indexed op operand → op = .setGlobal ∨ op = .refGlobal →
    ∃ index v, operand = .ofNat index ∧ (p.builtins ++ p.globals)[index]? = some v
      ∧ v.Writable d stage

/-- The numbers of the globals with a start value, in the order of the source, if those that the
source declares are numbered from `first` on. -/
def Ast.initialised (first : Nat) (declarations : List Ast.Declaration) : List Nat :=
  (((declarations.flatMap Ast.Declaration.starts).zipIdx first).filter (·.1)).map (·.2)

/-- The code that computes the start value of a global, and the global's number. -/
structure Segment where
  index : Nat
  value : List Instruction

/-- The instructions of a segment: the value, and what sets the global to it. -/
def Segment.code (s : Segment) : List Instruction :=
  s.value ++ [.indexed .setGlobal (.ofNat s.index)]

/-- Something is true of each of some segments and the offset at which it stands, if they stand one
behind the other. -/
def Segment.AllFrom (P : Nat → Segment → Prop) : (offset : Nat) → List Segment → Prop
  | _, [] => True
  | offset, first :: rest => P offset first ∧ AllFrom P (offset + sizeAll first.code) rest

theorem Segment.AllFrom.mono {P Q : Nat → Segment → Prop}
    (h : ∀ offset s, P offset s → Q offset s) : {offset : Nat} → {segments : List Segment} →
      AllFrom P offset segments → AllFrom Q offset segments
  | _, [], _ => trivial
  | _, _ :: _, hall => ⟨h _ _ hall.1, hall.2.mono h⟩

theorem Segment.AllFrom.exists_of_mem {P : Nat → Segment → Prop} {s : Segment} :
    {offset : Nat} → {segments : List Segment} → AllFrom P offset segments → s ∈ segments →
      ∃ offset, P offset s
  | offset, _ :: _, hall, hmem => (List.mem_cons.mp hmem).elim
    (fun h => ⟨offset, h ▸ hall.1⟩) fun h => hall.2.exists_of_mem h

namespace Typed

theorem Write.exists_global_of_instruction {w : Write} {op : IndexedOp} {operand : UInt32}
    (h : w.instruction = .indexed op operand) (hop : op = .setGlobal ∨ op = .refGlobal) :
    ∃ i, w.cell = .global i ∧ operand = .ofNat i := by
  cases w with
  | set cell =>
    cases cell with
    | slot n =>
      cases h
      obtain hop | hop := hop <;> cases hop
    | global i =>
      cases h
      exact ⟨i, rfl, rfl⟩
  | refer cell =>
    cases cell with
    | slot n =>
      cases h
      obtain hop | hop := hop <;> cases hop
    | global i =>
      cases h
      exact ⟨i, rfl, rfl⟩

variable {c : Context} {parts : List Ast.Part} {r : Registry}

theorem Registry.Tracks.exists_writable (h : r.Tracks c parts) {i : Nat}
    (hi : r.Open c i) : ∃ v, r.allGlobals[i]? = some v ∧ v.Writable c.dialect c.stage := by
  obtain ⟨v, hv, hreadOnly⟩ := hi
  refine ⟨v, hv, Variable.writable_of_isReadOnly hreadOnly fun hbuffer => ?_⟩
  obtain hmem | hmem := List.mem_append.mp (List.mem_of_getElem? hv)
  · exact absurd (h.builtins v hmem) hbuffer
  · obtain ⟨g, hg, rfl⟩ := List.mem_map.mp hmem
    exact h.buffers g hg hbuffer

variable {code : List Instruction} {p : Nat} {markers : Bool}

theorem Registry.Tracks.spares (h : r.Tracks c parts) {writes : List Write}
    (hopen : ∀ w ∈ writes, ∀ i, w.cell = .global i → r.Open c i)
    (hcode : code.filter Instruction.writes = writes.map Write.instruction) {p : Program}
    (hp : p.builtins ++ p.globals = r.allGlobals) : ∀ i ∈ code, p.Spares c.dialect c.stage i := by
  rintro _ hi op operand rfl hop
  have hwrites : Instruction.writes (.indexed op operand) = true := by
    obtain rfl | rfl := hop <;> rfl
  have hmem : .indexed op operand ∈ writes.map Write.instruction :=
    hcode ▸ List.mem_filter.mpr ⟨hi, hwrites⟩
  obtain ⟨w, hw, hinstruction⟩ := List.mem_map.mp hmem
  obtain ⟨index, hcell, rfl⟩ := Write.exists_global_of_instruction hinstruction hop
  obtain ⟨v, hv, hwritable⟩ := h.exists_writable (hopen w hw index hcell)
  exact ⟨index, v, rfl, hp ▸ hv, hwritable⟩

theorem filter_writes_assemble {items : List Item} (h : assemble p items = .ok code) :
    code.filter Instruction.writes = writers items := by
  have hpick := Item.filterMap_assemble (Option.guard Instruction.writes) (fun _ _ => rfl) h
  rwa [List.filterMap_eq_filter] at hpick

/-- The code of a function has the writing instructions of its body. -/
theorem Registry.Tracks.filter_writes_laid (h : r.Tracks c parts) {f : Function}
    (hf : f ∈ r.functions) {x : Routine} (hlaid : f.LaidAs markers x) {d : Definition}
    (hd : f.definition = some d) :
    x.code.filter Instruction.writes
      = (Statement.writesAll d.body).map Write.instruction := by
  obtain ⟨d', hd', hcode⟩ := hlaid
  cases hd.symm.trans hd'
  obtain ⟨_, _, hdefines⟩ := h.bodies f hf d hd
  rw [filter_writes_assemble hcode, Definition.writers_code hdefines.zero]

/-- A segment at an offset computes the start value of one of some globals. -/
def Computes (markers : Bool) (gs : List (Global × Nat)) (offset : Nat) (s : Segment) : Prop :=
  ∃ g value, (g, s.index) ∈ gs ∧ g.initializer = some value
    ∧ assemble offset (marker markers g.line ++ value.code) = .ok s.value

/-- The initialisation of globals is cut into a segment for each of them that has a start value. -/
theorem exists_segments {gs : List (Global × Nat)}
    (h : assemble p (gs.flatMap fun (g, index) => g.code markers index) = .ok code) :
    ∃ segments : List Segment, code = segments.flatMap Segment.code
      ∧ segments.map (·.index) = (gs.filter (·.1.initializer.isSome)).map (·.2)
      ∧ Segment.AllFrom (Computes markers gs) p segments := by
  induction gs generalizing p code with
  | nil =>
    cases h
    exact ⟨[], rfl, rfl, trivial⟩
  | cons first rest ih =>
    obtain ⟨g, index⟩ := first
    rw [List.flatMap_cons] at h
    obtain ⟨own, more, hown, hmore, rfl⟩ := assemble_append.mp h
    obtain ⟨segments, rfl, hindices, hsegments⟩ := ih hmore
    have hrest : ∀ offset s, Computes markers rest offset s →
        Computes markers ((g, index) :: rest) offset s := by
      rintro offset s ⟨g', value, hmem, hvalue⟩
      exact ⟨g', value, List.mem_cons_of_mem _ hmem, hvalue⟩
    cases hvalue : g.initializer with
    | none =>
      simp only [Global.code, hvalue] at hown hsegments
      cases hown
      refine ⟨segments, rfl, ?_, hsegments.mono hrest⟩
      rw [hindices, List.filter_cons_of_neg (by simp [hvalue])]
    | some value =>
      rw [← sizeAll_assemble hown] at hsegments
      simp only [Global.code, hvalue] at hown
      obtain ⟨body, last, hbody, hlast, rfl⟩ := assemble_append.mp hown
      obtain ⟨i, none, hi, hnone, rfl⟩ := assemble_cons.mp hlast
      cases hi
      cases hnone
      refine ⟨⟨index, body⟩ :: segments, rfl, ?_, ?_, hsegments.mono hrest⟩
      · rw [List.map_cons, hindices, List.filter_cons_of_pos (by simp [hvalue]), List.map_cons]
      · exact ⟨g, value, List.mem_cons_self .., hvalue, hbody⟩

/-- The initialisation of a source: a segment for each global with a start value, and a return. -/
theorem Registry.Tracks.exists_initSegments (h : r.Tracks c parts)
    (hcode : assemble p (r.initCode markers) = .ok code) {program : Program}
    (hprogram : program.builtins ++ program.globals = r.allGlobals) :
    ∃ segments : List Segment, code = segments.flatMap Segment.code ++ [.simple .ret]
      ∧ segments.map (·.index)
        = (((parts.flatMap Ast.Part.starts).zipIdx r.builtins.length).filter (·.1)).map (·.2)
      ∧ Segment.AllFrom (Computes markers (r.globals.zipIdx r.builtins.length)) p segments
      ∧ ∀ s ∈ segments, ∀ i ∈ s.value, program.Spares c.dialect c.stage i := by
  obtain ⟨front, last, hfront, hlast, rfl⟩ := assemble_append.mp hcode
  obtain ⟨i, more, hi, hmore, rfl⟩ := assemble_cons.mp hlast
  cases hi
  cases hmore
  obtain ⟨segments, rfl, hindices, hvalues⟩ := exists_segments hfront
  refine ⟨segments, rfl, ?_, hvalues, fun s hs => ?_⟩
  · rw [hindices, ← h.starts, List.zipIdx_map, List.filter_map, List.map_map]
    rfl
  · obtain ⟨offset, g, value, hg, hvalue, hown⟩ := hvalues.exists_of_mem hs
    have hmem := List.mem_of_getElem? (List.mem_zipIdx_iff_le_and_getElem?_sub.mp hg).2
    have hwrites : s.value.filter Instruction.writes = value.writes.map Write.instruction := by
      rw [filter_writes_assemble hown, writers, Item.pick_append, picksAccesses_writes.marker,
        List.nil_append]
      exact value.writers_code
    refine h.spares (fun w hw j hj => ?_) hwrites hprogram
    have hopen := h.values g hmem value hvalue w hw
    rw [hj] at hopen
    exact hopen

end Typed

/-! ## Compiled sources -/

/-- The writes of a function keep its constants: each local that is a constant is set once and never
referred to, and a parameter that is a constant is not written to. The slots of the locals stand
behind those of the parameters, in the order of the source. -/
structure Ast.Function.KeepsConstants (f : Ast.Function) (body : Ast.Body) (writes : List Write) :
    Prop where
  slots : ∀ w ∈ writes, ∀ n, w.cell = .slot n →
    n < f.parameters.length + (Ast.Statement.localsAll body.statements).length
  locals : ∀ k name, (Ast.Statement.localsAll body.statements)[k]? = some (name, true) →
    writes.filter (·.cell = .slot (f.parameters.length + k))
      = [.set (.slot (f.parameters.length + k))]
  parameters : ∀ k p, f.parameters[k]? = some p → p.isConst = true →
    writes.filter (·.cell = .slot k) = []

theorem Typed.Function.Defines.keepsConstants {G : Nat → Prop} {source : Ast.Function}
    {body : Ast.Body} {f : Typed.Function} {d : Typed.Definition}
    (h : f.Defines G source body d) : source.KeepsConstants body (Statement.writesAll d.body) where
  slots := by
    intro w hw n hn
    by_contra hout
    have hnone : (source.parameters.map (·.isConst)
        ++ (Ast.Statement.localsAll body.statements).map (·.2))[n]? = none := by
      rw [List.getElem?_eq_none_iff, List.length_append, List.length_map, List.length_map]
      omega
    have hfilter := h.keeps.slots n (by rw [hnone]; exact nofun)
    rw [if_neg (by rw [List.length_map, List.length_map]; omega), List.filter_eq_nil_iff] at hfilter
    exact hfilter w hw (decide_eq_true hn)
  locals := by
    intro k name hk
    have hlt := (List.getElem?_eq_some_iff.mp hk).1
    have hconst : (source.parameters.map (·.isConst)
        ++ (Ast.Statement.localsAll body.statements).map (·.2))[source.parameters.length + k]?
        = some true := by
      rw [List.getElem?_append_right (by rw [List.length_map]; omega), List.length_map,
        Nat.add_sub_cancel_left, List.getElem?_map, hk]
      rfl
    rw [h.keeps.slots _ (by rw [hconst]; exact nofun),
      if_pos (by rw [List.length_map, List.length_map]; omega)]
  parameters := by
    intro k p hp hconst
    have hlt := (List.getElem?_eq_some_iff.mp hp).1
    have htrue : (source.parameters.map (·.isConst)
        ++ (Ast.Statement.localsAll body.statements).map (·.2))[k]? = some true := by
      rw [List.getElem?_append_left (by rw [List.length_map]; exact hlt), List.getElem?_map, hp,
        Option.map_some, hconst]
    rw [h.keeps.slots k (by rw [htrue]; exact nofun), if_neg (by rw [List.length_map]; omega)]

section Compiled

variable {d : Dialect} {config : Config} {request : Request} {compiled : Compiled}

/-- Read-only storage is never written. In the code of a compiled source every instruction that sets
a global or refers to one does so with one that may be written to, except for the last one of the
segment that initialises a global. The initialisation is a segment for each global of the source
that has a start value, and a return. A constant among the locals of a function is set once and never
referred to, and a parameter that is a constant is neither set nor referred to. -/
theorem compile_sparesReadOnly (h : compile d config request = .ok compiled) :
    ∃ scanned declarations entries, scan d request.source = .ok scanned
      ∧ Ast.ofTokens d scanned = .ok declarations
      ∧ disassemble compiled.bytes = .ok entries
      ∧ (∀ f ∈ compiled.program.functions,
          ∀ e ∈ compiled.program.partAt compiled.bytes.length entries f.address,
            compiled.program.Spares d request.stage e.instruction)
      ∧ (∃ segments : List Segment,
          (compiled.program.partAt compiled.bytes.length entries
            compiled.program.initAddress).map Entry.instruction
              = segments.flatMap Segment.code ++ [.simple .ret]
          ∧ segments.map (·.index)
              = Ast.initialised compiled.program.builtins.length declarations
          ∧ ∀ s ∈ segments, ∀ i ∈ s.value, compiled.program.Spares d request.stage i)
      ∧ ∀ source body, .function source ∈ declarations → source.body = some body →
          ∃ f ∈ compiled.program.functions, f.name = source.name
            ∧ (compiled.program.localsOf? f.name).getD []
              = (Ast.Statement.localsAll body.statements).map (·.1)
            ∧ ∃ writes, source.KeepsConstants body writes
              ∧ ((compiled.program.partAt compiled.bytes.length entries f.address).map
                Entry.instruction).filter Instruction.writes = writes.map Write.instruction := by
  obtain ⟨scanned, declarations, r, e, hscan, hread, -, htyped, hemit, hcode, hprogram, hrun⟩ :=
    run_of_compile h
  have htracks := hrun.tracks
  obtain ⟨routines, init, hlaid⟩ := r.exists_laidOut d hemit
  have hglobals : compiled.program.builtins ++ compiled.program.globals = r.allGlobals := by
    rw [hprogram]
    rfl
  have hfunctions : compiled.program.functions
      = List.zipWith Typed.Function.placedAt r.functions routines := by
    rw [hprogram]
    exact hlaid.functions
  -- A part of the listing is the code of the routine that was laid there.
  have hpart : ∀ x ∈ routines ++ [init], (compiled.program.partAt compiled.bytes.length
      (entriesFrom 0 e.code) x.start).map Entry.instruction = x.code := by
    intro x hx
    rw [hprogram, Compiled.bytes, hcode, hlaid.partAt_eq request.stage request.entryPoint hx,
      Routine.entries, map_instruction_entriesFrom]
  refine ⟨scanned, declarations, entriesFrom 0 e.code, hscan, hread, ?_, ?_, ?_, ?_⟩
  · rw [Compiled.bytes, hcode]
    exact hlaid.disassemble_eq htyped
  · intro f hf entry hentry
    rw [hfunctions] at hf
    obtain ⟨g, hg, x, hx, hown, rfl⟩ := mem_zipWith hlaid.laid hf
    obtain ⟨definition, hdefinition, -⟩ := id hown
    obtain ⟨_, _, hdefines⟩ := htracks.bodies g hg definition hdefinition
    refine htracks.spares hdefines.keeps.globals
      (htracks.filter_writes_laid hg hown hdefinition) hglobals entry.instruction ?_
    rw [← hpart x (List.mem_append_left _ hx)]
    exact List.mem_map_of_mem hentry
  · obtain ⟨segments, hsegments, hindices, -, hvalues⟩ :=
      htracks.exists_initSegments hlaid.initLaid hglobals
    have haddress : compiled.program.initAddress = init.start := by
      rw [hprogram]
      exact hlaid.initAddress
    refine ⟨segments, ?_, ?_, hvalues⟩
    · rw [haddress, hpart init (List.mem_append_right _ (List.mem_singleton_self _)), hsegments]
    · rw [hindices, hprogram, Ast.flatMap_starts]
      rfl
  · intro source body hmem hbody
    have hsource : .function source ∈ declarations.flatMap Ast.Declaration.parts :=
      List.mem_flatMap.mpr ⟨_, hmem, List.mem_singleton_self _⟩
    obtain ⟨g, hg, definition, hdefines⟩ := htracks.defined source body hsource hbody
    obtain ⟨x, hx, hown, hplaced⟩ := hlaid.exists_placed hg
    refine ⟨g.placedAt x, ?_, hdefines.name, ?_, _, hdefines.keepsConstants, ?_⟩
    · rw [hprogram]
      exact hplaced
    · rw [hprogram, ← hdefines.locals]
      exact r.lookup_localNames htyped.names hg hdefines.definition
    · rw [Typed.Function.placedAt, hpart x (List.mem_append_left _ hx)]
      exact htracks.filter_writes_laid hg hown hdefines.definition

/-- A source with constants of all kinds, and with variables beside them. -/
def constantsRequest : Request where
  stage := .vertex
  source := "const float k = 2.0; float total = k; uniform float u;
    float area(const float s) { const float d = s * k; float t = d; t += u; return t; }
    void main() { total += area(1.0); }"

theorem compile_sparesReadOnly_constantsRequest :
    ∃ compiled scanned declarations entries, compile .glsl {} constantsRequest = .ok compiled
      ∧ scan .glsl constantsRequest.source = .ok scanned
      ∧ Ast.ofTokens .glsl scanned = .ok declarations
      ∧ disassemble compiled.bytes = .ok entries
      ∧ ∀ source body, .function source ∈ declarations → source.body = some body →
          ∃ f ∈ compiled.program.functions, f.name = source.name
            ∧ ∃ writes, source.KeepsConstants body writes
              ∧ ((compiled.program.partAt compiled.bytes.length entries f.address).map
                Entry.instruction).filter Instruction.writes = writes.map Write.instruction := by
  have hsome : (compile .glsl {} constantsRequest).toOption.isSome = true := by decide +kernel
  obtain ⟨compiled, h⟩ := exists_ok_of_isSome hsome
  obtain ⟨scanned, declarations, entries, hscan, hread, hentries, -, -, hconstants⟩ :=
    compile_sparesReadOnly h
  refine ⟨compiled, scanned, declarations, entries, h, hscan, hread, hentries, ?_⟩
  intro source body hmem hbody
  obtain ⟨f, hf, hname, -, writes, hkeeps, hwrites⟩ := hconstants source body hmem hbody
  exact ⟨f, hf, hname, writes, hkeeps, hwrites⟩

end Compiled

end ShaderBytecode
