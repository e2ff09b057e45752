import ShaderBytecode.Proofs.NameResolution

/-!
# Names and operands of a program

The tables of a program say what the numbers in its code mean. Every name stands for one entry, and
the number by which code gets, sets or refers to a variable is the place of that entry.
-/

namespace ShaderBytecode

open Typed (Registry)

/-- The variable of a meaning. A global variable has the place of its name. -/
def Program.operand? (p : Program) : Ast.Meaning → Option Operand
  | .slot number => some (.slot (.ofNat number))
  | .global name => (p.globalIndex? name).map fun index => .global (.ofNat index)

def Entry.operands (entries : List Entry) : List Operand :=
  entries.filterMap fun e => e.instruction.operand?

/-- A function of a program as the source defines it. The variables in its code are those that the
names in its body mean, and it is listed among those with locals just if its body declares some. -/
structure Program.Defines (p : Program) (code : List Entry) (f : Function) (source : Ast.Function)
    (body : Ast.Body) : Prop where
  hasBody : source.body = some body
  name : f.name = source.name
  operands : Denote p.operand? (source.meanings body) (Entry.operands code)
  locals : f.name ∈ p.locals.map (·.1) ↔ Ast.Statement.declaredAll body.statements ≠ []

section Emitted

variable {c : Context} {d : Dialect} {r : Registry} {e : Emitted} {markers : Bool}
variable {stage : Stage} {entryPoint : String}

theorem Program.operand?_ofEmitted (m : Ast.Meaning) :
    (Program.ofEmitted r stage entryPoint e).operand? m = m.operand? r.allGlobals := by
  cases m <;> rfl

theorem operands_entries {x : Routine} {items : List Item}
    (h : assemble x.start items = .ok x.code) : Entry.operands x.entries = Item.operands items := by
  rw [Item.operands, ← Item.filterMap_assemble Instruction.operand? (fun _ _ => rfl) h,
    ← map_instruction_entriesFrom x.start x.code, List.filterMap_map]
  rfl

theorem finds_ofEmitted {meanings : List Ast.Meaning} {x : Routine} {items : List Item}
    (h : r.Finds meanings (Item.operands items)) (hx : assemble x.start items = .ok x.code) :
    Denote (Program.ofEmitted r stage entryPoint e).operand? meanings
      (Entry.operands x.entries) := by
  rw [operands_entries hx]
  exact h.mono fun m _ ho => (Program.operand?_ofEmitted m).trans ho

/-- A registered function is listed among those with locals just if its body declares some. -/
theorem Typed.Registry.DefinedBy.mem_localNames {source : Ast.Function} {body : Ast.Body}
    {g : Typed.Function} {definition : Typed.Definition}
    (h : r.DefinedBy c source body g definition) (hnames : r.names.Nodup)
    (hg : g ∈ r.functions) : g.signature.name ∈ r.localNames.map (·.1)
      ↔ Ast.Statement.declaredAll body.statements ≠ [] := by
  obtain ⟨r₀, r₁, index, -, hsignature, -, haccepts⟩ := h.accepted
  have hparameters := (Env.signatureOf_of_functionSignature hsignature).parameters
  have hlocals := haccepts.locals_eq hparameters.length_eq.symm
  have hdeclared : definition.locals ≠ [] ↔ Ast.Statement.declaredAll body.statements ≠ [] := by
    rw [hlocals, ne_eq, List.map_eq_nil_iff]
  rw [← hdeclared, Typed.Registry.mem_map_localNames]
  constructor
  · rintro ⟨f, hf, hname, found, hfound, hsome⟩
    have hsame : f = g := List.inj_on_of_nodup_map
      (hnames.sublist (List.sublist_append_right _ _)) hf hg hname
    subst hsame
    cases h.definition.symm.trans hfound
    exact hsome
  · exact fun hsome => ⟨g, hg, rfl, definition, h.definition, hsome⟩

/-- Names that list locals are those of functions, and each is listed once. -/
theorem Typed.Registry.nodup_map_localNames (hnames : r.names.Nodup) :
    (r.localNames.map (·.1)).Nodup :=
  (hnames.sublist (List.sublist_append_right _ _)).sublist
    (Typed.Registry.map_localNames_sublist r.functions)

theorem Typed.Registry.DefinedBy.definesIn {source : Ast.Function} {body : Ast.Body}
    {g : Typed.Function} {definition : Typed.Definition} {x : Routine}
    (h : r.DefinedBy c source body g definition) (hnames : r.names.Nodup) (hg : g ∈ r.functions)
    (hx : g.LaidAs markers x) :
    (Program.ofEmitted r stage entryPoint e).Defines x.entries (g.placedAt x) source body := by
  obtain ⟨r₀, -, -, -, hsignature, -, -⟩ := h.accepted
  obtain ⟨laid, hlaid, hcode⟩ := hx
  cases h.definition.symm.trans hlaid
  exact ⟨h.hasBody, (Env.signatureOf_of_functionSignature hsignature).name,
    finds_ofEmitted (h.operands markers) hcode, h.mem_localNames hnames hg⟩

end Emitted

theorem Ast.Declaration.eq_of_mem_parts {declared : Ast.Declaration} {source : Ast.Function}
    (h : .function source ∈ declared.parts) : declared = .function source := by
  cases declared with
  | struct s => cases List.mem_singleton.mp h
  | declare v =>
    obtain ⟨_, -, heq⟩ := List.mem_map.mp h
    cases heq
  | buffer b =>
    obtain ⟨_, -, heq⟩ := List.mem_map.mp h
    cases heq
  | function f =>
    cases List.mem_singleton.mp h
    rfl

section Compiled

variable {d : Dialect} {config : Config} {request : Request} {compiled : Compiled}

/-- Names are distinct and agree with the operands. In a compiled program each name stands for one
variable, structure or function, and finds it. The code is cut into the functions and the
initialisation, and in each piece the variables are those that the source names there, a global
variable being the place of its name. The functions are those that the source defines, and those
with locals are listed by their names. -/
theorem compile_namesApart (h : compile d config request = .ok compiled) :
    ∃ scanned declarations entries, scan d request.source = .ok scanned
      ∧ Ast.ofTokens d scanned = .ok declarations
      ∧ disassemble compiled.bytes = .ok entries
      ∧ compiled.program.NamesApart d
      ∧ (∀ i v, (compiled.program.builtins ++ compiled.program.globals)[i]? = some v →
          compiled.program.globalIndex? v.name = some i)
      ∧ (∀ f ∈ compiled.program.functions, compiled.program.function? f.name = some f
          ∧ ∀ g ∈ compiled.program.functions, g.name = f.name → g = f)
      ∧ (compiled.program.parts.flatMap fun part =>
          compiled.program.partAt compiled.bytes.length entries part.1) = entries
      ∧ (∀ f ∈ compiled.program.functions, ∃ source body, .function source ∈ declarations
          ∧ compiled.program.Defines
            (compiled.program.partAt compiled.bytes.length entries f.address) f source body)
      ∧ (∀ source body, .function source ∈ declarations → source.body = some body →
          ∃ f ∈ compiled.program.functions, compiled.program.Defines
            (compiled.program.partAt compiled.bytes.length entries f.address) f source body)
      ∧ Denote compiled.program.operand?
          (declarations.flatMap fun declared => declared.parts.flatMap Ast.Part.initMeanings)
          (Entry.operands (compiled.program.partAt compiled.bytes.length entries
            compiled.program.initAddress))
      ∧ (compiled.program.locals.map (·.1)).Nodup
      ∧ ∀ name ∈ compiled.program.locals.map (·.1),
          name ∈ compiled.program.functions.map (·.name) := by
  obtain ⟨scanned, declarations, r, e, hscan, hread, -, htyped, hemit, hcode, hprogram, hrun⟩ :=
    run_of_compile h
  have hnames : r.NamesApart d :=
    hrun.keeps (fun _ _ _ _ hstep => hstep.namesApart) (Registry.namesApart_start d request.stage)
  have happart := hnames.program hemit request.stage request.entryPoint
  obtain ⟨routines, init, hlaid⟩ := r.exists_laidOut d hemit
  have hcut : ∀ x ∈ routines ++ [init], (Program.ofEmitted r request.stage request.entryPoint
      e).partAt (encodeAll e.code).length (entriesFrom 0 e.code) x.start = x.entries :=
    fun x hx => hlaid.partAt_eq request.stage request.entryPoint hx
  have hfunctions : (Program.ofEmitted r request.stage request.entryPoint e).functions
      = List.zipWith Typed.Function.placedAt r.functions routines := hlaid.functions
  refine ⟨scanned, declarations, entriesFrom 0 e.code, hscan, hread, ?_⟩
  rw [Compiled.bytes, hcode, hprogram]
  refine ⟨hlaid.disassemble_eq htyped, happart, fun i v => happart.globalIndex?,
    fun f hf => ⟨happart.function? hf, fun g hg => happart.eq_of_name_eq hf hg⟩,
    hlaid.flatMap_partAt request.stage request.entryPoint, ?_, ?_, ?_,
    Registry.nodup_map_localNames hnames.distinct, ?_⟩
  · intro f hf
    rw [hfunctions] at hf
    obtain ⟨g, hg, x, hx, hown, rfl⟩ := mem_zipWith hlaid.laid hf
    obtain ⟨definition, hdefinition, -⟩ := id hown
    obtain ⟨source, body, hsource, hdefined⟩ := hrun.exists_source rfl g hg definition hdefinition
    obtain ⟨declared, hdeclared, hpart⟩ := List.mem_flatMap.mp hsource
    refine ⟨source, body, Ast.Declaration.eq_of_mem_parts hpart ▸ hdeclared, ?_⟩
    rw [Typed.Function.placedAt, hcut x (List.mem_append_left _ hx)]
    exact hdefined.definesIn hnames.distinct hg hown
  · intro source body hmem hbody
    have hsource : .function source ∈ declarations.flatMap Ast.Declaration.parts :=
      List.mem_flatMap.mpr ⟨_, hmem, List.mem_singleton_self _⟩
    obtain ⟨g, hg, definition, hdefined⟩ := hrun.exists_definedBy hsource hbody
    obtain ⟨x, hx, hown, hplaced⟩ := hlaid.exists_placed hg
    refine ⟨g.placedAt x, hplaced, ?_⟩
    rw [Typed.Function.placedAt, hcut x (List.mem_append_left _ hx)]
    exact hdefined.definesIn hnames.distinct hg hown
  · have hinit : (Program.ofEmitted r request.stage request.entryPoint e).initAddress
        = init.start := hlaid.initAddress
    rw [hinit, hcut init (List.mem_append_right _ (List.mem_singleton_self _)),
      ← List.flatMap_assoc]
    exact finds_ofEmitted (hrun.initOperands rfl config.lineMarkers) hlaid.initLaid
  · intro name hname
    obtain ⟨f, hf, rfl, -⟩ := Registry.mem_map_localNames.mp hname
    exact (map_name_of_emit hemit).symm ▸ List.mem_map_of_mem hf

/-- A source with a prototype, and with locals that hide a global variable and a parameter. -/
def namesRequest : Request where
  stage := .vertex
  source := "struct S { float a; float b; }; float k = 2.0, m = k; float f(float x);
    float f(float x) { float m = x; { float x = m; m = x * k; } return m; }
    void main() { m += f(k); }"

theorem compile_namesApart_namesRequest :
    ∃ compiled scanned declarations entries, compile .glsl {} namesRequest = .ok compiled
      ∧ scan .glsl namesRequest.source = .ok scanned
      ∧ Ast.ofTokens .glsl scanned = .ok declarations
      ∧ disassemble compiled.bytes = .ok entries
      ∧ compiled.program.NamesApart .glsl
      ∧ (∀ source body, .function source ∈ declarations → source.body = some body →
          ∃ f ∈ compiled.program.functions, compiled.program.Defines
            (compiled.program.partAt compiled.bytes.length entries f.address) f source body)
      ∧ Denote compiled.program.operand?
          (declarations.flatMap fun declared => declared.parts.flatMap Ast.Part.initMeanings)
          (Entry.operands (compiled.program.partAt compiled.bytes.length entries
            compiled.program.initAddress)) := by
  have hsome : (compile .glsl {} namesRequest).toOption.isSome = true := by decide +kernel
  obtain ⟨compiled, h⟩ := exists_ok_of_isSome hsome
  obtain ⟨scanned, declarations, entries, hscan, hread, hentries, hnames, -, -, -, -, hdefined,
    hinit, -⟩ := compile_namesApart h
  exact ⟨compiled, scanned, declarations, entries, h, hscan, hread, hentries, hnames, hdefined,
    hinit⟩

end Compiled

end ShaderBytecode
