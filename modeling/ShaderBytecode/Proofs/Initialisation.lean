import ShaderBytecode.Proofs.NameResolution

/-!
# The initialisation of globals

The globals of a source are initialised in the order of their declaration, each by a segment of code
of its own. A segment does not jump out of itself, it uses no slots, and it looks back only: a start
value is typed before its global is registered, so all variables that it can name come first.
-/

namespace ShaderBytecode

open Typed (Registry)

/-- A segment at an offset keeps to itself and looks back: its jumps lead no further than to the
instruction that sets its global, and the variables that it names before that are globals in front
of its own. -/
structure Segment.LooksBack (offset : Nat) (s : Segment) : Prop where
  jumps : ∀ i ∈ s.value, ∀ target ∈ i.jumpTarget?,
    offset ≤ target.toNat ∧ target.toNat ≤ offset + sizeAll s.value
  operands : ∀ i ∈ s.value, ∀ operand ∈ i.operand?,
    ∃ index < s.index, operand = .global (.ofNat index)

/-- Where no local is in sight, the variables of an expression are globals that are registered. -/
theorem Env.Names.globals {env : Env} (hscopes : env.scopes = []) {names : List String}
    {operands : List Operand} (h : env.Names names operands) :
    ∀ operand ∈ operands, ∃ index < env.registry.allGlobals.length,
      operand = .global (.ofNat index) := by
  intro operand hmem
  have hsome : some operand ∈ names.map env.operand? := h ▸ List.mem_map_of_mem hmem
  obtain ⟨name, -, hname⟩ := List.mem_map.mp hsome
  rw [Env.operand?, hscopes] at hname
  obtain ⟨⟨index, v⟩, hfound, hoperand⟩ := Option.map_eq_some_iff.mp hname
  exact ⟨index, (List.getElem?_eq_some_iff.mp (Registry.getElem?_of_global? hfound)).1,
    hoperand.symm⟩

namespace Typed.Registry

/-- The variables in the start value of a global are globals in front of it. -/
def StartsLookBack (r : Registry) : Prop :=
  ∀ k g, r.globals[k]? = some g → ∀ value ∈ g.initializer, ∀ operand ∈ value.operands,
    ∃ index < r.builtins.length + k, operand = .global (.ofNat index)

variable {c : Context} {r r' : Registry}

theorem StartsLookBack.addGlobal {g : Global} (h : r.StartsLookBack)
    (hg : ∀ value ∈ g.initializer, ∀ operand ∈ value.operands,
      ∃ index < r.allGlobals.length, operand = .global (.ofNat index)) :
    { r with globals := r.globals ++ [g] }.StartsLookBack := by
  intro k g' hk value hvalue operand hoperand
  obtain hlt | hge := Nat.lt_or_ge k r.globals.length
  · rw [List.getElem?_append_left hlt] at hk
    exact h k g' hk value hvalue operand hoperand
  · obtain rfl : k = r.globals.length := by
      have hbound := (List.getElem?_eq_some_iff.mp hk).1
      rw [List.length_append, List.length_singleton] at hbound
      omega
    cases List.getElem?_concat_length.symm.trans hk
    obtain ⟨index, hlt, rfl⟩ := hg value hvalue operand hoperand
    rw [allGlobals, List.length_append, List.length_map] at hlt
    exact ⟨index, hlt, rfl⟩

theorem Registers.startsLookBack {part : Ast.Part} (h : r.Registers c part r')
    (hr : r.StartsLookBack) : r'.StartsLookBack := by
  have hplaced : ∀ {f signature index r₁}, r.Places c signature f index r₁ →
      r₁.StartsLookBack := by
    intro f signature index r₁ hplace
    cases hplace with
    | again => exact hr
    | first => exact hr
  cases h with
  | struct => exact hr
  | @global v d type value htype hname hstorage hvalue =>
    refine hr.addGlobal fun t ht => ?_
    cases ht
    generalize d.initializer = start at hvalue
    cases hvalue with
    | some htyped => exact (Env.exprOf_names _ t htyped).globals rfl
  | member => exact hr.addGlobal nofun
  | prototype _ hplace => exact hplaced hplace
  | function _ hplace =>
    have hbefore := hplaced hplace
    exact hbefore

end Typed.Registry

theorem Typed.Computes.looksBack {d : Dialect} {r : Registry} {markers : Bool} {offset : Nat}
    {s : Segment} (htyped : r.WellTyped d) (hr : r.StartsLookBack)
    (h : Computes markers (r.globals.zipIdx r.builtins.length) offset s) : s.LooksBack offset := by
  obtain ⟨g, value, hmem, hvalue, hcode⟩ := h
  have hvalueTyped := ((htyped.zipIdx hmem).2 value hvalue).1
  have hstandalone : Item.Standalone false (marker markers g.line ++ value.code) :=
    (standalone_marker markers g.line).append hvalueTyped.standalone
  refine ⟨fun i hi target htarget => ?_, fun i hi operand hoperand => ?_⟩
  · rw [sizeAll_assemble hcode]
    exact hstandalone.jumps hcode i hi target htarget
  · obtain ⟨hlow, hget⟩ := List.mk_mem_zipIdx_iff_le_and_getElem?_sub.mp hmem
    have hpick : s.value.filterMap Instruction.operand?
        = Item.operands (marker markers g.line ++ value.code) :=
      Item.filterMap_assemble Instruction.operand? (fun _ _ => rfl) hcode
    have hin : operand ∈ value.operands := by
      have hmem : operand ∈ Item.operands (marker markers g.line ++ value.code) :=
        hpick ▸ List.mem_filterMap.mpr ⟨i, hi, hoperand⟩
      simpa [Typed.picksAccesses_operand.marker] using hmem
    obtain ⟨index, hlt, rfl⟩ := hr _ g hget value hvalue operand hin
    exact ⟨index, by omega, rfl⟩

/-- The globals with a start value are numbered in the order of the source. -/
theorem Ast.pairwise_initialised (first : Nat) (declarations : List Ast.Declaration) :
    (Ast.initialised first declarations).Pairwise (· < ·) := by
  have hnumbers : ((declarations.flatMap Ast.Declaration.starts).zipIdx first).map (·.2)
      = List.range' first (declarations.flatMap Ast.Declaration.starts).length :=
    List.zipIdx_map_snd ..
  refine List.Pairwise.sublist (List.filter_sublist.map _) ?_
  rw [hnumbers]
  exact List.pairwise_lt_range'

section Compiled

variable {d : Dialect} {config : Config} {request : Request} {compiled : Compiled}

/-- The initialisation runs in the order of declaration and never looks ahead. The code of a
compiled source from the address of the initialisation on is a segment for each global that the
source gives a start value, in their order, and a return. Each segment ends by setting its global,
does not jump out of itself, and names nothing else but globals in front of its own. -/
theorem compile_initialises (h : compile d config request = .ok compiled) :
    ∃ scanned declarations, scan d request.source = .ok scanned
      ∧ Ast.ofTokens d scanned = .ok declarations
      ∧ ∃ (functions : List Instruction) (segments : List Segment),
        compiled.code = functions ++ (segments.flatMap Segment.code ++ [.simple .ret])
        ∧ sizeAll functions = compiled.program.initAddress
        ∧ segments.map (·.index) = Ast.initialised compiled.program.builtins.length declarations
        ∧ (segments.map (·.index)).Pairwise (· < ·)
        ∧ Segment.AllFrom Segment.LooksBack compiled.program.initAddress segments := by
  obtain ⟨scanned, declarations, r, e, hscan, hread, -, htyped, hemit, hcode, hprogram, hrun⟩ :=
    run_of_compile h
  have hbackward : r.StartsLookBack :=
    hrun.keeps (fun _ _ _ _ hstep => hstep.startsLookBack) nofun
  obtain ⟨routines, init, hlaid⟩ := r.exists_laidOut d hemit
  have hglobals : compiled.program.builtins ++ compiled.program.globals = r.allGlobals := by
    rw [hprogram]
    rfl
  obtain ⟨segments, hsegments, hindices, hcomputes, -⟩ :=
    hrun.tracks.exists_initSegments hlaid.initLaid hglobals
  have haddress : compiled.program.initAddress = init.start := by
    rw [hprogram]
    exact hlaid.initAddress
  have hnumbers :
      segments.map (·.index) = Ast.initialised compiled.program.builtins.length declarations := by
    rw [hindices, hprogram, Ast.flatMap_starts]
    rfl
  refine ⟨scanned, declarations, hscan, hread, routines.flatMap (·.code), segments, ?_, ?_,
    hnumbers, hnumbers ▸ Ast.pairwise_initialised _ _, ?_⟩
  · rw [hcode, hlaid.code, List.flatMap_append, List.flatMap_singleton, hsegments]
  · rw [haddress, hlaid.initStart]
  · rw [haddress]
    exact hcomputes.mono fun _ _ hs => hs.looksBack htyped hbackward

/-- A source with start values that choose, that assign and that call, some of them in one
declaration. -/
def startsRequest : Request where
  stage := .vertex
  source := "float f(float x) { return x; } float a = 1.0, b, c = a > 0.5 ? f(a) : b;
    bool q = a == c || (b = a) < c; void main() { }"

theorem compile_initialises_startsRequest :
    ∃ compiled scanned declarations, compile .glsl {} startsRequest = .ok compiled
      ∧ scan .glsl startsRequest.source = .ok scanned
      ∧ Ast.ofTokens .glsl scanned = .ok declarations
      ∧ ∃ (functions : List Instruction) (segments : List Segment),
        compiled.code = functions ++ (segments.flatMap Segment.code ++ [.simple .ret])
        ∧ sizeAll functions = compiled.program.initAddress
        ∧ segments.map (·.index) = Ast.initialised compiled.program.builtins.length declarations
        ∧ (segments.map (·.index)).Pairwise (· < ·)
        ∧ Segment.AllFrom Segment.LooksBack compiled.program.initAddress segments := by
  have hsome : (compile .glsl {} startsRequest).toOption.isSome = true := by decide +kernel
  obtain ⟨compiled, h⟩ := exists_ok_of_isSome hsome
  obtain ⟨scanned, declarations, hscan, hread, hrest⟩ := compile_initialises h
  exact ⟨compiled, scanned, declarations, h, hscan, hread, hrest⟩

end Compiled

end ShaderBytecode
