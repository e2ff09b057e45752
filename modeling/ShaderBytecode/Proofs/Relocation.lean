import ShaderBytecode.Proofs.Placement

/-!
# Markers can be erased

A source compiled with markers of its lines and the same source compiled without them have the same
registries and the same instructions but for the markers. Where markers are gone, places move: a
place with markers before it becomes the place of the first instruction from there on that is no
marker. Jumps, the functions and the initialisation follow.
-/

namespace ShaderBytecode

/-! ## Relocation -/

def unmarked (entries : List Entry) : List Entry :=
  entries.filter fun e => !e.instruction.isMarker

/-- Where a place in a listing with markers is in the listing without them: where the counterpart of
the first instruction from the place on that is no marker stands. -/
def movedTo? (marked plain : List Entry) (offset : Nat) : Option Nat := do
  let index ← (unmarked marked).findIdx? (offset ≤ ·.offset)
  let entry ← plain[index]?
  return entry.offset

def Instruction.relocate? (move : Nat → Option Nat) : Instruction → Option Instruction
  | .jump condition target => do return .jump condition (.ofNat (← move target.toNat))
  | other => some other

def Function.relocate? (move : Nat → Option Nat) (f : Function) : Option Function := do
  return { f with address := ← move f.address }

def Program.relocate? (move : Nat → Option Nat) (p : Program) : Option Program := do
  let functions ← p.functions.mapM (Function.relocate? move)
  return { p with functions, initAddress := ← move p.initAddress }

/-- A compiled source with markers and one without them have the same remarks, and the instructions
and the registries of the second are those of the first without its markers, with all jumps and
addresses moved. -/
def Compiled.ErasedTo (marked plain : Compiled) : Prop :=
  plain.remarks = marked.remarks ∧ ∃ entries entries',
    disassemble marked.bytes = .ok entries ∧ disassemble plain.bytes = .ok entries'
    ∧ (unmarked entries).mapM (fun e => e.instruction.relocate? (movedTo? entries entries'))
      = some (entries'.map (·.instruction))
    ∧ marked.program.relocate? (movedTo? entries entries') = some plain.program

theorem mapM_cons_eq_some {α β : Type} {f : α → Option β} {a : α} {b : β} {as : List α} {bs : List β}
    (ha : f a = some b) (has : as.mapM f = some bs) : (a :: as).mapM f = some (b :: bs) := by
  rw [List.mapM_cons, ha, has]
  rfl

section Moving

variable {marked plain : List Entry} {e e' : Entry} {o : Nat}

theorem unmarked_cons_marker (h : e.instruction.isMarker = true) :
    unmarked (e :: marked) = unmarked marked := by
  rw [unmarked, List.filter_cons_of_neg (by simp [h])]
  rfl

theorem unmarked_cons (h : e.instruction.isMarker = false) :
    unmarked (e :: marked) = e :: unmarked marked := by
  rw [unmarked, List.filter_cons_of_pos (by simp [h])]
  rfl

/-- A place behind a marker moves as if the marker were not there. -/
theorem movedTo?_cons_marker (h : e.instruction.isMarker = true) :
    movedTo? (e :: marked) plain o = movedTo? marked plain o := by
  rw [movedTo?, unmarked_cons_marker h]
  rfl

theorem movedTo?_cons (h : e.instruction.isMarker = false) (ho : e.offset < o) :
    movedTo? (e :: marked) (e' :: plain) o = movedTo? marked plain o := by
  rw [movedTo?, movedTo?, unmarked_cons h, List.findIdx?_cons, if_neg (by simpa using ho)]
  cases (unmarked marked).findIdx? (o ≤ ·.offset) with
  | none => rfl
  | some index => rfl

theorem movedTo?_first (h : ∃ e ∈ marked, e.instruction.isMarker = false)
    (ho : ∀ e ∈ marked, o ≤ e.offset) :
    movedTo? marked (e' :: plain) o = some e'.offset := by
  obtain ⟨kept, hkept, hmarker⟩ := h
  have hmem : kept ∈ unmarked marked := List.mem_filter.mpr ⟨hkept, by simp [hmarker]⟩
  obtain ⟨first, rest, hcons⟩ := List.exists_cons_of_ne_nil (List.ne_nil_of_mem hmem)
  have hfirst : first ∈ marked :=
    (List.mem_filter.mp (hcons ▸ List.mem_cons_self .. : first ∈ unmarked marked)).1
  rw [movedTo?, hcons, List.findIdx?_cons, if_pos (by simpa using ho first hfirst)]
  rfl

end Moving

/-! ## Assembled code -/

namespace Item

variable {p q o o' : Nat} {marked plain : List Item} {code code' : List Instruction}

theorem isMarker_assemble {item : Item} {i : Instruction} (h : item.assemble p = .ok i) :
    i.isMarker = item.isMarker := by
  cases item with
  | op instruction =>
    cases h
    rfl
  | jump condition distance =>
    obtain ⟨target, -, rfl⟩ := eq_jump_of_assemble h
    rfl
  | leave kind => cases h

/-- In code before a last instruction a place moves to the place it meets. -/
theorem movedTo?_of_meets {last : Item} (hlast : last.isMarker = false)
    (h : Meets p q marked plain o o')
    (hcode : ShaderBytecode.assemble p (marked ++ [last]) = .ok code)
    (hcode' : ShaderBytecode.assemble q (plain ++ [last]) = .ok code') :
    movedTo? (entriesFrom p code) (entriesFrom q code') o = some o' := by
  induction h generalizing code code' with
  | @here p q marked plain =>
    obtain ⟨front, back, -, hback, rfl⟩ := assemble_append.mp hcode
    obtain ⟨i, rest, hi, -, rfl⟩ := assemble_cons.mp hback
    obtain ⟨i', rest', hcons⟩ := List.exists_cons_of_ne_nil
      (Typed.assemble_ne_nil hcode' (List.append_ne_nil_of_right_ne_nil _ (List.cons_ne_nil _ _)))
    rw [hcons, entriesFrom]
    refine movedTo?_first ⟨⟨p + ShaderBytecode.sizeAll front, i⟩, ?_, ?_⟩ ?_
    · exact mem_entriesFrom.mpr ⟨front, rest, rfl, rfl⟩
    · exact (isMarker_assemble hi).trans hlast
    · intro e he
      exact (entriesFrom_bounds he).1
  | marker h _ ih =>
    obtain ⟨i, more, hi, hmore, rfl⟩ := assemble_cons.mp hcode
    rw [entriesFrom, movedTo?_cons_marker ((isMarker_assemble hi).trans h), size_assemble hi]
    exact ih hmore hcode'
  | both h hrest ih =>
    obtain ⟨i, more, hi, hmore, rfl⟩ := assemble_cons.mp hcode
    obtain ⟨i', more', hi', hmore', rfl⟩ := assemble_cons.mp hcode'
    have hbounds := hrest.boundary.1.bounds
    have hpos := i.size_pos
    rw [← size_assemble hi] at hbounds
    rw [entriesFrom, entriesFrom, movedTo?_cons ((isMarker_assemble hi).trans h)
      (by simp only []; omega), size_assemble hi, size_assemble hi']
    exact ih hmore hmore'

/-- Erasing markers and moving jumps gives the instructions without markers. -/
theorem mapM_relocate?_of_erases {R : Int → Int → Prop} {move : Nat → Option Nat}
    (hmove : ∀ t t' : Nat, R t t' → move t = some t') (h : Erases R p q marked plain)
    (hcode : ShaderBytecode.assemble p marked = .ok code)
    (hcode' : ShaderBytecode.assemble q plain = .ok code') :
    (unmarked (entriesFrom p code)).mapM (fun e => e.instruction.relocate? move) = some code' := by
  induction h generalizing code code' with
  | nil =>
    cases hcode
    cases hcode'
    rfl
  | marker hi _ ih =>
    obtain ⟨i, more, hitem, hmore, rfl⟩ := assemble_cons.mp hcode
    cases hitem
    rw [entriesFrom, unmarked_cons_marker hi]
    exact ih hmore hcode'
  | @op _ _ i _ _ hi hjump _ ih =>
    obtain ⟨_, more, hitem, hmore, rfl⟩ := assemble_cons.mp hcode
    obtain ⟨_, more', hitem', hmore', rfl⟩ := assemble_cons.mp hcode'
    cases hitem
    cases hitem'
    have hsame : i.relocate? move = some i := by
      unfold Instruction.relocate?
      split
      · cases hjump
      · rfl
    rw [entriesFrom, unmarked_cons hi]
    exact mapM_cons_eq_some hsame (ih hmore hmore')
  | jump hR _ ih =>
    obtain ⟨_, more, hitem, hmore, rfl⟩ := assemble_cons.mp hcode
    obtain ⟨_, more', hitem', hmore', rfl⟩ := assemble_cons.mp hcode'
    obtain ⟨target, htarget, rfl⟩ := eq_jump_of_assemble hitem
    obtain ⟨target', htarget', rfl⟩ := eq_jump_of_assemble hitem'
    rw [← htarget, ← htarget'] at hR
    rw [entriesFrom, unmarked_cons rfl]
    refine mapM_cons_eq_some ?_ (ih hmore hmore')
    simp [Instruction.relocate?, hmove _ _ hR]
  | leave _ _ =>
    obtain ⟨i, more, hitem, -⟩ := assemble_cons.mp hcode
    cases hitem

end Item

/-! ## Emitted sources -/

namespace Typed

/-- Functions that are laid out with and without markers start at places that meet. -/
theorem mapM_relocate?_placedAt {move : Nat → Option Nat} {fs : List Function} {p q : Nat}
    {routines routines' : List Routine} (hchain : Chain p routines) (hchain' : Chain q routines')
    (h : List.Forall₂ (Function.LaidAs true) fs routines)
    (h' : List.Forall₂ (Function.LaidAs false) fs routines')
    (hmove : ∀ o o', Item.Meets p q (fs.flatMap (Function.code true))
      (fs.flatMap (Function.code false)) o o' → move o = some o') :
    (List.zipWith Function.placedAt fs routines).mapM (ShaderBytecode.Function.relocate? move)
      = some (List.zipWith Function.placedAt fs routines') := by
  induction h generalizing p q routines' with
  | nil =>
    cases h'
    rfl
  | @cons f x fs routines hlaid _ ih =>
    cases h' with
    | @cons _ x' _ routines' hlaid' hrest' =>
      obtain ⟨rfl, -, hchain⟩ := hchain
      obtain ⟨rfl, -, hchain'⟩ := hchain'
      obtain ⟨definition, hdefinition, hown⟩ := hlaid
      obtain ⟨definition', hdefinition', hown'⟩ := hlaid'
      obtain rfl : definition = definition' := Option.some.inj (hdefinition.symm.trans hdefinition')
      rw [List.zipWith_cons_cons, List.zipWith_cons_cons]
      refine mapM_cons_eq_some ?_ (ih hchain hchain' hrest' fun o o' hmeet => hmove o o' ?_)
      · simp only [ShaderBytecode.Function.relocate?, Function.placedAt, hmove _ _ .here]
        rfl
      · rw [List.flatMap_cons, List.flatMap_cons, Function.code_eq hdefinition,
          Function.code_eq hdefinition]
        refine .append_right definition.parallel.alike ?_
        rw [← sizeAll_assemble hown, ← sizeAll_assemble hown']
        exact hmeet

section Sources

variable {r : Registry} {e e' : Emitted} {routines routines' : List Routine} {init init' : Routine}
variable (h : r.LaidOut true e routines init) (h' : r.LaidOut false e' routines' init')
include h h'

theorem Registry.LaidOut.movedTo?_eq {o o' : Nat}
    (hmeet : Item.Meets 0 0 (r.front true) (r.front false) o o') :
    movedTo? (entriesFrom 0 e.code) (entriesFrom 0 e'.code) o = some o' :=
  Item.movedTo?_of_meets rfl hmeet h.assemble_front h'.assemble_front

theorem Registry.LaidOut.mapM_relocate? :
    (unmarked (entriesFrom 0 e.code)).mapM (fun entry =>
      entry.instruction.relocate? (movedTo? (entriesFrom 0 e.code) (entriesFrom 0 e'.code)))
      = some e'.code := by
  have herases := r.parallel.erases.append (.op (i := .simple .ret) rfl rfl .nil)
  refine Item.mapM_relocate?_of_erases ?_ herases h.assemble_front h'.assemble_front
  rintro t t' ⟨o, o', ht, ht', hmeet⟩
  obtain rfl : t = o := Int.ofNat.inj ht
  obtain rfl : t' = o' := Int.ofNat.inj ht'
  exact h.movedTo?_eq h' hmeet

theorem Registry.LaidOut.relocate?_ofEmitted (stage : Stage) (entryPoint : String) :
    (Program.ofEmitted r stage entryPoint e).relocate?
      (movedTo? (entriesFrom 0 e.code) (entriesFrom 0 e'.code))
      = some (Program.ofEmitted r stage entryPoint e') := by
  have hfunctions : e.functions.mapM (ShaderBytecode.Function.relocate?
      (movedTo? (entriesFrom 0 e.code) (entriesFrom 0 e'.code))) = some e'.functions := by
    rw [h.functions, h'.functions]
    refine mapM_relocate?_placedAt h.chain h'.chain h.laid h'.laid fun o o' hmeet => ?_
    exact h.movedTo?_eq h' hmeet.append_left
  have hstarts : Item.Meets 0 0 (r.front true) (r.front false) init.start init'.start := by
    have hstop : Item.Meets 0 0 (r.functions.flatMap (Function.code true))
        (r.functions.flatMap (Function.code false)) init.start init'.start := by
      rw [h.initStart, h'.initStart, sizeAll_assemble (assemble_flatMap_code h.chain h.laid),
        sizeAll_assemble (assemble_flatMap_code h'.chain h'.laid)]
      have hmeet := (parallel_flatMap_code r.functions).alike.meets_stop (p := 0) (q := 0)
      rwa [Nat.zero_add, Nat.zero_add] at hmeet
    exact hstop.append_left
  simp only [Program.relocate?, Program.ofEmitted, hfunctions, h.initAddress, h'.initAddress,
    h.movedTo?_eq h' hstarts]
  rfl

end Sources

end Typed

/-! ## Compiled sources -/

theorem Program.isSome_function? (p : Program) (name : String) :
    (p.function? name).isSome = (p.functions.map (·.name)).contains name := by
  rw [Program.function?, Bool.eq_iff_iff, List.find?_isSome]
  simp

/-- Whether a program has its entry point, and if not the names of its functions, depends on the
names of the functions only. -/
theorem programOf_cases (request : Request) (r : Typed.Registry) {e e' : Emitted}
    (h : e.functions.map (·.name) = e'.functions.map (·.name)) :
    (∃ error, programOf request r (.ok e) = .error error
      ∧ programOf request r (.ok e') = .error error)
    ∨ (programOf request r (.ok e)
        = .ok (e.code, Program.ofEmitted r request.stage request.entryPoint e)
      ∧ programOf request r (.ok e')
        = .ok (e'.code, Program.ofEmitted r request.stage request.entryPoint e')) := by
  have hnames : (Program.ofEmitted r request.stage request.entryPoint e).functions.map (·.name)
      = (Program.ofEmitted r request.stage request.entryPoint e').functions.map (·.name) := h
  unfold programOf
  simp only [Program.isSome_function?, hnames]
  split
  · exact .inr ⟨rfl, rfl⟩
  · exact .inl ⟨_, rfl, rfl⟩

/-- Compiling a source without markers erases the markers of compiling it with them: both fail with
the same errors and remarks, or both succeed, with the same registries and instructions but for the
markers and the places that move with them. -/
theorem compile_erasesMarkers (d : Dialect) (config : Config) (request : Request)
    (hlength : request.source.length < 2 ^ 24) :
    (∃ failure, compile d { config with lineMarkers := true } request = .error failure
      ∧ compile d { config with lineMarkers := false } request = .error failure)
    ∨ ∃ marked plain, compile d { config with lineMarkers := true } request = .ok marked
      ∧ compile d { config with lineMarkers := false } request = .ok plain
      ∧ marked.ErasedTo plain := by
  have hanalyse : ∀ markers,
      analyse d { config with lineMarkers := markers } request = analyse d config request :=
    fun _ => rfl
  obtain ⟨r, remarks, weight, hanalysed, haccepted, hweight⟩ | ⟨failure, hfailure, -⟩ :=
    analyse_cases (d := d) config hlength
  · have hfits := Typed.Registry.fits_of_load haccepted.load hweight
    obtain ⟨e, -, -, hemit, -⟩ := r.exists_emit true haccepted.typed hfits haccepted.defined
    obtain ⟨e', -, -, hemit', -⟩ := r.exists_emit false haccepted.typed hfits haccepted.defined
    obtain ⟨routines, init, hlaid⟩ := Typed.Registry.exists_laidOut d hemit
    obtain ⟨routines', init', hlaid'⟩ := Typed.Registry.exists_laidOut d hemit'
    have hnames : e.functions.map (·.name) = e'.functions.map (·.name) :=
      hlaid.names.trans hlaid'.names.symm
    simp only [compile_eq, hanalyse, hanalysed, emitSource, hemit, hemit']
    obtain ⟨error, herror, herror'⟩ | ⟨hprogram, hprogram'⟩ := programOf_cases request r hnames
    · rw [herror, herror']
      exact .inl ⟨_, rfl, rfl⟩
    · rw [hprogram, hprogram']
      refine .inr ⟨_, _, rfl, rfl, rfl, entriesFrom 0 e.code, entriesFrom 0 e'.code,
        hlaid.disassemble_eq haccepted.typed, hlaid'.disassemble_eq haccepted.typed, ?_,
        hlaid.relocate?_ofEmitted hlaid' _ _⟩
      rw [hlaid.mapM_relocate? hlaid', map_instruction_entriesFrom]
  · simp only [compile_eq, hanalyse, hfailure]
    exact .inl ⟨_, rfl, rfl⟩

theorem compile_erasesMarkers_leavingRequest :
    leavingRequest.source.length < 2 ^ 24 ∧ ∃ marked plain,
      compile .glsl { lineMarkers := true } leavingRequest = .ok marked
      ∧ compile .glsl { lineMarkers := false } leavingRequest = .ok plain
      ∧ marked.ErasedTo plain := by
  obtain ⟨compiled, hcompiled⟩ := exists_compile_leavingRequest
  refine ⟨length_leavingRequest, ?_⟩
  obtain ⟨failure, hmarked, -⟩ | hboth :=
    compile_erasesMarkers .glsl {} leavingRequest length_leavingRequest
  · cases hcompiled.symm.trans hmarked
  · exact hboth

end ShaderBytecode
