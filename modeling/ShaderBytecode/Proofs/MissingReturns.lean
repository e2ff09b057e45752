import Mathlib.Data.List.Nodup
import ShaderBytecode.Proofs.Registration

/-!
# Missing results

A body whose last statements return on every path is never left at its end, so what stands behind it
in the code of the function cannot be reached. The jump over the second branch of a choice leads to
that very end; it is not reached either, since it stands behind a branch that returns.
-/

namespace ShaderBytecode

open Relation (ReflTransGen)

namespace Item

variable {R S : Nat → Prop} {p q : Nat} {items front rest first second : List Item}

/-- Where control can go from an item at an offset has a property. -/
def LeadsInto (R : Nat → Prop) (p : Nat) : Item → Prop
  | .op i => i.jumpTarget? = none ∧ (i.isFinal = false → R (p + i.size))
  | .jump condition distance =>
    (∀ target : Nat, (target : Int) = p + jumpSize + distance → R target)
      ∧ (condition ≠ .always → R (p + jumpSize))
  | .leave _ => True

/-- From items at offsets with a property control only goes to such offsets. -/
def Stays (R : Nat → Prop) : (p : Nat) → List Item → Prop
  | _, [] => True
  | p, item :: rest => (R p → item.LeadsInto R p) ∧ Stays R (p + item.size) rest

/-- Items that control enters at their start and never leaves at their end. -/
def Sealed (p : Nat) (items : List Item) : Prop :=
  ∃ R : Nat → Prop, R p ∧ Stays R p items ∧ ∀ o, R o → p ≤ o ∧ o < p + sizeAll items

theorem LeadsInto.mono {item : Item} (h : item.LeadsInto R p) (hRS : ∀ o, R o → S o) :
    item.LeadsInto S p := by
  cases item with
  | op i => exact ⟨h.1, fun hgoes => hRS _ (h.2 hgoes)⟩
  | jump condition distance =>
    exact ⟨fun target htarget => hRS _ (h.1 target htarget), fun hgoes => hRS _ (h.2 hgoes)⟩
  | leave kind => trivial

theorem Stays.widen (h : Stays R p items) (hRS : ∀ o, R o → S o)
    (hown : ∀ o, p ≤ o → o < p + sizeAll items → S o → R o) : Stays S p items := by
  induction items generalizing p with
  | nil => trivial
  | cons item rest ih =>
    have hpos := item.size_pos
    rw [sizeAll] at hown
    exact ⟨fun hp => (h.1 (hown p (Nat.le_refl p) (by omega) hp)).mono hRS,
      ih h.2 fun o hlow hhigh => hown o (by omega) (by omega)⟩

theorem stays_append :
    Stays R p (front ++ rest) ↔ Stays R p front ∧ Stays R (p + sizeAll front) rest := by
  induction front generalizing p with
  | nil => exact (true_and _).symm.to_iff
  | cons item front ih =>
    rw [List.cons_append, Stays, Stays, ih, sizeAll, Nat.add_assoc, and_assoc]

/-- Control stays between the start and the end of items that stand alone. -/
theorem AllInside.stays {before after : Nat} (h : AllInside false before items after)
    (hR : ∀ o, p ≤ o → o ≤ p + before + sizeAll items + after → R o) :
    Stays R (p + before) items := by
  induction items generalizing before with
  | nil => trivial
  | cons item rest ih =>
    rw [sizeAll] at hR
    refine ⟨fun _ => ?_, ?_⟩
    · have hinside := h.1
      cases item with
      | op i => exact ⟨hinside.2, fun _ => hR _ (by omega) (by rw [size]; omega)⟩
      | jump condition distance =>
        simp only [Inside] at hinside
        rw [size] at hR
        exact ⟨fun target htarget => hR _ (by omega) (by omega),
          fun _ => hR _ (by omega) (by omega)⟩
      | leave kind => trivial
    · rw [Nat.add_assoc]
      exact ih h.2 fun o hlow hhigh => hR o hlow (by omega)

theorem sealed_final {i : Instruction} (h : i.isFinal = true) : Sealed p [.op i] := by
  refine ⟨(· = p), rfl, ⟨fun _ => ⟨?_, fun hgoes => ?_⟩, trivial⟩, ?_⟩
  · cases i with
    | jump condition target => cases h
    | _ => rfl
  · rw [h] at hgoes
    cases hgoes
  · rintro o rfl
    have hpos : 0 < (Item.op i).size := i.size_pos
    simp only [sizeAll]
    omega

theorem Sealed.append (h : Standalone false front) (h' : Sealed (p + sizeAll front) rest) :
    Sealed p (front ++ rest) := by
  obtain ⟨R, hstart, hstays, hbounds⟩ := h'
  refine ⟨fun o => p ≤ o ∧ o < p + sizeAll front ∨ R o, ?_, stays_append.mpr ⟨?_, ?_⟩, ?_⟩
  · obtain hzero | hpos := Nat.eq_zero_or_pos (sizeAll front)
    · rw [hzero] at hstart
      exact .inr hstart
    · exact .inl ⟨Nat.le_refl p, by omega⟩
  · have hinside : AllInside false 0 front 0 := h
    refine hinside.stays fun o hlow hhigh => ?_
    obtain hlt | rfl := Nat.lt_or_eq_of_le hhigh
    · exact .inl ⟨hlow, hlt⟩
    · exact .inr hstart
  · exact hstays.widen (fun o => .inr) fun o hlow _ ho => ho.resolve_left (by omega)
  · rintro o (ho | ho)
    · rw [sizeAll_append]
      omega
    · have hbound := hbounds o ho
      rw [sizeAll_append]
      omega

/-- A choice between two pieces of code that are never left at their end. -/
theorem Sealed.choose (h : Sealed (p + jumpSize) first)
    (h' : Sealed (p + jumpSize + sizeAll first + jumpSize) second) :
    Sealed p (choose first second) := by
  obtain ⟨R, hR, hstays, hbounds⟩ := h
  obtain ⟨S, hS, hstays', hbounds'⟩ := h'
  have hsize : sizeAll (Item.choose first second)
      = jumpSize + sizeAll first + jumpSize + sizeAll second := by
    simp only [Item.choose, Item.skip, sizeAll_append, sizeAll, size]
    omega
  have hpos : 0 < jumpSize := Nat.zero_lt_succ _
  refine ⟨fun o => o = p ∨ R o ∨ S o, .inl rfl, ?_, ?_⟩
  · refine stays_append.mpr ⟨⟨fun _ => ⟨fun target htarget => ?_, fun _ => .inr (.inl hR)⟩,
      stays_append.mpr ⟨?_, ?_, trivial⟩⟩, ?_⟩
    · have htarget : target = p + jumpSize + sizeAll first + jumpSize := by
        rw [sizeAll_append, sizeAll, sizeAll, size] at htarget
        omega
      exact .inr (.inr (htarget ▸ hS))
    · change Stays _ (p + jumpSize) first
      refine hstays.widen (fun o => .inr ∘ .inl) ?_
      rintro o hlow hhigh (rfl | ho | ho)
      · omega
      · exact ho
      · exact absurd (hbounds' o ho).1 (by omega)
    -- the jump over the second branch stands behind the first, which is never left there
    · change (p + jumpSize + sizeAll first = p ∨ R (p + jumpSize + sizeAll first)
        ∨ S (p + jumpSize + sizeAll first)) → _
      rintro (hjump | hjump | hjump)
      · omega
      · exact absurd (hbounds _ hjump).2 (by omega)
      · exact absurd (hbounds' _ hjump).1 (by omega)
    · have hstart : p + sizeAll (Item.skip .ifFalse (first ++ [.jump .always (sizeAll second)]))
          = p + jumpSize + sizeAll first + jumpSize := by
        simp only [Item.skip, sizeAll_append, sizeAll, size]
        omega
      rw [hstart]
      refine hstays'.widen (fun o => .inr ∘ .inr) ?_
      rintro o hlow hhigh (rfl | ho | ho)
      · omega
      · exact absurd (hbounds o ho).2 (by omega)
      · exact ho
  · rw [hsize]
    rintro o (rfl | ho | ho)
    · omega
    · have hbound := hbounds o ho
      omega
    · have hbound := hbounds' o ho
      omega

end Item

theorem Item.Stays.successors {R : Nat → Prop} {p : Nat} {items : List Item}
    {code : List Instruction} (h : Stays R p items)
    (hcode : ShaderBytecode.assemble p items = .ok code) :
    ∀ x ∈ entriesFrom p code, R x.offset → ∀ next ∈ x.successors, R next := by
  induction items generalizing p code with
  | nil =>
    cases hcode
    exact List.forall_mem_nil _
  | cons item rest ih =>
    obtain ⟨i, more, hitem, hmore, rfl⟩ := assemble_cons.mp hcode
    refine List.forall_mem_cons.mpr ⟨fun hp next hnext => ?_, ?_⟩
    · have hleads := h.1 hp
      cases item with
      | op instruction =>
        cases hitem
        obtain ⟨hgoes, rfl⟩ := Entry.mem_successors hleads.1 hnext
        exact hleads.2 hgoes
      | jump condition distance =>
        obtain ⟨target, htarget, rfl⟩ := eq_jump_of_assemble hitem
        obtain rfl | ⟨hcondition, rfl⟩ := Entry.mem_successors_jump hnext
        · exact hleads.1 _ htarget
        · exact hleads.2 hcondition
      | leave kind => cases hitem
    · rw [← size_assemble hitem] at hmore
      exact ih (size_assemble hitem ▸ h.2) hmore

/-- Control goes from an offset of the code to another one in one step. -/
def Entry.Steps (entries : List Entry) (o o' : Nat) : Prop :=
  ∃ x ∈ entries, x.offset = o ∧ o' ∈ x.successors

/-- Control that enters sealed items stays in them, wherever they stand in code. -/
theorem Item.Sealed.bounds_of_reaches {p : Nat} {items : List Item} {own : List Instruction}
    (h : Sealed p items) (hown : ShaderBytecode.assemble p items = .ok own) {entries : List Entry}
    (hentries : ∀ x ∈ entries, p ≤ x.offset → x.offset < p + ShaderBytecode.sizeAll own →
      x ∈ entriesFrom p own) {o : Nat} (hreach : ReflTransGen (Entry.Steps entries) p o) :
    p ≤ o ∧ o < p + ShaderBytecode.sizeAll own := by
  obtain ⟨R, hstart, hstays, hbounds⟩ := h
  rw [← sizeAll_assemble hown] at hbounds
  refine hbounds o ?_
  induction hreach with
  | refl => exact hstart
  | tail _ hstep ih =>
    obtain ⟨x, hx, rfl, hnext⟩ := hstep
    have hmem := hentries x hx (hbounds _ ih).1 (hbounds _ ih).2
    exact hstays.successors hown x hmem ih _ hnext

/-! ## Bodies -/

namespace Typed

variable {c : CodeContext} {markers : Bool}

theorem Expr.FitsResult.sealed {value : Option Expr} (h : Expr.FitsResult c value) (p : Nat) :
    Item.Sealed p (returnCode value) := by
  obtain ⟨front, op, hcode, hfinal, hfront⟩ := h.exists_returnCode
  rw [hcode]
  exact .append hfront (Item.sealed_final hfinal)

mutual

/-- The code of a statement that returns on every path is never left at its end. -/
theorem Statement.sealed_code : {s : Statement} → s.WellTyped c false → s.returns = true →
    ∀ p, Item.Sealed p (s.code markers)
  | .returnFrom _ line, h, _, _ => .append (standalone_marker markers line) (h.sealed _)
  | .discardPixel line, _, _, _ =>
    .append (standalone_marker markers line) (Item.sealed_final rfl)
  | .ifElse test whenTrue whenFalse line, h, hreturns, p => by
    obtain ⟨htest, -, htrue, hfalse⟩ := h
    obtain ⟨hfirst, hsecond⟩ := Bool.and_eq_true_iff.mp hreturns
    refine .append ((standalone_marker markers line).append htest.standalone) ?_
    have hsome : (!whenFalse.isEmpty) = true := by
      cases whenFalse with
      | nil => cases hsecond
      | cons first rest => rfl
    rw [branchCode, if_pos hsome]
    exact .choose (Statement.sealed_codeAll htrue hfirst _)
      (Statement.sealed_codeAll hfalse hsecond _)
  | .block _, h, hreturns, p => Statement.sealed_codeAll h hreturns p

theorem Statement.sealed_codeAll : {body : List Statement} → Statement.AllWellTyped c false body →
    definitelyReturns body = true → ∀ p, Item.Sealed p (Statement.codeAll markers body)
  | [last], h, hreturns, p => by
    rw [Statement.codeAll, Statement.codeAll, List.append_nil]
    exact Statement.sealed_code h.1 hreturns p
  | _ :: _ :: _, h, hreturns, _ =>
    .append h.1.standalone (Statement.sealed_codeAll h.2 hreturns _)

end

/-- Entries of a function, which are some of all entries, are those of its statements and those of
the return behind them, and control reaches only the former from the start of the function. -/
structure Definition.EntersOwn (markers : Bool) (d : Definition) (entries : List Entry) (p : Nat)
    (own ending : List Entry) : Prop where
  statements : assemble p (Statement.codeAll markers d.body) = .ok (own.map Entry.instruction)
  zero : ∃ code, ending.map Entry.instruction
    = if endsInReturn d.body then [] else [.construct code 0, .simple .retValue]
  reaches : ∀ x ∈ entries, ReflTransGen (Entry.Steps entries) p x.offset → x ∈ own
  unreachable : ∀ x ∈ ending, ¬ReflTransGen (Entry.Steps entries) p x.offset

/-- The return at the end of a body that has a result: it constructs a zero value, unless the body
ends in a return. -/
theorem Definition.WellTyped.exists_ending {d : Definition} {parameters : List DataType}
    (h : d.WellTyped c parameters) (markers : Bool) (hresult : c.result.isVoid = false)
    (hzero : d.zero = none ∨ ∃ code, d.zero = some (.construct c.result code [])) :
    ∃ code, d.code markers = Statement.codeAll markers d.body
      ++ if endsInReturn d.body then [] else [.op (.construct code 0), .simple .retValue] := by
  obtain hzero | ⟨code, hzero⟩ := hzero
  · have hfits := h.zero
    rw [hzero] at hfits
    exact absurd hfits (by simp [Expr.FitsResult, hresult])
  · refine ⟨code, ?_⟩
    rw [Definition.code, hzero]
    rfl

/-- Control stays in the statements of a body that definitely returns. -/
theorem Definition.WellTyped.exists_entersOwn {d : Definition} {parameters : List DataType}
    {x : Routine} (h : d.WellTyped c parameters) (hresult : c.result.isVoid = false)
    (hzero : d.zero = none ∨ ∃ code, d.zero = some (.construct c.result code []))
    (hreturns : definitelyReturns d.body = true)
    (hcode : assemble x.start (d.code markers) = .ok x.code) {entries : List Entry}
    (hentries : ∀ y ∈ entries, x.start ≤ y.offset → y.offset < x.stop → y ∈ x.entries) :
    ∃ own ending, x.entries = own ++ ending ∧ d.EntersOwn markers entries x.start own ending := by
  obtain ⟨code, hsplit⟩ := h.exists_ending markers hresult hzero
  rw [hsplit] at hcode
  obtain ⟨front, back, hfront, hback, hall⟩ := assemble_append.mp hcode
  rw [← sizeAll_assemble hfront] at hback
  have hcut : x.entries = entriesFrom x.start front ++ entriesFrom (x.start + sizeAll front) back :=
    (congrArg _ hall).trans (entriesFrom_append ..)
  have hstop : x.stop = x.start + (sizeAll front + sizeAll back) := by
    rw [Routine.stop, hall, sizeAll_code_append]
  have hown : ∀ y ∈ entries, x.start ≤ y.offset → y.offset < x.start + sizeAll front →
      y ∈ entriesFrom x.start front := by
    intro y hy hlow hhigh
    have hmem := hentries y hy hlow (by omega)
    rw [hcut] at hmem
    exact (List.mem_append.mp hmem).resolve_right fun hbehind =>
      absurd (entriesFrom_bounds hbehind).1 (by omega)
  have hbounds : ∀ {o}, ReflTransGen (Entry.Steps entries) x.start o →
      x.start ≤ o ∧ o < x.start + sizeAll front :=
    fun hreach => (Statement.sealed_codeAll h.body hreturns _).bounds_of_reaches hfront hown hreach
  refine ⟨_, _, hcut, ?_, ⟨code, ?_⟩, fun y hy hreach => ?_, fun y hy hreach => ?_⟩
  · rw [map_instruction_entriesFrom]
    exact hfront
  · rw [map_instruction_entriesFrom]
    split at hback
    · rename_i hends
      cases hback
      rw [if_pos hends]
    · rename_i hends
      cases hback
      rw [if_neg hends]
  · exact hown y hy (hbounds hreach).1 (hbounds hreach).2
  · exact absurd (entriesFrom_bounds hy).1 (Nat.not_le.mpr (hbounds hreach).2)

end Typed

/-! ## Compiled sources -/

section Compiled

variable {d : Dialect} {config : Config} {request : Request} {compiled : Compiled}

theorem Typed.Registry.NotesAll.missesReturn {c : Context} {r : Typed.Registry}
    {defined : List (Ast.Function × Ast.Body)} {notes : List (Located Remark)}
    (h : r.NotesAll c defined notes) (hr : r.WellTyped d) {source : Ast.Function}
    {body : Ast.Body} {g : Typed.Function} {definition : Typed.Definition}
    (hsource : (source, body) ∈ defined) (hg : g ∈ r.functions)
    (hdefined : r.DefinedBy c source body g definition)
    (hnone : ∀ x ∈ notes, x.value ≠ .missingReturn g.signature.name) :
    missesReturn g.signature.returnType definition.body = false := by
  obtain ⟨groups, hgroups, rfl⟩ := h
  obtain ⟨i, hi⟩ := List.getElem?_of_mem hsource
  obtain ⟨remarks, hremarks, g', hg', definition', _, frame, hdefined', -, rfl⟩ :=
    exists_getElem?_right hgroups hi
  have hname := hdefined.name
  obtain rfl : g' = g := List.inj_on_of_nodup_map hr.names hg' hg
    (hdefined'.name.trans hname.symm)
  cases hdefined.definition.symm.trans hdefined'.definition
  by_contra hmisses
  refine hnone ⟨.missingReturn source.name, body.span⟩ (List.mem_flatten.mpr
    ⟨_, List.mem_of_getElem? hremarks, ?_⟩) (congrArg _ hname.symm)
  rw [bodyRemarks, if_pos (Bool.eq_true_of_not_eq_false hmisses)]
  exact List.mem_append_right _ (List.mem_singleton_self _)

/-- A function with a result and without a remark that it is missing returns what its own return
statements say. Its code is that of its statements, and behind it, unless the last of them is a
return, the code that constructs a zero value and returns it. From the address of the function
control reaches only instructions of its statements, and nothing of what stands behind them. -/
theorem compile_returns (h : compile d config request = .ok compiled) :
    ∃ r remarks entries, analyse d config request = .ok (r, remarks)
      ∧ compiled.remarks = (if config.warnings then remarks else [])
      ∧ disassemble compiled.bytes = .ok entries
      ∧ ∀ f ∈ compiled.program.functions, f.returnType.isVoid = false →
        (∀ x ∈ remarks, x.value ≠ .missingReturn f.name) →
        ∃ g ∈ r.functions, g.signature.name = f.name ∧ ∃ definition own ending,
          g.definition = some definition
          ∧ compiled.program.partAt compiled.bytes.length entries f.address = own ++ ending
          ∧ definition.EntersOwn config.lineMarkers entries f.address own ending := by
  obtain ⟨scanned, declarations, r, e, hscan, hread, hdeclares, htyped, hemit, hcode, hprogram,
    hrun⟩ := run_of_compile h
  obtain ⟨scanned', declarations', r', remarks, notes, hscan', hread', hanalyse, hremarks, hnotes,
    hall⟩ := notes_of_compile h
  obtain rfl := hdeclares.unique (declares_of_analyse hanalyse)
  cases hscan.symm.trans hscan'
  cases hread.symm.trans hread'
  obtain ⟨routines, init, hlaid⟩ := r.exists_laidOut d hemit
  refine ⟨r, remarks, entriesFrom 0 e.code, hanalyse, hremarks, ?_, fun f hf hresult hdue => ?_⟩
  · rw [Compiled.bytes, hcode]
    exact hlaid.disassemble_eq htyped
  have hfunctions : compiled.program.functions
      = List.zipWith Typed.Function.placedAt r.functions routines := by
    rw [hprogram]
    exact hlaid.functions
  rw [hfunctions] at hf
  obtain ⟨g, hg, x, hx, ⟨definition, hdefinition, hown⟩, rfl⟩ := mem_zipWith hlaid.laid hf
  obtain ⟨source, body, hsource, hdefined⟩ := hrun.exists_source rfl g hg definition hdefinition
  obtain ⟨slots, hwell⟩ := htyped.functions g hg definition hdefinition
  have hmisses : missesReturn g.signature.returnType definition.body = false :=
    hall.missesReturn htyped (Ast.mem_defined.mpr ⟨hsource, hdefined.hasBody⟩) hg hdefined
      fun y hy => hdue y (hnotes ▸ List.mem_append_right _ hy)
  have hreturns : Typed.definitelyReturns definition.body = true := by
    have hvoid : g.signature.returnType.isVoid = false := hresult
    simpa [missesReturn, hvoid] using hmisses
  obtain ⟨_, _, _, -, -, -, haccepts⟩ := hdefined.accepted
  have hx : x ∈ routines ++ [init] := List.mem_append_left _ hx
  have hmem : ∀ y ∈ entriesFrom 0 e.code, x.start ≤ y.offset → y.offset < x.stop →
      y ∈ x.entries := by
    intro y hy hlow hhigh
    rw [hlaid.code, hlaid.chain_all.entries] at hy
    rw [← hlaid.chain_all.slice_entries hx]
    exact List.mem_filter.mpr ⟨hy, by simp [hlow, hhigh]⟩
  obtain ⟨own, ending, hcut, howns⟩ :=
    hwell.exists_entersOwn hresult haccepts.zero hreturns hown hmem
  refine ⟨g, hg, rfl, definition, own, ending, hdefinition, ?_, howns⟩
  rw [hprogram, Compiled.bytes, hcode, ← hcut]
  exact hlaid.partAt_eq request.stage request.entryPoint hx

end Compiled

/-- A source with a function that returns in one branch of a choice and discards in the other. -/
def returnsRequest : Request where
  stage := .pixel
  source := "float f(float x) { while (x < 1.0) x *= 2.0; if (x > 4.0) return x; else { discard; } }
    void main() { gl_FragColor = vec4(f(1.0)); }"

theorem compile_returns_returnsRequest :
    ∃ compiled, compile .glsl {} returnsRequest = .ok compiled
      ∧ (∃ f ∈ compiled.program.functions, f.returnType.isVoid = false
        ∧ ∀ x ∈ compiled.remarks, x.value ≠ .missingReturn f.name)
      ∧ ∃ r remarks entries, analyse .glsl {} returnsRequest = .ok (r, remarks)
        ∧ compiled.remarks = remarks ∧ disassemble compiled.bytes = .ok entries
        ∧ ∀ f ∈ compiled.program.functions, f.returnType.isVoid = false →
          (∀ x ∈ remarks, x.value ≠ .missingReturn f.name) →
          ∃ g ∈ r.functions, g.signature.name = f.name ∧ ∃ definition own ending,
            g.definition = some definition
            ∧ compiled.program.partAt compiled.bytes.length entries f.address = own ++ ending
            ∧ definition.EntersOwn true entries f.address own ending := by
  have hsome : (compile .glsl {} returnsRequest).toOption.any (fun compiled =>
      compiled.program.functions.any fun f => !f.returnType.isVoid
        && compiled.remarks.all fun x => x.value ≠ .missingReturn f.name) = true := by
    decide +kernel
  obtain ⟨compiled, h, hfunction⟩ := exists_ok_of_any hsome
  simp only [List.any_eq_true, Bool.and_eq_true, Bool.not_eq_true', List.all_eq_true,
    decide_eq_true_eq] at hfunction
  exact ⟨compiled, h, hfunction, compile_returns h⟩

end ShaderBytecode
