import ShaderBytecode.Proofs.TypedSpans

/-!
# Locations in a source

What is said about a source stands in it, and the lines that code is marked with are lines where
tokens of the source start.
-/

namespace ShaderBytecode

/-! ## Line markers -/

def Instruction.markedLine? : Instruction → Option UInt32
  | .indexed .line line => some line
  | _ => none

theorem Instruction.markedLine?_eq_none {i : Instruction} (h : i.isMarker = false) :
    i.markedLine? = none := by
  unfold markedLine?
  split
  · cases h
  · rfl

namespace Item

abbrev markedLines (items : List Item) : List UInt32 :=
  pick Instruction.markedLine? items

theorem markedLines_append (first second : List Item) :
    markedLines (first ++ second) = markedLines first ++ markedLines second :=
  pick_append _ first second

theorem markedLines_repeatWhile (test : Option (List Item)) (body step : List Item) :
    markedLines (repeatWhile test body step)
      = markedLines (test.getD []) ++ markedLines body ++ markedLines step :=
  pick_repeatWhile _ test body step

theorem markedLines_repeatUntil (body test : List Item) :
    markedLines (repeatUntil body test) = markedLines body ++ markedLines test :=
  pick_repeatUntil _ body test

theorem mem_markedLines_flatMap {α : Type} {g : α → List Item} {as : List α} {line : UInt32} :
    line ∈ markedLines (as.flatMap g) ↔ ∃ a ∈ as, line ∈ markedLines (g a) := by
  induction as with
  | nil => simp
  | cons first rest ih => simp [List.flatMap_cons, ih]

theorem Erases.markedLines_plain {R : Int → Int → Prop} {p q : Nat} {marked plain : List Item}
    (h : Erases R p q marked plain) : markedLines plain = [] := by
  induction h with
  | nil => rfl
  | marker _ _ ih => exact ih
  | op h _ _ ih => simp [Instruction.markedLine?_eq_none h, ih]
  | jump _ _ ih => simp [ih]
  | leave _ ih => simp [ih]

theorem Parallel.markedLines_plain {marked plain : List Item} (h : Parallel 0 0 marked plain) :
    markedLines plain = [] :=
  (h 0 0 (fun _ _ => True) (fun _ _ _ => trivial) trivial).markedLines_plain

end Item

namespace Typed

open Item (markedLines markedLines_append)

theorem markedLines_test (test : Option Expr) :
    markedLines ((test.map Expr.code).getD []) = [] := by
  cases test with
  | none => rfl
  | some e => exact e.parallel.markedLines_plain

theorem markedLines_branchCode (markers : Bool) (first : List Item) (second : List Statement) :
    markedLines (branchCode first (Statement.codeAll markers second) !second.isEmpty)
      = markedLines first ++ markedLines (Statement.codeAll markers second) := by
  cases second with
  | nil => simp [branchCode, Statement.codeAll]
  | cons s rest => simp [branchCode]

mutual

/-- The code of a statement is marked with the lines of the statement, in their order. -/
theorem Statement.markedLines_code :
    (s : Statement) → markedLines (s.code true) = s.lines.map .ofNat
  | .expr value line => by
    rw [code, markedLines_append, value.parallel_effect.markedLines_plain]
    rfl
  | .declare slot value line => by
    rw [code, markedLines_append, markedLines_append, value.parallel.markedLines_plain]
    rfl
  | .ifElse test whenTrue whenFalse line => by
    rw [code, markedLines_append, markedLines_append, test.parallel.markedLines_plain,
      markedLines_branchCode, Statement.markedLines_codeAll whenTrue,
      Statement.markedLines_codeAll whenFalse, lines, List.map_cons, List.map_append]
    rfl
  | .loop test step body line => by
    rw [code, markedLines_append, Item.markedLines_repeatWhile, markedLines_test,
      Statement.markedLines_codeAll body, (Expr.parallel_optionEffect step).markedLines_plain,
      List.append_nil, lines, List.map_cons]
    rfl
  | .doLoop body test line => by
    rw [code, markedLines_append, Item.markedLines_repeatUntil,
      Statement.markedLines_codeAll body, test.parallel.markedLines_plain, List.append_nil, lines,
      List.map_cons]
    rfl
  | .returnFrom value line => by
    rw [code, markedLines_append, (parallel_returnCode value).markedLines_plain]
    rfl
  | .leave _ _ | .discardPixel _ => rfl
  | .block body => Statement.markedLines_codeAll body

theorem Statement.markedLines_codeAll : (body : List Statement) →
    markedLines (Statement.codeAll true body) = (Statement.linesAll body).map .ofNat
  | [] => rfl
  | first :: rest => by
    rw [codeAll, markedLines_append, first.markedLines_code, Statement.markedLines_codeAll rest,
      linesAll, List.map_append]

end

theorem Definition.markedLines_code (d : Definition) :
    markedLines (d.code true) = (Statement.linesAll d.body).map .ofNat := by
  have hend : markedLines (if endsInReturn d.body then [] else returnCode d.zero) = [] := by
    split
    · rfl
    · exact (parallel_returnCode d.zero).markedLines_plain
  rw [Definition.code, markedLines_append, hend, Statement.markedLines_codeAll, List.append_nil]

theorem Global.markedLines_code (g : Global) (index : Nat) :
    markedLines (g.code true index) ⊆ [.ofNat g.line] := by
  unfold Global.code
  split
  · rename_i value _
    rw [markedLines_append, markedLines_append, value.parallel.markedLines_plain]
    exact List.Subset.refl _
  · exact List.nil_subset _

variable {A : Span → Prop} {r : Registry}

/-- Code is marked with lines where spans that it has from a tree start. -/
theorem Registry.Placed.lineOf_markedLines (h : r.Placed A) {markers : Bool} {line : UInt32}
    (hline : line ∈ markedLines (r.front markers)) : ∃ n, Span.LineOf A n ∧ line = .ofNat n := by
  cases markers with
  | false =>
    rw [r.parallel.markedLines_plain] at hline
    cases hline
  | true =>
    rw [Registry.front, markedLines_append, List.mem_append, Registry.globalCode,
      Item.mem_markedLines_flatMap, Item.mem_markedLines_flatMap] at hline
    obtain ⟨f, hf, hline⟩ | ⟨⟨g, index⟩, hg, hline⟩ := hline
    · cases hdefinition : f.definition with
      | none => simp [Function.code, hdefinition] at hline
      | some definition =>
        rw [Function.code_eq hdefinition, definition.markedLines_code] at hline
        obtain ⟨n, hn, rfl⟩ := List.mem_map.mp hline
        exact ⟨n, (h.functions f hf).lines definition hdefinition n hn, rfl⟩
    · have hmarked := List.mem_singleton.mp (g.markedLines_code index hline)
      exact ⟨g.line, h.globals g (List.fst_mem_of_mem_zipIdx hg), hmarked⟩

theorem Registry.Placed.lineOf_of_mem_code (h : r.Placed A) {markers : Bool} {e : Emitted}
    {routines : List Routine} {init : Routine} (hlaid : r.LaidOut markers e routines init)
    {line : UInt32} (hline : .indexed .line line ∈ e.code) :
    ∃ n, Span.LineOf A n ∧ line = .ofNat n := by
  have hmarked : line ∈ e.code.filterMap Instruction.markedLine? :=
    List.mem_filterMap.mpr ⟨_, hline, rfl⟩
  rw [Item.filterMap_assemble _ (fun _ _ => rfl) hlaid.assemble_front, ← markedLines,
    markedLines_append, List.mem_append] at hmarked
  exact h.lineOf_markedLines (hmarked.resolve_right List.not_mem_nil)

/-- What is wrong with a source as a whole stands at spans that it has from a tree. -/
theorem Registry.Placed.moduleFaults (h : r.Placed A) : ∀ fault ∈ r.moduleFaults, A fault.span := by
  intro fault hfault
  rcases List.mem_append.mp hfault with hundefined | hrecursion
  · obtain ⟨⟨f, index⟩, hf, rfl⟩ := List.mem_map.mp hundefined
    exact (h.functions f (List.fst_mem_of_mem_zipIdx (List.mem_filter.mp hf).1)).span
  · obtain ⟨caller, callee, ⟨f, definition, hf, hdefinition, hcall⟩, -⟩ :=
      recursion?_spec (Option.mem_toList.mp hrecursion)
    exact (h.functions f (List.mem_of_getElem? hf)).calls definition hdefinition _ hcall

end Typed

/-! ## Lines of a source -/

/-- The number of lines of a text. A line end at the end of a text starts no further line. -/
def lineCount (text : List Char) : Nat :=
  text.count '\n' + if text.getLast?.all (· = '\n') then 0 else 1

/-- A character other than a line end stands on one of the lines. -/
theorem Position.Starts.line_bounds {text : List Char} {p : Position} (h : p.Starts text) :
    0 ≤ p.line ∧ p.line < lineCount text ∧ p.line < text.length := by
  obtain ⟨read, c, rest, rfl, hc, rfl⟩ := h
  have hread : read.count '\n' ≤ read.length := List.count_le_length
  have hline : (({} : Position).after read).line = read.count '\n' := by
    rw [line_after]
    exact Int.zero_add _
  rw [hline]
  refine ⟨by omega, ?_, ?_⟩
  · -- Behind the character there is a line end, or else the text does not end in one.
    have hcount : (read ++ c :: rest).count '\n' = read.count '\n' + rest.count '\n' := by
      rw [List.count_append, List.count_cons_of_ne hc]
    rw [lineCount, hcount]
    cases hrest : rest.count '\n' with
    | succ n => omega
    | zero =>
      have hlast : (read ++ c :: rest).getLast?.all (· = '\n') = false := by
        obtain ⟨last, hlast⟩ : ∃ last, (c :: rest).getLast? = some last :=
          ⟨_, List.getLast?_eq_some_getLast (List.cons_ne_nil c rest)⟩
        have hmem : last ∈ c :: rest := List.mem_of_getLast? hlast
        have hne : last ≠ '\n' := by
          rintro rfl
          rcases List.mem_cons.mp hmem with hfirst | hmore
          · exact hc hfirst.symm
          · exact List.count_eq_zero.mp hrest hmore
        rw [List.getLast?_append, hlast]
        simpa using hne
      rw [hlast]
      simp
  · rw [List.length_append, List.length_cons]
    omega

/-! ## Sources -/

section Sources

variable {text : List Char} {tokens : List Token}

theorem Span.within_of_marked {span : Span} (h : span = {} ∨ span.Marked text tokens) :
    span.Within text := by
  rcases h with rfl | hmarked
  · exact Span.within_zero text
  · exact hmarked.within

theorem typeSource_within (d : Dialect) (config : Config) (stage : Stage)
    {declarations : List Ast.Declaration}
    (h : ∀ x ∈ declarations, x.Spans (Span.Marked text tokens)) :
    (∀ errors, (typeSource d config stage declarations).1 = .error errors →
        ∀ e ∈ errors, e.span.Within text)
      ∧ ∀ remark ∈ (typeSource d config stage declarations).2, remark.span.Within text := by
  obtain ⟨hfaults, hplaced⟩ := typeDeclarations_placed ⟨d, stage, config.promoteInts⟩
    config.maxErrors h
  unfold typeSource
  simp only []
  generalize typeDeclarations _ _ _ _ = typed at hfaults hplaced ⊢
  generalize herrors : (if typed.1.isEmpty = true then
      (typed.2.registry.moduleFaults.take config.maxErrors).map fun f =>
        Diagnostic.mk (.checking f.value) f.span
    else typed.1.map fun f => Diagnostic.mk (.typing d f.value) f.span) = errors
  have hwithin : ∀ e ∈ errors, e.span.Within text := by
    intro e he
    rw [← herrors] at he
    split at he
    · obtain ⟨fault, hfault, rfl⟩ := List.mem_map.mp he
      exact (hplaced.registry.moduleFaults fault (List.mem_of_mem_take hfault)).within
    · obtain ⟨fault, hfault, rfl⟩ := List.mem_map.mp he
      exact Span.within_of_marked (hfaults fault hfault)
  refine ⟨fun found hfound => ?_, fun remark hremark => ?_⟩
  · split at hfound
    · cases hfound
    · exact Except.error.inj hfound ▸ hwithin
  · exact (hplaced.remarks remark hremark).within

end Sources

/-- All that is said about a failure stands in the source. -/
structure Failure.Within (text : List Char) (f : Failure) : Prop where
  errors : ∀ e ∈ f.errors, e.span.Within text
  remarks : ∀ r ∈ f.remarks, r.span.Within text

theorem Failure.Within.of_error {text : List Char} {error : Diagnostic}
    {remarks : List (Located Remark)} (h : error.span.Within text)
    (hremarks : ∀ r ∈ remarks, r.span.Within text) : Failure.Within text ⟨[error], remarks⟩ :=
  ⟨List.forall_mem_singleton.mpr h, hremarks⟩

theorem analyse_within (d : Dialect) (config : Config) (request : Request) :
    (∀ failure, analyse d config request = .error failure →
        failure.Within request.source.toList)
      ∧ ∀ r remarks, analyse d config request = .ok (r, remarks) →
        ∀ remark ∈ remarks, remark.span.Within request.source.toList := by
  unfold analyse
  simp only []
  split
  · refine ⟨?_, nofun⟩
    rintro _ ⟨⟩
    exact .of_error (Span.within_zero _) (List.forall_mem_nil _)
  · split
    · rename_i fault hfault
      refine ⟨?_, nofun⟩
      rintro _ ⟨⟩
      exact .of_error (within_of_scan hfault) (List.forall_mem_nil _)
    · rename_i scanned hscan
      have hscanned := faithful_of_scan hscan
      have hpragmas : ∀ r ∈ scanned.pragmas.map (Located.mk Remark.ignoredPragma),
          r.span.Within request.source.toList := by
        intro r hr
        obtain ⟨span, hspan, rfl⟩ := List.mem_map.mp hr
        exact hscanned.pragmas span hspan
      simp only [pure_bind]
      split
      · rename_i fault hfault
        refine ⟨?_, nofun⟩
        rintro _ ⟨⟩
        exact .of_error (Ast.within_of_ofTokens hscanned hfault) hpragmas
      · rename_i declarations hread
        obtain ⟨herrors, hremarks⟩ := typeSource_within d config request.stage
          (Ast.spans_of_ofTokens hscanned hread)
        have hall := List.forall_mem_append.mpr ⟨hpragmas, hremarks⟩
        split
        · rename_i errors htyped
          refine ⟨?_, nofun⟩
          rintro _ ⟨⟩
          exact ⟨herrors errors htyped, hall⟩
        · rename_i r htyped
          refine ⟨nofun, ?_⟩
          rintro _ _ ⟨⟩
          exact hall

theorem forall_mem_wanted {α : Type} {P : α → Prop} {remarks : List α} {w : Bool}
    (h : ∀ r ∈ remarks, P r) : ∀ r ∈ if w then remarks else [], P r := by
  cases w with
  | true => exact h
  | false => exact List.forall_mem_nil _

/-- What is wrong with emitted code stands nowhere in particular. -/
theorem span_of_emitSource {config : Config} {request : Request} {r : Typed.Registry}
    {error : Diagnostic} (h : emitSource config request r = .error error) : error.span = {} := by
  unfold emitSource programOf at h
  split at h
  · cases h
    rfl
  · simp only [] at h
    split at h
    · cases h
    · cases h
      rfl

theorem compile_within (d : Dialect) (config : Config) (request : Request) :
    (∀ failure, compile d config request = .error failure →
        failure.Within request.source.toList)
      ∧ ∀ compiled, compile d config request = .ok compiled →
        ∀ remark ∈ compiled.remarks, remark.span.Within request.source.toList := by
  obtain ⟨hfailure, hremarks⟩ := analyse_within d config request
  rw [compile_eq]
  cases hanalyse : analyse d config request with
  | error failure =>
    obtain ⟨herrors, hremarks⟩ := hfailure failure hanalyse
    refine ⟨?_, nofun⟩
    rintro _ ⟨⟩
    exact ⟨herrors, forall_mem_wanted hremarks⟩
  | ok analysed =>
    have hwanted := forall_mem_wanted (w := config.warnings)
      (hremarks analysed.1 analysed.2 hanalyse)
    cases hemit : emitSource config request analysed.1 with
    | error error =>
      simp only [hemit]
      refine ⟨?_, nofun⟩
      rintro _ ⟨⟩
      exact .of_error (span_of_emitSource hemit ▸ Span.within_zero _) hwanted
    | ok emitted =>
      simp only [hemit]
      refine ⟨nofun, ?_⟩
      rintro _ ⟨⟩
      exact hwanted

/-- What a source declares stands at spans that start with its tokens. -/
theorem Declares.placed {d : Dialect} {config : Config} {request : Request} {r : Typed.Registry}
    (h : Declares d config request r) : ∃ scanned, scan d request.source = .ok scanned
      ∧ r.Placed (Span.Marked request.source.toList scanned.tokens) := by
  obtain ⟨scanned, declarations, hscan, hread, -, rfl⟩ := h.typed
  have hspans := Ast.spans_of_ofTokens (faithful_of_scan hscan) hread
  have hplaced := typeDeclarations_placed ⟨d, request.stage, config.promoteInts⟩ config.maxErrors
    hspans
  exact ⟨scanned, hscan, hplaced.2.registry⟩

/-- A line where a stretch of a source starts that starts with a token. -/
theorem Span.LineOf.exists_token {d : Dialect} {source : String} {scanned : Scanned} {line : Nat}
    (hscan : scan d source = .ok scanned)
    (h : Span.LineOf (Span.Marked source.toList scanned.tokens) line) :
    line ≤ source.length ∧ line ≤ lineCount source.toList
      ∧ ∃ t ∈ scanned.tokens, (line : Int) = t.span.start.line + 1 := by
  obtain ⟨span, hmarked, rfl⟩ := h
  obtain ⟨t, ht, hstart⟩ := hmarked.token
  obtain ⟨hzero, hcount, hlength⟩ := ((faithful_of_scan hscan).starts t ht).line_bounds
  rw [String.length_toList] at hlength
  have hline : (span.line : Int) = t.span.start.line + 1 := by
    rw [Span.line, ← hstart]
    omega
  exact ⟨by omega, by omega, t, ht, hline⟩

/-- All that is said about a source stands in it: the errors and remarks of one that is refused, and
the remarks of one that is compiled. Code is marked with lines on which tokens of the source
start. -/
theorem compile_locations (d : Dialect) (config : Config) (request : Request)
    (hlength : request.source.length < 2 ^ 24) :
    (∀ failure, compile d config request = .error failure →
      (∀ e ∈ failure.errors, e.span.Within request.source.toList)
        ∧ ∀ r ∈ failure.remarks, r.span.Within request.source.toList)
    ∧ ∀ compiled, compile d config request = .ok compiled →
      (∀ r ∈ compiled.remarks, r.span.Within request.source.toList)
      ∧ ∃ scanned entries, scan d request.source = .ok scanned
        ∧ disassemble compiled.bytes = .ok entries
        ∧ ∀ entry ∈ entries, ∀ line, entry.instruction = .indexed .line line →
          (∃ t ∈ scanned.tokens, (line.toNat : Int) = t.span.start.line + 1)
          ∧ 1 ≤ line.toNat ∧ line.toNat ≤ lineCount request.source.toList := by
  obtain ⟨hfailure, hremarks⟩ := compile_within d config request
  refine ⟨fun failure h => ⟨(hfailure failure h).errors, (hfailure failure h).remarks⟩,
    fun compiled h => ⟨hremarks compiled h, ?_⟩⟩
  obtain ⟨r, e, hdeclares, htyped, -, hemit, hcode, -⟩ := exists_emit_of_compile h
  obtain ⟨scanned, hscan, hplaced⟩ := hdeclares.placed
  obtain ⟨routines, init, hlaid⟩ := Typed.Registry.exists_laidOut d hemit
  refine ⟨scanned, entriesFrom 0 e.code, hscan, ?_, fun entry hentry line hinstruction => ?_⟩
  · rw [Compiled.bytes, hcode]
    exact hlaid.disassemble_eq htyped
  · obtain ⟨before, after, hsplit, -⟩ := mem_entriesFrom.mp hentry
    have hmem : .indexed .line line ∈ e.code := by simp [hsplit, hinstruction]
    obtain ⟨n, hn, rfl⟩ := hplaced.lineOf_of_mem_code hlaid hmem
    obtain ⟨hle, hcount, t, ht, hline⟩ := hn.exists_token hscan
    have hsize : UInt32.size = 2 ^ 32 := rfl
    have hsmall : (UInt32.ofNat n).toNat = n := UInt32.toNat_ofNat_of_lt (by omega)
    have hzero : 0 ≤ t.span.start.line :=
      (((faithful_of_scan hscan).starts t ht).line_bounds).1
    rw [hsmall]
    exact ⟨⟨t, ht, hline⟩, by omega, hcount⟩

/-- A source of three lines with a statement on the last one, behind a local that is not used. -/
def threeLines : Request where
  stage := .pixel
  source := "void main()\n\x7b float unused;\n  discard; \x7d"

theorem compile_locations_threeLines :
    threeLines.source.length < 2 ^ 24 ∧ ∃ compiled remark scanned entries,
      compile .glsl {} threeLines = .ok compiled ∧ compiled.remarks = [remark]
        ∧ remark.span.Within threeLines.source.toList
        ∧ scan .glsl threeLines.source = .ok scanned
        ∧ disassemble compiled.bytes = .ok entries
        ∧ ∃ entry ∈ entries, entry.instruction = .indexed .line 3
          ∧ ∃ t ∈ scanned.tokens, (3 : Int) = t.span.start.line + 1 := by
  have hlength : threeLines.source.length < 2 ^ 24 := by
    decide +kernel
  have hcompiled : (compile .glsl {} threeLines).toOption.any (fun compiled =>
      compiled.remarks.length = 1 && (disassemble compiled.bytes).toOption.any fun entries =>
        entries.any (·.instruction = .indexed .line 3)) = true := by
    decide +kernel
  obtain ⟨compiled, hok, hfacts⟩ := exists_ok_of_any hcompiled
  obtain ⟨hcount, hentries⟩ := Bool.and_eq_true_iff.mp hfacts
  obtain ⟨entries, hentries, hmarked⟩ := exists_ok_of_any hentries
  obtain ⟨entry, hentry, hline⟩ := List.any_eq_true.mp hmarked
  obtain ⟨remark, hremark⟩ := List.length_eq_one_iff.mp (of_decide_eq_true hcount)
  obtain ⟨hremarks, scanned, entries', hscan, hdisassemble, hlines⟩ :=
    (compile_locations .glsl {} threeLines hlength).2 compiled hok
  have hsame : entries = entries' :=
    Except.ok.inj (hentries.symm.trans hdisassemble)
  have hinstruction := of_decide_eq_true hline
  obtain ⟨⟨t, ht, htoken⟩, -⟩ := hlines entry (hsame ▸ hentry) 3 hinstruction
  exact ⟨hlength, compiled, remark, scanned, entries, hok, hremark,
    hremarks remark (hremark ▸ List.mem_singleton_self _), hscan, hsame ▸ hdisassemble, entry,
    hentry, hinstruction, t, ht, htoken⟩

end ShaderBytecode
