import ShaderBytecode.Proofs.BodyTyping
import ShaderBytecode.Proofs.NameMeanings

/-!
# What accepted bodies do with variables

While a body is typed it is kept beside its frame which slots are constants: those of the parameters
first, and then one for each local in the order of the source. A constant among the locals is set
where it is declared and written to nowhere else, and a constant parameter is not written to at all.
Each local takes the next slot, and has the type that its declaration names. The variables that the
body does something with are those that the names in it mean.
-/

namespace ShaderBytecode

open Typed (Access Cell Expr Statement Write)

/-! ## Constants -/

namespace Typed

variable {G : Nat → Prop} {known added : List Bool} {writes : List Write}

/-- What may be written to: the globals with a property and the slots that are known to be no
constants. -/
def Cell.Open (G : Nat → Prop) (known : List Bool) : Cell → Prop
  | .slot n => known[n]? = some false
  | .global i => G i

theorem Cell.Open.extend {cell : Cell} (h : cell.Open G known) : cell.Open G (known ++ added) := by
  cases cell with
  | slot slot =>
    have hslot : known[slot]? = some false := h
    show (known ++ added)[slot]? = some false
    rw [List.getElem?_append_left (List.getElem?_eq_some_iff.mp hslot).1, hslot]
  | global index => exact h

/-- Writes keep constants: they are to globals with a property, and to slots that are no constants,
apart from setting each slot that is added once. -/
structure Write.Keep (G : Nat → Prop) (known added : List Bool) (writes : List Write) : Prop where
  globals : ∀ w ∈ writes, ∀ i, w.cell = .global i → G i
  slots : ∀ n, (known ++ added)[n]? ≠ some false →
    writes.filter (·.cell = .slot n)
      = if known.length ≤ n ∧ n < known.length + added.length then [.set (.slot n)] else []

theorem Write.Only.keep (h : Write.Only (Cell.Open G known) writes) : Keep G known [] writes where
  globals := by
    intro w hw i hi
    have hopen := h w hw
    rw [hi] at hopen
    exact hopen
  slots := by
    intro n hn
    rw [List.append_nil] at hn
    rw [if_neg (by simp only [List.length_nil]; omega), List.filter_eq_nil_iff]
    intro w hw hcell
    have hopen := h w hw
    rw [of_decide_eq_true hcell] at hopen
    exact hn hopen

theorem Write.Only.extend (h : Write.Only (Cell.Open G known) writes) :
    Write.Only (Cell.Open G (known ++ added)) writes :=
  fun w hw => (h w hw).extend

theorem Write.keep_declare (isConst : Bool) :
    Keep G known [isConst] [.set (.slot known.length)] where
  globals := by
    intro w hw i hi
    rw [List.mem_singleton.mp hw] at hi
    cases hi
  slots := by
    intro n _
    by_cases hn : n = known.length
    · subst hn
      simp [Write.cell]
    · rw [if_neg (by simp only [List.length_singleton]; omega), List.filter_eq_nil_iff]
      intro w hw hcell
      rw [List.mem_singleton.mp hw] at hcell
      cases of_decide_eq_true hcell
      exact hn rfl

theorem Write.Keep.append {more : List Bool} {writes' : List Write} (h : Keep G known added writes)
    (h' : Keep G (known ++ added) more writes') :
    Keep G known (added ++ more) (writes ++ writes') where
  globals := List.forall_mem_append.mpr ⟨h.globals, h'.globals⟩
  slots := by
    intro n hn
    rw [← List.append_assoc] at hn
    have hfirst : (known ++ added)[n]? ≠ some false := by
      intro hfalse
      rw [List.getElem?_append_left (List.getElem?_eq_some_iff.mp hfalse).1] at hn
      exact hn hfalse
    rw [List.filter_append, h.slots n hfirst, h'.slots n hn]
    simp only [List.length_append]
    by_cases hadded : known.length ≤ n ∧ n < known.length + added.length
    · rw [if_pos hadded, if_neg (by omega), if_pos (by omega), List.append_nil]
    · rw [if_neg hadded, List.nil_append]
      by_cases hmore : known.length + added.length ≤ n
          ∧ n < known.length + added.length + more.length
      · rw [if_pos hmore, if_pos (by omega)]
      · rw [if_neg hmore, if_neg (by omega)]

end Typed

/-! ## Steps -/

namespace FrameM

variable {α β : Type} {b : BodyEnv} {known : List Bool}
variable {added more : List (Ast.Variables × Ast.Declarator)} {P : α → Prop} {Q : β → Prop}
variable {step step' : FrameM α} {f f' : α → FrameM β}

/-- The constants among the slots, once locals are added. -/
abbrev constants (known : List Bool) (added : List (Ast.Variables × Ast.Declarator)) : List Bool :=
  known ++ added.map Ast.isConstant

abbrev placeOf (l : FrameLocal) : String × Span :=
  (l.name, l.span)

/-- A step that succeeds adds certain locals to the frame, and what it gives has a property. The
slots it starts with are known. Another step gives the same from a frame with the same names, and
leaves a frame with the same names. -/
def Declares (b : BodyEnv) (step step' : FrameM α) (known : List Bool)
    (added : List (Ast.Variables × Ast.Declarator)) (P : α → Prop) : Prop :=
  ∀ frame a after, b.parameterCount + frame.length = known.length →
    step.run frame = .ok a after →
      after.map placeOf = frame.map placeOf ++ added.map (fun x => (x.2.name, x.2.span)) ∧ P a
        ∧ ∀ frame', frame.map FrameLocal.name = frame'.map FrameLocal.name →
          ∃ after', step'.run frame' = .ok a after'
            ∧ after.map FrameLocal.name = after'.map FrameLocal.name

theorem declares_pure {a : α} (h : P a) : Declares b (pure a) (pure a) known [] P := by
  rintro frame _ _ - ⟨⟩
  exact ⟨(List.append_nil _).symm, h, fun frame' hnames => ⟨frame', rfl, hnames⟩⟩

theorem declares_fail {span : Span} {fault : TypingFault} :
    Declares b (FrameM.fail span fault) step' known added P :=
  fun _ _ _ _ => nofun

theorem declares_ite {condition : Prop} [Decidable condition] {other other' : FrameM α}
    (h : Declares b step step' known added P) (h' : Declares b other other' known added P) :
    Declares b (if condition then step else other) (if condition then step' else other') known added
      P := by
  split
  · exact h
  · exact h'

theorem Declares.bind (h : Declares b step step' known added P)
    (h' : ∀ a, P a → Declares b (f a) (f' a) (constants known added) more Q) :
    Declares b (step >>= f) (step' >>= f') known (added ++ more) Q := by
  intro frame result last hcount hrun
  rw [EStateM.run_bind] at hrun
  cases hstep : step.run frame with
  | error fault middle =>
    rw [hstep] at hrun
    cases hrun
  | ok a middle =>
    rw [hstep] at hrun
    obtain ⟨hplaces, hP, hagain⟩ := h frame a middle hcount hstep
    have hlength : middle.length = frame.length + added.length := by
      simpa using congrArg List.length hplaces
    obtain ⟨hplaces', hQ, hagain'⟩ := h' a hP middle result last
      (by simp only [constants, List.length_append, List.length_map]; omega) hrun
    refine ⟨?_, hQ, fun frame' hnames => ?_⟩
    · rw [hplaces', hplaces, List.map_append, List.append_assoc]
    · obtain ⟨middle', hstep', hnames'⟩ := hagain frame' hnames
      rw [EStateM.run_bind, hstep']
      exact hagain' middle' hnames'

theorem Declares.finish (h : Declares b step step' known added P)
    (h' : ∀ a, P a → Declares b (f a) (f' a) (constants known added) [] Q) :
    Declares b (step >>= f) (step' >>= f') known added Q := by
  have hbind := h.bind h'
  rwa [List.append_nil] at hbind

theorem Declares.check {r r' : Check α} (h : r.Carries r' P)
    (h' : ∀ a, P a → Declares b (f a) (f' a) known added Q) :
    Declares b (FrameM.ofCheck r >>= f) (FrameM.ofCheck r' >>= f') known added Q := by
  cases r with
  | ok a =>
    rw [h.accepted a rfl]
    exact h' a (h.gives a rfl)
  | error fault => exact fun _ _ _ _ => nofun

end FrameM

/-! ## Locals -/

theorem Scopes.mem_of_find? {scopes : Scopes} {name : String} {x : Binding}
    (h : scopes.find? name = some x) : ∃ scope ∈ scopes, x ∈ scope := by
  obtain ⟨scope, hscope, hx⟩ := List.exists_of_findSome?_eq_some h
  exact ⟨scope, hscope, List.mem_of_find?_eq_some hx⟩

theorem Typed.Registry.getElem?_of_global? {r : Typed.Registry} {name : String} {i : Nat}
    {v : Variable} (h : r.global? name = some (i, v)) : r.allGlobals[i]? = some v :=
  (findPlace?_eq_some_iff.mp h).2

def Typed.Registry.Permits (c : Context) (r : Typed.Registry) (G : Nat → Prop) : Prop :=
  ∀ i v, r.allGlobals[i]? = some v → v.isReadOnly c = false → G i

namespace BodyEnv

open Check (carries_ok carries_fail carries_ite)
open FrameM (Declares constants declares_pure declares_fail)

def within (b : BodyEnv) (r : Typed.Registry) : BodyEnv :=
  { b with registry := r }

/-- The registry of a function's declaration is extended by another. -/
abbrev Grows (b : BodyEnv) (r : Typed.Registry) : Prop :=
  b.registry.Extends b.context.dialect r

variable {b : BodyEnv} {r : Typed.Registry} {G : Nat → Prop} {known : List Bool} {scopes : Scopes}

/-- The locals in sight are the constants and variables that are known. -/
def Marks (known : List Bool) (scopes : Scopes) : Prop :=
  ∀ scope ∈ scopes, ∀ x ∈ scope, known[x.slot]? = some x.isConst

theorem Marks.extend (h : Marks known scopes) (more : List Bool) :
    Marks (known ++ more) scopes := by
  intro scope hscope x hx
  have hslot := h scope hscope x hx
  rw [List.getElem?_append_left (List.getElem?_eq_some_iff.mp hslot).1, hslot]

theorem Marks.push (h : Marks known scopes) : Marks known ([] :: scopes) :=
  List.forall_mem_cons.mpr ⟨List.forall_mem_nil _, h⟩

theorem Marks.bind (h : Marks known scopes) {x : Binding} (hx : known[x.slot]? = some x.isConst) :
    Marks known (scopes.bind x) := by
  cases scopes with
  | nil => exact h
  | cons inner outer =>
    obtain ⟨hinner, houter⟩ := List.forall_mem_cons.mp h
    exact List.forall_mem_cons.mpr ⟨List.forall_mem_cons.mpr ⟨hx, hinner⟩, houter⟩

theorem Marks.permits (h : Marks known scopes) (hG : b.registry.Permits b.context G) :
    (b.env scopes).Permits (Cell.Open G known) where
  slots := by
    intro name x hx hconst
    obtain ⟨scope, hscope, hmem⟩ := Scopes.mem_of_find? hx
    exact (h scope hscope x hmem).trans (congrArg some hconst)
  globals := fun name i v hv => hG i v (Typed.Registry.getElem?_of_global? hv)

/-- The slot of a local depends on how many there are, not on what they hide. -/
theorem declareLocal_declares {v : Ast.Variables} {d : Ast.Declarator} {type : DataType} :
    Declares b (b.declareLocal scopes d.name type (v.storage = some .const) d.span)
      ((b.within r).declareLocal scopes d.name type (v.storage = some .const) d.span) known [(v, d)]
      fun x => x = ⟨d.name, known.length, type, v.storage = some .const⟩ := by
  intro frame x after hcount hrun
  unfold declareLocal at hrun ⊢
  by_cases htaken : scopes.isTaken d.name = true
  · rw [if_pos htaken] at hrun
    cases hrun
  · rw [if_neg htaken] at hrun ⊢
    cases hrun
    refine ⟨List.map_append, by rw [hcount], fun frame' hnames => ?_⟩
    have hlength : frame.length = frame'.length := by simpa using congrArg List.length hnames
    refine ⟨_, congrArg₂ EStateM.Result.ok ?_ rfl, ?_⟩
    · rw [hlength]
      rfl
    · simp only [List.map_append, hnames, List.map_cons, List.map_nil]

theorem checkLocal_settles {isConst : Bool} {type : DataType} {d : Ast.Declarator} :
    (checkLocal isConst type d).Settles fun _ => True :=
  carries_ite (carries_fail rfl) (carries_ite (carries_fail rfl)
    (carries_ite (carries_fail rfl) (carries_ok trivial)))

theorem localIsConst_settles {v : Ast.Variables} :
    (localIsConst v).Settles fun isConst => isConst = decide (v.storage = some .const) := by
  have hlayout {isConst expected : Bool} (h : isConst = expected) :
      Check.Settles (if v.layout.isEmpty then .ok isConst else .fail v.type.span .localLayout)
        fun found => found = expected := carries_ite (carries_ok h) (carries_fail rfl)
  have hstorage (storage : Storage) : Check.Settles
      (.fail v.type.span (.localStorage storage) : Check Bool) fun _ => False := carries_fail rfl
  unfold localIsConst
  cases v.storage with
  | none => exact hlayout rfl
  | some storage =>
    cases storage with
    | const => exact hlayout rfl
    | _ => exact (hstorage _).bind fun _ => False.elim

/-! ## Parts of statements -/

section Parts

variable {P : Cell → Prop} (henv : (b.env scopes).Permits P) (hr : b.Grows r)
include henv hr

theorem startValue_reaches {type : DataType} (e : Option Ast.Expr) :
    (b.startValue scopes type e).Carries ((b.within r).startValue scopes type e)
      fun t => (b.env scopes).Reaches P (Ast.Expr.optionVariables e) t.accesses := by
  cases e with
  | some e => exact Env.exprOf_reaches henv hr e
  | none =>
    have hgrows : (b.env scopes).Grows r := hr
    exact (Env.code_carries hgrows).bind fun _ _ => carries_ok Env.reaches_nil

theorem optionalExpr_reaches (e : Option Ast.Expr) :
    (b.optionalExpr scopes e).Carries ((b.within r).optionalExpr scopes e)
      fun t => (b.env scopes).Reaches P (Ast.Expr.optionVariables e) (Expr.optionAccesses t) := by
  cases e with
  | none => exact carries_ok Env.reaches_nil
  | some e => exact (Env.expr_reaches henv hr e).bind fun _ ht => carries_ok ht

theorem optionalCondition_reaches (e : Option Ast.Expr) :
    (b.optionalCondition scopes e).Carries ((b.within r).optionalCondition scopes e)
      fun t => (b.env scopes).Reaches P (Ast.Expr.optionVariables e) (Expr.optionAccesses t) := by
  cases e with
  | none => exact carries_ok Env.reaches_nil
  | some e => exact (Env.conditionExpr_reaches henv hr e).bind fun _ ht => carries_ok ht

theorem result_reaches {span : Span} (e : Option Ast.Expr) :
    (b.result scopes span e).Carries ((b.within r).result scopes span e)
      fun t => (b.env scopes).Reaches P (Ast.Expr.optionVariables e) (Expr.optionAccesses t) := by
  cases e with
  | none => exact carries_ite (carries_ok Env.reaches_nil) (carries_fail rfl)
  | some e =>
    exact carries_ite (carries_fail rfl)
      ((Env.exprOf_reaches henv hr e).bind fun _ ht => carries_ok ht)

end Parts

/-! ## Bodies -/

/-- The locals in sight, and which of them are constants. -/
structure Knows (known : List Bool) (sight : Ast.Sight) (scopes : Scopes) : Prop where
  marks : Marks known scopes
  sight : InSight sight scopes

section Knows

variable {sight : Ast.Sight}

theorem Knows.extend (h : Knows known sight scopes) (more : List Bool) :
    Knows (known ++ more) sight scopes :=
  ⟨h.marks.extend more, h.sight⟩

theorem Knows.push (h : Knows known sight scopes) : Knows known sight ([] :: scopes) :=
  ⟨h.marks.push, h.sight.push⟩

theorem Knows.bind (h : Knows known sight scopes) (x : Binding) (hslot : x.slot = known.length) :
    Knows (known ++ [x.isConst]) ((x.name, known.length) :: sight) (scopes.bind x) := by
  refine ⟨(h.marks.extend _).bind ?_, hslot ▸ h.sight.bind x⟩
  rw [hslot]
  exact List.getElem?_concat_length

end Knows

/-- What something does writes to variables that may be written to, and is done with what names
mean. -/
structure Uses (b : BodyEnv) (G : Nat → Prop) (known : List Bool) (meanings : List Ast.Meaning)
    (accesses : List Access) : Prop where
  writes : Write.Only (Cell.Open G known) (accesses.filterMap Access.write?)
  finds : b.Finds meanings (Access.operands accesses)

theorem uses_nil : Uses b G known [] [] :=
  ⟨Write.only_nil, denote_nil⟩

theorem Uses.extend {meanings : List Ast.Meaning} {accesses : List Access} {more : List Bool}
    (h : Uses b G known meanings accesses) : Uses b G (known ++ more) meanings accesses :=
  ⟨h.writes.extend, h.finds⟩

/-- What a piece of a body comes to: its writes keep the constants, it names the variables that
names mean, and the locals that it declares have the types that they name, and the next slots. -/
structure Kept (b : BodyEnv) (G : Nat → Prop) (known : List Bool)
    (added : List (Ast.Variables × Ast.Declarator)) (meanings : List Ast.Meaning)
    (accesses : List Access) (types : List DataType) (slots : List Nat) : Prop where
  writes : Write.Keep G known (added.map Ast.isConstant) (accesses.filterMap Access.write?)
  finds : b.Finds meanings (Access.operands accesses)
  types : b.AllDeclareAs added types
  slots : slots = List.range' known.length added.length

section Kept

variable {added more : List (Ast.Variables × Ast.Declarator)} {meanings others : List Ast.Meaning}
variable {accesses rest : List Access} {types types' : List DataType} {slots slots' : List Nat}

theorem Uses.kept (h : Uses b G known meanings accesses) :
    Kept b G known [] meanings accesses [] [] :=
  ⟨h.writes.keep, h.finds, .nil, rfl⟩

theorem Kept.append (h : Kept b G known added meanings accesses types slots)
    (h' : Kept b G (constants known added) more others rest types' slots') :
    Kept b G known (added ++ more) (meanings ++ others) (accesses ++ rest) (types ++ types')
      (slots ++ slots') where
  writes := by
    rw [List.map_append, List.filterMap_append]
    exact h.writes.append h'.writes
  finds := by
    rw [Access.operands, Access.pickAll_append]
    exact h.finds.append h'.finds
  types := List.rel_append h.types h'.types
  slots := by
    rw [h.slots, h'.slots, List.length_append, List.length_append, List.length_map]
    exact List.range'_append_1

theorem Kept.before (h : Kept b G known added others rest types slots)
    (hfirst : Uses b G known meanings accesses) :
    Kept b G known added (meanings ++ others) (accesses ++ rest) types slots :=
  hfirst.kept.append (by rwa [constants, List.map_nil, List.append_nil])

theorem Kept.after (h : Kept b G known added meanings accesses types slots)
    (hlast : Uses b G (constants known added) others rest) :
    Kept b G known added (meanings ++ others) (accesses ++ rest) types slots := by
  have hkept := h.append hlast.kept
  rwa [List.append_nil, List.append_nil, List.append_nil] at hkept

end Kept

/-- What typing a statement gives: what it comes to, and the scopes behind it. -/
structure Follows (b : BodyEnv) (G : Nat → Prop) (known : List Bool)
    (added : List (Ast.Variables × Ast.Declarator)) (meanings : List Ast.Meaning)
    (behind : Ast.Sight) (found : Statement × Scopes) : Prop where
  kept : Kept b G known added meanings found.1.accesses found.1.localTypes found.1.slots
  knows : Knows (constants known added) behind found.2

abbrev KeptAll (b : BodyEnv) (G : Nat → Prop) (known : List Bool)
    (added : List (Ast.Variables × Ast.Declarator)) (meanings : List Ast.Meaning)
    (typed : List Statement) : Prop :=
  Kept b G known added meanings (Statement.accessesAll typed) (Statement.localTypesAll typed)
    (Statement.slotsAll typed)

abbrev startDeclared (start : Option (Located Ast.Simple)) :
    List (Ast.Variables × Ast.Declarator) :=
  (start.map (·.value.declared)).getD []

theorem length_constants (known : List Bool) (s : Ast.Statement) :
    (constants known s.declared).length = known.length + s.locals.length := by
  rw [constants, List.length_append, List.length_map, s.length_declared]

theorem length_constants_start (known : List Bool) (start : Option (Located Ast.Simple)) :
    (constants known (startDeclared start)).length
      = known.length + ((start.map (·.value.locals)).getD []).length := by
  cases start with
  | none => simp [startDeclared]
  | some start => exact length_constants known (.simple start.value start.span)

/-- The statements of a branch do what the branch does. -/
theorem accessesAll_branch (source : Ast.Statement) (typed : Statement) :
    Statement.accessesAll (branch source typed) = typed.accesses := by
  unfold branch
  split
  · rfl
  · exact List.append_nil _

theorem Knows.uses {sight : Ast.Sight} (h : Knows known sight scopes) {names : List String}
    {accesses : List Access} (hnames : (b.env scopes).Reaches (Cell.Open G known) names accesses) :
    Uses b G known (names.map sight.meaning) accesses :=
  ⟨hnames.writes, h.sight.finds hnames.names⟩

theorem Knows.optionUses {sight : Ast.Sight} (h : Knows known sight scopes) {e : Option Ast.Expr}
    {accesses : List Access} (hnames : (b.env scopes).Reaches (Cell.Open G known)
      (Ast.Expr.optionVariables e) accesses) :
    Uses b G known (Ast.Expr.optionMeanings sight e) accesses := by
  have huses := h.uses hnames
  cases e with
  | none => exact huses
  | some e => exact huses

section Locals

variable {sight : Ast.Sight} (hG : b.registry.Permits b.context G) (hr : b.Grows r)
variable (h : Knows known sight scopes)
include hG hr h

theorem conditionExpr_uses (e : Ast.Expr) : ((b.env scopes).conditionExpr e).Carries
    (((b.within r).env scopes).conditionExpr e)
    fun t => Uses b G known (e.meanings sight) t.accesses :=
  (Env.conditionExpr_reaches (h.marks.permits hG) hr e).mono fun _ => h.uses

theorem declarator_follows {v : Ast.Variables} {d : Ast.Declarator} :
    Declares b (b.declarator scopes (v.storage = some .const) v.type d)
      ((b.within r).declarator scopes (v.storage = some .const) v.type d) known [(v, d)]
      fun found =>
      Knows (constants known [(v, d)]) ((d.name, known.length) :: sight) (scopes.bind found.1)
        ∧ Kept b G known [(v, d)]
          (Ast.Expr.optionMeanings sight d.initializer ++ [.slot known.length])
          (found.2.accesses ++ [.declare found.1.slot]) [found.2.type] [found.1.slot] := by
  have hgrows : (b.env scopes).Grows r := hr
  refine Declares.check (Env.resolveValueType_carries hgrows).self
    fun type htype => Declares.check checkLocal_settles.self fun _ hlocal => ?_
  refine Declares.check ((startValue_reaches (h.marks.permits hG) hr d.initializer).and
    startValue_type) fun value hvalue => ?_
  obtain ⟨hreaches, rfl⟩ := hvalue
  refine declareLocal_declares.finish fun x hx => declares_pure ?_
  subst hx
  have hset : Kept b G known [(v, d)] [.slot known.length] [.declare known.length] [value.type]
      [known.length] :=
    ⟨Write.keep_declare _, denote_singleton rfl, .cons ⟨htype, hlocal⟩ .nil, rfl⟩
  exact ⟨h.bind ⟨d.name, known.length, value.type, _⟩ rfl, hset.before (h.optionUses hreaches)⟩

omit h in
theorem declarators_follows {known : List Bool} {scopes : Scopes} {sight : Ast.Sight}
    (h : Knows known sight scopes) {v : Ast.Variables} (ds : List Ast.Declarator) :
    Declares b (b.declarators (v.storage = some .const) v.type scopes ds)
      ((b.within r).declarators (v.storage = some .const) v.type scopes ds) known (ds.map (v, ·))
      fun found =>
        KeptAll b G known (ds.map (v, ·)) (Ast.Declarator.meaningsAll sight known.length ds) found.1
        ∧ Knows (constants known (ds.map (v, ·))) (Ast.Declarator.behindAll sight known.length ds)
          found.2 := by
  induction ds generalizing known scopes sight with
  | nil =>
    refine declares_pure ⟨uses_nil.kept, ?_⟩
    rw [constants, List.map_nil, List.map_nil, List.append_nil]
    exact h
  | cons first rest ih =>
    refine (declarator_follows hG hr h).bind fun found ⟨hknows, hkept⟩ => ?_
    refine (ih hknows).finish fun more hmore => declares_pure ?_
    rw [show (constants known [(v, first)]).length = known.length + 1 from List.length_append]
      at hmore
    exact ⟨hkept.append hmore.1, by simpa [constants, Ast.Declarator.behindAll] using hmore.2⟩

theorem simple_follows {line : Nat} {s : Ast.Simple} :
    Declares b (b.simple scopes line s) ((b.within r).simple scopes line s) known s.declared
      (Follows b G known s.declared (s.meanings sight known.length)
        (s.behind sight known.length)) := by
  cases s with
  | declare v =>
    refine Declares.check localIsConst_settles fun isConst hconst => ?_
    subst hconst
    refine (declarators_follows hG hr h v.declarators).finish fun found ⟨hkept, hknows⟩ => ?_
    obtain ⟨declared, scopes'⟩ := found
    simp only []
    split
    · simp only [KeptAll, Statement.accessesAll, List.append_nil] at hkept
      exact declares_pure ⟨hkept, hknows⟩
    · exact declares_pure ⟨hkept, hknows⟩
  | expr e =>
    refine Declares.check (Env.expr_reaches (h.marks.permits hG) hr e) fun t ht =>
      declares_pure ⟨(h.uses ht).kept, ?_⟩
    exact h.extend []

theorem loopStart_follows {start : Option (Located Ast.Simple)} :
    Declares b (b.loopStart scopes start) ((b.within r).loopStart scopes start) known
      (startDeclared start) fun found =>
      KeptAll b G known (startDeclared start) (Ast.startMeanings sight known.length start) found.1
        ∧ Knows (constants known (startDeclared start)) (Ast.startBehind sight known.length start)
          found.2 := by
  cases start with
  | none => exact declares_pure ⟨uses_nil.kept, h.extend []⟩
  | some start =>
    refine (simple_follows hG hr h).finish fun found hfound => declares_pure ⟨?_, hfound.knows⟩
    simp only [KeptAll, Statement.accessesAll, Statement.localTypesAll, Statement.slotsAll,
      List.append_nil]
    exact hfound.kept

end Locals

mutual

theorem statement_follows (hG : b.registry.Permits b.context G) (hr : b.Grows r) (inLoop : Bool)
    {known : List Bool} {scopes : Scopes} {sight : Ast.Sight} (h : Knows known sight scopes) :
    (s : Ast.Statement) → Declares b (b.statement inLoop scopes s)
      ((b.within r).statement inLoop scopes s) known s.declared (Follows b G known s.declared
        (s.meanings sight known.length) (s.behind sight known.length))
  | .block body _ => by
    refine (statements_follows hG hr inLoop h.push body).finish fun typed hbody => ?_
    exact declares_pure ⟨hbody, h.extend _⟩
  | .simple s _ => simple_follows hG hr h
  | .ifThen test body _ => by
    refine Declares.check (conditionExpr_uses hG hr h test) fun t ht => ?_
    refine (statement_follows hG hr inLoop h.push body).finish fun found hfound =>
      declares_pure ⟨?_, h.extend _⟩
    simp only [Statement.accesses, Statement.accessesAll, accessesAll_branch, Statement.localTypes,
      Statement.localTypesAll, localTypesAll_branch, Statement.slots, Statement.slotsAll,
      slotsAll_branch, List.append_nil]
    exact hfound.kept.before ht
  | .ifElse test first second _ => by
    refine Declares.check (conditionExpr_uses hG hr h test) fun t ht => ?_
    refine (statement_follows hG hr inLoop h.push first).bind fun found hfound => ?_
    refine (statement_follows hG hr inLoop (h.push.extend _) second).finish fun other hother =>
      declares_pure ⟨?_, h.extend _⟩
    have hsecond := hother.kept
    rw [length_constants] at hsecond
    simp only [Statement.accesses, accessesAll_branch, Statement.localTypes, localTypesAll_branch,
      Statement.slots, slotsAll_branch]
    exact (hfound.kept.before ht).append hsecond
  | .forLoop start test step body _ => by
    refine (loopStart_follows hG hr h.push).bind fun found ⟨hstart, hinner⟩ => ?_
    obtain ⟨typedStart, inner⟩ := found
    have henv := hinner.marks.permits hG
    refine Declares.check (optionalCondition_reaches henv hr test) fun t ht => ?_
    refine Declares.check (optionalExpr_reaches henv hr step) fun u hu => ?_
    refine (statement_follows hG hr true hinner.push body).finish fun other hother =>
      declares_pure ⟨?_, h.extend _⟩
    have hloop := (hother.kept.before (hinner.optionUses ht)).after (hinner.optionUses hu).extend
    rw [length_constants_start] at hloop
    simp only [Statement.accesses, Statement.accessesAll_append, Statement.accessesAll,
      accessesAll_branch, Statement.localTypes, Statement.localTypesAll_append,
      Statement.localTypesAll, localTypesAll_branch, Statement.slots, Statement.slotsAll_append,
      Statement.slotsAll, slotsAll_branch, List.append_nil]
    exact hstart.append hloop
  | .whileLoop test body _ => by
    refine Declares.check (conditionExpr_uses hG hr h test) fun t ht => ?_
    refine (statement_follows hG hr true h.push body).finish fun found hfound =>
      declares_pure ⟨?_, h.extend _⟩
    simp only [Statement.accesses, accessesAll_branch, Expr.optionAccesses, Option.map_some,
      Option.getD_some, Option.map_none, Option.getD_none, List.append_nil, Statement.localTypes,
      localTypesAll_branch, Statement.slots, slotsAll_branch]
    exact hfound.kept.before ht
  | .doLoop body test _ => by
    refine (statement_follows hG hr true h.push body).finish fun found hfound => ?_
    have hbehind := h.extend (body.declared.map Ast.isConstant)
    refine Declares.check (conditionExpr_uses hG hr hbehind test)
      fun t ht => declares_pure ⟨?_, hbehind⟩
    simp only [Statement.accesses, accessesAll_branch, Statement.localTypes, localTypesAll_branch,
      Statement.slots, slotsAll_branch]
    exact hfound.kept.after ht
  | .returnFrom value span =>
    Declares.check (result_reaches (h.marks.permits hG) hr value) fun t ht =>
      declares_pure ⟨(h.optionUses ht).kept, h.extend []⟩
  | .breakLoop span | .continueLoop span | .discardPixel span =>
    FrameM.declares_ite (declares_pure ⟨uses_nil.kept, h.extend []⟩) declares_fail
  | .empty span => declares_pure ⟨uses_nil.kept, h.extend []⟩

theorem statements_follows (hG : b.registry.Permits b.context G) (hr : b.Grows r) (inLoop : Bool)
    {known : List Bool} {scopes : Scopes} {sight : Ast.Sight} (h : Knows known sight scopes) :
    (body : List Ast.Statement) →
      Declares b (b.statements inLoop scopes body)
        ((b.within r).statements inLoop scopes body) known (Ast.Statement.declaredAll body)
        (KeptAll b G known (Ast.Statement.declaredAll body)
          (Ast.Statement.meaningsAll sight known.length body))
  | [] => declares_pure uses_nil.kept
  | first :: rest => by
    refine (statement_follows hG hr inLoop h first).bind fun found hfound => ?_
    refine (statements_follows hG hr inLoop hfound.knows rest).finish fun more hmore =>
      declares_pure ?_
    rw [length_constants] at hmore
    exact hfound.kept.append hmore

end

end BodyEnv

end ShaderBytecode
