import ShaderBytecode.Proofs.NameResolution

/-!
# Lexical scopes

The reference rule for what names mean: a name means the local of that name in the innermost scope
around it, among the locals whose declarations are complete, then a parameter, and then a global
variable. Scopes are numbered in the order of the text, and so are the locals of a body. Passing on
the locals in sight while a body is read gives the same meanings.
-/

namespace ShaderBytecode.Ast

/-! ## Scopes -/

/-- A local of a body: the number of the scope that declares it, its name and where this stands. -/
structure Local where
  scope : Nat
  name : String
  span : Span
deriving DecidableEq, Repr

abbrev Local.place (l : Local) : String × Span :=
  (l.name, l.span)

mutual

/-- How many scopes a statement opens. Blocks, branches, loops with a header and the bodies of loops
are scopes of their own, braced or not. -/
def Statement.scopeCount : Statement → Nat
  | .block body _ => 1 + Statement.scopeCountAll body
  | .ifThen _ body _ | .whileLoop _ body _ | .doLoop body _ _ => 1 + body.scopeCount
  | .ifElse _ first second _ => 1 + first.scopeCount + (1 + second.scopeCount)
  | .forLoop _ _ _ body _ => 2 + body.scopeCount
  | .simple _ _ | .returnFrom _ _ | .breakLoop _ | .continueLoop _ | .discardPixel _ | .empty _ => 0

def Statement.scopeCountAll : List Statement → Nat
  | [] => 0
  | first :: rest => first.scopeCount + Statement.scopeCountAll rest

end

def Declarator.places (scope : Nat) (ds : List Declarator) : List Local :=
  ds.map fun d => ⟨scope, d.name, d.span⟩

def Simple.places (scope : Nat) : Simple → List Local
  | .declare v => Declarator.places scope v.declarators
  | .expr _ => []

def startPlaces (scope : Nat) (start : Option (Located Simple)) : List Local :=
  (start.map (·.value.places scope)).getD []

mutual

/-- The locals that a statement in a scope declares, in the order of the text. The scopes that it
opens are numbered from `next` on. -/
def Statement.places (scope next : Nat) : Statement → List Local
  | .block body _ => Statement.placesAll next (next + 1) body
  | .simple s _ => s.places scope
  | .ifThen _ body _ | .whileLoop _ body _ | .doLoop body _ _ => body.places next (next + 1)
  | .ifElse _ first second _ =>
    let other := next + 1 + first.scopeCount
    first.places next (next + 1) ++ second.places other (other + 1)
  | .forLoop start _ _ body _ => startPlaces next start ++ body.places (next + 1) (next + 2)
  | .returnFrom _ _ | .breakLoop _ | .continueLoop _ | .discardPixel _ | .empty _ => []

def Statement.placesAll (scope next : Nat) : List Statement → List Local
  | [] => []
  | first :: rest =>
    first.places scope next ++ Statement.placesAll scope (next + first.scopeCount) rest

end

/-- The locals of a body, whose outermost scope is number 0. -/
def Body.places (body : Body) : List Local :=
  Statement.placesAll 0 1 body.statements

/-! ## The reference rule -/

/-- The number of the local that a name means within scopes, the innermost first, once certain
locals are declared. -/
def localAt? (declared : List Local) (around : List Nat) (name : String) : Option Nat :=
  around.findSome? fun scope =>
    (declared.zipIdx.reverse.find? fun (l, _) => l.scope = scope ∧ l.name = name).map (·.2)

section References

variable (f : Function)

/-- What a name means within scopes once certain locals are declared. Locals take the slots behind
those of the parameters. -/
def Function.meaningAt (declared : List Local) (around : List Nat) (name : String) : Meaning :=
  match localAt? declared around name with
  | some number => .slot (f.parameters.length + number)
  | none => f.sight.meaning name

def Expr.references (declared : List Local) (around : List Nat) (e : Expr) : List Meaning :=
  e.variables.map (f.meaningAt declared around)

def Expr.optionReferences (declared : List Local) (around : List Nat) (e : Option Expr) :
    List Meaning :=
  (e.map (·.references f declared around)).getD []

/-- What the names in declarators mean. A start value does not see the local that it is for. -/
def Declarator.referencesAll (declared : List Local) (scope : Nat) (outer : List Nat) :
    List Declarator → List Meaning
  | [] => []
  | first :: rest =>
    Expr.optionReferences f declared (scope :: outer) first.initializer
      ++ [.slot (f.parameters.length + declared.length)]
      ++ referencesAll (declared ++ [⟨scope, first.name, first.span⟩]) scope outer rest

def Simple.references (declared : List Local) (scope : Nat) (outer : List Nat) :
    Simple → List Meaning
  | .declare v => Declarator.referencesAll f declared scope outer v.declarators
  | .expr e => e.references f declared (scope :: outer)

mutual

/-- What the names in a statement mean by the reference rule, in the order of its code. The
condition of a `do` loop stands outside of the scope of the body. -/
def Statement.references (declared : List Local) (scope : Nat) (outer : List Nat) (next : Nat) :
    Statement → List Meaning
  | .block body _ => Statement.referencesAll declared next (scope :: outer) (next + 1) body
  | .simple s _ => s.references f declared scope outer
  | .ifThen test body _ | .whileLoop test body _ =>
    test.references f declared (scope :: outer)
      ++ body.references declared next (scope :: outer) (next + 1)
  | .ifElse test first second _ =>
    let other := next + 1 + first.scopeCount
    test.references f declared (scope :: outer)
      ++ first.references declared next (scope :: outer) (next + 1)
      ++ second.references (declared ++ first.places next (next + 1)) other (scope :: outer)
        (other + 1)
  | .forLoop start test step body _ =>
    let inner := declared ++ startPlaces next start
    (start.map (·.value.references f declared next (scope :: outer))).getD []
      ++ (Expr.optionReferences f inner (next :: scope :: outer) test
        ++ body.references inner (next + 1) (next :: scope :: outer) (next + 2)
        ++ Expr.optionReferences f inner (next :: scope :: outer) step)
  | .doLoop body test _ =>
    body.references declared next (scope :: outer) (next + 1)
      ++ test.references f (declared ++ body.places next (next + 1)) (scope :: outer)
  | .returnFrom value _ => Expr.optionReferences f declared (scope :: outer) value
  | .breakLoop _ | .continueLoop _ | .discardPixel _ | .empty _ => []

/-- What the names in statements mean by the reference rule. -/
def Statement.referencesAll (declared : List Local) (scope : Nat) (outer : List Nat) (next : Nat) :
    List Statement → List Meaning
  | [] => []
  | first :: rest =>
    first.references declared scope outer next
      ++ Statement.referencesAll (declared ++ first.places scope next) scope outer
        (next + first.scopeCount) rest

end

/-- What the names in the body of a function mean by the reference rule. -/
def Function.references (body : Body) : List Meaning :=
  Statement.referencesAll f [] 0 [] 1 body.statements

end References

/-! ## Numbers of scopes -/

/-- Scopes that are open, and those of declared locals, have numbers below the next one. The
outermost one is number 0, and each is open once. -/
structure Numbered (declared : List Local) (around : List Nat) (next : Nat) : Prop where
  locals : ∀ l ∈ declared, l.scope < next
  scopes : ∀ scope ∈ around, scope < next
  nodup : around.Nodup

section Numbers

variable {declared more : List Local} {around outer : List Nat} {scope next count : Nat}

theorem numbered_start : Numbered [] [0] 1 :=
  ⟨List.forall_mem_nil _, List.forall_mem_singleton.mpr Nat.zero_lt_one, List.nodup_singleton 0⟩

theorem Numbered.push (h : Numbered declared around next) :
    Numbered declared (next :: around) (next + 1) where
  locals l hl := (h.locals l hl).trans (Nat.lt_succ_self next)
  scopes := List.forall_mem_cons.mpr ⟨Nat.lt_succ_self next,
    fun scope hscope => (h.scopes scope hscope).trans (Nat.lt_succ_self next)⟩
  nodup := List.nodup_cons.mpr ⟨fun hmem => Nat.lt_irrefl _ (h.scopes next hmem), h.nodup⟩

theorem Numbered.extend (h : Numbered declared around next)
    (hmore : ∀ l ∈ more, l.scope < next + count) :
    Numbered (declared ++ more) around (next + count) where
  locals := List.forall_mem_append.mpr
    ⟨fun l hl => (h.locals l hl).trans_le (Nat.le_add_right ..), hmore⟩
  scopes scope hscope := (h.scopes scope hscope).trans_le (Nat.le_add_right ..)
  nodup := h.nodup

theorem Simple.scope_of_mem_places {s : Simple} {l : Local} (h : l ∈ s.places scope) :
    l.scope = scope := by
  cases s with
  | expr e => cases h
  | declare v =>
    obtain ⟨d, -, rfl⟩ := List.mem_map.mp h
    rfl

theorem scope_of_mem_startPlaces {start : Option (Located Simple)} {l : Local}
    (h : l ∈ startPlaces scope start) : l.scope = scope := by
  cases start with
  | none => cases h
  | some start => exact Simple.scope_of_mem_places h

end Numbers

mutual

/-- The scopes of the locals of a statement: its own, and those that it opens. -/
theorem Statement.scope_of_mem_places {scope next : Nat} {l : Local} : (s : Statement) →
    l ∈ s.places scope next → l.scope = scope ∨ next ≤ l.scope ∧ l.scope < next + s.scopeCount
  | .block body _, h => by
    have hscope := Statement.scope_of_mem_placesAll body h
    simp only [scopeCount]
    omega
  | .simple _ _, h => .inl (Simple.scope_of_mem_places h)
  | .ifThen _ body _, h | .whileLoop _ body _, h | .doLoop body _ _, h => by
    have hscope := body.scope_of_mem_places h
    simp only [scopeCount]
    omega
  | .ifElse _ first second _, h => by
    simp only [scopeCount]
    obtain h | h := List.mem_append.mp h
    · have hscope := first.scope_of_mem_places h
      omega
    · have hscope := second.scope_of_mem_places h
      omega
  | .forLoop _ _ _ body _, h => by
    simp only [scopeCount]
    obtain h | h := List.mem_append.mp h
    · have hscope := scope_of_mem_startPlaces h
      omega
    · have hscope := body.scope_of_mem_places h
      omega
  | .returnFrom _ _, h | .breakLoop _, h | .continueLoop _, h | .discardPixel _, h
  | .empty _, h => by cases h

theorem Statement.scope_of_mem_placesAll {scope next : Nat} {l : Local} :
    (body : List Statement) → l ∈ Statement.placesAll scope next body →
      l.scope = scope ∨ next ≤ l.scope ∧ l.scope < next + Statement.scopeCountAll body
  | [], h => by cases h
  | first :: rest, h => by
    simp only [scopeCountAll]
    obtain h | h := List.mem_append.mp h
    · have hscope := first.scope_of_mem_places h
      omega
    · have hscope := Statement.scope_of_mem_placesAll rest h
      omega

end

/-- Behind a statement all numbers are below the next one. -/
theorem Numbered.behind {declared : List Local} {scope next : Nat} {outer : List Nat}
    (h : Numbered declared (scope :: outer) next) (s : Statement) :
    Numbered (declared ++ s.places scope next) (scope :: outer) (next + s.scopeCount) := by
  refine h.extend fun l hl => ?_
  have hscope := h.scopes scope (List.mem_cons_self ..)
  have hplace := s.scope_of_mem_places hl
  omega

/-! ## Meanings -/

section Agree

variable {f : Function} {declared more : List Local} {around outer : List Nat} {scope next : Nat}
variable {sight : Sight}

theorem localAt?_append (h : ∀ l ∈ more, l.scope ∉ around) (name : String) :
    localAt? (declared ++ more) around name = localAt? declared around name := by
  unfold localAt?
  induction around with
  | nil => rfl
  | cons scope around ih =>
    have hnone : (more.zipIdx (0 + declared.length)).reverse.find?
        (fun (l, _) => l.scope = scope ∧ l.name = name) = none := by
      refine List.find?_eq_none.mpr fun x hx hmatch => ?_
      have hmem := List.fst_mem_of_mem_zipIdx (List.mem_reverse.mp hx)
      exact h x.1 hmem ((of_decide_eq_true hmatch).1 ▸ List.mem_cons_self ..)
    rw [List.findSome?_cons, List.findSome?_cons,
      ih fun l hl hmem => h l hl (List.mem_cons_of_mem _ hmem), List.zipIdx_append,
      List.reverse_append, List.find?_append, hnone, Option.none_or]

theorem localAt?_push (h : ∀ l ∈ declared, l.scope ≠ scope) (name : String) :
    localAt? declared (scope :: around) name = localAt? declared around name := by
  have hnone : declared.zipIdx.reverse.find? (fun (l, _) => l.scope = scope ∧ l.name = name)
      = none := by
    refine List.find?_eq_none.mpr fun x hx hmatch => ?_
    exact h x.1 (List.fst_mem_of_mem_zipIdx (List.mem_reverse.mp hx)) (of_decide_eq_true hmatch).1
  rw [localAt?, List.findSome?_cons, hnone]
  rfl

/-- A local that is declared hides others of its name. -/
theorem localAt?_concat (h : scope ∉ outer) (n name : String) (span : Span) :
    localAt? (declared ++ [⟨scope, n, span⟩]) (scope :: outer) name
      = if n = name then some declared.length else localAt? declared (scope :: outer) name := by
  have hzip : (declared ++ [Local.mk scope n span]).zipIdx.reverse
      = (⟨scope, n, span⟩, declared.length) :: declared.zipIdx.reverse := by
    rw [List.zipIdx_append, List.reverse_append, Nat.zero_add]
    rfl
  have houter : localAt? (declared ++ [⟨scope, n, span⟩]) outer name
      = localAt? declared outer name :=
    localAt?_append (fun l hl => List.mem_singleton.mp hl ▸ h) name
  unfold localAt? at houter ⊢
  rw [List.findSome?_cons, List.findSome?_cons, houter, hzip, List.find?_cons]
  by_cases hname : n = name
  · simp [hname]
  · simp [hname]

/-- Locals that are in sight are those that the reference rule finds. -/
def Agree (f : Function) (declared : List Local) (around : List Nat) (sight : Sight) : Prop :=
  ∀ name, sight.meaning name = f.meaningAt declared around name

theorem Agree.expr (h : Agree f declared around sight) (e : Expr) :
    e.meanings sight = e.references f declared around :=
  List.map_congr_left fun name _ => h name

theorem Agree.optionExpr (h : Agree f declared around sight) (e : Option Expr) :
    Expr.optionMeanings sight e = Expr.optionReferences f declared around e := by
  cases e with
  | none => rfl
  | some e => exact h.expr e

theorem Agree.push (h : Agree f declared around sight) (hnumbers : Numbered declared around next) :
    Agree f declared (next :: around) sight := by
  intro name
  rw [h name, Function.meaningAt, Function.meaningAt,
    localAt?_push fun l hl => (hnumbers.locals l hl).ne]

/-- What is declared in further scopes is out of sight behind them. -/
theorem Agree.behind (h : Agree f declared around sight) (hnumbers : Numbered declared around next)
    (hmore : ∀ l ∈ more, next ≤ l.scope) : Agree f (declared ++ more) around sight := by
  intro name
  rw [h name, Function.meaningAt, Function.meaningAt, localAt?_append]
  exact fun l hl hmem => Nat.not_lt.mpr (hmore l hl) (hnumbers.scopes _ hmem)

theorem Agree.declare (h : Agree f declared (scope :: outer) sight) (hscope : scope ∉ outer)
    (n : String) (span : Span) :
    Agree f (declared ++ [⟨scope, n, span⟩]) (scope :: outer)
      ((n, f.parameters.length + declared.length) :: sight) := by
  intro name
  have hname := h name
  unfold Sight.meaning Function.meaningAt at hname ⊢
  rw [localAt?_concat hscope, List.lookup_cons]
  by_cases heq : n = name
  · simp [heq]
  · rw [if_neg heq, beq_false_of_ne (Ne.symm heq)]
    exact hname

theorem Declarator.meaningsAll_eq (hscope : scope ∉ outer) (ds : List Declarator)
    {declared : List Local} {sight : Sight} (h : Agree f declared (scope :: outer) sight) :
    meaningsAll sight (f.parameters.length + declared.length) ds
        = referencesAll f declared scope outer ds
      ∧ Agree f (declared ++ Declarator.places scope ds) (scope :: outer)
        (behindAll sight (f.parameters.length + declared.length) ds) := by
  induction ds generalizing declared sight with
  | nil => exact ⟨rfl, by rwa [places, List.map_nil, List.append_nil]⟩
  | cons first rest ih =>
    obtain ⟨hrest, hbehind⟩ := ih (h.declare hscope first.name first.span)
    rw [List.length_append, List.length_singleton, ← Nat.add_assoc] at hrest hbehind
    refine ⟨?_, ?_⟩
    · rw [meaningsAll, referencesAll, hrest, h.optionExpr]
    · rw [List.append_assoc] at hbehind
      exact hbehind

theorem Simple.meanings_eq (hscope : scope ∉ outer) (h : Agree f declared (scope :: outer) sight)
    (s : Simple) :
    s.meanings sight (f.parameters.length + declared.length) = s.references f declared scope outer
      ∧ Agree f (declared ++ s.places scope) (scope :: outer)
        (s.behind sight (f.parameters.length + declared.length)) := by
  cases s with
  | declare v => exact Declarator.meaningsAll_eq hscope v.declarators h
  | expr e => exact ⟨h.expr e, by rwa [places, List.append_nil]⟩

theorem start_meanings_eq (hscope : scope ∉ outer) (h : Agree f declared (scope :: outer) sight)
    (start : Option (Located Simple)) :
    startMeanings sight (f.parameters.length + declared.length) start
        = (start.map (·.value.references f declared scope outer)).getD []
      ∧ Agree f (declared ++ startPlaces scope start) (scope :: outer)
        (startBehind sight (f.parameters.length + declared.length) start) := by
  cases start with
  | none => exact ⟨rfl, by rwa [startPlaces, Option.map_none, Option.getD_none, List.append_nil]⟩
  | some start => exact start.value.meanings_eq hscope h

end Agree

theorem Simple.map_places (scope : Nat) (s : Simple) :
    (s.places scope).map Local.place = s.declared.map fun x => (x.2.name, x.2.span) := by
  cases s with
  | declare v => simp [places, Declarator.places, declared]
  | expr e => rfl

theorem map_startPlaces (scope : Nat) (start : Option (Located Simple)) :
    (startPlaces scope start).map Local.place
      = ((start.map (·.value.declared)).getD []).map fun x => (x.2.name, x.2.span) := by
  cases start with
  | none => rfl
  | some start => exact start.value.map_places scope

mutual

theorem Statement.map_places {scope next : Nat} : (s : Statement) →
    (s.places scope next).map Local.place = s.declared.map fun x => (x.2.name, x.2.span)
  | .block body _ => Statement.map_placesAll body
  | .simple s _ => s.map_places scope
  | .ifThen _ body _ | .whileLoop _ body _ | .doLoop body _ _ => body.map_places
  | .ifElse _ first second _ => by
    rw [places, declared, List.map_append, List.map_append, first.map_places, second.map_places]
  | .forLoop start _ _ body _ => by
    rw [places, declared, List.map_append, List.map_append, body.map_places, map_startPlaces]
  | .returnFrom _ _ | .breakLoop _ | .continueLoop _ | .discardPixel _ | .empty _ => rfl

theorem Statement.map_placesAll {scope next : Nat} : (body : List Statement) →
    (Statement.placesAll scope next body).map Local.place
      = (Statement.declaredAll body).map fun x => (x.2.name, x.2.span)
  | [] => rfl
  | first :: rest => by
    rw [placesAll, declaredAll, List.map_append, List.map_append, first.map_places,
      Statement.map_placesAll rest]

end

theorem Statement.length_places {scope next : Nat} (s : Statement) :
    (s.places scope next).length = s.locals.length := by
  rw [← s.length_declared, ← List.length_map (f := Local.place), s.map_places, List.length_map]

theorem length_startPlaces (scope : Nat) (start : Option (Located Simple)) :
    (startPlaces scope start).length = ((start.map (·.value.locals)).getD []).length := by
  cases start with
  | none => rfl
  | some start =>
    show ((Statement.simple start.value start.span).places scope 0).length = _
    exact Statement.length_places _

theorem Statement.le_of_mem_places {next : Nat} {l : Local} {s : Statement}
    (h : l ∈ s.places next (next + 1)) : next ≤ l.scope := by
  have hscope := s.scope_of_mem_places h
  omega

section Bodies

variable {f : Function}

mutual

/-- Passing on the locals in sight gives the meanings of the reference rule, and the locals that are
in sight behind a statement are those that the rule finds there. -/
theorem Statement.meanings_eq {declared : List Local} {scope next : Nat} {outer : List Nat}
    {sight : Sight} (hnumbers : Numbered declared (scope :: outer) next)
    (h : Agree f declared (scope :: outer) sight) : (s : Statement) →
      s.meanings sight (f.parameters.length + declared.length)
          = s.references f declared scope outer next
        ∧ Agree f (declared ++ s.places scope next) (scope :: outer)
          (s.behind sight (f.parameters.length + declared.length))
  | .block body _ => by
    have hbody := Statement.meaningsAll_eq hnumbers.push (h.push hnumbers) body
    refine ⟨hbody, h.behind hnumbers fun l hl => ?_⟩
    have hscope := Statement.scope_of_mem_placesAll body hl
    omega
  | .simple s _ => s.meanings_eq (List.nodup_cons.mp hnumbers.nodup).1 h
  | .ifThen test body _ | .whileLoop test body _ => by
    obtain ⟨hbody, -⟩ := body.meanings_eq hnumbers.push (h.push hnumbers)
    exact ⟨congrArg₂ _ (h.expr test) hbody,
      h.behind hnumbers fun _ hl => Statement.le_of_mem_places hl⟩
  | .ifElse test first second _ => by
    obtain ⟨hfirst, -⟩ := first.meanings_eq hnumbers.push (h.push hnumbers)
    -- the second branch starts where the scopes of the first are numbered and closed
    have hplaces : ∀ l ∈ first.places next (next + 1), next ≤ l.scope
        ∧ l.scope < next + (1 + first.scopeCount) := by
      intro l hl
      have hscope := first.scope_of_mem_places hl
      omega
    have hnumbers' := hnumbers.extend fun l hl => (hplaces l hl).2
    have hagree := h.behind hnumbers fun l hl => (hplaces l hl).1
    obtain ⟨hsecond, -⟩ := second.meanings_eq hnumbers'.push (hagree.push hnumbers')
    rw [List.length_append, first.length_places, ← Nat.add_assoc, ← Nat.add_assoc] at hsecond
    refine ⟨?_, h.behind hnumbers fun l hl => ?_⟩
    · rw [meanings, references, h.expr, hfirst, hsecond]
    · obtain hl | hl := List.mem_append.mp hl
      · exact (hplaces l hl).1
      · have hscope := Statement.le_of_mem_places hl
        omega
  | .forLoop start test step body _ => by
    have hscope := (List.nodup_cons.mp hnumbers.push.nodup).1
    obtain ⟨hstart, hheader⟩ := start_meanings_eq hscope (h.push hnumbers) start
    have hinner : Numbered (declared ++ startPlaces next start) (next :: scope :: outer)
        (next + 1 + 0) := by
      refine hnumbers.push.extend fun l hl => ?_
      have hplace := scope_of_mem_startPlaces hl
      omega
    obtain ⟨hbody, -⟩ := body.meanings_eq hinner.push (hheader.push hinner)
    rw [List.length_append, length_startPlaces, ← Nat.add_assoc] at hbody
    refine ⟨?_, h.behind hnumbers fun l hl => ?_⟩
    · rw [meanings, references, hstart, hheader.optionExpr, hheader.optionExpr, hbody]
    · obtain hl | hl := List.mem_append.mp hl
      · exact (scope_of_mem_startPlaces hl).ge
      · exact (Nat.le_succ next).trans (Statement.le_of_mem_places hl)
  | .doLoop body test _ => by
    obtain ⟨hbody, -⟩ := body.meanings_eq hnumbers.push (h.push hnumbers)
    have hbehind := h.behind hnumbers fun _ hl => Statement.le_of_mem_places (s := body) hl
    exact ⟨congrArg₂ _ hbody (hbehind.expr test), hbehind⟩
  | .returnFrom value _ => ⟨h.optionExpr value, by rwa [places, List.append_nil]⟩
  | .breakLoop _ | .continueLoop _ | .discardPixel _ | .empty _ =>
    ⟨rfl, by rwa [places, List.append_nil]⟩

theorem Statement.meaningsAll_eq {declared : List Local} {scope next : Nat} {outer : List Nat}
    {sight : Sight} (hnumbers : Numbered declared (scope :: outer) next)
    (h : Agree f declared (scope :: outer) sight) : (body : List Statement) →
      Statement.meaningsAll sight (f.parameters.length + declared.length) body
        = Statement.referencesAll f declared scope outer next body
  | [] => rfl
  | first :: rest => by
    obtain ⟨hfirst, hbehind⟩ := first.meanings_eq hnumbers h
    have hrest := Statement.meaningsAll_eq (hnumbers.behind first) hbehind rest
    rw [List.length_append, first.length_places, ← Nat.add_assoc] at hrest
    rw [meaningsAll, referencesAll, hfirst, hrest]

end

/-- Passing on the locals in sight gives the meanings of the reference rule. -/
theorem Function.meanings_eq (body : Body) : f.meanings body = f.references body :=
  Statement.meaningsAll_eq numbered_start (fun _ => rfl) body.statements

end Bodies

end ShaderBytecode.Ast
