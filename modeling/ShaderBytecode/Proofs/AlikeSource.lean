import ShaderBytecode.Parser.Source
import ShaderBytecode.Proofs.AlikeReading

/-!
# Reading sources that look alike

Declarations, statements and whole sources are read alike.
-/

namespace ShaderBytecode

open Parser

def Respelling.head (ρ : Respelling) (h : Parser.Head) : Parser.Head :=
  ⟨h.storage, h.layout.map ρ.layoutEntry, ρ.name h.type, ρ.name h.name⟩

namespace Likeness

open Ast (Expr)

variable {l : Likeness}

def optionalWord (ρ : Respelling) : Option String → Option String :=
  Option.map ρ.word

theorem alike_typeName : l.Respects Respelling.name typeName :=
  (alike_eatKeyword .precisionLevel).same fun _ => alike_expectName .type

theorem alike_layoutEntry : l.Respects Respelling.layoutEntry layoutEntry := by
  refine (alike_expectName .layout).bind fun name name' hname => (alike_eatMark .assign).ask
    (alike_peek (fun _ _ hword => ?_) fun found _ => ?_) (alike_pure ?_)
  · exact alike_fail fun hexact => by rw [hexact _ _ hword]
  · split
    · refine alike_advance (alike_pure ?_)
      simp only [Respelling.layoutEntry, word_eq hname]
    · exact alike_fail fun _ => rfl
  · simp only [Respelling.layoutEntry, word_eq hname]

theorem alike_layout : l.Respects (fun ρ => List.map ρ.layoutEntry) layout :=
  (alike_eatKeyword .layout).ask
    ((alike_expectMark .openParen).bind fun _ _ _ => (alike_commaList alike_layoutEntry).bind
      fun _ _ hentries => (alike_expectMark .closeParen).bind fun _ _ _ => alike_pure hentries)
    (alike_pure rfl)

theorem alike_storageWithin (length : Nat) (found : Option Storage) :
    l.Respects plain (storageWithin length found) := by
  induction length generalizing found with
  | zero => exact alike_pure rfl
  | succ length ih =>
    refine alike_peek (fun _ _ _ => alike_pure rfl) fun next _ => ?_
    split
    · exact alike_advance (ih found)
    · split
      · exact alike_advance (ih _)
      · exact alike_fail fun _ => rfl
    · exact alike_pure rfl

theorem alike_storage : l.Respects plain storage :=
  alike_loop fun length => alike_storageWithin length none

theorem alike_head : l.Respects Respelling.head head := by
  refine alike_layout.bind fun layout layout' hlayout => alike_storage.same fun storage =>
    (alike_isNext (.keyword .inputOutput) nofun).ask (alike_fail_bind fun _ => rfl) <| alike_typeName.bind
      fun type type' htype => (alike_expectName .declaration).bind
        fun name name' hname => alike_pure ?_
  simp only [Respelling.head, hlayout, htype, hname]

theorem alike_arrayLength : l.Respects plain arrayLength := by
  refine (alike_eatMark .openBracket).ask (alike_peek (fun _ _ hword => ?_) fun found _ => ?_)
    (alike_pure rfl)
  · exact alike_fail fun hexact => by rw [hexact _ _ hword]
  · split
    · exact alike_advance <| (alike_expectMark .closeBracket).bind fun _ _ _ => alike_pure rfl
    · exact alike_fail fun _ => rfl

theorem alike_semantic (d : Dialect) : l.Respects optionalWord (semantic d) := by
  unfold semantic
  split
  · exact (alike_eatMark .colon).ask ((alike_expectName .semantic).bind
      fun _ _ hname => alike_pure (congrArg some (word_eq hname))) (alike_pure rfl)
  · exact alike_pure rfl

section Variables

variable {d : Dialect} {expression : Parser Expr} (h : l.Respects Expr.respell expression)
include h

theorem alike_declaratorTail {name name' : Located String}
    (hname : l.left.name name = l.right.name name') :
    l.Alike Ast.Declarator.respell (declaratorTail d expression name)
      (declaratorTail d expression name') := by
  refine alike_arrayLength.same fun length => (alike_semantic d).bind
    fun semantic semantic' hsemantic => (alike_eatMark .assign).ask ?_ (alike_pure ?_)
  · simp only [if_true, map_eq_pure_bind, bind_assoc, pure_bind]
    refine h.bind fun value value' hvalue => alike_pure ?_
    simp only [Ast.Declarator.respell, word_eq hname, name_span_eq hname, Option.map_some, hvalue]
    rw [show semantic.map l.left.word = semantic'.map l.right.word from hsemantic]
  · simp only [Ast.Declarator.respell, word_eq hname, name_span_eq hname, Option.map_none]
    rw [show semantic.map l.left.word = semantic'.map l.right.word from hsemantic]

theorem alike_declarators {head head' : Head} (hhead : l.left.head head = l.right.head head') :
    l.Alike Ast.Variables.respell (declarators d expression head)
      (declarators d expression head') := by
  obtain ⟨hstorage, hlayout, htype, hname⟩ := Head.mk.inj hhead
  have hitem : l.Respects Ast.Declarator.respell
      (do declaratorTail d expression (← expectName .declaration)) :=
    (alike_expectName .declaration).bind fun _ _ => alike_declaratorTail h
  refine (alike_declaratorTail h hname).bind fun first first' hfirst =>
    (alike_eatMark .comma).ask ?_ ?_
  · refine (alike_commaList hitem).bind fun more more' hmore =>
      (alike_expectMark .semicolon).bind fun _ _ _ => alike_pure ?_
    simp only [Ast.Variables.respell, List.map_cons, hfirst, hmore, hstorage, hlayout, htype]
  · refine (alike_expectMark .semicolon).bind fun _ _ _ => alike_pure ?_
    simp only [Ast.Variables.respell, List.map_cons, List.map_nil, hfirst, hstorage, hlayout, htype]

end Variables

section Members

variable (d : Dialect) (owner : MemberOwner)

theorem alike_member {type type' : Located String} (htype : l.left.name type = l.right.name type') :
    l.Alike Ast.Member.respell (member d owner type) (member d owner type') := by
  refine (alike_expectName .member).bind fun name name' hname => alike_arrayLength.same
    fun length => (alike_semantic d).bind fun semantic semantic' hsemantic =>
      (alike_isMark .assign).ask (alike_fail_bind fun _ => rfl) (alike_pure ?_)
  simp only [Ast.Member.respell, htype, word_eq hname, name_span_eq hname]
  rw [show semantic.map l.left.word = semantic'.map l.right.word from hsemantic]

theorem alike_membersWithin (length : Nat) :
    l.Respects (fun ρ => List.map (Ast.Member.respell ρ)) (membersWithin d owner length) := by
  induction length with
  | zero => exact alike_fail fun _ => rfl
  | succ length ih =>
    have hmembers : l.Respects (fun ρ => List.map (Ast.Member.respell ρ)) (do
        let type ← typeName
        let found ← commaList (member d owner type)
        let _ ← expectMark .semicolon
        return found ++ (← membersWithin d owner length)) := by
      refine alike_typeName.bind fun type type' htype =>
        (alike_commaList (alike_member d owner htype)).bind fun found found' hfound =>
          (alike_expectMark .semicolon).bind fun _ _ _ => ih.bind fun more more' hmore =>
            alike_pure ?_
      simp only [List.map_append, hfound, hmore]
    refine alike_peek (fun _ _ _ => hmembers) fun found _ => ?_
    split
    · exact alike_fail fun _ => rfl
    · exact alike_advance (alike_pure rfl)
    · exact hmembers

theorem alike_members : l.Respects (fun ρ => List.map (Ast.Member.respell ρ)) (members d owner) :=
  (alike_expectMark .openBrace).bind fun _ _ _ => alike_loop (alike_membersWithin d owner)

theorem alike_structDeclaration : l.Respects Ast.Structure.respell (structDeclaration d) := by
  refine alike_here fun s s' hs => alike_advance <| (alike_expectName .struct).bind
    fun name name' hname => (alike_members d .struct).bind fun members members' hmembers => ?_
  have hempty : members.isEmpty = members'.isEmpty := by
    rw [← List.isEmpty_map (f := Ast.Member.respell l.left), hmembers, List.isEmpty_map]
  simp only [hempty]
  split
  · exact alike_failAt_bind fun hexact => by rw [hexact _ _ (word_eq hname)]
  · refine (alike_eatMark .semicolon).ask (alike_pure ?_) <| alike_behind fun _ _ _ =>
      alike_peek (fun _ _ hword => ?_) fun _ _ => alike_failAt_bind fun _ => rfl
    · simp only [Ast.Structure.respell, word_eq hname, hs]
      rw [show members.map (Ast.Member.respell l.left) = members'.map (Ast.Member.respell l.right)
        from hmembers]
    · exact alike_failAt_bind fun hexact => by rw [hexact _ _ hword]

omit d owner in
theorem alike_register : l.Respects optionalWord Parser.register := by
  refine (alike_eatMark .colon).ask ((alike_expectName .register).bind
    fun word word' hword => ?_) (alike_pure rfl)
  have hregister : (word.value ≠ "register") = (word'.value ≠ "register") := by
    rw [ne_eq, ne_eq, l.register (word_eq hword)]
  simp only [hregister]
  split
  · exact alike_failAt_bind fun hexact => by rw [hexact _ _ (word_eq hword)]
  · exact (alike_expectMark .openParen).bind fun _ _ _ => (alike_expectName .registerSlot).bind
      fun _ _ hslot => (alike_expectMark .closeParen).bind fun _ _ _ =>
        alike_pure (congrArg some (word_eq hslot))

theorem alike_bufferDeclaration : l.Respects Ast.Buffer.respell (bufferDeclaration d) := by
  refine alike_advance <| (alike_expectName .cbuffer).bind fun name name' hname =>
    alike_register.bind fun register register' hregister => (alike_members d .cbuffer).bind
      fun members members' hmembers => (alike_eatMark .semicolon).same fun _ => alike_pure ?_
  simp only [Ast.Buffer.respell, word_eq hname]
  rw [show register.map l.left.word = register'.map l.right.word from hregister,
    show members.map (Ast.Member.respell l.left) = members'.map (Ast.Member.respell l.right)
      from hmembers]

end Members

section Parameters

variable (d : Dialect)

omit d in
theorem alike_parameterQualifiersWithin (length : Nat) (isConst : Bool) (found : Option Passing) :
    l.Respects plain (parameterQualifiersWithin length isConst found) := by
  induction length generalizing isConst found with
  | zero => exact alike_pure rfl
  | succ length ih =>
    refine alike_peek (fun _ _ _ => alike_pure rfl) fun next _ => ?_
    split
    · exact alike_advance (ih true found)
    · exact alike_advance (ih isConst found)
    · split
      · simp only []
        split
        · exact alike_fail_bind fun _ => rfl
        · exact alike_advance (ih isConst _)
      · exact alike_pure rfl
    · exact alike_pure rfl

omit d in
theorem alike_optionalName : l.Respects optionalWord optionalName := by
  refine alike_peek (fun _ _ hword => alike_advance (alike_pure (congrArg some hword)))
    fun found hnoWord => ?_
  split
  · exact absurd rfl (hnoWord _)
  · exact alike_pure rfl

theorem alike_parameter : l.Respects Ast.Parameter.respell (parameter d) := by
  refine alike_here fun s s' hs => alike_loop fun length =>
    (alike_parameterQualifiersWithin length false none).same fun found => ?_
  obtain ⟨isConst, found⟩ := found
  simp only []
  split
  · exact alike_failAt_bind fun _ => rfl
  · refine alike_typeName.bind fun type type' htype => alike_optionalName.bind
      fun name name' hname => alike_arrayLength.same fun length => (alike_semantic d).bind
        fun semantic semantic' hsemantic => alike_through hs fun t t' ht => ?_
    simp only [Ast.Parameter.respell, htype, ht]
    rw [show name.map l.left.word = name'.map l.right.word from hname,
      show semantic.map l.left.word = semantic'.map l.right.word from hsemantic]

omit d in
theorem alike_isVoidList : l.Respects plain isVoidList := by
  intro c c' hc
  have hsecond : c.peekSecond = some (.punct .closeParen)
      ↔ c'.peekSecond = some (.punct .closeParen) := hc.peekSecond.eq_iff nofun
  exact .ok (by simp only [plain, id, hc.peek.void_iff, hsecond]) hc

theorem alike_parameters :
    l.Respects (fun ρ => List.map (Ast.Parameter.respell ρ)) (parameters d) :=
  (alike_eatMark .closeParen).ask (alike_pure rfl) <| alike_isVoidList.ask
    (alike_advance <| alike_advance <| alike_pure rfl)
    ((alike_commaList (alike_parameter d)).bind fun _ _ hfound =>
      (alike_expectMark .closeParen).bind fun _ _ _ => alike_pure hfound)

end Parameters

/-! ## Statements -/

section Statements

open Ast (Simple Statement)

variable (d : Dialect)

theorem alike_expression (budget : Nat) : l.Respects Expr.respell (expression budget) :=
  (Level.alike_ofBudget budget).assignment

omit d in
theorem alike_startsDeclaration : l.Respects plain startsDeclaration := by
  intro c c' hc
  have hfirst := hc.peek
  have hsecond := hc.peekSecond
  refine alikeAt_get ?_
  generalize c.peek = first, c'.peek = first' at hfirst ⊢
  generalize c.peekSecond = second, c'.peekSecond = second' at hsecond ⊢
  cases hfirst with
  | same hnoWord =>
    split
    · exact alikeAt_pure hc rfl
    · exact alikeAt_pure hc rfl
    · exact alikeAt_pure hc rfl
    · exact alikeAt_pure hc rfl
    · exact absurd rfl (hnoWord _)
    · exact alikeAt_pure hc rfl
  | word _ =>
    cases hsecond with
    | word _ => exact alikeAt_pure hc rfl
    | same _ =>
      simp only []
      exact alikeAt_pure hc rfl

section Parts

variable {expression : Parser Expr} (h : l.Respects Expr.respell expression)
include h

theorem alike_simple : l.Respects Simple.respell (simple d expression) := by
  refine alike_startsDeclaration.ask ?_ ?_
  · refine alike_head.bind fun head head' hhead => (alike_declarators h hhead).bind
      fun v v' hv => alike_pure ?_
    simp only [Simple.respell, hv]
  · refine h.bind fun value value' hvalue => (alike_expectMark .semicolon).bind
      fun _ _ _ => alike_pure ?_
    simp only [Simple.respell, hvalue]

omit d in
theorem alike_condition : l.Respects Expr.respell (condition expression) :=
  (alike_expectMark .openParen).bind fun _ _ _ => h.bind fun _ _ hfound =>
    (alike_expectMark .closeParen).bind fun _ _ _ => alike_pure hfound

omit d in
theorem alike_optionalUpTo (mark : Punct) :
    l.Respects (fun ρ => Option.map (Expr.respell ρ)) (optionalUpTo mark expression) := by
  refine (alike_isMark mark).ask ?_ ?_
  · exact (alike_expectMark mark).bind fun _ _ _ => alike_pure rfl
  · simp only [map_eq_pure_bind, bind_assoc, pure_bind]
    exact h.bind fun value value' hvalue => (alike_expectMark mark).bind
      fun _ _ _ => alike_pure (congrArg some hvalue)

theorem alike_forStart :
    l.Respects (fun ρ => Option.map (Simple.respellAt ρ)) (forStart d expression) := by
  refine (alike_eatMark .semicolon).ask (alike_pure rfl) <| alike_here fun s s' hs =>
    (alike_simple d h).bind fun found found' hfound => alike_behind fun t t' ht => alike_pure ?_
  simp only [Option.map_some, Simple.respellAt, l.left_through, l.right_through, hfound, hs, ht]

end Parts

def statementsView (ρ : Respelling) (found : List Statement × Span) : List Statement × Span :=
  (found.1.map (Statement.respell ρ), ρ.span found.2)

section Blocks

variable {inner : Parser Statement} (h : l.Respects Statement.respell inner)
include h

omit d in
theorem alike_statementsWithin (length : Nat) :
    l.Respects statementsView (statementsWithin inner length) := by
  induction length with
  | zero => exact alike_fail fun _ => rfl
  | succ length ih =>
    have hmore : l.Respects statementsView (do
        let first ← inner
        let found ← statementsWithin inner length
        return (first :: found.1, found.2)) := by
      refine h.bind fun first first' hfirst => ih.bind fun more more' hmore => alike_pure ?_
      obtain ⟨hstatements, hspan⟩ := Prod.mk.inj hmore
      simp only [statementsView, List.map_cons, hfirst, hstatements, hspan]
    refine alike_peek (fun _ _ _ => hmore) fun found _ => ?_
    split
    · exact alike_fail fun _ => rfl
    · refine alike_here fun s s' hs => alike_advance (alike_pure ?_)
      simp only [statementsView, List.map_nil, hs]
    · exact hmore

omit d in
theorem alike_body : l.Respects Ast.Body.respell (body inner) := by
  refine (alike_expectMark .openBrace).bind fun s s' hs => ?_
  have hbody : ∀ length, l.Alike Ast.Body.respell
      (statementsWithin inner length >>= fun found => pure ⟨found.1, s.through found.2⟩)
      (statementsWithin inner length >>= fun found => pure ⟨found.1, s'.through found.2⟩) := by
    refine fun length => (alike_statementsWithin h length).bind fun found found' hfound =>
      alike_pure ?_
    obtain ⟨hstatements, hspan⟩ := Prod.mk.inj hfound
    simp only [Ast.Body.respell, l.left_through, l.right_through, hstatements, hs, hspan]
  exact alike_loop hbody

end Blocks

theorem alike_statement (budget : Nat) : l.Respects Statement.respell (statement d budget) := by
  induction budget with
  | zero => exact alike_fail fun _ => rfl
  | succ budget ih =>
    have hexpression := alike_expression (l := l) budget
    refine alike_here fun s s' hs => ?_
    have hsimple : l.Alike Statement.respell
        (simple d (expression budget) >>= fun found => do
          return .simple found (s.through (← behind)))
        (simple d (expression budget) >>= fun found => do
          return .simple found (s'.through (← behind))) := by
      refine (alike_simple d hexpression).bind fun found found' hfound =>
        alike_through hs fun t t' ht => ?_
      simp only [Statement.respell, hfound, ht]
    refine alike_peek (fun _ _ _ => hsimple) fun found _ => ?_
    split
    · refine (alike_body ih).bind fun found found' hfound => alike_through hs fun t t' ht => ?_
      have hstatements := congrArg Ast.Body.statements hfound
      simp only [Ast.Body.respell] at hstatements
      simp only [Statement.respell, Statement.respellAll_eq_map, hstatements, ht]
    · exact alike_advance <| alike_through hs fun t t' ht => by simp only [Statement.respell, ht]
    · refine alike_advance <| (alike_condition hexpression).bind fun test test' htest =>
        ih.bind fun first first' hfirst => (alike_eatKeyword .elseThen).ask ?_ ?_
      · refine ih.bind fun second second' hsecond => alike_through hs fun t t' ht => ?_
        simp only [Statement.respell, htest, hfirst, hsecond, ht]
      · exact alike_through hs fun t t' ht => by simp only [Statement.respell, htest, hfirst, ht]
    · refine alike_advance <| (alike_condition hexpression).bind fun test test' htest =>
        ih.bind fun inner inner' hinner => alike_through hs fun t t' ht => ?_
      simp only [Statement.respell, htest, hinner, ht]
    · refine alike_advance <| ih.bind fun inner inner' hinner => alike_expectWhile.same
        fun _ => (alike_condition hexpression).bind fun test test' htest =>
          (alike_expectMark .semicolon).bind fun _ _ _ => alike_through hs fun t t' ht => ?_
      simp only [Statement.respell, htest, hinner, ht]
    · refine alike_advance <| (alike_expectMark .openParen).bind fun _ _ _ =>
        (alike_forStart d hexpression).bind fun first first' hfirst =>
          (alike_optionalUpTo hexpression .semicolon).bind fun test test' htest =>
            (alike_optionalUpTo hexpression .closeParen).bind fun step step' hstep =>
              ih.bind fun inner inner' hinner => alike_through hs fun t t' ht => ?_
      simp only [Statement.respell, hfirst, htest, hstep, hinner, ht]
    · refine alike_advance <| (alike_optionalUpTo hexpression .semicolon).bind
        fun value value' hvalue => alike_through hs fun t t' ht => ?_
      simp only [Statement.respell, hvalue, ht]
    · exact alike_advance <| (alike_expectMark .semicolon).bind fun _ _ _ =>
        alike_through hs fun t t' ht => by simp only [Statement.respell, ht]
    · exact alike_advance <| (alike_expectMark .semicolon).bind fun _ _ _ =>
        alike_through hs fun t t' ht => by simp only [Statement.respell, ht]
    · exact alike_advance <| (alike_expectMark .semicolon).bind fun _ _ _ =>
        alike_through hs fun t t' ht => by simp only [Statement.respell, ht]
    · exact alike_failAt fun _ => rfl
    · exact hsimple

end Statements

/-! ## Sources -/

section Sources

variable (d : Dialect)

theorem alike_functionBody :
    l.Respects (fun ρ => Option.map (Ast.Body.respell ρ)) (functionBody d) := by
  refine (alike_eatMark .semicolon).ask (alike_pure rfl) <| (alike_isMark .openBrace).ask ?_ ?_
  · exact (alike_body (alike_statement d nestingLimit)).map fun _ _ h => congrArg some h
  · exact alike_peek (fun _ _ hword => alike_fail fun hexact => by rw [hexact _ _ hword])
      fun _ _ => alike_fail fun _ => rfl

theorem alike_function {head head' : Head} (hhead : l.left.head head = l.right.head head') :
    l.Alike Ast.Function.respell (function d head) (function d head') := by
  obtain ⟨hstorage, hlayout, htype, hname⟩ := Head.mk.inj hhead
  have hempty : head.layout.isEmpty = head'.layout.isEmpty := by
    rw [← List.isEmpty_map (f := l.left.layoutEntry), hlayout, List.isEmpty_map]
  unfold function
  rw [hstorage, hempty]
  cases head'.storage with
  | some storage => exact alike_failAt_bind fun _ => rfl
  | none =>
    cases head'.layout.isEmpty with
    | false => exact alike_failAt_bind fun _ => rfl
    | true =>
      refine (alike_expectMark .openParen).bind fun _ _ _ => (alike_parameters d).bind
        fun parameters parameters' hparameters => (alike_semantic d).bind
          fun semantic semantic' hsemantic => (alike_functionBody d).bind
            fun body body' hbody => alike_pure ?_
      simp only [Ast.Function.respell, htype, word_eq hname, name_span_eq hname, hparameters, hbody]
      rw [show semantic.map l.left.word = semantic'.map l.right.word from hsemantic]

omit d in
theorem alike_precision : l.Respects plain precision := by
  refine alike_advance <| (alike_eatKeyword .precisionLevel).same fun _ =>
    alike_peek (fun _ _ _ => ?_) fun found hnoWord => ?_
  · exact alike_advance <| (alike_expectMark .semicolon).bind fun _ _ _ => alike_pure rfl
  · split
    · exact absurd rfl (hnoWord _)
    · exact alike_fail fun _ => rfl

theorem alike_headed : l.Respects Ast.Declaration.respell (headed d) :=
  alike_head.bind fun _ _ hhead => (alike_isMark .openParen).ask
    ((alike_function d hhead).bind fun _ _ hf =>
      alike_pure (congrArg Ast.Declaration.function hf))
    ((alike_declarators (alike_expression nestingLimit) hhead).bind fun _ _ hv =>
      alike_pure (congrArg Ast.Declaration.declare hv))

theorem alike_declarationsWithin (length : Nat) :
    l.Respects (fun ρ => List.map (Ast.Declaration.respell ρ)) (declarationsWithin d length) := by
  induction length with
  | zero => exact alike_pure rfl
  | succ length ih =>
    have hheaded : l.Respects (fun ρ => List.map (Ast.Declaration.respell ρ)) (do
        let found ← headed d
        return found :: (← declarationsWithin d length)) := by
      refine (alike_headed d).bind fun first first' hfirst => ih.bind fun more more' hmore =>
        alike_pure ?_
      simp only [List.map_cons, hfirst, hmore]
    refine alike_peek (fun _ _ _ => hheaded) fun found _ => ?_
    split
    · exact alike_pure rfl
    · exact alike_advance ih
    · exact alike_precision.same fun _ => ih
    · refine (alike_structDeclaration d).bind fun first first' hfirst =>
        ih.bind fun more more' hmore => alike_pure ?_
      simp only [List.map_cons, Ast.Declaration.respell, hfirst, hmore]
    · refine (alike_bufferDeclaration d).bind fun first first' hfirst =>
        ih.bind fun more more' hmore => alike_pure ?_
      simp only [List.map_cons, Ast.Declaration.respell, hfirst, hmore]
    · exact hheaded

theorem alike_declarations :
    l.Respects (fun ρ => List.map (Ast.Declaration.respell ρ)) (declarations d) :=
  alike_loop (alike_declarationsWithin d)

/-- Of two sources that look alike either both are read, and their trees look alike, or neither is,
for the same reason if all words that look alike are equal. -/
theorem ofTokens_cases {scanned scanned' : Scanned}
    (htokens : l.Tokens scanned.tokens scanned'.tokens)
    (hstop : l.left.span ⟨scanned.stop, scanned.stop⟩
      = l.right.span ⟨scanned'.stop, scanned'.stop⟩) :
    (∃ ds ds', Ast.ofTokens d scanned = .ok ds ∧ Ast.ofTokens d scanned' = .ok ds'
      ∧ ds.map (Ast.Declaration.respell l.left) = ds'.map (Ast.Declaration.respell l.right))
    ∨ ∃ e e', Ast.ofTokens d scanned = .error e ∧ Ast.ofTokens d scanned' = .error e'
      ∧ (l.Exact → e.value = e'.value) := by
  have hread := alike_declarations d ⟨none, scanned.tokens, scanned.stop⟩
    ⟨none, scanned'.tokens, scanned'.stop⟩ ⟨rfl, htokens, hstop⟩
  unfold AlikeAt at hread
  unfold Ast.ofTokens
  simp only [StateT.run'_eq]
  generalize (declarations d).run ⟨none, scanned.tokens, scanned.stop⟩ = outcome at hread ⊢
  generalize (declarations d).run ⟨none, scanned'.tokens, scanned'.stop⟩ = outcome' at hread ⊢
  cases hread with
  | ok hview _ => exact .inl ⟨_, _, rfl, rfl, hview⟩
  | error h => exact .inr ⟨_, _, rfl, rfl, h⟩

end Sources

end Likeness

end ShaderBytecode
