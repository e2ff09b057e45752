import ShaderBytecode.Proofs.ReadExpressions

/-!
# Reading sources

Declarations and statements take tokens as expressions do, one or more for each unit of their
weight, and their nodes start where tokens start. So a source is no heavier than it is long, and
every syntax error stands in the source.
-/

namespace ShaderBytecode

namespace Parser

open Ast (Expr)

variable {G : Ground}

/-! ## Declarations -/

/-- The names of a head start with tokens. -/
structure Head.Marked (G : Ground) (h : Head) : Prop where
  type : G.Marked h.type.span
  name : G.Marked h.name.span

theorem takes_typeName : Takes G typeName (fun _ => 1) fun name => G.Marked name.span := by
  intro c hc
  refine (takes_eat _).next hc.to_self fun _ c₁ h₁ _ => ?_
  exact (takes_expectName .type).last h₁ fun name c₂ h₂ hname =>
    ⟨h₂.weaken (Nat.le_add_left _ _), hname⟩

theorem takes_layoutEntry : Takes G layoutEntry (fun _ => 1) fun _ => True := by
  intro c hc
  refine points_expectName hc.to_self fun name c₁ h₁ _ => points_eat h₁ (fun c₂ h₂ => ?_) ?_
  · refine points_peek ?_
    split
    · rename_i hpeek
      exact points_advance h₂ hpeek fun h₃ _ =>
        points_pure ⟨h₃.weaken (Nat.le_add_left _ _), trivial⟩
    · exact points_fail h₂
  · exact points_pure ⟨h₁, trivial⟩

theorem takes_layout : Takes G layout (fun _ => 0) fun _ => True := by
  intro c hc
  refine points_eat hc.to_self (fun c₁ h₁ => ?_) (points_pure ⟨hc.to_self, trivial⟩)
  refine points_expectMark h₁ fun c₂ h₂ _ => ?_
  refine (takes_commaList takes_layoutEntry).next h₂ fun entries c₃ h₃ _ => ?_
  exact points_expectMark h₃ fun c₄ h₄ _ => points_pure ⟨h₄.weaken (Nat.zero_le _), trivial⟩

theorem takes_storageWithin (length : Nat) (found : Option Storage) :
    Takes G (storageWithin length found) (fun _ => 0) fun _ => True := by
  induction length generalizing found with
  | zero => exact fun c hc => points_pure ⟨hc.to_self, trivial⟩
  | succ length ih =>
    intro c hc
    refine points_peek ?_
    split
    · exact points_skip hc.to_self fun h₁ => (ih found).last h₁ fun _ _ h₂ _ => ⟨h₂, trivial⟩
    · split
      · exact points_skip hc.to_self fun h₁ => (ih _).last h₁ fun _ _ h₂ _ => ⟨h₂, trivial⟩
      · exact points_fail hc.to_self
    · exact points_pure ⟨hc.to_self, trivial⟩

theorem takes_storage : Takes G storage (fun _ => 0) fun _ => True :=
  fun c hc => points_get (takes_storageWithin _ none c hc)

theorem takes_head : Takes G head (fun _ => 2) (Head.Marked G) := by
  intro c hc
  refine takes_layout.next hc.to_self fun layout c₁ h₁ _ => ?_
  refine takes_storage.next h₁ fun storage c₂ h₂ _ => points_isNext ?_
  simp only []
  split
  · exact points_fail_bind h₂
  · refine takes_typeName.next h₂ fun type c₃ h₃ htype => ?_
    refine points_expectName h₃ fun name c₄ h₄ hname => ?_
    exact points_pure ⟨h₄.weaken (by omega), htype, hname.marked⟩

theorem takes_arrayLength : Takes G arrayLength (fun _ => 0) G.Length := by
  intro c hc
  refine points_eat hc.to_self (fun c₁ h₁ => ?_) (points_pure ⟨hc.to_self, nofun⟩)
  refine points_peek ?_
  split
  · rename_i length hpeek
    refine points_advance h₁ hpeek fun h₂ _ => points_expectMark h₂ fun c₃ h₃ _ => ?_
    refine points_pure ⟨h₃.weaken (Nat.zero_le _), ?_⟩
    rintro _ ⟨⟩
    exact ⟨length, h₁.sound.token hpeek, rfl⟩
  · exact points_fail h₁

theorem takes_semantic (d : Dialect) : Takes G (semantic d) (fun _ => 0) fun _ => True := by
  intro c hc
  unfold semantic
  split
  · refine points_eat hc.to_self (fun c₁ h₁ => ?_) (points_pure ⟨hc.to_self, trivial⟩)
    exact points_expectName h₁ fun name c₂ h₂ _ => points_pure ⟨h₂.weaken (Nat.zero_le _), trivial⟩
  · exact points_pure ⟨hc.to_self, trivial⟩

section Variables

variable {d : Dialect} {expression : Parser Expr}
  (h : Takes G expression Expr.weight fun e => e.Read G)
include h

theorem takes_declaratorTail {name : Located String} (hname : G.Marked name.span) :
    Takes G (declaratorTail d expression name) (·.weight - 1) fun x => x.Read G := by
  intro c hc
  refine takes_arrayLength.next hc.to_self fun length c₁ h₁ hlength => ?_
  refine (takes_semantic d).next h₁ fun semantic c₂ h₂ _ => points_eat h₂ (fun c₃ h₃ => ?_) ?_
  · simp only [if_true, map_eq_pure_bind, bind_assoc, pure_bind]
    refine h.next h₃ fun value c₄ h₄ hvalue => points_pure ⟨h₄.weaken ?_, hlength, ?_, hname⟩
    · simp only [Ast.Declarator.weight, Expr.optionWeight, Option.map_some, Option.getD_some]
      omega
    · rintro _ ⟨⟩
      exact hvalue
  · exact points_pure ⟨h₂, hlength, nofun, hname⟩

omit h in
theorem sum_map_declarator (ds : List Ast.Declarator) :
    (ds.map Ast.Declarator.weight).sum = Ast.Declarator.weightAll ds := by
  induction ds with
  | nil => rfl
  | cons first rest ih => rw [List.map_cons, List.sum_cons, ih, Ast.Declarator.weightAll]

theorem takes_declarator :
    Takes G (do declaratorTail d expression (← expectName .declaration)) Ast.Declarator.weight
      fun x => x.Read G := by
  intro c hc
  refine points_expectName hc.to_self fun name c₁ h₁ hname => ?_
  refine (takes_declaratorTail h hname.marked).last h₁ fun x c₂ h₂ hx => ⟨h₂.weaken ?_, hx⟩
  unfold Ast.Declarator.weight
  omega

theorem takes_declarators {head : Head} (hhead : head.Marked G) :
    Takes G (declarators d expression head) (·.weight - 1) fun v => v.Read G := by
  intro c hc
  refine (takes_declaratorTail h hhead.name).next hc.to_self fun first c₁ h₁ hfirst => ?_
  refine points_eat h₁ (fun c₂ h₂ => ?_) ?_
  · refine (takes_commaList (takes_declarator h)).next h₂ fun more c₃ h₃ hmore => ?_
    refine points_expectMark h₃ fun c₄ h₄ _ => points_pure ⟨h₄.weaken ?_, hhead.type, ?_⟩
    · rw [sum_map_declarator]
      simp only [Ast.Variables.weight, Ast.Declarator.weightAll]
      omega
    · exact List.forall_mem_cons.mpr ⟨hfirst, hmore⟩
  · simp only [Bool.false_eq_true, if_false, pure_bind]
    refine points_expectMark h₁ fun c₂ h₂ _ => points_pure ⟨h₂.weaken ?_, hhead.type, ?_⟩
    · simp only [Ast.Variables.weight, Ast.Declarator.weightAll]
      omega
    · exact List.forall_mem_singleton.mpr hfirst

end Variables

theorem sum_map_one {α : Type} (l : List α) : (l.map fun _ => 1).sum = l.length := by
  rw [List.map_const', List.sum_replicate_nat, Nat.mul_one]

section Members

variable (d : Dialect) (owner : MemberOwner)

theorem takes_member {type : Located String} (htype : G.Marked type.span) :
    Takes G (member d owner type) (fun _ => 1) fun m => m.Read G := by
  intro c hc
  refine points_expectName hc.to_self fun name c₁ h₁ hname => ?_
  refine takes_arrayLength.next h₁ fun length c₂ h₂ hlength => ?_
  refine (takes_semantic d).next h₂ fun semantic c₃ h₃ _ => points_isNext ?_
  simp only []
  split
  · exact points_fail_bind h₃
  · exact points_pure ⟨h₃, htype, hlength, hname.marked⟩

theorem takes_membersWithin (length : Nat) :
    Takes G (membersWithin d owner length) List.length fun found => ∀ m ∈ found, m.Read G := by
  induction length with
  | zero => exact fun c hc => points_fail hc.to_self
  | succ length ih =>
    intro c hc
    refine points_peek ?_
    split
    · exact points_fail hc.to_self
    · exact points_skip hc.to_self fun h₁ => points_pure ⟨h₁, List.forall_mem_nil _⟩
    · refine takes_typeName.next hc.to_self fun type c₁ h₁ htype => ?_
      refine (takes_commaList (takes_member d owner htype)).next h₁ fun found c₂ h₂ hfound => ?_
      refine points_expectMark h₂ fun c₃ h₃ _ => ih.next h₃ fun more c₄ h₄ hmore => ?_
      refine points_pure ⟨h₄.weaken ?_, List.forall_mem_append.mpr ⟨hfound, hmore⟩⟩
      rw [sum_map_one, List.length_append]
      omega

theorem takes_members :
    Takes G (members d owner) List.length fun found => ∀ m ∈ found, m.Read G := by
  intro c hc
  refine points_expectMark hc.to_self fun c₁ h₁ _ => points_get ?_
  exact (takes_membersWithin d owner _).last h₁ fun found c₂ h₂ hfound =>
    ⟨h₂.weaken (Nat.le_add_left _ _), hfound⟩

theorem points_structDeclaration {c : Cursor} (hc : c.Sound G)
    (hpeek : c.peek = some (.keyword .struct)) :
    Points G c (structDeclaration d) fun s c' =>
      c.To G (s.members.length + 1) c' ∧ s.Read G := by
  refine points_here (points_advance hc.to_self hpeek fun h₁ hspan => ?_)
  refine points_expectName h₁ fun name c₂ h₂ _ => ?_
  refine (takes_members d .struct).next h₂ fun members c₃ h₃ hmembers => ?_
  simp only []
  split
  · exact points_failAt_bind hc.within_here
  · rename_i hnonempty
    refine points_eat h₃ (fun c₄ h₄ => ?_) ?_
    · refine points_pure ⟨h₄.weaken (by simp only []; omega), ?_, hmembers, hspan.marked⟩
      exact fun hempty => hnonempty (List.isEmpty_iff.mpr hempty)
    · exact points_behind (points_peek (points_failAt_bind h₃.sound.within_behind))

theorem takes_register : Takes G register (fun _ => 0) fun _ => True := by
  intro c hc
  refine points_eat hc.to_self (fun c₁ h₁ => ?_) (points_pure ⟨hc.to_self, trivial⟩)
  refine points_expectName h₁ fun word c₂ h₂ hword => ?_
  simp only []
  split
  · exact points_failAt_bind hword.marked.within
  · refine points_expectMark h₂ fun c₃ h₃ _ => points_expectName h₃ fun slot c₄ h₄ _ => ?_
    exact points_expectMark h₄ fun c₅ h₅ _ => points_pure ⟨h₅.weaken (Nat.zero_le _), trivial⟩

theorem points_bufferDeclaration {c : Cursor} (hc : c.Sound G)
    (hpeek : c.peek = some (.keyword .cbuffer)) :
    Points G c (bufferDeclaration d) fun b c' =>
      c.To G (b.members.length + 1) c' ∧ ∀ m ∈ b.members, m.Read G := by
  refine points_advance hc.to_self hpeek fun h₁ _ => points_expectName h₁ fun name c₂ h₂ _ => ?_
  refine takes_register.next h₂ fun register c₃ h₃ _ => ?_
  refine (takes_members d .cbuffer).next h₃ fun members c₄ h₄ hmembers => ?_
  refine (takes_eat _).next h₄ fun _ c₅ h₅ _ => points_pure ⟨h₅.weaken ?_, hmembers⟩
  simp only []
  omega

end Members

section Parameters

theorem takes_parameterQualifiersWithin (length : Nat) (isConst : Bool) (found : Option Passing) :
    Takes G (parameterQualifiersWithin length isConst found) (fun _ => 0) fun _ => True := by
  induction length generalizing isConst found with
  | zero => exact fun c hc => points_pure ⟨hc.to_self, trivial⟩
  | succ length ih =>
    intro c hc
    have hmore : ∀ isConst found, c.To G 0 c.advance → Points G c.advance
        (parameterQualifiersWithin length isConst found) fun _ c' => c.To G 0 c' ∧ True :=
      fun isConst found h₁ => (ih isConst found).last h₁ fun _ _ h₂ _ => ⟨h₂, trivial⟩
    refine points_peek ?_
    split
    · exact points_skip hc.to_self (hmore true found)
    · exact points_skip hc.to_self (hmore isConst found)
    · split
      · rename_i next _
        simp only []
        split
        · exact points_fail_bind hc.to_self
        · exact points_skip hc.to_self (hmore isConst (some next))
      · exact points_pure ⟨hc.to_self, trivial⟩
    · exact points_pure ⟨hc.to_self, trivial⟩

theorem takes_optionalName : Takes G optionalName (fun _ => 0) fun _ => True := by
  intro c hc
  refine points_peek ?_
  split
  · exact points_skip hc.to_self fun h₁ => points_pure ⟨h₁, trivial⟩
  · exact points_pure ⟨hc.to_self, trivial⟩

variable (d : Dialect)

theorem takes_parameter : Takes G (parameter d) (fun _ => 1) fun p => p.Read G := by
  intro c hc
  refine points_here (points_get ?_)
  refine (takes_parameterQualifiersWithin _ false none).next hc.to_self fun found c₁ h₁ _ => ?_
  obtain ⟨isConst, found⟩ := found
  simp only []
  split
  · exact points_failAt_bind hc.within_here
  · refine takes_typeName.next h₁ fun type c₂ h₂ htype => ?_
    refine takes_optionalName.next h₂ fun name c₃ h₃ _ => ?_
    refine takes_arrayLength.next h₃ fun length c₄ h₄ hlength => ?_
    refine (takes_semantic d).next h₄ fun semantic c₅ h₅ _ => points_behind (points_pure ?_)
    exact ⟨h₅, htype, hlength, (h₅.between_through_behind (by omega) hc).marked⟩

theorem takes_parameters :
    Takes G (parameters d) List.length fun found => ∀ p ∈ found, p.Read G := by
  intro c hc
  refine points_eat hc.to_self (fun c₁ h₁ => ?_) (points_get ?_)
  · exact points_pure ⟨h₁.weaken (Nat.zero_le _), List.forall_mem_nil _⟩
  · simp only []
    split
    · exact points_skip hc.to_self fun h₁ => points_skip h₁ fun h₂ =>
        points_pure ⟨h₂, List.forall_mem_nil _⟩
    · refine (takes_commaList (takes_parameter d)).next hc.to_self fun found c₁ h₁ hfound => ?_
      refine points_expectMark h₁ fun c₂ h₂ _ => points_pure ⟨h₂.weaken ?_, hfound⟩
      rw [sum_map_one]
      omega

end Parameters

/-! ## Statements -/

open Ast (Simple Statement)

theorem points_startsDeclaration {β : Type} {c : Cursor} {f : Bool → Parser β}
    {Q : β → Cursor → Prop} (h : ∀ answer, Points G c (f answer) Q) :
    Points G c (startsDeclaration >>= f) Q := by
  unfold startsDeclaration
  simp only [bind_assoc]
  refine points_get ?_
  split
  · exact h true
  · exact h true
  · exact h true
  · exact h true
  · split
    · exact h true
    · exact h false
  · exact h false

theorem takes_expectWhile : Takes G expectWhile (fun _ => 1) fun _ => True := by
  intro c hc
  refine points_eat hc.to_self (fun c₁ h₁ => ?_) (points_peek (points_fail hc.to_self))
  exact points_pure ⟨h₁, trivial⟩

section Expressions

variable {d : Dialect} {expression : Parser Expr}
  (h : Takes G expression Expr.weight fun e => e.Read G)
include h

theorem takes_simple : Takes G (simple d expression) (·.weight + 1) fun s => s.Read G := by
  intro c hc
  refine points_startsDeclaration fun answer => ?_
  cases answer with
  | true =>
    refine takes_head.next hc.to_self fun head c₁ h₁ hhead => ?_
    refine (takes_declarators h hhead).next h₁ fun v c₂ h₂ hv => points_pure ⟨h₂.weaken ?_, hv⟩
    simp only [Simple.weight, Ast.Variables.weight]
    omega
  | false =>
    refine h.next hc.to_self fun value c₁ h₁ hvalue => points_expectMark h₁ fun c₂ h₂ _ => ?_
    refine points_pure ⟨h₂.weaken ?_, hvalue⟩
    simp only [Simple.weight]
    omega

theorem takes_condition :
    Takes G (condition expression) (·.weight + 1) fun e => e.Read G := by
  intro c hc
  refine points_expectMark hc.to_self fun c₁ h₁ _ => h.next h₁ fun found c₂ h₂ hfound => ?_
  refine points_expectMark h₂ fun c₃ h₃ _ => points_pure ⟨h₃.weaken ?_, hfound⟩
  exact Nat.succ_le_succ (Nat.le_add_left _ _)

theorem takes_optionalUpTo (mark : Punct) : Takes G (optionalUpTo mark expression)
    (Expr.optionWeight · + 1) fun found => ∀ e ∈ found, e.Read G := by
  intro c hc
  refine points_isNext ?_
  split
  · simp only [pure_bind]
    exact points_expectMark hc.to_self fun c₁ h₁ _ => points_pure ⟨h₁, nofun⟩
  · simp only [map_eq_pure_bind, bind_assoc, pure_bind]
    refine h.next hc.to_self fun value c₁ h₁ hvalue => points_expectMark h₁ fun c₂ h₂ _ => ?_
    refine points_pure ⟨h₂.weaken ?_, ?_⟩
    · simp only [Expr.optionWeight, Option.map_some, Option.getD_some]
      omega
    · rintro _ ⟨⟩
      exact hvalue

theorem takes_forStart : Takes G (forStart d expression)
    (fun start => (start.map fun s => s.value.weight).getD 0)
    fun start => ∀ s ∈ start, G.Marked s.span ∧ s.value.Read G := by
  intro c hc
  refine points_eat hc.to_self (fun c₁ h₁ => ?_) (points_here ?_)
  · exact points_pure ⟨h₁.weaken (Nat.zero_le _), nofun⟩
  · refine (takes_simple h).next hc.to_self fun found c₁ h₁ hfound => points_behind ?_
    refine points_pure ⟨h₁.weaken ?_, ?_⟩
    · simp only [Option.map_some, Option.getD_some]
      omega
    · rintro _ ⟨⟩
      exact ⟨(h₁.between_through_behind (by omega) hc).marked, hfound⟩

end Expressions

section Bodies

variable {inner : Parser Statement}
  (h : Takes G inner Statement.weight fun s => s.Read G)
include h

theorem points_statementsWithin (length : Nat) {c₀ c : Cursor} {n : Nat} (h₀ : c₀.To G n c) :
    Points G c (statementsWithin inner length) fun found c' =>
      c₀.To G (n + Statement.weightAll found.1 + 1) c' ∧ Statement.ReadAll G found.1
        ∧ G.Within found.2 ∧ found.2.stop = c'.back := by
  induction length generalizing c n with
  | zero => exact points_fail h₀
  | succ length ih =>
    refine points_peek ?_
    split
    · exact points_fail h₀
    · rename_i hpeek
      refine points_here (points_advance h₀ hpeek fun h₁ hspan => points_pure ?_)
      obtain ⟨span, rest, hrest, -⟩ := Cursor.rest_of_peek hpeek
      exact ⟨h₁, trivial, hspan.marked.within, by
        simp [Cursor.here, Cursor.advance, Cursor.back, hrest]⟩
    · refine h.next h₀ fun first c₁ h₁ hfirst => ?_
      refine (ih h₁).bind fun found c₂ hfound => ?_
      obtain ⟨h₂, hall, hclose, hstop⟩ := hfound
      refine points_pure ⟨h₂.weaken ?_, ⟨hfirst, hall⟩, hclose, hstop⟩
      simp only [Statement.weightAll]
      omega

theorem takes_body :
    Takes G (body inner) (fun b => Statement.weightAll b.statements + 1) fun b => b.Read G := by
  intro c hc
  refine points_expectMark hc.to_self fun c₁ h₁ hopen => points_get ?_
  refine (points_statementsWithin h _ h₁).bind fun found c₂ hfound => ?_
  obtain ⟨h₂, hall, hclose, hstop⟩ := hfound
  refine points_pure ⟨h₂.weaken (Nat.succ_le_succ (Nat.le_add_left _ _)), ?_, hall⟩
  exact (h₂.between_through (by omega) hc hclose hstop).marked

end Bodies

/-- What is read of a statement, up to the last token before a cursor. -/
theorem points_node {c c' : Cursor} {n : Nat} {node : Span → Statement} (hc : c.Sound G)
    (h : c.To G n c') (hn : 0 < n) (hweight : ∀ span, (node span).weight ≤ n)
    (hnode : ∀ span, G.Marked span → (node span).Read G) :
    Points G c' (do return node (c.here.through (← behind))) fun s c'' =>
      c.To G s.weight c'' ∧ s.Read G :=
  points_behind (points_pure ⟨h.weaken (hweight _),
    hnode _ (h.between_through_behind hn hc).marked⟩)

theorem points_keywordStatement {c : Cursor} {kind : TokenKind} {node : Span → Statement}
    (hc : c.Sound G) (hpeek : c.peek = some kind)
    (hnode : ∀ span, (node span).weight = 1 ∧ ((node span).Read G ↔ G.Marked span)) :
    Points G c (do
      advance
      let _ ← expectMark .semicolon
      return node (c.here.through (← behind))) fun s c' => c.To G s.weight c' ∧ s.Read G := by
  refine points_advance hc.to_self hpeek fun h₁ _ => points_expectMark h₁ fun c₂ h₂ _ => ?_
  refine points_node hc h₂ (by omega) (fun span => ?_) fun span => (hnode span).2.mpr
  have hweight := (hnode span).1
  omega

/-- The expressions of a statement are read with a smaller budget. -/
theorem takes_statement (d : Dialect) (budget : Nat) (hbudget : budget ≤ nestingLimit) :
    Takes G (statement d budget) Statement.weight fun s => s.Read G := by
  induction budget with
  | zero => exact fun c hc => points_fail hc.to_self
  | succ budget ih =>
    have hless := Nat.le_of_succ_le hbudget
    have hexpr := takes_expression (G := G) hless
    have ih := ih hless
    intro c hc
    refine points_here (points_peek ?_)
    -- A block, an empty statement, `if`, `while`, `do`, `for`, `return`, single keywords, the rest.
    split
    · refine (takes_body ih).next hc.to_self fun found c₁ h₁ hfound => ?_
      refine points_node hc h₁ (by omega) (fun span => ?_)
        fun span hspan => ⟨hspan, hfound.statements⟩
      rw [Statement.weight]
      omega
    · rename_i hpeek
      refine points_advance hc.to_self hpeek fun h₁ _ => ?_
      exact points_node hc h₁ (by omega) (fun span => Nat.le_refl _) fun span hspan => hspan
    · rename_i hpeek
      refine points_advance hc.to_self hpeek fun h₁ _ => ?_
      refine (takes_condition hexpr).next h₁ fun test c₂ h₂ htest => ?_
      refine ih.next h₂ fun whenTrue c₃ h₃ htrue => points_eat h₃ (fun c₄ h₄ => ?_) ?_
      · refine ih.next h₄ fun whenFalse c₅ h₅ hfalse => ?_
        refine points_node hc h₅ (by omega) (fun span => ?_)
          fun span hspan => ⟨hspan, htest, htrue, hfalse⟩
        rw [Statement.weight]
        omega
      · refine points_node hc h₃ (by omega) (fun span => ?_) fun span hspan => ⟨hspan, htest, htrue⟩
        rw [Statement.weight]
        omega
    · rename_i hpeek
      refine points_advance hc.to_self hpeek fun h₁ _ => ?_
      refine (takes_condition hexpr).next h₁ fun test c₂ h₂ htest => ?_
      refine ih.next h₂ fun inner c₃ h₃ hinner => ?_
      refine points_node hc h₃ (by omega) (fun span => ?_) fun span hspan => ⟨hspan, htest, hinner⟩
      rw [Statement.weight]
      omega
    · rename_i hpeek
      refine points_advance hc.to_self hpeek fun h₁ _ => ?_
      refine ih.next h₁ fun inner c₂ h₂ hinner => ?_
      refine takes_expectWhile.next h₂ fun _ c₃ h₃ _ => ?_
      refine (takes_condition hexpr).next h₃ fun test c₄ h₄ htest => ?_
      refine points_expectMark h₄ fun c₅ h₅ _ => ?_
      refine points_node hc h₅ (by omega) (fun span => ?_) fun span hspan => ⟨hspan, hinner, htest⟩
      rw [Statement.weight]
      omega
    · rename_i hpeek
      refine points_advance hc.to_self hpeek fun h₁ _ => points_expectMark h₁ fun c₂ h₂ _ => ?_
      refine (takes_forStart hexpr).next h₂ fun first c₃ h₃ hfirst => ?_
      refine (takes_optionalUpTo hexpr .semicolon).next h₃ fun test c₄ h₄ htest => ?_
      refine (takes_optionalUpTo hexpr .closeParen).next h₄ fun step c₅ h₅ hstep => ?_
      refine ih.next h₅ fun inner c₆ h₆ hinner => ?_
      refine points_node hc h₆ (by omega) (fun span => ?_)
        fun span hspan => ⟨hspan, hfirst, htest, hstep, hinner⟩
      rw [Statement.weight]
      omega
    · rename_i hpeek
      refine points_advance hc.to_self hpeek fun h₁ _ => ?_
      refine (takes_optionalUpTo hexpr .semicolon).next h₁ fun value c₂ h₂ hvalue => ?_
      refine points_node hc h₂ (by omega) (fun span => ?_) fun span hspan => ⟨hspan, hvalue⟩
      rw [Statement.weight]
      omega
    · rename_i hpeek
      exact points_keywordStatement hc hpeek fun _ => ⟨rfl, Iff.rfl⟩
    · rename_i hpeek
      exact points_keywordStatement hc hpeek fun _ => ⟨rfl, Iff.rfl⟩
    · rename_i hpeek
      exact points_keywordStatement hc hpeek fun _ => ⟨rfl, Iff.rfl⟩
    · exact points_failAt hc.within_here
    · refine (takes_simple hexpr).next hc.to_self fun found c₁ h₁ hfound => ?_
      refine points_node hc h₁ (by omega) (fun span => ?_) fun span hspan => ⟨hspan, hfound⟩
      rw [Statement.weight]
      omega

/-! ## Functions and sources -/

section Sources

variable {d : Dialect}

theorem takes_functionBody : Takes G (functionBody d)
    (fun found => (found.map fun b => Statement.weightAll b.statements).getD 0 + 1)
    fun found => ∀ b ∈ found, b.Read G := by
  intro c hc
  refine points_eat hc.to_self (fun c₁ h₁ => ?_) (points_isNext ?_)
  · exact points_pure ⟨h₁, nofun⟩
  · simp only []
    split
    · simp only [map_eq_pure_bind]
      refine (takes_body (takes_statement d nestingLimit (Nat.le_refl _))).next hc.to_self
        fun found c₁ h₁ hfound => points_pure ⟨h₁.weaken ?_, ?_⟩
      · simp only [Option.map_some, Option.getD_some]
        omega
      · rintro _ ⟨⟩
        exact hfound
    · exact points_peek (points_fail hc.to_self)

theorem takes_function {head : Head} (hhead : head.Marked G) :
    Takes G (function d head) Ast.Function.weight fun f => f.Read G := by
  intro c hc
  unfold function
  simp only []
  split
  · exact points_failAt_bind hhead.type.within
  · split
    · refine points_expectMark hc.to_self fun c₁ h₁ _ => ?_
      refine (takes_parameters d).next h₁ fun parameters c₂ h₂ hparameters => ?_
      refine (takes_semantic d).next h₂ fun semantic c₃ h₃ _ => ?_
      refine takes_functionBody.next h₃ fun body c₄ h₄ hbody => ?_
      refine points_pure ⟨h₄.weaken ?_, hhead.type, hparameters, hbody, hhead.name⟩
      simp only [Ast.Function.weight]
      omega
    · exact points_failAt_bind hhead.type.within

theorem takes_precision : Takes G precision (fun _ => 1) fun _ => True := by
  intro c hc
  refine points_skip hc.to_self fun h₁ => (takes_eat _).next h₁ fun _ c₂ h₂ _ => points_peek ?_
  split
  · refine points_skip h₂ fun h₃ => points_expectMark h₃ fun c₄ h₄ _ => ?_
    exact points_pure ⟨h₄.weaken (Nat.le_add_left _ _), trivial⟩
  · exact points_fail h₂

theorem takes_headed : Takes G (headed d) Ast.Declaration.weight fun x => x.Read G := by
  intro c hc
  refine takes_head.next hc.to_self fun head c₁ h₁ hhead => points_isNext ?_
  split
  · refine (takes_function hhead).next h₁ fun f c₂ h₂ hf => ?_
    exact points_pure ⟨h₂.weaken (Nat.le_add_left _ _), hf⟩
  · refine (takes_declarators (takes_expression (Nat.le_refl _)) hhead).next h₁
      fun v c₂ h₂ hv => points_pure ⟨h₂.weaken ?_, hv⟩
    simp only [Ast.Declaration.weight, Ast.Variables.weight]
    omega

theorem takes_declarationsWithin (length : Nat) :
    Takes G (declarationsWithin d length) Ast.Declaration.weightAll
      fun found => ∀ x ∈ found, x.Read G := by
  induction length with
  | zero => exact fun c hc => points_pure ⟨hc.to_self, List.forall_mem_nil _⟩
  | succ length ih =>
    intro c hc
    have hmore : ∀ {c₁ : Cursor} {first : Ast.Declaration}, c.To G first.weight c₁ →
        first.Read G → Points G c₁ (do return first :: (← declarationsWithin d length))
          fun found c' => c.To G (Ast.Declaration.weightAll found) c' ∧ ∀ x ∈ found, x.Read G := by
      intro c₁ first h₁ hfirst
      refine ih.next h₁ fun more c₂ h₂ hall => ?_
      exact points_pure ⟨h₂, List.forall_mem_cons.mpr ⟨hfirst, hall⟩⟩
    refine points_peek ?_
    split
    · exact points_pure ⟨hc.to_self, List.forall_mem_nil _⟩
    · refine points_skip hc.to_self fun h₁ => ih.last h₁ fun found c₂ h₂ hall => ?_
      exact ⟨h₂.weaken (Nat.le_add_left _ _), hall⟩
    · refine takes_precision.next hc.to_self fun _ c₁ h₁ _ => ih.last h₁ fun found c₂ h₂ hall => ?_
      exact ⟨h₂.weaken (Nat.le_add_left _ _), hall⟩
    · rename_i hpeek
      exact (points_structDeclaration d hc hpeek).bind fun s c₁ ⟨h₁, hs⟩ => hmore h₁ hs
    · rename_i hpeek
      exact (points_bufferDeclaration d hc hpeek).bind fun b c₁ ⟨h₁, hb⟩ => hmore h₁ hb
    · refine takes_headed.next hc.to_self fun x c₁ h₁ hx => hmore ?_ hx
      exact h₁.weaken (Nat.le_add_left _ _)

end Sources

end Parser

/-! ## Trees of a source -/

theorem Span.marked_ofSource (text : List Char) (tokens : List Token) :
    (Ground.ofSource text tokens).Marked = Span.Marked text tokens := by
  funext s
  refine propext ⟨fun h => ?_, fun h => ?_⟩
  · exact ⟨⟨h.within.le, h.within.start, h.within.stop⟩, h.starts⟩
  · exact ⟨⟨h.within.le, h.within.start, h.within.stop⟩, h.token⟩

namespace Ast

variable {d : Dialect} {scanned : Scanned}

theorem points_declarations {G : Ground} (h : G.InOrder {} scanned.tokens scanned.stop) :
    Parser.Points G ⟨none, scanned.tokens, scanned.stop⟩ (Parser.declarations d) fun found _ =>
      Declaration.weightAll found ≤ scanned.tokens.length ∧ ∀ x ∈ found, x.Read G := by
  have hc : Cursor.Sound G ⟨none, scanned.tokens, scanned.stop⟩ := ⟨nofun, h⟩
  refine Parser.points_get ((Parser.takes_declarationsWithin _ _ hc).mono
    fun found c' ⟨hto, hall⟩ => ⟨?_, hall⟩)
  exact Nat.le_trans (Nat.le_add_left _ _) hto.count

theorem of_points_declarations {G : Ground} {P : List Declaration → Prop}
    {ds : List Declaration}
    (h : Parser.Points G ⟨none, scanned.tokens, scanned.stop⟩ (Parser.declarations d)
      fun found _ => P found) (hread : ofTokens d scanned = .ok ds) : P ds := by
  unfold ofTokens StateT.run' at hread
  cases hrun : Parser.declarations d ⟨none, scanned.tokens, scanned.stop⟩ with
  | error fault =>
    rw [hrun] at hread
    cases hread
  | ok found =>
    rw [hrun] at hread
    cases hread
    exact h.of_run hrun

section Faithful

variable {text : List Char} (hscanned : scanned.Faithful text {})
include hscanned

theorem read_of_ofTokens {ds : List Declaration} (h : ofTokens d scanned = .ok ds) :
    ∀ x ∈ ds, x.Read (.ofSource text scanned.tokens) := by
  have horder := Ground.inOrder_ofSource hscanned.tokens (List.Subset.refl _)
  exact (of_points_declarations (points_declarations horder) h).2

theorem spans_of_ofTokens {ds : List Declaration} (h : ofTokens d scanned = .ok ds) :
    ∀ x ∈ ds, x.Spans (Span.Marked text scanned.tokens) := by
  intro x hx
  rw [← Span.marked_ofSource]
  exact (read_of_ofTokens hscanned h x hx).spans

theorem within_of_ofTokens {fault : Located SyntaxFault}
    (h : ofTokens d scanned = .error fault) : fault.span.Within text := by
  have horder := Ground.inOrder_ofSource hscanned.tokens (List.Subset.refl _)
  obtain ⟨seen, answer, hruns, hpoints⟩ := points_declarations (d := d) horder
  have hrun : Parser.declarations d ⟨none, scanned.tokens, scanned.stop⟩ = answer := hruns.run_eq
  unfold ofTokens StateT.run' at h
  rw [hrun] at h
  cases answer with
  | error found =>
    cases h
    exact ⟨hpoints.le, hpoints.start, hpoints.stop⟩
  | ok found => cases h

end Faithful

theorem weightAll_le_tokens {ds : List Declaration} (h : ofTokens d scanned = .ok ds) :
    Declaration.weightAll ds ≤ scanned.tokens.length :=
  (of_points_declarations (points_declarations (Ground.inOrder_anyTokens _ _ _)) h).1

end Ast

theorem Scanned.length_tokens_add_le (s : Scanned) (span : Span) (piece : Piece) :
    (s.add span piece).tokens.length ≤ s.tokens.length + 1 := by
  cases piece with
  | token kind => exact Nat.le_refl _
  | _ => exact Nat.le_succ _

theorem Scans.length_tokens_le {d : Dialect} {lineStart : Bool} {p : Position}
    {source : List Char} {result : Except (Located LexFault) Scanned}
    (h : Scans d lineStart p source result) :
    ∀ s, result = .ok s → s.tokens.length ≤ source.length := by
  induction h with
  | done =>
    rintro _ ⟨⟩
    exact Nat.zero_le _
  | fault _ _ => exact nofun
  | @piece _ _ _ found piece result hfound _ _ ih =>
    obtain ⟨hne, happend⟩ := Lexeme.splits_piece? hfound
    cases result with
    | error fault => exact nofun
    | ok rest =>
      rintro _ ⟨⟩
      refine Nat.le_trans (rest.length_tokens_add_le _ piece) ?_
      have hpos := List.length_pos_iff.mpr hne
      have hrest := ih rest rfl
      rw [← happend, List.length_append]
      omega

theorem Ast.weightAll_le_length {d : Dialect} {source : String} {scanned : Scanned}
    {declarations : List Ast.Declaration} (hscan : scan d source = .ok scanned)
    (h : Ast.ofTokens d scanned = .ok declarations) :
    Ast.Declaration.weightAll declarations ≤ source.length := by
  rw [← String.length_toList]
  exact Nat.le_trans (Ast.weightAll_le_tokens h) ((scans_scan d source).length_tokens_le _ hscan)

end ShaderBytecode
