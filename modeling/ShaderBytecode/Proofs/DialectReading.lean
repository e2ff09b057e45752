import ShaderBytecode.Proofs.Reading

/-!
# Reading a source in both dialects

The grammars of the two dialects differ in the semantics behind a colon only. Without semantics no
declaration goes on behind a colon, so what is read as GLSL is read as the same tree as HLSL.
-/

namespace ShaderBytecode

namespace Parser

open Ast (Expr Simple Statement)

variable {α β : Type} {Q Q' : Cursor → Prop}

theorem exists_of_bind {p : Parser α} {f : α → Parser β} {c c'' : Cursor} {b : β}
    (h : (p >>= f).run c = .ok (b, c'')) :
    ∃ a c', p.run c = .ok (a, c') ∧ (f a).run c' = .ok (b, c'') := by
  rw [StateT.run_bind] at h
  cases hp : p.run c with
  | error fault =>
    rw [hp] at h
    cases h
  | ok found =>
    rw [hp] at h
    exact ⟨found.1, found.2, rfl, h⟩

/-- What the first parser reads the second one reads alike, unless the first one stops in a certain
kind of place. -/
def ReadsAs (Q : Cursor → Prop) (p p' : Parser α) : Prop :=
  ∀ c a c₁, p.run c = .ok (a, c₁) → p'.run c = .ok (a, c₁) ∨ Q c₁

/-- Where a parser gets to from certain places. -/
def Leads (Q : Cursor → Prop) (p : Parser α) (Q' : Cursor → Prop) : Prop :=
  ∀ c a c₁, Q c → p.run c = .ok (a, c₁) → Q' c₁

def Nowhere (_ : Cursor) : Prop :=
  False

def AtColon (c : Cursor) : Prop :=
  c.peek = some (.punct .colon)

theorem ReadsAs.refl (p : Parser α) : ReadsAs Q p p :=
  fun _ _ _ h => .inl h

variable {p p' : Parser α} {f f' : α → Parser β} {x y : Parser β}

theorem ReadsAs.bind (h : ReadsAs Q p p') (hf : ∀ a, ReadsAs Q' (f a) (f' a))
    (hleads : ∀ a, Leads Q (f a) Q') : ReadsAs Q' (p >>= f) (p' >>= f') := by
  intro c b c₂ hrun
  obtain ⟨a, c₁, hp, hrest⟩ := exists_of_bind hrun
  rcases h c a c₁ hp with hp' | hstop
  · rcases hf a c₁ b c₂ hrest with hrest' | hstop
    · left
      rw [StateT.run_bind, hp']
      exact hrest'
    · exact .inr hstop
  · exact .inr (hleads a c₁ b c₂ hstop hrest)

/-- Behind what is read alike in all places. -/
theorem ReadsAs.next (h : ReadsAs Nowhere p p') (hf : ∀ a, ReadsAs Q (f a) (f' a)) :
    ReadsAs Q (p >>= f) (p' >>= f') :=
  h.bind hf fun _ _ _ _ hstop => hstop.elim

theorem readsAs_same (p : Parser α) (hf : ∀ a, ReadsAs Q (f a) (f' a)) :
    ReadsAs Q (p >>= f) (p >>= f') :=
  (ReadsAs.refl p).next hf

theorem readsAs_ask (p : Parser Bool) {x' y' : Parser β} (htrue : ReadsAs Q x x')
    (hfalse : ReadsAs Q y y') :
    ReadsAs Q (do if ← p then x else y) (do if ← p then x' else y') := by
  refine readsAs_same p fun answer => ?_
  cases answer with
  | true => exact htrue
  | false => exact hfalse

theorem readsAs_failAt {span : Span} {fault : SyntaxFault} {p' : Parser β} :
    ReadsAs Q (failAt span fault >>= f) p' := by
  rintro _ _ _ ⟨⟩

theorem ReadsAs.map (f : α → β) (h : ReadsAs Nowhere p p') :
    ReadsAs Nowhere (f <$> p) (f <$> p') := by
  rw [map_eq_pure_bind, map_eq_pure_bind]
  exact h.next fun _ => .refl _

/-! ## Before a colon -/

theorem leads_pure (a : α) : Leads Q (pure a) Q := by
  rintro c _ _ hc ⟨⟩
  exact hc

theorem leads_behind {f : Span → Parser β} (h : ∀ s, Leads Q (f s) Q') :
    Leads Q (behind >>= f) Q' :=
  fun c b c₂ hc hrun => h c.behind c b c₂ hc hrun

theorem leads_isNext {kind : TokenKind} (hkind : kind ≠ .punct .colon) (h : Leads AtColon y Q) :
    Leads AtColon (do if ← isNext kind then x else y) Q := by
  intro c b c₂ hc hrun
  refine h c b c₂ hc ?_
  have hother : ¬decide (c.peek = some kind) = true := by
    rw [show c.peek = _ from hc, decide_eq_true_iff]
    exact fun heq => hkind (Option.some.inj heq).symm
  change (if decide (c.peek = some kind) = true then x else y).run c = _ at hrun
  rwa [if_neg hother] at hrun

theorem leads_eatMark {mark : Punct} (hmark : mark ≠ .colon) (h : Leads AtColon y Q) :
    Leads AtColon (do if ← eatMark mark then x else y) Q := by
  intro c b c₂ hc hrun
  obtain ⟨answer, c₁, heat, hrest⟩ := exists_of_bind hrun
  have hfound := run_eat heat
  cases answer with
  | true =>
    rw [hc] at hfound
    cases hfound.1
    exact absurd rfl hmark
  | false =>
    obtain ⟨-, rfl⟩ := hfound
    exact h c₁ b c₂ hc hrest

theorem leads_expectMark {mark : Punct} {f : Span → Parser β} (hmark : mark ≠ .colon) :
    Leads AtColon (expectMark mark >>= f) Q := by
  intro c b c₂ hc hrun
  have hstops : Points .anyTokens c (expectMark mark >>= f) fun _ _ => False := by
    refine points_expectMarkAt c.sound_anyTokens.to_self fun hpeek _ _ => ?_
    rw [hc] at hpeek
    cases hpeek
    exact absurd rfl hmark
  exact (hstops.of_run hrun).elim

/-! ## Declarations -/

theorem readsAs_semantic : ReadsAs AtColon (semantic .glsl) (semantic .hlsl) := by
  rintro c _ _ ⟨⟩
  by_cases hcolon : c.peek = some (.punct .colon)
  · exact .inr hcolon
  · left
    show (eatMark .colon >>= _ : Parser _).run c = _
    rw [StateT.run_bind, eatMark, run_eat_of_ne hcolon]
    rfl

theorem readsAs_commaListWithin {item item' : Parser α} (h : ReadsAs AtColon item item')
    (length : Nat) :
    ReadsAs AtColon (commaListWithin item length) (commaListWithin item' length) := by
  induction length with
  | zero => exact h.bind (fun _ => .refl _) fun _ => leads_pure _
  | succ length ih =>
    refine h.bind (fun first => readsAs_ask _ ?_ (.refl _)) fun first =>
      leads_eatMark nofun (leads_pure _)
    exact ih.bind (fun _ => .refl _) fun _ => leads_pure _

theorem readsAs_commaList {item item' : Parser α} (h : ReadsAs AtColon item item') :
    ReadsAs AtColon (commaList item) (commaList item') :=
  readsAs_same get fun c => readsAs_commaListWithin h c.rest.length

theorem readsAs_declaratorTail (expression : Parser Expr) (name : Located String) :
    ReadsAs AtColon (declaratorTail .glsl expression name)
      (declaratorTail .hlsl expression name) :=
  readsAs_same arrayLength fun _ => readsAs_semantic.bind (fun _ => .refl _) fun _ =>
    leads_eatMark nofun (leads_pure _)

theorem readsAs_declarators (expression : Parser Expr) (head : Head) :
    ReadsAs Nowhere (declarators .glsl expression head) (declarators .hlsl expression head) := by
  refine (readsAs_declaratorTail expression head.name).bind
    (fun first => readsAs_ask (eatMark .comma) ?_ (.refl _)) fun first => leads_eatMark nofun ?_
  · have hitem := readsAs_same (expectName .declaration) (readsAs_declaratorTail expression)
    exact (readsAs_commaList hitem).bind (fun _ => .refl _) fun _ => leads_expectMark nofun
  · rw [pure_bind]
    exact leads_expectMark nofun

theorem readsAs_member (owner : MemberOwner) (type : Located String) :
    ReadsAs AtColon (member .glsl owner type) (member .hlsl owner type) :=
  readsAs_same (expectName .member) fun _ => readsAs_same arrayLength fun _ =>
    readsAs_semantic.bind (fun _ => .refl _) fun _ => leads_isNext nofun (leads_pure _)

theorem readsAs_membersWithin (owner : MemberOwner) (length : Nat) :
    ReadsAs Nowhere (membersWithin .glsl owner length) (membersWithin .hlsl owner length) := by
  induction length with
  | zero => exact .refl _
  | succ length ih =>
    refine readsAs_same peek fun found => ?_
    split
    · exact .refl _
    · exact .refl _
    · refine readsAs_same typeName fun type => (readsAs_commaList (readsAs_member owner type)).bind
        (fun _ => readsAs_same _ fun _ => ?_) fun _ => leads_expectMark nofun
      exact ih.next fun _ => .refl _

theorem readsAs_members (owner : MemberOwner) :
    ReadsAs Nowhere (members .glsl owner) (members .hlsl owner) :=
  readsAs_same (expectMark .openBrace) fun _ => readsAs_same get fun c =>
    readsAs_membersWithin owner c.rest.length

theorem readsAs_structDeclaration :
    ReadsAs Nowhere (structDeclaration .glsl) (structDeclaration .hlsl) :=
  readsAs_same here fun _ => readsAs_same advance fun _ =>
    readsAs_same (expectName .struct) fun _ => (readsAs_members .struct).next fun _ => .refl _

theorem readsAs_bufferDeclaration :
    ReadsAs Nowhere (bufferDeclaration .glsl) (bufferDeclaration .hlsl) :=
  readsAs_same advance fun _ => readsAs_same (expectName .cbuffer) fun _ =>
    readsAs_same register fun _ => (readsAs_members .cbuffer).next fun _ => .refl _

theorem readsAs_parameter : ReadsAs AtColon (parameter .glsl) (parameter .hlsl) := by
  refine readsAs_same here fun start => readsAs_same get fun c =>
    readsAs_same (parameterQualifiersWithin c.rest.length false none) fun found => ?_
  obtain ⟨isConst, found⟩ := found
  simp only []
  split
  · exact .refl _
  · exact readsAs_same typeName fun _ => readsAs_same optionalName fun _ =>
      readsAs_same arrayLength fun _ => readsAs_semantic.bind (fun _ => .refl _) fun _ =>
        leads_behind fun _ => leads_pure _

theorem readsAs_parameters : ReadsAs Nowhere (parameters .glsl) (parameters .hlsl) :=
  readsAs_ask (eatMark .closeParen) (.refl _) <| readsAs_ask isVoidList (.refl _) <|
    (readsAs_commaList readsAs_parameter).bind (fun _ => .refl _) fun _ => leads_expectMark nofun

/-! ## Statements -/

theorem readsAs_simple (expression : Parser Expr) :
    ReadsAs Nowhere (simple .glsl expression) (simple .hlsl expression) :=
  readsAs_ask startsDeclaration
    (readsAs_same head fun found => (readsAs_declarators expression found).next fun _ => .refl _)
    (.refl _)

theorem readsAs_forStart (expression : Parser Expr) :
    ReadsAs Nowhere (forStart .glsl expression) (forStart .hlsl expression) :=
  readsAs_ask (eatMark .semicolon) (.refl _) <| readsAs_same here fun _ =>
    (readsAs_simple expression).next fun _ => .refl _

theorem readsAs_statementsWithin {inner inner' : Parser Statement}
    (h : ReadsAs Nowhere inner inner') (length : Nat) :
    ReadsAs Nowhere (statementsWithin inner length) (statementsWithin inner' length) := by
  induction length with
  | zero => exact .refl _
  | succ length ih =>
    refine readsAs_same peek fun found => ?_
    split
    · exact .refl _
    · exact .refl _
    · exact h.next fun _ => ih.next fun _ => .refl _

theorem readsAs_body {inner inner' : Parser Statement} (h : ReadsAs Nowhere inner inner') :
    ReadsAs Nowhere (body inner) (body inner') :=
  readsAs_same (expectMark .openBrace) fun _ => readsAs_same get fun c =>
    (readsAs_statementsWithin h c.rest.length).next fun _ => .refl _

theorem readsAs_statement (budget : Nat) :
    ReadsAs Nowhere (statement .glsl budget) (statement .hlsl budget) := by
  induction budget with
  | zero => exact .refl _
  | succ budget ih =>
    refine readsAs_same here fun start => readsAs_same peek fun found => ?_
    split
    · exact (readsAs_body ih).next fun _ => .refl _
    · exact .refl _
    · exact readsAs_same advance fun _ => readsAs_same (condition _) fun _ => ih.next fun _ =>
        readsAs_ask (eat (.keyword .elseThen)) (ih.next fun _ => .refl _) (.refl _)
    · exact readsAs_same advance fun _ => readsAs_same (condition _) fun _ =>
        ih.next fun _ => .refl _
    · exact readsAs_same advance fun _ => ih.next fun _ => .refl _
    · exact readsAs_same advance fun _ => readsAs_same (expectMark .openParen) fun _ =>
        (readsAs_forStart _).next fun _ => readsAs_same (optionalUpTo .semicolon _) fun _ =>
          readsAs_same (optionalUpTo .closeParen _) fun _ => ih.next fun _ => .refl _
    · exact .refl _
    · exact .refl _
    · exact .refl _
    · exact .refl _
    · exact .refl _
    · exact (readsAs_simple _).next fun _ => .refl _

/-! ## Sources -/

theorem readsAs_functionBody : ReadsAs Nowhere (functionBody .glsl) (functionBody .hlsl) :=
  readsAs_ask (eatMark .semicolon) (.refl _) <| readsAs_ask (isNext (.punct .openBrace))
    ((readsAs_body (readsAs_statement nestingLimit)).map some) (.refl _)

/-- No body starts with a colon, and no prototype ends with one. -/
theorem leads_functionBody : Leads AtColon (functionBody .glsl) Nowhere := by
  refine leads_eatMark nofun (leads_isNext nofun ?_)
  rintro c _ _ - ⟨⟩

theorem readsAs_function (head : Head) :
    ReadsAs Nowhere (function .glsl head) (function .hlsl head) := by
  unfold function
  cases head.storage with
  | some storage => exact readsAs_failAt
  | none =>
    cases head.layout.isEmpty with
    | false => exact readsAs_failAt
    | true =>
      refine readsAs_same (expectMark .openParen) fun _ => readsAs_parameters.next fun _ =>
        readsAs_semantic.bind (fun _ => readsAs_functionBody.next fun _ => .refl _) fun _ => ?_
      intro c a c₂ hc hrun
      obtain ⟨body, c₁, hbody, -⟩ := exists_of_bind hrun
      exact (leads_functionBody c body c₁ hc hbody).elim

theorem readsAs_headed : ReadsAs Nowhere (headed .glsl) (headed .hlsl) :=
  readsAs_same head fun found => readsAs_ask (isNext (.punct .openParen))
    ((readsAs_function found).next fun _ => .refl _)
    ((readsAs_declarators _ found).next fun _ => .refl _)

theorem readsAs_declarationsWithin (length : Nat) :
    ReadsAs Nowhere (declarationsWithin .glsl length) (declarationsWithin .hlsl length) := by
  induction length with
  | zero => exact .refl _
  | succ length ih =>
    refine readsAs_same peek fun found => ?_
    split
    · exact .refl _
    · exact readsAs_same advance fun _ => ih
    · exact readsAs_same precision fun _ => ih
    · exact readsAs_structDeclaration.next fun _ => ih.next fun _ => .refl _
    · exact readsAs_bufferDeclaration.next fun _ => ih.next fun _ => .refl _
    · exact readsAs_headed.next fun _ => ih.next fun _ => .refl _

theorem readsAs_declarations : ReadsAs Nowhere (declarations .glsl) (declarations .hlsl) :=
  readsAs_same get fun c => readsAs_declarationsWithin c.rest.length

end Parser

/-- What is read as GLSL is read as the same tree as HLSL. -/
theorem Ast.ofTokens_hlsl {scanned : Scanned} {ds : List Ast.Declaration}
    (h : Ast.ofTokens .glsl scanned = .ok ds) : Ast.ofTokens .hlsl scanned = .ok ds := by
  unfold Ast.ofTokens at h ⊢
  rw [StateT.run'_eq] at h ⊢
  cases hrun : (Parser.declarations .glsl).run ⟨none, scanned.tokens, scanned.stop⟩ with
  | error fault =>
    rw [hrun] at h
    cases h
  | ok found =>
    rw [hrun] at h
    cases h
    obtain hsame | hnowhere := Parser.readsAs_declarations _ _ _ hrun
    · rw [hsame]
      rfl
    · exact hnowhere.elim

end ShaderBytecode
