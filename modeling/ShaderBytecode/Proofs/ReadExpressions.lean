import ShaderBytecode.Proofs.ReadTrees
import ShaderBytecode.Proofs.Weight

/-!
# Reading expressions

An expression that is read takes a token at least for each of its nodes and stands between the
tokens around it. The budget of the grammar bounds how many operators are open at once. It does not
bound the tree by itself: what stands in parentheses is read with the budget of the parentheses, and
when they are closed the whole of it is there again for the operators behind them. So with each pair
of parentheses a tree can grow by the budget twice, by members and by binary operators, and the
budget falls by one: the depth of a tree is bounded by the square of the budget. An expression also
closes each parenthesis that it opens and has no comma outside of them, so the number of arguments
of a call is known before they are read.
-/

namespace ShaderBytecode

open Ast (Expr)

/-- An expression whose nodes start with tokens stands between two positions. -/
structure Ast.Expr.Between (G : Ground) (p q : Position) (e : Expr) : Prop where
  spans : e.Spans G.Marked
  span : G.Between p q e.span

/-- An expression is read between two cursors. -/
structure Cursor.Spells (G : Ground) (e : Expr) (c c' : Cursor) : Prop where
  tokens : c.To G e.weight c'
  place : e.Between G c.front c'.back
  closed : c.Closed c'

def Parser.Spells (G : Ground) (p : Parser Expr) (Q : Expr → Prop) : Prop :=
  ∀ c, c.Sound G → Points G c p fun e c' => c.Spells G e c' ∧ Q e

/-- A grammar of what follows an expression, and how deep the operands there and the chain are. -/
def Parser.Continues (G : Ground) (p : Expr → Parser Expr) (operand chain : Nat) : Prop :=
  ∀ (c₀ c : Cursor) (base : Expr), c₀.Spells G base c → Points G c (p base) fun e c' =>
    c₀.Spells G e c' ∧ e.operatorDepth ≤ max base.operatorDepth operand + chain

theorem Parser.Spells.takes {G : Ground} {p : Parser Expr} {Q : Expr → Prop}
    (h : Spells G p Q) : Takes G p Expr.weight fun e => e.Spans G.Marked ∧ Q e :=
  fun c hc => (h c hc).mono fun _ _ he => ⟨he.1.tokens, he.1.place.spans, he.2⟩

namespace Level

open ShaderBytecode.Parser

/-- What the forms of the grammar for a budget read: a whole expression is as deep as the limit, and
each chain of operators or suffixes behind an operand can add the budget. -/
structure Placed (G : Ground) (b : Nat) (l : Level) : Prop where
  assignment : Spells G l.assignment fun e => 0 < b ∧ e.operatorDepth ≤ depthLimit b
  ternary : Spells G l.ternary fun e => e.operatorDepth ≤ depthLimit (b + 1)
  binary : ∀ minimum, Spells G (l.binary minimum) fun e => e.operatorDepth ≤ depthLimit b + 2 * b
  binaryTail : ∀ minimum, Continues G (l.binaryTail minimum) (depthLimit b + b) b
  unary : Spells G l.unary fun e => e.operatorDepth ≤ depthLimit b + b
  suffixes : Continues G l.suffixes (depthLimit b) b

variable {G : Ground}

/-- Expressions with commas between them are read between two cursors. -/
structure SpellsAll (G : Ground) (Q : Expr → Prop) (found : List Expr) (c c' : Cursor) : Prop where
  tokens : c.To G (Expr.weightAll found) c'
  all : ∀ e ∈ found, e.Spans G.Marked ∧ Q e
  lists : c.Lists found.length c'

theorem spellsAll_singleton {Q : Expr → Prop} {e : Expr} {c c' : Cursor} (h : c.Spells G e c')
    (he : Q e) : SpellsAll G Q [e] c c' where
  tokens := h.tokens
  all := List.forall_mem_singleton.mpr ⟨h.place.spans, he⟩
  lists := h.closed.lists

theorem points_commaListWithin {item : Parser Expr} {Q : Expr → Prop} (h : Spells G item Q)
    (length : Nat) {c : Cursor} (hc : c.Sound G) :
    Points G c (commaListWithin item length) fun found c' => SpellsAll G Q found c c' := by
  induction length generalizing c with
  | zero =>
    exact (h c hc).bind fun first c₁ ⟨h₁, hfirst⟩ => points_pure (spellsAll_singleton h₁ hfirst)
  | succ length ih =>
    refine (h c hc).bind fun first c₁ ⟨h₁, hfirst⟩ => points_eatAt h₁.tokens (fun hcomma h₂ => ?_)
      fun _ => points_pure (spellsAll_singleton h₁ hfirst)
    refine (ih h₂.sound).bind fun more c₃ hmore => points_pure
      ⟨(h₂.trans hmore.tokens).weaken ?_, ?_, .cons h₁.closed hcomma hmore.lists⟩
    · rw [Expr.weightAll]
      omega
    · exact List.forall_mem_cons.mpr ⟨⟨h₁.place.spans, hfirst⟩, hmore.all⟩

/-- As many arguments are read behind a parenthesis as are counted. -/
theorem points_arguments {assignment : Parser Expr} {Q : Expr → Prop} (h : Spells G assignment Q)
    {c : Cursor} (hc : c.Sound G) (hopen : c.peek = some (.punct .openParen)) :
    Points G c.advance (arguments assignment) fun found c' =>
      (c.advance.To G (Expr.weightAll found + 1) c' ∧ ∀ e ∈ found, e.Spans G.Marked ∧ Q e)
        ∧ callCount? c.rest = some found.length ∧ c.Closed c' := by
  have hsound := (hc.to_advance hopen).1.sound
  refine points_eatAt hsound.to_self (fun hclose h₁ => ?_) fun hclose => ?_
  · exact points_pure ⟨⟨h₁, List.forall_mem_nil _⟩, Cursor.callCount?_empty hopen hclose,
      Cursor.closed_of_parens hopen (fun _ => rfl) hclose⟩
  · refine (points_get (points_commaListWithin h _ hsound)).bind fun found c₁ h₁ => ?_
    exact points_expectMarkAt h₁.tokens fun hend h₂ _ => points_pure ⟨⟨h₂, h₁.all⟩,
      h₁.lists.callCount? hopen hclose hend, Cursor.closed_of_parens hopen h₁.lists.inside hend⟩

theorem points_leaf {limit : Nat} {c : Cursor} {kind : TokenKind} (node : Span → Expr)
    (hc : c.Sound G) (hpeek : c.peek = some kind) (hplain : kind.IsPlain)
    (hnode : ∀ span, (node span).span = span ∧ ((node span).Spans G.Marked ↔ G.Marked span)
      ∧ (node span).weight = 1 ∧ (node span).operatorDepth = 0) :
    Points G c (do advance; return node c.here) fun e c' =>
      c.Spells G e c' ∧ e.operatorDepth ≤ limit := by
  obtain ⟨hspan, hspans, hweight, hdepth⟩ := hnode c.here
  refine points_advance hc.to_self hpeek fun h₁ hmark => points_pure
    ⟨⟨?_, ⟨?_, ?_⟩, Cursor.closed_advance hpeek hplain⟩, ?_⟩
  · exact h₁.weaken (by omega)
  · exact hspans.mpr hmark.marked
  · exact hspan.symm ▸ hmark
  · omega

theorem spells_primary (limit : Nat) {assignment : Parser Expr}
    (h : Spells G assignment fun e => e.operatorDepth ≤ limit) :
    Spells G (primary assignment) fun e => e.operatorDepth ≤ limit := by
  intro c hc
  refine points_here (points_peek ?_)
  split
  · rename_i value hpeek
    exact points_leaf (.int value) hc hpeek ⟨nofun, nofun, nofun⟩ fun _ => ⟨rfl, Iff.rfl, rfl, rfl⟩
  · rename_i value hpeek
    exact points_leaf (.float value) hc hpeek ⟨nofun, nofun, nofun⟩ fun _ => ⟨rfl, Iff.rfl, rfl, rfl⟩
  · rename_i value hpeek
    exact points_leaf (.bool value) hc hpeek ⟨nofun, nofun, nofun⟩ fun _ => ⟨rfl, Iff.rfl, rfl, rfl⟩
  · -- Parentheses only widen the place of what they hold.
    rename_i hpeek
    refine points_advance hc.to_self hpeek fun h₁ _ => ?_
    refine (h _ h₁.sound).bind fun inner c₂ ⟨h₂, hdepth⟩ => ?_
    refine points_expectMarkAt (h₁.trans h₂.tokens) fun hend h₃ hclose => points_pure
      ⟨⟨h₃.weaken (by omega), ?_, Cursor.closed_of_parens hpeek (fun _ => h₂.closed _) hend⟩, hdepth⟩
    have hback : G.le c₂.back c₂.advance.back :=
      G.le_trans h₂.tokens.sound.back_le_front (G.le_trans hclose.start
        (G.le_trans hclose.marked.within.le hclose.stop))
    exact ⟨h₂.place.spans, h₂.place.span.mono h₁.front_le hback⟩
  · rename_i name hpeek
    have hname := Cursor.closed_advance hpeek ⟨nofun, nofun, nofun⟩
    refine points_advance hc.to_self hpeek fun h₁ hspan => points_eatAt h₁ (fun hopen h₂ => ?_)
      fun _ => points_pure ⟨⟨h₁, ⟨hspan.marked, hspan⟩, hname⟩, Nat.zero_le _⟩
    refine (points_arguments h h₁.sound hopen).bind fun found c₃ ⟨⟨h₃, hall⟩, _, hclosed⟩ =>
      points_behind ?_
    have hcall := (h₂.trans h₃).between_through_behind (by omega) hc
    refine points_pure ⟨⟨(h₂.trans h₃).weaken ?_, ⟨⟨hcall.marked, ?_⟩, hcall⟩,
      hname.trans hclosed⟩, ?_⟩
    · rw [Expr.weight]
      omega
    · exact Ast.Expr.spansAll_iff.mpr fun e he => (hall e he).1
    · exact Ast.Expr.operatorDepthAll_le fun e he => (hall e he).2
  · exact points_failAt hc.within_here

theorem spells_prefixNode? {kind : TokenKind} {node : Span → Expr → Expr} {operand : Expr}
    {c c₁ c₂ : Cursor} (h : prefixNode? kind = some node) (h₁ : c.To G 1 c₁)
    (hmark : G.Between c.front c₁.back c.here) (hclosed : c.Closed c₁)
    (h₂ : c₁.Spells G operand c₂) :
    c.Spells G (node c.here operand) c₂
      ∧ (node c.here operand).operatorDepth ≤ operand.operatorDepth + 1 := by
  have hto := h₁.trans h₂.tokens
  have hspan := hmark.through h₂.place.span h₁.sound.back_le_front
  have hclosed' := hclosed.trans h₂.closed
  unfold prefixNode? at h
  split at h
  case h_5 =>
    cases h
    exact ⟨⟨hto.weaken (Nat.le_add_left _ _), ⟨h₂.place.spans,
      h₂.place.span.mono h₁.front_le (G.le_refl _)⟩, hclosed'⟩, Nat.le_succ _⟩
  case h_6 => cases h
  all_goals
    cases h
    exact ⟨⟨hto.weaken (Nat.le_of_eq (Nat.add_comm _ _)),
      ⟨⟨hspan.marked, h₂.place.spans⟩, hspan⟩, hclosed'⟩, Nat.le_refl _⟩

section Lower

variable {b : Nat} {lower : Option Level}
  (hlower : ∀ inner ∈ lower, ∃ b', b = b' + 1 ∧ inner.Placed G b')
include hlower

theorem points_nest {β : Type} {c₀ c : Cursor} {n : Nat} {f : Level → Parser β}
    {Q : β → Cursor → Prop} (h₀ : c₀.To G n c)
    (h : ∀ inner b', b = b' + 1 → inner.Placed G b' → Points G c (f inner) Q) :
    Points G c (nest lower >>= f) Q := by
  cases lower with
  | none => exact points_fail_bind h₀
  | some inner =>
    obtain ⟨b', hb, hinner⟩ := hlower inner rfl
    exact h inner b' hb hinner

theorem spells_assignmentOver :
    Spells G (assignmentOver lower) fun e => 0 < b ∧ e.operatorDepth ≤ depthLimit b := by
  intro c hc
  refine points_nest hlower hc.to_self fun inner b' hb hinner => ?_
  subst hb
  refine (hinner.ternary c hc).bind fun target c₁ ⟨h₁, htarget⟩ => points_peek ?_
  split
  · rename_i op hop
    obtain ⟨kind, hpeek, hkind⟩ := Option.bind_eq_some_iff.mp hop
    have hclosed := Cursor.closed_advance hpeek (.of_eq_some hkind rfl rfl rfl)
    refine points_advance h₁.tokens hpeek fun h₂ hmark => ?_
    refine (hinner.assignment _ h₂.sound).bind fun value c₃ ⟨h₃, hvalue⟩ => ?_
    have hspan := h₁.place.span.through h₃.place.span
      (G.le_trans h₁.tokens.sound.back_le_front (h₁.tokens.sound.to_advance hpeek).1.front_le)
    refine points_pure ⟨⟨(h₂.trans h₃.tokens).weaken ?_,
      ⟨⟨hspan.marked, h₁.place.spans, h₃.place.spans⟩, hspan⟩,
      h₁.closed.trans (hclosed.trans h₃.closed)⟩, Nat.succ_pos _, ?_⟩
    · rw [Expr.weight]
      omega
    · exact Nat.max_le.mpr ⟨htarget, Nat.le_trans hvalue.2 (depthLimit_le_succ b')⟩
  · exact points_pure ⟨h₁, Nat.succ_pos _, htarget⟩

omit hlower in
/-- What follows a suffix, behind which an expression is one operator deeper. -/
theorem points_suffix {inner : Level} {b' : Nat} {c₀ c c₁ : Cursor} {base node : Expr} {n : Nat}
    {mark : Span} {p : Position} (hb : b = b' + 1) (hinner : inner.Placed G b')
    (hbase : c₀.Spells G base c) (h₁ : c₀.To G n c₁) (hn : node.weight ≤ n)
    (hclosed : c.Closed c₁) (hmark : G.Between p c₁.back mark) (hp : G.le c.back p)
    (hspan : node.span = base.span.through mark)
    (hspans : G.Marked node.span → node.Spans G.Marked)
    (hdepth : node.operatorDepth ≤ max base.operatorDepth (depthLimit b) + 1) :
    Points G c₁ (inner.suffixes node) fun e c' => c₀.Spells G e c'
      ∧ e.operatorDepth ≤ max base.operatorDepth (depthLimit b) + b := by
  have hplace : G.Between c₀.front c₁.back node.span :=
    hspan ▸ hbase.place.span.through hmark hp
  have hnode : c₀.Spells G node c₁ :=
    ⟨h₁.weaken hn, ⟨hspans hplace.marked, hplace⟩, hbase.closed.trans hclosed⟩
  refine (hinner.suffixes c₀ c₁ node hnode).mono fun e c₂ ⟨h₂, he⟩ => ⟨h₂, ?_⟩
  have hmono := depthLimit_le_succ b'
  subst hb
  omega

theorem continues_suffixesOver : Continues G (suffixesOver lower) (depthLimit b) b := by
  intro c₀ c base hbase
  have hdeeper : base.operatorDepth + 1 ≤ max base.operatorDepth (depthLimit b) + 1 :=
    Nat.succ_le_succ (Nat.le_max_left _ _)
  have hadvance : ∀ {c : Cursor} {kind : TokenKind}, c.peek = some kind → kind.IsPlain →
    c.Closed c.advance := Cursor.closed_advance
  refine points_peek ?_
  split
  · rename_i hpeek
    have hdot := (hbase.tokens.sound.to_advance hpeek).1
    refine points_nest hlower hbase.tokens fun inner b' hb hinner => ?_
    refine points_advance hbase.tokens hpeek fun h₁ _ => ?_
    refine points_expectNameAt h₁ fun name hpeek' h₂ hname => ?_
    exact points_suffix hb hinner hbase h₂ (Nat.le_succ _)
      ((hadvance hpeek ⟨nofun, nofun, nofun⟩).trans (hadvance hpeek' ⟨nofun, nofun, nofun⟩)) hname
      (hdot.back_le_front hbase.tokens.sound) rfl (⟨·, hbase.place.spans⟩) hdeeper
  · rename_i hpeek
    have hopen := (hbase.tokens.sound.to_advance hpeek).1
    refine points_nest hlower hbase.tokens fun inner b' hb hinner => ?_
    refine points_advance hbase.tokens hpeek fun h₁ _ => ?_
    refine (hinner.assignment _ h₁.sound).bind fun index c₂ ⟨h₂, hindex⟩ => ?_
    refine points_expectMarkAt (h₁.trans h₂.tokens) fun hclose h₃ hmark => ?_
    refine points_suffix hb hinner hbase h₃ ?_ (.trans (hadvance hpeek ⟨nofun, nofun, nofun⟩)
      (h₂.closed.trans (hadvance hclose ⟨nofun, nofun, nofun⟩))) hmark
      ((hopen.trans h₂.tokens).back_le_front hbase.tokens.sound) rfl
      (⟨·, hbase.place.spans, h₂.place.spans⟩) ?_
    · rw [Expr.weight]
      omega
    · have hmono := depthLimit_le_succ b'
      subst hb
      rw [Expr.operatorDepth]
      omega
  · rename_i hpeek
    refine points_nest hlower hbase.tokens fun inner b' hb hinner => points_here ?_
    refine points_advance hbase.tokens hpeek fun h₁ hmark => ?_
    exact points_suffix hb hinner hbase h₁ (Nat.le_refl _) (hadvance hpeek ⟨nofun, nofun, nofun⟩)
      hmark hbase.tokens.sound.back_le_front rfl (⟨·, hbase.place.spans⟩) hdeeper
  · rename_i hpeek
    refine points_nest hlower hbase.tokens fun inner b' hb hinner => points_here ?_
    refine points_advance hbase.tokens hpeek fun h₁ hmark => ?_
    exact points_suffix hb hinner hbase h₁ (Nat.le_refl _) (hadvance hpeek ⟨nofun, nofun, nofun⟩)
      hmark hbase.tokens.sound.back_le_front rfl (⟨·, hbase.place.spans⟩) hdeeper
  · exact points_pure ⟨hbase, Nat.le_trans (Nat.le_max_left _ _) (Nat.le_add_right _ _)⟩

theorem spells_unaryOver :
    Spells G (unaryOver lower) fun e => e.operatorDepth ≤ depthLimit b + b := by
  intro c hc
  refine points_peek ?_
  split
  · rename_i node hnode
    obtain ⟨kind, hpeek, hkind⟩ := Option.bind_eq_some_iff.mp hnode
    refine points_nest hlower hc.to_self fun inner b' hb hinner => points_here ?_
    refine points_advance hc.to_self hpeek fun h₁ hmark => ?_
    refine (hinner.unary _ h₁.sound).bind fun operand c₂ ⟨h₂, hoperand⟩ => ?_
    have hclosed := Cursor.closed_advance hpeek (.of_eq_some hkind rfl rfl rfl)
    obtain ⟨hspells, hdepth⟩ := spells_prefixNode? hkind h₁ hmark hclosed h₂
    have hmono := depthLimit_le_succ b'
    exact points_pure ⟨hspells, by subst hb; omega⟩
  · have hassignment : Spells G (assignmentOver lower) fun e => e.operatorDepth ≤ depthLimit b :=
      fun c hc => (spells_assignmentOver hlower c hc).mono fun e c' he => ⟨he.1, he.2.2⟩
    refine (spells_primary _ hassignment c hc).bind fun base c₁ ⟨h₁, hbase⟩ => ?_
    refine (continues_suffixesOver hlower c c₁ base h₁).mono fun e c₂ ⟨h₂, he⟩ => ⟨h₂, ?_⟩
    omega

/-- Each operator of a chain is one more on the path to its first operand. -/
theorem continues_binaryTailOver (minimum : Nat) :
    Continues G (binaryTailOver lower minimum) (depthLimit b + b) b := by
  intro c₀ c left hleft
  refine points_peek ?_
  split
  · rename_i op hop
    obtain ⟨kind, hpeek, hkind⟩ := Option.bind_eq_some_iff.mp hop
    have hclosed := Cursor.closed_advance hpeek (.of_eq_some hkind rfl rfl rfl)
    have hadvance := (hleft.tokens.sound.to_advance hpeek).1
    refine points_nest hlower hleft.tokens fun inner b' hb hinner => ?_
    refine points_advance hleft.tokens hpeek fun h₁ _ => ?_
    refine (hinner.binary _ _ h₁.sound).bind fun right c₂ ⟨h₂, hright⟩ => ?_
    have hspan := hleft.place.span.through h₂.place.span (hadvance.back_le_front hleft.tokens.sound)
    have hnode : c₀.Spells G (.binary op left right (left.span.through right.span)) c₂ := by
      refine ⟨(h₁.trans h₂.tokens).weaken ?_, ⟨⟨hspan.marked, hleft.place.spans, h₂.place.spans⟩,
        hspan⟩, hleft.closed.trans (hclosed.trans h₂.closed)⟩
      rw [Expr.weight]
      omega
    refine (hinner.binaryTail minimum c₀ c₂ _ hnode).mono fun e c₃ ⟨h₃, he⟩ => ⟨h₃, ?_⟩
    have hmono := depthLimit_le_succ b'
    have hadd := depthLimit_add_le b'
    subst hb
    simp only [Expr.operatorDepth] at he
    omega
  · exact points_pure ⟨hleft, Nat.le_trans (Nat.le_max_left _ _) (Nat.le_add_right _ _)⟩

theorem spells_binaryOver (minimum : Nat) :
    Spells G (binaryOver lower minimum) fun e => e.operatorDepth ≤ depthLimit b + 2 * b := by
  intro c hc
  refine (spells_unaryOver hlower c hc).bind fun left c₁ ⟨h₁, hleft⟩ => ?_
  refine (continues_binaryTailOver hlower minimum c c₁ left h₁).mono fun e c₂ ⟨h₂, he⟩ => ⟨h₂, ?_⟩
  omega

theorem spells_ternaryOver :
    Spells G (ternaryOver lower) fun e => e.operatorDepth ≤ depthLimit (b + 1) := by
  intro c hc
  refine (spells_binaryOver hlower 1 c hc).bind fun test c₁ ⟨h₁, htest⟩ => ?_
  refine points_eatAt h₁.tokens.sound.to_self (fun hquestion h₂ => ?_) fun _ => ?_
  · refine points_nest hlower h₂ fun inner b' hb hinner => ?_
    refine (hinner.assignment _ h₂.sound).bind fun whenTrue c₃ ⟨h₃, htrue⟩ => ?_
    refine points_expectMarkAt (h₂.trans h₃.tokens) fun hcolon h₄ _ => ?_
    refine (hinner.ternary _ h₄.sound).bind fun whenFalse c₅ ⟨h₅, hfalse⟩ => ?_
    have hspan := h₁.place.span.through h₅.place.span (h₄.back_le_front h₁.tokens.sound)
    have hto := h₁.tokens.trans (h₄.trans h₅.tokens)
    have hfirst := (Cursor.closed_advance hquestion ⟨nofun, nofun, nofun⟩).trans h₃.closed
    have hsecond := (Cursor.closed_advance hcolon ⟨nofun, nofun, nofun⟩).trans h₅.closed
    refine points_pure ⟨⟨hto.weaken ?_, ⟨⟨hspan.marked, h₁.place.spans, h₃.place.spans,
      h₅.place.spans⟩, hspan⟩, h₁.closed.trans (hfirst.trans hsecond)⟩, ?_⟩
    · rw [Expr.weight]
      omega
    · -- The first branch takes two units, so the limit has its regular form.
      have hlimit := depthLimit_succ (b := b) (by omega)
      have hmono := depthLimit_le_succ b'
      subst hb
      simp only [Expr.operatorDepth]
      omega
  · exact points_pure ⟨h₁, Nat.le_trans htest (depthLimit_add_le b)⟩

theorem placed_ofLower : (ofLower lower).Placed G b where
  assignment := spells_assignmentOver hlower
  ternary := spells_ternaryOver hlower
  binary := spells_binaryOver hlower
  binaryTail := continues_binaryTailOver hlower
  unary := spells_unaryOver hlower
  suffixes := continues_suffixesOver hlower

end Lower

theorem placed_ofBudget (b : Nat) : (ofBudget b).Placed G b := by
  induction b with
  | zero => exact placed_ofLower nofun
  | succ b ih =>
    refine placed_ofLower ?_
    rintro _ ⟨⟩
    exact ⟨b, rfl, ih⟩

end Level

/-- An expression that is read with at most the budget of a source. -/
theorem Parser.takes_expression {G : Ground} {budget : Nat} (h : budget ≤ nestingLimit) :
    Takes G (expression budget) Expr.weight fun e => e.Read G := by
  have hspells := (Level.placed_ofBudget (G := G) budget).assignment.takes
  refine fun c hc => (hspells c hc).mono fun e c' ⟨hto, hspans, _, hdepth⟩ => ?_
  exact ⟨hto, hspans, Nat.le_trans hdepth (depthLimit_mono h)⟩

end ShaderBytecode
