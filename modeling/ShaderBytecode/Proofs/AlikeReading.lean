import ShaderBytecode.Proofs.ReadExpressions
import ShaderBytecode.Proofs.Respelling

/-!
# Reading what looks alike

Two sources look alike if they have the same tokens but for words, which are the same after both
sources are spelled anew. The grammar does not tell such sources apart: it reads both or neither,
and what it reads looks alike again.
-/

namespace ShaderBytecode

/-- Two respellings under which two sources look alike. The words that the grammar knows look like
themselves only. -/
structure Likeness where
  left : Respelling
  right : Respelling
  left_through : ∀ s t, left.span (s.through t) = (left.span s).through (left.span t)
  right_through : ∀ s t, right.span (s.through t) = (right.span s).through (right.span t)
  void : ∀ {w w'}, left.word w = right.word w' → (w = "void" ↔ w' = "void")
  register : ∀ {w w'}, left.word w = right.word w' → (w = "register" ↔ w' = "register")

namespace Likeness

variable (l : Likeness)

def Exact : Prop :=
  ∀ w w', l.left.word w = l.right.word w' → w = w'

/-- Tokens that look alike. A word in front of an argument list also looks alike as a callee. -/
inductive Tokens : List Token → List Token → Prop
  | nil : Tokens [] []
  | other {kind : TokenKind} {span span' : Span} {rest rest' : List Token}
      (hkind : ∀ w, kind ≠ .word w) (hspan : l.left.span span = l.right.span span')
      (hrest : Tokens rest rest') : Tokens (⟨kind, span⟩ :: rest) (⟨kind, span'⟩ :: rest')
  | word {w w' : String} {span span' : Span} {rest rest' : List Token}
      (hword : l.left.word w = l.right.word w')
      (hcallee : ∀ n, callCount? rest = some n → l.left.callee w n = l.right.callee w' n)
      (hspan : l.left.span span = l.right.span span') (hrest : Tokens rest rest') :
      Tokens (⟨.word w, span⟩ :: rest) (⟨.word w', span'⟩ :: rest')

structure Cursors (c c' : Cursor) : Prop where
  previous : c.previous.map l.left.span = c'.previous.map l.right.span
  rest : l.Tokens c.rest c'.rest
  stop : l.left.span ⟨c.stop, c.stop⟩ = l.right.span ⟨c'.stop, c'.stop⟩

inductive Kinds : Option TokenKind → Option TokenKind → Prop
  | same {found : Option TokenKind} (h : ∀ w, found ≠ some (.word w)) : Kinds found found
  | word {w w' : String} (h : l.left.word w = l.right.word w') :
      Kinds (some (.word w)) (some (.word w'))

variable {l} {c c' : Cursor}

theorem Kinds.eq_iff {found found' : Option TokenKind} (h : l.Kinds found found')
    {kind : TokenKind} (hkind : ∀ w, kind ≠ .word w) : found = some kind ↔ found' = some kind := by
  cases h with
  | same _ => exact Iff.rfl
  | word _ =>
    constructor
    · intro hfound
      exact absurd (Option.some.inj hfound).symm (hkind _)
    · intro hfound
      exact absurd (Option.some.inj hfound).symm (hkind _)

theorem Kinds.void_iff {found found' : Option TokenKind} (h : l.Kinds found found') :
    found = some (.word "void") ↔ found' = some (.word "void") := by
  cases h with
  | same _ => exact Iff.rfl
  | word hword => simp only [Option.some.injEq, TokenKind.word.injEq, l.void hword]

theorem Tokens.length {tokens tokens' : List Token} (h : l.Tokens tokens tokens') :
    tokens.length = tokens'.length := by
  induction h with
  | nil => rfl
  | other _ _ _ ih => simp [ih]
  | word _ _ _ _ ih => simp [ih]

namespace Cursors

variable (h : l.Cursors c c')
include h

theorem peek : l.Kinds c.peek c'.peek := by
  obtain ⟨previous, rest, stop⟩ := c
  obtain ⟨previous', rest', stop'⟩ := c'
  cases h.rest with
  | nil => exact .same nofun
  | other hkind _ _ => exact .same fun w hw => hkind w (Option.some.inj hw)
  | word hword _ _ _ => exact .word hword

theorem peekSecond : l.Kinds c.peekSecond c'.peekSecond := by
  obtain ⟨previous, rest, stop⟩ := c
  obtain ⟨previous', rest', stop'⟩ := c'
  have htail : ∀ {tokens tokens' : List Token}, l.Tokens tokens tokens' →
      l.Kinds (tokens.head?.map (·.kind)) (tokens'.head?.map (·.kind)) := by
    intro tokens tokens' htokens
    cases htokens with
    | nil => exact .same nofun
    | other hkind _ _ => exact .same fun w hw => hkind w (Option.some.inj hw)
    | word hword _ _ _ => exact .word hword
  cases h.rest with
  | nil => exact .same nofun
  | other _ _ hrest => exact htail hrest
  | word _ _ _ hrest => exact htail hrest

theorem callee {w w' : String} (hpeek : c.peek = some (.word w)) (hpeek' : c'.peek = some (.word w'))
    {n : Nat} (hn : callCount? c.advance.rest = some n) :
    l.left.callee w n = l.right.callee w' n := by
  obtain ⟨previous, rest, stop⟩ := c
  obtain ⟨previous', rest', stop'⟩ := c'
  cases h.rest with
  | nil => cases hpeek
  | other hkind _ _ => exact absurd (Option.some.inj hpeek) (hkind w)
  | word _ hcallee _ _ =>
    cases hpeek
    cases hpeek'
    exact hcallee n hn

theorem here : l.left.span c.here = l.right.span c'.here := by
  obtain ⟨previous, rest, stop⟩ := c
  obtain ⟨previous', rest', stop'⟩ := c'
  cases h.rest with
  | nil => exact h.stop
  | other _ hspan _ => exact hspan
  | word _ _ hspan _ => exact hspan

theorem behind : l.left.span c.behind = l.right.span c'.behind := by
  have hprevious := h.previous
  unfold Cursor.behind
  cases hleft : c.previous with
  | none =>
    rw [hleft] at hprevious
    rw [Option.map_eq_none_iff.mp hprevious.symm]
    exact h.here
  | some span =>
    rw [hleft] at hprevious
    obtain ⟨span', hright, hspan⟩ := Option.map_eq_some_iff.mp hprevious.symm
    rw [hright]
    exact hspan.symm

theorem advance : l.Cursors c.advance c'.advance := by
  obtain ⟨previous, rest, stop⟩ := c
  obtain ⟨previous', rest', stop'⟩ := c'
  cases h.rest with
  | nil => exact h
  | other _ hspan hrest => exact ⟨congrArg some hspan, hrest, h.stop⟩
  | word _ _ hspan hrest => exact ⟨congrArg some hspan, hrest, h.stop⟩

end Cursors

/-! ## Steps -/

section Steps

variable {α β γ δ : Type} {view : Respelling → α → γ} {view' : Respelling → β → δ}

variable (l) in
/-- Outcomes that look alike: two results, seen through a view, or two faults, which are equal if all
words that look alike are. -/
inductive Outcomes (view : Respelling → α → γ) :
    Except (Located SyntaxFault) (α × Cursor) → Except (Located SyntaxFault) (α × Cursor) → Prop
  | ok {a a' : α} {c c' : Cursor} (hview : view l.left a = view l.right a')
      (hcursors : l.Cursors c c') : Outcomes view (.ok (a, c)) (.ok (a', c'))
  | error {e e' : Located SyntaxFault} (h : l.Exact → e.value = e'.value) :
      Outcomes view (.error e) (.error e')

variable (l) in
def AlikeAt (c c' : Cursor) (view : Respelling → α → γ) (p p' : Parser α) : Prop :=
  l.Outcomes view (p.run c) (p'.run c')

variable (l) in
def Alike (view : Respelling → α → γ) (p p' : Parser α) : Prop :=
  ∀ c c', l.Cursors c c' → l.AlikeAt c c' view p p'

variable (l) in
/-- A parser does not tell apart what looks alike. -/
abbrev Respects (view : Respelling → α → γ) (p : Parser α) : Prop :=
  l.Alike view p p

theorem alikeAt_pure {a a' : α} (hc : l.Cursors c c') (h : view l.left a = view l.right a') :
    l.AlikeAt c c' view (pure a) (pure a') :=
  .ok h hc

theorem alike_pure {a a' : α} (h : view l.left a = view l.right a') :
    l.Alike view (pure a) (pure a') :=
  fun _ _ hc => alikeAt_pure hc h

variable {fault fault' : SyntaxFault} {p p' : Parser α}

theorem alike_failAt {span span' : Span} (h : l.Exact → fault = fault') :
    l.Alike view (Parser.failAt span fault) (Parser.failAt span' fault') :=
  fun _ _ _ => .error h

theorem alike_fail (h : l.Exact → fault = fault') :
    l.Alike view (Parser.fail fault) (Parser.fail fault') :=
  fun _ _ _ => .error h

theorem alike_failAt_bind {span span' : Span} {f f' : β → Parser α} (h : l.Exact → fault = fault') :
    l.Alike view (Parser.failAt span fault >>= f) (Parser.failAt span' fault' >>= f') :=
  fun _ _ _ => .error h

theorem alike_fail_bind {f f' : β → Parser α} (h : l.Exact → fault = fault') :
    l.Alike view (Parser.fail fault >>= f) (Parser.fail fault' >>= f') :=
  fun _ _ _ => .error h

/-- One step after the other. What the first one did on the left is known to the second. -/
theorem AlikeAt.bind {f f' : α → Parser β} (h : l.AlikeAt c c' view p p')
    (hf : ∀ a a' c₁ c₁', p.run c = .ok (a, c₁) → view l.left a = view l.right a' →
      l.Cursors c₁ c₁' → l.AlikeAt c₁ c₁' view' (f a) (f' a')) :
    l.AlikeAt c c' view' (p >>= f) (p' >>= f') := by
  unfold AlikeAt at h ⊢
  rw [StateT.run_bind, StateT.run_bind]
  cases hp : p.run c with
  | error e =>
    cases hp' : p'.run c' with
    | error e' =>
      rw [hp, hp'] at h
      cases h with
      | error hfault => exact .error hfault
    | ok found' =>
      rw [hp, hp'] at h
      cases h
  | ok found =>
    cases hp' : p'.run c' with
    | error e' =>
      rw [hp, hp'] at h
      cases h
    | ok found' =>
      rw [hp, hp'] at h
      cases h with
      | ok hview hcursors => exact hf _ _ _ _ hp hview hcursors

theorem Alike.bind {f f' : α → Parser β} (h : l.Alike view p p')
    (hf : ∀ a a', view l.left a = view l.right a' → l.Alike view' (f a) (f' a')) :
    l.Alike view' (p >>= f) (p' >>= f') :=
  fun c c' hc => (h c c' hc).bind fun a a' c₁ c₁' _ ha => hf a a' ha c₁ c₁'

theorem Alike.map {f f' : α → β} (h : l.Alike view p p')
    (hf : ∀ a a', view l.left a = view l.right a' → view' l.left (f a) = view' l.right (f' a')) :
    l.Alike view' (f <$> p) (f' <$> p') := by
  rw [map_eq_pure_bind, map_eq_pure_bind]
  exact h.bind fun a a' hview => alike_pure (hf a a' hview)

/-- Where a word is next, both places are known. -/
theorem alike_peekAt {f f' : Option TokenKind → Parser β}
    (hword : ∀ c c' w w', l.Cursors c c' → c.peek = some (.word w) → c'.peek = some (.word w') →
      l.left.word w = l.right.word w' →
      l.AlikeAt c c' view' (f (some (.word w))) (f' (some (.word w'))))
    (hother : ∀ found, (∀ w, found ≠ some (.word w)) → l.Alike view' (f found) (f' found)) :
    l.Alike view' (Parser.peek >>= f) (Parser.peek >>= f') := by
  intro c c' hc
  have hkinds := hc.peek
  show l.AlikeAt c c' view' (f c.peek) (f' c'.peek)
  generalize hpeek : c.peek = found, hpeek' : c'.peek = found' at hkinds
  cases hkinds with
  | same hnoWord => exact hother found hnoWord c c' hc
  | word h => exact hword c c' _ _ hc hpeek hpeek' h

theorem alike_peek {f f' : Option TokenKind → Parser β}
    (hword : ∀ w w', l.left.word w = l.right.word w' →
      l.Alike view' (f (some (.word w))) (f' (some (.word w'))))
    (hother : ∀ found, (∀ w, found ≠ some (.word w)) → l.Alike view' (f found) (f' found)) :
    l.Alike view' (Parser.peek >>= f) (Parser.peek >>= f') :=
  alike_peekAt (fun c c' w w' hc _ _ h => hword w w' h c c' hc) hother

variable {f f' : Span → Parser β}

theorem alike_here (h : ∀ s s', l.left.span s = l.right.span s' → l.Alike view' (f s) (f' s')) :
    l.Alike view' (Parser.here >>= f) (Parser.here >>= f') :=
  fun c c' hc => h c.here c'.here hc.here c c' hc

theorem alike_behind (h : ∀ s s', l.left.span s = l.right.span s' → l.Alike view' (f s) (f' s')) :
    l.Alike view' (Parser.behind >>= f) (Parser.behind >>= f') :=
  fun c c' hc => h c.behind c'.behind hc.behind c c' hc

/-- The end of what reads a tree from one place up to another. -/
theorem alike_through {s s' : Span} {f f' : Span → β} (hs : l.left.span s = l.right.span s')
    (h : ∀ t t', l.left.span t = l.right.span t' → view' l.left (f t) = view' l.right (f' t')) :
    l.Alike view' (Parser.behind >>= fun t => pure (f (s.through t)))
      (Parser.behind >>= fun t => pure (f' (s'.through t))) := by
  refine alike_behind fun t t' ht => alike_pure (h _ _ ?_)
  rw [l.left_through, l.right_through, hs, ht]

theorem alikeAt_advance {f f' : Unit → Parser β}
    (h : l.AlikeAt c.advance c'.advance view' (f ()) (f' ())) :
    l.AlikeAt c c' view' (Parser.advance >>= f) (Parser.advance >>= f') :=
  h

theorem alike_advance {f f' : Unit → Parser β} (h : l.Alike view' (f ()) (f' ())) :
    l.Alike view' (Parser.advance >>= f) (Parser.advance >>= f') :=
  fun c c' hc => alikeAt_advance (h c.advance c'.advance hc.advance)

theorem alikeAt_get {f f' : Cursor → Parser β} (h : l.AlikeAt c c' view' (f c) (f' c')) :
    l.AlikeAt c c' view' (get >>= f) (get >>= f') :=
  h

/-- A loop over at most as many tokens as there are. -/
theorem alike_loop {f f' : Nat → Parser β} (h : ∀ length, l.Alike view' (f length) (f' length)) :
    l.Alike view' (get >>= fun c => f c.rest.length) (get >>= fun c => f' c.rest.length) := by
  intro c c' hc
  refine alikeAt_get ?_
  rw [hc.rest.length]
  exact h c'.rest.length c c' hc

end Steps

def plain {α : Type} (_ : Respelling) : α → α :=
  id

section Plain

variable {α β δ : Type} {view' : Respelling → β → δ}

theorem Alike.same {p p' : Parser α} {f f' : α → Parser β} (h : l.Alike plain p p')
    (hf : ∀ a, l.Alike view' (f a) (f' a)) : l.Alike view' (p >>= f) (p' >>= f') := by
  refine h.bind fun a a' ha => ?_
  cases (show a = a' from ha)
  exact hf a

theorem Alike.ask {p p' : Parser Bool} {f f' : Bool → Parser β} (h : l.Alike plain p p')
    (htrue : l.Alike view' (f true) (f' true)) (hfalse : l.Alike view' (f false) (f' false)) :
    l.Alike view' (p >>= f) (p' >>= f') := by
  refine h.same fun answer => ?_
  cases answer with
  | true => exact htrue
  | false => exact hfalse

end Plain

section Primitive

variable {α γ : Type} {view : Respelling → α → γ}

theorem alike_isNext (kind : TokenKind) (hkind : ∀ w, kind ≠ .word w) :
    l.Respects plain (Parser.isNext kind) :=
  fun _ _ hc => .ok (decide_eq_decide.mpr (hc.peek.eq_iff hkind)) hc

theorem alike_eat {kind : TokenKind} (hkind : ∀ w, kind ≠ .word w) :
    l.Respects plain (Parser.eat kind) :=
  (alike_isNext kind hkind).ask (alike_advance (alike_pure rfl)) (alike_pure rfl)

theorem alike_isMark (mark : Punct) : l.Respects plain (Parser.isNext (.punct mark)) :=
  alike_isNext _ nofun

theorem alike_eatMark (mark : Punct) : l.Respects plain (Parser.eatMark mark) :=
  alike_eat nofun

theorem alike_eatKeyword (key : Keyword) : l.Respects plain (Parser.eat (.keyword key)) :=
  alike_eat nofun

theorem alike_expectMark (mark : Punct) : l.Respects Respelling.span (Parser.expectMark mark) := by
  refine alike_here fun s s' hs => (alike_eatMark mark).ask (alike_pure hs) ?_
  rw [if_neg Bool.false_ne_true, if_neg Bool.false_ne_true]
  have hfails : ∀ {span span' : Span}, l.Alike Respelling.span
      (Parser.peek >>= fun found => Parser.failAt span (.expectedSpelling mark.spelling found))
      (Parser.peek >>= fun found => Parser.failAt span' (.expectedSpelling mark.spelling found)) :=
    alike_peek (fun _ _ hword => alike_failAt fun hexact => by rw [hexact _ _ hword])
      fun _ _ => alike_failAt fun _ => rfl
  split
  · exact alike_behind fun _ _ _ => hfails
  · exact alike_here fun _ _ _ => hfails

theorem alike_expectWhile : l.Respects plain Parser.expectWhile :=
  (alike_eatKeyword .whileLoop).ask (alike_pure rfl) <| alike_peek
    (fun _ _ hword => alike_fail fun hexact => by rw [hexact _ _ hword])
    fun _ _ => alike_fail fun _ => rfl

theorem alike_expectName (role : NameRole) :
    l.Respects Respelling.name (Parser.expectName role) := by
  refine alike_peek (fun w w' hword => ?_) fun found hnoWord => ?_
  · refine alike_here fun s s' hs => alike_advance (alike_pure ?_)
    show (⟨_, _⟩ : Located String) = ⟨_, _⟩
    rw [hword, hs]
  · split
    · exact absurd rfl (hnoWord _)
    · exact alike_fail fun _ => rfl

theorem alike_commaListWithin {item item' : Parser α} (h : l.Alike view item item')
    (length : Nat) :
    l.Alike (fun ρ => List.map (view ρ)) (Parser.commaListWithin item length)
      (Parser.commaListWithin item' length) := by
  induction length with
  | zero => exact h.bind fun a a' ha => alike_pure (by simp [ha])
  | succ length ih =>
    refine h.bind fun a a' ha => (alike_eatMark .comma).ask ?_ (alike_pure (by simp [ha]))
    exact ih.bind fun more more' hmore => alike_pure (by simp only [List.map_cons, ha, hmore])

theorem alike_commaList {item item' : Parser α} (h : l.Alike view item item') :
    l.Alike (fun ρ => List.map (view ρ)) (Parser.commaList item) (Parser.commaList item') :=
  alike_loop (alike_commaListWithin h)

end Primitive

theorem span_eq {e e' : Ast.Expr} (h : e.respell l.left = e'.respell l.right) :
    l.left.span e.span = l.right.span e'.span := by
  rw [← Ast.Expr.span_respell, ← Ast.Expr.span_respell, h]

theorem word_eq {n n' : Located String} (h : l.left.name n = l.right.name n') :
    l.left.word n.value = l.right.word n'.value :=
  congrArg Located.value h

theorem name_span_eq {n n' : Located String} (h : l.left.name n = l.right.name n') :
    l.left.span n.span = l.right.span n'.span :=
  congrArg Located.span h

end Likeness

/-! ## Expressions -/

namespace Level

open ShaderBytecode.Parser Likeness
open Ast (Expr)

variable {l : Likeness}

/-- A grammar of expressions reads alike what looks alike. -/
structure Alike (l : Likeness) (g : Level) : Prop where
  assignment : l.Respects Expr.respell g.assignment
  ternary : l.Respects Expr.respell g.ternary
  binary : ∀ minimum, l.Respects Expr.respell (g.binary minimum)
  binaryTail : ∀ minimum {left left' : Expr}, left.respell l.left = left'.respell l.right →
    l.Alike Expr.respell (g.binaryTail minimum left) (g.binaryTail minimum left')
  unary : l.Respects Expr.respell g.unary
  suffixes : ∀ {base base' : Expr}, base.respell l.left = base'.respell l.right →
    l.Alike Expr.respell (g.suffixes base) (g.suffixes base')

theorem alike_arguments {assignment : Parser Expr} (h : l.Respects Expr.respell assignment) :
    l.Respects Expr.respellAll (arguments assignment) := by
  refine (alike_eatMark .closeParen).ask (alike_pure rfl) ?_
  refine (alike_commaList h).bind fun found found' hfound =>
    (alike_expectMark .closeParen).bind fun _ _ _ => alike_pure ?_
  rw [Expr.respellAll_eq_map, Expr.respellAll_eq_map, hfound]

theorem alike_primary {assignment : Parser Expr} {Q : Expr → Prop}
    (hspells : Spells .anyTokens assignment Q) (h : l.Respects Expr.respell assignment) :
    l.Respects Expr.respell (primary assignment) := by
  refine alike_here fun s s' hs => alike_peekAt (fun c c' w w' hc hpeek hpeek' hword => ?_)
    fun found hnoWord => ?_
  · refine alikeAt_advance <| (alike_eatMark .openParen c.advance c'.advance hc.advance).bind
      fun answer answer' c₁ c₁' heat hanswer hc₁ => ?_
    cases (show answer = answer' from hanswer)
    cases answer with
    | false => exact alikeAt_pure hc₁ (by simp only [Expr.respell, hword, hs])
    | true =>
      -- The number of arguments is known before they are read, and with it the callee.
      obtain ⟨hopen, rfl⟩ := run_eat heat
      refine (alike_arguments h c.advance.advance c₁' hc₁).bind
        fun found found' c₂ c₂' hrun hfound hc₂ => alike_through hs (fun t t' ht => ?_) c₂ c₂' hc₂
      have hlength : found.length = found'.length := by
        rw [← Expr.length_respellAll l.left, hfound, Expr.length_respellAll]
      have hcount := ((points_arguments hspells c.advance.sound_anyTokens hopen).of_run hrun).2.1
      simp only [Expr.respell, ht, hfound, ← hlength, hc.callee hpeek hpeek' hcount]
  · split
    · exact alike_advance (alike_pure (by simp only [Expr.respell, hs]))
    · exact alike_advance (alike_pure (by simp only [Expr.respell, hs]))
    · exact alike_advance (alike_pure (by simp only [Expr.respell, hs]))
    · exact alike_advance <| h.bind fun inner inner' hinner =>
        (alike_expectMark .closeParen).bind fun _ _ _ => alike_pure hinner
    · exact absurd rfl (hnoWord _)
    · exact alike_failAt fun _ => rfl

section Over

variable {lower : Option Level} {β γ : Type} {view : Respelling → β → γ}

theorem alike_nest {f f' : Level → Parser β} (h : ∀ g ∈ lower, l.Alike view (f g) (f' g)) :
    l.Alike view (nest lower >>= f) (nest lower >>= f') := by
  cases lower with
  | none => exact alike_fail fun _ => rfl
  | some g => exact h g rfl

variable {Q : Expr → Prop} (hspells : Spells .anyTokens (assignmentOver lower) Q)
variable (h : ∀ g ∈ lower, g.Alike l)
include h

theorem alike_assignmentOver : l.Respects Expr.respell (assignmentOver lower) := by
  refine alike_nest fun g hg => (h g hg).ternary.bind fun target target' htarget =>
    alike_peek (fun _ _ _ => alike_pure htarget) fun found _ => ?_
  cases found.bind assignmentOp? with
  | none => exact alike_pure htarget
  | some op =>
    refine alike_advance <| (h g hg).assignment.bind fun value value' hvalue => alike_pure ?_
    simp only [Expr.respell, l.left_through, l.right_through, htarget, hvalue, span_eq htarget,
      span_eq hvalue]

theorem alike_suffixesOver {base base' : Expr} (hbase : base.respell l.left = base'.respell l.right) :
    l.Alike Expr.respell (suffixesOver lower base) (suffixesOver lower base') := by
  refine alike_peek (fun _ _ _ => alike_pure hbase) fun found _ => ?_
  split
  · refine alike_nest fun g hg => alike_advance <| (alike_expectName .swizzle).bind
      fun member member' hmember => (h g hg).suffixes ?_
    simp only [Expr.respell, l.left_through, l.right_through, hbase, word_eq hmember, span_eq hbase,
      name_span_eq hmember]
  · refine alike_nest fun g hg => alike_advance <| (h g hg).assignment.bind
      fun index index' hindex => (alike_expectMark .closeBracket).bind
        fun close close' hclose => (h g hg).suffixes ?_
    simp only [Expr.respell, l.left_through, l.right_through, hbase, hindex, span_eq hbase, hclose]
  · refine alike_nest fun g hg => alike_here fun s s' hs => alike_advance <| (h g hg).suffixes ?_
    simp only [Expr.respell, l.left_through, l.right_through, hbase, span_eq hbase, hs]
  · refine alike_nest fun g hg => alike_here fun s s' hs => alike_advance <| (h g hg).suffixes ?_
    simp only [Expr.respell, l.left_through, l.right_through, hbase, span_eq hbase, hs]
  · exact alike_pure hbase

omit h in
/-- An operator in front of an operand is spelled in one way only. -/
theorem respell_prefixNode {kind : TokenKind} {node : Span → Expr → Expr}
    (hnode : prefixNode? kind = some node) {ρ : Respelling}
    (hthrough : ∀ s t, ρ.span (s.through t) = (ρ.span s).through (ρ.span t)) (span : Span)
    (operand : Expr) :
    (node span operand).respell ρ = node (ρ.span span) (operand.respell ρ) := by
  unfold prefixNode? at hnode
  split at hnode
  all_goals cases hnode
  all_goals simp only [Expr.respell, hthrough, Expr.span_respell]

theorem alike_binaryTailOver (minimum : Nat) {left left' : Expr}
    (hleft : left.respell l.left = left'.respell l.right) :
    l.Alike Expr.respell (binaryTailOver lower minimum left)
      (binaryTailOver lower minimum left') := by
  refine alike_peek (fun _ _ _ => alike_pure hleft) fun found _ => ?_
  cases found.bind (binaryOp? minimum) with
  | none => exact alike_pure hleft
  | some op =>
    refine alike_nest fun g hg => alike_advance <| ((h g hg).binary _).bind
      fun right right' hright => (h g hg).binaryTail minimum ?_
    simp only [Expr.respell, l.left_through, l.right_through, hleft, hright, span_eq hleft,
      span_eq hright]

include hspells

theorem alike_unaryOver : l.Respects Expr.respell (unaryOver lower) := by
  have hbase : l.Respects Expr.respell (primary (assignmentOver lower) >>= suffixesOver lower) :=
    (alike_primary hspells (alike_assignmentOver h)).bind fun _ _ => alike_suffixesOver h
  refine alike_peek (fun _ _ _ => hbase) fun found _ => ?_
  cases hnode : found.bind prefixNode? with
  | none => exact hbase
  | some node =>
    obtain ⟨kind, -, hkind⟩ := Option.bind_eq_some_iff.mp hnode
    refine alike_nest fun g hg => alike_here fun s s' hs => alike_advance <| (h g hg).unary.bind
      fun operand operand' hoperand => alike_pure ?_
    rw [respell_prefixNode hkind l.left_through, respell_prefixNode hkind l.right_through, hs,
      hoperand]

theorem alike_binaryOver (minimum : Nat) : l.Respects Expr.respell (binaryOver lower minimum) :=
  (alike_unaryOver hspells h).bind fun _ _ => alike_binaryTailOver h minimum

theorem alike_ternaryOver : l.Respects Expr.respell (ternaryOver lower) := by
  refine (alike_binaryOver hspells h 1).bind fun test test' htest =>
    (alike_eatMark .question).ask ?_ (alike_pure htest)
  refine alike_nest fun g hg => (h g hg).assignment.bind fun whenTrue whenTrue' htrue =>
    (alike_expectMark .colon).bind fun _ _ _ => (h g hg).ternary.bind
      fun whenFalse whenFalse' hfalse => alike_pure ?_
  simp only [Expr.respell, l.left_through, l.right_through, htest, htrue, hfalse, span_eq htest,
    span_eq hfalse]

theorem alike_ofLower : (ofLower lower).Alike l where
  assignment := alike_assignmentOver h
  ternary := alike_ternaryOver hspells h
  binary := alike_binaryOver hspells h
  binaryTail := alike_binaryTailOver h
  unary := alike_unaryOver hspells h
  suffixes := alike_suffixesOver h

end Over

theorem alike_ofBudget (budget : Nat) : (ofBudget budget).Alike l := by
  induction budget with
  | zero => exact alike_ofLower (placed_ofBudget 0).assignment nofun
  | succ budget ih =>
    refine alike_ofLower (placed_ofBudget (budget + 1)).assignment ?_
    rintro _ ⟨⟩
    exact ih

end Level

end ShaderBytecode
