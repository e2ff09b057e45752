import Mathlib.Algebra.GroupWithZero.Nat
import ShaderBytecode.Parser.Source
import ShaderBytecode.Proofs.ArgumentCount
import ShaderBytecode.Proofs.Scanning

/-!
# Reading tokens in order

Reading moves a cursor over tokens. It never goes back, it takes as many tokens as the tree needs
that it gives, and it joins spans from the start of one token to the end of a later one. All of it
is followed at once: how far the cursor has come from where it was, what has been read, and where a
fault is found.
-/

namespace ShaderBytecode

/-! ## Grounds -/

/-- What is known of the tokens that are read: the order of positions, the positions in the source,
those where a token starts, and which tokens there are. -/
structure Ground where
  le : Position → Position → Prop
  reached : Position → Prop
  starts : Position → Prop
  token : TokenKind → Prop
  le_refl : ∀ p, le p p
  le_trans : ∀ {p q r}, le p q → le q r → le p r

namespace Ground

def anyTokens : Ground where
  le _ _ := True
  reached _ := True
  starts _ := True
  token _ := True
  le_refl _ := trivial
  le_trans _ _ := trivial

def ofSource (text : List Char) (tokens : List Token) : Ground where
  le := (· ≤ ·)
  reached := Position.Reached text
  starts p := ∃ t ∈ tokens, t.span.start = p
  token kind := ∃ t ∈ tokens, t.kind = kind
  le_refl := Preorder.le_refl
  le_trans h h' := Preorder.le_trans _ _ _ h h'

/-- A stretch of the source. -/
structure Within (G : Ground) (s : Span) : Prop where
  le : G.le s.start s.stop
  start : G.reached s.start
  stop : G.reached s.stop

/-- A stretch of the source that starts with a token. -/
structure Marked (G : Ground) (s : Span) : Prop where
  within : G.Within s
  starts : G.starts s.start

/-- A stretch of the source that starts with a token, between two positions. -/
structure Between (G : Ground) (p q : Position) (s : Span) : Prop where
  marked : G.Marked s
  start : G.le p s.start
  stop : G.le s.stop q

/-- Tokens one behind the other, from a position on and before another one. -/
inductive InOrder (G : Ground) : Position → List Token → Position → Prop
  | nil {p stop : Position} (hle : G.le p stop) (hstop : G.reached stop) : InOrder G p [] stop
  | cons {p stop : Position} {t : Token} {rest : List Token} (hle : G.le p t.span.start)
      (ht : G.Marked t.span) (hkind : G.token t.kind) (hrest : InOrder G t.span.stop rest stop) :
      InOrder G p (t :: rest) stop

theorem marked_anyTokens (s : Span) : anyTokens.Marked s :=
  ⟨⟨trivial, trivial, trivial⟩, trivial⟩

theorem inOrder_anyTokens (p stop : Position) (tokens : List Token) :
    anyTokens.InOrder p tokens stop := by
  induction tokens generalizing p with
  | nil => exact .nil trivial trivial
  | cons t rest ih =>
    exact .cons trivial (marked_anyTokens t.span) trivial (ih t.span.stop)

theorem inOrder_ofSource {text : List Char} {all : List Token} {p stop : Position}
    {tokens : List Token} (h : ShaderBytecode.InOrder text p tokens stop) (hall : tokens ⊆ all) :
    (ofSource text all).InOrder p tokens stop := by
  induction h with
  | nil hle hstop => exact .nil hle hstop
  | @cons p stop t rest hle ht _ ih =>
    have hmem : t ∈ all := hall List.mem_cons_self
    exact .cons hle ⟨⟨ht.le, ht.start, ht.stop⟩, t, hmem, rfl⟩ ⟨t, hmem, rfl⟩
      (ih (List.subset_of_cons_subset hall))

variable {G : Ground} {p p' q q' r : Position} {s : Span}

theorem Between.mono (h : G.Between p q s) (hp : G.le p' p) (hq : G.le q q') :
    G.Between p' q' s :=
  ⟨h.marked, G.le_trans hp h.start, G.le_trans h.stop hq⟩

theorem Between.through {first second : Span} (h : G.Between p q first)
    (h' : G.Between q' r second) (hq : G.le q q') : G.Between p r (first.through second) := by
  have hmiddle : G.le first.start second.start :=
    G.le_trans h.marked.within.le (G.le_trans h.stop (G.le_trans hq h'.start))
  have hle : G.le first.start second.stop := G.le_trans hmiddle h'.marked.within.le
  exact ⟨⟨⟨hle, h.marked.within.start, h'.marked.within.stop⟩, h.marked.starts⟩, h.start, h'.stop⟩

end Ground

/-! ## Cursors -/

namespace Cursor

def back (c : Cursor) : Position :=
  match c.previous with
  | some span => span.stop
  | none => {}

def front (c : Cursor) : Position :=
  c.here.start

/-- The tokens around a cursor are in order. -/
structure Sound (G : Ground) (c : Cursor) : Prop where
  previous : ∀ span ∈ c.previous, G.Within span
  rest : G.InOrder c.back c.rest c.stop

/-- A cursor comes behind the next token of another one. -/
structure Behind (G : Ground) (c c' : Cursor) : Prop where
  starts : G.starts c.front
  le : G.le c.front c'.back
  stop : c'.behind.stop = c'.back

/-- A cursor comes behind at least so many tokens of another one. -/
structure To (G : Ground) (n : Nat) (c c' : Cursor) : Prop where
  sound : c'.Sound G
  count : c'.rest.length + n ≤ c.rest.length
  moved : c' = c ∨ c.Behind G c'

variable {G : Ground} {n m : Nat} {c c₁ c₂ : Cursor} {kind : TokenKind}

theorem sound_anyTokens (c : Cursor) : c.Sound .anyTokens :=
  ⟨fun span _ => (Ground.marked_anyTokens span).within, Ground.inOrder_anyTokens _ _ _⟩

section Sound

variable (h : c.Sound G)
include h

theorem Sound.back_le_front : G.le c.back c.front := by
  obtain ⟨previous, rest, stop⟩ := c
  cases h.rest with
  | nil hle _ => exact hle
  | cons hle _ _ _ => exact hle

theorem Sound.within_here : G.Within c.here := by
  obtain ⟨previous, rest, stop⟩ := c
  cases h.rest with
  | nil _ hstop => exact ⟨G.le_refl _, hstop, hstop⟩
  | cons _ ht _ _ => exact ht.within

theorem Sound.within_behind : G.Within c.behind := by
  obtain ⟨previous, rest, stop⟩ := c
  cases previous with
  | none => exact h.within_here
  | some span => exact h.previous span rfl

theorem Sound.to_self : c.To G 0 c :=
  ⟨h, Nat.le_refl _, .inl rfl⟩

theorem Sound.token (hpeek : c.peek = some kind) : G.token kind := by
  obtain ⟨span, rest, hrest, -⟩ := rest_of_peek hpeek
  obtain ⟨previous, _, stop⟩ := c
  cases hrest
  cases h.rest with
  | cons _ _ hkind _ => exact hkind

theorem Sound.to_advance (hpeek : c.peek = some kind) :
    c.To G 1 c.advance ∧ G.Between c.front c.advance.back c.here := by
  obtain ⟨span, rest, hrest, -⟩ := rest_of_peek hpeek
  obtain ⟨previous, _, stop⟩ := c
  cases hrest
  cases h.rest with
  | cons _ ht _ hmore =>
    refine ⟨⟨⟨?_, hmore⟩, Nat.le_refl _, .inr ⟨ht.starts, ht.within.le, rfl⟩⟩,
      ht, G.le_refl _, G.le_refl _⟩
    rintro _ ⟨⟩
    exact ht.within

end Sound

namespace To

theorem behind (h : c.To G n c₁) (hn : 0 < n) : c.Behind G c₁ := by
  obtain rfl | hmoved := h.moved
  · have hcount := h.count
    omega
  · exact hmoved

theorem front_le (h : c.To G n c₁) : G.le c.front c₁.front := by
  obtain rfl | hmoved := h.moved
  · exact G.le_refl _
  · exact G.le_trans hmoved.le h.sound.back_le_front

theorem trans (h : c.To G n c₁) (h' : c₁.To G m c₂) : c.To G (n + m) c₂ := by
  have hcount := h.count
  have hcount' := h'.count
  refine ⟨h'.sound, by omega, ?_⟩
  obtain rfl | hmoved := h'.moved
  · exact h.moved
  · obtain rfl | hfirst := h.moved
    · exact .inr hmoved
    · have hle := G.le_trans h.sound.back_le_front hmoved.le
      exact .inr ⟨hfirst.starts, G.le_trans hfirst.le hle, hmoved.stop⟩

theorem weaken (h : c.To G n c₁) (hm : m ≤ n) : c.To G m c₁ :=
  ⟨h.sound, Nat.le_trans (Nat.add_le_add_left hm _) h.count, h.moved⟩

theorem back_le (h : c.To G n c₁) (hc : c.Sound G) : G.le c.back c₁.back := by
  obtain rfl | hmoved := h.moved
  · exact G.le_refl _
  · exact G.le_trans hc.back_le_front hmoved.le

theorem back_le_front (h : c.To G n c₁) (hc : c.Sound G) : G.le c.back c₁.front :=
  G.le_trans (h.back_le hc) h.sound.back_le_front

/-- From the next token of a cursor to the last one before another. -/
theorem between_through (h : c.To G n c₁) (hn : 0 < n) (hc : c.Sound G) {s : Span}
    (hs : G.Within s) (hstop : s.stop = c₁.back) :
    G.Between c.front c₁.back (c.here.through s) := by
  have hbehind := h.behind hn
  exact ⟨⟨⟨hstop ▸ hbehind.le, hc.within_here.start, hs.stop⟩, hbehind.starts⟩, G.le_refl _,
    hstop ▸ G.le_refl _⟩

theorem between_through_behind (h : c.To G n c₁) (hn : 0 < n) (hc : c.Sound G) :
    G.Between c.front c₁.back (c.here.through c₁.behind) :=
  h.between_through hn hc h.sound.within_behind (h.behind hn).stop

end To

end Cursor

/-! ## Steps -/

namespace Parser

/-- A run: the cursors at which a token is looked at or moved over, one after the other, and what
is read or the fault. Nothing else is done with a cursor. -/
inductive Runs {α : Type} :
    Parser α → Cursor → List Cursor → Except (Located SyntaxFault) (α × Cursor) → Prop
  | pure {a : α} {c : Cursor} : Runs (pure a) c [] (.ok (a, c))
  | stop {fault : Located SyntaxFault} {c : Cursor} : Runs (throw fault) c [] (.error fault)
  | look {f : Cursor → Parser α} {c : Cursor} {seen : List Cursor}
      {answer : Except (Located SyntaxFault) (α × Cursor)} (h : Runs (f c) c seen answer) :
      Runs (get >>= f) c (c :: seen) answer
  | step {f : Unit → Parser α} {c : Cursor} {seen : List Cursor}
      {answer : Except (Located SyntaxFault) (α × Cursor)} (h : Runs (f ()) c.advance seen answer) :
      Runs (advance >>= f) c (c :: seen) answer

/-- What is read at a cursor has a property together with the cursor behind it, and a fault stands
in the source. -/
def Points {α : Type} (G : Ground) (c : Cursor) (p : Parser α) (P : α → Cursor → Prop) : Prop :=
  ∃ seen answer, Runs p c seen answer ∧
    match answer with
    | .ok (a, c') => P a c'
    | .error fault => G.Within fault.span

/-- What is read has a property, and at least so many tokens are taken for it. -/
def Takes {α : Type} (G : Ground) (p : Parser α) (cost : α → Nat) (R : α → Prop) : Prop :=
  ∀ c, c.Sound G → Points G c p fun a c' => c.To G (cost a) c' ∧ R a

variable {α β : Type} {G : Ground} {n : Nat} {c₀ c : Cursor} {p : Parser α} {f : α → Parser β}
  {P : α → Cursor → Prop} {Q : β → Cursor → Prop} {cost : α → Nat} {R : α → Prop}

section Runs

variable {seen : List Cursor} {answer : Except (Located SyntaxFault) (α × Cursor)}

theorem Runs.run_eq (h : Runs p c seen answer) : p.run c = answer := by
  induction h with
  | pure | stop => rfl
  | look _ ih | step _ ih => exact ih

theorem Runs.bind (h : Runs p c seen answer) :
    match answer with
    | .ok (a, c') => ∀ seen' answer', Runs (f a) c' seen' answer' →
        Runs (p >>= f) c (seen ++ seen') answer'
    | .error fault => Runs (p >>= f) c seen (.error fault) := by
  induction h with
  | pure => exact fun seen' answer' h' => (pure_bind _ f).symm ▸ h'
  | stop => exact .stop
  | @look g c seen answer _ ih =>
    rw [bind_assoc]
    cases answer with
    | ok found => exact fun seen' answer' h' => .look (ih seen' answer' h')
    | error fault => exact .look ih
  | @step g c seen answer _ ih =>
    rw [bind_assoc]
    cases answer with
    | ok found => exact fun seen' answer' h' => .step (ih seen' answer' h')
    | error fault => exact .step ih

end Runs

theorem points_pure {a : α} (h : P a c) : Points G c (pure a : Parser α) P :=
  ⟨[], _, .pure, h⟩

theorem Points.bind (h : Points G c p P) (h' : ∀ a c', P a c' → Points G c' (f a) Q) :
    Points G c (p >>= f) Q := by
  obtain ⟨seen, answer, hrun, h⟩ := h
  have hbind := hrun.bind (f := f)
  cases answer with
  | error fault => exact ⟨seen, _, hbind, h⟩
  | ok found =>
    obtain ⟨seen', answer', hrun', h'⟩ := h' found.1 found.2 h
    exact ⟨seen ++ seen', answer', hbind seen' answer' hrun', h'⟩

theorem Points.mono {P' : α → Cursor → Prop} (h : Points G c p P)
    (h' : ∀ a c', P a c' → P' a c') : Points G c p P' := by
  obtain ⟨seen, answer, hrun, h⟩ := h
  cases answer with
  | error fault => exact ⟨seen, _, hrun, h⟩
  | ok found => exact ⟨seen, _, hrun, h' found.1 found.2 h⟩

theorem Points.of_run (h : Points G c p P) {a : α} {c' : Cursor} (hrun : p.run c = .ok (a, c')) :
    P a c' := by
  obtain ⟨seen, answer, hruns, h⟩ := h
  cases hruns.run_eq.symm.trans hrun
  exact h

theorem points_get {f : Cursor → Parser β} (h : Points G c (f c) Q) :
    Points G c (get >>= f) Q := by
  obtain ⟨seen, answer, hrun, h⟩ := h
  exact ⟨_, answer, .look hrun, h⟩

theorem points_step {f : Unit → Parser β} (h : Points G c.advance (f ()) Q) :
    Points G c (advance >>= f) Q := by
  obtain ⟨seen, answer, hrun, h⟩ := h
  exact ⟨_, answer, .step hrun, h⟩

theorem points_peek {f : Option TokenKind → Parser β} (h : Points G c (f c.peek) Q) :
    Points G c (peek >>= f) Q :=
  points_get (f := fun c => f c.peek) h

theorem points_here {f : Span → Parser β} (h : Points G c (f c.here) Q) :
    Points G c (here >>= f) Q :=
  points_get (f := fun c => f c.here) h

theorem points_behind {f : Span → Parser β} (h : Points G c (f c.behind) Q) :
    Points G c (behind >>= f) Q :=
  points_get (f := fun c => f c.behind) h

theorem points_isNext {kind : TokenKind} {f : Bool → Parser β}
    (h : Points G c (f (decide (c.peek = some kind))) Q) : Points G c (isNext kind >>= f) Q :=
  points_get (f := fun c => f (decide (c.peek = some kind))) h

theorem points_failAt {span : Span} {fault : SyntaxFault} (h : G.Within span) :
    Points G c (failAt span fault) P :=
  ⟨[], _, .stop, h⟩

theorem points_failAt_bind {span : Span} {fault : SyntaxFault} (h : G.Within span) :
    Points G c (failAt span fault >>= f) Q :=
  (points_failAt (P := fun _ _ => False) h).bind nofun

section Steps

variable (h₀ : c₀.To G n c)
include h₀

theorem points_fail {fault : SyntaxFault} : Points G c (fail fault) P :=
  points_here (points_failAt h₀.sound.within_here)

theorem points_fail_bind {fault : SyntaxFault} : Points G c (fail fault >>= f) Q :=
  (points_fail (P := fun _ _ => False) h₀).bind nofun

/-- A step behind others: from the first of them on, the tokens add up. -/
theorem Takes.next (h : Takes G p cost R)
    (h' : ∀ a c', c₀.To G (n + cost a) c' → R a → Points G c' (f a) Q) :
    Points G c (p >>= f) Q :=
  (h c h₀.sound).bind fun a c' ha => h' a c' (h₀.trans ha.1) ha.2

theorem Takes.last (h : Takes G p cost R)
    (h' : ∀ a c', c₀.To G (n + cost a) c' → R a → P a c') : Points G c p P :=
  (h c h₀.sound).mono fun a c' ha => h' a c' (h₀.trans ha.1) ha.2

theorem points_advance {kind : TokenKind} {f : Unit → Parser β} (hpeek : c.peek = some kind)
    (h : c₀.To G (n + 1) c.advance → G.Between c.front c.advance.back c.here →
      Points G c.advance (f ()) Q) : Points G c (advance >>= f) Q := by
  obtain ⟨hadvance, hspan⟩ := h₀.sound.to_advance hpeek
  exact points_step (h (h₀.trans hadvance) hspan)

theorem points_skip {f : Unit → Parser β} (h : c₀.To G n c.advance → Points G c.advance (f ()) Q) :
    Points G c (advance >>= f) Q := by
  cases hrest : c.rest with
  | nil =>
    have hsame : c.advance = c := by simp [Cursor.advance, hrest]
    exact points_step (h (hsame.symm ▸ h₀))
  | cons t rest =>
    have hpeek : c.peek = some t.kind := by simp [Cursor.peek, hrest]
    exact points_advance h₀ hpeek fun hadvance _ => h (hadvance.weaken (Nat.le_succ n))

theorem points_eatAt {kind : TokenKind} {f : Bool → Parser β}
    (htrue : c.peek = some kind → c₀.To G (n + 1) c.advance → Points G c.advance (f true) Q)
    (hfalse : c.peek ≠ some kind → Points G c (f false) Q) : Points G c (eat kind >>= f) Q := by
  unfold eat
  rw [bind_assoc]
  refine points_isNext ?_
  by_cases hpeek : c.peek = some kind
  · simp only [hpeek, decide_true, if_true, bind_assoc, pure_bind]
    exact points_advance h₀ hpeek fun hadvance _ => htrue hpeek hadvance
  · simp only [hpeek, decide_false, Bool.false_eq_true, if_false, pure_bind]
    exact hfalse hpeek

theorem points_eat {kind : TokenKind} {f : Bool → Parser β}
    (htrue : ∀ c', c₀.To G (n + 1) c' → Points G c' (f true) Q)
    (hfalse : Points G c (f false) Q) : Points G c (eat kind >>= f) Q :=
  points_eatAt h₀ (fun _ => htrue _) fun _ => hfalse

theorem points_expectMarkAt {mark : Punct} {f : Span → Parser β}
    (h : c.peek = some (.punct mark) → c₀.To G (n + 1) c.advance →
      G.Between c.front c.advance.back c.here → Points G c.advance (f c.here) Q) :
    Points G c (expectMark mark >>= f) Q := by
  unfold expectMark eatMark eat
  simp only [bind_assoc]
  refine points_here (points_isNext ?_)
  by_cases hpeek : c.peek = some (.punct mark)
  · simp only [hpeek, decide_true, if_true, bind_assoc, pure_bind]
    exact points_advance h₀ hpeek (h hpeek)
  · simp only [hpeek, decide_false, Bool.false_eq_true, if_false, pure_bind]
    have hfail : ∀ span, G.Within span → Points G c
        (do failAt span (.expectedSpelling mark.spelling (← peek)) : Parser Span)
        fun _ _ => False := fun span hspan => points_peek (points_failAt hspan)
    cases endsBefore mark with
    | true => exact (points_behind (hfail _ h₀.sound.within_behind)).bind nofun
    | false => exact (points_here (hfail _ h₀.sound.within_here)).bind nofun

theorem points_expectMark {mark : Punct} {f : Span → Parser β}
    (h : ∀ c', c₀.To G (n + 1) c' → G.Between c.front c'.back c.here →
      Points G c' (f c.here) Q) : Points G c (expectMark mark >>= f) Q :=
  points_expectMarkAt h₀ fun _ => h _

theorem points_expectNameAt {role : NameRole} {f : Located String → Parser β}
    (h : ∀ name, c.peek = some (.word name) → c₀.To G (n + 1) c.advance →
      G.Between c.front c.advance.back c.here → Points G c.advance (f ⟨name, c.here⟩) Q) :
    Points G c (expectName role >>= f) Q := by
  unfold expectName
  simp only [bind_assoc]
  refine points_peek ?_
  split
  · rename_i name hpeek
    simp only [bind_assoc, pure_bind]
    exact points_here (points_advance h₀ hpeek (h name hpeek))
  · exact points_fail_bind h₀

theorem points_expectName {role : NameRole} {f : Located String → Parser β}
    (h : ∀ name c', c₀.To G (n + 1) c' → G.Between c.front c'.back c.here →
      Points G c' (f ⟨name, c.here⟩) Q) : Points G c (expectName role >>= f) Q :=
  points_expectNameAt h₀ fun name _ => h name _

end Steps

theorem takes_eat (kind : TokenKind) : Takes G (eat kind) Bool.toNat fun _ => True := by
  intro c hc
  rw [← bind_pure (eat kind)]
  refine points_eat hc.to_self (fun c₁ h₁ => ?_) ?_
  · exact points_pure ⟨h₁.weaken (Nat.le_refl 1), trivial⟩
  · exact points_pure ⟨hc.to_self, trivial⟩

theorem takes_expectName (role : NameRole) :
    Takes G (expectName role) (fun _ => 1) fun name => G.Marked name.span := by
  intro c hc
  rw [← bind_pure (expectName role)]
  refine points_expectName hc.to_self fun name c₁ h₁ hspan => ?_
  exact points_pure ⟨h₁.weaken (Nat.le_refl 1), hspan.marked⟩

theorem takes_commaListWithin {item : Parser α} (h : Takes G item cost R) (length : Nat) :
    Takes G (commaListWithin item length) (fun found => (found.map cost).sum)
      fun found => ∀ a ∈ found, R a := by
  induction length with
  | zero =>
    intro c hc
    refine h.next hc.to_self fun a c₁ h₁ ha => points_pure ⟨h₁.weaken ?_, ?_⟩
    · simp
    · exact List.forall_mem_singleton.mpr ha
  | succ length ih =>
    intro c hc
    refine h.next hc.to_self fun a c₁ h₁ ha => points_eat h₁ (fun c₂ h₂ => ?_) ?_
    · refine ih.next h₂ fun more c₃ h₃ hall => points_pure ⟨h₃.weaken ?_, ?_⟩
      · simp only [List.map_cons, List.sum_cons]
        omega
      · exact List.forall_mem_cons.mpr ⟨ha, hall⟩
    · refine points_pure ⟨h₁.weaken ?_, List.forall_mem_singleton.mpr ha⟩
      simp

theorem takes_commaList {item : Parser α} (h : Takes G item cost R) :
    Takes G (commaList item) (fun found => (found.map cost).sum) fun found => ∀ a ∈ found, R a :=
  fun c hc => points_get (takes_commaListWithin h _ c hc)

end Parser

end ShaderBytecode
