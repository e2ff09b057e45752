import ShaderBytecode.Proofs.Printing

/-!
# Reading printed expressions

What is printed of an expression is read as this expression again, unless the budget of the grammar
is too small. The grammar reads a chain of operators from its left end on, so an operand at the left
is not read by a grammar of its own: reading it comes to what is read behind it. Operands and chains
are therefore described by what they leave to be read.
-/

namespace ShaderBytecode

open Ast (Expr)

/-! ## Trees without positions -/

/-- Words stay, and everything stands at the same place. -/
def Respelling.unplaced : Respelling :=
  ⟨id, fun callee _ => callee, fun _ => {}⟩

def Ast.Expr.unplaced (e : Expr) : Expr :=
  e.respell .unplaced

/-! ## Steps -/

def Cursor.kinds (c : Cursor) : List TokenKind :=
  c.rest.map (·.kind)

namespace Parser

variable {α β : Type} {enough : Prop} {kinds rest : List TokenKind} {p : Parser α}
  {f : α → Parser β} {P : α → List TokenKind → Prop} {Q : β → List TokenKind → Prop}

/-- From some tokens, wherever they stand, something is read that has a property together with the
tokens that are left. If the budget is not large enough, reading may stop at its limit. -/
def Gets (enough : Prop) (kinds : List TokenKind) (p : Parser α)
    (P : α → List TokenKind → Prop) : Prop :=
  ∀ c : Cursor, c.kinds = kinds → (∃ a c', p.run c = .ok (a, c') ∧ P a c'.kinds)
    ∨ ¬enough ∧ ∃ span, p.run c = .error ⟨.nestingTooDeep, span⟩

theorem gets_pure {a : α} (h : P a kinds) : Gets enough kinds (pure a) P := by
  rintro c rfl
  exact .inl ⟨a, c, rfl, h⟩

theorem Gets.bind (h : Gets enough kinds p P)
    (h' : ∀ a rest, P a rest → Gets enough rest (f a) Q) : Gets enough kinds (p >>= f) Q := by
  intro c hc
  obtain ⟨a, c', hrun, ha⟩ | ⟨hless, span, hrun⟩ := h c hc
  · have hbind : (p >>= f).run c = (f a).run c' := by
      rw [StateT.run_bind, hrun]
      rfl
    rw [hbind]
    exact h' a c'.kinds ha c' rfl
  · refine .inr ⟨hless, span, ?_⟩
    rw [StateT.run_bind, hrun]
    rfl

theorem gets_peek {f : Option TokenKind → Parser β} (h : Gets enough kinds (f kinds.head?) Q) :
    Gets enough kinds (peek >>= f) Q := by
  rintro c rfl
  have hpeek : c.kinds.head? = c.peek := List.head?_map
  rw [hpeek] at h
  exact h c rfl

variable {f : Span → Parser β} {kind : TokenKind}

theorem gets_here (h : ∀ span, Gets enough kinds (f span) Q) : Gets enough kinds (here >>= f) Q :=
  fun c hc => h c.here c hc

theorem gets_behind (h : ∀ span, Gets enough kinds (f span) Q) :
    Gets enough kinds (behind >>= f) Q :=
  fun c hc => h c.behind c hc

theorem gets_advance {f : Unit → Parser β} (h : Gets enough rest (f ()) Q) :
    Gets enough (kind :: rest) (advance >>= f) Q := by
  intro c hc
  have hadvance : c.advance.kinds = rest := by
    unfold Cursor.kinds at hc ⊢
    unfold Cursor.advance
    split
    · rename_i hrest
      rw [hrest] at hc
      exact (List.cons.inj hc).2
    · rename_i hrest
      rw [hrest] at hc
      cases hc
  exact h c.advance hadvance

theorem gets_eat {f : Bool → Parser β} (h : Gets enough rest (f true) Q) :
    Gets enough (kind :: rest) (eat kind >>= f) Q := by
  unfold eat isNext
  simp only [bind_assoc, pure_bind]
  refine gets_peek ?_
  simp only [List.head?_cons, decide_true, if_true, bind_assoc, pure_bind]
  exact gets_advance h

theorem gets_eat_other {f : Bool → Parser β} (hkind : kinds.head? ≠ some kind)
    (h : Gets enough kinds (f false) Q) : Gets enough kinds (eat kind >>= f) Q := by
  unfold eat isNext
  simp only [bind_assoc, pure_bind]
  refine gets_peek ?_
  simp only [hkind, decide_false, Bool.false_eq_true, if_false, pure_bind]
  exact h

theorem gets_expectMark {mark : Punct} (h : ∀ span, Gets enough rest (f span) Q) :
    Gets enough (.punct mark :: rest) (expectMark mark >>= f) Q := by
  unfold expectMark eatMark
  simp only [bind_assoc]
  refine gets_here fun span => gets_eat ?_
  simp only [if_true, pure_bind]
  exact h span

theorem gets_expectName {word : String} {role : NameRole} {f : Located String → Parser β}
    (h : ∀ span, Gets enough rest (f ⟨word, span⟩) Q) :
    Gets enough (.word word :: rest) (expectName role >>= f) Q := by
  unfold expectName
  simp only [bind_assoc]
  refine gets_peek ?_
  simp only [List.head?_cons, bind_assoc, pure_bind]
  exact gets_here fun span => gets_advance (h span)

end Parser

/-! ## Where an expression ends -/

/-- How tightly a token binds that continues the expression before it. -/
def TokenKind.strength? : TokenKind → Option Nat
  | .punct .assign | .punct (.assignWith _) => some 0
  | .punct .question => some 1
  | .punct (.binary op) => some (op.precedence + 1)
  | .punct .dot | .punct .openBracket | .punct .increment | .punct .decrement => some 9
  | .punct .openParen => some 10
  | _ => none

/-- No token follows that continues an expression of at least so high a rank. -/
def Ends (rank : Nat) (kinds : List TokenKind) : Prop :=
  ∀ kind ∈ kinds.head?, ∀ strength ∈ kind.strength?, strength < rank

variable {rank : Nat} {kinds : List TokenKind} {kind : TokenKind}

theorem Ends.mono {rank' : Nat} (h : Ends rank kinds) (hrank : rank ≤ rank') : Ends rank' kinds :=
  fun kind hkind strength hstrength => Nat.lt_of_lt_of_le (h kind hkind strength hstrength) hrank

theorem ends_of_strength {strength : Nat} (h : kind.strength? = some strength)
    (hrank : strength < rank) : Ends rank (kind :: kinds) := by
  rintro _ ⟨⟩ _ hstrength
  cases h.symm.trans hstrength
  exact hrank

theorem ends_of_no_strength (h : kind.strength? = none) : Ends rank (kind :: kinds) := by
  rintro _ ⟨⟩ _ hstrength
  cases h.symm.trans hstrength

theorem Ends.head?_ne {strength : Nat} (h : Ends rank kinds)
    (hkind : kind.strength? = some strength) (hrank : rank ≤ strength) :
    kinds.head? ≠ some kind := fun hhead =>
  Nat.not_lt.mpr hrank (h kind hhead strength hkind)

theorem BinaryOp.precedence_le (op : BinaryOp) : 1 ≤ op.precedence ∧ op.precedence ≤ 6 := by
  cases op with
  | arith op => cases op <;> decide
  | compare op => cases op <;> decide
  | logic op => cases op <;> decide

/-- A first token is there, and it is no closing parenthesis. -/
def Starts (kinds : List TokenKind) : Prop :=
  ∃ kind rest, kinds = kind :: rest ∧ kind ≠ .punct .closeParen

theorem Starts.append (h : Starts kinds) (more : List TokenKind) : Starts (kinds ++ more) := by
  obtain ⟨kind, rest, rfl, hkind⟩ := h
  exact ⟨kind, rest ++ more, rfl, hkind⟩

theorem Starts.ne_nil (h : Starts kinds) : kinds ≠ [] := by
  obtain ⟨kind, rest, rfl, -⟩ := h
  exact List.cons_ne_nil kind rest

/-! ## Phrases -/

namespace Level

open ShaderBytecode.Parser

/-- The grammar of what nests one level deeper than a budget allows. -/
def below : Nat → Option Level
  | 0 => none
  | b + 1 => some (ofBudget b)

theorem ofBudget_eq (b : Nat) : ofBudget b = ofLower (below b) := by
  cases b <;> rfl

variable {enough : Prop} {kinds more : List TokenKind} {e : Expr} {rank b : Nat}

/-- What is behind an operator is read with one unit less, if there is one. -/
theorem gets_nest {β : Type} {f : Level → Parser β} {Q : β → List TokenKind → Prop}
    (hpos : enough → 0 < b) (h : ∀ b', b = b' + 1 → Gets enough kinds (f (ofBudget b')) Q) :
    Gets enough kinds (nest (below b) >>= f) Q := by
  cases b with
  | zero => exact fun c _ => .inr ⟨fun he => Nat.lt_irrefl 0 (hpos he), c.here, rfl⟩
  | succ b => exact h b rfl

/-- An expression is read and the tokens behind it are left. -/
def Exactly (e : Expr) (more : List TokenKind) (read : Expr) (rest : List TokenKind) : Prop :=
  read.unplaced = e.unplaced ∧ rest = more

/-- Reading the tokens comes to reading the suffixes behind the expression. -/
def Suffixed (kinds : List TokenKind) (e : Expr) : Prop :=
  ∀ ⦃enough : Prop⦄ ⦃b : Nat⦄ ⦃more : List TokenKind⦄ ⦃Q : Expr → List TokenKind → Prop⦄,
    Ends 10 more → (enough → kinds.length ≤ b + 1) →
    (∀ read b', read.unplaced = e.unplaced → b < b' + kinds.length →
      Gets enough more ((ofBudget b').suffixes read) Q) →
    Gets enough (kinds ++ more) (ofBudget b).unary Q

def Unary (kinds : List TokenKind) (e : Expr) : Prop :=
  ∀ ⦃enough : Prop⦄ ⦃b : Nat⦄ ⦃more : List TokenKind⦄,
    Ends 8 more → (enough → kinds.length ≤ b + 1) →
    Gets enough (kinds ++ more) (ofBudget b).unary (Exactly e more)

/-- Reading the tokens comes to reading the rest of the chain behind the expression. -/
def Chained (kinds : List TokenKind) (rank : Nat) (e : Expr) : Prop :=
  ∀ ⦃enough : Prop⦄ ⦃b minimum : Nat⦄ ⦃more : List TokenKind⦄
    ⦃Q : Expr → List TokenKind → Prop⦄,
    minimum < rank → Ends (min (rank + 1) 8) more → (enough → kinds.length ≤ b + 1) →
    (∀ read b', read.unplaced = e.unplaced → b < b' + kinds.length →
      Gets enough more ((ofBudget b').binaryTail minimum read) Q) →
    Gets enough (kinds ++ more) ((ofBudget b).binary minimum) Q

/-- The tokens are read as a choice or anything that binds more tightly. -/
def Chosen (kinds : List TokenKind) (e : Expr) : Prop :=
  ∀ ⦃enough : Prop⦄ ⦃b : Nat⦄ ⦃more : List TokenKind⦄,
    Ends 1 more → (enough → kinds.length ≤ b + 1) →
    Gets enough (kinds ++ more) (ofBudget b).ternary (Exactly e more)

def Whole (kinds : List TokenKind) (e : Expr) : Prop :=
  ∀ ⦃enough : Prop⦄ ⦃b : Nat⦄ ⦃more : List TokenKind⦄,
    Ends 0 more → (enough → kinds.length ≤ b) →
    Gets enough (kinds ++ more) (ofBudget b).assignment (Exactly e more)

theorem gets_suffixes_end (hends : Ends 8 more) (read : Expr)
    {Q : Expr → List TokenKind → Prop} (h : Q read more) :
    Gets enough more ((ofBudget b).suffixes read) Q := by
  rw [ofBudget_eq]
  refine gets_peek ?_
  split
  case h_5 => exact gets_pure h
  all_goals
    rename_i hhead
    exact absurd hhead (hends.head?_ne rfl (by decide))

theorem Suffixed.unary (h : Suffixed kinds e) : Unary kinds e := by
  intro enough b more hends hlength
  refine h (hends.mono (by decide)) hlength fun read b' hread _ => ?_
  exact gets_suffixes_end hends read ⟨hread, rfl⟩

theorem Unary.chained (h : Unary kinds e) (hne : kinds ≠ []) : Chained kinds rank e := by
  intro enough b minimum more Q _ hends hlength htail
  have hends : Ends 8 more := hends.mono (Nat.min_le_right _ _)
  have hread := h hends hlength
  rw [ofBudget_eq] at hread ⊢
  refine hread.bind ?_
  rintro read _ ⟨hsame, rfl⟩
  have htail := htail read b hsame (by
    have hpos := List.length_pos_iff.mpr hne
    omega)
  rw [ofBudget_eq] at htail
  exact htail

theorem gets_binaryTail_end {minimum : Nat} (hends : Ends (minimum + 1) more) (read : Expr)
    {Q : Expr → List TokenKind → Prop} (h : Q read more) :
    Gets enough more ((ofBudget b).binaryTail minimum read) Q := by
  rw [ofBudget_eq]
  refine gets_peek ?_
  split
  · rename_i op hop
    obtain ⟨kind, hhead, hkind⟩ := Option.bind_eq_some_iff.mp hop
    unfold binaryOp? at hkind
    split at hkind
    · split at hkind
      · rename_i hleast
        exact absurd hhead (hends.head?_ne rfl (Nat.succ_le_succ hleast))
      · cases hkind
    · cases hkind
  · exact gets_pure h

theorem Chained.chosen (h : Chained kinds rank e) (hrank : 2 ≤ rank) : Chosen kinds e := by
  intro enough b more hends hlength
  have hbinary : Gets enough (kinds ++ more) ((ofBudget b).binary 1) (Exactly e more) := by
    refine h hrank (hends.mono (by omega)) hlength fun read b' hread _ => ?_
    exact gets_binaryTail_end (hends.mono (by decide)) read ⟨hread, rfl⟩
  rw [ofBudget_eq] at hbinary ⊢
  refine hbinary.bind ?_
  rintro read _ ⟨hsame, rfl⟩
  exact gets_eat_other (hends.head?_ne rfl (Nat.le_refl 1)) (gets_pure ⟨hsame, rfl⟩)

theorem Chosen.whole (h : Chosen kinds e) (hne : kinds ≠ []) : Whole kinds e := by
  intro enough b more hends hlength
  rw [ofBudget_eq]
  have hpos := List.length_pos_iff.mpr hne
  refine gets_nest (fun he => Nat.lt_of_lt_of_le hpos (hlength he)) fun b' hb => ?_
  refine (h (hends.mono (by decide)) (hb ▸ hlength)).bind ?_
  rintro read _ ⟨hsame, rfl⟩
  refine gets_peek ?_
  split
  · rename_i op hop
    obtain ⟨kind, hhead, hkind⟩ := Option.bind_eq_some_iff.mp hop
    unfold assignmentOp? at hkind
    split at hkind
    · exact absurd hhead (hends.head?_ne rfl (Nat.le_refl 0))
    · exact absurd hhead (hends.head?_ne rfl (Nat.le_refl 0))
    · cases hkind
  · exact gets_pure ⟨hsame, rfl⟩

/-- Tokens of an expression that bind as tightly as a rank says: they are read by each form of the
grammar for expressions that do not bind more tightly. -/
structure Phrase (kinds : List TokenKind) (rank : Nat) (e : Expr) : Prop where
  suffixed : 9 ≤ rank → Suffixed kinds e
  unary : 8 ≤ rank → Unary kinds e
  chained : 2 ≤ rank → Chained kinds rank e
  chosen : 1 ≤ rank → Chosen kinds e
  whole : Whole kinds e

theorem Whole.phrase (h : Whole kinds e) : Phrase kinds 0 e :=
  ⟨nofun, nofun, nofun, nofun, h⟩

theorem Chosen.phrase (h : Chosen kinds e) (hne : kinds ≠ []) : Phrase kinds 1 e where
  suffixed hrank := absurd hrank (by decide)
  unary hrank := absurd hrank (by decide)
  chained hrank := absurd hrank (by decide)
  chosen _ := h
  whole := h.whole hne

theorem Chained.phrase (h : Chained kinds rank e) (hne : kinds ≠ []) (hleast : 2 ≤ rank)
    (hmost : rank ≤ 7) : Phrase kinds rank e where
  suffixed hrank := by omega
  unary hrank := by omega
  chained _ := h
  chosen _ := h.chosen hleast
  whole := (h.chosen hleast).whole hne

theorem Unary.phrase (h : Unary kinds e) (hne : kinds ≠ []) : Phrase kinds 8 e := by
  have hchained : Chained kinds 8 e := h.chained hne
  have hchosen := hchained.chosen (by decide)
  exact ⟨fun hrank => absurd hrank (by decide), fun _ => h, fun _ => hchained, fun _ => hchosen,
    hchosen.whole hne⟩

theorem Suffixed.phrase (h : Suffixed kinds e) (hne : kinds ≠ []) : Phrase kinds 9 e where
  suffixed _ := h
  unary _ := h.unary
  chained _ := h.unary.chained hne
  chosen _ := (h.unary.phrase hne).chosen (by decide)
  whole := (h.unary.phrase hne).whole

/-! ## Operands -/

/-- What is neither behind an operator nor has one in front of it is followed by suffixes. -/
theorem suffixed_of_primary (hne : kinds ≠ []) (hhead : kinds.head?.bind prefixNode? = none)
    (h : ∀ ⦃enough : Prop⦄ ⦃b : Nat⦄ ⦃more : List TokenKind⦄, Ends 10 more →
      (enough → kinds.length ≤ b + 1) →
      Gets enough (kinds ++ more) (primary (ofBudget b).assignment) (Exactly e more)) :
    Suffixed kinds e := by
  intro enough b more Q hends hlength hsuffixes
  have hprimary := h hends hlength
  rw [ofBudget_eq] at hprimary ⊢
  refine gets_peek ?_
  rw [List.head?_append_of_ne_nil _ hne]
  split
  · rename_i node hnode
    cases hhead.symm.trans hnode
  · refine hprimary.bind ?_
    rintro read _ ⟨hsame, rfl⟩
    have hpos := List.length_pos_iff.mpr hne
    have hsuffixes := hsuffixes read b hsame (by omega)
    rw [ofBudget_eq] at hsuffixes
    exact hsuffixes

theorem suffixed_int (value : Nat) (span : Span) : Suffixed [.int value] (.int value span) := by
  refine suffixed_of_primary (by simp) rfl fun enough b more _ _ => ?_
  exact gets_here fun _ => gets_peek (gets_advance (gets_pure ⟨rfl, rfl⟩))

theorem suffixed_float (value : Double) (span : Span) :
    Suffixed [.float value] (.float value span) := by
  refine suffixed_of_primary (by simp) rfl fun enough b more _ _ => ?_
  exact gets_here fun _ => gets_peek (gets_advance (gets_pure ⟨rfl, rfl⟩))

theorem suffixed_bool (value : Bool) (span : Span) : Suffixed [.bool value] (.bool value span) := by
  refine suffixed_of_primary (by simp) rfl fun enough b more _ _ => ?_
  exact gets_here fun _ => gets_peek (gets_advance (gets_pure ⟨rfl, rfl⟩))

theorem suffixed_name (w : String) (span : Span) : Suffixed [.word w] (.name w span) := by
  refine suffixed_of_primary (by simp) rfl fun enough b more hends _ => ?_
  refine gets_here fun _ => gets_peek (gets_advance ?_)
  exact gets_eat_other (hends.head?_ne rfl (Nat.le_refl 10)) (gets_pure ⟨rfl, rfl⟩)

theorem Whole.enclosed (h : Whole kinds e) :
    Suffixed (.punct .openParen :: (kinds ++ [.punct .closeParen])) e := by
  refine suffixed_of_primary (by simp) rfl fun enough b more _ hlength => ?_
  simp only [List.cons_append, List.append_assoc, List.nil_append]
  refine gets_here fun _ => gets_peek (gets_advance ?_)
  refine (h (ends_of_no_strength rfl) fun he => ?_).bind ?_
  · have hlength := hlength he
    simp only [List.length_cons, List.length_append] at hlength
    omega
  · rintro read _ ⟨hsame, rfl⟩
    exact gets_expectMark fun _ => gets_pure ⟨hsame, rfl⟩

theorem gets_commaListWithin {items : List (List TokenKind × Expr)} (hne : items ≠ [])
    (hwhole : ∀ item ∈ items, Whole item.1 item.2) {length : Nat} (hlength : items.length ≤ length)
    (hends : Ends 0 more) (hcomma : more.head? ≠ some (.punct .comma))
    (henough : enough → ∀ item ∈ items, item.1.length ≤ b) :
    Gets enough ([TokenKind.punct .comma].intercalate (items.map Prod.fst) ++ more)
      (commaListWithin (ofBudget b).assignment length) fun read rest =>
        read.map Expr.unplaced = items.map (·.2.unplaced) ∧ rest = more := by
  induction items generalizing length with
  | nil => exact absurd rfl hne
  | cons first others ih =>
    obtain ⟨hfirst, hothers⟩ := List.forall_mem_cons.mp hwhole
    have hsmall : enough → first.1.length ≤ b := fun he => henough he first List.mem_cons_self
    cases length with
    | zero => exact absurd hlength (Nat.not_succ_le_zero _)
    | succ length =>
      cases others with
      | nil =>
        rw [List.map_singleton, List.intercalate_singleton]
        refine (hfirst hends hsmall).bind ?_
        rintro read _ ⟨hsame, rfl⟩
        refine gets_eat_other hcomma (gets_pure ⟨?_, rfl⟩)
        rw [List.map_singleton, List.map_singleton, hsame]
      | cons next others =>
        have hfuel : (next :: others).length ≤ length := Nat.le_of_succ_le_succ hlength
        have hrest := ih (List.cons_ne_nil _ _) hothers hfuel
          fun he item hitem => henough he item (List.mem_cons_of_mem _ hitem)
        rw [List.map_cons, List.map_cons] at *
        rw [List.intercalate_cons_cons, List.append_assoc, List.append_assoc,
          List.singleton_append]
        refine (hfirst (ends_of_no_strength rfl) hsmall).bind ?_
        rintro read _ ⟨hsame, rfl⟩
        refine gets_eat (hrest.bind ?_)
        rintro reads _ ⟨hall, rfl⟩
        refine gets_pure ⟨?_, rfl⟩
        rw [List.map_cons, List.map_cons, hsame, hall]
        rfl

/-- Items that are not empty are fewer and shorter than what is put together of them. -/
theorem length_le_intercalate {items : List (List TokenKind)} (hne : ∀ item ∈ items, item ≠ []) :
    items.length ≤ ([TokenKind.punct .comma].intercalate items).length
      ∧ ∀ item ∈ items, item.length ≤ ([TokenKind.punct .comma].intercalate items).length := by
  induction items with
  | nil => exact ⟨Nat.le_refl 0, List.forall_mem_nil _⟩
  | cons first others ih =>
    obtain ⟨hfirst, hothers⟩ := List.forall_mem_cons.mp hne
    have hpos := List.length_pos_iff.mpr hfirst
    cases others with
    | nil => simpa [List.intercalate_singleton] using Nat.succ_le_of_lt hpos
    | cons next others =>
      obtain ⟨hcount, hall⟩ := ih hothers
      rw [List.intercalate_cons_cons]
      simp only [List.length_append, List.length_cons] at hcount hall ⊢
      refine ⟨by omega, List.forall_mem_cons.mpr ⟨by omega, fun item hitem => ?_⟩⟩
      have hitem := hall item hitem
      omega

theorem suffixed_call (callee : String) {items : List (List TokenKind × Expr)}
    (hwhole : ∀ item ∈ items, Whole item.1 item.2)
    (hstarts : ∀ item ∈ items, Starts item.1)
    (span : Span) :
    Suffixed (.word callee :: .punct .openParen
      :: ([TokenKind.punct .comma].intercalate (items.map Prod.fst) ++ [.punct .closeParen]))
      (.call callee (items.map Prod.snd) span) := by
  have hne : ∀ item ∈ items.map Prod.fst, item ≠ [] := by
    intro item hitem
    obtain ⟨item, hmem, rfl⟩ := List.mem_map.mp hitem
    exact (hstarts item hmem).ne_nil
  obtain ⟨hcount, hsizes⟩ := length_le_intercalate hne
  refine suffixed_of_primary (by simp) rfl fun enough b more _ hlength => ?_
  simp only [List.length_cons, List.length_append, List.length_nil, List.length_map]
    at hlength hcount
  simp only [List.cons_append, List.append_assoc, List.nil_append]
  refine gets_here fun start => gets_peek (gets_advance (gets_eat ?_))
  have hfound : Gets enough ([TokenKind.punct .comma].intercalate (items.map Prod.fst)
      ++ .punct .closeParen :: more) (arguments (ofBudget b).assignment) fun read rest =>
        read.map Expr.unplaced = items.map (·.2.unplaced) ∧ rest = more := by
    cases items with
    | nil => exact gets_eat (gets_pure ⟨rfl, rfl⟩)
    | cons first others =>
      obtain ⟨kind, rest, hkinds, hkind⟩ := hstarts first List.mem_cons_self
      have hhead : ([TokenKind.punct .comma].intercalate ((first :: others).map Prod.fst)
          ++ .punct .closeParen :: more).head? ≠ some (.punct .closeParen) := by
        cases others with
        | nil => simp [hkinds, hkind]
        | cons next others => simp [List.intercalate_cons_cons, hkinds, hkind]
      have hlist : Gets enough ([TokenKind.punct .comma].intercalate
          ((first :: others).map Prod.fst) ++ .punct .closeParen :: more)
          (commaList (ofBudget b).assignment) fun read rest =>
            read.map Expr.unplaced = (first :: others).map (·.2.unplaced)
              ∧ rest = .punct .closeParen :: more := by
        intro c hc
        refine gets_commaListWithin (List.cons_ne_nil _ _) hwhole ?_ (ends_of_no_strength rfl)
          (by simp) (fun he item hitem => ?_) c hc
        · have hrest := congrArg List.length hc
          simp only [Cursor.kinds, List.length_map, List.length_append] at hrest
          omega
        · have hsize := hsizes item.1 (List.mem_map_of_mem hitem)
          have hlength := hlength he
          omega
      refine gets_eat_other hhead (hlist.bind ?_)
      rintro read _ ⟨hsame, rfl⟩
      exact gets_expectMark fun _ => gets_pure ⟨hsame, rfl⟩
  refine hfound.bind ?_
  rintro found _ ⟨hsame, rfl⟩
  refine gets_behind fun stop => gets_pure ⟨?_, rfl⟩
  have harguments : Expr.respellAll .unplaced found
      = Expr.respellAll .unplaced (items.map Prod.snd) := by
    rw [Expr.respellAll_eq_map, Expr.respellAll_eq_map, List.map_map]
    exact hsame
  exact congrArg (Expr.call callee · ⟨{}, {}⟩) harguments

variable {base : Expr} {kinds' : List TokenKind}

theorem Suffixed.suffix {suffix : List TokenKind} (h : Suffixed kinds base) (hne : suffix ≠ [])
    (hends : ∀ more, Ends 10 (suffix ++ more))
    (hnode : ∀ {enough : Prop} {b : Nat} {more : List TokenKind}
      {Q : Expr → List TokenKind → Prop} {read : Expr}, read.unplaced = base.unplaced →
      (enough → suffix.length ≤ b) →
      (∀ node b', node.unplaced = e.unplaced → b = b' + 1 →
        Gets enough more ((ofBudget b').suffixes node) Q) →
      Gets enough (suffix ++ more) ((ofBudget b).suffixes read) Q) :
    Suffixed (kinds ++ suffix) e := by
  intro enough b more Q hmore hlength hsuffixes
  rw [List.append_assoc]
  simp only [List.length_append] at hlength hsuffixes
  have hpos := List.length_pos_iff.mpr hne
  refine h (hends more) (fun he => by have := hlength he; omega) fun read b' hread hb => ?_
  refine hnode hread (fun he => by have := hlength he; omega) fun node b'' hsame hb' => ?_
  exact hsuffixes node b'' hsame (by omega)

theorem Suffixed.member (h : Suffixed kinds base) (w : String) (span : Span) :
    Suffixed (kinds ++ [.punct .dot, .word w]) (.member base w span) := by
  refine h.suffix (by simp) (fun _ => ends_of_strength rfl (by decide))
    fun {enough b more Q read} hread hlength hsuffixes => ?_
  rw [ofBudget_eq]
  refine gets_peek (gets_nest (fun he => ?_) fun b' hb => gets_advance ?_)
  · exact Nat.lt_of_lt_of_le (Nat.succ_pos 1) (hlength he)
  · refine gets_expectName fun name => hsuffixes _ b' ?_ hb
    exact congrArg (Expr.member · w ⟨{}, {}⟩) hread

theorem Suffixed.index {place : Expr} {inner : List TokenKind} (h : Suffixed kinds base)
    (hplace : Whole inner place) (span : Span) :
    Suffixed (kinds ++ .punct .openBracket :: (inner ++ [.punct .closeBracket]))
      (.index base place span) := by
  refine h.suffix (by simp) (fun _ => ends_of_strength rfl (by decide))
    fun {enough b more Q read} hread hlength hsuffixes => ?_
  simp only [List.length_cons, List.length_append, List.length_nil] at hlength
  simp only [List.cons_append, List.append_assoc, List.nil_append]
  rw [ofBudget_eq]
  refine gets_peek (gets_nest (fun he => ?_) fun b' hb => gets_advance ?_)
  · have hlength := hlength he
    omega
  · refine (hplace (ends_of_no_strength rfl) fun he => ?_).bind ?_
    · have hlength := hlength he
      omega
    · rintro found _ ⟨hfound, rfl⟩
      refine gets_expectMark fun close => hsuffixes _ b' ?_ hb
      exact congrArg₂ (Expr.index · · ⟨{}, {}⟩) hread hfound

theorem Suffixed.postInc (h : Suffixed kinds base) (span : Span) :
    Suffixed (kinds ++ [.punct .increment]) (.step .postInc base span) := by
  refine h.suffix (by simp) (fun _ => ends_of_strength rfl (by decide))
    fun {enough b more Q read} hread hlength hsuffixes => ?_
  rw [ofBudget_eq]
  refine gets_peek (gets_nest hlength fun b' hb => gets_here fun start => gets_advance ?_)
  exact hsuffixes _ b' (congrArg (Expr.step .postInc · ⟨{}, {}⟩) hread) hb

theorem Suffixed.postDec (h : Suffixed kinds base) (span : Span) :
    Suffixed (kinds ++ [.punct .decrement]) (.step .postDec base span) := by
  refine h.suffix (by simp) (fun _ => ends_of_strength rfl (by decide))
    fun {enough b more Q read} hread hlength hsuffixes => ?_
  rw [ofBudget_eq]
  refine gets_peek (gets_nest hlength fun b' hb => gets_here fun start => gets_advance ?_)
  exact hsuffixes _ b' (congrArg (Expr.step .postDec · ⟨{}, {}⟩) hread) hb

theorem Unary.prefixed {kind : TokenKind} {node : Span → Expr → Expr} {operand : Expr}
    (h : Unary kinds operand) (hne : kinds ≠ []) (hnode : prefixNode? kind = some node)
    (hsame : ∀ span read, read.unplaced = operand.unplaced →
      (node span read).unplaced = e.unplaced) : Unary (kind :: kinds) e := by
  intro enough b more hends hlength
  simp only [List.length_cons] at hlength
  rw [ofBudget_eq]
  refine gets_peek ?_
  simp only [List.cons_append, List.head?_cons, Option.bind_some, hnode]
  refine gets_nest (fun he => ?_) fun b' hb => gets_here fun span => gets_advance ?_
  · have hpos := List.length_pos_iff.mpr hne
    have hlength := hlength he
    omega
  · refine (h hends fun he => ?_).bind ?_
    · have hlength := hlength he
      omega
    · rintro read _ ⟨hread, rfl⟩
      exact gets_pure ⟨hsame span read hread, rfl⟩

/-! ## Chains -/

theorem Chained.binary {left right : Expr} {rank' : Nat} (op : BinaryOp)
    (hleft : Chained kinds rank left) (hright : Chained kinds' rank' right)
    (hrank : op.precedence + 1 ≤ rank) (hrank' : op.precedence + 2 ≤ rank') (span : Span) :
    Chained (kinds ++ .punct (.binary op) :: kinds') (op.precedence + 1)
      (.binary op left right span) := by
  intro enough b minimum more Q hminimum hends hlength htail
  obtain ⟨-, hmost⟩ := op.precedence_le
  simp only [List.length_append, List.length_cons] at hlength htail
  rw [List.append_assoc, List.cons_append]
  refine hleft (by omega) (ends_of_strength rfl (by omega)) (fun he => ?_)
    fun first b' hfirst hb => ?_
  · have hlength := hlength he
    omega
  · rw [ofBudget_eq]
    refine gets_peek ?_
    have hop : binaryOp? minimum (.punct (.binary op)) = some op :=
      if_pos (Nat.le_of_lt_succ hminimum)
    simp only [List.head?_cons, Option.bind_some, hop]
    refine gets_nest (fun he => ?_) fun b'' hb' => gets_advance ?_
    · have hlength := hlength he
      omega
    · -- The right operand ends where the whole chain does.
      have hsecond : Gets enough (kinds' ++ more) ((ofBudget b'').binary (op.precedence + 1))
          (Exactly right more) := by
        refine hright (by omega) (hends.mono (by omega)) (fun he => ?_)
          fun second b₃ hsecond _ => ?_
        · have hlength := hlength he
          omega
        · exact gets_binaryTail_end (hends.mono (by omega)) second ⟨hsecond, rfl⟩
      refine hsecond.bind ?_
      rintro second _ ⟨hsame, rfl⟩
      refine htail _ b'' ?_ (by omega)
      exact congrArg₂ (Expr.binary op · · ⟨{}, {}⟩) hfirst hsame

theorem Chained.ternary {test whenTrue whenFalse : Expr} {kinds'' : List TokenKind}
    (htest : Chained kinds rank test) (htrue : Whole kinds' whenTrue)
    (hfalse : Chosen kinds'' whenFalse) (hrank : 2 ≤ rank) (span : Span) :
    Chosen (kinds ++ .punct .question :: (kinds' ++ .punct .colon :: kinds''))
      (.ternary test whenTrue whenFalse span) := by
  intro enough b more hends hlength
  simp only [List.length_append, List.length_cons] at hlength
  simp only [List.append_assoc, List.cons_append]
  have hquestion : ∀ rest, Ends 2 (.punct .question :: rest) :=
    fun rest => ends_of_strength rfl (by decide)
  have hcondition : Gets enough (kinds ++ .punct .question :: (kinds' ++ .punct .colon
      :: (kinds'' ++ more))) ((ofBudget b).binary 1) (Exactly test (.punct .question
        :: (kinds' ++ .punct .colon :: (kinds'' ++ more)))) := by
    refine htest hrank ((hquestion _).mono (by omega)) (fun he => ?_) fun read b' hread _ => ?_
    · have hlength := hlength he
      omega
    · exact gets_binaryTail_end (hquestion _) read ⟨hread, rfl⟩
  rw [ofBudget_eq] at hcondition ⊢
  refine hcondition.bind ?_
  rintro condition _ ⟨hsame, rfl⟩
  refine gets_eat (gets_nest (fun he => ?_) fun b' hb => ?_)
  · have hlength := hlength he
    omega
  · refine (htrue (ends_of_no_strength rfl) fun he => ?_).bind ?_
    · have hlength := hlength he
      omega
    · rintro first _ ⟨hfirst, rfl⟩
      refine gets_expectMark fun _ => (hfalse hends fun he => ?_).bind ?_
      · have hlength := hlength he
        omega
      · rintro second _ ⟨hsecond, rfl⟩
        refine gets_pure ⟨?_, rfl⟩
        show Expr.ternary condition.unplaced first.unplaced second.unplaced _ = _
        rw [hsame, hfirst, hsecond]
        rfl

theorem Chosen.assign {target value : Expr} (op : Option ArithOp) (htarget : Chosen kinds target)
    (hvalue : Whole kinds' value) (span : Span) :
    Whole (kinds ++ .punct (Ast.assignmentMark op) :: kinds') (.assign op target value span) := by
  intro enough b more hends hlength
  simp only [List.length_append, List.length_cons] at hlength
  rw [List.append_assoc, List.cons_append, ofBudget_eq]
  have hmark : assignmentOp? (.punct (Ast.assignmentMark op)) = some op := by
    cases op <;> rfl
  have hstrength : TokenKind.strength? (.punct (Ast.assignmentMark op)) = some 0 := by
    cases op <;> rfl
  refine gets_nest (fun he => ?_) fun b' hb => ?_
  · have hlength := hlength he
    omega
  · refine (htarget (ends_of_strength hstrength (by decide)) fun he => ?_).bind ?_
    · have hlength := hlength he
      omega
    · rintro place _ ⟨hplace, rfl⟩
      refine gets_peek ?_
      simp only [List.head?_cons, Option.bind_some, hmark]
      refine gets_advance ((hvalue hends fun he => ?_).bind ?_)
      · have hlength := hlength he
        omega
      · rintro found _ ⟨hfound, rfl⟩
        refine gets_pure ⟨?_, rfl⟩
        exact congrArg₂ (Expr.assign op · · ⟨{}, {}⟩) hplace hfound

end Level

/-! ## Expressions -/

namespace Ast

open Level

theorem Expr.starts_enclosed {e : Expr} {kinds : List TokenKind} (h : Starts kinds) (least : Nat) :
    Starts (e.enclosed least kinds) := by
  unfold enclosed
  split
  · exact ⟨_, _, rfl, by decide⟩
  · exact h

theorem Expr.starts_written : (e : Expr) → Starts e.written
  | .int _ _ | .float _ _ | .bool _ _ | .name _ _ | .call _ _ _ => ⟨_, _, rfl, nofun⟩
  | .member base _ _ | .index base _ _ | .step .postInc base _ | .step .postDec base _ =>
    (starts_enclosed base.starts_written 9).append _
  | .unary .negate _ _ | .unary .not _ _ | .step .preInc _ _ | .step .preDec _ _ =>
    ⟨_, _, rfl, nofun⟩
  | .binary op left _ _ => (starts_enclosed left.starts_written (op.precedence + 1)).append _
  | .assign _ target _ _ => (starts_enclosed target.starts_written 1).append _
  | .ternary test _ _ _ => (starts_enclosed test.starts_written 2).append _

/-- An operand with parentheses where it needs them is a phrase of the rank that is needed. -/
theorem Expr.exists_phrase_enclosed {e : Expr} (h : Phrase e.written e.rank e) {least : Nat}
    (hleast : least ≤ 9) : ∃ rank, least ≤ rank ∧ Phrase (e.enclosed least e.written) rank e := by
  unfold enclosed
  split
  · exact ⟨9, hleast, h.whole.enclosed.phrase (List.cons_ne_nil _ _)⟩
  · rename_i hrank
    exact ⟨e.rank, Nat.not_lt.mp hrank, h⟩

theorem Expr.writtenAll_eq_map (es : List Expr) : Expr.writtenAll es = es.map Expr.written := by
  induction es with
  | nil => rfl
  | cons first rest ih => rw [Expr.writtenAll, ih, List.map_cons]

/-- An operator in front of an operand is a phrase, if the operand is one. -/
theorem Expr.phrase_prefixed {e operand : Expr} {kind : TokenKind} {node : Span → Expr → Expr}
    (h : Phrase operand.written operand.rank operand) (hnode : prefixNode? kind = some node)
    (hsame : ∀ span read, read.unplaced = operand.unplaced →
      (node span read).unplaced = e.unplaced) :
    Phrase (kind :: operand.enclosed 8 operand.written) 8 e := by
  obtain ⟨rank, hrank, hoperand⟩ := exists_phrase_enclosed h (show 8 ≤ 9 by decide)
  have hne := (starts_enclosed (e := operand) operand.starts_written 8).ne_nil
  exact ((hoperand.unary hrank).prefixed hne hnode hsame).phrase (List.cons_ne_nil _ _)

theorem Expr.phrase_suffixed {e operand : Expr} {suffix : List TokenKind}
    (h : Phrase operand.written operand.rank operand)
    (hsuffix : ∀ {kinds}, Suffixed kinds operand → Suffixed (kinds ++ suffix) e) :
    Phrase (operand.enclosed 9 operand.written ++ suffix) 9 e := by
  obtain ⟨rank, hrank, hoperand⟩ := exists_phrase_enclosed h (Nat.le_refl 9)
  exact (hsuffix (hoperand.suffixed hrank)).phrase
    ((starts_enclosed operand.starts_written 9).append suffix).ne_nil

mutual

theorem Expr.phrase_written : (e : Expr) → Phrase e.written e.rank e
  | .int value span => (suffixed_int value span).phrase (List.cons_ne_nil _ _)
  | .float value span => (suffixed_float value span).phrase (List.cons_ne_nil _ _)
  | .bool value span => (suffixed_bool value span).phrase (List.cons_ne_nil _ _)
  | .name w span => (suffixed_name w span).phrase (List.cons_ne_nil _ _)
  | .call callee arguments span => by
    have hwhole : ∀ item ∈ arguments.map fun e => (e.written, e), Whole item.1 item.2 := by
      intro item hitem
      obtain ⟨e, he, rfl⟩ := List.mem_map.mp hitem
      exact (Expr.phrase_writtenAll arguments e he).whole
    have hstarts : ∀ item ∈ arguments.map fun e => (e.written, e), Starts item.1 := by
      intro item hitem
      obtain ⟨e, he, rfl⟩ := List.mem_map.mp hitem
      exact e.starts_written
    have hcall := (suffixed_call callee hwhole hstarts span).phrase (List.cons_ne_nil _ _)
    rw [List.map_map, List.map_map] at hcall
    rw [Expr.written, Expr.writtenAll_eq_map]
    have hsame : arguments.map (Prod.snd ∘ fun e => (e.written, e)) = arguments :=
      List.map_id arguments
    rwa [hsame] at hcall
  | .member base w span => phrase_suffixed base.phrase_written fun h => h.member w span
  | .index base place span =>
    phrase_suffixed base.phrase_written fun h => h.index place.phrase_written.whole span
  | .step .postInc operand span => phrase_suffixed operand.phrase_written fun h => h.postInc span
  | .step .postDec operand span => phrase_suffixed operand.phrase_written fun h => h.postDec span
  | .unary .negate operand _ => phrase_prefixed operand.phrase_written rfl
      fun _ _ hread => congrArg (Expr.unary .negate · ⟨{}, {}⟩) hread
  | .unary .not operand _ => phrase_prefixed operand.phrase_written rfl
      fun _ _ hread => congrArg (Expr.unary .not · ⟨{}, {}⟩) hread
  | .step .preInc operand _ => phrase_prefixed operand.phrase_written rfl
      fun _ _ hread => congrArg (Expr.step .preInc · ⟨{}, {}⟩) hread
  | .step .preDec operand _ => phrase_prefixed operand.phrase_written rfl
      fun _ _ hread => congrArg (Expr.step .preDec · ⟨{}, {}⟩) hread
  | .binary op left right span => by
    obtain ⟨hleast, hmost⟩ := op.precedence_le
    obtain ⟨rank, hrank, hleft⟩ := exists_phrase_enclosed left.phrase_written
      (show op.precedence + 1 ≤ 9 by omega)
    obtain ⟨rank', hrank', hright⟩ := exists_phrase_enclosed right.phrase_written
      (show op.precedence + 2 ≤ 9 by omega)
    have hchained := (hleft.chained (by omega)).binary op (hright.chained (by omega)) hrank
      hrank' span
    exact hchained.phrase (starts_written (.binary op left right span)).ne_nil (by omega) (by omega)
  | .assign op target value span => by
    obtain ⟨rank, hrank, htarget⟩ := exists_phrase_enclosed target.phrase_written
      (show 1 ≤ 9 by decide)
    exact ((htarget.chosen hrank).assign op value.phrase_written.whole span).phrase
  | .ternary test whenTrue whenFalse span => by
    obtain ⟨rank, hrank, htest⟩ := exists_phrase_enclosed test.phrase_written
      (show 2 ≤ 9 by decide)
    obtain ⟨rank', hrank', hfalse⟩ := exists_phrase_enclosed whenFalse.phrase_written
      (show 1 ≤ 9 by decide)
    have hchosen := (htest.chained hrank).ternary whenTrue.phrase_written.whole
      (hfalse.chosen hrank') hrank span
    exact hchosen.phrase (starts_written (.ternary test whenTrue whenFalse span)).ne_nil

theorem Expr.phrase_writtenAll : (es : List Expr) → ∀ e ∈ es, Phrase e.written e.rank e
  | [] => List.forall_mem_nil _
  | e :: rest => List.forall_mem_cons.mpr ⟨e.phrase_written, Expr.phrase_writtenAll rest⟩

end

end Ast

/-- An assignment of a choice whose last part is an assignment. -/
def shownChoice : Expr :=
  .assign none (.name "a" {}) (.ternary (.name "b" {}) (.int 4294967295 {})
    (.assign (some .add) (.name "c" {}) (.bool true {}) {}) {}) {}

end ShaderBytecode
