import Mathlib.Data.List.Pairwise
import ShaderBytecode.Proofs.ReadSources

/-!
# Progress of reading

Reading always ends. The grammar is followed to a bounded depth, and a loop of it, over qualifiers,
members, parameters, statements or declarations, is given as many rounds as there are tokens left.
That bound never shows: each round takes a token, so a loop is over before its rounds are. Until
then the cursor stays among the tokens, and it has come to their end when a source is read.
-/

namespace ShaderBytecode

/-! ## Places -/

/-- The cursor in front of the token with a number. The end has the number behind the last one. -/
def Scanned.place (s : Scanned) (i : Nat) : Cursor where
  previous := match i with
    | 0 => none
    | i + 1 => (s.tokens[i]?).map (·.span)
  rest := s.tokens.drop i
  stop := s.stop

theorem Scanned.advance_place (s : Scanned) {i : Nat} (h : i ≤ s.tokens.length) :
    ∃ j ≤ s.tokens.length, (s.place i).advance = s.place j
      ∧ (j = i ∧ i = s.tokens.length ∨ j = i + 1) := by
  obtain hlt | rfl := Nat.lt_or_eq_of_le h
  · refine ⟨i + 1, hlt, ?_, .inr rfl⟩
    have hrest : (s.place i).rest = s.tokens[i] :: s.tokens.drop (i + 1) :=
      List.drop_eq_getElem_cons hlt
    unfold Cursor.advance
    rw [hrest]
    simp [place, hlt]
  · exact ⟨_, Nat.le_refl _, by simp [place, Cursor.advance], .inl ⟨rfl, rfl⟩⟩

theorem Ast.Expr.weight_pos (e : Expr) : 0 < e.weight := by
  cases e <;> exact Nat.succ_pos _

theorem Ast.Statement.weight_pos (s : Statement) : 0 < s.weight := by
  cases s with
  | simple found _ =>
    cases found with
    | declare v => exact Nat.succ_pos _
    | expr e => exact e.weight_pos
  | _ => exact Nat.succ_pos _

theorem Ast.Declaration.weight_pos (x : Declaration) : 0 < x.weight := by
  cases x <;> exact Nat.succ_pos _

namespace Parser

variable {α β : Type} {ι : Type}

/-- A run from a place of a source on, by numbers: a token is only looked at or moved over at a
place of the source, the places come in order, and all tokens in front of the last place have been
moved over. -/
structure Visits (s : Scanned) (p : Parser α) (i : Nat) (visited : List Nat)
    (answer : Except (Located SyntaxFault) (α × Nat)) : Prop where
  runs : Runs p (s.place i) (visited.map s.place)
    (answer.map fun found => (found.1, s.place found.2))
  inside : ∀ j ∈ visited, i ≤ j ∧ j < s.tokens.length + 1
  ordered : visited.Pairwise (· ≤ ·)
  covered : ∀ a j, answer = .ok (a, j) →
    i ≤ j ∧ j < s.tokens.length + 1 ∧ ∀ k, i ≤ k → k < j → k ∈ visited

theorem Visits.cons {s : Scanned} {p q : Parser α} {i j : Nat} {visited : List Nat}
    {answer : Except (Located SyntaxFault) (α × Nat)} (h : Visits s q j visited answer)
    (hi : i ≤ s.tokens.length) (hj : j = i ∨ j = i + 1)
    (hruns : Runs p (s.place i) ((i :: visited).map s.place)
      (answer.map fun found => (found.1, s.place found.2))) :
    Visits s p i (i :: visited) answer where
  runs := hruns
  inside := by
    rintro k (_ | ⟨_, hk⟩)
    · omega
    · have hinside := h.inside k hk
      omega
  ordered := by
    refine List.pairwise_cons.mpr ⟨fun k hk => ?_, h.ordered⟩
    have hinside := h.inside k hk
    omega
  covered := by
    intro a last hanswer
    obtain ⟨hle, hlast, hall⟩ := h.covered a last hanswer
    refine ⟨by omega, hlast, fun k hk hklast => ?_⟩
    obtain rfl | hne := Nat.eq_or_lt_of_le hk
    · exact List.mem_cons_self
    · exact List.mem_cons_of_mem _ (hall k (by omega) hklast)

theorem Runs.visits {s : Scanned} {p : Parser α} {c : Cursor} {seen : List Cursor}
    {answer : Except (Located SyntaxFault) (α × Cursor)} (h : Runs p c seen answer) {i : Nat}
    (hi : i ≤ s.tokens.length) (hc : c = s.place i) : ∃ visited answer',
      answer = answer'.map (fun found => (found.1, s.place found.2))
        ∧ Visits s p i visited answer' := by
  induction h generalizing i with
  | @pure a c =>
    subst hc
    refine ⟨[], .ok (a, i), rfl, .pure, nofun, .nil, ?_⟩
    rintro _ _ ⟨⟩
    exact ⟨Nat.le_refl _, Nat.lt_succ_of_le hi, fun k hk hlt => absurd hlt (Nat.not_lt.mpr hk)⟩
  | @stop fault c =>
    subst hc
    exact ⟨[], .error fault, rfl, .stop, nofun, .nil, nofun⟩
  | look _ ih =>
    obtain ⟨visited, answer', rfl, hvisits⟩ := ih hi hc
    subst hc
    exact ⟨i :: visited, answer', rfl, hvisits.cons hi (.inl rfl) (.look hvisits.runs)⟩
  | step _ ih =>
    subst hc
    obtain ⟨j, hj, hadvance, hnext⟩ := s.advance_place hi
    obtain ⟨visited, answer', rfl, hvisits⟩ := ih hj hadvance
    refine ⟨i :: visited, answer', rfl, hvisits.cons hi ?_ (.step (hadvance ▸ hvisits.runs))⟩
    omega

/-! ## Loops -/

/-- A bounded loop ends by itself: more rounds than there are tokens change nothing. -/
def Settles (loop : Nat → ι → Parser α) : Prop :=
  ∀ (c : Cursor) (n : Nat) (i : ι), c.rest.length ≤ n →
    (loop n i).run c = (loop c.rest.length i).run c

theorem settles_of_rounds {loop : Nat → ι → Parser α}
    (hround : ∀ n m c, (∀ c' i, c'.rest.length < c.rest.length →
      (loop n i).run c' = (loop m i).run c') → ∀ i, (loop (n + 1) i).run c = (loop (m + 1) i).run c)
    (hend : ∀ c i, c.rest = [] → (loop 0 i).run c = (loop 1 i).run c) : Settles loop := by
  have hzero : ∀ m c i, c.rest.length ≤ 0 → (loop 0 i).run c = (loop m i).run c := by
    intro m c i hc
    have hnil : c.rest = [] := List.length_eq_zero_iff.mp (Nat.le_zero.mp hc)
    cases m with
    | zero => rfl
    | succ m => exact (hend c i hnil).trans (hround 0 m c (fun c' _ hlt => by omega) i)
  have hsame : ∀ n m c i, c.rest.length ≤ n → c.rest.length ≤ m →
      (loop n i).run c = (loop m i).run c := by
    intro n
    induction n with
    | zero => exact fun m c i hc _ => hzero m c i hc
    | succ n ih =>
      intro m c i hn hm
      cases m with
      | zero => exact (hzero (n + 1) c i hm).symm
      | succ m =>
        exact hround n m c (fun c' i' hlt => ih m c' i' (by omega) (by omega)) i
  exact fun c n i hn => hsame n _ c i hn (Nat.le_refl _)

variable {c : Cursor} {p q : Parser α} {f g : α → Parser β} {P : α → Cursor → Prop}
  {cost : α → Nat} {R : α → Prop}

theorem Points.run_bind_congr {G : Ground} (h : Points G c p P)
    (h' : ∀ a c', P a c' → (f a).run c' = (g a).run c') :
    (p >>= f).run c = (p >>= g).run c := by
  obtain ⟨seen, answer, hruns, h⟩ := h
  rw [StateT.run_bind, StateT.run_bind, hruns.run_eq]
  cases answer with
  | error fault => rfl
  | ok found => exact h' found.1 found.2 h

theorem run_bind_of_run_eq (h : p.run c = q.run c) : (p >>= f).run c = (q >>= f).run c := by
  rw [StateT.run_bind, StateT.run_bind, h]

/-- What comes behind something that takes tokens is read at a cursor with fewer tokens. -/
theorem Takes.run_bind_congr (h : Takes .anyTokens p cost R)
    (h' : ∀ a c', c'.rest.length + cost a ≤ c.rest.length → (f a).run c' = (g a).run c') :
    (p >>= f).run c = (p >>= g).run c :=
  (h c c.sound_anyTokens).run_bind_congr fun a c' ha => h' a c' ha.1.count

theorem run_peek_congr {f g : Option TokenKind → Parser β}
    (h : (f c.peek).run c = (g c.peek).run c) : (peek >>= f).run c = (peek >>= g).run c :=
  h

theorem run_advance_congr {kind : TokenKind} {f g : Unit → Parser β} (hpeek : c.peek = some kind)
    (h : ∀ c', c'.rest.length < c.rest.length → (f ()).run c' = (g ()).run c') :
    (advance >>= f).run c = (advance >>= g).run c :=
  h c.advance (c.sound_anyTokens.to_advance hpeek).1.count

/-! ### The loops of the grammar -/

section Loops

theorem settles_commaListWithin {item : Parser α} (h : Takes .anyTokens item cost R) :
    Settles fun n (_ : Unit) => commaListWithin item n := by
  refine settles_of_rounds (fun n m c hmore _ => ?_) fun c _ hend => ?_
  · refine h.run_bind_congr fun first c₁ h₁ => (takes_eat _).run_bind_congr fun comma c₂ h₂ => ?_
    cases comma with
    | true => exact run_bind_of_run_eq (hmore c₂ () (by simp only [Bool.toNat_true] at h₂; omega))
    | false => rfl
  · refine h.run_bind_congr fun first c₁ h₁ => ?_
    obtain ⟨previous, _ | _, stop⟩ := c₁
    · rfl
    · simp [hend] at h₁

theorem settles_storageWithin : Settles storageWithin := by
  refine settles_of_rounds (fun n m c hmore found => run_peek_congr ?_) fun c found hend => ?_
  · split
    · rename_i hpeek
      exact run_advance_congr hpeek fun c' hlt => hmore c' _ hlt
    · rename_i hpeek
      split
      · exact run_advance_congr hpeek fun c' hlt => hmore c' _ hlt
      · rfl
    · rfl
  · obtain ⟨previous, _, stop⟩ := c
    cases hend
    rfl

theorem settles_parameterQualifiersWithin : Settles fun n (i : Bool × Option Passing) =>
    parameterQualifiersWithin n i.1 i.2 := by
  refine settles_of_rounds (fun n m c hmore i => run_peek_congr ?_) fun c i hend => ?_
  · split
    · rename_i hpeek
      exact run_advance_congr hpeek fun c' hlt => hmore c' (true, i.2) hlt
    · rename_i hpeek
      exact run_advance_congr hpeek fun c' hlt => hmore c' i hlt
    · rename_i hpeek
      split
      · rename_i next _
        simp only []
        split
        · rfl
        · exact run_advance_congr hpeek fun c' hlt => hmore c' (i.1, some next) hlt
      · rfl
    · rfl
  · obtain ⟨previous, _, stop⟩ := c
    cases hend
    rfl

theorem takes_expectMark {G : Ground} (mark : Punct) :
    Takes G (expectMark mark) (fun _ => 1) fun _ => True := by
  intro c hc
  rw [← bind_pure (expectMark mark)]
  exact points_expectMark hc.to_self fun c₁ h₁ _ =>
    points_pure ⟨h₁.weaken (Nat.le_refl 1), trivial⟩

theorem settles_membersWithin (d : Dialect) (owner : MemberOwner) :
    Settles fun n (_ : Unit) => membersWithin d owner n := by
  refine settles_of_rounds (fun n m c hmore _ => run_peek_congr ?_) fun c _ hend => ?_
  · split
    · rfl
    · rfl
    · refine takes_typeName.run_bind_congr fun type c₁ h₁ => ?_
      have hmember := takes_member d owner (Ground.marked_anyTokens type.span)
      refine (takes_commaList hmember).run_bind_congr fun found c₂ h₂ => ?_
      refine (takes_expectMark _).run_bind_congr fun _ c₃ h₃ => ?_
      exact run_bind_of_run_eq (hmore c₃ () (by omega))
  · obtain ⟨previous, _, stop⟩ := c
    cases hend
    rfl

theorem settles_statementsWithin {inner : Parser Ast.Statement} {R : Ast.Statement → Prop}
    (h : Takes .anyTokens inner Ast.Statement.weight R) :
    Settles fun n (_ : Unit) => statementsWithin inner n := by
  refine settles_of_rounds (fun n m c hmore _ => run_peek_congr ?_) fun c _ hend => ?_
  · split
    · rfl
    · rfl
    · refine h.run_bind_congr fun first c₁ h₁ => run_bind_of_run_eq (hmore c₁ () ?_)
      have hpos := first.weight_pos
      omega
  · obtain ⟨previous, _, stop⟩ := c
    cases hend
    rfl

theorem settles_declarationsWithin (d : Dialect) :
    Settles fun n (_ : Unit) => declarationsWithin d n := by
  refine settles_of_rounds (fun n m c hmore _ => run_peek_congr ?_) fun c _ hend => ?_
  · split
    · rfl
    · rename_i hpeek
      exact run_advance_congr hpeek fun c' hlt => hmore c' () hlt
    · exact takes_precision.run_bind_congr fun _ c₁ h₁ => hmore c₁ () h₁
    · rename_i hpeek
      refine (points_structDeclaration d c.sound_anyTokens hpeek).run_bind_congr
        fun s c₁ h₁ => run_bind_of_run_eq (hmore c₁ () ?_)
      exact Nat.lt_of_lt_of_le (by omega) h₁.1.count
    · rename_i hpeek
      refine (points_bufferDeclaration d c.sound_anyTokens hpeek).run_bind_congr
        fun b c₁ h₁ => run_bind_of_run_eq (hmore c₁ () ?_)
      exact Nat.lt_of_lt_of_le (by omega) h₁.1.count
    · refine takes_headed.run_bind_congr fun x c₁ h₁ => run_bind_of_run_eq (hmore c₁ () ?_)
      have hpos := x.weight_pos
      omega
  · obtain ⟨previous, _, stop⟩ := c
    cases hend
    rfl

/-- Each round of the outermost loop takes a token, so its last one is at the end. -/
theorem points_declarationsWithin_end (d : Dialect) (n : Nat) {c : Cursor}
    (h : c.rest.length ≤ n) :
    Points .anyTokens c (declarationsWithin d n) fun _ c' => c'.rest = [] := by
  induction n generalizing c with
  | zero => exact points_pure (List.length_eq_zero_iff.mp (Nat.le_zero.mp h))
  | succ n ih =>
    have hc : c.To .anyTokens 0 c := c.sound_anyTokens.to_self
    have hmore : ∀ (first : Ast.Declaration) (c₁ : Cursor), c₁.rest.length < c.rest.length →
        Points .anyTokens c₁ (do return first :: (← declarationsWithin d n))
          fun _ c' => c'.rest = [] :=
      fun first c₁ hlt => (ih (by omega)).bind fun more c₂ hend => points_pure hend
    refine points_peek ?_
    split
    · rename_i hpeek
      refine points_pure ?_
      simpa [Cursor.peek] using hpeek
    · rename_i hpeek
      refine points_advance hc hpeek fun h₁ _ => ih ?_
      have hcount := h₁.count
      omega
    · refine takes_precision.next hc fun _ c₁ h₁ _ => ih ?_
      have hcount := h₁.count
      omega
    · rename_i hpeek
      refine (points_structDeclaration d c.sound_anyTokens hpeek).bind fun s c₁ h₁ => ?_
      exact hmore (.struct s) c₁ (Nat.lt_of_lt_of_le (by omega) h₁.1.count)
    · rename_i hpeek
      refine (points_bufferDeclaration d c.sound_anyTokens hpeek).bind fun b c₁ h₁ => ?_
      exact hmore (.buffer b) c₁ (Nat.lt_of_lt_of_le (by omega) h₁.1.count)
    · refine takes_headed.next hc fun x c₁ h₁ _ => hmore x c₁ ?_
      have hcount := h₁.count
      have hpos := x.weight_pos
      omega

end Loops

/-! ## Reading a source -/

/-- What is read from a place on ends at a later one. -/
def MovesFrom (s : Scanned) (i : Nat) (p : Parser α) : Prop :=
  ∀ a c, p.run (s.place i) = .ok (a, c) → ∃ j, i < j ∧ j < s.tokens.length + 1 ∧ c = s.place j

variable {s : Scanned} {i : Nat}

theorem movesFrom_of_points (hi : i ≤ s.tokens.length)
    (h : Points .anyTokens (s.place i) p fun _ c' => c'.rest.length < (s.place i).rest.length) :
    MovesFrom s i p := by
  intro a c hrun
  have hlt := h.of_run hrun
  obtain ⟨seen, answer, hruns, -⟩ := h
  obtain ⟨visited, answer', hanswer, hvisits⟩ := hruns.visits hi rfl
  rw [hruns.run_eq.symm.trans hrun] at hanswer
  cases answer' with
  | error fault => cases hanswer
  | ok found =>
    cases hanswer
    obtain ⟨-, hj, -⟩ := hvisits.covered _ _ rfl
    refine ⟨found.2, ?_, hj, rfl⟩
    simp only [Scanned.place, List.length_drop] at hlt
    omega

theorem Takes.movesFrom (h : Takes .anyTokens p cost R) (hcost : ∀ a, 0 < cost a)
    (hi : i ≤ s.tokens.length) : MovesFrom s i p := by
  refine movesFrom_of_points hi ((h _ (Cursor.sound_anyTokens _)).mono fun a c' ha => ?_)
  have hpos := hcost a
  have hcount := ha.1.count
  omega

/-- The forms that move on whenever they are read, at any depth of nesting. -/
structure Progress (d : Dialect) (s : Scanned) (i : Nat) : Prop where
  statement : ∀ depth, MovesFrom s i (statement d (nestingLimit - depth))
  expression : ∀ depth, MovesFrom s i (expression (nestingLimit - depth))
  head : MovesFrom s i head
  struct : (s.place i).peek = some (.keyword .struct) → MovesFrom s i (structDeclaration d)
  buffer : (s.place i).peek = some (.keyword .cbuffer) → MovesFrom s i (bufferDeclaration d)
  parameter : MovesFrom s i (parameter d)

theorem progress (d : Dialect) (hi : i ≤ s.tokens.length) :
    Progress d s i where
  statement depth := (takes_statement d _ (Nat.sub_le _ _)).movesFrom Ast.Statement.weight_pos hi
  expression depth := (takes_expression (Nat.sub_le _ _)).movesFrom Ast.Expr.weight_pos hi
  head := takes_head.movesFrom (fun _ => Nat.two_pos) hi
  struct hpeek := by
    refine movesFrom_of_points hi ((points_structDeclaration d (Cursor.sound_anyTokens _)
      hpeek).mono fun x c' h => ?_)
    exact Nat.lt_of_lt_of_le (by omega) h.1.count
  buffer hpeek := by
    refine movesFrom_of_points hi ((points_bufferDeclaration d (Cursor.sound_anyTokens _)
      hpeek).mono fun x c' h => ?_)
    exact Nat.lt_of_lt_of_le (by omega) h.1.count
  parameter := (takes_parameter d).movesFrom (fun _ => Nat.one_pos) hi

/-- The loops of the grammar, which all end by themselves. -/
structure LoopsSettle (d : Dialect) : Prop where
  storage : Settles storageWithin
  layout : Settles fun n (_ : Unit) => commaListWithin layoutEntry n
  members : ∀ owner, Settles fun n (_ : Unit) => membersWithin d owner n
  memberNames : ∀ owner type, Settles fun n (_ : Unit) => commaListWithin (member d owner type) n
  qualifiers : Settles fun n (i : Bool × Option Passing) => parameterQualifiersWithin n i.1 i.2
  parameters : Settles fun n (_ : Unit) => commaListWithin (parameter d) n
  arguments : ∀ depth, Settles fun n (_ : Unit) =>
    commaListWithin (expression (nestingLimit - depth)) n
  declarators : ∀ depth, Settles fun n (_ : Unit) => commaListWithin
    (do declaratorTail d (expression (nestingLimit - depth)) (← expectName .declaration)) n
  statements : ∀ depth, Settles fun n (_ : Unit) =>
    statementsWithin (statement d (nestingLimit - depth)) n
  declarations : Settles fun n (_ : Unit) => declarationsWithin d n

theorem loopsSettle (d : Dialect) : LoopsSettle d where
  storage := settles_storageWithin
  layout := settles_commaListWithin takes_layoutEntry
  members := settles_membersWithin d
  memberNames owner type :=
    settles_commaListWithin (takes_member d owner (Ground.marked_anyTokens type.span))
  qualifiers := settles_parameterQualifiersWithin
  parameters := settles_commaListWithin (takes_parameter d)
  arguments _ := settles_commaListWithin (takes_expression (Nat.sub_le _ _))
  declarators _ := settles_commaListWithin (takes_declarator (takes_expression (Nat.sub_le _ _)))
  statements _ := settles_statementsWithin (takes_statement d _ (Nat.sub_le _ _))
  declarations := settles_declarationsWithin d

end Parser

/-- Reading ends for all tokens and in both dialects. It only looks at places of the source, and
when the source is read the cursor stands at its end. Whatever is read at a place, the cursor has
moved on behind it, so no loop needs its bound. -/
theorem Ast.ofTokens_progress (d : Dialect) (s : Scanned) :
    (∃ visited answer, Parser.Visits s (Parser.declarations d) 0 visited answer
        ∧ ofTokens d s = answer.map Prod.fst
        ∧ ∀ ds i, answer = .ok (ds, i) → i = s.tokens.length)
      ∧ (∀ i ≤ s.tokens.length, Parser.Progress d s i) ∧ Parser.LoopsSettle d := by
  refine ⟨?_, fun i hi => Parser.progress d hi, Parser.loopsSettle d⟩
  have hend : Parser.Points .anyTokens (s.place 0) (Parser.declarations d)
      fun _ c' => c'.rest = [] :=
    Parser.points_get (Parser.points_declarationsWithin_end d _ (Nat.le_refl _))
  obtain ⟨seen, answer, hruns, -⟩ := id hend
  obtain ⟨visited, answer', rfl, hvisits⟩ := hruns.visits (Nat.zero_le _) rfl
  have hrun : Parser.declarations d (s.place 0) = _ := hruns.run_eq
  refine ⟨visited, answer', hvisits, ?_, ?_⟩
  · show (Parser.declarations d).run' (s.place 0) = _
    unfold StateT.run'
    rw [hrun]
    cases answer' <;> rfl
  · rintro ds i rfl
    have hnil : (s.place i).rest = [] := hend.of_run hrun
    obtain ⟨-, hi, -⟩ := hvisits.covered ds i rfl
    have hlength := congrArg List.length hnil
    simp only [Scanned.place, List.length_drop, List.length_nil] at hlength
    omega

end ShaderBytecode
