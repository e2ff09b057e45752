import Mathlib.Data.List.Induction
import ShaderBytecode.Proofs.Compilation
import ShaderBytecode.Proofs.Lexemes

/-!
# Tokens tile a source

A source is a row of tokens with stretches of text between them. The text of a token is scanned to
this token alone, and a stretch between tokens is scanned to none.
-/

namespace ShaderBytecode

/-- A text that is scanned to one token, which is the whole text. -/
def IsTokenText (d : Dialect) (text : List Char) (kind : TokenKind) : Prop :=
  scan d (String.ofList text)
    = .ok ⟨[⟨kind, ⟨{}, ({} : Position).after text⟩⟩], ({} : Position).after text, []⟩

def IsGap (d : Dialect) (text : List Char) : Prop :=
  ∃ pragmas, scan d (String.ofList text) = .ok ⟨[], ({} : Position).after text, pragmas⟩

/-- A source from a position on is a row of tokens with gaps before, between and behind them. -/
inductive Tiles (d : Dialect) : Position → List Char → List Token → Position → Prop
  | stop {p : Position} {gap : List Char} (hgap : IsGap d gap) : Tiles d p gap [] (p.after gap)
  | token {p stop : Position} {gap text rest : List Char} {kind : TokenKind} {tokens : List Token}
      (hgap : IsGap d gap) (htext : IsTokenText d text kind)
      (hrest : Tiles d ((p.after gap).after text) rest tokens stop) :
      Tiles d p (gap ++ (text ++ rest))
        (⟨kind, ⟨p.after gap, (p.after gap).after text⟩⟩ :: tokens) stop

/-! ## Positions -/

/-- Lines count line ends, and columns count the characters behind the last of them. -/
theorem Position.after_eq (text : List Char) : ({} : Position).after text
    = ⟨text.count '\n', (text.reverse.takeWhile (· ≠ '\n')).length⟩ := by
  induction text using List.reverseRecOn with
  | nil => rfl
  | append_singleton text c ih =>
    rw [after_append, ih, after_cons, after_nil, step]
    by_cases hc : c = '\n'
    · simp [hc]
    · simp [hc, List.count_append]

theorem Position.lt_after (p : Position) {text : List Char} (h : text ≠ []) : p < p.after text :=
  lt_of_le_not_ge (p.le_after text) (p.not_after_le h)

theorem ne_nil_of_isTokenText {d : Dialect} {text : List Char} {kind : TokenKind}
    (h : IsTokenText d text kind) : text ≠ [] := by
  rintro rfl
  cases h

section Tiles

variable {d : Dialect} {p stop : Position} {source : List Char} {tokens : List Token}

theorem Tiles.start_lt_stop (h : Tiles d p source tokens stop) :
    ∀ t ∈ tokens, t.span.start < t.span.stop := by
  induction h with
  | stop _ => exact List.forall_mem_nil _
  | token _ htext _ ih =>
    exact List.forall_mem_cons.mpr ⟨Position.lt_after _ (ne_nil_of_isTokenText htext), ih⟩

theorem Tiles.le_start (h : Tiles d p source tokens stop) : ∀ t ∈ tokens, p ≤ t.span.start := by
  induction h with
  | stop _ => exact List.forall_mem_nil _
  | token _ _ _ ih =>
    refine List.forall_mem_cons.mpr ⟨Position.le_after _ _, fun t ht => ?_⟩
    exact le_trans (le_trans (Position.le_after _ _) (Position.le_after _ _)) (ih t ht)

theorem Tiles.ordered (h : Tiles d p source tokens stop) :
    tokens.Pairwise fun t u => t.span.stop ≤ u.span.start := by
  induction h with
  | stop _ => exact List.Pairwise.nil
  | token _ _ hrest ih => exact List.pairwise_cons.mpr ⟨hrest.le_start, ih⟩

theorem Tiles.stop_eq (h : Tiles d p source tokens stop) : stop = p.after source := by
  induction h with
  | stop _ => rfl
  | token _ _ _ ih => rw [ih, Position.after_append, Position.after_append]

end Tiles

/-! ## Gaps -/

/-- White space, comments and directives, wherever a directive may stand. -/
def Fills (d : Dialect) (lineStart : Bool) (gap : List Char) : Prop :=
  ∀ lineStart', (lineStart = true → lineStart' = true) → ∀ p,
    ∃ pragmas, Scans d lineStart' p gap (.ok ⟨[], p.after gap, pragmas⟩)

theorem Fills.isGap {d : Dialect} {lineStart : Bool} {gap : List Char}
    (h : Fills d lineStart gap) : IsGap d gap := by
  obtain ⟨pragmas, hscans⟩ := h true (fun _ => rfl) {}
  refine ⟨pragmas, (scans_scan d _).unique ?_⟩
  rwa [String.toList_ofList]

theorem IsLexeme.isTokenText {d : Dialect} {text : List Char} {kind : TokenKind}
    (h : IsLexeme d text kind) : IsTokenText d text kind := by
  have hpiece := h.piece? true (show StartsApart [] from nofun)
  rw [List.append_nil] at hpiece
  refine (scans_scan d _).unique ?_
  rw [String.toList_ofList]
  exact Scans.piece hpiece rfl .done

namespace Lexeme

variable {d : Dialect} {lineStart lineStart' : Bool} {text gap rest : List Char}

variable {source : List Char} {piece : Piece}

theorem throughCommentEnd_text (h : throughCommentEnd source = some (text, rest)) :
    throughCommentEnd text = some (text, []) := by
  fun_induction throughCommentEnd source generalizing text with
  | case1 =>
    cases h
    rfl
  | case2 c more hother ih =>
    obtain ⟨⟨text', rest'⟩, hfound, hsame⟩ := Option.map_eq_some_iff.mp h
    cases hsame
    have hother' : ∀ tail, c = '*' → text' = '/' :: tail → False := by
      rintro tail hc rfl
      exact hother _ hc (append_of_throughCommentEnd hfound).symm
    rw [throughCommentEnd.eq_2 _ _ hother', ih hfound]
    rfl
  | case3 => cases h

theorem directive_append (hrest : Stops (· ≠ '\n') rest) :
    directive (text ++ rest) = { directive text with rest := (directive text).rest ++ rest } := by
  have hblanks : Stops (fun c => c = ' ' || c = '\t') rest :=
    hrest.mono fun c hc => by
      rw [decide_eq_true_eq]
      rintro rfl
      cases hc
  have hletters : Stops isLetter rest :=
    hrest.mono fun c hc => by
      rw [decide_eq_true_eq]
      rintro rfl
      cases hc
  unfold directive
  simp only [takeRun_append_stops hblanks, takeRun_append_stops hletters,
    takeRun_append_stops hrest]
  split
  · rfl
  · rfl

/-- A run is read again if it ends where it has ended or where the text ends. -/
theorem takeRun_again {test : Char → Bool} (h : takeRun test source = (text, gap ++ rest)) :
    takeRun test (text ++ gap) = (text, gap) := by
  obtain ⟨htext, hgap⟩ := Prod.mk.inj h
  have hstops : Stops test (gap ++ rest) := hgap ▸ stops_takeRun source
  have hall : ∀ c ∈ text, test c = true := htext ▸ List.all_eq_true.mp List.all_takeWhile
  rw [takeRun_append_stops hstops.of_append, takeRun_of_all hall, List.nil_append]

theorem lineComment_again (h : lineComment source = ⟨text, gap ++ rest, .ok piece⟩) :
    piece? d lineStart (text ++ gap) = some ⟨text, gap, .ok piece⟩ := by
  obtain ⟨htext, hrest, hpiece⟩ := Lexeme.mk.inj h
  have hrun : takeRun (· ≠ '\n') source = (source.takeWhile (· ≠ '\n'), gap ++ rest) :=
    Prod.ext rfl hrest
  have hagain := takeRun_again hrun
  rw [← htext, ← hpiece, List.cons_append, List.cons_append, piece?, lineComment, hagain]

theorem blockComment_again (h : blockComment source = ⟨text, gap ++ rest, .ok piece⟩) :
    piece? d lineStart (text ++ gap) = some ⟨text, gap, .ok piece⟩ := by
  unfold blockComment at h
  split at h
  · rename_i comment rest' hfound
    obtain ⟨htext, -, hpiece⟩ := Lexeme.mk.inj h
    have hagain := throughCommentEnd_append (throughCommentEnd_text hfound) gap
    rw [← htext, ← hpiece, List.cons_append, List.cons_append, piece?, blockComment, hagain]
    rfl
  · cases (Lexeme.mk.inj h).2.2

theorem directive_again (h : directive source = ⟨text, gap ++ rest, .ok piece⟩) :
    piece? d true (text ++ gap) = some ⟨text, gap, .ok piece⟩ := by
  have hstops : Stops (· ≠ '\n') (gap ++ rest) := by
    have hrest := congrArg Lexeme.rest h
    have hcontent := congrArg Lexeme.content h
    unfold directive at hrest hcontent
    simp only [] at hrest hcontent
    split at hcontent
    · rename_i hname
      rw [if_pos hname] at hrest
      exact hrest ▸ stops_takeRun _
    · cases hcontent
  have happend := (splits_directive source).append
  obtain ⟨text, rfl⟩ : ∃ more, text = '#' :: more := by
    have hhash : (directive source).text.head? = some '#' := by
      unfold directive
      simp only []
      split
      · rfl
      · rfl
    rw [h] at hhash
    exact List.head?_eq_some_iff.mp hhash
  rw [h] at happend
  obtain rfl : text ++ (gap ++ rest) = source := (List.cons.inj happend).2
  rw [directive_append hstops] at h
  obtain ⟨htext, hrest, hcontent⟩ := Lexeme.mk.inj h
  have hnothing : (directive text).rest = [] := List.append_left_eq_self.mp hrest
  have hpiece : piece? d true ('#' :: (text ++ gap)) = some (directive (text ++ gap)) := rfl
  rw [List.cons_append, hpiece, directive_append hstops.of_append]
  simp only [htext, hcontent, hnothing, List.nil_append]

/-- Which piece that is no token stands at the front of a source does not depend on what follows,
and it may as well stand where a line starts. -/
theorem piece?_gap (h : piece? d lineStart source = some ⟨text, gap ++ rest, .ok piece⟩)
    (hpiece : ∀ kind, piece ≠ .token kind) (hstart : lineStart = true → lineStart' = true) :
    piece? d lineStart' (text ++ gap) = some ⟨text, gap, .ok piece⟩ := by
  unfold piece? at h
  split at h
  · cases h
  · obtain ⟨rfl, -, hcontent⟩ := Lexeme.mk.inj (Option.some.inj h)
    rw [← hcontent]
    rfl
  · exact lineComment_again (Option.some.inj h)
  · exact blockComment_again (Option.some.inj h)
  · rename_i c more hnewline _ _
    split at h
    · rename_i hblank
      obtain ⟨rfl, -, hcontent⟩ := Lexeme.mk.inj (Option.some.inj h)
      rw [← hcontent]
      exact piece?_of_blank hblank hnewline
    · split at h
      · rename_i hdirective
        obtain ⟨-, hline⟩ := Bool.and_eq_true_iff.mp hdirective
        rw [hstart hline]
        exact directive_again (Option.some.inj h)
      · obtain ⟨-, -, hcontent⟩ := Lexeme.mk.inj (Option.some.inj h)
        cases htoken : (token d c more).content with
        | error fault =>
          rw [htoken] at hcontent
          cases hcontent
        | ok kind =>
          rw [htoken] at hcontent
          cases hcontent
          exact absurd rfl (hpiece kind)

end Lexeme

theorem fills_nil (d : Dialect) (lineStart : Bool) : Fills d lineStart [] :=
  fun _ _ _ => ⟨[], .done⟩

theorem Fills.piece {d : Dialect} {lineStart : Bool} {source text gap rest : List Char}
    {piece : Piece} (hgap : Fills d (piece.lineStartAfter lineStart) gap)
    (h : Lexeme.piece? d lineStart source = some ⟨text, gap ++ rest, .ok piece⟩)
    (hpiece : ∀ kind, piece ≠ .token kind) : Fills d lineStart (text ++ gap) := by
  intro lineStart' hstart p
  have hstart' : piece.lineStartAfter lineStart = true → piece.lineStartAfter lineStart' = true := by
    cases piece with
    | token kind => exact id
    | newline => exact id
    | filler => exact hstart
    | pragma => exact hstart
  obtain ⟨pragmas, hscans⟩ := hgap _ hstart' (p.after text)
  have hfound := Scans.piece (p := p) (Lexeme.piece?_gap h hpiece hstart) rfl hscans
  rw [Position.after_append]
  cases piece with
  | token kind => exact absurd rfl (hpiece kind)
  | newline => exact ⟨_, hfound⟩
  | filler => exact ⟨_, hfound⟩
  | pragma => exact ⟨_, hfound⟩

/-- A source starts with a gap, and behind it stand tokens with gaps between them. The tokens do not
depend on the first gap: it may grow towards the front. -/
def StartsWithGap (d : Dialect) (lineStart : Bool) (p : Position) (source : List Char)
    (tokens : List Token) (stop : Position) : Prop :=
  ∃ gap rest, source = gap ++ rest ∧ Fills d lineStart gap
    ∧ ∀ front start, IsGap d front → start.after front = p.after gap →
      Tiles d start (front ++ rest) tokens stop

theorem Scans.startsWithGap {d : Dialect} {lineStart : Bool} {p : Position} {source : List Char}
    {result : Except (Located LexFault) Scanned} (h : Scans d lineStart p source result) :
    ∀ s, result = .ok s → StartsWithGap d lineStart p source s.tokens s.stop := by
  induction h with
  | done =>
    rintro _ ⟨⟩
    refine ⟨[], [], rfl, fills_nil d _, fun front start hfront hstart => ?_⟩
    obtain rfl : start.after front = _ := hstart
    rw [List.append_nil]
    exact .stop hfront
  | fault _ _ => exact nofun
  | @piece lineStart p source found piece result hfound hpiece _ ih =>
    obtain ⟨-, happend⟩ := Lexeme.splits_piece? hfound
    cases result with
    | error fault => exact nofun
    | ok scanned =>
      rintro _ ⟨⟩
      obtain ⟨gap, rest, hrest, hgap, htiles⟩ := ih scanned rfl
      have hfront : Lexeme.piece? d lineStart source
          = some ⟨found.text, gap ++ rest, .ok piece⟩ := by rw [hfound, ← hrest, ← hpiece]
      -- Either the piece belongs to the gap, or it is the token before it.
      have hgrows : (∀ kind, piece ≠ .token kind) →
          StartsWithGap d lineStart p source scanned.tokens scanned.stop := by
        intro hother
        refine ⟨found.text ++ gap, rest, ?_, hgap.piece hfront hother, ?_⟩
        · rw [List.append_assoc, ← hrest, happend]
        · rw [Position.after_append]
          exact htiles
      cases piece with
      | newline => exact hgrows nofun
      | filler => exact hgrows nofun
      | pragma => exact hgrows nofun
      | token kind =>
        refine ⟨[], source, rfl, fills_nil d _, fun front start hgap' hstart => ?_⟩
        have hlexeme : IsLexeme d found.text kind := ⟨lineStart, found.rest, by
          rw [happend, hfound, ← hpiece]⟩
        have hbehind := htiles gap (p.after found.text) hgap.isGap rfl
        rw [← hrest] at hbehind
        rw [Position.after_nil] at hstart
        subst hstart
        rw [← happend]
        exact .token hgap' hlexeme.isTokenText hbehind

/-- The tokens that scanning finds tile the source: each spans a text that is scanned to it alone,
the text before, between and behind them is scanned to no token, and the end is where the source
ends. So no span is empty and they stand one behind the other. A position counts line ends, and
characters behind the last of them. -/
theorem scan_tiles (d : Dialect) (source : String) (s : Scanned) (h : scan d source = .ok s) :
    Tiles d {} source.toList s.tokens s.stop
    ∧ s.stop = ({} : Position).after source.toList
    ∧ (∀ t ∈ s.tokens, t.span.start < t.span.stop)
    ∧ (s.tokens.Pairwise fun t u => t.span.stop ≤ u.span.start)
    ∧ ∀ text : List Char, ({} : Position).after text
      = ⟨text.count '\n', (text.reverse.takeWhile (· ≠ '\n')).length⟩ := by
  obtain ⟨gap, rest, hsource, hgap, htiles⟩ := (scans_scan d source).startsWithGap s h
  have hall := htiles gap {} hgap.isGap rfl
  rw [← hsource] at hall
  exact ⟨hall, hall.stop_eq, hall.start_lt_stop, hall.ordered, Position.after_eq⟩

theorem scan_tiles_twoLines :
    ∃ s, scan .glsl "// a\nx /**/ += 1.5" = .ok s
      ∧ s.tokens.map (·.span.start) = [⟨1, 0⟩, ⟨1, 7⟩, ⟨1, 10⟩]
      ∧ Tiles .glsl {} "// a\nx /**/ += 1.5".toList s.tokens s.stop := by
  have hscan : ((scan .glsl "// a\nx /**/ += 1.5").toOption.any fun s =>
      s.tokens.map (·.span.start) = [⟨1, 0⟩, ⟨1, 7⟩, ⟨1, 10⟩]) = true := by
    decide +kernel
  obtain ⟨s, hs, hstarts⟩ := exists_ok_of_any hscan
  exact ⟨s, hs, of_decide_eq_true hstarts,
    (scan_tiles .glsl _ s hs).1⟩

end ShaderBytecode
