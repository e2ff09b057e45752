import Mathlib.Order.Defs.PartialOrder
import ShaderBytecode.Token.Scan

/-!
# Pieces of a source

Scanning takes one piece after the other from the front of a source. Each takes a character at
least, so that the bound on their number is never reached, and together they are the source: what
is found stands between positions that reading some of the source comes to.
-/

namespace ShaderBytecode

/-! ## Pieces -/

theorem takeRun_append (test : Char → Bool) (text : List Char) :
    (takeRun test text).1 ++ (takeRun test text).2 = text :=
  List.takeWhile_append_dropWhile

theorem takeOne_append (test : Char → Bool) (text : List Char) :
    (takeOne test text).1 ++ (takeOne test text).2 = text := by
  unfold takeOne
  split
  · rfl
  · split <;> rfl

theorem Exponent.read_append (source : List Char) :
    (Exponent.read source).1.text ++ (Exponent.read source).2 = source := by
  unfold Exponent.read
  simp only []
  split
  · rfl
  · simp only [Exponent.text, List.append_assoc, takeRun_append, takeOne_append]

namespace Lexeme

variable {α : Type}

/-- A lexeme takes a character at least from the front of a source. -/
structure Splits (l : Lexeme α) (source : List Char) : Prop where
  ne_nil : l.text ≠ []
  append : l.text ++ l.rest = source

theorem splits_word (d : Dialect) {c : Char} {rest : List Char} (h : isWordStart c = true) :
    (word d (c :: rest)).Splits (c :: rest) := by
  refine ⟨?_, takeRun_append isWordPart (c :: rest)⟩
  have hpart : isWordPart c = true := by simp [isWordPart, h]
  simp [word, takeRun, hpart]

theorem splits_hexadecimal (mark : Char) (rest : List Char) :
    (hexadecimal mark rest).Splits ('0' :: mark :: rest) := by
  refine ⟨List.cons_ne_nil _ _, ?_⟩
  simp only [hexadecimal, List.cons_append, List.append_assoc, takeRun_append, takeOne_append]

theorem fraction_append (point rest : List Char) :
    (if point.isEmpty then ([], rest) else takeRun isDigit rest).1
      ++ (if point.isEmpty then ([], rest) else takeRun isDigit rest).2 = rest := by
  split
  · rfl
  · exact takeRun_append isDigit rest

variable {source : List Char}

theorem splits_decimal (h : startsNumber source = true) : (decimal source).Splits source := by
  -- The first character is a digit, or a point before one.
  have hstart : (takeRun isDigit source).1 ++ (takeOne (· = '.') (takeRun isDigit source).2).1
      ≠ [] := by
    intro hnil
    obtain ⟨hwhole, hpoint⟩ := List.append_eq_nil_iff.mp hnil
    unfold startsNumber at h
    split at h
    · simp [takeRun, takeOne, isDigit] at hpoint
    · simp [takeRun, h] at hwhole
    · cases h
  have hwhole := takeRun_append isDigit source
  have hpoint := takeOne_append (· = '.') (takeRun isDigit source).2
  have hfraction := fraction_append (takeOne (· = '.') (takeRun isDigit source).2).1
    (takeOne (· = '.') (takeRun isDigit source).2).2
  unfold decimal
  simp only []
  generalize (if (takeOne (· = '.') (takeRun isDigit source).2).1.isEmpty = true
    then (([] : List Char), (takeOne (· = '.') (takeRun isDigit source).2).2)
    else takeRun isDigit (takeOne (· = '.') (takeRun isDigit source).2).2) = fraction
    at hfraction ⊢
  generalize takeOne (· = '.') (takeRun isDigit source).2 = point at hpoint hstart hfraction ⊢
  generalize takeRun isDigit source = whole at hwhole hpoint hstart ⊢
  have hne : ∀ more, whole.1 ++ point.1 ++ more ≠ [] := by
    intro more hnil
    exact hstart (List.append_eq_nil_iff.mp hnil).1
  split
  · refine ⟨?_, ?_⟩
    · rw [List.append_assoc]
      exact hne _
    · simp only [List.append_assoc, Exponent.read_append, hfraction, hpoint, hwhole]
  · refine ⟨?_, ?_⟩
    · simp only [List.append_assoc]
      simpa only [List.append_assoc] using hne _
    · simp only [List.append_assoc, Exponent.read_append, takeRun_append, takeOne_append,
        hfraction, hpoint, hwhole]

theorem splits_number (h : startsNumber source = true) : (number source).Splits source := by
  unfold number
  split
  · exact splits_hexadecimal 'x' _
  · exact splits_hexadecimal 'X' _
  · exact splits_decimal h

theorem splits_mark? {l : Lexeme TokenKind} (h : mark? source = some l) : l.Splits source := by
  obtain ⟨mark, hmark, rfl⟩ := Option.map_eq_some_iff.mp h
  have hfits := List.find?_some hmark
  obtain ⟨rest, hrest⟩ := List.isPrefixOf_iff_prefix.mp hfits
  have hne : ∀ m ∈ Punct.all, m.spelling.toList ≠ [] := by decide
  refine ⟨hne mark (List.mem_of_find?_eq_some hmark), ?_⟩
  simp only [← hrest, ← String.length_toList, List.drop_left]

theorem splits_token (d : Dialect) (c : Char) (rest : List Char) :
    (token d c rest).Splits (c :: rest) := by
  unfold token
  simp only []
  split
  · rename_i hword
    exact splits_word d hword
  · split
    · rename_i hnumber
      exact splits_number hnumber
    · split
      · exact ⟨List.cons_ne_nil _ _, rfl⟩
      · cases hmark : mark? (c :: rest) with
        | some found => exact splits_mark? hmark
        | none => exact ⟨List.cons_ne_nil _ _, rfl⟩

theorem splits_directive (rest : List Char) : (directive rest).Splits ('#' :: rest) := by
  unfold directive
  simp only []
  split
  · refine ⟨List.cons_ne_nil _ _, ?_⟩
    simp only [List.cons_append, List.append_assoc, takeRun_append]
  · refine ⟨List.cons_ne_nil _ _, ?_⟩
    simp only [List.cons_append, List.append_assoc, takeRun_append]

theorem append_of_throughCommentEnd {text rest : List Char}
    (h : throughCommentEnd source = some (text, rest)) : text ++ rest = source := by
  fun_induction throughCommentEnd source generalizing text with
  | case1 rest' =>
    cases h
    rfl
  | case2 c rest' _ ih =>
    obtain ⟨⟨text', rest''⟩, hfound, hsame⟩ := Option.map_eq_some_iff.mp h
    cases hsame
    rw [List.cons_append, ih hfound]
  | case3 => cases h

theorem throughCommentEnd_append {text text' : List Char}
    (h : throughCommentEnd source = some (text, text')) (rest : List Char) :
    throughCommentEnd (source ++ rest) = some (text, text' ++ rest) := by
  fun_induction throughCommentEnd source generalizing text with
  | case1 =>
    cases h
    rfl
  | case2 c more hother ih =>
    obtain ⟨⟨text₁, text₁'⟩, hfound, hsame⟩ := Option.map_eq_some_iff.mp h
    cases hsame
    -- The end of a comment does not reach from what is read into what follows.
    have hother' : ∀ tail, c = '*' → more ++ rest = '/' :: tail → False := by
      intro tail hc htail
      cases more with
      | nil => cases hfound
      | cons a more => exact hother more hc (congrArg (· :: more) (List.cons.inj htail).1)
    rw [List.cons_append, throughCommentEnd.eq_2 _ _ hother', ih hfound]
    rfl
  | case3 => cases h

theorem splits_blockComment (rest : List Char) :
    (blockComment rest).Splits ('/' :: '*' :: rest) := by
  unfold blockComment
  split
  · rename_i text rest' hfound
    refine ⟨List.cons_ne_nil _ _, ?_⟩
    rw [List.cons_append, List.cons_append, append_of_throughCommentEnd hfound]
  · exact ⟨List.cons_ne_nil _ _, List.append_nil _⟩

theorem splits_piece? {d : Dialect} {lineStart : Bool} {l : Lexeme Piece}
    (h : piece? d lineStart source = some l) : l.Splits source := by
  unfold piece? at h
  split at h
  · cases h
  · cases h
    exact ⟨List.cons_ne_nil _ _, rfl⟩
  · rename_i rest
    cases h
    refine ⟨List.cons_ne_nil _ _, ?_⟩
    simp only [lineComment, List.cons_append, takeRun_append]
  · cases h
    exact splits_blockComment _
  · rename_i c rest _ _ _
    split at h
    · cases h
      exact ⟨List.cons_ne_nil _ _, rfl⟩
    · split at h
      · rename_i hdirective
        obtain ⟨hc, -⟩ := Bool.and_eq_true_iff.mp hdirective
        cases h
        rw [of_decide_eq_true hc]
        exact splits_directive rest
      · cases h
        obtain ⟨hne, happend⟩ := splits_token d c rest
        exact ⟨hne, happend⟩

theorem piece?_eq_none_iff {d : Dialect} {lineStart : Bool} :
    piece? d lineStart source = none ↔ source = [] := by
  constructor
  · intro h
    unfold piece? at h
    split at h
    · rfl
    · cases h
    · cases h
    · cases h
    · split at h
      · cases h
      · split at h
        · cases h
        · cases h
  · rintro rfl
    rfl

end Lexeme

/-! ## Scanning -/

/-- Scanning from a position, one piece after the other, until one is faulty. -/
inductive Scans (d : Dialect) :
    Bool → Position → List Char → Except (Located LexFault) Scanned → Prop
  | done {lineStart : Bool} {p : Position} : Scans d lineStart p [] (.ok ⟨[], p, []⟩)
  | fault {lineStart : Bool} {p : Position} {source : List Char} {found : Lexeme Piece}
      {fault : LexFault} (hfound : Lexeme.piece? d lineStart source = some found)
      (hfault : found.content = .error fault) :
      Scans d lineStart p source (.error ⟨fault, ⟨p, p.after found.text⟩⟩)
  | piece {lineStart : Bool} {p : Position} {source : List Char} {found : Lexeme Piece}
      {piece : Piece} {result : Except (Located LexFault) Scanned}
      (hfound : Lexeme.piece? d lineStart source = some found)
      (hpiece : found.content = .ok piece)
      (hrest : Scans d (piece.lineStartAfter lineStart) (p.after found.text) found.rest result) :
      Scans d lineStart p source (result.map (·.add ⟨p, p.after found.text⟩ piece))

theorem Scans.unique {d : Dialect} {lineStart : Bool} {p : Position} {source : List Char}
    {result result' : Except (Located LexFault) Scanned} (h : Scans d lineStart p source result)
    (h' : Scans d lineStart p source result') : result = result' := by
  induction h generalizing result' with
  | done =>
    cases h' with
    | done => rfl
    | fault hfound' _ => cases hfound'
    | piece hfound' _ _ => cases hfound'
  | fault hfound hfault =>
    cases h' with
    | done => cases hfound
    | fault hfound' hfault' =>
      cases hfound.symm.trans hfound'
      cases hfault.symm.trans hfault'
      rfl
    | piece hfound' hpiece' _ =>
      cases hfound.symm.trans hfound'
      cases hfault.symm.trans hpiece'
  | piece hfound hpiece _ ih =>
    cases h' with
    | done => cases hfound
    | fault hfound' hfault' =>
      cases hfound.symm.trans hfound'
      cases hpiece.symm.trans hfault'
    | piece hfound' hpiece' hrest' =>
      cases hfound.symm.trans hfound'
      cases hpiece.symm.trans hpiece'
      rw [ih hrest']

/-- Scanning with a bound on the number of pieces that the source does not reach. -/
theorem scans_scanFrom {d : Dialect} {length : Nat} (lineStart : Bool) (p : Position)
    {source : List Char} (h : source.length ≤ length) :
    Scans d lineStart p source (scanFrom d length lineStart p source) := by
  induction length generalizing lineStart p source with
  | zero =>
    obtain rfl : source = [] := List.length_eq_zero_iff.mp (Nat.le_zero.mp h)
    exact .done
  | succ length ih =>
    rw [scanFrom]
    cases hfound : Lexeme.piece? d lineStart source with
    | none =>
      obtain rfl := Lexeme.piece?_eq_none_iff.mp hfound
      exact .done
    | some found =>
      obtain ⟨hne, happend⟩ := Lexeme.splits_piece? hfound
      cases hcontent : found.content with
      | error fault =>
        simp only [hcontent]
        exact .fault hfound hcontent
      | ok piece =>
        have hlength := congrArg List.length happend
        have hpos := List.length_pos_iff.mpr hne
        rw [List.length_append] at hlength
        simp only [hcontent]
        exact .piece hfound hcontent (ih _ _ (by omega))

theorem scans_scan (d : Dialect) (source : String) :
    Scans d true {} source.toList (scan d source) :=
  scans_scanFrom true {} (Nat.le_of_eq String.length_toList)

/-! ## Positions -/

namespace Position

/-- Positions are ordered by lines, and by columns within a line. -/
instance : LE Position :=
  ⟨fun p q => p.line < q.line ∨ p.line = q.line ∧ p.column ≤ q.column⟩

theorem le_iff {p q : Position} :
    p ≤ q ↔ p.line < q.line ∨ p.line = q.line ∧ p.column ≤ q.column :=
  Iff.rfl

instance : Preorder Position where
  le_refl p := .inr ⟨rfl, Int.le_refl _⟩
  le_trans p q r := by
    simp only [le_iff]
    omega

theorem le_step (p : Position) (c : Char) : p ≤ p.step c := by
  unfold step
  split
  · exact .inl (by simp only []; omega)
  · exact .inr ⟨rfl, by simp only []; omega⟩

theorem le_after (p : Position) (text : List Char) : p ≤ p.after text := by
  induction text generalizing p with
  | nil => exact le_refl p
  | cons c rest ih => exact le_trans (p.le_step c) (ih (p.step c))

theorem line_after (p : Position) (text : List Char) :
    (p.after text).line = p.line + text.count '\n' := by
  induction text generalizing p with
  | nil => simp
  | cons c rest ih =>
    rw [after_cons, ih, List.count_cons]
    by_cases hc : c = '\n'
    · simp [step, hc]
      omega
    · simp [step, hc]

def Reached (text : List Char) (p : Position) : Prop :=
  ∃ read, read <+: text ∧ p = ({} : Position).after read

/-- A position before a character other than a line end. -/
def Starts (text : List Char) (p : Position) : Prop :=
  ∃ read c rest, text = read ++ c :: rest ∧ c ≠ '\n' ∧ p = ({} : Position).after read

theorem reached_zero (text : List Char) : Reached text {} :=
  ⟨[], List.nil_prefix, rfl⟩

end Position

/-- A stretch of a source: it does not end before it starts, and reading some of the source comes to
both ends. -/
structure Span.Within (text : List Char) (s : Span) : Prop where
  le : s.start ≤ s.stop
  start : s.start.Reached text
  stop : s.stop.Reached text

theorem Span.within_zero (text : List Char) : Span.Within text {} :=
  ⟨le_refl _, Position.reached_zero text, Position.reached_zero text⟩

/-- Tokens stand in a source one behind the other, from a position on and before another one. -/
inductive InOrder (text : List Char) : Position → List Token → Position → Prop
  | nil {p stop : Position} (hle : p ≤ stop) (hstop : stop.Reached text) : InOrder text p [] stop
  | cons {p stop : Position} {t : Token} {rest : List Token} (hle : p ≤ t.span.start)
      (ht : t.span.Within text) (hrest : InOrder text t.span.stop rest stop) :
      InOrder text p (t :: rest) stop

theorem InOrder.mono {text : List Char} {p q stop : Position} {tokens : List Token}
    (h : InOrder text q tokens stop) (hpq : p ≤ q) : InOrder text p tokens stop := by
  cases h with
  | nil hle hstop => exact .nil (le_trans hpq hle) hstop
  | cons hle ht hrest => exact .cons (le_trans hpq hle) ht hrest

/-- What is found in a source from a position on stands in the source. -/
structure Scanned.Faithful (text : List Char) (p : Position) (s : Scanned) : Prop where
  tokens : InOrder text p s.tokens s.stop
  starts : ∀ t ∈ s.tokens, t.span.start.Starts text
  pragmas : ∀ span ∈ s.pragmas, span.Within text

theorem Lexeme.head?_ne_newline {d : Dialect} {lineStart : Bool} {source : List Char}
    {found : Lexeme Piece} {kind : TokenKind} (h : piece? d lineStart source = some found)
    (hkind : found.content = .ok (.token kind)) : source.head? ≠ some '\n' := by
  intro hhead
  obtain ⟨rest, rfl⟩ := List.head?_eq_some_iff.mp hhead
  cases h
  cases hkind

/-- What scanning finds stands in the source, and so does a fault. -/
theorem Scans.faithful {d : Dialect} {lineStart : Bool} {p : Position} {source : List Char}
    {result : Except (Located LexFault) Scanned} (h : Scans d lineStart p source result)
    {text read : List Char} (htext : text = read ++ source) (hp : p = ({} : Position).after read) :
    (∀ fault, result = .error fault → fault.span.Within text)
      ∧ ∀ scanned, result = .ok scanned → scanned.Faithful text p := by
  -- The invariant: `p` is where the characters that were read end.
  induction h generalizing read with
  | done =>
    refine ⟨nofun, ?_⟩
    rintro _ ⟨⟩
    have hreached : Position.Reached text _ := ⟨read, htext ▸ List.prefix_append _ _, hp⟩
    exact ⟨.nil (le_refl _) hreached, List.forall_mem_nil _, List.forall_mem_nil _⟩
  | @fault _ p source found fault hfound hfault =>
    refine ⟨?_, nofun⟩
    rintro _ ⟨⟩
    obtain ⟨-, happend⟩ := Lexeme.splits_piece? hfound
    refine ⟨Position.le_after _ _, ⟨read, htext ▸ List.prefix_append _ _, hp⟩,
      read ++ found.text, ⟨found.rest, ?_⟩, ?_⟩
    · rw [List.append_assoc, happend, htext]
    · rw [Position.after_append, ← hp]
  | @piece lineStart p source found piece result hfound hpiece hrest ih =>
    obtain ⟨hne, happend⟩ := Lexeme.splits_piece? hfound
    have htext' : text = (read ++ found.text) ++ found.rest := by
      rw [List.append_assoc, happend, htext]
    have hp' : p.after found.text = ({} : Position).after (read ++ found.text) := by
      rw [Position.after_append, ← hp]
    have hspan : Span.Within text ⟨p, p.after found.text⟩ :=
      ⟨Position.le_after _ _, ⟨read, htext ▸ List.prefix_append _ _, hp⟩,
        read ++ found.text, htext' ▸ List.prefix_append _ _, hp'⟩
    obtain ⟨hfaults, hscanned⟩ := ih htext' hp'
    cases result with
    | error fault =>
      refine ⟨?_, nofun⟩
      rintro _ ⟨⟩
      exact hfaults fault rfl
    | ok scanned =>
      refine ⟨nofun, ?_⟩
      rintro _ ⟨⟩
      obtain ⟨htokens, hstarts, hpragmas⟩ := hscanned scanned rfl
      have hmono := htokens.mono (Position.le_after p found.text)
      cases piece with
      | newline => exact ⟨hmono, hstarts, hpragmas⟩
      | filler => exact ⟨hmono, hstarts, hpragmas⟩
      | pragma => exact ⟨hmono, hstarts, List.forall_mem_cons.mpr ⟨hspan, hpragmas⟩⟩
      | token kind =>
        refine ⟨.cons (le_refl _) hspan htokens, List.forall_mem_cons.mpr ⟨?_, hstarts⟩, hpragmas⟩
        obtain ⟨c, rest, rfl⟩ := List.exists_cons_of_ne_nil fun hnil =>
          hne (List.append_eq_nil_iff.mp (happend.trans hnil)).1
        refine ⟨read, c, rest, htext, fun hc => ?_, hp⟩
        exact Lexeme.head?_ne_newline hfound hpiece (congrArg some hc)

variable {d : Dialect} {source : String}

theorem within_of_scan {fault : Located LexFault} (h : scan d source = .error fault) :
    fault.span.Within source.toList :=
  ((scans_scan d source).faithful (List.nil_append _).symm rfl).1 fault h

theorem faithful_of_scan {scanned : Scanned} (h : scan d source = .ok scanned) :
    scanned.Faithful source.toList {} :=
  ((scans_scan d source).faithful (List.nil_append _).symm rfl).2 scanned h

end ShaderBytecode
