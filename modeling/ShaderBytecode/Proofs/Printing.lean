import ShaderBytecode.Proofs.IntegerLiterals
import ShaderBytecode.Proofs.Reformatting

/-!
# Printed expressions

An expression is written with parentheses only where it stands for an operand that has to bind more
tightly than it does. The tokens are printed with blanks between them, and scanning finds them
again.
-/

namespace ShaderBytecode

namespace Ast

/-! ## Tokens of an expression -/

/-- How tightly an expression binds: an assignment less than a choice, then the binary operators,
operators in front of an operand, and what stands behind one or alone. -/
def Expr.rank : Expr → Nat
  | .assign _ _ _ _ => 0
  | .ternary _ _ _ _ => 1
  | .binary op _ _ _ => op.precedence + 1
  | .unary _ _ _ | .step .preInc _ _ | .step .preDec _ _ => 8
  | .int _ _ | .float _ _ | .bool _ _ | .name _ _ | .call _ _ _ | .member _ _ _ | .index _ _ _
  | .step .postInc _ _ | .step .postDec _ _ => 9

/-- The tokens of an expression that stands where at least so tight a one has to stand. -/
def Expr.enclosed (least : Nat) (e : Expr) (kinds : List TokenKind) : List TokenKind :=
  if e.rank < least then .punct .openParen :: (kinds ++ [.punct .closeParen]) else kinds

def UnaryOp.mark : UnaryOp → Punct
  | .negate => .binary (.arith .sub)
  | .not => .not

def assignmentMark : Option ArithOp → Punct
  | none => .assign
  | some op => .assignWith op

mutual

def Expr.written : Expr → List TokenKind
  | .int value _ => [.int value]
  | .float value _ => [.float value]
  | .bool value _ => [.bool value]
  | .name w _ => [.word w]
  | .call callee arguments _ => .word callee :: .punct .openParen
      :: ([TokenKind.punct .comma].intercalate (Expr.writtenAll arguments) ++ [.punct .closeParen])
  | .member base w _ => base.enclosed 9 base.written ++ [.punct .dot, .word w]
  | .index base place _ => base.enclosed 9 base.written
      ++ .punct .openBracket :: (place.written ++ [.punct .closeBracket])
  | .unary op operand _ => .punct op.mark :: operand.enclosed 8 operand.written
  | .binary op left right _ => left.enclosed (op.precedence + 1) left.written
      ++ .punct (.binary op) :: right.enclosed (op.precedence + 2) right.written
  | .assign op target value _ => target.enclosed 1 target.written
      ++ .punct (assignmentMark op) :: value.written
  | .ternary test whenTrue whenFalse _ => test.enclosed 2 test.written
      ++ .punct .question :: (whenTrue.written
      ++ .punct .colon :: whenFalse.enclosed 1 whenFalse.written)
  | .step .preInc operand _ => .punct .increment :: operand.enclosed 8 operand.written
  | .step .preDec operand _ => .punct .decrement :: operand.enclosed 8 operand.written
  | .step .postInc operand _ => operand.enclosed 9 operand.written ++ [.punct .increment]
  | .step .postDec operand _ => operand.enclosed 9 operand.written ++ [.punct .decrement]

def Expr.writtenAll : List Expr → List (List TokenKind)
  | [] => []
  | first :: rest => first.written :: Expr.writtenAll rest

end

end Ast

/-! ## Texts -/

/-- The text of an integer, with a suffix if it needs the top bit. -/
def integerText (value : Nat) : List Char :=
  Nat.toDigits 10 value ++ if value < signedLimit then [] else ['u']

/-- The text of a token. Floats and keywords are not written. -/
def TokenKind.text : TokenKind → List Char
  | .word name => name.toList
  | .int value => integerText value
  | .bool value => (boolText value).toList
  | .punct mark => mark.spelling.toList
  | .float _ | .keyword _ => []

/-- The text of an expression: its tokens with blanks between them. -/
def Ast.Expr.print (e : Ast.Expr) : String :=
  String.ofList (joinLexemes (fun _ => [' ']) (e.written.map TokenKind.text))

structure Dialect.IsName (d : Dialect) (word : String) : Prop where
  starts : word.toList.head?.any isWordStart = true
  parts : ∀ c ∈ word.toList, isWordPart c = true
  free : d.reserved? word = none

namespace Ast

mutual

/-- An expression without floats whose words are not reserved and whose integers fit a word. -/
def Expr.Printable (d : Dialect) : Expr → Prop
  | .int value _ => value < unsignedLimit
  | .float _ _ => False
  | .bool _ _ => True
  | .name w _ => d.IsName w
  | .call callee arguments _ => d.IsName callee ∧ Expr.PrintableAll d arguments
  | .member base w _ => base.Printable d ∧ d.IsName w
  | .unary _ operand _ | .step _ operand _ => operand.Printable d
  | .index left right _ | .binary _ left right _ | .assign _ left right _ =>
    left.Printable d ∧ right.Printable d
  | .ternary test whenTrue whenFalse _ =>
    test.Printable d ∧ whenTrue.Printable d ∧ whenFalse.Printable d

def Expr.PrintableAll (d : Dialect) : List Expr → Prop
  | [] => True
  | first :: rest => first.Printable d ∧ Expr.PrintableAll d rest

end

end Ast

/-! ## Scanning -/

section Lexemes

variable {d : Dialect}

theorem isDigit_of_mem_toDigits {value : Nat} {c : Char} (h : c ∈ Nat.toDigits 10 value) :
    isDigit c = true := by
  have hdigit := Nat.isDigit_of_mem_toDigits (by decide) (by decide) h
  simp only [Char.isDigit, Bool.and_eq_true, decide_eq_true_eq] at hdigit
  simp only [isDigit, Bool.and_eq_true, decide_eq_true_eq]
  exact hdigit

theorem writtenNumber_toDigits (value : Nat) :
    writtenNumber 10 (Nat.toDigits 10 value) = value := by
  rw [← digitsValue_eq_writtenNumber]
  calc digitsValue 10 (Nat.toDigits 10 value)
      = Nat.ofDigitChars 10 (Nat.toDigits 10 value) 0 := by
        rw [Nat.ofDigitChars_eq_foldl, digitsValue]
        refine List.foldl_ext _ _ _ fun n c hc => ?_
        rw [digitValue, if_pos (isDigit_of_mem_toDigits hc)]
    _ = value := Nat.ofDigitChars_ten_toDigits

theorem writesInteger_integerText {value : Nat} (h : value < unsignedLimit) :
    WritesInteger (integerText value) value := by
  have hne : Nat.toDigits 10 value ≠ [] := Nat.toDigits_ne_nil
  have hdigits : ∀ c ∈ Nat.toDigits 10 value, isDigit c = true := fun c => isDigit_of_mem_toDigits
  have hnumber := writtenNumber_toDigits value
  unfold integerText
  by_cases hsmall : value < signedLimit
  · have hwrites := WritesInteger.decimal hne hdigits (by rwa [hnumber])
    rw [hnumber] at hwrites
    rwa [if_pos hsmall, List.append_nil]
  · have hwrites := WritesInteger.unsigned hne hdigits (.inl rfl) (by rwa [hnumber])
    rw [hnumber] at hwrites
    rwa [if_neg hsmall]

/-- The text of an integer is a whole run of word characters before a blank. -/
theorem integerRun_integerText (value : Nat) : IntegerRun (integerText value) [' '] := by
  have hdigits : ∀ c ∈ Nat.toDigits 10 value, isDigit c = true := fun c => isDigit_of_mem_toDigits
  have hsuffix : ∀ c ∈ (if value < signedLimit then [] else ['u']), c = 'u' := by
    split
    · simp
    · simp
  refine ⟨?_, ?_, ?_, by decide, ?_⟩
  · have hne : Nat.toDigits 10 value ≠ [] := Nat.toDigits_ne_nil
    obtain ⟨c, rest, hcons⟩ := List.exists_cons_of_ne_nil hne
    have hc := hdigits c (hcons ▸ List.mem_cons_self)
    simp [integerText, hcons, hc]
  · intro c hc
    obtain hc | hc := List.mem_append.mp hc
    · rw [isWordPart, hdigits c hc, Bool.or_true]
    · obtain rfl := hsuffix c hc
      rfl
  · rintro _ ⟨⟩
    rfl
  · rw [integerText, List.dropWhile_append_of_pos hdigits]
    intro c hc
    have hmem : c ∈ (if value < signedLimit then [] else ['u']).dropWhile isDigit :=
      List.mem_of_mem_head? hc
    obtain rfl := hsuffix c ((List.dropWhile_sublist isDigit).subset hmem)
    rfl

theorem isLexeme_integerText {value : Nat} (h : value < unsignedLimit) :
    IsLexeme d (integerText value) (.int value) := by
  have hrun := integerRun_integerText value
  have hnumber := Lexeme.number_of_writesInteger hrun (writesInteger_integerText h)
  obtain ⟨c, hc, hdigit⟩ := (Option.any_eq_true _ _).mp hrun.starts
  obtain ⟨tail, htext⟩ := List.head?_eq_some_iff.mp hc
  rw [htext, List.cons_append] at hnumber
  refine ⟨true, [' '], ?_⟩
  rw [htext, List.cons_append, Lexeme.piece?_of_isDigit d true hdigit, hnumber]
  rfl

theorem isLexeme_word {word : String} (h : d.IsName word) :
    IsLexeme d word.toList (.word word) := by
  obtain ⟨c, hc, hstart⟩ := (Option.any_eq_true _ _).mp h.starts
  obtain ⟨tail, htext⟩ := List.head?_eq_some_iff.mp hc
  have hother : ∀ mark, isWordStart mark = false → c ≠ mark := by
    rintro mark hmark rfl
    cases hstart.symm.trans hmark
  have hblank : isBlank c = false := by
    rw [Bool.eq_false_iff]
    intro hblank
    have hpart := h.parts c (htext ▸ List.mem_cons_self)
    cases hpart.symm.trans (skipsBlanks_isWordPart c hblank)
  have hrun := takeRun_of_all h.parts
  have hword : Lexeme.token d c tail = ⟨word.toList, [], .ok (.word word)⟩ := by
    unfold Lexeme.token
    rw [← htext]
    simp [hstart, Lexeme.word, hrun, h.free]
  refine ⟨true, [], ?_⟩
  rw [List.append_nil, htext, Lexeme.piece?_of_token hblank (hother '#' rfl)
    (fun hslash => absurd hslash (hother '/' rfl)), hword, ← htext]
  rfl

theorem isLexeme_mark (mark : Punct) : IsLexeme d mark.spelling.toList (.punct mark) := by
  refine ⟨true, [' '], ?_⟩
  cases mark with
  | assignWith op => cases op <;> rfl
  | binary op =>
    cases op with
    | arith op => cases op <;> rfl
    | compare op => cases op <;> rfl
    | logic op => cases op <;> rfl
  | _ => rfl

theorem isLexeme_bool (value : Bool) : IsLexeme d (boolText value).toList (.bool value) := by
  refine ⟨true, [' '], ?_⟩
  cases value <;> cases d <;> rfl

def TokenKind.Printable (d : Dialect) : TokenKind → Prop
  | .word name => d.IsName name
  | .int value => value < unsignedLimit
  | .bool _ | .punct _ => True
  | .float _ | .keyword _ => False

theorem TokenKind.Printable.isLexeme {kind : TokenKind} (h : kind.Printable d) :
    IsLexeme d kind.text kind := by
  cases kind with
  | word name => exact isLexeme_word h
  | int value => exact isLexeme_integerText h
  | bool value => exact isLexeme_bool value
  | punct mark => exact isLexeme_mark mark
  | float | keyword => exact h.elim

end Lexemes

namespace Ast

variable {d : Dialect}

theorem Expr.printable_enclosed {least : Nat} {e : Expr} {kinds : List TokenKind}
    (h : ∀ kind ∈ kinds, kind.Printable d) : ∀ kind ∈ e.enclosed least kinds, kind.Printable d := by
  unfold enclosed
  split
  · refine List.forall_mem_cons.mpr ⟨trivial, List.forall_mem_append.mpr ⟨h, ?_⟩⟩
    exact List.forall_mem_singleton.mpr trivial
  · exact h

mutual

/-- The tokens of an expression that can be printed can be written. -/
theorem Expr.Printable.written : (e : Expr) → e.Printable d → ∀ kind ∈ e.written, kind.Printable d
  | .int _ _, h | .name _ _, h => List.forall_mem_singleton.mpr h
  | .bool _ _, _ => List.forall_mem_singleton.mpr trivial
  | .float _ _, h => h.elim
  | .call _ arguments _, ⟨hcallee, harguments⟩ => by
    simp only [Expr.written, List.forall_mem_cons, List.forall_mem_append]
    exact ⟨hcallee, trivial, Expr.PrintableAll.written arguments harguments, trivial,
      List.forall_mem_nil _⟩
  | .member base _ _, ⟨hbase, hname⟩ => by
    simp only [Expr.written, List.forall_mem_cons, List.forall_mem_append]
    exact ⟨printable_enclosed (Expr.Printable.written base hbase), trivial, hname,
      List.forall_mem_nil _⟩
  | .index base place _, ⟨hbase, hplace⟩ => by
    simp only [Expr.written, List.forall_mem_cons, List.forall_mem_append]
    exact ⟨printable_enclosed (Expr.Printable.written base hbase), trivial,
      Expr.Printable.written place hplace, trivial, List.forall_mem_nil _⟩
  | .unary _ operand _, h | .step .preInc operand _, h | .step .preDec operand _, h => by
    simp only [Expr.written, List.forall_mem_cons]
    exact ⟨trivial, printable_enclosed (Expr.Printable.written operand h)⟩
  | .step .postInc operand _, h | .step .postDec operand _, h => by
    simp only [Expr.written, List.forall_mem_append, List.forall_mem_singleton]
    exact ⟨printable_enclosed (Expr.Printable.written operand h), trivial⟩
  | .binary _ left right _, ⟨hleft, hright⟩ => by
    simp only [Expr.written, List.forall_mem_cons, List.forall_mem_append]
    exact ⟨printable_enclosed (Expr.Printable.written left hleft), trivial,
      printable_enclosed (Expr.Printable.written right hright)⟩
  | .assign _ target value _, ⟨htarget, hvalue⟩ => by
    simp only [Expr.written, List.forall_mem_cons, List.forall_mem_append]
    exact ⟨printable_enclosed (Expr.Printable.written target htarget), trivial,
      Expr.Printable.written value hvalue⟩
  | .ternary test whenTrue whenFalse _, ⟨htest, htrue, hfalse⟩ => by
    simp only [Expr.written, List.forall_mem_cons, List.forall_mem_append]
    exact ⟨printable_enclosed (Expr.Printable.written test htest), trivial,
      Expr.Printable.written whenTrue htrue, trivial,
      printable_enclosed (Expr.Printable.written whenFalse hfalse)⟩

theorem Expr.PrintableAll.written : (es : List Expr) → Expr.PrintableAll d es →
    ∀ kind ∈ [TokenKind.punct .comma].intercalate (Expr.writtenAll es), kind.Printable d
  | [], _ => List.forall_mem_nil _
  | [e], h => by
    rw [Expr.writtenAll, Expr.writtenAll, List.intercalate_singleton]
    exact Expr.Printable.written e h.1
  | e :: next :: rest, h => by
    have hrest := Expr.PrintableAll.written (next :: rest) h.2
    rw [Expr.writtenAll] at hrest ⊢
    rw [Expr.writtenAll, List.intercalate_cons_cons]
    simp only [List.forall_mem_append, List.forall_mem_singleton]
    exact ⟨⟨Expr.Printable.written e h.1, trivial⟩, hrest⟩

end

end Ast

theorem scan_print {d : Dialect} {e : Ast.Expr} (h : e.Printable d) :
    ∃ scanned, scan d e.print = .ok scanned ∧ scanned.tokens.map (·.kind) = e.written := by
  have hblank : IsSeparator [' '] := ⟨.blank rfl .nil, rfl⟩
  have hlexemes : List.Forall₂ (IsLexeme d) (e.written.map TokenKind.text) e.written := by
    rw [List.forall₂_map_left_iff, List.forall₂_same]
    exact fun kind hkind => (h.written e kind hkind).isLexeme
  obtain ⟨scanned, hscans, hkinds⟩ := finds_joinLexemes (fun _ => hblank) hlexemes true {}
  refine ⟨scanned, (scans_scan d _).unique ?_, hkinds⟩
  rwa [Ast.Expr.print, String.toList_ofList]

end ShaderBytecode
