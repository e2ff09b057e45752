import Mathlib.Data.List.Induction
import Mathlib.Data.Nat.Digits.Defs
import ShaderBytecode.Proofs.Lexemes

/-!
# Integer literals

A run of word characters that starts with a digit is an integer literal if it is written as one and
the number fits; else scanning fails. The one exception is a hexadecimal literal, which ends behind
its digits and suffixes whatever stands there.
-/

namespace ShaderBytecode

/-! ## Written integers -/

/-- The number that digits write, the last one counting least. -/
def writtenNumber (base : Nat) (digits : List Char) : Nat :=
  Nat.ofDigits base (digits.reverse.map digitValue)

theorem digitsValue_eq_writtenNumber (base : Nat) (digits : List Char) :
    digitsValue base digits = writtenNumber base digits := by
  induction digits using List.reverseRecOn with
  | nil => rfl
  | append_singleton digits c ih =>
    have hvalue : digitsValue base (digits ++ [c])
        = base * digitsValue base digits + digitValue c := by
      simp [digitsValue, List.foldl_append]
    have hwritten : writtenNumber base (digits ++ [c])
        = digitValue c + base * writtenNumber base digits := by
      simp [writtenNumber, Nat.ofDigits_cons]
    rw [hvalue, hwritten, ih, Nat.add_comm]

/-- A run of word characters is written as an integer: in decimal, with a suffix if it needs the top
bit, or in hexadecimal. -/
inductive WritesInteger : List Char → Nat → Prop
  | decimal {digits : List Char} (hne : digits ≠ []) (hdigits : ∀ c ∈ digits, isDigit c = true)
      (hfits : writtenNumber 10 digits < signedLimit) :
      WritesInteger digits (writtenNumber 10 digits)
  | unsigned {digits : List Char} {mark : Char} (hne : digits ≠ [])
      (hdigits : ∀ c ∈ digits, isDigit c = true) (hmark : mark = 'u' ∨ mark = 'U')
      (hfits : writtenNumber 10 digits < unsignedLimit) :
      WritesInteger (digits ++ [mark]) (writtenNumber 10 digits)
  | hexadecimal {mark : Char} {digits suffix : List Char} (hmark : mark = 'x' ∨ mark = 'X')
      (hne : digits ≠ []) (hdigits : ∀ c ∈ digits, isHexDigit c = true)
      (hsuffix : suffix = [] ∨ suffix = ['u'] ∨ suffix = ['U'])
      (hfits : writtenNumber 16 digits < unsignedLimit) :
      WritesInteger ('0' :: mark :: (digits ++ suffix)) (writtenNumber 16 digits)

/-- A character that makes a float of the digits before it. -/
def isFloatMark (c : Char) : Bool :=
  c = 'e' || c = 'E' || c = 'f' || c = 'F'

/-- A whole run of word characters that starts with a digit, without a point and not behind its
first digits with the mark of a float. -/
structure IntegerRun (run rest : List Char) : Prop where
  starts : run.head?.any isDigit = true
  word : ∀ c ∈ run, isWordPart c = true
  ends : Stops isWordPart rest
  pointless : rest.head? ≠ some '.'
  whole : Stops isFloatMark (run.dropWhile isDigit)

/-- A run that starts with a hexadecimal literal and does not end with it. -/
def RunsOn (run : List Char) : Prop :=
  ∃ mark digits more, run = '0' :: mark :: (digits ++ more) ∧ (mark = 'x' ∨ mark = 'X')
    ∧ digits ≠ [] ∧ (∀ c ∈ digits, isHexDigit c = true) ∧ writtenNumber 16 digits < unsignedLimit
    ∧ Stops isHexDigit more ∧ ¬(more = [] ∨ more = ['u'] ∨ more = ['U'])

/-! ## Characters -/

theorem isWordPart_of_isDigit {c : Char} (hc : isDigit c = true) : isWordPart c = true := by
  simp [isWordPart, hc]

theorem isWordPart_of_mem {test : Char → Bool} (cs : List Char)
    (hmem : ∀ c, test c = true → c ∈ cs) (hcs : cs.all isWordPart = true) :
    ∀ c, test c = true → isWordPart c = true :=
  fun c hc => List.all_eq_true.mp hcs c (hmem c hc)

theorem isWordStart_of_isDigit {c : Char} (hc : isDigit c = true) : isWordStart c = false := by
  rw [Bool.eq_false_iff]
  intro hstart
  simp only [isDigit, isWordStart, isLetter, Bool.or_eq_true, Bool.and_eq_true, decide_eq_true_eq,
    Char.le_def, UInt32.le_iff_toNat_le] at hc hstart
  simp only [Char.isValue, Char.reduceVal, UInt32.reduceToNat, Char.toNat_val] at hc hstart
  obtain hletter | rfl := hstart
  · omega
  · exact absurd hc (by decide)

/-! ## Literals -/

/-- A character that makes a decimal literal an unsigned one. -/
def isUnsignedMark (c : Char) : Bool :=
  c = 'u' || c = 'U'

namespace Lexeme

variable {digits more rest : List Char}

theorem decimalParts_integer (hdigits : ∀ c ∈ digits, isDigit c = true)
    (hmore : ∀ c ∈ more, isWordPart c = true) (hend : Stops isDigit more)
    (hfloat : Stops isFloatMark more) (hrest : Stops isWordPart rest)
    (hpoint : rest.head? ≠ some '.') :
    decimalParts (digits ++ (more ++ rest))
      = ((digits, [], [], {}, [], takeOne isUnsignedMark more), rest) := by
  have hwhole : takeRun isDigit (digits ++ (more ++ rest)) = (digits, more ++ rest) := by
    have hstops := hend.append_stops (hrest.mono fun _ => isWordPart_of_isDigit)
    rw [takeRun_append_stops hstops, takeRun_of_all hdigits, List.nil_append]
  have hdot : Stops (· = '.') (more ++ rest) := by
    refine Stops.append_stops (fun c hc => ?_) fun c hc => ?_
    · have hpart := hmore c (List.mem_of_head? hc)
      rw [decide_eq_false_iff_not]
      rintro rfl
      cases hpart
    · rw [decide_eq_false_iff_not]
      rintro rfl
      exact hpoint hc
  have hfloats : Stops isFloatMark (more ++ rest) :=
    hfloat.append_stops (hrest.mono
      (isWordPart_of_mem ['e', 'E', 'f', 'F'] (by simp [isFloatMark, or_assoc]) (by decide)))
  have hexponent : Exponent.read (more ++ rest) = ({}, more ++ rest) := by
    have hmark : Stops (fun c => c = 'e' || c = 'E') (more ++ rest) :=
      hfloats.mono fun c hc => by
        rw [isFloatMark, Bool.or_assoc]
        exact Bool.or_eq_true_iff.mpr (.inl hc)
    simp [Exponent.read, takeOne_of_stops hmark]
  have hsuffix : Stops (fun c => c = 'f' || c = 'F') (more ++ rest) :=
    hfloats.mono fun c hc => by
      rw [isFloatMark, Bool.or_assoc]
      exact Bool.or_eq_true_iff.mpr (.inr hc)
  have hunsigned : takeOne isUnsignedMark (more ++ rest)
      = ((takeOne isUnsignedMark more).1, (takeOne isUnsignedMark more).2 ++ rest) :=
    takeOne_append_stops (hrest.mono
      (isWordPart_of_mem ['u', 'U'] (by simp [isUnsignedMark]) (by decide)))
  have htail : takeRun isWordPart ((takeOne isUnsignedMark more).2 ++ rest)
      = ((takeOne isUnsignedMark more).2, rest) := by
    have hall : ∀ c ∈ (takeOne isUnsignedMark more).2, isWordPart c = true := fun c hc =>
      hmore c (takeOne_append isUnsignedMark more ▸ List.mem_append_right _ hc)
    rw [takeRun_append_stops hrest, takeRun_of_all hall, List.nil_append]
  have hplain : (fun c => !(!true || !Exponent.isAbsent {} || !true)
      && (decide (c = 'u') || decide (c = 'U'))) = isUnsignedMark := rfl
  simp only [decimalParts, readBoth, hwhole, takeOne_of_stops hdot, List.isEmpty_nil, if_true,
    hexponent, takeOne_of_stops hsuffix, hplain, hunsigned, htail]
  rfl

theorem decimal_integer (hdigits : ∀ c ∈ digits, isDigit c = true)
    (hmore : ∀ c ∈ more, isWordPart c = true) (hend : Stops isDigit more)
    (hfloat : Stops isFloatMark more) (hrest : Stops isWordPart rest)
    (hpoint : rest.head? ≠ some '.') :
    decimal (digits ++ (more ++ rest)) = ⟨digits ++ more, rest,
      decimalContent (digits, [], [], {}, [], takeOne isUnsignedMark more)⟩ := by
  have hmarks := takeOne_append isUnsignedMark more
  rw [decimal_eq, decimalParts_integer hdigits hmore hend hfloat hrest hpoint]
  simp [DecimalParts.text, Exponent.text, hmarks]

theorem hexadecimal_digits {mark : Char} (hdigits : ∀ c ∈ digits, isHexDigit c = true)
    (hmore : Stops isHexDigit more) (hrest : Stops isWordPart rest) :
    hexadecimal mark (digits ++ (more ++ rest))
      = ⟨'0' :: mark :: (digits ++ ((takeOne (· = 'u') more).1
          ++ (takeOne (· = 'U') (takeOne (· = 'u') more).2).1)),
        (takeOne (· = 'U') (takeOne (· = 'u') more).2).2 ++ rest,
        if digits.isEmpty || unsignedLimit ≤ digitsValue 16 digits then
          .error (.invalidNumber ("0x" ++ String.ofList digits))
        else .ok (.int (digitsValue 16 digits))⟩ := by
  have hwhole : takeRun isHexDigit (digits ++ (more ++ rest)) = (digits, more ++ rest) := by
    have hstops := hmore.append_stops (hrest.mono fun _ => isWordPart_of_isHexDigit)
    rw [takeRun_append_stops hstops, takeRun_of_all hdigits, List.nil_append]
  have hsmall : Stops (· = 'u') rest :=
    hrest.mono (isWordPart_of_mem ['u'] (by simp) (by decide))
  have hcapital : Stops (· = 'U') rest :=
    hrest.mono (isWordPart_of_mem ['U'] (by simp) (by decide))
  simp only [hexadecimal_eq, hexadecimalParts, readBoth, hwhole, takeOne_append_stops hsmall,
    takeOne_append_stops hcapital]

/-- What the integer with some digits and the characters behind them is. -/
theorem decimalContent_integer (digits mark tail : List Char) :
    decimalContent (digits, [], [], {}, [], mark, tail)
      = if !tail.isEmpty then .error (.invalidNumber (String.ofList (digits ++ tail)))
        else if !mark.isEmpty then
          if unsignedLimit ≤ writtenNumber 10 digits then
            .error (.invalidNumber (String.ofList digits))
          else .ok (.int (writtenNumber 10 digits))
        else if signedLimit ≤ writtenNumber 10 digits then
          .error (.integerRange (String.ofList digits))
        else .ok (.int (writtenNumber 10 digits)) := by
  simp [decimalContent, Exponent.isBroken, Exponent.isAbsent, Exponent.quoted,
    digitsValue_eq_writtenNumber]

variable {run : List Char}

theorem number_run (hrun : IntegerRun run rest) :
    (∃ mark body, (mark = 'x' ∨ mark = 'X') ∧ run = '0' :: mark :: body
      ∧ number (run ++ rest) = hexadecimal mark (body ++ rest))
    ∨ (∀ mark body, mark = 'x' ∨ mark = 'X' → run ≠ '0' :: mark :: body)
      ∧ number (run ++ rest) = ⟨run, rest, decimalContent (run.takeWhile isDigit, [], [], {}, [],
        takeOne isUnsignedMark (run.dropWhile isDigit))⟩ := by
  obtain ⟨mark, more, hmark, hsource, hnumber⟩ | ⟨hplain, hnumber⟩ := number_cases (run ++ rest)
  · -- The run does not end before the mark, which is a word character.
    obtain ⟨c, hc, -⟩ := (Option.any_eq_true _ _).mp hrun.starts
    obtain ⟨tail, rfl⟩ := List.head?_eq_some_iff.mp hc
    obtain ⟨rfl, htail⟩ := List.cons.inj hsource
    cases tail with
    | nil =>
      have hpart : isWordPart mark = true := by
        obtain rfl | rfl := hmark
        · rfl
        · rfl
      have hend := hrun.ends mark (congrArg List.head? htail)
      exact absurd hpart (Bool.eq_false_iff.mp hend)
    | cons b body =>
      obtain ⟨rfl, rfl⟩ := List.cons.inj htail
      exact .inl ⟨b, body, hmark, rfl, hnumber⟩
  · have hdecimal : ∀ mark body, (mark = 'x' ∨ mark = 'X') → run ≠ '0' :: mark :: body :=
      fun mark body hmark hhex => hplain mark (body ++ rest) hmark (by rw [hhex]; rfl)
    refine .inr ⟨hdecimal, ?_⟩
    have hsplit : run.takeWhile isDigit ++ run.dropWhile isDigit = run :=
      List.takeWhile_append_dropWhile
    have hdigits : ∀ c ∈ run.takeWhile isDigit, isDigit c = true :=
      List.all_eq_true.mp List.all_takeWhile
    have hmore : ∀ c ∈ run.dropWhile isDigit, isWordPart c = true := fun c hc =>
      hrun.word c (hsplit ▸ List.mem_append_right _ hc)
    have hread := decimal_integer hdigits hmore (stops_takeRun run) hrun.whole hrun.ends
      hrun.pointless
    rw [← List.append_assoc, hsplit] at hread
    rw [hnumber, hread]

theorem number_of_writesInteger (hrun : IntegerRun run rest) {value : Nat}
    (h : WritesInteger run value) : number (run ++ rest) = ⟨run, rest, .ok (.int value)⟩ := by
  cases h with
  | decimal hne hdigits hfits =>
    obtain ⟨mark, body, hmark, rfl, -⟩ | ⟨-, hnumber⟩ := number_run hrun
    · have hdigit := hdigits mark (by simp)
      obtain rfl | rfl := hmark
      · cases hdigit
      · cases hdigit
    · rw [hnumber, List.takeWhile_eq_self_iff.mpr hdigits, List.dropWhile_eq_nil_iff.mpr hdigits,
        takeOne, decimalContent_integer]
      simp [hfits]
  | @unsigned digits suffix hne hdigits hsuffix hfits =>
    have hstops : isDigit suffix = false := by
      obtain rfl | rfl := hsuffix
      · rfl
      · rfl
    have hunsigned : isUnsignedMark suffix = true := by
      obtain rfl | rfl := hsuffix
      · rfl
      · rfl
    obtain ⟨mark, body, hmark, hhex, -⟩ | ⟨-, hnumber⟩ := number_run hrun
    · -- The mark of a hexadecimal literal is neither a digit nor a suffix.
      have hmem : mark ∈ digits ++ [suffix] := by simp [hhex]
      obtain hdigit | hlast := List.mem_append.mp hmem
      · have hdigit := hdigits mark hdigit
        obtain rfl | rfl := hmark
        · cases hdigit
        · cases hdigit
      · obtain rfl := List.mem_singleton.mp hlast
        obtain rfl | rfl := hmark
        · cases hunsigned
        · cases hunsigned
    · rw [hnumber, List.takeWhile_append_of_pos hdigits, List.dropWhile_append_of_pos hdigits]
      simp [hstops, takeOne, hunsigned, decimalContent_integer, hfits]
  | @hexadecimal mark digits suffix hmark hne hdigits hsuffix hfits =>
    have hstops : Stops isHexDigit suffix := by
      obtain rfl | rfl | rfl := hsuffix
      · intro c hc
        cases hc
      · rintro _ ⟨⟩
        rfl
      · rintro _ ⟨⟩
        rfl
    have hread : number ('0' :: mark :: (digits ++ suffix) ++ rest)
        = hexadecimal mark (digits ++ (suffix ++ rest)) := by
      obtain rfl | rfl := hmark
      · simp [number]
      · simp [number]
    rw [hread, hexadecimal_digits hdigits hstops hrun.ends, digitsValue_eq_writtenNumber]
    obtain rfl | rfl | rfl := hsuffix
    · simp [takeOne, hne, hfits]
    · simp [takeOne, hne, hfits]
    · simp [takeOne, hne, hfits]

/-- What is not written as an integer is not read, unless it runs on. -/
theorem number_of_not_writesInteger (hrun : IntegerRun run rest)
    (h : ∀ value, ¬WritesInteger run value) (hon : ¬RunsOn run) :
    ∃ fault, (number (run ++ rest)).content = .error fault := by
  -- Either kind of run is cut where its digits end; what is left over decides.
  obtain ⟨mark, body, hmark, rfl, hnumber⟩ | ⟨-, hnumber⟩ := number_run hrun
  · have hsplit : body.takeWhile isHexDigit ++ body.dropWhile isHexDigit = body :=
      List.takeWhile_append_dropWhile
    have hdigits : ∀ c ∈ body.takeWhile isHexDigit, isHexDigit c = true :=
      List.all_eq_true.mp List.all_takeWhile
    have hstops : Stops isHexDigit (body.dropWhile isHexDigit) := stops_takeRun body
    rw [hnumber, ← hsplit, List.append_assoc, hexadecimal_digits hdigits hstops hrun.ends,
      digitsValue_eq_writtenNumber]
    by_cases hbad : ((body.takeWhile isHexDigit).isEmpty
        || unsignedLimit ≤ writtenNumber 16 (body.takeWhile isHexDigit)) = true
    · exact ⟨_, if_pos hbad⟩
    · simp only [Bool.or_eq_true, List.isEmpty_iff, decide_eq_true_eq, not_or, Nat.not_le] at hbad
      obtain ⟨hne, hfits⟩ := hbad
      by_cases hsuffix : body.dropWhile isHexDigit = [] ∨ body.dropWhile isHexDigit = ['u']
          ∨ body.dropWhile isHexDigit = ['U']
      · have hwrites := WritesInteger.hexadecimal hmark hne hdigits hsuffix hfits
        rw [hsplit] at hwrites
        exact absurd hwrites (h _)
      · exact absurd ⟨mark, _, _, by rw [hsplit], hmark, hne, hdigits, hfits, hstops, hsuffix⟩ hon
  · have hsplit : run.takeWhile isDigit ++ run.dropWhile isDigit = run :=
      List.takeWhile_append_dropWhile
    have hdigits : ∀ c ∈ run.takeWhile isDigit, isDigit c = true :=
      List.all_eq_true.mp List.all_takeWhile
    have hne : run.takeWhile isDigit ≠ [] := by
      obtain ⟨c, hc, hdigit⟩ := (Option.any_eq_true _ _).mp hrun.starts
      obtain ⟨tail, rfl⟩ := List.head?_eq_some_iff.mp hc
      simp [hdigit]
    have hmarks := takeOne_append isUnsignedMark (run.dropWhile isDigit)
    have hone : (takeOne isUnsignedMark (run.dropWhile isDigit)).1 = []
        ∨ ∃ mark, (mark = 'u' ∨ mark = 'U')
          ∧ (takeOne isUnsignedMark (run.dropWhile isDigit)).1 = [mark] := by
      unfold takeOne
      split
      · exact .inl rfl
      · split
        · rename_i c _ _ hc
          exact .inr ⟨c, by simpa [isUnsignedMark] using hc, rfl⟩
        · exact .inl rfl
    rw [hnumber]
    generalize takeOne isUnsignedMark (run.dropWhile isDigit) = marks at hmarks hone ⊢
    obtain ⟨mark, tail⟩ := marks
    simp only [decimalContent_integer] at hmarks hone ⊢
    cases tail with
    | cons c tail => exact ⟨_, rfl⟩
    | nil =>
      rw [List.append_nil] at hmarks
      rw [← hmarks] at hsplit
      obtain rfl | ⟨suffix, hsuffix, rfl⟩ := hone
      · rw [List.append_nil] at hsplit
        by_cases hbad : signedLimit ≤ writtenNumber 10 (run.takeWhile isDigit)
        · exact ⟨_, if_pos hbad⟩
        · have hwrites := WritesInteger.decimal hne hdigits (Nat.not_le.mp hbad)
          rw [hsplit] at hwrites
          exact absurd hwrites (h _)
      · by_cases hbad : unsignedLimit ≤ writtenNumber 10 (run.takeWhile isDigit)
        · exact ⟨_, if_pos hbad⟩
        · have hwrites := WritesInteger.unsigned hne hdigits hsuffix (Nat.not_le.mp hbad)
          rw [hsplit] at hwrites
          exact absurd hwrites (h _)

/-- A decimal literal ends before a character that is no word character. -/
theorem stops_decimal {source : List Char} {kind : TokenKind}
    (h : (decimal source).content = .ok kind) : Stops isWordPart (decimal source).rest := by
  unfold decimal at h ⊢
  simp only [] at h ⊢
  generalize (if (takeOne (· = '.') (takeRun isDigit source).2).1.isEmpty = true
    then (([] : List Char), (takeOne (· = '.') (takeRun isDigit source).2).2)
    else takeRun isDigit (takeOne (· = '.') (takeRun isDigit source).2).2) = fraction at h ⊢
  split
  · rename_i hbroken
    rw [if_pos hbroken] at h
    cases h
  · exact stops_takeRun _

theorem piece?_of_isDigit (d : Dialect) (lineStart : Bool) {c : Char} (hc : isDigit c = true)
    (rest : List Char) : piece? d lineStart (c :: rest) = some ⟨(number (c :: rest)).text,
      (number (c :: rest)).rest, (number (c :: rest)).content.map .token⟩ := by
  have hblank : isBlank c = false := by
    rw [Bool.eq_false_iff]
    intro hblank
    exact absurd hc (Bool.eq_false_iff.mp (skipsBlanks_isDigit c hblank))
  have hother : ∀ mark, isDigit mark = false → c ≠ mark := by
    rintro mark hmark rfl
    cases hc.symm.trans hmark
  have hnumber : token d c rest = number (c :: rest) := by
    simp [token, isWordStart_of_isDigit hc, startsNumber_cons, hc]
  rw [piece?_of_token hblank (hother '#' rfl) (fun hslash => absurd hslash (hother '/' rfl)),
    hnumber]

end Lexeme

/-! ## Scanning -/

/-- Scanning, when it comes to a run of word characters that starts with a digit and is no float,
reads the integer that the run is written as and goes on behind the run. It fails there if the run
is not written as one, unless a hexadecimal literal ends within it. No other number is followed by a
word character. -/
theorem scanFrom_integerRun (d : Dialect) (lineStart : Bool) (p : Position) :
    (∀ run rest length, IntegerRun run rest →
      (∀ value, WritesInteger run value →
        scanFrom d (length + 1) lineStart p (run ++ rest)
          = (scanFrom d length false (p.after run) rest).map
              (·.add ⟨p, p.after run⟩ (.token (.int value))))
      ∧ ((∀ value, ¬WritesInteger run value) → ¬RunsOn run →
        ∃ fault, scanFrom d (length + 1) lineStart p (run ++ rest) = .error fault
          ∧ fault.span.start = p))
    ∧ ∀ source found kind, Lexeme.startsNumber source = true →
      (∀ mark more, mark = 'x' ∨ mark = 'X' → source ≠ '0' :: mark :: more) →
      Lexeme.piece? d lineStart source = some found → found.content = .ok (.token kind) →
      Stops isWordPart found.rest := by
  refine ⟨fun run rest length hrun => ?_, fun source found kind hstarts hplain hfound hkind => ?_⟩
  · obtain ⟨c, hc, hdigit⟩ := (Option.any_eq_true _ _).mp hrun.starts
    obtain ⟨tail, rfl⟩ := List.head?_eq_some_iff.mp hc
    have hpiece := Lexeme.piece?_of_isDigit d lineStart hdigit (tail ++ rest)
    refine ⟨fun value hvalue => ?_, fun hill hon => ?_⟩
    · have hnumber := Lexeme.number_of_writesInteger hrun hvalue
      rw [List.cons_append] at hnumber ⊢
      rw [scanFrom, hpiece, hnumber]
      rfl
    · obtain ⟨fault, hfault⟩ := Lexeme.number_of_not_writesInteger hrun hill hon
      rw [List.cons_append] at hfault ⊢
      rw [scanFrom, hpiece, hfault]
      exact ⟨_, rfl, rfl⟩
  · obtain ⟨c, rest, rfl, -, -, -, hcontent, -, hrest⟩ := Lexeme.token_of_piece? hfound hkind
    have htoken : Lexeme.token d c rest = Lexeme.decimal (c :: rest) := by
      obtain ⟨mark, more, hmark, hsource, -⟩ | ⟨-, hnumber⟩ := Lexeme.number_cases (c :: rest)
      · exact absurd hsource (hplain mark more hmark)
      · have hword : isWordStart c = false := by
          rw [Lexeme.startsNumber_cons, Bool.or_eq_true, Bool.and_eq_true] at hstarts
          obtain hdigit | ⟨hpoint, -⟩ := hstarts
          · exact isWordStart_of_isDigit hdigit
          · rw [of_decide_eq_true hpoint]
            rfl
        simp [Lexeme.token, hword, hstarts, hnumber]
    rw [htoken] at hcontent hrest
    rw [hrest]
    exact Lexeme.stops_decimal hcontent

theorem scanFrom_integerRun_topBit :
    scanFrom .glsl 12 true {} ("4294967295u".toList ++ [';'])
      = (scanFrom .glsl 11 false ⟨0, 11⟩ [';']).map
          (·.add ⟨{}, ⟨0, 11⟩⟩ (.token (.int 4294967295)))
    ∧ (∃ fault, scanFrom .glsl 11 true {} ("4294967295".toList ++ [';']) = .error fault
      ∧ fault.span.start = {}) := by
  have hdigits : ∀ c ∈ "4294967295".toList, isDigit c = true :=
    List.all_eq_true.mp (by decide +kernel)
  have hword : ∀ c ∈ "4294967295u".toList, isWordPart c = true :=
    List.all_eq_true.mp (by decide +kernel)
  have hword' : ∀ c ∈ "4294967295".toList, isWordPart c = true :=
    List.all_eq_true.mp (by decide +kernel)
  have hmore : "4294967295u".toList.dropWhile isDigit = ['u'] := by decide +kernel
  have hmore' : "4294967295".toList.dropWhile isDigit = [] := by decide +kernel
  have hends : Stops isWordPart [';'] := by
    rintro _ ⟨⟩
    rfl
  have hmark : Stops isFloatMark ['u'] := by
    rintro _ ⟨⟩
    rfl
  have hrun : IntegerRun "4294967295u".toList [';'] :=
    ⟨by decide, hword, hends, by decide, hmore.symm ▸ hmark⟩
  have hrun' : IntegerRun "4294967295".toList [';'] :=
    ⟨by decide, hword', hends, by decide, hmore'.symm ▸ nofun⟩
  have hvalue : writtenNumber 10 "4294967295".toList = 4294967295 := by decide +kernel
  have hwrites := WritesInteger.unsigned (by decide) hdigits (.inl rfl) (hvalue ▸ by decide)
  rw [hvalue] at hwrites
  have hill : ∀ value, ¬WritesInteger "4294967295".toList value := by
    intro value h
    have hread := congrArg Lexeme.content (Lexeme.number_of_writesInteger hrun' h)
    have hfault : (Lexeme.number ("4294967295".toList ++ [';'])).content
      = .error (.integerRange "4294967295") := by decide +kernel
    cases hfault.symm.trans hread
  have hon : ¬RunsOn "4294967295".toList := by
    rintro ⟨mark, digits, more, hhex, -⟩
    cases hhex
  exact ⟨((scanFrom_integerRun .glsl true {}).1 _ _ 11 hrun).1 _ hwrites,
    ((scanFrom_integerRun .glsl true {}).1 _ _ 10 hrun').2 hill hon⟩

/-- A hexadecimal literal that is not written as an integer is read: with two suffixes as one token,
with a letter behind it as two tokens that stand side by side. -/
theorem scan_overlongHexadecimal :
    (∀ value, ¬WritesInteger "0x1uU".toList value)
    ∧ scan .glsl "0x1uU" = .ok ⟨[⟨.int 1, ⟨{}, ⟨0, 5⟩⟩⟩], ⟨0, 5⟩, []⟩
    ∧ scan .glsl "0x1g"
      = .ok ⟨[⟨.int 1, ⟨{}, ⟨0, 3⟩⟩⟩, ⟨.word "g", ⟨⟨0, 3⟩, ⟨0, 4⟩⟩⟩], ⟨0, 4⟩, []⟩ := by
  refine ⟨fun value h => ?_, by decide +kernel, by decide +kernel⟩
  generalize hrun : "0x1uU".toList = run at h
  have hmark : 'x' ∈ run := hrun ▸ by decide
  cases h with
  | decimal _ hdigits _ => cases hdigits 'x' hmark
  | unsigned _ hdigits hsuffix _ =>
    obtain hdigit | hlast := List.mem_append.mp hmark
    · cases hdigits 'x' hdigit
    · obtain rfl := List.mem_singleton.mp hlast
      exact absurd hsuffix (by decide)
  | @hexadecimal mark digits suffix _ _ hdigits hsuffix _ =>
    have hbody : digits ++ suffix = ['1', 'u', 'U'] :=
      (List.cons.inj (List.cons.inj hrun).2).2.symm
    have hletter : 'u' ∉ digits := fun hu => absurd (hdigits 'u' hu) (by decide)
    obtain rfl | rfl | rfl := hsuffix
    · rw [List.append_nil] at hbody
      exact hletter (hbody ▸ by decide)
    · have hlast := congrArg List.getLast? hbody
      simp at hlast
    · obtain rfl : digits = ['1', 'u'] :=
        List.append_cancel_right (hbody : _ = ['1', 'u'] ++ ['U'])
      exact hletter (by decide)

end ShaderBytecode
