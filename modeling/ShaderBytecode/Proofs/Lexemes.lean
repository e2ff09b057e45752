import Mathlib.Data.List.TakeWhile
import ShaderBytecode.Proofs.Scanning

/-!
# Lexemes

A token is known from its text alone: what stands behind it matters only up to the next white
space. So the text of a token is read as the same token again wherever white space follows it.
-/

namespace ShaderBytecode

/-! ## Reading again -/

def StartsApart (text : List Char) : Prop :=
  ∀ c ∈ text.head?, isBlank c = true

def Stops (test : Char → Bool) (text : List Char) : Prop :=
  ∀ c ∈ text.head?, test c = false

def SkipsBlanks (test : Char → Bool) : Prop :=
  ∀ c, isBlank c = true → test c = false

variable {test : Char → Bool}

theorem SkipsBlanks.mono {test' : Char → Bool} (h : SkipsBlanks test')
    (himp : ∀ c, test c = true → test' c = true) : SkipsBlanks test := by
  intro c hblank
  rw [Bool.eq_false_iff]
  intro hc
  exact absurd (himp c hc) (Bool.eq_false_iff.mp (h c hblank))

theorem skipsBlanks_of_mem (cs : List Char) (h : ∀ c, test c = true → c ∈ cs)
    (hcs : cs.any isBlank = false) : SkipsBlanks test := by
  intro c hblank
  rw [Bool.eq_false_iff]
  intro hc
  exact Bool.eq_false_iff.mp hcs (List.any_eq_true.mpr ⟨c, h c hc, hblank⟩)

theorem skipsBlanks_isWordPart : SkipsBlanks isWordPart := by
  intro c hblank
  rw [Bool.eq_false_iff]
  intro hc
  simp only [isBlank, isolatedBlanks, Bool.or_eq_true, Bool.and_eq_true, decide_eq_true_eq,
    List.contains_eq_mem, List.mem_cons, List.not_mem_nil, or_false] at hblank
  simp only [isWordPart, isWordStart, isLetter, isDigit, Bool.or_eq_true, Bool.and_eq_true,
    decide_eq_true_eq, Char.le_def, UInt32.le_iff_toNat_le] at hc
  simp only [Char.isValue, Char.reduceVal, UInt32.reduceToNat, Char.toNat_val] at hc
  obtain (hletter | rfl) | hdigit := hc
  · omega
  · exact absurd hblank (by decide)
  · omega

theorem skipsBlanks_isDigit : SkipsBlanks isDigit :=
  skipsBlanks_isWordPart.mono fun c hc => by simp [isWordPart, hc]

theorem isWordPart_of_isHexDigit {c : Char} (hc : isHexDigit c = true) : isWordPart c = true := by
  simp only [isHexDigit, isWordPart, isWordStart, isLetter, Bool.or_eq_true, Bool.and_eq_true,
    decide_eq_true_eq] at hc ⊢
  obtain (hdigit | ⟨hlow, hhigh⟩) | ⟨hlow, hhigh⟩ := hc
  · exact .inr hdigit
  · exact .inl (.inl (.inl ⟨hlow, Char.le_trans hhigh (by decide)⟩))
  · exact .inl (.inl (.inr ⟨hlow, Char.le_trans hhigh (by decide)⟩))

theorem skipsBlanks_isHexDigit : SkipsBlanks isHexDigit :=
  skipsBlanks_isWordPart.mono fun _ => isWordPart_of_isHexDigit

theorem Stops.append (htest : SkipsBlanks test) {more rest rest' : List Char}
    (h : Stops test (more ++ rest)) (hrest : StartsApart rest') : Stops test (more ++ rest') := by
  cases more with
  | nil => exact fun c hc => htest c (hrest c hc)
  | cons c more => exact h

theorem StartsApart.head?_any {text : List Char} (h : StartsApart text) (htest : SkipsBlanks test) :
    text.head?.any test = false := by
  cases text with
  | nil => rfl
  | cons c more => exact htest c (h c rfl)

/-- A reader splits off a text, and it takes the same again from this text, whatever stands behind
the white space that follows. -/
structure Repeats {α : Type} (read : List Char → α × List Char) (text : α → List Char) : Prop where
  append : ∀ source, text (read source).1 ++ (read source).2 = source
  again : ∀ source more rest rest', (read source).2 = more ++ rest → StartsApart rest' →
    read (text (read source).1 ++ (more ++ rest')) = ((read source).1, more ++ rest')

def readBoth {α β : Type} (first : List Char → α × List Char)
    (second : α → List Char → β × List Char) (source : List Char) : (α × β) × List Char :=
  let (a, rest) := first source
  let (b, rest) := second a rest
  ((a, b), rest)

section Readers

variable {test : Char → Bool}

theorem takeRun_of_stops {text : List Char} (h : Stops test text) :
    takeRun test text = ([], text) := by
  cases text with
  | nil => rfl
  | cons c rest => simp [takeRun, h c rfl]

theorem takeOne_of_stops {text : List Char} (h : Stops test text) :
    takeOne test text = ([], text) := by
  cases text with
  | nil => rfl
  | cons c rest => simp [takeOne, h c rfl]

theorem stops_takeRun (source : List Char) : Stops test (takeRun test source).2 := by
  intro c hc
  have hhead := List.head?_dropWhile_not test source
  rw [show (source.dropWhile test).head? = some c from hc] at hhead
  simpa using hhead

variable (htest : SkipsBlanks test)
include htest

theorem repeats_takeRun : Repeats (takeRun test) id := by
  refine ⟨takeRun_append test, fun source more rest rest' hmore hrest => ?_⟩
  have hstops : Stops test (more ++ rest) := hmore ▸ stops_takeRun source
  have hback := takeRun_of_stops (hstops.append htest hrest)
  have hfront : ∀ c ∈ source.takeWhile test, test c = true :=
    List.all_eq_true.mp List.all_takeWhile
  refine Prod.ext ?_ ?_
  · exact (List.takeWhile_append_of_pos hfront).trans
      ((congrArg _ (congrArg Prod.fst hback)).trans (List.append_nil _))
  · exact (List.dropWhile_append_of_pos hfront).trans (congrArg Prod.snd hback)

theorem repeats_takeOne : Repeats (takeOne test) id := by
  refine ⟨takeOne_append test, fun source more rest rest' hmore hrest => ?_⟩
  have hpassed : Stops test source ∨ ∃ c tail, source = c :: tail ∧ test c = true := by
    cases source with
    | nil => exact .inl nofun
    | cons c tail =>
      cases hc : test c with
      | true => exact .inr ⟨c, tail, rfl, hc⟩
      | false => exact .inl fun _ h => Option.some.inj h ▸ hc
  obtain hstops | ⟨c, tail, rfl, hc⟩ := hpassed
  · rw [takeOne_of_stops hstops] at hmore ⊢
    rw [show source = more ++ rest from hmore] at hstops
    exact takeOne_of_stops (hstops.append htest hrest)
  · simp [takeOne, hc]

end Readers

section Stops

variable {test : Char → Bool} {text rest : List Char}

theorem Stops.mono {test' : Char → Bool} (h : Stops test' text)
    (himp : ∀ c, test c = true → test' c = true) : Stops test text := by
  intro c hc
  rw [Bool.eq_false_iff]
  intro hpass
  exact Bool.eq_false_iff.mp (h c hc) (himp c hpass)

theorem Stops.append_stops (h : Stops test text) (hrest : Stops test rest) :
    Stops test (text ++ rest) := by
  cases text with
  | nil => exact hrest
  | cons c text => exact h

theorem Stops.of_append (h : Stops test (text ++ rest)) : Stops test text := by
  cases text with
  | nil => exact nofun
  | cons c text => exact h

theorem takeRun_append_stops (hrest : Stops test rest) :
    takeRun test (text ++ rest) = ((takeRun test text).1, (takeRun test text).2 ++ rest) := by
  induction text with
  | nil => exact takeRun_of_stops hrest
  | cons c text ih =>
    simp only [takeRun, Prod.mk.injEq] at ih ⊢
    cases hc : test c with
    | true => simp [hc, ih]
    | false => simp [hc]

theorem takeOne_append_stops (hrest : Stops test rest) :
    takeOne test (text ++ rest) = ((takeOne test text).1, (takeOne test text).2 ++ rest) := by
  cases text with
  | nil => exact takeOne_of_stops hrest
  | cons c text => cases hc : test c <;> simp [takeOne, hc]

theorem takeRun_of_all (h : ∀ c ∈ text, test c = true) : takeRun test text = (text, []) := by
  simp only [takeRun, Prod.mk.injEq]
  exact ⟨List.takeWhile_eq_self_iff.mpr h, List.dropWhile_eq_nil_iff.mpr h⟩

end Stops

namespace Repeats

variable {α β : Type}

variable {text : α → List Char}

theorem both {first : List Char → α × List Char} {second : α → List Char → β × List Char}
    {text' : β → List Char} (h : Repeats first text) (h' : ∀ a, Repeats (second a) text') :
    Repeats (readBoth first second) fun found => text found.1 ++ text' found.2 := by
  refine ⟨fun source => ?_, fun source more rest rest' hmore hrest => ?_⟩
  · unfold readBoth
    rw [List.append_assoc, (h' _).append, h.append]
  · have hsecond := (h' (first source).1).again _ more rest rest' hmore hrest
    have hfirst := h.again source (text' (second (first source).1 (first source).2).1 ++ more) rest
      rest' (by rw [List.append_assoc, ← hmore]; exact ((h' _).append _).symm) hrest
    simp only [List.append_assoc] at hfirst
    simp only [readBoth, List.append_assoc, hfirst, hsecond]

theorem leftOut {read : List Char → α × List Char} (h : Repeats read text) {a : α}
    (ha : text a = []) (c : Prop) [Decidable c] :
    Repeats (fun source => if c then (a, source) else read source) text := by
  by_cases hc : c
  · simp only [if_pos hc]
    exact ⟨fun source => by rw [ha, List.nil_append], fun _ more _ rest' _ _ => by
      rw [ha, List.nil_append]⟩
  · simp only [if_neg hc]
    exact h

theorem map {read : List Char → α × List Char} (h : Repeats read text)
    {read' : List Char → β × List Char} {text' : β → List Char} (f : α → β)
    (hread : ∀ source, read' source = (f (read source).1, (read source).2))
    (htext : ∀ source, text' (f (read source).1) = text (read source).1) : Repeats read' text' := by
  refine ⟨fun source => ?_, fun source more rest rest' hmore hrest => ?_⟩
  · rw [hread, htext, h.append]
  · simp only [hread] at hmore ⊢
    rw [htext, h.again source more rest rest' hmore hrest]

end Repeats

theorem repeats_exponent : Repeats Exponent.read Exponent.text := by
  have hmark : Repeats (takeOne fun c => c = 'e' || c = 'E') id :=
    repeats_takeOne (skipsBlanks_of_mem ['e', 'E'] (by simp) rfl)
  have hsign : Repeats (takeOne fun c => c = '+' || c = '-') id :=
    repeats_takeOne (skipsBlanks_of_mem ['+', '-'] (by simp) rfl)
  have hdigits := fun _ : List Char => repeats_takeRun skipsBlanks_isDigit
  have hsigned := fun mark : List Char =>
    (hsign.both hdigits).leftOut (a := ([], [])) rfl (mark.isEmpty = true)
  refine (hmark.both hsigned).map (fun found => ⟨found.1, found.2.1, found.2.2⟩) (fun source => ?_)
    fun source => ?_
  · have hsplit := hmark.append source
    unfold Exponent.read readBoth
    simp only []
    split
    · rename_i hempty
      rw [List.isEmpty_iff.mp hempty] at hsplit ⊢
      exact congrArg _ hsplit.symm
    · rfl
  · exact List.append_assoc _ _ _

/-- The parts of a decimal literal: digits, a point, digits, an exponent, the suffixes of floats and
of unsigned integers, and the word characters that spoil it. -/
abbrev DecimalParts :=
  List Char × List Char × List Char × Exponent × List Char × List Char × List Char

def DecimalParts.text (parts : DecimalParts) : List Char :=
  parts.1 ++ (parts.2.1 ++ (parts.2.2.1 ++ (parts.2.2.2.1.text ++ (parts.2.2.2.2.1
    ++ (parts.2.2.2.2.2.1 ++ parts.2.2.2.2.2.2)))))

/-- The parts of the decimal literal at the front of a source. -/
def decimalParts : List Char → DecimalParts × List Char :=
  readBoth (takeRun isDigit) fun _ => readBoth (takeOne (· = '.')) fun point =>
    readBoth (fun source => if point.isEmpty then ([], source) else takeRun isDigit source)
      fun _ => readBoth Exponent.read fun exponent source =>
        if exponent.isBroken then (([], [], []), source)
        else readBoth (takeOne fun c => c = 'f' || c = 'F') (fun floatMark =>
          readBoth (takeOne fun c => !(!point.isEmpty || !exponent.isAbsent || !floatMark.isEmpty)
            && (c = 'u' || c = 'U')) fun _ => takeRun isWordPart) source

theorem repeats_decimalParts : Repeats decimalParts DecimalParts.text := by
  have hpoint : Repeats (takeOne (· = '.')) id :=
    repeats_takeOne (skipsBlanks_of_mem ['.'] (by simp) rfl)
  have hfloat : Repeats (takeOne fun c => c = 'f' || c = 'F') id :=
    repeats_takeOne (skipsBlanks_of_mem ['f', 'F'] (by simp) rfl)
  have hunsigned : ∀ isFloat : Bool,
      Repeats (takeOne fun c => !isFloat && (c = 'u' || c = 'U')) id := fun isFloat =>
    repeats_takeOne (skipsBlanks_of_mem ['u', 'U'] (by simp) rfl)
  have hdigits := repeats_takeRun skipsBlanks_isDigit
  have htail := repeats_takeRun skipsBlanks_isWordPart
  have hmarks : ∀ (point : List Char) (exponent : Exponent), Repeats (fun source =>
      if exponent.isBroken then (([], [], []), source)
      else readBoth (takeOne fun c => c = 'f' || c = 'F') (fun floatMark =>
        readBoth (takeOne fun c => !(!point.isEmpty || !exponent.isAbsent || !floatMark.isEmpty)
          && (c = 'u' || c = 'U')) fun _ => takeRun isWordPart) source)
      fun found => found.1 ++ (found.2.1 ++ found.2.2) := fun point exponent =>
    (hfloat.both fun _ => (hunsigned _).both fun _ => htail).leftOut rfl _
  exact hdigits.both fun _ => hpoint.both fun point => (hdigits.leftOut rfl _).both fun _ =>
    repeats_exponent.both (hmarks point)

namespace Lexeme

def decimalContent : DecimalParts → Except LexFault TokenKind
  | (whole, point, fraction, exponent, floatMark, unsignedMark, tail) =>
    let quoted := whole ++ point ++ fraction ++ exponent.quoted
    if exponent.isBroken then .error (.invalidNumber (String.ofList quoted))
    else if !tail.isEmpty then .error (.invalidNumber (String.ofList (quoted ++ tail)))
    else if !point.isEmpty || !exponent.isAbsent || !floatMark.isEmpty then
      .ok (.float (.ofDecimal (digitsValue 10 (whole ++ fraction))
        (exponent.value - fraction.length)))
    else if !unsignedMark.isEmpty then
      if unsignedLimit ≤ digitsValue 10 whole then .error (.invalidNumber (String.ofList quoted))
      else .ok (.int (digitsValue 10 whole))
    else if signedLimit ≤ digitsValue 10 whole then .error (.integerRange (String.ofList quoted))
    else .ok (.int (digitsValue 10 whole))

theorem decimal_eq (source : List Char) : decimal source
    = ⟨(decimalParts source).1.text, (decimalParts source).2,
        decimalContent (decimalParts source).1⟩ := by
  unfold decimal decimalParts readBoth decimalContent DecimalParts.text
  simp only []
  generalize takeRun isDigit source = whole
  generalize takeOne (· = '.') whole.2 = point
  generalize (if point.1.isEmpty = true then ([], point.2) else takeRun isDigit point.2) = fraction
  generalize Exponent.read fraction.2 = exponent
  by_cases hbroken : exponent.1.isBroken = true
  · simp only [hbroken, if_true, List.append_assoc, List.append_nil]
  · simp only [hbroken, if_false, List.append_assoc, Bool.false_eq_true]

/-- The digits of a hexadecimal literal and its suffixes. -/
def hexadecimalParts : List Char → (List Char × List Char × List Char) × List Char :=
  readBoth (takeRun isHexDigit) fun _ => readBoth (takeOne (· = 'u')) fun _ => takeOne (· = 'U')

theorem repeats_hexadecimalParts :
    Repeats hexadecimalParts fun parts => parts.1 ++ (parts.2.1 ++ parts.2.2) := by
  have hsmall : Repeats (takeOne (· = 'u')) id :=
    repeats_takeOne (skipsBlanks_of_mem ['u'] (by simp) rfl)
  have hcapital : Repeats (takeOne (· = 'U')) id :=
    repeats_takeOne (skipsBlanks_of_mem ['U'] (by simp) rfl)
  exact (repeats_takeRun skipsBlanks_isHexDigit).both fun _ => hsmall.both fun _ => hcapital

theorem hexadecimal_eq (mark : Char) (source : List Char) : hexadecimal mark source
    = ⟨'0' :: mark :: ((hexadecimalParts source).1.1 ++ ((hexadecimalParts source).1.2.1
        ++ (hexadecimalParts source).1.2.2)), (hexadecimalParts source).2,
      if (hexadecimalParts source).1.1.isEmpty
          || unsignedLimit ≤ digitsValue 16 (hexadecimalParts source).1.1 then
        .error (.invalidNumber ("0x" ++ String.ofList (hexadecimalParts source).1.1))
      else .ok (.int (digitsValue 16 (hexadecimalParts source).1.1))⟩ := by
  simp only [hexadecimal, List.append_assoc]
  rfl

theorem number_cases (source : List Char) :
    (∃ mark more, (mark = 'x' ∨ mark = 'X') ∧ source = '0' :: mark :: more
      ∧ number source = hexadecimal mark more)
    ∨ (∀ mark more, mark = 'x' ∨ mark = 'X' → source ≠ '0' :: mark :: more)
      ∧ number source = decimal source := by
  unfold number
  split
  · exact .inl ⟨_, _, .inl rfl, rfl, rfl⟩
  · exact .inl ⟨_, _, .inr rfl, rfl, rfl⟩
  · rename_i hsmall hcapital
    refine .inr ⟨?_, rfl⟩
    rintro mark more (rfl | rfl)
    · exact hsmall more
    · exact hcapital more

theorem startsNumber_cons (c : Char) (rest : List Char) :
    startsNumber (c :: rest) = (isDigit c || c = '.' && rest.head?.any isDigit) := by
  by_cases hc : c = '.'
  · subst hc
    cases rest <;> rfl
  · rw [decide_eq_false hc, Bool.false_and, Bool.or_false]
    unfold startsNumber
    split
    · rename_i heq
      exact absurd (List.cons.inj heq).1 hc
    · rename_i heq
      rw [(List.cons.inj heq).1]
    · rename_i heq
      cases heq

theorem startsBitwise_cons (c : Char) (rest : List Char) :
    startsBitwise (c :: rest) = ((c = '<' || c = '>') && rest.head? = some c
      || (c = '&' || c = '|') && rest.head? ≠ some c || c = '^' || c = '~') := by
  unfold startsBitwise
  split <;> simp_all
  rename_i hless hgreater _ _ _ _
  rintro (rfl | rfl) hhead
  · obtain ⟨more, rfl⟩ := List.head?_eq_some_iff.mp hhead
    exact hless more rfl rfl
  · obtain ⟨more, rfl⟩ := List.head?_eq_some_iff.mp hhead
    exact hgreater more rfl rfl

section Again

variable {d : Dialect} {source rest' : List Char} (hrest : StartsApart rest')
include hrest

theorem decimal_again :
    decimal ((decimal source).text ++ rest') = { decimal source with rest := rest' } := by
  have hparts := repeats_decimalParts.again source [] _ rest' (List.nil_append _).symm hrest
  rw [List.nil_append] at hparts
  rw [decimal_eq source, decimal_eq, hparts]

variable {text rest : List Char} {c : Char}

theorem hexadecimal_again (mark : Char)
    (htext : (hexadecimal mark source).text = '0' :: mark :: text) :
    hexadecimal mark (text ++ rest') = { hexadecimal mark source with rest := rest' } := by
  have hparts := repeats_hexadecimalParts.again source [] _ rest' (List.nil_append _).symm hrest
  rw [List.nil_append] at hparts
  rw [hexadecimal_eq] at htext
  cases htext
  rw [hexadecimal_eq mark source, hexadecimal_eq, hparts]

theorem word_again :
    word d ((word d source).text ++ rest') = { word d source with rest := rest' } := by
  have hagain := (repeats_takeRun skipsBlanks_isWordPart).again source [] _ rest'
    (List.nil_append _).symm hrest
  simp only [List.nil_append, id] at hagain
  simp only [word, hagain]

/-- The characters at the front are those of the source, or the second one is white space. -/
theorem second_of_append {more : List Char} {a b : Char} (hne : text ≠ [])
    (hsource : text ++ rest = source) (h : text ++ rest' = a :: b :: more) :
    isBlank b = true ∨ ∃ more', source = a :: b :: more' := by
  obtain ⟨a', tail, rfl⟩ := List.exists_cons_of_ne_nil hne
  cases tail with
  | nil =>
    cases h
    exact .inl (hrest b rfl)
  | cons b' tail =>
    obtain ⟨rfl, hcons⟩ := List.cons.inj h
    obtain ⟨rfl, -⟩ := List.cons.inj hcons
    exact .inr ⟨_, hsource.symm⟩

theorem number_again (h : startsNumber source = true) :
    number ((number source).text ++ rest') = { number source with rest := rest' } := by
  obtain ⟨mark, more, hmark, rfl, hnumber⟩ | ⟨hplain, hnumber⟩ := number_cases source
  · have hagain := hexadecimal_again hrest mark (congrArg Lexeme.text (hexadecimal_eq mark more))
    rw [hnumber, ← hagain, hexadecimal_eq]
    obtain rfl | rfl := hmark
    · rfl
    · rfl
  · rw [hnumber]
    obtain ⟨mark, more, hmark, hnew, -⟩ | ⟨-, hnew⟩ := number_cases ((decimal source).text ++ rest')
    · have hdecimal := splits_decimal h
      obtain hblank | ⟨more', hsource⟩ :=
        second_of_append hrest hdecimal.ne_nil hdecimal.append hnew
      · obtain rfl | rfl := hmark
        · exact absurd hblank (by decide)
        · exact absurd hblank (by decide)
      · exact absurd hsource (hplain mark more' hmark)
    · rw [hnew, decimal_again hrest]

/-- A text without white space does not reach into what stands behind. -/
theorem prefix_of_apart {mark : List Char} (hmark : mark.any isBlank = false)
    (h : mark <+: text ++ rest') : mark <+: text := by
  induction mark generalizing text with
  | nil => exact List.nil_prefix
  | cons c mark ih =>
    obtain ⟨hc, hmark⟩ := Bool.or_eq_false_iff.mp hmark
    cases text with
    | nil =>
      obtain ⟨more, hmore⟩ := h
      have hblank := hrest c (congrArg List.head? hmore.symm)
      exact absurd hblank (Bool.eq_false_iff.mp hc)
    | cons a text =>
      obtain ⟨rfl, hrest⟩ := List.cons_prefix_cons.mp h
      exact List.cons_prefix_cons.mpr ⟨rfl, ih hmark hrest⟩

theorem mark?_again {l : Lexeme TokenKind} (h : mark? source = some l) :
    mark? (l.text ++ rest') = some { l with rest := rest' } := by
  have hsplits := splits_mark? h
  obtain ⟨mark, hmark, rfl⟩ := Option.map_eq_some_iff.mp h
  obtain ⟨hfits, before, after, hall, hbefore⟩ := List.find?_eq_some_iff_append.mp hmark
  have hvisible : (Punct.all.any fun m => m.spelling.toList.any isBlank) = false := by
    decide +kernel
  refine Option.map_eq_some_iff.mpr ⟨mark, ?_, ?_⟩
  · refine List.find?_eq_some_iff_append.mpr ⟨?_, before, after, hall, fun m hm => ?_⟩
    · exact List.isPrefixOf_iff_prefix.mpr (List.prefix_append _ _)
    · -- A mark that fits ends before the white space, so it would have fitted before.
      have hother := hbefore m hm
      rw [Bool.not_eq_true', Bool.eq_false_iff] at hother ⊢
      intro hm'
      refine hother (List.isPrefixOf_iff_prefix.mpr ?_)
      have hmem : m ∈ Punct.all := hall ▸ List.mem_append_left _ hm
      have hvisible := List.any_eq_false.mp hvisible m hmem
      have hfits' := prefix_of_apart hrest (Bool.eq_false_iff.mpr hvisible)
        (List.isPrefixOf_iff_prefix.mp hm')
      exact hfits'.trans ⟨_, hsplits.append⟩
  · simp only [← String.length_toList, List.drop_left]

omit hrest in
theorem isDigit_of_text_number (h : startsNumber (c :: rest) = true)
    (htext : (number (c :: rest)).text = [c]) : isDigit c = true := by
  rw [startsNumber_cons, Bool.or_eq_true, Bool.and_eq_true, decide_eq_true_eq] at h
  obtain hc | ⟨rfl, hnext⟩ := h
  · exact hc
  · obtain ⟨b, hb, hdigit⟩ := (Option.any_eq_true _ _).mp hnext
    obtain ⟨more, rfl⟩ := List.head?_eq_some_iff.mp hb
    have hplain : number ('.' :: b :: more) = decimal ('.' :: b :: more) := rfl
    rw [hplain, decimal_eq] at htext
    simp [decimalParts, readBoth, DecimalParts.text, takeRun, takeOne, hdigit,
      show isDigit '.' = false from rfl] at htext

theorem startsBitwise_apart {l : Lexeme TokenKind} (hmark : mark? (c :: rest) = some l)
    (htext : l.text = [c]) (h : startsBitwise (c :: rest) = false) :
    startsBitwise (c :: rest') = false := by
  have hhead : ∀ a, isBlank a = false → rest'.head? ≠ some a := fun a ha hhead =>
    absurd (hrest a hhead) (Bool.eq_false_iff.mp ha)
  rw [startsBitwise_cons] at h ⊢
  -- `&` and `|` have been followed by another one, and the mark would have been longer.
  have hand : c ≠ '&' := by
    rintro rfl
    have hnext : rest.head? = some '&' := by simpa using h
    obtain ⟨more, rfl⟩ := List.head?_eq_some_iff.mp hnext
    cases hmark
    cases htext
  have hor : c ≠ '|' := by
    rintro rfl
    have hnext : rest.head? = some '|' := by simpa using h
    obtain ⟨more, rfl⟩ := List.head?_eq_some_iff.mp hnext
    cases hmark
    cases htext
  have hshift : (c = '<' ∨ c = '>') → rest'.head? ≠ some c := by
    rintro (rfl | rfl)
    · exact hhead _ (by decide)
    · exact hhead _ (by decide)
  simp_all

theorem token_again {kind : TokenKind} (h : (token d c rest).content = .ok kind) :
    ∃ more, (token d c rest).text = c :: more
      ∧ token d c (more ++ rest') = { token d c rest with rest := rest' } := by
  obtain ⟨hne, happend⟩ := splits_token d c rest
  obtain ⟨c', more, hmore⟩ := List.exists_cons_of_ne_nil hne
  rw [hmore] at happend
  obtain ⟨rfl, htail⟩ := List.cons.inj happend
  refine ⟨more, hmore, ?_⟩
  -- What kind of token it is depends on the first character and the next one.
  have hnext : more = [] ∨ (more ++ rest').head? = rest.head? := by
    cases more with
    | nil => exact .inl rfl
    | cons b more => exact .inr (htail ▸ rfl)
  unfold token at h hmore ⊢
  simp only [] at h hmore ⊢
  split at h
  · rename_i hword
    rw [if_pos hword] at hmore
    rw [if_pos hword, if_pos hword]
    have hagain : word d ((word d (c' :: rest)).text ++ rest')
        = { word d (c' :: rest) with rest := rest' } := word_again hrest
    rw [hmore] at hagain
    exact hagain
  · rename_i hword
    rw [if_neg hword] at hmore
    rw [if_neg hword, if_neg hword]
    split at h
    · rename_i hnumber
      rw [if_pos hnumber] at hmore
      have hnumber' : startsNumber (c' :: (more ++ rest')) = true := by
        obtain rfl | hhead := hnext
        · rw [startsNumber_cons, isDigit_of_text_number hnumber hmore, Bool.true_or]
        · rw [startsNumber_cons, hhead, ← startsNumber_cons, hnumber]
      rw [if_pos hnumber, if_pos hnumber']
      have hagain := number_again hrest hnumber
      rw [hmore] at hagain
      exact hagain
    · rename_i hnumber
      rw [if_neg hnumber] at hmore
      split at h
      · cases h
      · rename_i hbitwise
        rw [if_neg hbitwise] at hmore
        cases hmark : mark? (c' :: rest) with
        | none =>
          rw [hmark] at h
          cases h
        | some found =>
          rw [hmark, Option.getD_some] at hmore
          have hnumber' : ¬startsNumber (c' :: (more ++ rest')) = true := by
            rw [startsNumber_cons] at hnumber ⊢
            obtain rfl | hhead := hnext
            · rw [List.nil_append, hrest.head?_any skipsBlanks_isDigit]
              simp_all
            · rw [hhead]
              exact hnumber
          have hbitwise' : ¬startsBitwise (c' :: (more ++ rest')) = true := by
            obtain rfl | hhead := hnext
            · exact Bool.eq_false_iff.mp
                (startsBitwise_apart hrest hmark hmore (Bool.eq_false_iff.mpr hbitwise))
            · rw [startsBitwise_cons, hhead, ← startsBitwise_cons]
              exact hbitwise
          have hagain := mark?_again hrest hmark
          rw [hmore] at hagain
          rw [if_neg hnumber, if_neg hnumber', if_neg hbitwise, if_neg hbitwise',
            ← List.cons_append, hagain]
          simp only [Option.getD_some, hmore]

end Again

variable {d : Dialect} {lineStart : Bool}

theorem piece?_of_blank {c : Char} {rest : List Char} (hc : isBlank c = true)
    (hnewline : c ≠ '\n') : piece? d lineStart (c :: rest) = some ⟨[c], rest, .ok .filler⟩ := by
  unfold piece?
  split
  · rename_i heq
    cases heq
  · rename_i heq
    exact absurd (List.cons.inj heq).1 hnewline
  · rename_i heq
    cases heq
    cases hc
  · rename_i heq
    cases heq
    cases hc
  · rename_i heq
    cases heq
    rw [if_pos hc]

/-- A piece that starts with none of the characters of white space, comments and directives. -/
theorem piece?_of_token {c : Char} {rest : List Char} (hblank : isBlank c = false)
    (hdirective : c ≠ '#') (hcomment : c = '/' → rest.head? ≠ some '/' ∧ rest.head? ≠ some '*') :
    piece? d lineStart (c :: rest) = some ⟨(token d c rest).text, (token d c rest).rest,
      (token d c rest).content.map .token⟩ := by
  unfold piece?
  split
  · rename_i heq
    cases heq
  · rename_i heq
    cases heq
    cases hblank
  · rename_i heq
    cases heq
    exact absurd rfl (hcomment rfl).1
  · rename_i heq
    cases heq
    exact absurd rfl (hcomment rfl).2
  · rename_i heq
    cases heq
    rw [if_neg (Bool.eq_false_iff.mp hblank), if_neg (by simp [hdirective])]

theorem token_of_piece? {source : List Char} {l : Lexeme Piece} {kind : TokenKind}
    (h : piece? d lineStart source = some l) (hkind : l.content = .ok (.token kind)) :
    ∃ c rest, source = c :: rest ∧ isBlank c = false ∧ c ≠ '#'
      ∧ (c = '/' → rest.head? ≠ some '/' ∧ rest.head? ≠ some '*')
      ∧ (token d c rest).content = .ok kind ∧ l.text = (token d c rest).text
      ∧ l.rest = (token d c rest).rest := by
  unfold piece? at h
  split at h
  · cases h
  · cases h
    cases hkind
  · cases h
    cases hkind
  · cases h
    unfold blockComment at hkind
    split at hkind
    · cases hkind
    · cases hkind
  · rename_i c rest hnewline hline hblock
    split at h
    · cases h
      cases hkind
    · rename_i hblank
      split at h
      · cases h
        unfold directive at hkind
        simp only [] at hkind
        split at hkind
        · split at hkind
          · cases hkind
          · cases hkind
        · cases hkind
      · cases h
        simp only [] at hkind
        cases hcontent : (token d c rest).content with
        | error fault =>
          rw [hcontent] at hkind
          cases hkind
        | ok kind' =>
          rw [hcontent] at hkind
          cases hkind
          refine ⟨c, rest, rfl, Bool.eq_false_iff.mpr hblank, ?_, ?_, hcontent, rfl, rfl⟩
          · rintro rfl
            cases hcontent
          · rintro rfl
            constructor
            · intro hhead
              obtain ⟨more, rfl⟩ := List.head?_eq_some_iff.mp hhead
              exact hline more rfl rfl
            · intro hhead
              obtain ⟨more, rfl⟩ := List.head?_eq_some_iff.mp hhead
              exact hblock more rfl rfl

end Lexeme

/-! ## Texts of tokens -/

/-- The text of a token: it is read as this token from some source. -/
def IsLexeme (d : Dialect) (text : List Char) (kind : TokenKind) : Prop :=
  ∃ lineStart rest,
    Lexeme.piece? d lineStart (text ++ rest) = some ⟨text, rest, .ok (.token kind)⟩

variable {text : List Char}

/-- The text of a token is read again as this token wherever white space follows it. -/
theorem IsLexeme.piece? {d : Dialect} {kind : TokenKind} (h : IsLexeme d text kind)
    (lineStart : Bool) {rest : List Char} (hrest : StartsApart rest) :
    Lexeme.piece? d lineStart (text ++ rest) = some ⟨text, rest, .ok (.token kind)⟩ := by
  obtain ⟨_, rest₀, hpiece⟩ := h
  obtain ⟨c, tail, hsource, hblank, hdirective, hcomment, hcontent, htext, hrest₀⟩ :=
    Lexeme.token_of_piece? hpiece rfl
  obtain ⟨more, hmore, hagain⟩ := Lexeme.token_again hrest hcontent
  obtain rfl : text = c :: more := htext.trans hmore
  obtain rfl : more ++ rest₀ = tail := (List.cons.inj hsource).2
  have hcomment' : c = '/' → (more ++ rest).head? ≠ some '/' ∧ (more ++ rest).head? ≠ some '*' := by
    intro hc
    cases more with
    | nil =>
      refine ⟨fun hhead => ?_, fun hhead => ?_⟩
      · exact absurd (hrest _ hhead) (by decide)
      · exact absurd (hrest _ hhead) (by decide)
    | cons b more => exact hcomment hc
  rw [List.cons_append, Lexeme.piece?_of_token hblank hdirective hcomment', hagain, hcontent]
  simp only [← htext, Except.map]

theorem IsLexeme.unique {d : Dialect} {kind kind' : TokenKind} (h : IsLexeme d text kind)
    (h' : IsLexeme d text kind') : kind = kind' := by
  have hend : StartsApart [] := nofun
  have hsame := (h.piece? true hend).symm.trans (h'.piece? true hend)
  simpa using hsame

instance Position.decidableLE (p q : Position) : Decidable (p ≤ q) :=
  decidable_of_iff _ Position.le_iff.symm

theorem Position.not_after_le (p : Position) (h : text ≠ []) : ¬p.after text ≤ p := by
  obtain ⟨c, rest, rfl⟩ := List.exists_cons_of_ne_nil h
  intro hle
  have hstep : p.step c ≤ p := le_trans (le_after _ rest) hle
  rw [le_iff] at hstep
  unfold step at hstep
  split at hstep
  · simp only [] at hstep
    omega
  · simp only [] at hstep
    omega

namespace Span

/-- The text of a stretch of a source that starts at a position. -/
def cut (s : Span) : Position → List Char → List Char
  | _, [] => []
  | p, c :: rest =>
    if s.start ≤ p ∧ ¬s.stop ≤ p then c :: s.cut (p.step c) rest else s.cut (p.step c) rest

variable {s : Span} {p : Position}

theorem cut_before {read rest : List Char} (h : s.start = p.after read) :
    s.cut p (read ++ rest) = s.cut s.start rest := by
  induction read generalizing p with
  | nil => rw [h, List.nil_append, Position.after_nil]
  | cons c read ih =>
    have hlater : ¬s.start ≤ p := h ▸ p.not_after_le (List.cons_ne_nil c read)
    rw [List.cons_append, cut, if_neg (fun hin => hlater hin.1), ih h]

theorem cut_behind {rest : List Char} (h : s.stop ≤ p) : s.cut p rest = [] := by
  induction rest generalizing p with
  | nil => rfl
  | cons c rest ih =>
    rw [cut, if_neg (fun hin => hin.2 h), ih (le_trans h (p.le_step c))]

theorem cut_within {text rest : List Char} (hstart : s.start ≤ p) (hstop : s.stop = p.after text) :
    s.cut p (text ++ rest) = text := by
  induction text generalizing p with
  | nil => exact cut_behind (le_of_eq hstop)
  | cons c text ih =>
    have hearlier : ¬s.stop ≤ p := hstop ▸ p.not_after_le (List.cons_ne_nil c text)
    rw [List.cons_append, cut, if_pos ⟨hstart, hearlier⟩,
      ih (le_trans hstart (p.le_step c)) hstop]

end Span

def Scanned.lexemes (s : Scanned) (source : String) : List (List Char) :=
  s.tokens.map fun t => t.span.cut {} source.toList

variable {d : Dialect}

theorem Scans.isLexeme {lineStart : Bool} {p : Position} {source : List Char}
    {result : Except (Located LexFault) Scanned} (h : Scans d lineStart p source result)
    {text read : List Char} (htext : text = read ++ source) (hp : p = ({} : Position).after read) :
    ∀ s, result = .ok s → ∀ t ∈ s.tokens, IsLexeme d (t.span.cut {} text) t.kind := by
  induction h generalizing read with
  | done =>
    rintro _ ⟨⟩
    exact List.forall_mem_nil _
  | fault hfound hfault => exact nofun
  | @piece lineStart p source found piece result hfound hpiece hrest ih =>
    obtain ⟨hne, happend⟩ := Lexeme.splits_piece? hfound
    have htext' : text = (read ++ found.text) ++ found.rest := by
      rw [List.append_assoc, happend, htext]
    have hp' : p.after found.text = ({} : Position).after (read ++ found.text) := by
      rw [Position.after_append, ← hp]
    cases result with
    | error fault => exact nofun
    | ok scanned =>
      rintro _ ⟨⟩
      have hothers := ih htext' hp' scanned rfl
      cases piece with
      | newline => exact hothers
      | filler => exact hothers
      | pragma => exact hothers
      | token kind =>
        refine List.forall_mem_cons.mpr ⟨?_, hothers⟩
        have hcut : (⟨p, p.after found.text⟩ : Span).cut {} text = found.text := by
          rw [htext', List.append_assoc, Span.cut_before hp]
          exact Span.cut_within (le_refl _) rfl
        refine ⟨lineStart, found.rest, ?_⟩
        simp only [hcut, happend, hfound, ← hpiece]

theorem isLexeme_of_scan {source : String} {s : Scanned} (h : scan d source = .ok s) :
    ∀ t ∈ s.tokens, IsLexeme d (t.span.cut {} source.toList) t.kind :=
  (scans_scan d source).isLexeme (List.nil_append _).symm rfl s h

theorem map_kind_of_lexemes {source source' : String} {s s' : Scanned} (h : scan d source = .ok s)
    (h' : scan d source' = .ok s') (hlexemes : s.lexemes source = s'.lexemes source') :
    s.tokens.map (·.kind) = s'.tokens.map (·.kind) := by
  have hkinds := isLexeme_of_scan h
  have hkinds' := isLexeme_of_scan h'
  unfold Scanned.lexemes at hlexemes
  generalize s.tokens = tokens at hkinds hlexemes ⊢
  generalize s'.tokens = tokens' at hkinds' hlexemes ⊢
  induction tokens generalizing tokens' with
  | nil =>
    rw [List.map_eq_nil_iff.mp hlexemes.symm]
  | cons t tokens ih =>
    cases tokens' with
    | nil => cases hlexemes
    | cons t' tokens' =>
      obtain ⟨hfirst, hothers⟩ := List.cons.inj hlexemes
      obtain ⟨hkind, hkinds⟩ := List.forall_mem_cons.mp hkinds
      obtain ⟨hkind', hkinds'⟩ := List.forall_mem_cons.mp hkinds'
      simp only [] at hfirst
      rw [List.map_cons, List.map_cons, ih hkinds tokens' hkinds' hothers,
        hkind.unique (hfirst ▸ hkind')]

end ShaderBytecode
