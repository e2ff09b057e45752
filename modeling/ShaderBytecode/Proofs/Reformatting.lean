import ShaderBytecode.Proofs.Lexemes
import ShaderBytecode.Proofs.Renaming

/-!
# Reformatted sources

What stands between the tokens of a source does not matter. Sources with the same lexemes are
compiled alike, and lexemes may be put together with any white space and comments between them.
-/

namespace ShaderBytecode

/-! ## Separators -/

/-- White space and complete comments. -/
inductive IsFilling : List Char → Prop
  | nil : IsFilling []
  | blank {c : Char} {rest : List Char} (hc : isBlank c = true) (hrest : IsFilling rest) :
      IsFilling (c :: rest)
  | lineComment {line rest : List Char} (hline : '\n' ∉ line) (hrest : IsFilling rest) :
      IsFilling ('/' :: '/' :: (line ++ '\n' :: rest))
  | blockComment {text rest : List Char} (htext : throughCommentEnd text = some (text, []))
      (hrest : IsFilling rest) : IsFilling ('/' :: '*' :: (text ++ rest))

/-- White space and complete comments, with white space in front. -/
structure IsSeparator (text : List Char) : Prop where
  filling : IsFilling text
  starts : text.head?.any isBlank = true

theorem IsSeparator.startsApart {text : List Char} (h : IsSeparator text) (rest : List Char) :
    StartsApart (text ++ rest) := by
  obtain ⟨c, hc, hblank⟩ := (Option.any_eq_true _ _).mp h.starts
  obtain ⟨more, rfl⟩ := List.head?_eq_some_iff.mp hc
  rintro _ ⟨⟩
  exact hblank

/-- Lexemes with separators between them. A separator is chosen by the number of lexemes behind. -/
def joinLexemes (separator : Nat → List Char) : List (List Char) → List Char
  | [] => []
  | [text] => text
  | text :: next :: more =>
    text ++ (separator more.length ++ joinLexemes separator (next :: more))

/-! ## Scanning what is put together -/

def Piece.kind? : Piece → Option TokenKind
  | .token kind => some kind
  | .newline | .filler | .pragma => none

/-- Tokens of some kinds are found in a source, wherever it stands. -/
def Finds (d : Dialect) (source : List Char) (kinds : List TokenKind) : Prop :=
  ∀ lineStart p, ∃ s, Scans d lineStart p source (.ok s) ∧ s.tokens.map (·.kind) = kinds

section Finds

variable {d : Dialect} {rest : List Char} {kinds : List TokenKind}

theorem finds_nil : Finds d [] [] :=
  fun _ _ => ⟨_, .done, rfl⟩

theorem Finds.piece (hrest : Finds d rest kinds) {source text : List Char} (piece : Piece)
    (h : ∀ lineStart, Lexeme.piece? d lineStart source = some ⟨text, rest, .ok piece⟩) :
    Finds d source (piece.kind?.toList ++ kinds) := by
  intro lineStart p
  obtain ⟨s, hscans, rfl⟩ := hrest (piece.lineStartAfter lineStart) (p.after text)
  refine ⟨_, .piece (h lineStart) rfl hscans, ?_⟩
  cases piece <;> rfl

theorem Finds.blank (hrest : Finds d rest kinds) {c : Char} (hc : isBlank c = true) :
    Finds d (c :: rest) kinds := by
  by_cases hnewline : c = '\n'
  · subst hnewline
    exact hrest.piece .newline fun _ => rfl
  · exact hrest.piece .filler fun _ => Lexeme.piece?_of_blank hc hnewline

theorem Finds.filling (hrest : Finds d rest kinds) {text : List Char} (h : IsFilling text) :
    Finds d (text ++ rest) kinds := by
  induction h with
  | nil => exact hrest
  | blank hc _ ih => exact ih.blank hc
  | @lineComment line more hline _ ih =>
    have hrun : takeRun (· ≠ '\n') (line ++ '\n' :: (more ++ rest))
        = (line, '\n' :: (more ++ rest)) := by
      have hfront : ∀ c ∈ line, decide (c ≠ '\n') = true := fun c hc =>
        decide_eq_true fun hnewline => hline (hnewline ▸ hc)
      refine Prod.ext ?_ ?_
      · exact (List.takeWhile_append_of_pos hfront).trans (List.append_nil line)
      · exact List.dropWhile_append_of_pos hfront
    have hpiece : ∀ lineStart, Lexeme.piece? d lineStart
        ('/' :: '/' :: (line ++ '\n' :: (more ++ rest)))
          = some ⟨'/' :: '/' :: line, '\n' :: (more ++ rest), .ok .filler⟩ := by
      intro lineStart
      rw [Lexeme.piece?, Lexeme.lineComment, hrun]
    rw [List.cons_append, List.cons_append, List.append_assoc, List.cons_append]
    exact (ih.blank (by decide)).piece .filler hpiece
  | @blockComment text more htext _ ih =>
    have hpiece : ∀ lineStart, Lexeme.piece? d lineStart ('/' :: '*' :: (text ++ (more ++ rest)))
        = some ⟨'/' :: '*' :: text, more ++ rest, .ok .filler⟩ := by
      intro lineStart
      have hclosed := Lexeme.throughCommentEnd_append htext (more ++ rest)
      rw [Lexeme.piece?, Lexeme.blockComment, hclosed]
      rfl
    rw [List.cons_append, List.cons_append, List.append_assoc]
    exact ih.piece .filler hpiece

theorem Finds.lexeme (hrest : Finds d rest kinds) {text : List Char} {kind : TokenKind}
    (h : IsLexeme d text kind) (hapart : StartsApart rest) :
    Finds d (text ++ rest) (kind :: kinds) :=
  hrest.piece (.token kind) fun lineStart => h.piece? lineStart hapart

theorem finds_joinLexemes {separator : Nat → List Char}
    (hseparator : ∀ i, IsSeparator (separator i)) {texts : List (List Char)}
    (h : List.Forall₂ (IsLexeme d) texts kinds) : Finds d (joinLexemes separator texts) kinds := by
  induction h with
  | nil => exact finds_nil
  | @cons text kind more kinds htext hmore ih =>
    cases more with
    | nil =>
      cases hmore
      have hfound := finds_nil.lexeme htext nofun
      rwa [List.append_nil] at hfound
    | cons next more =>
      have hseparated := ih.filling (hseparator more.length).filling
      exact hseparated.lexeme htext ((hseparator more.length).startsApart _)

end Finds

/-- Tokens are found again wherever their texts are put together. -/
theorem scan_joinLexemes {d : Dialect} {source : String} {s : Scanned}
    (h : scan d source = .ok s) {separator : Nat → List Char}
    (hseparator : ∀ i, IsSeparator (separator i)) :
    ∃ s', scan d (String.ofList (joinLexemes separator (s.lexemes source))) = .ok s'
      ∧ s'.tokens.map (·.kind) = s.tokens.map (·.kind) := by
  have hlexemes : List.Forall₂ (IsLexeme d) (s.lexemes source) (s.tokens.map (·.kind)) := by
    rw [Scanned.lexemes, List.forall₂_map_left_iff, List.forall₂_map_right_iff, List.forall₂_same]
    exact isLexeme_of_scan h
  obtain ⟨s', hscans, hkinds⟩ := finds_joinLexemes hseparator hlexemes true {}
  refine ⟨s', Scans.unique (scans_scan d _) ?_, hkinds⟩
  rwa [String.toList_ofList]

/-! ## Compiling -/

/-- The same code and program, or the same errors, which may stand elsewhere. -/
inductive SameOutcome : Except Failure Compiled → Except Failure Compiled → Prop
  | compiled {compiled compiled' : Compiled} (hbytes : compiled'.bytes = compiled.bytes)
      (hprogram : compiled'.program = compiled.program) :
      SameOutcome (.ok compiled) (.ok compiled')
  | failed {failure failure' : Failure}
      (herrors : failure'.errors.map (·.cause) = failure.errors.map (·.cause)) :
      SameOutcome (.error failure) (.error failure')

/-- Tokens of the same kinds look alike if their places do not count. -/
theorem Likeness.tokens_of_kinds (d : Dialect) :
    ∀ {tokens tokens' : List Token}, tokens.map (·.kind) = tokens'.map (·.kind) →
      (Likeness.ofRenaming (.identity d) (fun _ => {}) fun _ _ => rfl).Tokens tokens tokens'
  | [], [], _ => .nil
  | ⟨kind, _⟩ :: _, ⟨kind', _⟩ :: _, h => by
    obtain ⟨rfl, hrest⟩ : kind = kind' ∧ _ := List.cons.inj h
    cases kind with
    | word w => exact .word rfl (fun _ _ => rfl) rfl (tokens_of_kinds d hrest)
    | _ => exact .other nofun rfl (tokens_of_kinds d hrest)

/-- Sources with the same tokens are compiled alike if lines are not marked. -/
theorem compile_of_kinds {d : Dialect} {config : Config} (hmarkers : config.lineMarkers = false)
    {request request' : Request} (hstage : request'.stage = request.stage)
    (hentry : request'.entryPoint = request.entryPoint) {s s' : Scanned}
    (h : scan d request.source = .ok s) (h' : scan d request'.source = .ok s')
    (hkinds : s.tokens.map (·.kind) = s'.tokens.map (·.kind)) :
    SameOutcome (compile d config request) (compile d config request') := by
  have hline : ∀ s : Span, Span.line {} = (fun _ : Nat => 1) s.line := fun _ => rfl
  let c : Context := ⟨d, request.stage, config.promoteInts⟩
  have hjoint : (Translation.ofRenaming c id (.identity d) (fun _ => {}) (fun _ => 1) hline).Joint
      (Translation.ofRenaming c id (.identity d) (fun _ => {}) (fun _ => 1) hline)
      (outcome (compile d config request)) (outcome (compile d config request')) := by
    rw [outcome_compile, outcome_compile, hstage]
    cases d.supports request.stage with
    | false => exact fun _ => .cons ⟨fun _ _ => rfl, rfl⟩ .nil
    | true =>
      simp only [h, h', if_true]
      exact (Renaming.identity d).compileTokens_joint (c := c) (fun _ _ => rfl) hline rfl
        (fun hmarked => absurd hmarked (Bool.eq_false_iff.mp hmarkers)) rfl hstage hentry
        (Likeness.tokens_of_kinds d hkinds) rfl fun _ _ _ _ _ _ => rfl
  obtain ⟨hsuccess, hcompiled⟩ := (Renaming.identity d).of_joint (c := c) hline hjoint
  cases hx : compile d config request with
  | ok compiled =>
    obtain ⟨compiled', hx'⟩ := hsuccess.mp ⟨compiled, hx⟩
    obtain ⟨hbytes, hprogram⟩ := hcompiled compiled compiled' hx hx'
    rw [hx']
    exact .compiled hbytes (hprogram.trans compiled.program.rename_id)
  | error failure =>
    cases hx' : compile d config request' with
    | ok compiled' =>
      obtain ⟨compiled, hok⟩ := hsuccess.mpr ⟨compiled', hx'⟩
      cases hx.symm.trans hok
    | error failure' =>
      rw [hx, hx'] at hjoint
      refine .failed ?_
      rw [← List.forall₂_eq_eq_eq, List.forall₂_map_left_iff, List.forall₂_map_right_iff]
      have hexact : (Translation.ofRenaming c id (.identity d) (fun _ => {}) (fun _ => 1)
          hline).Exact := ⟨⟨rfl, rfl⟩, fun _ => rfl, fun _ _ => rfl, fun _ => rfl⟩
      exact (List.Forall₂.imp (fun _ _ herrors => herrors.eq hexact hexact) (hjoint rfl)).flip

/-- What stands between tokens does not matter. Sources that are scanned to the same lexemes are
compiled alike if lines are not marked. The lexemes of a source are scanned to the same tokens
again with any separators between them. -/
theorem compile_reformatted (d : Dialect) (config : Config) (hmarkers : config.lineMarkers = false)
    (request : Request) (s : Scanned) (h : scan d request.source = .ok s) :
    (∀ source s', scan d source = .ok s' → s'.lexemes source = s.lexemes request.source →
      SameOutcome (compile d config request) (compile d config { request with source }))
    ∧ ∀ separator : Nat → List Char, (∀ i, IsSeparator (separator i)) →
      ∃ s', scan d (String.ofList (joinLexemes separator (s.lexemes request.source))) = .ok s'
        ∧ s'.tokens.map (·.kind) = s.tokens.map (·.kind) := by
  refine ⟨fun source s' h' hlexemes => ?_, fun separator hseparator => ?_⟩
  · exact compile_of_kinds hmarkers rfl rfl h h' (map_kind_of_lexemes h h' hlexemes.symm)
  · exact scan_joinLexemes h hseparator

def plainRequest : Request where
  stage := .pixel
  source := "void main() \x7b float x = 1.5; \x7d"

def commentedSource : String :=
  "// nothing\nvoid main(/**/)\n\x7b\n  float x=1.5 ;// half\n\x7d"

theorem compile_reformatted_plainRequest :
    (∃ compiled compiled', compile .glsl { lineMarkers := false } plainRequest = .ok compiled
      ∧ compile .glsl { lineMarkers := false } { plainRequest with source := commentedSource }
        = .ok compiled' ∧ compiled'.bytes = compiled.bytes
      ∧ compiled'.program = compiled.program)
    ∧ ∃ s s', scan .glsl plainRequest.source = .ok s
      ∧ scan .glsl (String.ofList (joinLexemes (fun _ => "\t// one\n".toList)
        (s.lexemes plainRequest.source))) = .ok s'
      ∧ s'.tokens.map (·.kind) = s.tokens.map (·.kind) := by
  have hscans : ((scan .glsl plainRequest.source).toOption.any fun s =>
      (scan .glsl commentedSource).toOption.any fun s' =>
        s'.lexemes commentedSource = s.lexemes plainRequest.source) = true := by
    decide +kernel
  obtain ⟨s, hscan, hscans⟩ := exists_ok_of_any hscans
  obtain ⟨s', hscan', hlexemes⟩ := exists_ok_of_any hscans
  obtain ⟨hcompiles, hjoins⟩ := compile_reformatted .glsl { lineMarkers := false } rfl
    plainRequest s hscan
  refine ⟨?_, ?_⟩
  · have hok : (compile .glsl { lineMarkers := false } plainRequest).toOption.isSome = true := by
      decide +kernel
    obtain ⟨compiled, hcompiled⟩ := exists_ok_of_isSome hok
    have hsame := hcompiles commentedSource s' hscan'
      (of_decide_eq_true hlexemes)
    rw [hcompiled] at hsame ⊢
    generalize compile .glsl _ _ = found at hsame ⊢
    cases hsame with
    | compiled hbytes hprogram => exact ⟨_, _, rfl, rfl, hbytes, hprogram⟩
  · have hcomment : IsFilling ('/' :: '/' :: (" one".toList ++ '\n' :: [])) :=
      .lineComment (by decide) .nil
    have hseparator : IsSeparator "\t// one\n".toList :=
      ⟨.blank (by decide) hcomment, by decide⟩
    obtain ⟨joined, hjoined, hkinds⟩ := hjoins _ fun _ => hseparator
    exact ⟨s, joined, hscan, hjoined, hkinds⟩

end ShaderBytecode
