import Mathlib.Logic.Equiv.Basic
import ShaderBytecode.Proofs.AlikeSource
import ShaderBytecode.Proofs.RegisteredNames
import ShaderBytecode.Proofs.TranslatedPrograms

/-!
# Renamed sources

The names that a source gives are its own affair. If its words are renamed and what is reserved,
predeclared or a label keeps its name, the source is compiled to the same code, and the names of its
program are renamed.
-/

namespace ShaderBytecode

/-! ## Renamings -/

/-- The words that have a meaning of their own in a dialect: reserved words, types, intrinsics, the
words of the stages and of registers. The empty name is that of an unnamed parameter. -/
def Dialect.keeps (d : Dialect) (word : String) : Bool :=
  (d.reserved? word).isSome || (d.builtinType? word).isSome || Intrinsic.isName d word
    || "gl_".toList.isPrefixOf word.toList || word = "register" || word = ""

/-- A renaming of words that have no meaning of their own. -/
structure Renaming (d : Dialect) (r : String → String) : Prop where
  injective : Function.Injective r
  keeps : ∀ {w}, d.keeps w = true → r w = w

namespace Renaming

variable {d : Dialect} {r : String → String}

theorem identity (d : Dialect) : Renaming d id :=
  ⟨Function.injective_id, fun _ => rfl⟩

section Kept

variable (h : Renaming d r)
include h

theorem eq_iff {v : String} (hv : d.keeps v = true) (w : String) : r w = v ↔ w = v := by
  constructor
  · intro hw
    exact h.injective (hw.trans (h.keeps hv).symm)
  · rintro rfl
    exact h.keeps hv

theorem keeps_iff (w : String) : d.keeps (r w) = d.keeps w := by
  cases hw : d.keeps w with
  | true => rw [h.keeps hw, hw]
  | false =>
    cases hr : d.keeps (r w) with
    | false => rfl
    | true =>
      rw [(h.eq_iff hr w).mp rfl, hr] at hw
      cases hw

/-- What holds of kept words only holds of a renamed word just if it held before. -/
theorem apply_eq {α : Type} (test : String → α) (other : α)
    (hother : ∀ w, d.keeps w = false → test w = other) (w : String) : test (r w) = test w := by
  cases hw : d.keeps w with
  | true => rw [h.keeps hw]
  | false => rw [hother w hw, hother (r w) (h.keeps_iff w ▸ hw)]

theorem builtinType? (w : String) : d.builtinType? (r w) = d.builtinType? w := by
  refine h.apply_eq d.builtinType? none (fun w hw => ?_) w
  simp only [Dialect.keeps, Bool.or_eq_false_iff] at hw
  exact Option.not_isSome_iff_eq_none.mp (by simp [hw])

theorem lookup? (w : String) (k : Nat) :
    Intrinsic.lookup? d (r w) k = Intrinsic.lookup? d w k := by
  refine h.apply_eq (Intrinsic.lookup? d · k) none (fun w hw => ?_) w
  simp only [Dialect.keeps, Bool.or_eq_false_iff] at hw
  exact Intrinsic.lookup?_eq_none hw.1.1.1.2 k

theorem reserved (w : String) :
    "gl_".toList.isPrefixOf (r w).toList = "gl_".toList.isPrefixOf w.toList := by
  refine h.apply_eq ("gl_".toList.isPrefixOf ·.toList) false (fun w hw => ?_) w
  simp only [Dialect.keeps, Bool.or_eq_false_iff] at hw
  exact hw.1.1.2

end Kept

end Renaming

/-! ## Renamings as translations -/

theorem Dialect.keeps_stageVariable (d : Dialect) (stage : Stage) :
    ∀ v ∈ stageVariables d stage, d.keeps v.name = true := by
  cases d with
  | hlsl => exact List.forall_mem_nil _
  | glsl => cases stage <;> decide

/-- A renaming is a translation within the dialect. Lines may change as well. -/
def Translation.ofRenaming (c : Context) (r : String → String) (h : Renaming c.dialect r)
    (span : Span → Span) (line : Nat → Nat) (hline : ∀ s, (span s).line = line s.line) :
    Translation where
  context := c
  dialect := c.dialect
  promote := c.promote
  spelling := ⟨r, fun w _ => r w, span⟩
  name := r
  line := line
  Declares _ := True
  Reads _ := True
  Labels w := r w = w
  promote_or := .inl rfl
  name_injective := h.injective
  name_empty := h.keeps (by simp [Dialect.keeps])
  line_span := hline
  reads_of_declares := id
  word_label := id
  word_iff _ _ := h.injective.eq_iff
  callee_iff _ _ _ := h.injective.eq_iff
  word_type hw := (h.builtinType? _).trans hw
  callee_type _ hw := (h.builtinType? _).trans hw
  word_typeless _ hw := (h.builtinType? _).trans hw
  callee_typeless _ _ hw := (h.builtinType? _).trans hw
  intrinsic hw hf _ := ⟨(h.lookup? _ _).trans hf, (h.builtinType? _).trans hw⟩
  notIntrinsic _ _ _ hf := (h.lookup? _ _).trans hf
  isName _ := congrArg Option.isSome (h.lookup? _ 0)
  reserved _ := congrArg _ (h.reserved _)
  provided _ v hv := ⟨trivial, h.keeps (c.dialect.keeps_stageVariable c.stage v hv)⟩
  across hne := absurd rfl hne
  unprovided hne := absurd rfl hne

/-! ## Renamed tokens -/

def TokenKind.rename (r : String → String) : TokenKind → TokenKind
  | .word w => .word (r w)
  | kind => kind

def Token.lined (t : Token) : TokenKind × Int × Int :=
  (t.kind, t.span.start.line, t.span.stop.line)

/-- The same tokens with other words, on the same lines. -/
structure Scanned.Renamed (r : String → String) (s s' : Scanned) : Prop where
  tokens : s'.tokens.map Token.lined
    = s.tokens.map fun t => Token.lined { t with kind := t.kind.rename r }
  stop : s'.stop.line = s.stop.line

/-- A source of a dialect and the same source with other words. Neither has tokens, or the words of
one are renamed in the other. -/
inductive SourceRenamed (d : Dialect) (r : String → String) (source source' : String) : Prop
  | scanned {s s' : Scanned} (h : scan d source = .ok s) (h' : scan d source' = .ok s')
      (hrenamed : s.Renamed r s')
  | unscanned {e e' : Located LexFault} (h : scan d source = .error e)
      (h' : scan d source' = .error e')

/-! ## Reading and compiling renamed tokens -/

/-- The words of a source look like those of the renamed one. -/
def Likeness.ofRenaming {d : Dialect} {r : String → String} (h : Renaming d r)
    (span : Span → Span) (hspan : ∀ s t, span (s.through t) = (span s).through (span t)) :
    Likeness where
  left := ⟨r, fun w _ => r w, span⟩
  right := ⟨id, fun w _ => w, span⟩
  left_through := hspan
  right_through := hspan
  void := by
    rintro w _ rfl
    exact (h.eq_iff (by cases d <;> decide) w).symm
  register := by
    rintro w _ rfl
    exact (h.eq_iff (by cases d <;> decide) w).symm

section Tokens

variable {c : Context} {r : String → String} (h : Renaming c.dialect r)
  {span : Span → Span} (hspan : ∀ s t, span (s.through t) = (span s).through (span t))
  {line : Nat → Nat} (hline : ∀ s, (span s).line = line s.line)
include hspan hline

theorem Renaming.compileTokens_joint {config : Config} {request request' : Request}
    (hpromote : c.promote = config.promoteInts)
    (hlines : config.lineMarkers = true → ∀ n, line n = n)
    (hstage : c.stage = request.stage) (hstages : request'.stage = request.stage)
    (hentry : request'.entryPoint = r request.entryPoint) {s s' : Scanned}
    (htokens : (Likeness.ofRenaming h span hspan).Tokens s.tokens s'.tokens)
    (hstop : span ⟨s.stop, s.stop⟩ = span ⟨s'.stop, s'.stop⟩)
    (hlabels : ∀ ds, Ast.ofTokens c.dialect s = .ok ds → ∀ x ∈ ds, ∀ w, .labels w ∈ x.uses →
      r w = w) :
    (Translation.ofRenaming c r h span line hline).Joint
      (Translation.ofRenaming c id (.identity _) span line hline)
      (compileTokens c.dialect config request s) (compileTokens c.dialect config request' s') := by
  unfold compileTokens
  obtain ⟨ds, ds', hread, hread', htrees⟩ | ⟨e, e', hread, hread', hcauses⟩ :=
    Likeness.ofTokens_cases c.dialect htokens hstop
  · rw [hread, hread']
    have hadmits : ∀ x ∈ ds, (Translation.ofRenaming c r h span line hline).AdmitsDeclaration
        x := by
      intro x hx
      refine ⟨fun u hu => ?_, by cases x <;> trivial⟩
      cases u with
      | reads w => trivial
      | declares w => trivial
      | labels w => exact hlabels ds hread x hx w hu
    have hadmits' : ∀ x ∈ ds', (Translation.ofRenaming c id (.identity _) span line
        hline).AdmitsDeclaration x := by
      intro x _
      exact ⟨fun u _ => by cases u <;> trivial, by cases x <;> trivial⟩
    have hsame : (Translation.ofRenaming c id (.identity _) span line hline).Same := rfl
    exact Translation.compileTree_joint
      (T := Translation.ofRenaming c r h span line hline) hsame rfl hstage
      (hstage.trans hstages.symm) ⟨hpromote, hpromote⟩ ⟨hpromote, hpromote⟩ hlines hlines hstages
      hentry htrees hadmits hadmits'
  · rw [hread, hread']
    refine fun _ => .cons ⟨fun hexact _ => ?_, rfl⟩ .nil
    have hwords : (Likeness.ofRenaming h span hspan).Exact := fun w w' hw =>
      (hexact.word w).symm.trans hw
    exact congrArg Cause.reading (hcauses hwords).symm

end Tokens

/-! ## Renamed sources -/

def Span.lineStarts (s : Span) : Span :=
  ⟨⟨s.start.line, 0⟩, ⟨s.stop.line, 0⟩⟩

theorem Span.lineStarts_congr {s t : Span} (hstart : t.start.line = s.start.line)
    (hstop : t.stop.line = s.stop.line) : s.lineStarts = t.lineStarts := by
  rw [lineStarts, lineStarts, hstart, hstop]

theorem Likeness.tokens_of_renamed {d : Dialect} {r : String → String} (h : Renaming d r) :
    ∀ {tokens tokens' : List Token}, tokens'.map Token.lined
        = tokens.map (fun t => Token.lined { t with kind := t.kind.rename r }) →
      (Likeness.ofRenaming h Span.lineStarts fun _ _ => rfl).Tokens tokens tokens'
  | [], [], _ => .nil
  | ⟨kind, span⟩ :: tokens, ⟨kind', span'⟩ :: tokens', htokens => by
    obtain ⟨hfirst, hrest⟩ := List.cons.inj htokens
    simp only [Token.lined, Prod.mk.injEq] at hfirst
    obtain ⟨rfl, hstart, hstop⟩ := hfirst
    have hspan : span.lineStarts = span'.lineStarts := Span.lineStarts_congr hstart hstop
    cases kind with
    | word w => exact .word rfl (fun _ _ => rfl) hspan (tokens_of_renamed h hrest)
    | _ => exact .other nofun hspan (tokens_of_renamed h hrest)

theorem Member.rename_id (m : Member) : m.rename id = m := by
  rw [Member.rename, DataType.rename_id]

theorem Structure.rename_id (s : Structure) : s.rename id = s := by
  simp [Structure.rename, funext Member.rename_id]

theorem Variable.rename_id (v : Variable) : v.rename id = v := by
  simp [Variable.rename, DataType.rename_id]

theorem Parameter.rename_id (p : Parameter) : p.rename id = p := by
  simp [Parameter.rename, DataType.rename_id]

theorem Function.rename_id (f : Function) : f.rename id = f := by
  simp [Function.rename, funext Parameter.rename_id, DataType.rename_id]

theorem Program.rename_id (p : Program) : p.rename id = p := by
  simp [Program.rename, funext Structure.rename_id, funext Variable.rename_id,
    funext Function.rename_id]

/-- What is compiled alike is compiled to the same code and to a renamed program, or not at all. -/
theorem Renaming.of_joint {c : Context} {r : String → String} (h : Renaming c.dialect r)
    {span : Span → Span} {line : Nat → Nat} (hline : ∀ s, (span s).line = line s.line)
    {x x' : Except Failure Compiled}
    (hjoint : (Translation.ofRenaming c r h span line hline).Joint
      (Translation.ofRenaming c id (.identity _) span line hline) (outcome x) (outcome x')) :
    ((∃ compiled, x = .ok compiled) ↔ ∃ compiled', x' = .ok compiled')
      ∧ ∀ compiled compiled', x = .ok compiled → x' = .ok compiled' →
        compiled'.bytes = compiled.bytes ∧ compiled'.program = compiled.program.rename r := by
  have hsame : (Translation.ofRenaming c r h span line hline).Same := rfl
  cases x with
  | ok compiled =>
    cases x' with
    | error failure => exact absurd hsame hjoint.1
    | ok compiled' =>
      obtain ⟨hcode, hbuiltins, hbuiltins', hprogram⟩ := hjoint
      refine ⟨⟨fun _ => ⟨_, rfl⟩, fun _ => ⟨_, rfl⟩⟩, ?_⟩
      rintro _ _ ⟨rfl⟩ ⟨rfl⟩
      have hrest : { compiled'.program with builtins := [] }
          = { compiled.program.rename r with builtins := [] } :=
        compiled'.program.rename_id ▸ hprogram
      have hstage : compiled'.program.builtins = (compiled.program.rename r).builtins :=
        hbuiltins'.trans hbuiltins.symm
      refine ⟨congrArg encodeAll hcode, ?_⟩
      calc compiled'.program
          = { { compiled'.program with builtins := [] } with
              builtins := compiled'.program.builtins } := rfl
        _ = compiled.program.rename r := by rw [hrest, hstage]
  | error failure =>
    cases x' with
    | ok compiled' => exact absurd hsame hjoint
    | error failure' => exact ⟨by simp, by rintro _ _ ⟨⟩⟩

theorem compile_ne_ok_of_scan {d : Dialect} (config : Config) {request : Request}
    {e : Located LexFault} (h : scan d request.source = .error e) (compiled : Compiled) :
    compile d config request ≠ .ok compiled := by
  intro hok
  have houtcome := outcome_compile d config request
  rw [hok, h] at houtcome
  split at houtcome <;> cases houtcome

def sourceUses (d : Dialect) (source : String) : List Use :=
  let declarations? := (scan d source).toOption.bind fun s => (Ast.ofTokens d s).toOption
  (declarations?.getD []).flatMap Ast.Declaration.uses

theorem mem_sourceUses {d : Dialect} {source : String} {s : Scanned} {ds : List Ast.Declaration}
    (hscan : scan d source = .ok s) (hread : Ast.ofTokens d s = .ok ds) {x : Ast.Declaration}
    (hx : x ∈ ds) {u : Use} (hu : u ∈ x.uses) : u ∈ sourceUses d source := by
  unfold sourceUses
  rw [hscan]
  simp only [Except.toOption, Option.bind_some, hread, Option.getD_some]
  exact List.mem_flatMap_of_mem hx hu

/-- A source whose words are renamed is compiled just if the source is. Labels keep their names.
Then the code is the same, and the names of the program are renamed. -/
theorem compile_renamed (d : Dialect) (config : Config) (r : String → String) (h : Renaming d r)
    (request request' : Request) (hsource : SourceRenamed d r request.source request'.source)
    (hlabels : ∀ w, .labels w ∈ sourceUses d request.source → r w = w)
    (hstage : request'.stage = request.stage)
    (hentry : request'.entryPoint = r request.entryPoint) :
    ((∃ compiled, compile d config request = .ok compiled)
        ↔ ∃ compiled', compile d config request' = .ok compiled')
      ∧ ∀ compiled compiled', compile d config request = .ok compiled →
        compile d config request' = .ok compiled' →
          compiled'.bytes = compiled.bytes ∧ compiled'.program = compiled.program.rename r := by
  cases hsource with
  | unscanned hscan hscan' =>
    have hfails := compile_ne_ok_of_scan config hscan
    have hfails' := compile_ne_ok_of_scan config hscan'
    refine ⟨⟨fun ⟨_, hok⟩ => absurd hok (hfails _), fun ⟨_, hok⟩ => absurd hok (hfails' _)⟩, ?_⟩
    exact fun _ _ hok _ => absurd hok (hfails _)
  | scanned hscan hscan' hrenamed =>
    have hline : ∀ s : Span, s.lineStarts.line = id s.line := fun _ => rfl
    refine Renaming.of_joint (c := ⟨d, request.stage, config.promoteInts⟩) h hline ?_
    rw [outcome_compile, outcome_compile, hstage]
    cases d.supports request.stage with
    | false => exact fun _ => .cons ⟨fun _ _ => rfl, rfl⟩ .nil
    | true =>
      simp only [hscan, hscan', if_true]
      exact h.compileTokens_joint (fun _ _ => rfl) hline rfl (fun _ _ => rfl) rfl hstage hentry
        (Likeness.tokens_of_renamed h hrenamed.tokens)
        (Span.lineStarts_congr hrenamed.stop hrenamed.stop)
        fun ds hread x hx w hw => hlabels w (mem_sourceUses hscan hread hx hw)

/-- A function and a variable that exchange their names. -/
def exchangedNames : String → String :=
  Equiv.swap "main" "start"

theorem renaming_exchangedNames : Renaming .glsl exchangedNames where
  injective := (Equiv.swap "main" "start").injective
  keeps {w} hw := by
    refine Equiv.swap_apply_of_ne_of_ne ?_ ?_
    · rintro rfl
      exact absurd hw (by decide)
    · rintro rfl
      exact absurd hw (by decide)

def beforeExchange : Request where
  stage := .pixel
  source := "void main()\n\x7b vec2 start; start.x = 1.0; \x7d"

def afterExchange : Request where
  stage := .pixel
  source := "void start()\n\x7b vec2 main; main.x = 1.0; \x7d"
  entryPoint := "start"

theorem compile_renamed_exchangedNames :
    ∃ compiled compiled', compile .glsl {} beforeExchange = .ok compiled
      ∧ compile .glsl {} afterExchange = .ok compiled' ∧ compiled'.bytes = compiled.bytes
      ∧ compiled'.program = compiled.program.rename exchangedNames := by
  have hscans : ((scan .glsl beforeExchange.source).toOption.any fun s =>
      (scan .glsl afterExchange.source).toOption.any fun s' =>
        s'.tokens.map Token.lined = (s.tokens.map fun t =>
          Token.lined { t with kind := t.kind.rename exchangedNames })
        && s'.stop.line = s.stop.line) = true := by
    decide +kernel
  obtain ⟨s, hscan, hscans⟩ := exists_ok_of_any hscans
  obtain ⟨s', hscan', hrenamed⟩ := exists_ok_of_any hscans
  obtain ⟨htokens, hstop⟩ := Bool.and_eq_true_iff.mp hrenamed
  have hlabels : ∀ w, .labels w ∈ sourceUses .glsl beforeExchange.source →
      exchangedNames w = w := by
    have huses : sourceUses .glsl beforeExchange.source
        = [.declares "main", .declares "start", .labels "x", .reads "start"] := by
      decide +kernel
    intro w hw
    rw [huses] at hw
    simp only [List.mem_cons, reduceCtorEq, Use.labels.injEq, List.not_mem_nil, false_or,
      or_false] at hw
    rw [hw]
    decide
  have hresult := compile_renamed .glsl {} exchangedNames renaming_exchangedNames beforeExchange
    afterExchange (.scanned hscan hscan'
      ⟨of_decide_eq_true htokens, of_decide_eq_true hstop⟩) hlabels rfl (by decide)
  have hcompiles : (compile .glsl {} beforeExchange).toOption.isSome = true := by
    decide +kernel
  obtain ⟨compiled, hok⟩ := exists_ok_of_isSome hcompiles
  obtain ⟨compiled', hok'⟩ := hresult.1.mp ⟨compiled, hok⟩
  exact ⟨compiled, compiled', hok, hok', hresult.2 compiled compiled' hok hok'⟩

end ShaderBytecode
