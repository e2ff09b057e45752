import ShaderBytecode.Proofs.DialectReading
import ShaderBytecode.Proofs.Renaming

/-!
# The same source in both dialects

A source of structures and functions that keeps to what both dialects have is the same program in
both. Its types and intrinsics are spelled in another way in HLSL; then it is compiled to the same
code as in GLSL, with the same structures, functions and locals. Only a swizzle with letters that
HLSL does not have can be in the way.
-/

namespace ShaderBytecode

/-! ## Uses of respelled trees -/

def Use.respell (ρ : Respelling) : Use → Use
  | .reads w => .reads (ρ.word w)
  | .declares w => .declares (ρ.word w)
  | .labels w => .labels (ρ.word w)

namespace Ast

variable (ρ : Respelling)

mutual

theorem Expr.uses_respell : (e : Expr) → (e.respell ρ).uses = e.uses.map (Use.respell ρ)
  | .int _ _ | .float _ _ | .bool _ _ | .name _ _ => rfl
  | .call _ arguments _ => Expr.usesAll_respell arguments
  | .member base _ _ => congrArg (List.cons _) base.uses_respell
  | .index base place _ => by
    simp only [Expr.respell, Expr.uses, List.map_append, base.uses_respell, place.uses_respell]
  | .unary _ operand _ | .step _ operand _ => operand.uses_respell
  | .binary _ left right _ | .assign _ left right _ => by
    simp only [Expr.respell, Expr.uses, List.map_append, left.uses_respell, right.uses_respell]
  | .ternary test whenTrue whenFalse _ => by
    simp only [Expr.respell, Expr.uses, List.map_append, test.uses_respell, whenTrue.uses_respell,
      whenFalse.uses_respell]

theorem Expr.usesAll_respell :
    (es : List Expr) → usesAll (respellAll ρ es) = (usesAll es).map (Use.respell ρ)
  | [] => rfl
  | first :: rest => by
    simp only [respellAll, usesAll, List.map_append, first.uses_respell, usesAll_respell rest]

end

theorem Expr.optionUses_respell (e : Option Expr) :
    optionUses (e.map (respell ρ)) = (optionUses e).map (Use.respell ρ) := by
  cases e with
  | none => rfl
  | some e => exact e.uses_respell ρ

theorem labelUses_respell (label : Option String) :
    labelUses (label.map ρ.word) = (labelUses label).map (Use.respell ρ) := by
  cases label <;> rfl

theorem flatMap_respell {α : Type} {uses : α → List Use} {respell : α → α}
    (h : ∀ a, uses (respell a) = (uses a).map (Use.respell ρ)) (as : List α) :
    (as.map respell).flatMap uses = (as.flatMap uses).map (Use.respell ρ) := by
  rw [List.flatMap_map, List.map_flatMap]
  exact congrArg (List.flatMap · as) (funext h)

theorem Declarator.uses_respell (d : Declarator) :
    (d.respell ρ).uses = d.uses.map (Use.respell ρ) := by
  simp only [uses, respell, labelUses_respell, Expr.optionUses_respell, List.map_cons,
    List.map_append, List.cons_append, Use.respell]

theorem Variables.uses_respell (v : Variables) :
    (v.respell ρ).uses = v.uses.map (Use.respell ρ) := by
  simp only [uses, respell, List.map_append, List.map_map,
    flatMap_respell ρ (Declarator.uses_respell ρ)]
  rfl

theorem Member.uses_respell (use : String → Use) (h : ∀ w, use (ρ.word w) = (use w).respell ρ)
    (m : Member) : (m.respell ρ).uses use = (m.uses use).map (Use.respell ρ) := by
  simp only [uses, respell, labelUses_respell, List.map_cons, h]

theorem Parameter.uses_respell (p : Parameter) :
    (p.respell ρ).uses = p.uses.map (Use.respell ρ) := by
  obtain ⟨passing, isConst, type, name, length, semantic, span⟩ := p
  simp only [uses, respell, labelUses_respell, List.map_append]
  cases name <;> rfl

theorem Simple.uses_respell : (s : Simple) → (s.respell ρ).uses = s.uses.map (Use.respell ρ)
  | .declare v => v.uses_respell ρ
  | .expr e => e.uses_respell ρ

theorem Simple.optionUses_respell (s : Option (Located Simple)) :
    optionUses (s.map (respellAt ρ)) = (optionUses s).map (Use.respell ρ) := by
  cases s with
  | none => rfl
  | some s => exact s.value.uses_respell ρ

mutual

theorem Statement.uses_respell :
    (s : Statement) → (s.respell ρ).uses = s.uses.map (Use.respell ρ)
  | .block body _ => Statement.usesAll_respell body
  | .simple s _ => s.uses_respell ρ
  | .ifThen test body _ | .whileLoop test body _ | .doLoop body test _ => by
    simp only [Statement.respell, Statement.uses, List.map_append, test.uses_respell,
      body.uses_respell]
  | .ifElse test whenTrue whenFalse _ => by
    simp only [Statement.respell, Statement.uses, List.map_append, test.uses_respell,
      whenTrue.uses_respell, whenFalse.uses_respell]
  | .forLoop start test step body _ => by
    simp only [Statement.respell, Statement.uses, List.map_append, body.uses_respell,
      Simple.optionUses_respell, Expr.optionUses_respell]
  | .returnFrom value _ => Expr.optionUses_respell ρ value
  | .breakLoop _ | .continueLoop _ | .discardPixel _ | .empty _ => rfl

theorem Statement.usesAll_respell :
    (body : List Statement) → usesAll (respellAll ρ body) = (usesAll body).map (Use.respell ρ)
  | [] => rfl
  | first :: rest => by
    simp only [respellAll, usesAll, List.map_append, first.uses_respell, usesAll_respell rest]

end

theorem Function.uses_respell (f : Function) :
    (f.respell ρ).uses = f.uses.map (Use.respell ρ) := by
  have hbody : ((f.body.map (Body.respell ρ)).map Body.uses).getD []
      = ((f.body.map Body.uses).getD []).map (Use.respell ρ) := by
    cases f.body with
    | none => rfl
    | some body =>
      have hstatements := Statement.usesAll_respell ρ body.statements
      rw [Statement.respellAll_eq_map] at hstatements
      exact hstatements
  simp only [uses, respell, hbody, labelUses_respell, flatMap_respell ρ (Parameter.uses_respell ρ),
    List.map_append, List.map_cons, List.cons_append, Use.respell]

theorem Declaration.uses_respell : (d : Declaration) →
    (d.respell ρ).uses = d.uses.map (Use.respell ρ)
  | .struct s => by
    simp only [respell, uses, Structure.respell, Structure.uses, List.map_cons, Use.respell,
      flatMap_respell ρ (Member.uses_respell ρ .labels fun _ => rfl)]
  | .declare v => v.uses_respell ρ
  | .buffer b => by
    simp only [respell, uses, Buffer.respell, Buffer.uses, List.map_cons, List.map_append,
      List.cons_append, Use.respell, labelUses_respell,
      flatMap_respell ρ (Member.uses_respell ρ .declares fun _ => rfl)]
  | .function f => f.uses_respell ρ

end Ast

/-! ## Spelling for HLSL -/

def Intrinsic.hlslName : Intrinsic → String
  | inverseSqrt => "rsqrt"
  | fract => "frac"
  | mod => "fmod"
  | mix => "lerp"
  | texture => "tex2D"
  | other => other.name

/-- How HLSL spells a word of GLSL in front of so many arguments: the name of a type or an intrinsic
as it is called there, and any other word as it is. -/
def hlslSpelling (word : String) (arguments : Nat) : String :=
  match Dialect.glsl.builtinType? word, Intrinsic.lookup? .glsl word arguments with
  | some type, _ => Dialect.hlsl.typeName type
  | none, some intrinsic => intrinsic.hlslName
  | none, none => word

def hlslTokens : List Token → List Token
  | [] => []
  | ⟨.word w, span⟩ :: rest =>
    ⟨.word (hlslSpelling w ((callCount? rest).getD 0)), span⟩ :: hlslTokens rest
  | token :: rest => token :: hlslTokens rest

/-- Whether a word is neither a type nor an intrinsic in any dialect. -/
def isOwnName (word : String) : Bool :=
  [Dialect.glsl, .hlsl].all fun d => (d.builtinType? word).isNone && !Intrinsic.isName d word

/-- Whether a word is used in the same way in both dialects. Stage variables are not. -/
def Use.isShared : Use → Bool
  | .reads w => !"gl_".toList.isPrefixOf w.toList
  | .declares w => isOwnName w && !"gl_".toList.isPrefixOf w.toList
  | .labels w => isOwnName w

/-- Whether a declaration keeps to what both dialects have. -/
def Ast.Declaration.isShared (d : Ast.Declaration) : Bool :=
  d.uses.all Use.isShared && match d with
    | .struct _ | .function _ => true
    | .declare _ | .buffer _ => false

/-! ## Types and intrinsics -/

def sizedTypes : List DataType :=
  [2, 3, 4].flatMap fun size => [.vector .bool size, .vector .int size, .vector .float size,
    .matrix size 2, .matrix size 3, .matrix size 4]

theorem mem_of_dimension? {text : List Char} {size : UInt8} (h : dimension? text = some size) :
    size ∈ [2, 3, 4] := by
  unfold dimension? at h
  split at h <;> cases h <;> decide

theorem Dialect.mem_sizedTypes {word : List Char} {type : DataType}
    (h : glslType? word = some type) : type ∈ sizedTypes := by
  have hvector : ∀ size ∈ [2, 3, 4], ∀ kind, .vector kind size ∈ sizedTypes := by
    intro size hsize kind
    refine List.mem_flatMap.mpr ⟨size, hsize, ?_⟩
    cases kind <;> simp
  have hmatrix : ∀ columns ∈ [2, 3, 4], ∀ rows ∈ [2, 3, 4],
      .matrix columns rows ∈ sizedTypes := by
    intro columns hcolumns rows hrows
    refine List.mem_flatMap.mpr ⟨columns, hcolumns, ?_⟩
    simpa using hrows
  unfold glslType? at h
  repeat' split at h
  all_goals simp only [Option.map_eq_some_iff, reduceCtorEq] at h
  · obtain ⟨size, hsize, rfl⟩ := h
    exact hvector size (mem_of_dimension? hsize) .int
  · obtain ⟨size, hsize, rfl⟩ := h
    exact hvector size (mem_of_dimension? hsize) .bool
  · obtain ⟨size, hsize, rfl⟩ := h
    exact hvector size (mem_of_dimension? hsize) .float
  · obtain ⟨⟨columns, rows⟩, hsizes, rfl⟩ := h
    obtain ⟨_, hcolumns, hsizes⟩ := Option.bind_eq_some_iff.mp hsizes
    obtain ⟨_, hrows, ⟨⟩⟩ := Option.bind_eq_some_iff.mp hsizes
    exact hmatrix columns (mem_of_dimension? hcolumns) rows (mem_of_dimension? hrows)
  · obtain ⟨size, hsize, rfl⟩ := h
    exact hmatrix size (mem_of_dimension? hsize) size (mem_of_dimension? hsize)

/-- HLSL knows each type of GLSL under its own spelling of it. -/
theorem Dialect.builtinType?_typeName {w : String} {type : DataType}
    (h : glsl.builtinType? w = some type) : hlsl.builtinType? (hlsl.typeName type) = some type := by
  have hsized : ∀ type ∈ sizedTypes, hlsl.builtinType? (hlsl.typeName type) = some type := by
    decide +kernel
  unfold builtinType? at h
  split at h
  · cases h
    rfl
  · cases h
    rfl
  · cases h
    rfl
  · cases h
    rfl
  · cases h
    rfl
  · exact hsized type (mem_sizedTypes h)

theorem Dialect.eq_void_of_builtinType? {w : String} (h : glsl.builtinType? w = some .void) :
    w = "void" := by
  unfold builtinType? at h
  split at h
  · rfl
  · cases h
  · cases h
  · cases h
  · cases h
  · exact absurd (mem_sizedTypes h) (by decide)

namespace Intrinsic

theorem isOwnName_hlslName (f : Intrinsic) : isOwnName f.hlslName = false := by
  cases f <;> decide +kernel

theorem lookup?_hlslName {f : Intrinsic} (h : f.requiredStage? = none) (k : Nat) :
    lookup? .hlsl f.hlslName k = some f ∧ Dialect.hlsl.builtinType? f.hlslName = none := by
  cases f <;> first | exact ⟨rfl, by decide +kernel⟩ | cases h

theorem lookup?_of_ne {w : String} (h : w ≠ "atan") (k : Nat) :
    lookup? .glsl w k = lookup? .glsl w 0 := by
  unfold lookup?
  split
  · rfl
  · unfold glsl?
    split
    · exact absurd rfl h
    all_goals rfl
  · rfl

end Intrinsic

section Spelling

variable {w : String} {k : Nat}

theorem hlslSpelling_type {type : DataType} (h : Dialect.glsl.builtinType? w = some type) :
    hlslSpelling w k = Dialect.hlsl.typeName type := by
  rw [hlslSpelling, h]

theorem hlslSpelling_intrinsic {f : Intrinsic} (hw : Dialect.glsl.builtinType? w = none)
    (hf : Intrinsic.lookup? .glsl w k = some f) : hlslSpelling w k = f.hlslName := by
  rw [hlslSpelling, hw, hf]

theorem hlslSpelling_other (hw : Dialect.glsl.builtinType? w = none)
    (hf : Intrinsic.lookup? .glsl w k = none) : hlslSpelling w k = w := by
  rw [hlslSpelling, hw, hf]

theorem builtinType?_hlslSpelling {type : DataType}
    (h : Dialect.glsl.builtinType? w = some type) :
    Dialect.hlsl.builtinType? (hlslSpelling w k) = some type := by
  rw [hlslSpelling_type h]
  exact Dialect.builtinType?_typeName h

theorem lookup?_hlslSpelling {f : Intrinsic} (hw : Dialect.glsl.builtinType? w = none)
    (hf : Intrinsic.lookup? .glsl w k = some f) (hstage : f.requiredStage? = none) :
    Intrinsic.lookup? .hlsl (hlslSpelling w k) k = some f
      ∧ Dialect.hlsl.builtinType? (hlslSpelling w k) = none := by
  rw [hlslSpelling_intrinsic hw hf]
  exact Intrinsic.lookup?_hlslName hstage k

variable {n : String}

theorem builtinType?_own (h : isOwnName n = true) (d : Dialect) : d.builtinType? n = none := by
  simp only [isOwnName, List.all_cons, List.all_nil, Bool.and_true, Bool.and_eq_true,
    Option.isNone_iff_eq_none] at h
  cases d with
  | glsl => exact h.1.1
  | hlsl => exact h.2.1

theorem isName_own (h : isOwnName n = true) (d : Dialect) : Intrinsic.isName d n = false := by
  simp only [isOwnName, List.all_cons, List.all_nil, Bool.and_true, Bool.and_eq_true,
    Bool.not_eq_true'] at h
  cases d with
  | glsl => exact h.1.2
  | hlsl => exact h.2.2

/-- What HLSL spells like a name of the source is that name. -/
theorem hlslSpelling_eq_iff (h : isOwnName n = true) (w : String) (k : Nat) :
    hlslSpelling w k = n ↔ w = n := by
  have hnone := builtinType?_own h
  constructor
  · rintro rfl
    cases htype : Dialect.glsl.builtinType? w with
    | some type =>
      exact nomatch (builtinType?_hlslSpelling htype).symm.trans (hnone .hlsl)
    | none =>
      cases hf : Intrinsic.lookup? .glsl w k with
      | some f =>
        rw [hlslSpelling_intrinsic htype hf, f.isOwnName_hlslName] at h
        cases h
      | none => exact (hlslSpelling_other htype hf).symm
  · rintro rfl
    exact hlslSpelling_other (hnone .glsl) (Intrinsic.lookup?_eq_none (isName_own h .glsl) k)

theorem hlslSpelling_void_iff : hlslSpelling w k = "void" ↔ w = "void" := by
  constructor
  · intro h
    cases htype : Dialect.glsl.builtinType? w with
    | some type =>
      have hvoid := builtinType?_hlslSpelling (k := k) htype
      rw [h] at hvoid
      cases hvoid
      exact Dialect.eq_void_of_builtinType? htype
    | none =>
      cases hf : Intrinsic.lookup? .glsl w k with
      | some f =>
        rw [hlslSpelling_intrinsic htype hf] at h
        cases f <;> exact absurd h (by decide)
      | none => exact (hlslSpelling_other htype hf).symm.trans h
  · rintro rfl
    rfl

theorem hlslSpelling_own (h : isOwnName n = true) : hlslSpelling n k = n :=
  (hlslSpelling_eq_iff h n k).mpr rfl

/-- One name for both arctangents, since a word in front of arguments is not always called. -/
def joinAtan (w : String) : String :=
  if w = "atan2" then "atan" else w

theorem joinAtan_eq_iff (h : n ≠ "atan" ∧ n ≠ "atan2") (w : String) : joinAtan w = n ↔ w = n := by
  unfold joinAtan
  split
  · rename_i hw
    rw [hw]
    exact ⟨fun heq => absurd heq.symm h.1, fun heq => absurd heq.symm h.2⟩
  · exact Iff.rfl

theorem ne_atan_of_own (h : isOwnName n = true) : n ≠ "atan" ∧ n ≠ "atan2" := by
  constructor <;> rintro rfl <;> exact absurd h (by decide)

theorem joinAtan_hlslSpelling (w : String) (k : Nat) :
    joinAtan (hlslSpelling w k) = joinAtan (hlslSpelling w 0) := by
  by_cases hw : w = "atan"
  · rw [hw]
    have hspelling : hlslSpelling "atan" k = "atan2" ∨ hlslSpelling "atan" k = "atan" := by
      by_cases hk : k = 2
      · rw [hk]
        exact .inl (by decide)
      · refine .inr (hlslSpelling_intrinsic (f := .atan) (by decide) ?_)
        exact if_neg hk
    obtain hspelling | hspelling := hspelling
    · rw [hspelling]
      decide
    · rw [hspelling]
      decide
  · rw [hlslSpelling, Intrinsic.lookup?_of_ne hw]
    rfl

theorem builtinType?_joinAtan (w : String) :
    Dialect.hlsl.builtinType? (joinAtan w) = Dialect.hlsl.builtinType? w := by
  unfold joinAtan
  split
  · rename_i hw
    rw [hw]
    decide
  · rfl

end Spelling

/-! ## Translations -/

theorem stageVariable_head (stage : Stage) :
    ∀ v ∈ stageVariables .glsl stage, (Use.reads v.name).isShared = false := by
  cases stage <;> decide

theorem Use.isOwnName_of_declares {n : String} (h : (Use.declares n).isShared = true) :
    isOwnName n = true :=
  (Bool.and_eq_true_iff.mp h).1

/-- Spelling a source for HLSL is a translation. Its labels are known. -/
def Translation.toHlsl (stage : Stage) (promote : Bool) (hstage : stage ≠ .geometry)
    (labels : String → Prop) : Translation where
  context := ⟨.glsl, stage, promote⟩
  dialect := .hlsl
  promote := promote
  spelling := ⟨fun w => joinAtan (hlslSpelling w 0), hlslSpelling, Span.lineStarts⟩
  name := id
  line := id
  Declares n := (Use.declares n).isShared = true
  Reads w := (Use.reads w).isShared = true
  Labels w := isOwnName w = true ∧ labels w
  promote_or := .inl rfl
  name_injective := Function.injective_id
  name_empty := rfl
  line_span _ := rfl
  reads_of_declares h := (Bool.and_eq_true_iff.mp h).2
  word_label h := (joinAtan_eq_iff (ne_atan_of_own h.1) _).mpr (hlslSpelling_own h.1)
  word_iff h w :=
    (joinAtan_eq_iff (ne_atan_of_own (Use.isOwnName_of_declares h)) _).trans
      (hlslSpelling_eq_iff (Use.isOwnName_of_declares h) w 0)
  callee_iff h := hlslSpelling_eq_iff (Use.isOwnName_of_declares h)
  word_type h := (builtinType?_joinAtan _).trans (builtinType?_hlslSpelling h)
  callee_type _ h := builtinType?_hlslSpelling h
  word_typeless hw _ := by
    obtain ⟨⟨⟩⟩ | hw := hw
    have hown := Use.isOwnName_of_declares hw
    rw [builtinType?_joinAtan, hlslSpelling_own hown]
    exact builtinType?_own hown .hlsl
  callee_typeless _ hw _ := by
    obtain ⟨⟨⟩⟩ | hw := hw
    have hown := Use.isOwnName_of_declares hw
    exact (congrArg _ (hlslSpelling_own hown)).trans (builtinType?_own hown .hlsl)
  intrinsic hw hf hstage := by
    obtain ⟨⟨⟩⟩ | hstage := hstage
    exact lookup?_hlslSpelling hw hf hstage
  notIntrinsic := nofun
  isName h :=
    (isName_own (Use.isOwnName_of_declares h) .hlsl).trans
      (isName_own (Use.isOwnName_of_declares h) .glsl).symm
  reserved h := ((Bool.not_eq_true' _).mp (Bool.and_eq_true_iff.mp h).2).symm
  provided := nofun
  across _ := ⟨rfl, rfl, hstage⟩
  unprovided _ w h v hv := by
    rintro rfl
    rw [stageVariable_head stage v hv] at h
    cases h

/-- Taking the two arctangents of HLSL for one word is a translation, since both are called. -/
def Translation.joiningAtan (stage : Stage) (promote : Bool) : Translation where
  context := ⟨.hlsl, stage, promote⟩
  dialect := .hlsl
  promote := promote
  spelling := ⟨joinAtan, fun w _ => w, Span.lineStarts⟩
  name := id
  line := id
  Declares n := n ≠ "atan" ∧ n ≠ "atan2"
  Reads _ := True
  Labels w := joinAtan w = w
  promote_or := .inl rfl
  name_injective := Function.injective_id
  name_empty := rfl
  line_span _ := rfl
  reads_of_declares _ := trivial
  word_label := id
  word_iff h := joinAtan_eq_iff h
  callee_iff _ _ _ := Iff.rfl
  word_type h := (builtinType?_joinAtan _).trans h
  callee_type _ h := h
  word_typeless _ h := (builtinType?_joinAtan _).trans h
  callee_typeless _ _ h := h
  intrinsic hw hf _ := ⟨hf, hw⟩
  notIntrinsic _ _ _ h := h
  isName _ := rfl
  reserved _ := rfl
  provided _ _ := nofun
  across h := absurd rfl h
  unprovided h := absurd rfl h

/-! ## Sources spelled for HLSL -/

/-- The tokens of a GLSL source spelled for HLSL, on the same lines. -/
structure Scanned.SpelledForHlsl (s s' : Scanned) : Prop where
  tokens : s'.tokens.map Token.lined = (hlslTokens s.tokens).map Token.lined
  stop : s'.stop.line = s.stop.line

namespace Likeness

def toHlsl : Likeness where
  left := ⟨fun w => joinAtan (hlslSpelling w 0), hlslSpelling, Span.lineStarts⟩
  right := ⟨joinAtan, fun w _ => w, Span.lineStarts⟩
  left_through _ _ := rfl
  right_through _ _ := rfl
  void {w w'} h := by
    change joinAtan (hlslSpelling w 0) = joinAtan w' at h
    rw [← hlslSpelling_void_iff (k := 0), ← joinAtan_eq_iff (by decide), h,
      joinAtan_eq_iff (by decide)]
  register {w w'} h := by
    change joinAtan (hlslSpelling w 0) = joinAtan w' at h
    rw [← hlslSpelling_eq_iff (by decide) w 0, ← joinAtan_eq_iff (by decide), h,
      joinAtan_eq_iff (by decide)]

theorem tokens_of_hlslTokens : ∀ {tokens tokens' : List Token},
    tokens'.map Token.lined = (hlslTokens tokens).map Token.lined → toHlsl.Tokens tokens tokens'
  | [], [], _ => .nil
  | ⟨kind, span⟩ :: tokens, [], htokens => by cases kind <;> cases htokens
  | ⟨kind, span⟩ :: tokens, ⟨kind', span'⟩ :: tokens', htokens => by
    cases kind with
    | word w =>
      obtain ⟨hfirst, hrest⟩ := List.cons.inj htokens
      simp only [Token.lined, Prod.mk.injEq] at hfirst
      obtain ⟨rfl, hstart, hstop⟩ := hfirst
      refine .word (joinAtan_hlslSpelling w _).symm (fun n hn => ?_)
        (Span.lineStarts_congr hstart hstop) (tokens_of_hlslTokens hrest)
      rw [hn]
      rfl
    | _ =>
      obtain ⟨hfirst, hrest⟩ := List.cons.inj htokens
      simp only [Token.lined, Prod.mk.injEq] at hfirst
      obtain ⟨rfl, hstart, hstop⟩ := hfirst
      refine .other (fun w hw => ?_) (Span.lineStarts_congr hstart hstop)
        (tokens_of_hlslTokens hrest)
      cases hw

end Likeness

namespace Translation

variable {stage : Stage} {promote : Bool} {x : Ast.Declaration} (h : x.isShared = true)
include h

theorem toHlsl_admits {hstage : stage ≠ .geometry} {labels : String → Prop}
    (hlabels : ∀ w, .labels w ∈ x.uses → labels w) :
    (toHlsl stage promote hstage labels).AdmitsDeclaration x := by
  obtain ⟨huses, hkind⟩ := Bool.and_eq_true_iff.mp h
  refine ⟨fun u hu => ?_, ?_⟩
  · have hshared := List.all_eq_true.mp huses u hu
    cases u with
    | reads w => exact hshared
    | declares w => exact hshared
    | labels w => exact ⟨hshared, hlabels w hu⟩
  · cases x with
    | struct s => trivial
    | function f => trivial
    | declare v => cases hkind
    | buffer b => cases hkind

/-- What looks like a shared declaration declares and labels the same words. -/
theorem joiningAtan_admits {x' : Ast.Declaration}
    (htree : x.respell Likeness.toHlsl.left = x'.respell Likeness.toHlsl.right) :
    (joiningAtan stage promote).AdmitsDeclaration x' := by
  have huses : x.uses.map (Use.respell Likeness.toHlsl.left)
      = x'.uses.map (Use.respell Likeness.toHlsl.right) := by
    rw [← Ast.Declaration.uses_respell, htree, Ast.Declaration.uses_respell]
  have hword : ∀ {w w' : String}, isOwnName w = true →
      joinAtan (hlslSpelling w 0) = joinAtan w' → w' = w := by
    intro w w' hown heq
    refine (joinAtan_eq_iff (ne_atan_of_own hown) w').mp (heq.symm.trans ?_)
    exact (joinAtan_eq_iff (ne_atan_of_own hown) _).mpr (hlslSpelling_own hown)
  refine ⟨fun u' hu' => ?_, by cases x' <;> trivial⟩
  have hmem := List.mem_map_of_mem (f := Use.respell Likeness.toHlsl.right) hu'
  rw [← huses] at hmem
  obtain ⟨u, hu, heq⟩ := List.mem_map.mp hmem
  have hshared := List.all_eq_true.mp (Bool.and_eq_true_iff.mp h).1 u hu
  cases u' with
  | reads w' => trivial
  | declares w' =>
    cases u with
    | reads w => cases heq
    | labels w => cases heq
    | declares w =>
      have hown := Use.isOwnName_of_declares hshared
      rw [hword hown (Use.declares.inj heq)]
      exact ne_atan_of_own hown
  | labels w' =>
    cases u with
    | reads w => cases heq
    | declares w => cases heq
    | labels w =>
      rw [hword hshared (Use.labels.inj heq)]
      exact (joinAtan_eq_iff (ne_atan_of_own hshared) w).mpr rfl

end Translation

theorem Cause.of_strangeSwizzle? {cause : Cause} {swizzle : String}
    (h : cause.strangeSwizzle? = some swizzle) :
    ∃ d type, cause = .typing d (.unknownLetter type swizzle) := by
  unfold Cause.strangeSwizzle? at h
  split at h
  · rename_i d fault
    unfold TypingFault.strangeSwizzle? at h
    split at h
    · cases h
      exact ⟨_, _, rfl⟩
    · cases h
  · cases h

/-- A member that is spelled like a swizzle of GLSL is none. -/
def angleGlsl : Request where
  stage := .compute
  source := "struct S \x7b vec2 p; \x7d;\nvoid main() \x7b S s; s.p.x = atan(1.0, 2.0); \x7d"

def angleHlsl : Request where
  stage := .compute
  source := "struct S \x7b float2 p; \x7d;\nvoid main() \x7b S s; s.p.x = atan2(1.0, 2.0); \x7d"

end ShaderBytecode
