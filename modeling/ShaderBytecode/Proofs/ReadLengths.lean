import ShaderBytecode.Proofs.Lexemes
import ShaderBytecode.Proofs.ReadOnly

/-!
# Array lengths and members of a source

An array length is a positive literal that fits a word, so it is still positive as a word. A
structure that is read has members.
-/

namespace ShaderBytecode

/-! ## Tokens -/

def TokenKind.Fits : TokenKind → Prop
  | .int value => value < unsignedLimit
  | _ => True

theorem Dialect.fits_reserved? {d : Dialect} {word : String} {kind : TokenKind}
    (h : d.reserved? word = some kind) : kind.Fits := by
  unfold reserved? at h
  cases hcommon : commonReserved? word with
  | some found =>
    rw [hcommon] at h
    cases h
    unfold commonReserved? at hcommon
    split at hcommon <;> cases hcommon <;> trivial
  | none =>
    rw [hcommon] at h
    cases d with
    | glsl =>
      replace h : glslReserved? word = some kind := h
      unfold glslReserved? at h
      split at h <;> cases h <;> trivial
    | hlsl =>
      replace h : hlslReserved? word = some kind := h
      unfold hlslReserved? at h
      split at h <;> cases h <;> trivial

namespace Lexeme

variable {source : List Char} {kind : TokenKind} {d : Dialect}

theorem fits_hexadecimal {mark : Char} (h : (hexadecimal mark source).content = .ok kind) :
    kind.Fits := by
  unfold hexadecimal at h
  simp only [] at h
  split at h
  · cases h
  · rename_i hsmall
    cases h
    simp only [Bool.or_eq_true, decide_eq_true_eq, not_or, Nat.not_le] at hsmall
    exact hsmall.2

theorem fits_literal {spoiled isFloat marked : Bool} {value : Nat} {x : Double}
    {ill large tooLarge : LexFault} (h : (if spoiled then .error ill
      else if isFloat then .ok (.float x)
      else if marked then if unsignedLimit ≤ value then .error large else .ok (.int value)
      else if signedLimit ≤ value then .error tooLarge
      else .ok (.int value) : Except LexFault TokenKind) = .ok kind) : kind.Fits := by
  split at h
  · cases h
  · split at h
    · cases h
      trivial
    · split at h
      · split at h
        · cases h
        · rename_i hsmall
          cases h
          exact Nat.not_le.mp hsmall
      · split at h
        · cases h
        · rename_i hsmall
          cases h
          exact Nat.lt_trans (Nat.not_le.mp hsmall) (by decide)

theorem fits_decimal (h : (decimal source).content = .ok kind) : kind.Fits := by
  unfold decimal at h
  simp only [] at h
  split at h <;> split at h
  · cases h
  · exact fits_literal h
  · cases h
  · exact fits_literal h

theorem fits_number (h : (number source).content = .ok kind) : kind.Fits := by
  unfold number at h
  split at h
  · exact fits_hexadecimal h
  · exact fits_hexadecimal h
  · exact fits_decimal h

theorem fits_word (h : (word d source).content = .ok kind) : kind.Fits := by
  have hkind : (d.reserved? (String.ofList (takeRun isWordPart source).1)).getD
      (.word (String.ofList (takeRun isWordPart source).1)) = kind := Except.ok.inj h
  cases hreserved : d.reserved? (String.ofList (takeRun isWordPart source).1) with
  | none =>
    rw [hreserved] at hkind
    exact hkind ▸ trivial
  | some found =>
    rw [hreserved] at hkind
    exact hkind ▸ Dialect.fits_reserved? hreserved

theorem fits_token {c : Char} {rest : List Char} (h : (token d c rest).content = .ok kind) :
    kind.Fits := by
  unfold token at h
  simp only [] at h
  split at h
  · exact fits_word h
  · split at h
    · exact fits_number h
    · split at h
      · cases h
      · unfold mark? at h
        cases hmark : Punct.all.find? (·.spelling.toList.isPrefixOf (c :: rest)) with
        | none =>
          rw [hmark] at h
          cases h
        | some mark =>
          rw [hmark] at h
          cases h
          trivial

end Lexeme

theorem IsLexeme.fits {d : Dialect} {text : List Char} {kind : TokenKind}
    (h : IsLexeme d text kind) : kind.Fits := by
  obtain ⟨lineStart, rest, hpiece⟩ := h
  obtain ⟨_, _, -, -, -, -, htoken, -⟩ := Lexeme.token_of_piece? hpiece rfl
  exact Lexeme.fits_token htoken

/-! ## Declarations -/

namespace Ast

def Positive (length : Option UInt32) : Prop :=
  ∀ n ∈ length, n ≠ 0

def Sizes (declared : List (Variables × Declarator)) : Prop :=
  ∀ x ∈ declared, Positive x.2.length

/-- The array lengths of a part are positive, and a structure has members. -/
def Part.Sized : Part → Prop
  | .struct s => s.members ≠ [] ∧ ∀ m ∈ s.members, Positive m.length
  | .global _ d => Positive d.length
  | .member _ m => Positive m.length
  | .function f => (∀ p ∈ f.parameters, Positive p.length)
      ∧ ∀ body ∈ f.body, Sizes (Statement.declaredAll body.statements)

theorem Positive.of_length {text : List Char} {tokens : List Token} {length : Option UInt32}
    (htokens : ∀ t ∈ tokens, t.kind.Fits) (h : (Ground.ofSource text tokens).Length length) :
    Positive length := by
  intro n hn hzero
  obtain ⟨m, ⟨t, ht, hkind⟩, rfl⟩ := h n hn
  have hfits := htokens t ht
  rw [hkind] at hfits
  replace hfits : m + 1 < 2 ^ 32 := hfits
  have hvalue := congrArg UInt32.toNat hzero
  rw [UInt32.toNat_ofNat_of_lt' hfits] at hvalue
  cases hvalue

variable {G : Ground}

theorem Simple.Read.sizes {s : Simple} (hpositive : ∀ length, G.Length length → Positive length)
    (h : s.Read G) : Sizes s.declared := by
  cases s with
  | declare v =>
    intro x hx
    obtain ⟨d, hd, rfl⟩ := List.mem_map.mp hx
    exact hpositive _ (Variables.Read.declarators h d hd).length
  | expr e => exact List.forall_mem_nil _

mutual

theorem Statement.Read.sizes (hpositive : ∀ length, G.Length length → Positive length) :
    {s : Statement} → s.Read G → Sizes s.declared
  | .block _ _, h => Statement.ReadAll.sizes hpositive h.2
  | .simple _ _, h => h.2.sizes hpositive
  | .ifThen _ _ _, h => h.2.2.sizes hpositive
  | .ifElse _ _ _ _, h =>
    List.forall_mem_append.mpr ⟨h.2.2.1.sizes hpositive, h.2.2.2.sizes hpositive⟩
  | .forLoop start _ _ _ _, ⟨_, hstart, _, _, hbody⟩ => by
    refine List.forall_mem_append.mpr ⟨?_, hbody.sizes hpositive⟩
    cases start with
    | none => exact List.forall_mem_nil _
    | some s => exact (hstart s rfl).2.sizes hpositive
  | .whileLoop _ _ _, h => h.2.2.sizes hpositive
  | .doLoop _ _ _, h => h.2.1.sizes hpositive
  | .returnFrom _ _, _ | .breakLoop _, _ | .continueLoop _, _ | .discardPixel _, _
  | .empty _, _ => List.forall_mem_nil _

theorem Statement.ReadAll.sizes (hpositive : ∀ length, G.Length length → Positive length) :
    {all : List Statement} → Statement.ReadAll G all → Sizes (Statement.declaredAll all)
  | [], _ => List.forall_mem_nil _
  | _ :: _, h =>
    List.forall_mem_append.mpr ⟨h.1.sizes hpositive, Statement.ReadAll.sizes hpositive h.2⟩

end

theorem Declaration.Read.sized {x : Declaration}
    (hpositive : ∀ length, G.Length length → Positive length) (h : x.Read G) :
    ∀ part ∈ x.parts, part.Sized := by
  cases x with
  | struct s =>
    refine List.forall_mem_singleton.mpr ⟨h.nonempty, fun m hm => ?_⟩
    exact hpositive _ (h.members m hm).length
  | declare v =>
    intro part hpart
    obtain ⟨d, hd, rfl⟩ := List.mem_map.mp hpart
    exact hpositive _ (Variables.Read.declarators h d hd).length
  | buffer b =>
    intro part hpart
    obtain ⟨m, hm, rfl⟩ := List.mem_map.mp hpart
    exact hpositive _ (h m hm).length
  | function f =>
    refine List.forall_mem_singleton.mpr ⟨fun p hp => ?_, fun body hbody => ?_⟩
    · exact hpositive _ (Function.Read.parameters h p hp).length
    · exact (Function.Read.body h body hbody).statements.sizes hpositive

theorem sized_of_ofTokens {d : Dialect} {source : String} {scanned : Scanned}
    {declarations : List Declaration} (hscan : scan d source = .ok scanned)
    (h : ofTokens d scanned = .ok declarations) :
    ∀ part ∈ declarations.flatMap Declaration.parts, part.Sized := by
  intro part hpart
  obtain ⟨declared, hdeclared, hmem⟩ := List.mem_flatMap.mp hpart
  have hread := read_of_ofTokens (faithful_of_scan hscan) h declared hdeclared
  exact hread.sized (fun _ => .of_length fun t ht => (isLexeme_of_scan hscan t ht).fits) part hmem

end Ast

end ShaderBytecode
