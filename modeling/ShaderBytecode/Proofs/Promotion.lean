import ShaderBytecode.Proofs.TypedSpans

/-!
# Promotion is a conservative extension

Promoting integers to floats only helps sources that are refused without it. Wherever typing
succeeds, each operation has operands of one kind, so nothing is left to promote. Typing the same
source with promotion is then a translation that changes nothing else, and it finds the same trees.
The programs are the same.
-/

namespace ShaderBytecode

def Context.promoting (c : Context) : Context :=
  { c with promote := true }

/-- A source without faults is typed with promotion as it is without. -/
theorem typeDeclarations_promoting {c : Context} (hstrict : c.promote = false) {limit : Nat}
    {A : Span → Prop} {declarations : List Ast.Declaration} (hspans : ∀ d ∈ declarations, d.Spans A)
    {state : ModuleState}
    (hstate : state = { registry := { builtins := stageVariables c.dialect c.stage } })
    (h : (typeDeclarations c limit declarations state).1 = []) :
    typeDeclarations c.promoting limit declarations state
      = typeDeclarations c limit declarations state := by
  subst hstate
  let T := Translation.ofRenaming c id (.identity _) id id fun _ => rfl
  let P : Translation := { T with promote := true, promote_or := .inr hstrict }
  have hadmits : ∀ d ∈ declarations, T.AdmitsDeclaration d := fun d _ =>
    ⟨fun u _ => by cases u <;> trivial, by cases d <;> trivial⟩
  have htree : declarations.map (Ast.Declaration.respell T.spelling) = declarations :=
    map_eq_self fun d hd => Ast.Declaration.respell_eq_self
      ⟨fun _ => rfl, fun _ _ => rfl, fun _ _ => rfl⟩ (hspans d hd)
  -- What is typed without promotion does not change either if nothing is spelled in another way.
  have hsame := (Translation.typeDeclarations_follows hadmits limit
    Translation.states_start).strict ⟨rfl, rfl⟩
  have hpromoted := Translation.typeDeclarations_follows (T := P) hadmits limit
    Translation.states_start
  rw [show declarations.map (Ast.Declaration.respell P.spelling) = declarations from htree]
    at hpromoted
  rw [htree] at hsame
  obtain ⟨hnone, hstates⟩ | ⟨fault, faults, -, hexcused⟩ := hpromoted.accepted h
  · have hregistry := hstates.registry.trans hsame.2.registry.symm
    have hremarks := hstates.remarks.trans hsame.2.remarks.symm
    refine Prod.ext (hnone.trans h.symm) ?_
    exact congrArg₂ ModuleState.mk hregistry hremarks
  · exact absurd rfl hexcused.1

section Compiled

variable {d : Dialect} {config : Config} {request : Request} {compiled : Compiled}

/-- A source that is accepted is accepted with promotion, with the same registries and remarks. -/
theorem typeSource_promoting (hstrict : config.promoteInts = false) {stage : Stage}
    {A : Span → Prop} {declarations : List Ast.Declaration} (hspans : ∀ d ∈ declarations, d.Spans A)
    {r : Typed.Registry} (h : (typeSource d config stage declarations).1 = .ok r) :
    typeSource d { config with promoteInts := true } stage declarations
      = typeSource d config stage declarations := by
  have htyped := (declared_of_typeSource h).1
  have hsame := typeDeclarations_promoting (c := ⟨d, stage, config.promoteInts⟩) hstrict hspans rfl
    htyped
  simp only [typeSource]
  rw [← hsame]
  rfl

/-- Promotion is a conservative extension: a source that compiles without it compiles with it to the
same code and program, with the same remarks. -/
theorem compile_promoting (hstrict : config.promoteInts = false)
    (h : compile d config request = .ok compiled) :
    compile d { config with promoteInts := true } request = .ok compiled := by
  have hanalyse : ∀ r remarks, analyse d config request = .ok (r, remarks) →
      analyse d { config with promoteInts := true } request = .ok (r, remarks) := by
    intro r remarks hr
    unfold analyse at hr ⊢
    simp only [] at hr ⊢
    split at hr
    · cases hr
    · rename_i hstage
      rw [if_neg hstage]
      split at hr
      · cases hr
      · rename_i scanned hscan
        simp only [pure_bind] at hr ⊢
        split at hr
        · cases hr
        · rename_i declarations hread
          split at hr
          · cases hr
          · rename_i r' hr'
            have hspans := Ast.spans_of_ofTokens (faithful_of_scan hscan) hread
            simp only [typeSource_promoting hstrict hspans hr', hr']
            exact hr
  rw [compile_eq] at h ⊢
  split at h
  · cases h
  · rename_i r remarks hr
    rw [hanalyse r remarks hr]
    exact h

/-- A source with most of the operations that promotion looks at, with operands that need none. -/
def strictRequest : Request where
  stage := .vertex
  source := "float f(float w, int n) { return w * float(n); }
    void main() { int k = 2; float s = k > 1 ? f(.5, k) : 2.; s *= mod(s, 1.); }"

theorem compile_promoting_strictRequest :
    ∃ compiled, compile .glsl { promoteInts := false } strictRequest = .ok compiled
      ∧ compile .glsl {} strictRequest = .ok compiled := by
  have hsome : (compile .glsl { promoteInts := false } strictRequest).toOption.isSome = true := by
    decide +kernel
  obtain ⟨compiled, h⟩ := exists_ok_of_isSome hsome
  have hstrict : ({ promoteInts := false } : Config).promoteInts = false := rfl
  have hpromoting := compile_promoting hstrict h
  exact ⟨compiled, h, hpromoting⟩

end Compiled

end ShaderBytecode
