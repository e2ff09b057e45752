import ShaderBytecode.Proofs.Compilation

/-!
# How deep expressions nest

The limit on nesting does not bound the depth of expressions by itself, since what stands in
parentheses does not count for the operators behind them. It bounds it by its square.
-/

namespace ShaderBytecode

/-- Expressions of a source that is read are no deeper than the square of the limit on nesting. -/
theorem Ast.operatorDepth_le_of_ofTokens {d : Dialect} {source : String} {scanned : Scanned}
    {declarations : List Ast.Declaration} (hscan : scan d source = .ok scanned)
    (h : Ast.ofTokens d scanned = .ok declarations) :
    ∀ e ∈ declarations.flatMap Ast.Declaration.exprs, e.operatorDepth ≤ nestingLimit ^ 2 - 2 := by
  intro e he
  obtain ⟨declared, hdeclared, he⟩ := List.mem_flatMap.mp he
  have hread := Ast.read_of_ofTokens (faithful_of_scan hscan) h declared hdeclared
  exact (hread.of_mem_exprs e he).depth

/-- A start value with as many operators in parentheses as fit there, and three behind them. -/
def tallSource : String :=
  "bool g = (" ++ String.ofList (List.replicate 126 '!') ++ "true).x.x.x; void main() { }"

theorem exists_tallSource : ∃ scanned declarations, scan .glsl tallSource = .ok scanned
    ∧ Ast.ofTokens .glsl scanned = .ok declarations
    ∧ ∃ e ∈ declarations.flatMap Ast.Declaration.exprs, e.operatorDepth = nestingLimit + 1 := by
  have hread : (scan .glsl tallSource).toOption.any (fun scanned =>
      (Ast.ofTokens .glsl scanned).toOption.any fun declarations =>
        (declarations.flatMap Ast.Declaration.exprs).any
          fun e => e.operatorDepth = nestingLimit + 1) = true := by decide +kernel
  obtain ⟨scanned, hscanned, hread⟩ := exists_ok_of_any hread
  obtain ⟨declarations, hdeclarations, hdeep⟩ := exists_ok_of_any hread
  obtain ⟨e, he, hdepth⟩ := List.any_eq_true.mp hdeep
  exact ⟨scanned, declarations, hscanned, hdeclarations, e, he, of_decide_eq_true hdepth⟩

theorem Ast.operatorDepth_le_of_ofTokens_tallSource :
    ∃ scanned declarations e, scan .glsl tallSource = .ok scanned
      ∧ Ast.ofTokens .glsl scanned = .ok declarations
      ∧ e ∈ declarations.flatMap Ast.Declaration.exprs
      ∧ nestingLimit < e.operatorDepth ∧ e.operatorDepth ≤ nestingLimit ^ 2 - 2 := by
  obtain ⟨scanned, declarations, hscan, hread, e, he, hdepth⟩ := exists_tallSource
  have hlimit := Ast.operatorDepth_le_of_ofTokens hscan hread e he
  exact ⟨scanned, declarations, e, hscan, hread, he, hdepth ▸ Nat.lt_succ_self _, hlimit⟩

/-- The limit on nesting is no limit on the depth of expressions: a source with a deeper one is
read. -/
theorem ofTokens_tallSource :
    ∃ scanned declarations, scan .glsl tallSource = .ok scanned
      ∧ Ast.ofTokens .glsl scanned = .ok declarations
      ∧ ∃ e ∈ declarations.flatMap Ast.Declaration.exprs, ¬e.operatorDepth ≤ nestingLimit := by
  obtain ⟨scanned, declarations, hscan, hread, e, he, hdepth⟩ := exists_tallSource
  exact ⟨scanned, declarations, hscan, hread, e, he, hdepth ▸ Nat.not_succ_le_self _⟩

end ShaderBytecode
