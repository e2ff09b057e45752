import ShaderBytecode.Proofs.Renaming

/-!
# Where typed sources stand

Typing makes no spans of its own: if the spans of a tree move, all that is typed moves with them. A
move that leaves just the spans with a property where they are does not change a tree with such
spans only, and so it does not change what is typed either. Faults and remarks, the calls of bodies
and the names of functions then stand at such spans, and the lines that statements and globals are
marked with are those where such spans start.
-/

namespace ShaderBytecode

open Typed (Mention Registry)

variable {A : Span → Prop}

/-! ## Moves -/

def Span.LineOf (A : Span → Prop) (line : Nat) : Prop :=
  ∃ span, A span ∧ span.line = line

/-- A move of spans, and of lines with them, that leaves just the spans with a property. -/
theorem Span.exists_move (A : Span → Prop) : ∃ (span : Span → Span) (line : Nat → Nat),
    (∀ s, (span s).line = line s.line) ∧ (∀ s, span s = s ↔ A s)
      ∧ ∀ n, line n = n ↔ Span.LineOf A n := by
  classical
  let line : Nat → Nat := fun n => if Span.LineOf A n then n else n + 1
  -- A span that moves stays on its line if other spans are left there, so its end moves too.
  refine ⟨fun s => if A s then s
    else ⟨⟨line s.line - 1, s.start.column⟩, ⟨s.stop.line, s.stop.column + 1⟩⟩, line, ?_, ?_, ?_⟩
  · intro s
    by_cases hs : A s
    · have hline : line s.line = s.line := if_pos ⟨s, hs, rfl⟩
      simp only [if_pos hs, hline]
    · have hpos : 1 ≤ line s.line := by
        have hle : s.line ≤ line s.line := by
          show s.line ≤ if Span.LineOf A s.line then s.line else s.line + 1
          split <;> omega
        exact Nat.le_trans (Nat.le_add_left 1 _) hle
      simp only [if_neg hs]
      show (max ((line s.line : Int) - 1) 0).toNat + 1 = line s.line
      omega
  · intro s
    by_cases hs : A s
    · exact ⟨fun _ => hs, fun _ => if_pos hs⟩
    · refine ⟨fun hsame => ?_, fun h => absurd h hs⟩
      have hcolumn := congrArg (fun s : Span => s.stop.column) ((if_neg hs).symm.trans hsame)
      have hnext : s.stop.column + 1 = s.stop.column := hcolumn
      omega
  · intro n
    by_cases hn : Span.LineOf A n
    · exact ⟨fun _ => hn, fun _ => if_pos hn⟩
    · refine ⟨fun hsame => ?_, fun h => absurd h hn⟩
      have hnext : n + 1 = n := (if_neg hn).symm.trans hsame
      omega

/-! ## Trees -/

theorem map_eq_self {α : Type} {f : α → α} {as : List α} (h : ∀ a ∈ as, f a = a) :
    as.map f = as :=
  (List.map_congr_left h).trans (List.map_id' as)

theorem optionMap_eq_self {α : Type} {f : α → α} {a : Option α} (h : ∀ b ∈ a, f b = b) :
    a.map f = a := by
  cases a with
  | none => rfl
  | some b => exact congrArg some (h b rfl)

/-- Words stay, and so do the spans with a property. -/
structure Respelling.Keeps (ρ : Respelling) (A : Span → Prop) : Prop where
  word : ∀ w, ρ.word w = w
  callee : ∀ w k, ρ.callee w k = w
  span : ∀ s, A s → ρ.span s = s

namespace Respelling.Keeps

variable {ρ : Respelling} (h : ρ.Keeps A)
include h

theorem name {n : Located String} (hn : A n.span) : ρ.name n = n := by
  rw [Respelling.name, h.word, h.span _ hn]

theorem label (w : Option String) : w.map ρ.word = w :=
  optionMap_eq_self fun w _ => h.word w

end Respelling.Keeps

namespace Ast

variable {ρ : Respelling}

mutual

theorem Expr.respell_eq_self (hρ : ρ.Keeps A) : (e : Expr) → e.Spans A → e.respell ρ = e
  | .int _ _, h | .float _ _, h | .bool _ _, h | .name _ _, h => by
    simp only [Expr.respell, hρ.word, hρ.span _ h]
  | .call _ arguments _, ⟨hs, h⟩ => by
    rw [Expr.respell, hρ.callee, hρ.span _ hs, Expr.respellAll_eq_self hρ arguments h]
  | .member base _ _, ⟨hs, h⟩ => by
    rw [Expr.respell, hρ.word, hρ.span _ hs, base.respell_eq_self hρ h]
  | .index base place _, ⟨hs, h, h'⟩ => by
    rw [Expr.respell, hρ.span _ hs, base.respell_eq_self hρ h, place.respell_eq_self hρ h']
  | .unary _ operand _, ⟨hs, h⟩ | .step _ operand _, ⟨hs, h⟩ => by
    rw [Expr.respell, hρ.span _ hs, operand.respell_eq_self hρ h]
  | .binary _ left right _, ⟨hs, h, h'⟩ | .assign _ left right _, ⟨hs, h, h'⟩ => by
    rw [Expr.respell, hρ.span _ hs, left.respell_eq_self hρ h, right.respell_eq_self hρ h']
  | .ternary test whenTrue whenFalse _, ⟨hs, htest, h, h'⟩ => by
    rw [Expr.respell, hρ.span _ hs, test.respell_eq_self hρ htest, whenTrue.respell_eq_self hρ h,
      whenFalse.respell_eq_self hρ h']

theorem Expr.respellAll_eq_self (hρ : ρ.Keeps A) :
    (es : List Expr) → Expr.SpansAll A es → Expr.respellAll ρ es = es
  | [], _ => rfl
  | first :: rest, ⟨h, hrest⟩ => by
    rw [Expr.respellAll, first.respell_eq_self hρ h, Expr.respellAll_eq_self hρ rest hrest]

end

theorem Expr.map_respell_eq_self (hρ : ρ.Keeps A) {e : Option Expr} (h : ∀ a ∈ e, a.Spans A) :
    e.map (Expr.respell ρ) = e :=
  optionMap_eq_self fun a ha => a.respell_eq_self hρ (h a ha)

theorem Variables.respell_eq_self (hρ : ρ.Keeps A) {v : Variables} (h : v.Spans A) :
    v.respell ρ = v := by
  have hdeclarators : v.declarators.map (Declarator.respell ρ) = v.declarators := by
    refine map_eq_self fun d hd => ?_
    obtain ⟨hs, hinitializer⟩ := h.declarators d hd
    rw [Declarator.respell, hρ.word, hρ.label, Expr.map_respell_eq_self hρ hinitializer,
      hρ.span _ hs]
  have hlayout : v.layout.map ρ.layoutEntry = v.layout :=
    map_eq_self fun entry _ => by rw [Respelling.layoutEntry, hρ.word]
  rw [Variables.respell, hdeclarators, hρ.name h.type, hlayout]

theorem Simple.respell_eq_self (hρ : ρ.Keeps A) {s : Simple} (h : s.Spans A) :
    s.respell ρ = s := by
  cases s with
  | declare v => rw [Simple.respell, Variables.respell_eq_self hρ h]
  | expr e => rw [Simple.respell, e.respell_eq_self hρ h]

mutual

theorem Statement.respell_eq_self (hρ : ρ.Keeps A) :
    (s : Statement) → s.Spans A → s.respell ρ = s
  | .block body _, ⟨hs, h⟩ => by
    rw [Statement.respell, hρ.span _ hs, Statement.respellAll_eq_self hρ body h]
  | .simple s _, ⟨hs, h⟩ => by
    rw [Statement.respell, hρ.span _ hs, Simple.respell_eq_self hρ h]
  | .ifThen test body _, ⟨hs, htest, h⟩ | .whileLoop test body _, ⟨hs, htest, h⟩
  | .doLoop body test _, ⟨hs, h, htest⟩ => by
    rw [Statement.respell, hρ.span _ hs, test.respell_eq_self hρ htest, body.respell_eq_self hρ h]
  | .ifElse test first second _, ⟨hs, htest, h, h'⟩ => by
    rw [Statement.respell, hρ.span _ hs, test.respell_eq_self hρ htest,
      first.respell_eq_self hρ h, second.respell_eq_self hρ h']
  | .forLoop start test step body _, ⟨hs, hstart, htest, hstep, h⟩ => by
    have hfirst : start.map (Simple.respellAt ρ) = start := by
      refine optionMap_eq_self fun s hmem => ?_
      obtain ⟨hs, hsimple⟩ := hstart s hmem
      rw [Simple.respellAt, Simple.respell_eq_self hρ hsimple, hρ.span _ hs]
    rw [Statement.respell, hρ.span _ hs, hfirst, Expr.map_respell_eq_self hρ htest,
      Expr.map_respell_eq_self hρ hstep, body.respell_eq_self hρ h]
  | .returnFrom value _, ⟨hs, h⟩ => by
    rw [Statement.respell, hρ.span _ hs, Expr.map_respell_eq_self hρ h]
  | .breakLoop _, h | .continueLoop _, h | .discardPixel _, h | .empty _, h => by
    rw [Statement.respell, hρ.span _ h]

theorem Statement.respellAll_eq_self (hρ : ρ.Keeps A) : (body : List Statement) →
    Statement.SpansAll A body → Statement.respellAll ρ body = body
  | [], _ => rfl
  | first :: rest, ⟨h, hrest⟩ => by
    rw [Statement.respellAll, first.respell_eq_self hρ h,
      Statement.respellAll_eq_self hρ rest hrest]

end

theorem Member.map_respell_eq_self (hρ : ρ.Keeps A) {ms : List Member} (h : ∀ m ∈ ms, m.Spans A) :
    ms.map (Member.respell ρ) = ms := by
  refine map_eq_self fun m hm => ?_
  rw [Member.respell, hρ.name (h m hm).type, hρ.word, hρ.label, hρ.span _ (h m hm).span]

theorem Function.respell_eq_self (hρ : ρ.Keeps A) {f : Function} (h : f.Spans A) :
    f.respell ρ = f := by
  have hparameters : f.parameters.map (Parameter.respell ρ) = f.parameters := by
    refine map_eq_self fun p hp => ?_
    obtain ⟨htype, hs⟩ := h.parameters p hp
    rw [Parameter.respell, hρ.name htype, hρ.label, hρ.label, hρ.span _ hs]
  have hbody : f.body.map (Body.respell ρ) = f.body := by
    refine optionMap_eq_self fun b hb => ?_
    obtain ⟨hs, hstatements⟩ := h.body b hb
    rw [Body.respell, hρ.span _ hs, ← Statement.respellAll_eq_map,
      Statement.respellAll_eq_self hρ _ hstatements]
  rw [Function.respell, hρ.name h.returnType, hρ.word, hparameters, hρ.label, hbody,
    hρ.span _ h.span]

theorem Declaration.respell_eq_self (hρ : ρ.Keeps A) {d : Declaration} (h : d.Spans A) :
    d.respell ρ = d := by
  cases d with
  | struct s =>
    rw [Declaration.respell, Structure.respell, hρ.word, Member.map_respell_eq_self hρ h.2,
      hρ.span _ h.1]
  | declare v => rw [Declaration.respell, Variables.respell_eq_self hρ h]
  | buffer b =>
    rw [Declaration.respell, Buffer.respell, hρ.word, hρ.label, Member.map_respell_eq_self hρ h]
  | function f => rw [Declaration.respell, Function.respell_eq_self hρ h]

end Ast

/-! ## Typed sources -/

namespace Typed

mutual

/-- The lines that a statement and those in it are marked with. -/
def Statement.lines : Statement → List Nat
  | .expr _ line | .declare _ _ line | .returnFrom _ line | .leave _ line
  | .discardPixel line => [line]
  | .ifElse _ whenTrue whenFalse line =>
    line :: (Statement.linesAll whenTrue ++ Statement.linesAll whenFalse)
  | .loop _ _ body line | .doLoop body _ line => line :: Statement.linesAll body
  | .block body => Statement.linesAll body

def Statement.linesAll : List Statement → List Nat
  | [] => []
  | first :: rest => first.lines ++ Statement.linesAll rest

end

variable {m : Relabelling}

mutual

theorem Statement.lines_relabel : (s : Statement) → (s.relabel m).lines = s.lines.map m.line
  | .expr _ _ | .declare _ _ _ | .returnFrom _ _ | .leave _ _ | .discardPixel _ => rfl
  | .ifElse _ whenTrue whenFalse _ => by
    simp only [Statement.relabel, Statement.lines, Statement.linesAll_relabelAll whenTrue,
      Statement.linesAll_relabelAll whenFalse, List.map_cons, List.map_append]
  | .loop _ _ body _ | .doLoop body _ _ | .block body => by
    simp only [Statement.relabel, Statement.lines, Statement.linesAll_relabelAll body,
      List.map_cons]

theorem Statement.linesAll_relabelAll : (body : List Statement) →
    Statement.linesAll (Statement.relabelAll m body) = (Statement.linesAll body).map m.line
  | [] => rfl
  | first :: rest => by
    simp only [Statement.relabelAll, Statement.linesAll, first.lines_relabel,
      Statement.linesAll_relabelAll rest, List.map_append]

end

/-- A function is declared and makes its calls at spans with a property, and its statements are
marked with lines where such spans start. -/
structure Function.Placed (A : Span → Prop) (f : Function) : Prop where
  span : A f.span
  calls : ∀ d ∈ f.definition, ∀ function, .call function ∈ Statement.mentionsAll d.body →
    A function.span
  lines : ∀ d ∈ f.definition, ∀ line ∈ Statement.linesAll d.body, Span.LineOf A line

/-- All that registries have from a tree stands at spans with a property. -/
structure Registry.Placed (A : Span → Prop) (r : Registry) : Prop where
  globals : ∀ g ∈ r.globals, Span.LineOf A g.line
  functions : ∀ f ∈ r.functions, f.Placed A

end Typed

structure ModuleState.Placed (A : Span → Prop) (s : ModuleState) : Prop where
  registry : s.registry.Placed A
  remarks : ∀ remark ∈ s.remarks, A remark.span

theorem eq_of_map_eq_self {α : Type} {f : α → α} {as : List α} (h : as.map f = as) :
    ∀ a ∈ as, f a = a :=
  List.map_inj_left.mp (h.trans (List.map_id' as).symm)

/-- Registries that do not change with a move stand at spans that stay. -/
theorem Typed.Registry.placed_of_relabel {r : Registry} {m : Relabelling}
    {builtins : List Variable} (hspan : ∀ s, m.span s = s → A s)
    (hline : ∀ n, m.line n = n → Span.LineOf A n) (h : r.relabel m builtins = r) :
    r.Placed A := by
  have hglobals := eq_of_map_eq_self (congrArg Registry.globals h)
  have hfunctions := eq_of_map_eq_self (congrArg Registry.functions h)
  refine ⟨fun g hg => hline _ (congrArg Global.line (hglobals g hg)), fun f hf => ?_⟩
  have hbody : ∀ d ∈ f.definition, d.relabel m = d := by
    intro d hd
    have hdefinition := congrArg Function.definition (hfunctions f hf)
    rw [Function.relabel, Option.mem_def.mp hd] at hdefinition
    exact Option.some.inj hdefinition
  refine ⟨hspan _ (congrArg Function.span (hfunctions f hf)), fun d hd function hcall => ?_,
    fun d hd line hmem => ?_⟩
  · have hmentions := congrArg (fun d => Statement.mentionsAll d.body) (hbody d hd)
    have hsame := eq_of_map_eq_self
      ((Statement.mentionsAll_relabelAll d.body).symm.trans hmentions) _ hcall
    exact hspan _ (congrArg Located.span (Mention.call.inj hsame))
  · have hlines := congrArg (fun d => Statement.linesAll d.body) (hbody d hd)
    exact hline _ (eq_of_map_eq_self
      ((Statement.linesAll_relabelAll d.body).symm.trans hlines) line hmem)

/-- What is found in a tree stands at its spans: faults, unless they stand nowhere, remarks and what
is registered. -/
theorem typeDeclarations_placed (c : Context) (limit : Nat) {declarations : List Ast.Declaration}
    (h : ∀ d ∈ declarations, d.Spans A) :
    let typed := typeDeclarations c limit declarations
      { registry := { builtins := stageVariables c.dialect c.stage } }
    (∀ fault ∈ typed.1, fault.span = {} ∨ A fault.span) ∧ typed.2.Placed A := by
  obtain ⟨span, line, hline, hspan, hlines⟩ := Span.exists_move A
  let T := Translation.ofRenaming c id (.identity _) span line hline
  have hadmits : ∀ d ∈ declarations, T.AdmitsDeclaration d := fun d _ =>
    ⟨fun u _ => by cases u <;> trivial, by cases d <;> trivial⟩
  have htree : declarations.map (Ast.Declaration.respell T.spelling) = declarations :=
    map_eq_self fun d hd => Ast.Declaration.respell_eq_self
      ⟨fun _ => rfl, fun _ _ => rfl, fun s => (hspan s).mpr⟩ (h d hd)
  have htyped := Translation.typeDeclarations_follows hadmits limit Translation.states_start
  rw [htree] at htyped
  obtain ⟨hfaults, hstates⟩ := htyped.strict ⟨rfl, rfl⟩
  refine ⟨fun fault hfault => ?_, ?_, fun remark hremark => ?_⟩
  · obtain hsame | ⟨hnowhere, -⟩ := (List.forall₂_same.mp hfaults fault hfault).span ⟨rfl, rfl⟩
    · exact .inr ((hspan _).mp hsame.symm)
    · exact .inl hnowhere
  · exact Typed.Registry.placed_of_relabel (fun s => (hspan s).mp) (fun n => (hlines n).mp)
      hstates.registry.symm
  · have hsame := eq_of_map_eq_self hstates.remarks.symm remark hremark
    exact (hspan _).mp (congrArg Located.span hsame)

end ShaderBytecode
