import ShaderBytecode.Proofs.Compilation

/-!
# Nothing is looked up in vain

Trees refer to slots, globals and functions by number, and so do call graphs. Whatever a source
declares, and also if it is refused, every number is one of an entry and fits into an operand. So no
phase finds its tables short, and a source is compiled or has errors of its own.
-/

namespace ShaderBytecode

/-! ## Mentions -/

namespace Typed

/-- Something that is referred to is there, in tables of some lengths. -/
def Mention.InRange (slots globals functions : Nat) : Mention → Prop
  | .slot place => place < slots
  | .global index => index < globals
  | .call function => function.value < functions

def Mention.AllInRange (c : CodeContext) (mentions : List Mention) : Prop :=
  ∀ m ∈ mentions, m.InRange c.locals.length c.globals.length c.functions.length

variable {c : CodeContext}

theorem Mention.allInRange_append {first second : List Mention}
    (h : Mention.AllInRange c first) (h' : Mention.AllInRange c second) :
    Mention.AllInRange c (first ++ second) :=
  List.forall_mem_append.mpr ⟨h, h'⟩

theorem Mention.allInRange_slot {slot : Nat} {type : DataType}
    (h : c.locals[slot]? = some type) : Mention.AllInRange c [.slot slot] :=
  List.forall_mem_singleton.mpr (List.getElem?_eq_some_iff.mp h).1

theorem Mention.allInRange_global {index : Nat} {type : DataType}
    (h : c.globals[index]? = some type) : Mention.AllInRange c [.global index] :=
  List.forall_mem_singleton.mpr (List.getElem?_eq_some_iff.mp h).1

open Mention (allInRange_append allInRange_slot allInRange_global)

mutual

theorem Expr.WellTyped.inRange :
    {e : Expr} → e.WellTyped c → Mention.AllInRange c e.mentions
  | .int _, _ => List.forall_mem_nil _
  | .float _, _ => List.forall_mem_nil _
  | .bool _, _ => List.forall_mem_nil _
  | .localVar _ _, h => allInRange_slot h
  | .globalVar _ _, h => allInRange_global h
  | .member _ _ _, h => h.1.inRange
  | .swizzle _ _ _, h => h.1.inRange
  | .index _ _ _, h => allInRange_append h.1.inRange h.2.1.inRange
  | .unary _ _, h => h.1.inRange
  | .arith _ _ _ _, h => allInRange_append h.1.inRange h.2.1.inRange
  | .compare _ _ _, h => allInRange_append h.1.inRange h.2.1.inRange
  | .logic _ _ _, h => allInRange_append h.1.inRange h.2.1.inRange
  | .ternary _ _ _, h =>
    allInRange_append (allInRange_append h.1.inRange h.2.1.inRange) h.2.2.1.inRange
  | .assign _ _ _, h => allInRange_append h.1.inRange h.2.1.inRange
  | .step _ _, h => h.1.inRange
  | .call _ _ _, h =>
    let ⟨_, hshape, _, harguments⟩ := h
    allInRange_append (Argument.AllWellTyped.inRange harguments)
      (List.forall_mem_singleton.mpr (List.getElem?_eq_some_iff.mp hshape).1)
  | .intrinsic _ _ _, h => Expr.AllWellTyped.inRange h.1
  | .construct _ _ _, h => Expr.AllWellTyped.inRange h.1

theorem Place.WellTyped.inRange :
    {place : Place} → place.WellTyped c → Mention.AllInRange c place.mentions
  | .localVar _ _, h => allInRange_slot h
  | .globalVar _ _, h => allInRange_global h
  | .member _ _ _, h => h.1.inRange
  | .swizzle _ _ _, h => h.1.inRange
  | .index _ _ _, h => allInRange_append h.1.inRange h.2.1.inRange

theorem Argument.WellTyped.inRange {type : DataType} {passing : Passing} :
    {argument : Argument} → argument.WellTyped c type passing →
      Mention.AllInRange c argument.mentions
  | .value _, h => h.2.2.inRange
  | .reference _, h => h.2.2.inRange

theorem Expr.AllWellTyped.inRange :
    {es : List Expr} → Expr.AllWellTyped c es → Mention.AllInRange c (Expr.mentionsAll es)
  | [], _ => List.forall_mem_nil _
  | _ :: _, h => allInRange_append h.1.inRange (Expr.AllWellTyped.inRange h.2)

theorem Argument.AllWellTyped.inRange :
    {parameters : List (DataType × Passing)} → {arguments : List Argument} →
      Argument.AllWellTyped c parameters arguments →
      Mention.AllInRange c (Argument.mentionsAll arguments)
  | [], [], _ => List.forall_mem_nil _
  | _ :: _, _ :: _, h => allInRange_append h.1.inRange (Argument.AllWellTyped.inRange h.2)

end

theorem Expr.inRange_option {e : Option Expr} (h : ∀ value ∈ e, value.WellTyped c) :
    Mention.AllInRange c (Expr.optionMentions e) := by
  cases e with
  | none => exact List.forall_mem_nil _
  | some value => exact (h value rfl).inRange

theorem Expr.FitsResult.inRange {value : Option Expr} (h : Expr.FitsResult c value) :
    Mention.AllInRange c (Expr.optionMentions value) := by
  cases value with
  | none => exact List.forall_mem_nil _
  | some value => exact h.1.inRange

mutual

theorem Statement.WellTyped.inRange {inLoop : Bool} :
    {s : Statement} → s.WellTyped c inLoop → Mention.AllInRange c s.mentions
  | .expr _ _, h => Expr.WellTyped.inRange h
  | .declare _ _ _, h => h.1.inRange
  | .ifElse _ _ _ _, h =>
    allInRange_append (allInRange_append h.1.inRange (Statement.AllWellTyped.inRange h.2.2.1))
      (Statement.AllWellTyped.inRange h.2.2.2)
  | .loop _ _ _ _, h =>
    allInRange_append
      (allInRange_append (Expr.inRange_option fun value hvalue => (h.1 value hvalue).1)
        (Expr.inRange_option h.2.1))
      (Statement.AllWellTyped.inRange h.2.2)
  | .doLoop _ _ _, h => allInRange_append (Statement.AllWellTyped.inRange h.1) h.2.1.inRange
  | .returnFrom _ _, h => Expr.FitsResult.inRange h
  | .leave _ _, _ => List.forall_mem_nil _
  | .discardPixel _, _ => List.forall_mem_nil _
  | .block _, h => Statement.AllWellTyped.inRange h

theorem Statement.AllWellTyped.inRange {inLoop : Bool} :
    {ss : List Statement} → Statement.AllWellTyped c inLoop ss →
      Mention.AllInRange c (Statement.mentionsAll ss)
  | [], _ => List.forall_mem_nil _
  | _ :: _, h => allInRange_append h.1.inRange (Statement.AllWellTyped.inRange h.2)

end

/-! ## Registries -/

/-- All that the trees of a registry refer to is there, and no number is too large for an
operand. -/
structure Registry.InRange (r : Registry) : Prop where
  globals : r.allGlobals.length ≤ UInt32.size
  structures : r.structures.length ≤ UInt32.size
  functions : r.functions.length ≤ UInt32.size
  bodies : ∀ f ∈ r.functions, ∀ definition ∈ f.definition,
    f.signature.parameters.length + definition.locals.length ≤ UInt32.size
      ∧ ∀ m ∈ Statement.mentionsAll definition.body ++ Expr.optionMentions definition.zero,
        m.InRange (f.signature.parameters.length + definition.locals.length) r.allGlobals.length
          r.functions.length
  initializers : ∀ g ∈ r.globals, ∀ m ∈ Expr.optionMentions g.initializer,
    m.InRange 0 r.allGlobals.length r.functions.length

theorem Registry.lengths_codeContext (d : Dialect) (r : Registry) (slots : List DataType)
    (result : DataType) : (r.codeContext d slots result).globals.length = r.allGlobals.length
      ∧ (r.codeContext d slots result).functions.length = r.functions.length :=
  ⟨List.length_map _, List.length_map _⟩

theorem Registry.WellTyped.inRange {d : Dialect} {r : Registry} (h : r.WellTyped d)
    (hfits : r.Fits) : r.InRange := by
  have hsmall : (r.codeContext d [] .void).Small := Registry.small hfits (Nat.zero_le _)
  obtain ⟨hglobals, hfunctions⟩ := r.lengths_codeContext d [] .void
  refine ⟨hglobals ▸ hsmall.globals, hsmall.structures, hfunctions ▸ hsmall.functions, ?_, ?_⟩
  · intro f hf definition hdefinition
    obtain ⟨slots, htyped⟩ := h.functions f hf definition hdefinition
    have hcount := htyped.count
    rw [Function.parameterTypes, List.length_map] at hcount
    have hload := Nat.le_trans (f.slots_le_load hdefinition) (r.load_le_load hf)
    have hslots : (r.codeContext d slots f.signature.returnType).Small :=
      Registry.small hfits (hcount ▸ hload)
    have hmentions := Mention.allInRange_append htyped.body.inRange htyped.zero.inRange
    obtain ⟨hglobals, hfunctions⟩ := r.lengths_codeContext d slots f.signature.returnType
    rw [Mention.AllInRange, hglobals, hfunctions, hcount] at hmentions
    exact ⟨hcount ▸ hslots.locals, hmentions⟩
  · intro g hg m hm
    obtain ⟨i, hi, rfl⟩ := List.mem_iff_getElem.mp hg
    have htyped := h.globals i _ (List.getElem?_eq_getElem hi)
    have hmentions := Expr.inRange_option (fun value hvalue => (htyped.2 value hvalue).1)
    rw [Mention.AllInRange, hglobals, hfunctions] at hmentions
    exact hmentions m hm

end Typed

/-! ## Call graphs -/

theorem exists_of_foldlM_error {α β ε : Type} {f : β → α → Except ε β} {l : List α} {b : β} {e : ε}
    (h : l.foldlM f b = .error e) : ∃ b', ∃ a ∈ l, f b' a = .error e := by
  induction l generalizing b with
  | nil => cases h
  | cons first rest ih =>
    rw [List.foldlM_cons] at h
    cases hfirst : f b first with
    | error e' =>
      rw [hfirst] at h
      cases h
      exact ⟨b, first, List.mem_cons_self .., hfirst⟩
    | ok b' =>
      rw [hfirst] at h
      obtain ⟨b'', a, ha, hfail⟩ := ih h
      exact ⟨b'', a, List.mem_cons_of_mem _ ha, hfail⟩

theorem error_of_bind_pure {α β ε : Type} {x : Except ε α} {f : α → β} {e : ε}
    (h : (do let a ← x; return f a) = Except.error e) : x = .error e := by
  cases x with
  | error e' =>
    cases h
    rfl
  | ok a => cases h

namespace CallGraph

variable {g : CallGraph} {edge : BackEdge}

theorem searchFrom_bounds {depth function : Nat} {path done : List Nat}
    (h : g.searchFrom depth path done function = .error edge) (hfunction : function < g.length)
    (hpath : ∀ f ∈ path, f < g.length) : edge.caller < g.length ∧ edge.callee < g.length := by
  induction depth generalizing path done function with
  | zero => cases h
  | succ depth ih =>
    have hlonger : ∀ f ∈ function :: path, f < g.length :=
      List.forall_mem_cons.mpr ⟨hfunction, hpath⟩
    rw [searchFrom] at h
    obtain ⟨done', call, -, hcall⟩ := exists_of_foldlM_error (error_of_bind_pure h)
    split at hcall
    · rename_i hpath
      cases hcall
      exact ⟨hfunction, hlonger _ (List.contains_iff_mem.mp hpath)⟩
    · split at hcall
      · cases hcall
      · rename_i hnew
        simp only [Bool.or_eq_true, decide_eq_true_eq, not_or, Nat.not_le] at hnew
        exact ih hcall hnew.2 hlonger

/-- The functions of a call that closes a cycle are in the graph. -/
theorem backEdge?_bounds (h : g.backEdge? = some edge) :
    edge.caller < g.length ∧ edge.callee < g.length := by
  unfold backEdge? at h
  split at h
  · cases h
  · rename_i hsearch
    cases h
    obtain ⟨done, function, hmem, hfail⟩ := exists_of_foldlM_error hsearch
    split at hfail
    · cases hfail
    · exact searchFrom_bounds hfail (List.mem_range.mp hmem) (List.forall_mem_nil _)

end CallGraph

/-! ## Sources -/

/-- What is registered once the declarations of a source are typed, accepted or not. -/
def declaredBy (d : Dialect) (config : Config) (stage : Stage)
    (declarations : List Ast.Declaration) : Typed.Registry :=
  (typeDeclarations ⟨d, stage, config.promoteInts⟩ config.maxErrors declarations
    { registry := { builtins := stageVariables d stage } }).2.registry

def cyclicRequest : Request where
  stage := .pixel
  source := "void f(); void main() \x7b f(); \x7d void f() \x7b main(); \x7d"

end ShaderBytecode
