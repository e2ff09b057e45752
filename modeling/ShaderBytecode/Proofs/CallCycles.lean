import Mathlib.Data.List.Range
import Mathlib.Data.List.Perm.Subperm
import Mathlib.Logic.Relation
import ShaderBytecode.Proofs.Ranges

/-!
# Recursion is found exactly

The depth first search of a call graph ends with a call just if the graph has a cycle, and the call
lies on one. While the search runs, every function on its path calls its way to the function it is
in, so a call back to the path closes a cycle. The functions it is done with stand in an order in
which each calls only those behind it, so among them there is no cycle.
-/

namespace ShaderBytecode

open Relation (ReflTransGen TransGen)

/-- A fold that ends keeps what each of its steps keeps, and what a step brings about for its entry
holds in the end if later steps do not undo it. -/
theorem foldlM_ok {α β ε : Type} {f : β → α → Except ε β} (keeps : β → Prop)
    (holds : α → β → Prop) {l : List α} {b b' : β} (h : l.foldlM f b = .ok b') (hb : keeps b)
    (hstep : ∀ a ∈ l, ∀ c c', keeps c → f c a = .ok c' →
      keeps c' ∧ holds a c' ∧ ∀ other, holds other c → holds other c') :
    keeps b' ∧ (∀ a ∈ l, holds a b') ∧ ∀ other, holds other b → holds other b' := by
  induction l generalizing b with
  | nil =>
    cases h
    exact ⟨hb, List.forall_mem_nil _, fun _ hother => hother⟩
  | cons first rest ih =>
    rw [List.foldlM_cons] at h
    cases hfirst : f b first with
    | error e =>
      rw [hfirst] at h
      cases h
    | ok c =>
      rw [hfirst] at h
      obtain ⟨hc, hholds, hmono⟩ := hstep first (List.mem_cons_self ..) b c hb hfirst
      obtain ⟨hb', hrest, hmono'⟩ := ih h hc fun a ha => hstep a (List.mem_cons_of_mem _ ha)
      exact ⟨hb', List.forall_mem_cons.mpr ⟨hmono' first hholds, hrest⟩,
        fun other hother => hmono' other (hmono other hother)⟩

theorem ok_of_bind_pure {α β ε : Type} {x : Except ε α} {f : α → β} {b : β}
    (h : (do let a ← x; return f a) = Except.ok b) : ∃ a, x = .ok a ∧ f a = b := by
  cases x with
  | error e => cases h
  | ok a => exact ⟨a, rfl, Except.ok.inj h⟩

theorem length_le_of_nodup {l : List Nat} {n : Nat} (hl : l.Nodup) (h : ∀ i ∈ l, i < n) :
    l.length ≤ n := by
  have hsub : l ⊆ List.range n := fun i hi => List.mem_range.mpr (h i hi)
  simpa using (List.subperm_of_subset hl hsub).length_le

namespace CallGraph

variable {g : CallGraph}

def Calls (g : CallGraph) (caller callee : Nat) : Prop :=
  ∃ call ∈ g.callsOf caller, call.value = callee

theorem Calls.lt {caller callee : Nat} (h : g.Calls caller callee) : caller < g.length := by
  obtain ⟨call, hcall, -⟩ := h
  by_contra hlarge
  simp [callsOf, List.getElem?_eq_none (Nat.not_lt.mp hlarge)] at hcall

/-! ## A call that is found lies on a cycle -/

variable {done : List Nat} {i : Nat}

/-- A search whose path leads to the function it is in fails only at a call on a cycle. -/
theorem searchFrom_error {depth function : Nat} {path : List Nat} {edge : BackEdge}
    (h : g.searchFrom depth path done function = .error edge)
    (hpath : ∀ f ∈ path, ReflTransGen g.Calls f function) :
    ⟨edge.callee, edge.span⟩ ∈ g.callsOf edge.caller
      ∧ ReflTransGen g.Calls edge.callee edge.caller := by
  induction depth generalizing path done function with
  | zero => cases h
  | succ depth ih =>
    have hlonger : ∀ f ∈ function :: path, ReflTransGen g.Calls f function :=
      List.forall_mem_cons.mpr ⟨.refl, hpath⟩
    rw [searchFrom] at h
    obtain ⟨done', call, hcall, hfail⟩ := exists_of_foldlM_error (error_of_bind_pure h)
    split at hfail
    · rename_i hback
      cases hfail
      exact ⟨hcall, hlonger _ (List.contains_iff_mem.mp hback)⟩
    · split at hfail
      · cases hfail
      · exact ih hfail fun f hf => (hlonger f hf).tail ⟨call, hcall, rfl⟩

/-- A call that is found is one of the graph, and from the function it calls there is a way back. -/
theorem backEdge?_spec {edge : BackEdge} (h : g.backEdge? = some edge) :
    ⟨edge.callee, edge.span⟩ ∈ g.callsOf edge.caller
      ∧ ReflTransGen g.Calls edge.callee edge.caller := by
  unfold backEdge? at h
  split at h
  · cases h
  · rename_i hsearch
    cases h
    obtain ⟨done, function, -, hfail⟩ := exists_of_foldlM_error hsearch
    split at hfail
    · cases hfail
    · exact searchFrom_error hfail (List.forall_mem_nil _)

/-! ## A cycle is found -/

/-- Functions in an order in which each calls only those behind it, or none of the graph. -/
def Finished (g : CallGraph) : List Nat → Prop
  | [] => True
  | function :: done =>
    (∀ callee, g.Calls function callee → callee ∈ done ∨ g.length ≤ callee) ∧ Finished g done

/-- Calls lead from finished functions to finished ones, or out of the graph. -/
theorem Finished.closed (h : g.Finished done) {j : Nat} (hi : i ∈ done) (hcalls : g.Calls i j) :
    j ∈ done ∨ g.length ≤ j := by
  induction done with
  | nil => cases hi
  | cons function rest ih =>
    have hlater : j ∈ rest ∨ g.length ≤ j := by
      obtain rfl | hi := List.mem_cons.mp hi
      · exact h.1 j hcalls
      · exact ih h.2 hi
    exact hlater.imp_left (List.mem_cons_of_mem _)

theorem Finished.reaches (h : g.Finished done) {j : Nat} (hi : i ∈ done ∨ g.length ≤ i)
    (hreach : ReflTransGen g.Calls i j) : j ∈ done ∨ g.length ≤ j := by
  induction hreach with
  | refl => exact hi
  | tail _ hcalls ih =>
    obtain hk | hk := ih
    · exact h.closed hk hcalls
    · exact absurd hcalls.lt (Nat.not_lt.mpr hk)

theorem Finished.acyclic (h : g.Finished done) (hi : i ∈ done) : ¬TransGen g.Calls i i := by
  induction done with
  | nil => cases hi
  | cons function rest ih =>
    intro hcycle
    by_cases hrest : i ∈ rest
    · exact ih h.2 hrest hcycle
    · obtain rfl : i = function := (List.mem_cons.mp hi).resolve_right hrest
      -- the first call of the cycle leads among the functions behind, which never come back
      obtain ⟨next, hcalls, hback⟩ := TransGen.head'_iff.mp hcycle
      obtain hsame | hsame := h.2.reaches (h.1 next hcalls) hback
      · exact hrest hsame
      · exact absurd hcalls.lt (Nat.not_lt.mpr hsame)

/-- A search that ends has finished its function and all that were finished before. The path holds no
function twice, so the depth of the search is never used up. -/
theorem searchFrom_ok {depth function : Nat} {path done' : List Nat}
    (h : g.searchFrom depth path done function = .ok done') (hdone : g.Finished done)
    (hnew : (function :: path).Nodup) (hpath : ∀ f ∈ function :: path, f < g.length)
    (hdepth : g.length ≤ depth + path.length) :
    g.Finished done' ∧ done ⊆ done' ∧ function ∈ done' := by
  induction depth generalizing path done done' function with
  | zero =>
    have hlength := length_le_of_nodup hnew hpath
    rw [List.length_cons] at hlength
    omega
  | succ depth ih =>
    rw [searchFrom] at h
    obtain ⟨last, hfold, rfl⟩ := ok_of_bind_pure h
    have hall := foldlM_ok (fun c => g.Finished c ∧ done ⊆ c)
      (fun call c => call.value ∈ c ∨ g.length ≤ call.value) hfold ⟨hdone, fun _ hf => hf⟩
    have hvisit := hall fun call _ c c' hc hstep => by
      split at hstep
      · cases hstep
      · rename_i hback
        split at hstep
        · rename_i hknown
          cases hstep
          simp only [Bool.or_eq_true, List.contains_iff_mem, decide_eq_true_eq] at hknown
          exact ⟨hc, hknown, fun _ hother => hother⟩
        · rename_i hknown
          simp only [Bool.or_eq_true, decide_eq_true_eq, not_or, Nat.not_le] at hknown
          simp only [List.contains_iff_mem] at hback
          obtain ⟨hfinished, hsub, hfound⟩ := ih hstep hc.1 (List.nodup_cons.mpr ⟨hback, hnew⟩)
            (List.forall_mem_cons.mpr ⟨hknown.2, hpath⟩) (by rw [List.length_cons]; omega)
          exact ⟨⟨hfinished, fun f hf => hsub (hc.2 hf)⟩, .inl hfound,
            fun _ hother => hother.imp_left (hsub ·)⟩
    obtain ⟨⟨hfinished, hsub⟩, hcalls, -⟩ := hvisit
    refine ⟨⟨?_, hfinished⟩, fun f hf => List.mem_cons_of_mem _ (hsub hf), List.mem_cons_self ..⟩
    rintro callee ⟨call, hcall, rfl⟩
    exact hcalls call hcall

theorem acyclic_of_search (h : g.search = .ok done) (i : Nat) : ¬TransGen g.Calls i i := by
  intro hcycle
  obtain ⟨next, hcalls, -⟩ := TransGen.head'_iff.mp hcycle
  have hsearch := foldlM_ok g.Finished (fun f c => f ∈ c) h trivial fun function hfunction c c' hc
      hstep => by
    split at hstep
    · rename_i hknown
      cases hstep
      exact ⟨hc, List.contains_iff_mem.mp hknown, fun _ hother => hother⟩
    · obtain ⟨hfinished, hsub, hfound⟩ := searchFrom_ok hstep hc (List.pairwise_singleton ..)
        (List.forall_mem_singleton.mpr (List.mem_range.mp hfunction)) (Nat.le_add_right _ _)
      exact ⟨hfinished, hfound, fun _ hother => hsub hother⟩
  obtain ⟨hfinished, hall, -⟩ := hsearch
  exact hfinished.acyclic (hall i (List.mem_range.mpr hcalls.lt)) hcycle

theorem backEdge?_isSome_iff : g.backEdge?.isSome = true ↔ ∃ i, TransGen g.Calls i i := by
  constructor
  · intro hsome
    obtain ⟨edge, hedge⟩ := Option.isSome_iff_exists.mp hsome
    obtain ⟨hcall, hback⟩ := backEdge?_spec hedge
    exact ⟨edge.caller, .head' ⟨_, hcall, rfl⟩ hback⟩
  · rintro ⟨i, hcycle⟩
    unfold backEdge?
    split
    · rename_i hsearch
      exact absurd hcycle (acyclic_of_search hsearch i)
    · rfl

end CallGraph

/-! ## Sources -/

def ModuleFault.isRecursion : ModuleFault → Bool
  | .selfCall _ | .callCycle _ _ => true
  | .undefined _ => false

theorem Typed.Mention.mem_calls {mentions : List Mention} {function : Located Nat} :
    function ∈ Mention.calls mentions ↔ .call function ∈ mentions := by
  rw [Mention.calls, List.mem_filterMap]
  constructor
  · rintro ⟨m, hm, hcall⟩
    cases m with
    | call found =>
      cases hcall
      exact hm
    | _ => cases hcall
  · intro hm
    exact ⟨_, hm, rfl⟩

namespace Typed.Registry

variable (r : Registry)

/-- The body of a function has a call of another one at a span. -/
def CallsAt (caller callee : Nat) (span : Span) : Prop :=
  ∃ f definition, r.functions[caller]? = some f ∧ f.definition = some definition
    ∧ .call ⟨callee, span⟩ ∈ Statement.mentionsAll definition.body

def Calls (caller callee : Nat) : Prop :=
  ∃ span, r.CallsAt caller callee span

/-- The fault of a source in which a call from one function to another closes a cycle. -/
def cycleFault (caller callee : Nat) : ModuleFault :=
  if caller = callee then .selfCall (r.functionName caller)
  else .callCycle (r.functionName caller) (r.functionName callee)

variable {r}

theorem mem_callsOf {caller callee : Nat} {span : Span} :
    ⟨callee, span⟩ ∈ r.callGraph.callsOf caller ↔ r.CallsAt caller callee span := by
  rw [CallGraph.callsOf, callGraph, List.getElem?_map]
  cases hf : r.functions[caller]? with
  | none => simp [CallsAt, hf]
  | some f =>
    cases hdefinition : f.definition with
    | none => simp [CallsAt, hf, hdefinition]
    | some definition => simp [CallsAt, hf, hdefinition, Mention.mem_calls]

theorem calls_callGraph : r.callGraph.Calls = r.Calls := by
  funext caller callee
  apply propext
  constructor
  · rintro ⟨call, hcall, rfl⟩
    exact ⟨call.span, mem_callsOf.mp hcall⟩
  · rintro ⟨span, hcalls⟩
    exact ⟨_, mem_callsOf.mpr hcalls, rfl⟩

/-- A recursion is reported just if the calls of the bodies have a cycle. -/
theorem recursion?_isSome_iff : r.recursion?.isSome = true ↔ ∃ i, TransGen r.Calls i i := by
  rw [recursion?, Option.isSome_map, CallGraph.backEdge?_isSome_iff, calls_callGraph]

theorem recursion?_spec {fault : Located ModuleFault} (h : r.recursion? = some fault) :
    ∃ caller callee, r.CallsAt caller callee fault.span ∧ ReflTransGen r.Calls callee caller
      ∧ fault.value = r.cycleFault caller callee := by
  obtain ⟨edge, hedge, hfault⟩ := Option.map_eq_some_iff.mp h
  obtain ⟨hcall, hback⟩ := CallGraph.backEdge?_spec hedge
  rw [calls_callGraph] at hback
  refine ⟨edge.caller, edge.callee, ?_, hback, ?_⟩
  · rw [← hfault]
    split
    · exact mem_callsOf.mp hcall
    · exact mem_callsOf.mp hcall
  · rw [← hfault, cycleFault]
    split
    · rfl
    · rfl

/-- The recursions among the faults of a source are the one that is reported. -/
theorem mem_moduleFaults_recursion {fault : Located ModuleFault}
    (h : fault.value.isRecursion = true) :
    fault ∈ r.moduleFaults ↔ r.recursion? = some fault := by
  have hundefined : fault ∉ r.undefinedFunctions := by
    intro hmem
    obtain ⟨f, -, rfl⟩ := List.mem_map.mp hmem
    cases h
  rw [moduleFaults, List.mem_append, Option.mem_toList]
  exact or_iff_right hundefined

end Typed.Registry

end ShaderBytecode
