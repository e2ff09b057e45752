import ShaderBytecode.Proofs.RegisteredNames

/-!
# Registries that grow

A declaration registers more names, but none that was found before means anything else then, unless
a structure takes the name of an intrinsic. So the registry behind further declarations extends the
one before them.
-/

namespace ShaderBytecode

open Typed (Registry)

/-! ## Functions -/

namespace Typed.Registry

variable {d : Dialect} {c : Context} {r r' : Registry}

/-- The names of the functions in the order of their places. -/
def functionNames (r : Registry) : List String :=
  r.functions.map (·.signature.name)

variable {name : String}

/-- A name finds the first place that has it, and what stands there. -/
theorem function?_eq_some_iff {i : Nat} {f : Typed.Function} :
    r.function? name = some (i, f)
      ↔ r.functionNames.findIdx? (· = name) = some i ∧ r.functions[i]? = some f := by
  rw [functionNames, List.findIdx?_map]
  exact findPlace?_eq_some_iff

theorem function?_eq_none_iff : r.function? name = none ↔ name ∉ r.functionNames := by
  refine ⟨not_mem_of_function?_eq_none, fun hnew => ?_⟩
  cases hfound : r.function? name with
  | none => rfl
  | some found =>
    obtain ⟨hmem, hname, -⟩ := getElem?_names_of_function? hfound
    exact absurd (List.mem_map.mpr ⟨_, hmem, hname⟩) hnew

/-- Names find the same places while names are only added behind them. -/
theorem function?_of_names (hnames : r.functionNames <+: r'.functionNames) {i : Nat}
    {f f' : Typed.Function} (h : r.function? name = some (i, f))
    (hf' : r'.functions[i]? = some f') : r'.function? name = some (i, f') := by
  obtain ⟨added, hadded⟩ := hnames
  refine function?_eq_some_iff.mpr ⟨?_, hf'⟩
  rw [← hadded, List.findIdx?_append, (function?_eq_some_iff.mp h).1]
  rfl

section Precedes

variable (h : r.Precedes r')
include h

theorem Precedes.global? {name : String} {found : Nat × Variable}
    (hfound : r.global? name = some found) : r'.global? name = some found := by
  obtain ⟨added, hadded⟩ := h.globals
  obtain ⟨hi, hv⟩ := findPlace?_eq_some_iff.mp hfound
  obtain ⟨hlt, -⟩ := List.getElem?_eq_some_iff.mp hv
  refine findPlace?_eq_some_iff.mpr ⟨?_, ?_⟩
  · rw [← hadded, List.findIdx?_append, hi]
    rfl
  · rw [← hadded, List.getElem?_append_left hlt, hv]

theorem Precedes.struct? {name : String} {s : Structure} (hs : r.struct? name = some s) :
    r'.struct? name = some s := by
  obtain ⟨added, hadded⟩ := h.structures
  unfold Registry.struct? at hs ⊢
  rw [← hadded, List.find?_append, hs]
  rfl

theorem Precedes.structIndex? {name : String} {i : UInt32} (hi : r.structIndex? name = some i) :
    r'.structIndex? name = some i := by
  obtain ⟨added, hadded⟩ := h.structures
  obtain ⟨j, hj, rfl⟩ := Option.map_eq_some_iff.mp hi
  unfold Registry.structIndex?
  rw [← hadded, List.findIdx?_append, hj]
  rfl

/-- Registries of which one comes before the other, with the same structures. -/
theorem Precedes.extended (hstructures : r'.structures = r.structures)
    (hnames : r.functionNames <+: r'.functionNames)
    (hfunctions : ∀ (i : Nat) f, r.functions[i]? = some f → ∃ f', r'.functions[i]? = some f'
      ∧ f.signature.sameSignature f'.signature = true)
    (hintrinsics : ∀ name ∈ r'.functionNames, name ∉ r.functionNames →
      Intrinsic.isName d name = false) : r.Extends d r' where
  global? _ _ := h.global?
  struct? _ _ := h.struct?
  structIndex? _ _ := h.structIndex?
  function? name i f hfound hstruct := by
    obtain ⟨f', hf', hsame⟩ := hfunctions i f (getElem?_of_function? hfound)
    refine ⟨?_, f', function?_of_names hnames hfound hf', hsame⟩
    unfold Registry.struct? at hstruct ⊢
    rw [hstructures, hstruct]
  intrinsic name hname hstruct hfunction := by
    refine ⟨?_, function?_eq_none_iff.mpr fun hmem => ?_⟩
    · unfold Registry.struct? at hstruct ⊢
      rw [hstructures, hstruct]
    · have hnone := hintrinsics name hmem (function?_eq_none_iff.mp hfunction)
      cases hnone.symm.trans hname

end Precedes

def put (r : Registry) (i : Nat) (f : Typed.Function) : Registry :=
  { r with functions := r.functions.set i f }

@[simp] theorem put_put (i : Nat) (f g : Typed.Function) : (r.put i f).put i g = r.put i g := by
  simp only [put, List.set_set]

variable {i : Nat} {f g : Typed.Function}

theorem put_self (h : r.functions[i]? = some f) : r.put i f = r := by
  obtain ⟨hlt, rfl⟩ := List.getElem?_eq_some_iff.mp h
  simp only [put, List.set_getElem_self]

theorem getElem?_put (h : r.functions[i]? = some g) : (r.put i f).functions[i]? = some f :=
  List.getElem?_set_self (List.getElem?_eq_some_iff.mp h).1

theorem functionNames_put (h : r.functions[i]? = some g)
    (hname : g.signature.name = f.signature.name) :
    (r.put i f).functionNames = r.functionNames := by
  obtain ⟨hlt, rfl⟩ := List.getElem?_eq_some_iff.mp h
  have hlt' : i < r.functionNames.length := by simpa [functionNames] using hlt
  have hplace : r.functionNames[i] = f.signature.name := by simpa [functionNames] using hname
  rw [functionNames, put, List.map_set, ← hplace]
  exact List.set_getElem_self hlt'

theorem extends_put (d : Dialect) (h : r.functions[i]? = some g)
    (hsame : g.signature.sameSignature f.signature = true) : r.Extends d (r.put i f) := by
  have hnames := functionNames_put h (Function.sameSignature_iff.mp hsame).1
  have hbefore : r.Precedes (r.put i f) := ⟨List.prefix_rfl, List.prefix_rfl⟩
  refine hbefore.extended rfl (hnames ▸ List.prefix_rfl) (fun j g' hg' => ?_)
    fun name hmem hnew => absurd (hnames ▸ hmem) hnew
  by_cases hj : i = j
  · subst hj
    cases h.symm.trans hg'
    exact ⟨f, getElem?_put h, hsame⟩
  · exact ⟨g', (List.getElem?_set_ne hj).trans hg', g'.signature.sameSignature_self⟩

theorem extends_addGlobal (d : Dialect) (g : Global) :
    r.Extends d { r with globals := r.globals ++ [g] } :=
  (precedes_addGlobal g).extended rfl List.prefix_rfl
    (fun _ f hf => ⟨f, hf, f.signature.sameSignature_self⟩) fun _ hmem hnew => absurd hmem hnew

/-- A structure extends a registry if its name is new and not that of an intrinsic. -/
theorem extends_addStructure {s : Structure} (hfresh : r.Fresh d s.name)
    (hintrinsic : Intrinsic.isName d s.name = false) :
    r.Extends d { r with structures := r.structures ++ [s] } := by
  have hbefore : r.Precedes { r with structures := r.structures ++ [s] } :=
    ⟨List.prefix_rfl, List.prefix_append _ _⟩
  have hstruct {name : String} (hnone : r.struct? name = none) (hne : s.name ≠ name) :
      ({ r with structures := r.structures ++ [s] } : Registry).struct? name = none := by
    unfold struct? at hnone ⊢
    rw [List.find?_append, hnone, Option.none_or]
    exact List.find?_eq_none.mpr (List.forall_mem_singleton.mpr (by simpa using hne))
  refine ⟨fun _ _ => hbefore.global?, fun _ _ => hbefore.struct?, fun _ _ => hbefore.structIndex?,
    ?_, ?_⟩
  · intro name i f hfound hnone
    refine ⟨hstruct hnone fun hname => hfresh.unused ?_, f, hfound, f.signature.sameSignature_self⟩
    obtain ⟨hmem, hsame, -⟩ := getElem?_names_of_function? hfound
    exact List.mem_append_right _ (List.mem_map.mpr ⟨f, hmem, hsame.trans hname.symm⟩)
  · intro name hname hnone hfunction
    refine ⟨hstruct hnone fun hsame => ?_, hfunction⟩
    cases hintrinsic.symm.trans (hsame ▸ hname)

section Functions

variable {signature : ShaderBytecode.Function} {f : Ast.Function} {index : Nat}

theorem Places.extended (h : r.Places c signature f index r') (hname : signature.name = f.name) :
    r.Extends c.dialect r' := by
  have hbefore := h.precedes
  cases h with
  | again => exact .refl _ _
  | first hfound hfree hintrinsic =>
    refine hbefore.extended rfl (by simp [functionNames]) (fun i g hg => ⟨g, ?_, ?_⟩) ?_
    · exact (List.getElem?_append_left (List.getElem?_eq_some_iff.mp hg).1).trans hg
    · exact g.signature.sameSignature_self
    · intro name hmem hnew
      simp only [functionNames, List.map_append, List.map_singleton, List.mem_append,
        List.mem_singleton] at hmem hnew
      obtain hmem | rfl := hmem
      · exact absurd hmem hnew
      · exact hname ▸ hintrinsic

theorem Places.exists_getElem? (h : r.Places c signature f index r') :
    ∃ g, r'.functions[index]? = some g ∧ g.signature.sameSignature signature = true := by
  cases h with
  | again hfound hagain =>
    exact ⟨_, getElem?_of_function? hfound, (checkAgain_eq_ok_iff.mp hagain).1⟩
  | first => exact ⟨_, List.getElem?_concat_length, signature.sameSignature_self⟩

end Functions

theorem Registers.extended {part : Ast.Part} (h : r.Registers c part r')
    (hpart : ∀ s, part = .struct s → Intrinsic.isName c.dialect s.name = false) :
    r.Extends c.dialect r' := by
  cases h with
  | struct hname => exact extends_addStructure (fresh_of_checkName hname) (hpart _ rfl)
  | global => exact extends_addGlobal _ _
  | member => exact extends_addGlobal _ _
  | prototype hsignature hplace =>
    exact hplace.extended (Env.signatureOf_of_functionSignature hsignature).name
  | function hsignature hplace =>
    have hname := (Env.signatureOf_of_functionSignature hsignature).name
    obtain ⟨g, hg, hsame⟩ := hplace.exists_getElem?
    exact (hplace.extended hname).trans (extends_put _ hg hsame)

theorem Run.extended {parts : List Ast.Part} (h : Run c parts r r')
    (hparts : ∀ s, .struct s ∈ parts → Intrinsic.isName c.dialect s.name = false) :
    r.Extends c.dialect r' := by
  refine h.keeps (P := r.Extends c.dialect) (fun part hmem r₁ r₂ hpart hr₁ => ?_) (.refl _ _)
  exact hr₁.trans (hpart.extended fun s hs => hparts s (hs ▸ hmem))

end Typed.Registry

end ShaderBytecode
