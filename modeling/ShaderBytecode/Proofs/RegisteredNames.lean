import Mathlib.Data.List.Nodup
import ShaderBytecode.Proofs.ReadOnly

/-!
# The names of a program

The variables, structures and functions of a program share one space of names. Every part of a
source is checked against all that is registered before it, so no name is registered twice, and a
name finds the one entry that has it.
-/

namespace ShaderBytecode

open Typed (Registry)

/-! ## Names -/

namespace Typed.Registry

def names (r : Registry) : List String :=
  r.allGlobals.map (·.name) ++ r.structures.map (·.name) ++ r.functions.map (·.signature.name)

def declaredNames (r : Registry) : List String :=
  r.globals.map (·.symbol.name) ++ r.structures.map (·.name) ++ r.functions.map (·.signature.name)

/-- Names are distinct: those of the outermost level, of the members of a structure and of the
parameters of a function. None that is declared is that of a type, and no function has the name of
an intrinsic. -/
structure NamesApart (d : Dialect) (r : Registry) : Prop where
  distinct : r.names.Nodup
  types : ∀ name ∈ r.declaredNames, d.builtinType? name = none
  intrinsics : ∀ f ∈ r.functions, ∀ count, Intrinsic.lookup? d f.signature.name count = none
  members : ∀ s ∈ r.structures, (s.members.map (·.name)).Nodup
  parameters : ∀ f ∈ r.functions, (Env.givenNames f.signature.parameters).Nodup

structure Fresh (d : Dialect) (r : Registry) (name : String) : Prop where
  type : d.builtinType? name = none
  unused : name ∉ r.names

variable {d : Dialect} {c : Context} {r r' : Registry}

variable {name : String}

theorem not_mem_of_global?_eq_none (h : r.global? name = none) :
    name ∉ r.allGlobals.map (·.name) := by
  intro hmem
  obtain ⟨v, hv, hname⟩ := List.mem_map.mp hmem
  exact of_decide_eq_false (findPlace?_eq_none_iff.mp h v hv) hname

theorem not_mem_of_struct?_eq_none (h : r.struct? name = none) :
    name ∉ r.structures.map (·.name) := by
  intro hmem
  obtain ⟨s, hs, hname⟩ := List.mem_map.mp hmem
  exact List.find?_eq_none.mp h s hs (decide_eq_true hname)

theorem not_mem_of_function?_eq_none (h : r.function? name = none) :
    name ∉ r.functions.map (·.signature.name) := by
  intro hmem
  obtain ⟨f, hf, hname⟩ := List.mem_map.mp hmem
  exact ne_of_function?_eq_none h f hf hname

theorem fresh_of_checkName {span : Span} (h : (r.outer c).checkName name span = .ok ()) :
    r.Fresh c.dialect name := by
  unfold Env.checkName at h
  split at h
  · cases h
  · split at h
    · cases h
    · rename_i htype
      refine ⟨Option.not_isSome_iff_eq_none.mp htype, ?_⟩
      split at h
      · cases h
      · rename_i hunused
        unfold nameUse? at hunused
        simp only [] at hunused
        split at hunused
        · cases hunused
        · rename_i hstruct
          split at hunused
          · cases hunused
          · rename_i hglobal
            split at hunused
            · cases hunused
            · rename_i hfunction
              rw [Option.not_isSome_iff_eq_none] at hstruct hglobal hfunction
              simp only [names, List.mem_append, not_or]
              exact ⟨⟨not_mem_of_global?_eq_none hglobal, not_mem_of_struct?_eq_none hstruct⟩,
                not_mem_of_function?_eq_none hfunction⟩

theorem NamesApart.add (hr : r.NamesApart d) (hfresh : r.Fresh d name)
    (hnames : r'.names.Perm (name :: r.names))
    (hdeclared : r'.declaredNames.Perm (name :: r.declaredNames)) :
    r'.names.Nodup ∧ ∀ n ∈ r'.declaredNames, d.builtinType? n = none := by
  refine ⟨hnames.nodup_iff.mpr (List.nodup_cons.mpr ⟨hfresh.unused, hr.distinct⟩), fun n hn => ?_⟩
  obtain rfl | hn := List.mem_cons.mp (hdeclared.mem_iff.mp hn)
  · exact hfresh.type
  · exact hr.types n hn

theorem perm_append_concat (front names : List String) (name : String) :
    (front ++ (names ++ [name])).Perm (name :: (front ++ names)) := by
  rw [← List.append_assoc]
  exact List.perm_append_singleton name (front ++ names)

theorem NamesApart.addGlobal {g : Global} (hr : r.NamesApart d)
    (hfresh : r.Fresh d g.symbol.name) :
    ({ r with globals := r.globals ++ [g] } : Registry).NamesApart d := by
  have hnames : ({ r with globals := r.globals ++ [g] } : Registry).names.Perm
      (g.symbol.name :: r.names) := by
    simp only [names, allGlobals, List.map_append, List.map_singleton]
    exact ((perm_append_concat ..).append_right _).append_right _
  have hdeclared : ({ r with globals := r.globals ++ [g] } : Registry).declaredNames.Perm
      (g.symbol.name :: r.declaredNames) := by
    simp only [declaredNames, List.map_append, List.map_singleton]
    exact ((List.perm_append_singleton ..).append_right _).append_right _
  obtain ⟨hdistinct, htypes⟩ := hr.add hfresh hnames hdeclared
  exact ⟨hdistinct, htypes, hr.intrinsics, hr.members, hr.parameters⟩

theorem NamesApart.addStructure {s : Structure} (hr : r.NamesApart d) (hfresh : r.Fresh d s.name)
    (hmembers : (s.members.map (·.name)).Nodup) :
    ({ r with structures := r.structures ++ [s] } : Registry).NamesApart d := by
  have hnames : ({ r with structures := r.structures ++ [s] } : Registry).names.Perm
      (s.name :: r.names) := by
    simp only [names, List.map_append, List.map_singleton]
    exact (perm_append_concat ..).append_right _
  have hdeclared : ({ r with structures := r.structures ++ [s] } : Registry).declaredNames.Perm
      (s.name :: r.declaredNames) := by
    simp only [declaredNames, List.map_append, List.map_singleton]
    exact (perm_append_concat ..).append_right _
  obtain ⟨hdistinct, htypes⟩ := hr.add hfresh hnames hdeclared
  exact ⟨hdistinct, htypes, hr.intrinsics,
    List.forall_mem_append.mpr ⟨hr.members, List.forall_mem_singleton.mpr hmembers⟩, hr.parameters⟩

theorem getElem?_names_of_function? {index : Nat} {f : Typed.Function}
    (h : r.function? name = some (index, f)) : f ∈ r.functions ∧ f.signature.name = name
      ∧ (r.functions.map (·.signature.name))[index]? = some name := by
  obtain ⟨hmem, hpasses⟩ := passes_of_findPlace? h
  have hname : f.signature.name = name := of_decide_eq_true hpasses
  refine ⟨hmem, hname, ?_⟩
  rw [List.getElem?_map, getElem?_of_function? h, Option.map_some, hname]

section Functions

variable {signature : ShaderBytecode.Function} {f : Ast.Function} {index : Nat}

theorem Places.getElem?_names (h : r.Places c signature f index r')
    (hname : signature.name = f.name) :
    (r'.functions.map (·.signature.name))[index]? = some f.name := by
  cases h with
  | again hfound => exact (getElem?_names_of_function? hfound).2.2
  | first =>
    rw [List.map_append, List.map_singleton, hname]
    have hlength : (r.functions.map (·.signature.name)).length = r.functions.length :=
      List.length_map _
    exact hlength ▸ List.getElem?_concat_length

theorem Places.map_set (h : r.Places c signature f index r') (hname : signature.name = f.name)
    (definition : Option Definition) (span : Span) :
    (r'.functions.set index ⟨signature, definition, span⟩).map (·.signature.name)
      = r'.functions.map (·.signature.name) := by
  have hplace := h.getElem?_names hname
  obtain ⟨hlt, hplace⟩ := List.getElem?_eq_some_iff.mp hplace
  rw [List.map_set, hname, ← hplace, List.set_getElem_self]

theorem Places.lookup?_eq_none (h : r.Places c signature f index r')
    (hr : r.NamesApart c.dialect) (count : Nat) :
    Intrinsic.lookup? c.dialect f.name count = none := by
  cases h with
  | again hfound =>
    obtain ⟨hmem, hname, -⟩ := getElem?_names_of_function? hfound
    exact hname ▸ hr.intrinsics _ hmem count
  | first _ _ hintrinsic => exact Intrinsic.lookup?_eq_none hintrinsic count

theorem Places.names (h : r.Places c signature f index r') (hname : signature.name = f.name)
    (hr : r.NamesApart c.dialect) :
    r'.names.Nodup ∧ ∀ n ∈ r'.declaredNames, c.dialect.builtinType? n = none := by
  cases h with
  | again => exact ⟨hr.distinct, hr.types⟩
  | first _ hfree _ =>
    refine hr.add (fresh_of_checkName hfree) ?_ ?_
    · simp only [Registry.names, List.map_append, List.map_singleton, hname]
      exact perm_append_concat ..
    · simp only [declaredNames, List.map_append, List.map_singleton, hname]
      exact perm_append_concat ..

end Functions

theorem Registers.namesApart {part : Ast.Part} (h : r.Registers c part r')
    (hr : r.NamesApart c.dialect) : r'.NamesApart c.dialect := by
  have hintrinsics := h.forall_functions hr.intrinsics
    fun f signature _ _ _ _ hsignature hplace _ count => by
      rw [(Env.signatureOf_of_functionSignature hsignature).name]
      exact hplace.lookup?_eq_none hr count
  have hparameters := h.forall_functions hr.parameters fun f signature _ _ _ _ hsignature _ _ =>
    (Env.signatureOf_of_functionSignature hsignature).names
  cases h with
  | struct hname hmembers =>
    obtain ⟨added, rfl, -, hnodup⟩ := Env.structMembers_gives [] _ _ hmembers
    exact hr.addStructure (fresh_of_checkName hname) (hnodup List.nodup_nil)
  | global htype hname hstorage hvalue => exact hr.addGlobal (fresh_of_checkName hname)
  | member htype hname => exact hr.addGlobal (fresh_of_checkName hname)
  | prototype hsignature hplace hbody =>
    have hnames := hplace.names (Env.signatureOf_of_functionSignature hsignature).name hr
    exact ⟨hnames.1, hnames.2, hintrinsics, hplace.rest.2 ▸ hr.members, hparameters⟩
  | function hsignature hplace hbody hd =>
    have hname := (Env.signatureOf_of_functionSignature hsignature).name
    have hnames := hplace.names hname hr
    refine ⟨?_, ?_, hintrinsics, hplace.rest.2 ▸ hr.members, hparameters⟩
    · rw [Registry.names, hplace.map_set hname]
      exact hnames.1
    · rw [declaredNames, hplace.map_set hname]
      exact hnames.2

theorem namesApart_start (d : Dialect) (stage : Stage) :
    ({ builtins := stageVariables d stage } : Registry).NamesApart d where
  distinct := by cases d <;> cases stage <;> decide
  types := List.forall_mem_nil _
  intrinsics := List.forall_mem_nil _
  members := List.forall_mem_nil _
  parameters := List.forall_mem_nil _

end Typed.Registry

/-! ## Programs -/

/-- Names are distinct: those of the variables, structures and functions among each other, of the
members of a structure and of the parameters of a function that have one. None that the source
declares is that of a type, and no function has the name of an intrinsic. -/
structure Program.NamesApart (d : Dialect) (p : Program) : Prop where
  distinct : (p.builtins.map (·.name) ++ p.globals.map (·.name) ++ p.structures.map (·.name)
    ++ p.functions.map (·.name)).Nodup
  types : ∀ name ∈ p.globals.map (·.name) ++ p.structures.map (·.name) ++ p.functions.map (·.name),
    d.builtinType? name = none
  intrinsics : ∀ f ∈ p.functions, ∀ count, Intrinsic.lookup? d f.name count = none
  members : ∀ s ∈ p.structures, (s.members.map (·.name)).Nodup
  parameters : ∀ f ∈ p.functions, ((f.parameters.map (·.name)).filter (!·.isEmpty)).Nodup

section Emitted

variable {d : Dialect} {r : Registry} {e : Emitted} {markers : Bool}

theorem map_name_of_emit (h : r.emit markers = .ok e) :
    e.functions.map (·.name) = r.functions.map (·.signature.name) := by
  have hfunctions := forall₂_functions_of_emit h
  generalize r.functions = gs at hfunctions ⊢
  generalize e.functions = fs at hfunctions ⊢
  induction hfunctions with
  | nil => rfl
  | cons hfirst _ ih =>
    obtain ⟨routine, rfl⟩ := hfirst
    rw [List.map_cons, List.map_cons, ih]
    rfl

/-- The names of a program are apart as those of the registries it is made from. -/
theorem Typed.Registry.NamesApart.program (hr : r.NamesApart d) (h : r.emit markers = .ok e)
    (stage : Stage) (entryPoint : String) :
    (Program.ofEmitted r stage entryPoint e).NamesApart d where
  distinct := by
    have hdistinct := hr.distinct
    simp only [Typed.Registry.names, Typed.Registry.allGlobals, List.map_append] at hdistinct
    rw [Program.ofEmitted, map_name_of_emit h]
    exact hdistinct
  types := by
    have htypes := hr.types
    simp only [Typed.Registry.declaredNames] at htypes
    rw [Program.ofEmitted, map_name_of_emit h, List.map_map]
    exact htypes
  intrinsics := by
    intro f hf count
    obtain ⟨g, hg, routine, rfl⟩ := exists_of_mem_right (forall₂_functions_of_emit h) hf
    exact hr.intrinsics g hg count
  members := hr.members
  parameters := by
    intro f hf
    obtain ⟨g, hg, routine, rfl⟩ := exists_of_mem_right (forall₂_functions_of_emit h) hf
    exact hr.parameters g hg

end Emitted

namespace Program.NamesApart

variable {d : Dialect} {p : Program}

theorem globalIndex? (h : p.NamesApart d) {i : Nat} {v : Variable}
    (hv : (p.builtins ++ p.globals)[i]? = some v) : p.globalIndex? v.name = some i := by
  have hnodup : ((p.builtins ++ p.globals).map (·.name)).Nodup := by
    rw [List.map_append]
    exact (h.distinct.sublist (List.sublist_append_left _ _)).sublist
      (List.sublist_append_left _ _)
  obtain ⟨hlt, rfl⟩ := List.getElem?_eq_some_iff.mp hv
  refine List.findIdx?_eq_some_iff_getElem.mpr ⟨hlt, decide_eq_true rfl, fun j hj hsame => ?_⟩
  have hj' : j < (p.builtins ++ p.globals).length := Nat.lt_trans hj hlt
  have hnames : ((p.builtins ++ p.globals).map (·.name))[j]?
      = ((p.builtins ++ p.globals).map (·.name))[i]? := by
    rw [List.getElem?_map, List.getElem?_map, List.getElem?_eq_getElem hj',
      List.getElem?_eq_getElem hlt]
    exact congrArg some (of_decide_eq_true hsame)
  exact Nat.ne_of_lt hj ((List.getElem?_inj (by rwa [List.length_map]) hnodup).mp hnames)

theorem eq_of_name_eq (h : p.NamesApart d) {f g : Function} (hf : f ∈ p.functions)
    (hg : g ∈ p.functions) (hname : g.name = f.name) : g = f :=
  List.inj_on_of_nodup_map (h.distinct.sublist (List.sublist_append_right _ _)) hg hf hname

theorem function? (h : p.NamesApart d) {f : Function} (hf : f ∈ p.functions) :
    p.function? f.name = some f := by
  have hsome : (p.function? f.name).isSome = true := by
    rw [Program.function?, List.find?_isSome]
    exact ⟨f, hf, decide_eq_true rfl⟩
  obtain ⟨g, hg⟩ := Option.isSome_iff_exists.mp hsome
  have hname : g.name = f.name :=
    of_decide_eq_true (List.find?_some (p := fun x : Function => decide (x.name = f.name)) hg)
  rw [hg, h.eq_of_name_eq hf (List.mem_of_find?_eq_some hg) hname]

end Program.NamesApart

/-! ## Functions with locals -/

namespace Typed.Registry

variable {r : Registry}

/-- The names under which locals are listed: those of the functions that have some. -/
theorem mem_map_localNames {name : String} : name ∈ r.localNames.map (·.1) ↔
    ∃ f ∈ r.functions, f.signature.name = name ∧ ∃ d ∈ f.definition, d.locals ≠ [] := by
  simp only [List.mem_map, localNames, List.mem_filterMap, Option.bind_eq_bind,
    Option.bind_eq_some_iff, Option.ite_none_left_eq_some, Option.some.injEq, List.isEmpty_iff]
  constructor
  · rintro ⟨_, ⟨f, hf, d, hd, hlocals, rfl⟩, rfl⟩
    exact ⟨f, hf, rfl, d, hd, hlocals⟩
  · rintro ⟨f, hf, rfl, d, hd, hlocals⟩
    exact ⟨_, ⟨f, hf, d, hd, hlocals, rfl⟩, rfl⟩

theorem map_localNames_sublist (fs : List Typed.Function) :
    ((fs.filterMap Function.localNames?).map (·.1)).Sublist (fs.map (·.signature.name)) := by
  induction fs with
  | nil => exact .slnil
  | cons f rest ih =>
    rw [List.map_cons]
    cases hnames : f.localNames? with
    | none =>
      rw [List.filterMap_cons_none hnames]
      exact ih.cons _
    | some pair =>
      rw [List.filterMap_cons_some hnames, List.map_cons]
      obtain ⟨d, -, hsome⟩ := Option.bind_eq_some_iff.mp hnames
      obtain ⟨-, hpair⟩ := Option.ite_none_left_eq_some.mp hsome
      cases hpair
      exact ih.cons_cons _

end Typed.Registry

end ShaderBytecode
