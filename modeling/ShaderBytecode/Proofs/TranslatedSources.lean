import ShaderBytecode.Proofs.TranslatedBodies
import Mathlib.Data.List.Forall2

/-!
# Translated sources

The declarations of a source that are spelled anew are typed as the declarations are, and register
the same things under their new names.
-/

namespace ShaderBytecode

open Typed (Registry)

/-! ## Remarks -/

def Remark.rename (name : String → String) : Remark → Remark
  | .ignoredPragma => .ignoredPragma
  | .hiddenGlobal n => .hiddenGlobal (name n)
  | .unusedLocal n => .unusedLocal (name n)
  | .missingReturn f => .missingReturn (name f)

namespace Typed

variable {m : Relabelling}

theorem Mention.contains_slot_relabel (mentions : List Mention) (slot : Nat) :
    (mentions.map (relabel m)).contains (.slot slot) = mentions.contains (.slot slot) := by
  induction mentions with
  | nil => rfl
  | cons first rest ih =>
    rw [List.map_cons, List.contains_cons, List.contains_cons, ih]
    cases first <;> rfl

mutual

theorem Statement.returns_relabel : (s : Statement) → (s.relabel m).returns = s.returns
  | .returnFrom _ _ | .discardPixel _ | .expr _ _ | .declare _ _ _ | .loop _ _ _ _
  | .doLoop _ _ _ | .leave _ _ => rfl
  | .ifElse _ whenTrue whenFalse _ => by
    simp only [Statement.relabel, Statement.returns, definitelyReturns_relabelAll whenTrue,
      definitelyReturns_relabelAll whenFalse]
  | .block body => definitelyReturns_relabelAll body

theorem definitelyReturns_relabelAll : (body : List Statement) →
    definitelyReturns (Statement.relabelAll m body) = definitelyReturns body
  | [] => rfl
  | [last] => last.returns_relabel
  | _ :: next :: rest => definitelyReturns_relabelAll (next :: rest)

end

end Typed

namespace Translation

variable {T : Translation}

def remark (T : Translation) (r : Located Remark) : Located Remark :=
  ⟨r.value.rename T.name, T.spelling.span r.span⟩

theorem hiddenRemarks_frames (frame : List FrameLocal) :
    hiddenRemarks (frame.map T.frameLocal) = (hiddenRemarks frame).map T.remark := by
  simp only [hiddenRemarks, List.filter_map, List.map_map]
  rfl

theorem unusedRemarks_frames (count : Nat) (frame : List FrameLocal)
    (body : List Typed.Statement) :
    unusedRemarks count (frame.map T.frameLocal) (Typed.Statement.relabelAll T.labels body)
      = (unusedRemarks count frame body).map T.remark := by
  simp only [unusedRemarks, Typed.Statement.mentionsAll_relabelAll, List.zipIdx_map,
    List.filter_map, List.map_map, Function.comp_def, Typed.Mention.contains_slot_relabel]
  rfl

/-! ## Steps -/

/-- States with the same registries and remarks under the old and the new names. -/
structure States (T : Translation) (s s' : ModuleState) : Prop where
  registered : T.Registered s.registry
  registry : s'.registry = T.registry s.registry
  remarks : s'.remarks = s.remarks.map T.remark

section FollowsOn

variable {α β : Type} {R : α → β → Prop}

/-- A step of typing a translated source does what the step of the source does. -/
abbrev FollowsOn (T : Translation) (R : α → β → Prop) (x : ModuleM α) (x' : ModuleM β) : Prop :=
  T.FollowsFrom T.States R x x'

theorem followsOn_ofCheck {c : Check α} {c' : Check β} (h : T.Follows R c c') :
    T.FollowsOn R (ModuleM.ofCheck c) (ModuleM.ofCheck c') :=
  followsFrom_check h

theorem followsOn_env :
    T.FollowsOn (fun e e' => e' = T.env e ∧ T.Fits e) (ModuleM.env T.context)
      (ModuleM.env T.target) := by
  intro s s' hstates
  refine ⟨⟨?_, rfl, hstates.registered, nofun⟩, hstates⟩
  simp only [env, hstates.registry]
  rfl

theorem followsOn_update {f f' : Registry → Registry}
    (h : ∀ r, T.Registered r → T.Registered (f r) ∧ f' (T.registry r) = T.registry (f r)) :
    T.FollowsOn (fun _ _ => True) (ModuleM.update f) (ModuleM.update f') := by
  intro s s' hstates
  obtain ⟨hregistered, hregistry⟩ := h s.registry hstates.registered
  refine ⟨trivial, hregistered, ?_, hstates.remarks⟩
  rw [← hregistry, ← hstates.registry]

theorem followsOn_remark (remarks : List (Located Remark)) :
    T.FollowsOn (fun _ _ => True) (ModuleM.remark remarks)
      (ModuleM.remark (remarks.map T.remark)) := by
  intro s s' hstates
  refine ⟨trivial, hstates.registered, hstates.registry, ?_⟩
  show s'.remarks ++ _ = (s.remarks ++ remarks).map T.remark
  rw [hstates.remarks, List.map_append]

/-- A step that is refused after remarks, for a reason that is excused. -/
theorem followsOn_excused {x : ModuleM α} {e : Located TypingFault}
    (h : T.Excused e.value) (remarks : List (Located Remark)) :
    T.FollowsOn R x (ModuleM.remark remarks >>= fun _ => throw e) := by
  intro s s' _
  cases x s with
  | ok a t => exact h
  | error e' t =>
    have hlax := not_strict h.1
    exact ⟨fun hstrict => absurd hstrict hlax, faults_of_lax hlax _ _⟩

/-- Nothing is said about a step that is refused after remarks if more is accepted. -/
theorem followsOn_lax (h : ¬T.Strict) (remarks : List (Located Remark))
    (e : Located TypingFault) (x : ModuleM β) :
    T.FollowsOn R (ModuleM.remark remarks >>= fun _ => throw e) x := by
  intro s s' _
  cases x s' with
  | ok b t => exact h
  | error e' t => exact ⟨fun hstrict => absurd hstrict h, faults_of_lax h _ _⟩

end FollowsOn

/-! ## Names and types -/

variable {e : Env}

variable {n : String} {f : Ast.Function} {signature signature' : Function}

theorem builtinType?_declared (hn : T.Declares n) :
    (T.dialect.builtinType? (T.name n)).isSome = (T.context.dialect.builtinType? n).isSome := by
  rw [← word_declared hn]
  cases htype : T.context.dialect.builtinType? n with
  | none => rw [T.word_typeless (.inr hn) htype]
  | some type => rw [T.word_type htype]

theorem checkName_follows (he : T.Fits e) (hn : T.Declares n) (span : Span) :
    T.Follows (fun _ _ => True) (e.checkName n span)
      ((T.env e).checkName (T.spelling.word n) (T.spelling.span span)) := by
  have huse := he.registry.nameUse? hn
  unfold Env.checkName
  rw [word_declared hn, he.context, show (T.env e).registry = T.registry e.registry from rfl, huse,
    show (T.env e).context.dialect = T.dialect from rfl, builtinType?_declared hn, T.reserved hn]
  refine follows_unless Iff.rfl rfl ?_ fun _ => ?_
  · intro hexact
    rw [hexact.name]
  refine follows_unless Iff.rfl rfl ?_ fun _ => ?_
  · intro hexact
    rw [hexact.name]
  cases e.registry.nameUse? n with
  | none => exact follows_ok trivial
  | some use => exact follows_fail rfl fun hexact => by rw [hexact.name]

theorem map_label {label : Option String} (h : T.AdmitsAll (Ast.labelUses label)) :
    label.map T.spelling.word = label := by
  cases label with
  | none => rfl
  | some w => exact congrArg some (T.word_label (admitsAll_cons.mp h).1)

theorem map_layout {layout : List LayoutEntry}
    (h : T.AdmitsAll (layout.map fun entry => .labels entry.name)) :
    layout.map T.spelling.layoutEntry = layout := by
  refine (List.map_congr_left fun entry hentry => ?_).trans (List.map_id layout)
  have hlabel : T.Labels entry.name :=
    h (.labels entry.name) (List.mem_map.mpr ⟨entry, hentry, rfl⟩)
  simp only [Respelling.layoutEntry, T.word_label hlabel, id]

theorem structMembers_follows (he : T.Fits e) {s s' : String} (hs : T.Exact → s' = s)
    {ms : List Ast.Member} (h : T.AdmitsAll (ms.flatMap (Ast.Member.uses .labels)))
    (found : List Member) :
    T.Follows (fun x x' => x' = x.map (Member.rename T.name)) (structMembers e s found ms)
      (structMembers (T.env e) s' (found.map (Member.rename T.name))
        (ms.map (Ast.Member.respell T.spelling))) := by
  induction ms generalizing found with
  | nil => exact follows_ok rfl
  | cons m rest ih =>
    rw [List.flatMap_cons] at h
    obtain ⟨hm, hrest⟩ := admitsAll_append.mp h
    obtain ⟨hlabel, hsemantic⟩ := admitsAll_cons.mp hm
    rw [List.map_cons, structMembers, structMembers]
    refine (resolveValueType_follows he m.type m.length .structMember).next fun type => ?_
    simp only [Ast.Member.respell, T.word_label hlabel, map_label hsemantic]
    refine follows_guard (DataType.rename_eq_sampler2D type) rfl (fun _ => rfl) fun _ => ?_
    refine follows_guard ?_ rfl (fun hexact => by rw [hs hexact]) fun _ => ?_
    · rw [List.any_map]
      exact Iff.rfl
    · have hnext := ih hrest (found ++ [⟨m.name, type, m.semantic⟩])
      rw [List.map_append] at hnext
      exact hnext

/-! ## Functions -/

theorem isEmpty_name (n : String) : (T.name n).isEmpty = n.isEmpty := by
  rw [Bool.eq_iff_iff, String.isEmpty_iff, String.isEmpty_iff]
  constructor
  · intro h
    exact T.name_injective (h.trans T.name_empty.symm)
  · rintro rfl
    exact T.name_empty

theorem Exact.parameters (h : T.Exact) (ps : List Parameter) :
    ps.map (Parameter.rename T.name) = ps := by
  refine (List.map_congr_left fun p _ => ?_).trans (List.map_id ps)
  simp only [Parameter.rename, h.rename, h.name, id]

theorem Exact.function (h : T.Exact) (f : Function) : f.rename T.name = f := by
  simp only [Function.rename, h.parameters, h.rename, h.name]

def Named (T : Translation) (ps : List Parameter) : Prop :=
  ∀ p ∈ ps, p.name = "" ∨ T.Declares p.name

theorem functionParameters_follows (he : T.Fits e) {f f' : String} (hf : T.Exact → f' = f)
    {ps : List Ast.Parameter} (h : T.AdmitsAll (ps.flatMap Ast.Parameter.uses))
    (found : List Parameter) (hfound : T.Named found) :
    T.Follows (fun x x' => x' = x.map (Parameter.rename T.name) ∧ T.Named x)
      (functionParameters e f found ps)
      (functionParameters (T.env e) f' (found.map (Parameter.rename T.name))
        (ps.map (Ast.Parameter.respell T.spelling))) := by
  induction ps generalizing found with
  | nil => exact follows_ok ⟨rfl, hfound⟩
  | cons p rest ih =>
    rw [List.flatMap_cons] at h
    obtain ⟨hp, hrest⟩ := admitsAll_append.mp h
    obtain ⟨hname, hsemantic⟩ := admitsAll_append.mp hp
    have hnamed : p.name.getD "" = "" ∨ T.Declares (p.name.getD "") := by
      cases hn : p.name with
      | none => exact .inl rfl
      | some n =>
        rw [hn] at hname
        exact .inr (admitsAll_cons.mp hname).1
    have hrenamed : (p.name.map T.spelling.word).getD "" = T.name (p.name.getD "") := by
      cases hn : p.name with
      | none => exact T.name_empty.symm
      | some n =>
        rw [hn] at hname
        exact word_declared (admitsAll_cons.mp hname).1
    rw [List.map_cons, functionParameters, functionParameters]
    refine (resolveValueType_follows he p.type p.length .parameter).next fun type => ?_
    simp only [Ast.Parameter.respell, hrenamed, map_label hsemantic, isEmpty_name]
    refine follows_guard ?_ rfl (fun _ => rfl) fun _ => ?_
    · simp only [DataType.rename_eq_sampler2D]
    refine follows_guard ?_ rfl (fun hexact => by rw [hf hexact, hexact.name]) fun _ => ?_
    · rw [List.any_map]
      simp only [Function.comp_def, Parameter.rename, T.name_injective.eq_iff]
    · have hnext := ih hrest (found ++ [⟨p.name.getD "", type, p.passing, p.semantic⟩])
        (List.forall_mem_append.mpr ⟨hfound, List.forall_mem_singleton.mpr hnamed⟩)
      rw [List.map_append] at hnext
      exact hnext

structure Signatures (T : Translation) (n : String) (x x' : Function) : Prop where
  renamed : x' = x.rename T.name
  named : T.Named x.parameters
  name : x.name = n

theorem functionSignature_follows (he : T.Fits e) (h : T.AdmitsAll f.uses) :
    T.Follows (T.Signatures f.name) (functionSignature e f)
      (functionSignature (T.env e) (f.respell T.spelling)) := by
  obtain ⟨hhead, -⟩ := admitsAll_append.mp h
  obtain ⟨hnames, hsemantic⟩ := admitsAll_append.mp hhead
  obtain ⟨hname, hparameters⟩ := admitsAll_cons.mp hnames
  refine (resolveType_follows he f.returnType none).next fun type => ?_
  refine (functionParameters_follows he (fun hexact => hexact.word f.name) hparameters []
    (List.forall_mem_nil _)).bind ?_
  rintro ps _ ⟨rfl, hnamed⟩
  refine follows_ok ⟨?_, hnamed, rfl⟩
  simp only [Ast.Function.respell, word_declared hname, map_label hsemantic]
  rfl

theorem sameSignature_rename (f g : Function) :
    (f.rename T.name).sameSignature (g.rename T.name) = f.sameSignature g := by
  have hmap : ∀ ps : List Parameter,
      (ps.map (Parameter.rename T.name)).map (fun p => (p.type, p.passing))
        = (ps.map fun p => (p.type, p.passing)).map fun shape =>
          (shape.1.rename T.name, shape.2) := by
    intro ps
    simp only [List.map_map]
    rfl
  have hshape : ∀ shapes shapes' : List (DataType × Passing),
      shapes.map (fun shape => (shape.1.rename T.name, shape.2))
          = shapes'.map (fun shape => (shape.1.rename T.name, shape.2))
        ↔ shapes = shapes' := by
    refine fun shapes shapes' => List.map_inj_right ?_
    rintro ⟨t, passing⟩ ⟨t', passing'⟩ heq
    obtain ⟨htype, hpassing⟩ := Prod.mk.inj heq
    exact Prod.ext (rename_inj.mp htype) hpassing
  simp only [Function.sameSignature, Function.rename, T.name_injective.eq_iff, rename_inj, hmap,
    hshape]

theorem checkAgain_follows (earlier : Typed.Function)
    (hsignature : T.Signatures n signature signature') (f : Ast.Function) :
    T.Follows (fun _ _ => True) (checkAgain earlier signature f)
      (checkAgain (earlier.relabel T.labels) signature' (f.respell T.spelling)) := by
  obtain ⟨rfl, -, -⟩ := hsignature
  unfold checkAgain
  have hsame : (earlier.relabel T.labels).signature.sameSignature (signature.rename T.name)
      = earlier.signature.sameSignature signature :=
    sameSignature_rename earlier.signature signature
  rw [hsame]
  refine follows_unless Iff.rfl rfl ?_ fun _ => ?_
  · intro hexact
    rw [hexact.function]
    exact congrArg _ (hexact.function earlier.signature)
  refine follows_unless ?_ rfl ?_ fun _ => follows_ok trivial
  · simp only [Typed.Function.relabel, Ast.Function.respell, Option.isSome_map]
  · exact fun hexact => congrArg _ (hexact.word f.name)

theorem parameterScope_rename (signature : Function) (ps : List Ast.Parameter) :
    parameterScope (signature.rename T.name) (ps.map (Ast.Parameter.respell T.spelling))
      = (parameterScope signature ps).map T.binding := by
  unfold parameterScope Function.rename
  simp only [List.zip_map, List.zipIdx_map, List.map_map, List.filter_map]
  refine congrArg₂ List.map rfl (congrArg (List.filter · _) (funext fun entry => ?_))
  exact congrArg not (isEmpty_name entry.1.1.name)

theorem inSight_parameterScope (h : T.Named signature.parameters) (ps : List Ast.Parameter) :
    T.InSight [[], parameterScope signature ps] := by
  refine List.forall_mem_cons.mpr ⟨nofun, List.forall_mem_singleton.mpr fun b hb => ?_⟩
  obtain ⟨hmem, hname⟩ := List.mem_filter.mp hb
  obtain ⟨⟨⟨p, declared⟩, slot⟩, hzip, rfl⟩ := List.mem_map.mp hmem
  have hp : p ∈ signature.parameters :=
    (List.of_mem_zip (List.fst_mem_of_mem_zipIdx hzip)).1
  obtain hempty | hdeclares := h p hp
  · simp [hempty] at hname
  · exact hdeclares

theorem functionIndex_follows (hf : T.Declares f.name)
    (hsignature : T.Signatures f.name signature signature') :
    T.FollowsOn (fun i i' => i' = i) (ModuleM.functionIndex T.context signature f)
      (ModuleM.functionIndex T.target signature' (f.respell T.spelling)) := by
  refine followsOn_env.bind ?_
  rintro e _ ⟨rfl, he⟩
  have hfunction := he.registry.function? (means_word f.name)
  rw [show (f.respell T.spelling).name = T.spelling.word f.name from rfl,
    show (T.env e).registry = T.registry e.registry from rfl, hfunction]
  cases hfound : e.registry.function? f.name with
  | some found =>
    refine (followsOn_ofCheck (checkAgain_follows found.2 hsignature f)).bind fun _ _ _ => ?_
    exact followsFrom_pure rfl
  | none =>
    refine (followsOn_ofCheck (checkName_follows he hf _)).bind fun _ _ _ => ?_
    have hregister : T.FollowsOn (fun i i' => i' = i)
        (do
          ModuleM.update fun r => { r with functions := r.functions ++ [⟨signature, none, f.span⟩] }
          return e.registry.functions.length)
        (do
          ModuleM.update fun r =>
            { r with functions := r.functions ++ [⟨signature', none, T.spelling.span f.span⟩] }
          return (T.registry e.registry).functions.length) := by
      refine (followsOn_update fun r hr => ?_).bind fun _ _ _ => followsFrom_pure ?_
      · refine ⟨⟨hr.builtins, hr.globals, hr.structures, ?_, hr.across⟩, ?_⟩
        · refine List.forall_mem_append.mpr ⟨hr.functions, List.forall_mem_singleton.mpr ?_⟩
          rw [hsignature.name]
          exact hf
        · simp only [registry, Registry.relabel, List.map_append, List.map_cons, List.map_nil,
            hsignature.renamed]
          rfl
      · simp only [registry, Registry.relabel, List.length_map]
    refine followsFrom_ite ?_ ?_ hregister
    · rw [word_declared hf, show T.target.dialect = T.dialect from rfl, T.isName hf]
    · have hfaults : T.Faults ⟨.intrinsicName f.name, f.span⟩
          ⟨.intrinsicName (T.spelling.word f.name), T.spelling.span f.span⟩ :=
        ⟨fun hexact => congrArg TypingFault.intrinsicName (hexact.word f.name), fun _ => rfl,
          fun _ => .inl rfl⟩
      exact (followsFrom_throw (R := fun _ _ => True) hfaults).bind fun _ _ _ => hregister

theorem zeroResult_follows (type : DataType) :
    T.FollowsOn (fun t t' => t' = t.map T.expr) (ModuleM.zeroResult T.context type)
      (ModuleM.zeroResult T.target (type.rename T.name)) := by
  unfold ModuleM.zeroResult
  rw [DataType.isVoid_rename]
  refine followsFrom_ite Iff.rfl (followsFrom_pure rfl) ?_
  refine followsOn_env.bind ?_
  rintro e _ ⟨rfl, -⟩
  exact (followsOn_ofCheck (code_follows type)).next fun code => followsFrom_pure rfl

theorem functionBody_follows (hname : T.Declares f.name)
    (hsignature : T.Signatures f.name signature signature') {body : Ast.Body}
    (hbody : T.AdmitsAll body.uses) :
    T.FollowsOn (fun d d' => d' = d.relabel T.labels)
      (ModuleM.functionBody T.context signature f body)
      (ModuleM.functionBody T.target signature' (f.respell T.spelling)
        (body.respell T.spelling)) := by
  obtain ⟨rfl, hnamed, -⟩ := hsignature
  refine followsOn_env.bind ?_
  rintro e _ ⟨rfl, he⟩
  have hstatements := statements_follows
    (b := ⟨T.context, e.registry, signature.parameters.length, signature.returnType⟩)
    ⟨rfl, he.registry⟩ false [[], parameterScope signature f.parameters]
    (inSight_parameterScope hnamed f.parameters) body.statements hbody
  have hscopes : T.scopes [[], parameterScope signature f.parameters]
      = [[], parameterScope (signature.rename T.name) (f.respell T.spelling).parameters] := by
    rw [show (f.respell T.spelling).parameters
      = f.parameters.map (Ast.Parameter.respell T.spelling) from rfl, parameterScope_rename]
    rfl
  have hcount : (signature.rename T.name).parameters.length = signature.parameters.length :=
    List.length_map _
  rw [hscopes, Ast.Statement.respellAll_eq_map] at hstatements
  -- Both bodies start from an empty frame.
  have hresults := hstatements [] [] rfl
  simp only [Translation.body] at hresults
  simp only [hcount, EStateM.run, show (T.env e).registry = T.registry e.registry from rfl,
    show (body.respell T.spelling).statements
      = body.statements.map (Ast.Statement.respell T.spelling) from rfl,
    show (signature.rename T.name).returnType = signature.returnType.rename T.name from rfl]
  revert hresults
  generalize BodyEnv.statements ⟨T.context, e.registry, _, _⟩ _ _ _ _ = outcome
  generalize BodyEnv.statements ⟨T.target, _, _, _⟩ _ _ _ _ = outcome'
  intro hresults
  cases outcome with
  | error fault g =>
    cases outcome' with
    | error fault' g' =>
      by_cases hstrict : T.Strict
      · cases hresults.1 hstrict
        simp only [hiddenRemarks_frames]
        exact (followsOn_remark _).bind fun _ _ _ => followsFrom_throw hresults.2
      · exact followsOn_lax hstrict _ _ _
    | ok statements' g' => exact followsOn_lax hresults _ _ _
  | ok statements g =>
    cases outcome' with
    | error fault' g' => exact followsOn_excused hresults _
    | ok statements' g' =>
      obtain ⟨hrelabelled, hframes⟩ := hresults
      cases hrelabelled
      cases hframes
      have hresult : T.FollowsOn (fun d d' => d' = d.relabel T.labels)
          (do
            let zero ← ModuleM.zeroResult T.context signature.returnType
            return Typed.Definition.mk (g.map (·.name)) statements zero)
          (do
            let zero ← ModuleM.zeroResult T.target (signature.returnType.rename T.name)
            return Typed.Definition.mk ((g.map T.frameLocal).map (·.name))
              (Typed.Statement.relabelAll T.labels statements) zero) := by
        refine (zeroResult_follows signature.returnType).next fun zero => ?_
        refine followsFrom_pure ?_
        simp only [Typed.Definition.relabel, List.map_map]
        rfl
      have hmisses : missesReturn (signature.returnType.rename T.name)
          (Typed.Statement.relabelAll T.labels statements)
          = missesReturn signature.returnType statements := by
        simp only [missesReturn, DataType.isVoid_rename, Typed.definitelyReturns_relabelAll]
      have hmissing : (⟨.missingReturn (f.respell T.spelling).name, (body.respell T.spelling).span⟩
          : Located Remark) = T.remark ⟨.missingReturn f.name, body.span⟩ :=
        congrArg (fun n => Located.mk (Remark.missingReturn n) (T.spelling.span body.span))
          (word_declared hname)
      simp only [hiddenRemarks_frames, unusedRemarks_frames, ← List.map_append, hmisses, hmissing]
      refine (followsOn_remark _).bind fun _ _ _ => followsFrom_ite Iff.rfl ?_ hresult
      exact (followsOn_remark [_]).bind fun _ _ _ => hresult

theorem function_follows (h : T.AdmitsAll f.uses) :
    T.FollowsOn (fun _ _ => True) (ModuleM.function T.context f)
      (ModuleM.function T.target (f.respell T.spelling)) := by
  obtain ⟨hhead, hbody⟩ := admitsAll_append.mp h
  have hname : T.Declares f.name := (admitsAll_cons.mp (admitsAll_append.mp hhead).1).1
  refine followsOn_env.bind ?_
  rintro e _ ⟨rfl, he⟩
  refine (followsOn_ofCheck (functionSignature_follows he h)).bind
    fun signature signature' hsignature => ?_
  refine (functionIndex_follows hname hsignature).bind ?_
  rintro _ index rfl
  rw [show (f.respell T.spelling).body = f.body.map (Ast.Body.respell T.spelling) from rfl]
  cases hdefined : f.body with
  | none => exact followsFrom_pure trivial
  | some body =>
    rw [hdefined] at hbody
    refine (functionBody_follows hname hsignature hbody).next fun definition => ?_
    refine followsOn_update fun r hr =>
      ⟨⟨hr.builtins, hr.globals, hr.structures, fun g hg => ?_, hr.across⟩, ?_⟩
    · obtain hold | rfl := List.mem_or_eq_of_mem_set hg
      · exact hr.functions g hold
      · rw [hsignature.name]
        exact hname
    · simp only [registry, Registry.relabel, List.map_set, hsignature.renamed]
      rfl

/-! ## Structures and variables -/

theorem struct_follows {s : Ast.Structure} (h : T.AdmitsAll s.uses) :
    T.FollowsOn (fun _ _ => True) (ModuleM.struct T.context s)
      (ModuleM.struct T.target (s.respell T.spelling)) := by
  obtain ⟨hname, hmembers⟩ := admitsAll_cons.mp h
  refine followsOn_env.bind ?_
  rintro e _ ⟨rfl, he⟩
  refine (followsOn_ofCheck (checkName_follows he hname _)).bind fun _ _ _ => ?_
  refine (followsOn_ofCheck (structMembers_follows he (fun hexact => hexact.word s.name) hmembers
    [])).next fun members => ?_
  refine followsOn_update fun r hr => ⟨⟨hr.builtins, hr.globals, ?_, hr.functions, hr.across⟩, ?_⟩
  · exact List.forall_mem_append.mpr ⟨hr.structures, List.forall_mem_singleton.mpr hname⟩
  · simp only [registry, Registry.relabel, List.map_append, List.map_cons, List.map_nil,
      Structure.rename, labels, Ast.Structure.respell, word_declared hname]

theorem checkStorage_follows (hsame : T.Same) (type : DataType) (storage : Option Storage)
    (d : Ast.Declarator) :
    T.Follows (fun _ _ => True) (checkStorage T.context type storage d)
      (checkStorage T.target (type.rename T.name) storage (d.respell T.spelling)) := by
  have hfault : ∀ fault : String → TypingFault, T.Exact → fault (T.spelling.word d.name)
      = fault d.name := fun fault hexact => congrArg fault (hexact.word d.name)
  have hrule : stageRule? T.target storage = stageRule? T.context storage := by
    unfold stageRule? target
    rw [← show T.context.dialect = T.dialect from hsame]
  unfold checkStorage
  rw [hrule, show T.target.dialect = T.context.dialect from hsame.symm,
    show T.target.stage = T.context.stage from rfl]
  simp only [Ast.Declarator.respell, Option.isNone_map, Option.isSome_map]
  have hchecks : T.Follows (fun _ _ => True)
      (do
        if type = .sampler2D && !allowsSampler T.context.dialect storage then
          Check.fail d.span (.samplerStorage d.name)
        if storage = some .const && d.initializer.isNone then
          Check.fail d.span (.constUninitialized d.name)
        if d.initializer.isSome && !allowsInitializer T.context.dialect storage then
          Check.fail d.span (.initializerForbidden d.name storage))
      (do
        if type.rename T.name = .sampler2D && !allowsSampler T.context.dialect storage then
          Check.fail (T.spelling.span d.span) (.samplerStorage (T.spelling.word d.name))
        if storage = some .const && d.initializer.isNone then
          Check.fail (T.spelling.span d.span) (.constUninitialized (T.spelling.word d.name))
        if d.initializer.isSome && !allowsInitializer T.context.dialect storage then
          Check.fail (T.spelling.span d.span)
            (.initializerForbidden (T.spelling.word d.name) storage)) := by
    refine follows_guard ?_ rfl (hfault _) fun _ => ?_
    · simp only [DataType.rename_eq_sampler2D]
    refine follows_guard Iff.rfl rfl (hfault _) fun _ => ?_
    refine follows_unless Iff.rfl rfl ?_ fun _ => follows_ok trivial
    exact hfault fun n => .initializerForbidden n storage
  cases stageRule? T.context storage with
  | none => exact hchecks
  | some rule => exact follows_fail rfl (hfault fun n => .storageStage rule n T.context.stage)

theorem addGlobal_follows (hsame : T.Same) {g : Typed.Global} (h : T.Declares g.symbol.name) :
    T.FollowsOn (fun _ _ => True) (ModuleM.addGlobal g)
      (ModuleM.addGlobal (g.relabel T.labels)) := by
  refine followsOn_update fun r hr =>
    ⟨⟨hr.builtins, ?_, hr.structures, hr.functions, fun hother => absurd hsame hother⟩, ?_⟩
  · exact List.forall_mem_append.mpr ⟨hr.globals, List.forall_mem_singleton.mpr h⟩
  · simp only [registry, Registry.relabel, List.map_append, List.map_cons, List.map_nil]

theorem globalVariable_follows (hsame : T.Same) {v : Ast.Variables} {d : Ast.Declarator}
    (hlayout : T.AdmitsAll (v.layout.map fun entry => .labels entry.name))
    (h : T.AdmitsAll d.uses) :
    T.FollowsOn (fun _ _ => True) (ModuleM.globalVariable T.context v d)
      (ModuleM.globalVariable T.target (v.respell T.spelling) (d.respell T.spelling)) := by
  obtain ⟨hhead, hinitializer⟩ := admitsAll_append.mp h
  obtain ⟨hname, hsemantic⟩ := admitsAll_cons.mp hhead
  refine followsOn_env.bind ?_
  rintro e _ ⟨rfl, he⟩
  refine (followsOn_ofCheck (resolveValueType_follows he v.type d.length .global)).next fun type => ?_
  refine (followsOn_ofCheck (checkName_follows he hname _)).bind fun _ _ _ => ?_
  refine (followsOn_ofCheck (checkStorage_follows hsame type v.storage d)).bind fun _ _ _ => ?_
  have hadd : ∀ initializer, T.FollowsOn (fun _ _ => True)
      (ModuleM.addGlobal ⟨⟨d.name, type, v.storage, d.semantic, v.layout, none⟩, initializer,
        d.span.line⟩)
      (ModuleM.addGlobal ⟨⟨(d.respell T.spelling).name, type.rename T.name, v.storage,
        (d.respell T.spelling).semantic, (v.respell T.spelling).layout, none⟩,
        initializer.map T.expr, (d.respell T.spelling).span.line⟩) := by
    intro initializer
    rw [show (d.respell T.spelling).name = T.name d.name from word_declared hname,
      show (d.respell T.spelling).semantic = d.semantic from map_label hsemantic,
      show (v.respell T.spelling).layout = v.layout from map_layout hlayout,
      show (d.respell T.spelling).span.line = T.line d.span.line from T.line_span d.span]
    exact addGlobal_follows hsame hname
  rw [show (d.respell T.spelling).initializer
    = d.initializer.map (Ast.Expr.respell T.spelling) from rfl]
  cases hdefined : d.initializer with
  | none => exact hadd none
  | some a =>
    rw [hdefined] at hinitializer
    have hvalue := followsOn_ofCheck (exprOf_follows he hinitializer type .initializer)
    refine FollowsFrom.bind (R := fun x x' => x' = x.map T.expr) (hvalue.bind ?_) ?_
    · rintro x _ rfl
      exact followsFrom_pure rfl
    · rintro initializer _ rfl
      exact hadd initializer

theorem bufferMember_follows (hsame : T.Same) {b : Ast.Buffer} (hbuffer : T.Declares b.name)
    (hregister : T.AdmitsAll (Ast.labelUses b.register)) {m : Ast.Member}
    (h : T.AdmitsAll (m.uses .declares)) :
    T.FollowsOn (fun _ _ => True) (ModuleM.bufferMember T.context ⟨b.name, b.register⟩ m)
      (ModuleM.bufferMember T.target
        ⟨(b.respell T.spelling).name, (b.respell T.spelling).register⟩
        (m.respell T.spelling)) := by
  obtain ⟨hname, hsemantic⟩ := admitsAll_cons.mp h
  refine followsOn_env.bind ?_
  rintro e _ ⟨rfl, he⟩
  refine (followsOn_ofCheck (resolveValueType_follows he m.type m.length .bufferMember)).next fun type => ?_
  refine (followsOn_ofCheck (checkName_follows he hname _)).bind fun _ _ _ => ?_
  rw [show (m.respell T.spelling).name = T.name m.name from word_declared hname,
    show (m.respell T.spelling).semantic = m.semantic from map_label hsemantic,
    show (m.respell T.spelling).span.line = T.line m.span.line from T.line_span m.span,
    show (b.respell T.spelling).name = T.name b.name from word_declared hbuffer,
    show (b.respell T.spelling).register = b.register from map_label hregister]
  exact addGlobal_follows hsame (g := ⟨⟨m.name, type, some .uniform, m.semantic, [],
    some ⟨b.name, b.register⟩⟩, none, m.span.line⟩) hname

/-! ## Sources -/

/-- What a translation admits in a declaration. Sources that leave their dialect have no global
variables. -/
def AdmitsDeclaration (T : Translation) (d : Ast.Declaration) : Prop :=
  T.AdmitsAll d.uses ∧ match d with
    | .struct _ | .function _ => True
    | .declare _ | .buffer _ => T.Same

theorem followsOn_forM {α β : Type} {x : α → ModuleM Unit} {x' : β → ModuleM Unit} (f : α → β)
    {as : List α} (h : ∀ a ∈ as, T.FollowsOn (fun _ _ => True) (x a) (x' (f a))) :
    T.FollowsOn (fun _ _ => True) (as.forM x) ((as.map f).forM x') := by
  induction as with
  | nil => exact followsFrom_pure trivial
  | cons first rest ih =>
    obtain ⟨hfirst, hrest⟩ := List.forall_mem_cons.mp h
    exact hfirst.bind fun _ _ _ => ih hrest

theorem declaration_follows {d : Ast.Declaration} (h : T.AdmitsDeclaration d) :
    T.FollowsOn (fun _ _ => True) (ModuleM.declaration T.context d)
      (ModuleM.declaration T.target (d.respell T.spelling)) := by
  obtain ⟨huses, hsame⟩ := h
  cases d with
  | struct s => exact struct_follows huses
  | function f => exact function_follows huses
  | declare v =>
    obtain ⟨hlayout, hdeclarators⟩ := admitsAll_append.mp huses
    exact followsOn_forM (Ast.Declarator.respell T.spelling) fun d hd =>
      globalVariable_follows hsame hlayout fun u hu =>
        hdeclarators u (List.mem_flatMap.mpr ⟨d, hd, hu⟩)
  | buffer b =>
    obtain ⟨hhead, hmembers⟩ := admitsAll_append.mp huses
    obtain ⟨hname, hregister⟩ := admitsAll_cons.mp hhead
    exact followsOn_forM (Ast.Member.respell T.spelling) fun m hm =>
      bufferMember_follows hsame hname hregister fun u hu =>
        hmembers u (List.mem_flatMap.mpr ⟨m, hm, hu⟩)

/-- What typing a source and the translated one may give. -/
structure Typings (T : Translation) (x x' : List (Located TypingFault) × ModuleState) : Prop where
  strict : T.Strict → List.Forall₂ T.Faults x.1 x'.1 ∧ T.States x.2 x'.2
  accepted : x.1 = [] → (x'.1 = [] ∧ T.States x.2 x'.2)
    ∨ ∃ fault faults, x'.1 = fault :: faults ∧ T.Excused fault.value

theorem typeDeclarations_follows {declarations : List Ast.Declaration}
    (h : ∀ d ∈ declarations, T.AdmitsDeclaration d) (limit : Nat) {s s' : ModuleState}
    (hstates : T.States s s') :
    T.Typings (typeDeclarations T.context limit declarations s)
      (typeDeclarations T.target limit (declarations.map (Ast.Declaration.respell T.spelling))
        s') := by
  induction declarations generalizing limit s s' with
  | nil => exact ⟨fun _ => ⟨.nil, hstates⟩, fun _ => .inl ⟨rfl, hstates⟩⟩
  | cons first rest ih =>
    cases limit with
    | zero => exact ⟨fun _ => ⟨.nil, hstates⟩, fun _ => .inl ⟨rfl, hstates⟩⟩
    | succ limit =>
      obtain ⟨hfirst, hrest⟩ := List.forall_mem_cons.mp h
      have hstep := declaration_follows hfirst s s' hstates
      simp only [List.map_cons, typeDeclarations, EStateM.run]
      cases hx : ModuleM.declaration T.context first s with
      | ok u t =>
        cases hx' : ModuleM.declaration T.target (first.respell T.spelling) s' with
        | ok u' t' =>
          rw [hx, hx'] at hstep
          exact ih hrest (limit + 1) hstep.2
        | error fault' t' =>
          rw [hx, hx'] at hstep
          exact ⟨fun hstrict => absurd hstrict.1 hstep.1, fun _ => .inr ⟨_, _, rfl, hstep⟩⟩
      | error fault t =>
        cases hx' : ModuleM.declaration T.target (first.respell T.spelling) s' with
        | ok u' t' =>
          rw [hx, hx'] at hstep
          exact ⟨fun hstrict => absurd hstrict hstep, nofun⟩
        | error fault' t' =>
          rw [hx, hx'] at hstep
          refine ⟨fun hstrict => ?_, nofun⟩
          obtain ⟨hfaults, hafter⟩ := (ih hrest limit (hstep.1 hstrict)).strict hstrict
          exact ⟨.cons hstep.2 hfaults, hafter⟩

end Translation

end ShaderBytecode
