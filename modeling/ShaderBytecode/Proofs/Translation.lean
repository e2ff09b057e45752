import ShaderBytecode.Proofs.Checking
import ShaderBytecode.Proofs.Relabelling
import ShaderBytecode.Proofs.Respelling
import ShaderBytecode.Typing.Declaration
import Mathlib.Data.List.Find
import Mathlib.Logic.Function.Basic

/-!
# Translations

A translation spells sources anew, in their own dialect or in another one, and says what becomes of
the names that a source declares. Typing follows a translation: what is found for a source is found
under the new names for the translated one, and what is refused is refused.
-/

namespace ShaderBytecode

open Typed (Registry)

def textureLetters : List Char :=
  ['s', 't', 'p', 'q']

def TypingFault.strangeSwizzle? : TypingFault → Option String
  | .unknownLetter _ swizzle => some swizzle
  | _ => none

/-- A respelling of sources of a context, in the same dialect or in another one, and what becomes of
the names that a source declares. Sources are limited in what they declare, read and label. -/
structure Translation where
  context : Context
  /-- The dialect of translated sources. -/
  dialect : Dialect
  /-- Whether integers are promoted in translated sources. -/
  promote : Bool
  spelling : Respelling
  name : String → String
  line : Nat → Nat
  Declares : String → Prop
  Reads : String → Prop
  /-- What members, swizzles, semantics, registers and entries of layouts may be called. -/
  Labels : String → Prop
  promote_or : promote = context.promote ∨ context.promote = false
  name_injective : Function.Injective name
  name_empty : name "" = ""
  line_span : ∀ s, (spelling.span s).line = line s.line
  reads_of_declares : ∀ {n}, Declares n → Reads n
  word_label : ∀ {w}, Labels w → spelling.word w = w
  word_iff : ∀ {n}, Declares n → ∀ w, spelling.word w = name n ↔ w = n
  callee_iff : ∀ {n}, Declares n → ∀ w k, spelling.callee w k = name n ↔ w = n
  word_type : ∀ {w type}, context.dialect.builtinType? w = some type →
    dialect.builtinType? (spelling.word w) = some type
  callee_type : ∀ {w type} k, context.dialect.builtinType? w = some type →
    dialect.builtinType? (spelling.callee w k) = some type
  word_typeless : ∀ {w}, context.dialect = dialect ∨ Declares w →
    context.dialect.builtinType? w = none → dialect.builtinType? (spelling.word w) = none
  callee_typeless : ∀ {w} k, context.dialect = dialect ∨ Declares w →
    context.dialect.builtinType? w = none → dialect.builtinType? (spelling.callee w k) = none
  intrinsic : ∀ {w k f}, context.dialect.builtinType? w = none →
    Intrinsic.lookup? context.dialect w k = some f →
      context.dialect = dialect ∨ f.requiredStage? = none →
        Intrinsic.lookup? dialect (spelling.callee w k) k = some f
          ∧ dialect.builtinType? (spelling.callee w k) = none
  notIntrinsic : context.dialect = dialect → ∀ {w k},
    Intrinsic.lookup? context.dialect w k = none →
      Intrinsic.lookup? dialect (spelling.callee w k) k = none
  isName : ∀ {n}, Declares n →
    Intrinsic.isName dialect (name n) = Intrinsic.isName context.dialect n
  reserved : ∀ {n}, Declares n →
    (dialect = .glsl && "gl_".toList.isPrefixOf (name n).toList)
      = (context.dialect = .glsl && "gl_".toList.isPrefixOf n.toList)
  provided : context.dialect = dialect → ∀ v ∈ stageVariables context.dialect context.stage,
    Declares v.name ∧ name v.name = v.name
  across : context.dialect ≠ dialect →
    context.dialect = .glsl ∧ dialect = .hlsl ∧ context.stage ≠ .geometry
  unprovided : context.dialect ≠ dialect → ∀ {w}, Reads w →
    ∀ v ∈ stageVariables context.dialect context.stage, v.name ≠ w

namespace Translation

variable (T : Translation)

def Same : Prop :=
  T.context.dialect = T.dialect

/-- Whether what is refused stays refused, since no more is promoted either. -/
def Strict : Prop :=
  T.Same ∧ T.promote = T.context.promote

/-- Whether nothing is spelled in another way. -/
structure Exact : Prop where
  strict : T.Strict
  word : ∀ w, T.spelling.word w = w
  callee : ∀ w k, T.spelling.callee w k = w
  name : ∀ n, T.name n = n

/-- A fault that a translated source may have although the source has none: it has a swizzle with
letters that its dialect does not have. -/
def Excused (fault : TypingFault) : Prop :=
  ¬T.Same ∧ ∃ type swizzle, fault = .unknownLetter type swizzle ∧ T.Labels swizzle
    ∧ ∀ c ∈ swizzle.toList, c ∈ textureLetters

/-- Faults of a source and of the translated one. They are the same if nothing is spelled in another
way. Otherwise they are about the same swizzle and stand at the same place, or nowhere. -/
structure Faults (e e' : Located TypingFault) : Prop where
  eq : T.Exact → e'.value = e.value
  swizzle : T.Strict → e'.value.strangeSwizzle? = e.value.strangeSwizzle?
  span : T.Strict → e'.span = T.spelling.span e.span ∨ e.span = {} ∧ e'.span = {}

def labels : Relabelling :=
  ⟨T.name, T.spelling.span, T.line⟩

def target : Context :=
  { T.context with dialect := T.dialect, promote := T.promote }

/-- The variables that the stage provides to translated sources. -/
def builtins : List Variable :=
  stageVariables T.dialect T.context.stage

def binding (b : Binding) : Binding :=
  { b with name := T.name b.name, type := b.type.rename T.name }

def scopes (scopes : Scopes) : Scopes :=
  scopes.map (List.map T.binding)

def registry (r : Registry) : Registry :=
  r.relabel T.labels T.builtins

def env (e : Env) : Env :=
  ⟨T.target, T.registry e.registry, T.scopes e.scopes⟩

variable {T}

theorem Exact.rename (h : T.Exact) (t : DataType) : t.rename T.name = t := by
  rw [show T.name = id from funext h.name, DataType.rename_id]

theorem not_strict (h : ¬T.Same) : ¬T.Strict :=
  fun hstrict => h hstrict.1

theorem faults_of_lax (h : ¬T.Strict) (e e' : Located TypingFault) : T.Faults e e' :=
  ⟨fun hexact => absurd hexact.strict h, fun hstrict => absurd hstrict h,
    fun hstrict => absurd hstrict h⟩

theorem word_declared {n : String} (h : T.Declares n) : T.spelling.word n = T.name n :=
  (T.word_iff h n).mpr rfl

/-! ## Checks -/

section Follows

variable {α β γ δ : Type}

/-- A check of a translated source does what the check of the source does. If the translation keeps
the dialect and promotes no more, both give something or both refuse. Otherwise nothing is said if
the source is refused, and in another dialect the translated source may have an excused fault. -/
def Follows (T : Translation) (R : α → β → Prop) (x : Check α) (x' : Check β) : Prop :=
  match x, x' with
  | .ok a, .ok b => R a b
  | .ok _, .error e => T.Excused e.value
  | .error e, .error e' => T.Faults e e'
  | .error _, .ok _ => ¬T.Strict

variable {R : α → β → Prop} {span : Span} {fault fault' : TypingFault} {x : Check α} {x' : Check β}

theorem follows_ok {a : α} {b : β} (h : R a b) : T.Follows R (.ok a) (.ok b) :=
  h

theorem follows_fail (hswizzle : fault'.strangeSwizzle? = fault.strangeSwizzle?)
    (h : T.Exact → fault' = fault) :
    T.Follows R (.fail span fault) (.fail (T.spelling.span span) fault') :=
  ⟨h, fun _ => hswizzle, fun _ => .inl rfl⟩

theorem follows_fail_nowhere (hswizzle : fault'.strangeSwizzle? = fault.strangeSwizzle?)
    (h : T.Exact → fault' = fault) : T.Follows R (.fail {} fault) (.fail {} fault') :=
  ⟨h, fun _ => hswizzle, fun _ => .inr ⟨rfl, rfl⟩⟩

/-- Nothing is said about a source that is refused if more is accepted. -/
theorem follows_of_lax {e : Located TypingFault} {x : Check β} (h : ¬T.Strict) :
    T.Follows R (.error e) x := by
  cases x with
  | ok b => exact h
  | error e' => exact faults_of_lax h _ _

theorem follows_of_across {x : Check β} (h : ¬T.Same) : T.Follows R (.fail span fault) x :=
  follows_of_lax (not_strict h)

theorem Follows.bind {S : γ → δ → Prop} {f : α → Check γ} {f' : β → Check δ} (h : T.Follows R x x')
    (h' : ∀ a b, R a b → T.Follows S (f a) (f' b)) : T.Follows S (x >>= f) (x' >>= f') := by
  cases x with
  | ok a =>
    cases x' with
    | ok b => exact h' a b h
    | error e =>
      change T.Follows S (f a) (.error e)
      cases f a with
      | ok c => exact h
      | error e' => exact faults_of_lax (not_strict h.1) _ _
  | error e =>
    cases x' with
    | ok b =>
      exact follows_of_lax h
    | error e' => exact h

/-- A check of a translated source gives the translation of what the check of the source gives. -/
abbrev Maps (T : Translation) (g : α → β) : Check α → Check β → Prop :=
  T.Follows fun a b => b = g a

theorem Follows.next {S : γ → δ → Prop} {f : α → Check γ} {f' : β → Check δ} {g : α → β}
    (h : T.Maps g x x') (h' : ∀ a, T.Follows S (f a) (f' (g a))) :
    T.Follows S (x >>= f) (x' >>= f') := by
  refine h.bind ?_
  rintro a _ rfl
  exact h' a

variable {c c' : Prop} [Decidable c] [Decidable c'] (hc : c' ↔ c)
include hc

theorem follows_ite {y : Check α} {y' : Check β} (hx : c → T.Follows R x x')
    (hy : ¬c → T.Follows R y y') :
    T.Follows R (if c then x else y) (if c' then x' else y') := by
  by_cases h : c
  · rw [if_pos h, if_pos (hc.mpr h)]
    exact hx h
  · rw [if_neg h, if_neg (hc.not.mpr h)]
    exact hy h

theorem follows_require {a : α} {b : β} (h : R a b)
    (hswizzle : fault'.strangeSwizzle? = fault.strangeSwizzle?)
    (hfault : T.Exact → fault' = fault) :
    T.Follows R (if c then .ok a else .fail span fault)
      (if c' then .ok b else .fail (T.spelling.span span) fault') :=
  follows_ite hc (fun _ => follows_ok h) fun _ => follows_fail hswizzle hfault

theorem follows_unless (hswizzle : fault'.strangeSwizzle? = fault.strangeSwizzle?)
    (hfault : T.Exact → fault' = fault) (hx : ¬c → T.Follows R x x') :
    T.Follows R (if c then .fail span fault else x)
      (if c' then .fail (T.spelling.span span) fault' else x') :=
  follows_ite hc (fun _ => follows_fail hswizzle hfault) hx

theorem follows_guard {f : γ → Check α} {f' : γ → Check β}
    (hswizzle : fault'.strangeSwizzle? = fault.strangeSwizzle?)
    (hfault : T.Exact → fault' = fault) (hx : ¬c → T.Follows R x x') :
    T.Follows R (if c then Check.fail span fault >>= f else x)
      (if c' then Check.fail (T.spelling.span span) fault' >>= f' else x') :=
  follows_unless hc hswizzle hfault hx

end Follows

/-! ## Names -/

variable (T)

/-- A name that means what another one meant: it is what becomes of a declared name just if the other
one is that name. -/
def Means (w w' : String) : Prop :=
  ∀ n, T.Declares n → (w' = T.name n ↔ w = n)

/-- What is known of registries while a source is typed. -/
structure Registered (r : Registry) : Prop where
  builtins : r.builtins = stageVariables T.context.dialect T.context.stage
  globals : ∀ g ∈ r.globals, T.Declares g.symbol.name
  structures : ∀ s ∈ r.structures, T.Declares s.name
  functions : ∀ f ∈ r.functions, T.Declares f.signature.name
  across : ¬T.Same → r.globals = []

def InSight (scopes : Scopes) : Prop :=
  ∀ scope ∈ scopes, ∀ b ∈ scope, T.Declares b.name

structure Fits (e : Env) : Prop where
  context : e.context = T.context
  registry : T.Registered e.registry
  scopes : T.InSight e.scopes

variable {T}

theorem Means.decide_eq {w w' n : String} (h : T.Means w w') (hn : T.Declares n) :
    decide (T.name n = w') = decide (n = w) := by
  rw [decide_eq_decide, eq_comm, h n hn, eq_comm]

theorem means_word (w : String) : T.Means w (T.spelling.word w) :=
  fun _ hn => T.word_iff hn w

theorem means_callee (w : String) (k : Nat) : T.Means w (T.spelling.callee w k) :=
  fun _ hn => T.callee_iff hn w k

theorem means_name (n : String) : T.Means n (T.name n) :=
  fun _ _ => T.name_injective.eq_iff

theorem rename_builtin {v : Variable} (hv : v ∈ stageVariables T.context.dialect T.context.stage)
    (hname : T.name v.name = v.name) : v.rename T.name = v := by
  have hplain : v.buffer = none ∧ v.type.rename T.name = v.type := by
    revert hv
    unfold stageVariables
    cases T.context.dialect with
    | hlsl => exact nofun
    | glsl =>
      cases T.context.stage <;>
        simp only [List.mem_cons, List.not_mem_nil, or_false] <;>
        rintro (rfl | rfl | rfl | rfl | rfl) <;>
        exact ⟨rfl, by simp [DataType.rename]⟩
  unfold Variable.rename
  rw [hname, hplain.1, hplain.2, Option.map_none, ← hplain.1]

theorem registry_struct? {r : Registry} (h : ∀ s ∈ r.structures, T.Declares s.name) {w w' : String}
    (hmeans : T.Means w w') :
    (T.registry r).struct? w' = (r.struct? w).map (Structure.rename T.name) := by
  unfold Registry.struct? registry Registry.relabel
  simp only [List.find?_map]
  congr 1
  exact List.find?_congr fun s hs => hmeans.decide_eq (h s hs)

theorem registry_struct?_name (r : Registry) (n : String) :
    (T.registry r).struct? (T.name n) = (r.struct? n).map (Structure.rename T.name) := by
  unfold Registry.struct? registry Registry.relabel
  simp only [List.find?_map]
  congr 2
  funext s
  simp only [Function.comp, Structure.rename, labels, T.name_injective.eq_iff]

theorem registry_structIndex? (r : Registry) (n : String) :
    (T.registry r).structIndex? (T.name n) = r.structIndex? n := by
  unfold Registry.structIndex? registry Registry.relabel
  simp only [List.findIdx?_map]
  congr 2
  funext s
  simp only [Function.comp, Structure.rename, labels, T.name_injective.eq_iff]

theorem code?_rename (r : Registry) (t : DataType) :
    (t.rename T.name).code? (T.registry r).structIndex? = t.code? r.structIndex? := by
  induction t with
  | struct n => simp only [DataType.rename, DataType.code?, registry_structIndex?]
  | array element length ih => simp only [DataType.rename, DataType.code?, ih]
  | _ => rfl

namespace Registered

variable {r : Registry} (h : T.Registered r)
include h

variable {w w' : String}

theorem struct? (hmeans : T.Means w w') :
    (T.registry r).struct? w' = (r.struct? w).map (Structure.rename T.name) :=
  registry_struct? h.structures hmeans

theorem declares_of_struct? {s : Structure} (hs : r.struct? w = some s) : T.Declares w := by
  have hname : s.name = w := by simpa using List.find?_some hs
  exact hname ▸ h.structures s (List.mem_of_find?_eq_some hs)

theorem declares_of_function? {found : Nat × Typed.Function} (hfound : r.function? w = some found) :
    T.Declares w := by
  obtain ⟨hmem, hname⟩ := passes_of_findPlace? hfound
  exact of_decide_eq_true hname ▸ h.functions _ hmem

theorem function? (hmeans : T.Means w w') : (T.registry r).function? w'
    = (r.function? w).map fun found => (found.1, found.2.relabel T.labels) :=
  findPlace?_map fun f hf => hmeans.decide_eq (h.functions f hf)

/-- The global variables of a translated source that stays in its dialect. -/
theorem allGlobals (hsame : T.Same) :
    (T.registry r).allGlobals = r.allGlobals.map (Variable.rename T.name) := by
  unfold Registry.allGlobals registry Registry.relabel Translation.builtins
  rw [List.map_append, List.map_map, List.map_map, h.builtins,
    ← show T.context.dialect = T.dialect from hsame]
  congr 1
  refine (List.map_id _).symm.trans (List.map_congr_left fun v hv => ?_)
  exact (rename_builtin hv (T.provided hsame v hv).2).symm

theorem declares_of_mem_allGlobals (hsame : T.Same) {v : Variable} (hv : v ∈ r.allGlobals) :
    T.Declares v.name := by
  obtain hbuiltin | hglobal := List.mem_append.mp hv
  · rw [h.builtins] at hbuiltin
    exact (T.provided hsame v hbuiltin).1
  · obtain ⟨g, hg, rfl⟩ := List.mem_map.mp hglobal
    exact h.globals g hg

theorem global?_across (hsame : ¬T.Same) (hreads : T.Reads w) : r.global? w = none := by
  refine findPlace?_eq_none_iff.mpr fun v hv => ?_
  rw [Registry.allGlobals, h.across hsame, h.builtins, List.map_nil, List.append_nil] at hv
  exact decide_eq_false (T.unprovided hsame hreads v hv)

theorem global? (hmeans : T.Means w w') (hreads : T.Reads w) :
    (T.registry r).global? w'
      = (r.global? w).map fun found => (found.1, found.2.rename T.name) := by
  by_cases hsame : T.Same
  · change findPlace? _ (T.registry r).allGlobals = _
    rw [h.allGlobals hsame]
    exact findPlace?_map fun v hv => hmeans.decide_eq (h.declares_of_mem_allGlobals hsame hv)
  · have hnone : (T.registry r).allGlobals = [] := by
      unfold Registry.allGlobals registry Registry.relabel Translation.builtins
      rw [h.across hsame, (T.across hsame).2.1]
      rfl
    rw [h.global?_across hsame hreads]
    unfold Registry.global?
    rw [hnone]
    rfl

theorem isSome_global? {n : String} (hdeclares : T.Declares n) :
    ((T.registry r).global? (T.name n)).isSome = (r.global? n).isSome := by
  rw [h.global? (means_name n) (T.reads_of_declares hdeclares), Option.isSome_map]

theorem nameUse? {n : String} (hdeclares : T.Declares n) :
    (T.registry r).nameUse? (T.name n) = r.nameUse? n := by
  unfold Registry.nameUse?
  rw [h.struct? (means_name n), h.isSome_global? hdeclares, h.function? (means_name n)]
  simp only [Option.isSome_map]

end Registered

/-! ## Scopes -/

variable {scopes : Scopes}

theorem find?_scopes (h : T.InSight scopes) {w w' : String} (hmeans : T.Means w w') :
    (T.scopes scopes).find? w' = (scopes.find? w).map T.binding := by
  unfold Scopes.find? Translation.scopes
  rw [List.findSome?_map]
  induction scopes with
  | nil => rfl
  | cons inner outer ih =>
    obtain ⟨hinner, houter⟩ := List.forall_mem_cons.mp h
    have hfound : (inner.map T.binding).find? (fun b => b.name = w')
        = (inner.find? fun b => b.name = w).map T.binding := by
      rw [List.find?_map]
      congr 1
      exact List.find?_congr fun b hb => hmeans.decide_eq (hinner b hb)
    simp only [List.findSome?_cons, Function.comp, hfound]
    cases inner.find? fun b => b.name = w with
    | none => exact ih houter
    | some found => rfl

theorem declares_binding (scope : List Binding) (n : String) :
    Scopes.declares (scope.map T.binding) (T.name n) = Scopes.declares scope n := by
  unfold Scopes.declares
  rw [List.any_map]
  congr 1
  funext b
  simp only [Function.comp, binding, T.name_injective.eq_iff]

theorem isTaken_scopes (scopes : Scopes) (n : String) :
    (T.scopes scopes).isTaken (T.name n) = scopes.isTaken n := by
  unfold Translation.scopes
  match scopes with
  | [] => rfl
  | [inner] => exact declares_binding inner n
  | [body, parameters] =>
    simp only [List.map_cons, List.map_nil, Scopes.isTaken, declares_binding]
  | inner :: _ :: _ :: _ => exact declares_binding inner n

theorem scopes_bind (scopes : Scopes) (b : Binding) :
    T.scopes (scopes.bind b) = (T.scopes scopes).bind (T.binding b) := by
  cases scopes <;> rfl

theorem InSight.bind (h : T.InSight scopes) {b : Binding} (hb : T.Declares b.name) :
    T.InSight (scopes.bind b) := by
  cases scopes with
  | nil => exact h
  | cons inner outer =>
    obtain ⟨hinner, houter⟩ := List.forall_mem_cons.mp h
    exact List.forall_mem_cons.mpr ⟨List.forall_mem_cons.mpr ⟨hb, hinner⟩, houter⟩

theorem InSight.push (h : T.InSight scopes) : T.InSight ([] :: scopes) :=
  List.forall_mem_cons.mpr ⟨nofun, h⟩

/-! ## Types -/

variable {e : Env}

theorem code_follows (t : DataType) :
    T.Follows (fun c c' => c' = c) (e.code t) ((T.env e).code (t.rename T.name)) := by
  unfold Env.code env
  simp only [code?_rename]
  cases t.code? e.registry.structIndex? with
  | none => exact follows_fail_nowhere rfl fun hexact => by rw [hexact.rename]
  | some code => exact follows_ok rfl

theorem rename_builtinType {d : Dialect} {w : String} {t : DataType}
    (h : d.builtinType? w = some t) (name : String → String) : t.rename name = t := by
  have hbasic := isBasic_builtinType? h
  cases t with
  | struct n => exact hbasic.elim
  | array element length => exact hbasic.elim
  | _ => rfl

theorem namedType_follows (he : T.Fits e) (n : Located String) :
    T.Maps (DataType.rename T.name) (e.namedType n) ((T.env e).namedType (T.spelling.name n)) := by
  have hstruct := he.registry.struct? (means_word n.value)
  unfold Env.namedType env
  simp only [Respelling.name, target, he.context]
  cases htype : T.context.dialect.builtinType? n.value with
  | some t =>
    simp only [T.word_type htype]
    exact follows_ok (rename_builtinType htype T.name).symm
  | none =>
    cases hfound : e.registry.struct? n.value with
    | some s =>
      have hdeclared := he.registry.declares_of_struct? hfound
      rw [hfound] at hstruct
      simp only [T.word_typeless (.inr hdeclared) htype, hstruct]
      exact follows_ok (congrArg DataType.struct (word_declared hdeclared))
    | none =>
      by_cases hsame : T.Same
      · rw [hfound] at hstruct
        simp only [T.word_typeless (.inl hsame) htype, hstruct]
        exact follows_fail rfl fun hexact => by rw [hexact.word]
      · exact follows_of_across hsame

theorem arrayOf_follows (t : DataType) (length : Option UInt32) (span : Span) :
    T.Maps (DataType.rename T.name) (Env.arrayOf t length span)
      (Env.arrayOf (t.rename T.name) length (T.spelling.span span)) := by
  cases length with
  | none => exact follows_ok rfl
  | some length =>
    unfold Env.arrayOf
    rw [DataType.isVoid_rename]
    exact follows_unless Iff.rfl rfl (fun _ => rfl) fun _ => follows_ok rfl

theorem resolveType_follows (he : T.Fits e) (n : Located String) (length : Option UInt32) :
    T.Maps (DataType.rename T.name) (e.resolveType n length)
      ((T.env e).resolveType (T.spelling.name n) length) := by
  refine (namedType_follows he n).bind ?_
  rintro element _ rfl
  exact arrayOf_follows element length _

theorem resolveValueType_follows (he : T.Fits e) (n : Located String) (length : Option UInt32)
    (holder : Holder) : T.Maps (DataType.rename T.name) (e.resolveValueType n length holder)
      ((T.env e).resolveValueType (T.spelling.name n) length holder) := by
  refine (resolveType_follows he n length).bind ?_
  rintro t _ rfl
  rw [DataType.isVoid_rename]
  exact follows_unless Iff.rfl rfl (fun _ => rfl) fun _ => follows_ok rfl

end Translation

end ShaderBytecode
