import ShaderBytecode.Typing.Declaration

/-!
# What is accepted where more is declared

What is accepted at one place of a source is accepted, and typed alike, behind further declarations:
these register more names, but none that was found before means anything else then. There is one
exception, a structure with the name of an intrinsic, which takes calls of this name over. Nothing
is refused as a local that is declared twice, apart from such a local itself.
-/

namespace ShaderBytecode

open Typed (Registry)

/-! ## Checks -/

def TypingFault.isDuplicateLocal : TypingFault → Bool
  | .duplicateLocal _ => true
  | _ => false

namespace Check

variable {α β : Type}

def Gives (r : Check α) (P : α → Prop) : Prop :=
  ∀ a, r = .ok a → P a

variable {P : α → Prop} {r : Check α}

theorem gives_ok {a : α} (h : P a) : Gives (.ok a) P := by
  rintro _ ⟨⟩
  exact h

theorem gives_fail {span : Span} {fault : TypingFault} : Gives (.fail span fault) P :=
  nofun

theorem gives_true : r.Gives fun _ => True :=
  fun _ _ => trivial

theorem gives_self : r.Gives fun a => r = .ok a :=
  fun _ h => h

theorem Gives.bind {Q : β → Prop} {f : α → Check β} (h : r.Gives P)
    (h' : ∀ a, P a → (f a).Gives Q) : Gives (r >>= f) Q := by
  cases r with
  | ok a => exact h' a (h a rfl)
  | error fault => exact nofun

def AcceptedAs (r r' : Check α) : Prop :=
  ∀ a, r = .ok a → r' = .ok a

theorem accepted_refl (r : Check α) : r.AcceptedAs r :=
  fun _ h => h

/-- What a check accepts has a property, and another check accepts it as well. Nothing is refused as
a local that is declared twice. -/
structure Carries (r r' : Check α) (P : α → Prop) : Prop where
  gives : r.Gives P
  accepted : r.AcceptedAs r'
  ne_duplicateLocal : ∀ e, r = .error e → ∀ name, e.value ≠ .duplicateLocal name

/-- A check carries a property over to itself. -/
abbrev Settles (r : Check α) (P : α → Prop) : Prop :=
  r.Carries r P

section Carries

variable {P P' : α → Prop} {Q : β → Prop} {r r' r₁ r₁' : Check α} {f f' : α → Check β}
variable {condition : Prop} [Decidable condition] {span : Span} {fault : TypingFault}

theorem carries_ok {a : α} (h : P a) : Carries (.ok a) (.ok a) P :=
  ⟨gives_ok h, accepted_refl _, nofun⟩

theorem carries_fail (h : fault.isDuplicateLocal = false) : Carries (.fail span fault) r' P := by
  refine ⟨gives_fail, nofun, ?_⟩
  rintro _ ⟨⟩ name rfl
  cases h

theorem carries_ite (h : r.Carries r' P) (h₁ : r₁.Carries r₁' P) :
    Carries (if condition then r else r₁) (if condition then r' else r₁') P := by
  split
  · exact h
  · exact h₁

/-- What is refused first if it does not hold is known behind that. -/
theorem carries_guard (hfault : fault.isDuplicateLocal = false)
    (h : ¬condition → r.Carries r' P) :
    Carries (if condition then .fail span fault else r) (if condition then .fail span fault else r')
      P := by
  split
  · exact carries_fail hfault
  · rename_i hcondition
    exact h hcondition

theorem Carries.mono (h : r.Carries r' P) (h' : ∀ a, P a → P' a) : r.Carries r' P' :=
  ⟨fun a ha => h' a (h.gives a ha), h.accepted, h.ne_duplicateLocal⟩

theorem Carries.self (h : r.Carries r' P) : r.Carries r' fun a => r = .ok a :=
  ⟨gives_self, h.accepted, h.ne_duplicateLocal⟩

theorem Carries.and (h : r.Carries r' P) (h' : r.Gives P') : r.Carries r' fun a => P a ∧ P' a :=
  ⟨fun a ha => ⟨h.gives a ha, h' a ha⟩, h.accepted, h.ne_duplicateLocal⟩

theorem Carries.bind (h : r.Carries r' P) (h' : ∀ a, P a → (f a).Carries (f' a) Q) :
    Carries (r >>= f) (r' >>= f') Q := by
  cases r with
  | ok a =>
    rw [h.accepted a rfl]
    exact h' a (h.gives a rfl)
  | error e =>
    refine ⟨nofun, nofun, ?_⟩
    rintro _ ⟨⟩
    exact h.ne_duplicateLocal e rfl

end Carries

end Check

/-! ## Registries -/

theorem Intrinsic.lookup?_eq_none {d : Dialect} {name : String} (h : isName d name = false)
    (count : Nat) : lookup? d name count = none := by
  unfold isName lookup? at h
  unfold lookup?
  cases hcommon : common? name with
  | some found =>
    rw [hcommon] at h
    cases h
  | none =>
    rw [hcommon] at h
    cases d with
    | hlsl => exact Option.isSome_eq_false_iff.mp h |> Option.isNone_iff_eq_none.mp
    | glsl =>
      simp only [] at h ⊢
      unfold glsl? at h ⊢
      split at h <;> first | rfl | cases h

theorem Intrinsic.isName_of_lookup? {d : Dialect} {name : String} {count : Nat}
    {function : Intrinsic} (h : lookup? d name count = some function) : isName d name = true := by
  cases hname : isName d name with
  | true => rfl
  | false => cases (lookup?_eq_none hname count).symm.trans h

/-- The types and passings of parameters, which calls depend on. -/
def Parameter.shape (p : Parameter) : DataType × Passing :=
  (p.type, p.passing)

namespace Function

variable {f g h : Function}

theorem sameSignature_iff : f.sameSignature g = true ↔ f.name = g.name
    ∧ f.returnType = g.returnType
    ∧ f.parameters.map Parameter.shape = g.parameters.map Parameter.shape := by
  simp only [sameSignature, Bool.and_eq_true, decide_eq_true_eq, and_assoc]
  rfl

theorem sameSignature_symm (hfg : f.sameSignature g = true) : g.sameSignature f = true := by
  obtain ⟨hname, htype, hshape⟩ := sameSignature_iff.mp hfg
  exact sameSignature_iff.mpr ⟨hname.symm, htype.symm, hshape.symm⟩

theorem sameSignature_trans (hfg : f.sameSignature g = true) (hgh : g.sameSignature h = true) :
    f.sameSignature h = true := by
  obtain ⟨hname, htype, hshape⟩ := sameSignature_iff.mp hfg
  obtain ⟨hname', htype', hshape'⟩ := sameSignature_iff.mp hgh
  exact sameSignature_iff.mpr ⟨hname.trans hname', htype.trans htype', hshape.trans hshape'⟩

end Function

/-- What is found in one registry is found in another at the same place, a function with the same
signature. No name that calls a function or an intrinsic in the first is a structure's in the
second. -/
structure Typed.Registry.Extends (d : Dialect) (r r' : Registry) : Prop where
  global? : ∀ name found, r.global? name = some found → r'.global? name = some found
  struct? : ∀ name s, r.struct? name = some s → r'.struct? name = some s
  structIndex? : ∀ name i, r.structIndex? name = some i → r'.structIndex? name = some i
  function? : ∀ name i f, r.function? name = some (i, f) → r.struct? name = none →
    r'.struct? name = none ∧ ∃ f', r'.function? name = some (i, f')
      ∧ f.signature.sameSignature f'.signature = true
  intrinsic : ∀ name, Intrinsic.isName d name = true → r.struct? name = none →
    r.function? name = none → r'.struct? name = none ∧ r'.function? name = none

namespace Typed.Registry.Extends

variable {d : Dialect} {r r' r'' : Registry}

theorem refl (d : Dialect) (r : Registry) : r.Extends d r where
  global? _ _ h := h
  struct? _ _ h := h
  structIndex? _ _ h := h
  function? _ _ f h hstruct := ⟨hstruct, f, h, Function.sameSignature_iff.mpr ⟨rfl, rfl, rfl⟩⟩
  intrinsic _ _ hstruct hfunction := ⟨hstruct, hfunction⟩

theorem trans (h : r.Extends d r') (h' : r'.Extends d r'') : r.Extends d r'' where
  global? _ _ hfound := h'.global? _ _ (h.global? _ _ hfound)
  struct? _ _ hfound := h'.struct? _ _ (h.struct? _ _ hfound)
  structIndex? _ _ hfound := h'.structIndex? _ _ (h.structIndex? _ _ hfound)
  function? name i f hfound hstruct := by
    obtain ⟨hstruct', f', hfound', hsame⟩ := h.function? name i f hfound hstruct
    obtain ⟨hstruct'', f'', hfound'', hsame'⟩ := h'.function? name i f' hfound' hstruct'
    exact ⟨hstruct'', f'', hfound'', Function.sameSignature_trans hsame hsame'⟩
  intrinsic name hname hstruct hfunction := by
    obtain ⟨hstruct', hfunction'⟩ := h.intrinsic name hname hstruct hfunction
    exact h'.intrinsic name hname hstruct' hfunction'

theorem isSome_struct? (h : r.Extends d r') {name : String}
    (hsome : (r.struct? name).isSome = true) : (r'.struct? name).isSome = true := by
  obtain ⟨s, hs⟩ := Option.isSome_iff_exists.mp hsome
  rw [h.struct? name s hs]
  rfl

theorem code? (h : r.Extends d r') : (type : DataType) → {code : TypeCode} →
    type.code? r.structIndex? = some code → type.code? r'.structIndex? = some code
  | .void, _, hcode | .scalar _, _, hcode | .vector _ _, _, hcode | .matrix _ _, _, hcode
  | .sampler2D, _, hcode => hcode
  | .struct name, _, hcode => by
    obtain ⟨i, hi, rfl⟩ := Option.map_eq_some_iff.mp hcode
    exact Option.map_eq_some_iff.mpr ⟨i, h.structIndex? name i hi, rfl⟩
  | .array element length, _, hcode => by
    obtain ⟨inner, hinner, rfl⟩ := Option.map_eq_some_iff.mp hcode
    exact Option.map_eq_some_iff.mpr ⟨inner, code? h element hinner, rfl⟩

end Typed.Registry.Extends

/-! ## Types -/

open Check

namespace Env

variable {env : Env} {r : Registry}

def within (env : Env) (r : Registry) : Env :=
  { env with registry := r }

abbrev Grows (env : Env) (r : Registry) : Prop :=
  env.registry.Extends env.context.dialect r

@[simp] theorem context_within : (env.within r).context = env.context :=
  rfl

@[simp] theorem registry_within : (env.within r).registry = r :=
  rfl

@[simp] theorem scopes_within : (env.within r).scopes = env.scopes :=
  rfl

variable (h : env.Grows r)
include h

theorem code_carries {type : DataType} :
    (env.code type).Carries ((env.within r).code type) fun _ => True := by
  unfold code
  cases hfound : type.code? env.registry.structIndex? with
  | none => exact carries_fail rfl
  | some found =>
    have hfound' : type.code? (env.within r).registry.structIndex? = some found :=
      h.code? type hfound
    rw [hfound']
    exact carries_ok trivial

theorem structMember_carries {struct member : String} {span : Span} :
    (env.structMember struct member span).Carries ((env.within r).structMember struct member span)
      fun _ => True := by
  unfold structMember
  cases hm : (env.registry.struct? struct).bind (·.member? member) with
  | none => exact carries_fail rfl
  | some found =>
    obtain ⟨s, hs, hmember⟩ := Option.bind_eq_some_iff.mp hm
    have hs' : (env.within r).registry.struct? struct = some s := h.struct? struct s hs
    rw [hs', Option.bind_some, hmember]
    exact carries_ok trivial

variable {name : Located String}

theorem namedType_carries :
    (env.namedType name).Carries ((env.within r).namedType name) fun _ => True := by
  unfold namedType
  simp only [context_within, registry_within]
  cases env.context.dialect.builtinType? name.value with
  | some type => exact carries_ok trivial
  | none =>
    by_cases hsome : (env.registry.struct? name.value).isSome = true
    · simp only [hsome, h.isSome_struct? hsome]
      exact carries_ok trivial
    · simp only [hsome]
      exact carries_fail rfl

theorem resolveType_carries {length : Option UInt32} :
    (env.resolveType name length).Carries ((env.within r).resolveType name length)
      fun _ => True := by
  refine (namedType_carries h).bind fun element _ => ?_
  unfold arrayOf
  split
  · exact carries_ok trivial
  · exact carries_ite (carries_fail rfl) (carries_ok trivial)

theorem resolveValueType_carries {length : Option UInt32} {holder : Holder} :
    (env.resolveValueType name length holder).Carries
      ((env.within r).resolveValueType name length holder) fun _ => True :=
  (resolveType_carries h).bind fun _ _ => carries_ite (carries_fail rfl) (carries_ok trivial)

end Env

/-! ## Signatures and structures -/

section Outer

variable {env : Env} {r : Registry} (h : env.Grows r)
include h

theorem structMembers_carries {struct : String} {found : List Member} (members : List Ast.Member) :
    (structMembers env struct found members).Carries
      (structMembers (env.within r) struct found members) fun _ => True := by
  induction members generalizing found with
  | nil => exact carries_ok trivial
  | cons first rest ih =>
    exact (Env.resolveValueType_carries h).bind fun _ _ =>
      carries_ite (carries_fail rfl) (carries_ite (carries_fail rfl) ih)

theorem functionParameters_carries {function : String} {found : List Parameter}
    (parameters : List Ast.Parameter) : (functionParameters env function found parameters).Carries
      (functionParameters (env.within r) function found parameters) fun _ => True := by
  induction parameters generalizing found with
  | nil => exact carries_ok trivial
  | cons first rest ih =>
    exact (Env.resolveValueType_carries h).bind fun _ _ =>
      carries_ite (carries_fail rfl) (carries_ite (carries_fail rfl) ih)

theorem functionSignature_carries {f : Ast.Function} :
    (functionSignature env f).Carries (functionSignature (env.within r) f) fun _ => True :=
  (Env.resolveType_carries h).bind fun _ _ =>
    (functionParameters_carries h f.parameters).bind fun _ _ => carries_ok trivial

end Outer

end ShaderBytecode
