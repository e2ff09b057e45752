import ShaderBytecode.Proofs.LocalTypes

/-!
# What names mean

A name in a body means the innermost local of that name that is declared before it, and a global
variable if there is none. This can be read off the source, with no scopes but the list of locals in
sight.
-/

namespace ShaderBytecode

open Typed (Registry)

/-! ## Sources -/

namespace Ast

/-- What a name in a body means: a local, by its slot, or a global variable. -/
inductive Meaning where
  | slot (number : Nat)
  | global (name : String)
deriving DecidableEq, Repr

/-- The locals in sight and their slots, the innermost first. -/
abbrev Sight := List (String × Nat)

/-- What a name means where certain locals are in sight. -/
def Sight.meaning (sight : Sight) (name : String) : Meaning :=
  match sight.lookup name with
  | some slot => .slot slot
  | none => .global name

def Expr.meanings (sight : Sight) (e : Expr) : List Meaning :=
  e.variables.map sight.meaning

def Expr.optionMeanings (sight : Sight) (e : Option Expr) : List Meaning :=
  (e.map (·.meanings sight)).getD []

/-- What names in declarators mean. A local that is declared takes the next slot; its start value
does not see it, and those behind it do. -/
def Declarator.meaningsAll (sight : Sight) (next : Nat) : List Declarator → List Meaning
  | [] => []
  | first :: rest =>
    Expr.optionMeanings sight first.initializer ++ [.slot next]
      ++ meaningsAll ((first.name, next) :: sight) (next + 1) rest

def Declarator.behindAll (sight : Sight) (next : Nat) : List Declarator → Sight
  | [] => sight
  | first :: rest => behindAll ((first.name, next) :: sight) (next + 1) rest

def Simple.meanings (sight : Sight) (next : Nat) : Simple → List Meaning
  | .declare v => Declarator.meaningsAll sight next v.declarators
  | .expr e => e.meanings sight

def Simple.behind (sight : Sight) (next : Nat) : Simple → Sight
  | .declare v => Declarator.behindAll sight next v.declarators
  | .expr _ => sight

/-- The locals in sight behind a statement: only a declaration leaves any. -/
def Statement.behind (sight : Sight) (next : Nat) : Statement → Sight
  | .simple s _ => s.behind sight next
  | _ => sight

def startMeanings (sight : Sight) (next : Nat) (start : Option (Located Simple)) : List Meaning :=
  (start.map (·.value.meanings sight next)).getD []

def startBehind (sight : Sight) (next : Nat) (start : Option (Located Simple)) : Sight :=
  (start.map (·.value.behind sight next)).getD sight

mutual

/-- What names in a statement mean, in the order of its code. -/
def Statement.meanings (sight : Sight) (next : Nat) : Statement → List Meaning
  | .block body _ => Statement.meaningsAll sight next body
  | .simple s _ => s.meanings sight next
  | .ifThen test body _ | .whileLoop test body _ =>
    test.meanings sight ++ body.meanings sight next
  | .ifElse test first second _ =>
    test.meanings sight ++ first.meanings sight next
      ++ second.meanings sight (next + first.locals.length)
  | .forLoop start test step body _ =>
    let inner := startBehind sight next start
    startMeanings sight next start ++ (Expr.optionMeanings inner test
      ++ body.meanings inner (next + ((start.map (·.value.locals)).getD []).length)
      ++ Expr.optionMeanings inner step)
  | .doLoop body test _ => body.meanings sight next ++ test.meanings sight
  | .returnFrom value _ => Expr.optionMeanings sight value
  | .breakLoop _ | .continueLoop _ | .discardPixel _ | .empty _ => []

def Statement.meaningsAll (sight : Sight) (next : Nat) : List Statement → List Meaning
  | [] => []
  | first :: rest =>
    first.meanings sight next
      ++ Statement.meaningsAll (first.behind sight next) (next + first.locals.length) rest

end

def Function.sight (f : Function) : Sight :=
  (f.parameters.zipIdx.map fun (p, slot) => (p.name.getD "", slot)).filter (!·.1.isEmpty)

def Function.meanings (f : Function) (body : Body) : List Meaning :=
  Statement.meaningsAll f.sight f.parameters.length body.statements

end Ast

/-- The variable of a meaning, where certain global variables are declared. -/
def Ast.Meaning.operand? (globals : List Variable) : Ast.Meaning → Option Operand
  | .slot number => some (.slot (.ofNat number))
  | .global name =>
    (globals.findIdx? (·.name = name)).map fun index => .global (.ofNat index)

theorem Typed.Registry.map_global? (r : Registry) (name : String) :
    (r.global? name).map (·.1) = r.allGlobals.findIdx? (·.name = name) :=
  map_findPlace? _ _

/-- More global variables behind those that are declared change no meaning. -/
theorem Ast.Meaning.operand?_of_prefix {globals more : List Variable} (h : globals <+: more)
    {m : Ast.Meaning} {o : Operand} (ho : m.operand? globals = some o) :
    m.operand? more = some o := by
  obtain ⟨rest, rfl⟩ := h
  cases m with
  | slot number => exact ho
  | global name =>
    obtain ⟨index, hindex, rfl⟩ := Option.map_eq_some_iff.mp ho
    refine Option.map_eq_some_iff.mpr ⟨index, ?_, rfl⟩
    rw [List.findIdx?_append, hindex]
    rfl

/-! ## Scopes -/

def Scopes.sight (scopes : Scopes) : Ast.Sight :=
  scopes.flatten.map fun x => (x.name, x.slot)

theorem lookup_bindings (bindings : List Binding) (name : String) :
    (bindings.map fun x => (x.name, x.slot)).lookup name
      = (bindings.find? (·.name = name)).map (·.slot) := by
  induction bindings with
  | nil => rfl
  | cons first rest ih =>
    rw [List.map_cons, List.lookup_cons, List.find?_cons, ih]
    by_cases hname : first.name = name
    · simp [hname]
    · rw [beq_false_of_ne (Ne.symm hname), decide_eq_false hname]

theorem Scopes.find?_eq (scopes : Scopes) (name : String) :
    scopes.find? name = scopes.flatten.find? (·.name = name) := by
  rw [List.find?_flatten]
  rfl

theorem Scopes.lookup_sight (scopes : Scopes) (name : String) :
    scopes.sight.lookup name = (scopes.find? name).map (·.slot) := by
  rw [sight, lookup_bindings, find?_eq]

theorem Scopes.sight_bind {scopes : Scopes} (h : scopes ≠ []) (x : Binding) :
    (scopes.bind x).sight = (x.name, x.slot) :: scopes.sight := by
  cases scopes with
  | nil => exact absurd rfl h
  | cons inner outer => rfl

namespace BodyEnv

variable {b : BodyEnv} {scopes : Scopes} {sight : Ast.Sight}

/-- Certain locals are in sight, and there is a scope to declare more in. -/
structure InSight (sight : Ast.Sight) (scopes : Scopes) : Prop where
  eq : scopes.sight = sight
  nonempty : scopes ≠ []

theorem InSight.push (h : InSight sight scopes) : InSight sight ([] :: scopes) :=
  ⟨h.eq, List.cons_ne_nil _ _⟩

theorem InSight.bind (h : InSight sight scopes) (x : Binding) :
    InSight ((x.name, x.slot) :: sight) (scopes.bind x) := by
  refine ⟨by rw [Scopes.sight_bind h.nonempty, h.eq], ?_⟩
  have hnonempty := h.nonempty
  cases scopes with
  | nil => exact absurd rfl hnonempty
  | cons inner outer => exact List.cons_ne_nil _ _

/-- A name means the local in sight, and otherwise a global variable. -/
theorem InSight.operand? (h : InSight sight scopes) (name : String) :
    (b.env scopes).operand? name = (sight.meaning name).operand? b.registry.allGlobals := by
  have hlookup := Scopes.lookup_sight scopes name
  rw [h.eq] at hlookup
  unfold Env.operand? Ast.Sight.meaning
  rw [hlookup]
  cases hfound : scopes.find? name with
  | none =>
    simp only [env, hfound, Option.map_none, Ast.Meaning.operand?, ← Registry.map_global?,
      Option.map_map]
    rfl
  | some found => simp [env, hfound, Ast.Meaning.operand?]

/-- Operands are what names mean, in this order. -/
abbrev Finds (b : BodyEnv) : List Ast.Meaning → List Operand → Prop :=
  Denote (Ast.Meaning.operand? b.registry.allGlobals)

theorem InSight.finds (h : InSight sight scopes) {names : List String} {operands : List Operand}
    (hnames : (b.env scopes).Names names operands) : b.Finds (names.map sight.meaning) operands :=
  hnames.map fun name _ ho => (h.operand? name).symm.trans ho

end BodyEnv

end ShaderBytecode
