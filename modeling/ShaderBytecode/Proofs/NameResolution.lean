import ShaderBytecode.Proofs.RegisteredNames

/-!
# Names in code

The variables in the code of a function, and in the code that sets the global variables, are those
that the names in the source mean, one by one and in the order of the code.
-/

namespace ShaderBytecode

open Typed (Expr Registry Statement)

/-- What names in the start value of a global variable mean, and the variable itself. -/
def Ast.Part.initMeanings : Ast.Part → List Ast.Meaning
  | .global _ d => (d.initializer.map fun e => e.meanings [] ++ [.global d.name]).getD []
  | .struct _ | .member _ _ | .function _ => []

namespace Typed.Registry

variable {c : Context} {r r' : Registry} {source : Ast.Function} {body : Ast.Body}
variable {g : Typed.Function} {d : Definition}

abbrev Finds (r : Registry) : List Ast.Meaning → List Operand → Prop :=
  Denote (Ast.Meaning.operand? r.allGlobals)

theorem Precedes.finds (h : r.Precedes r') {meanings : List Ast.Meaning} {operands : List Operand}
    (hfinds : r.Finds meanings operands) : r'.Finds meanings operands :=
  hfinds.mono fun _ _ ho => Ast.Meaning.operand?_of_prefix h.globals ho

theorem map_zipIdx_parameters {env : Env} {declared : List Ast.Parameter} {found : List Parameter}
    (h : List.Forall₂ env.ParameterOf declared found) (start : Nat) :
    ((found.zip declared).zipIdx start).map (fun ((p, _), slot) => (p.name, slot))
      = (declared.zipIdx start).map fun (p, slot) => (p.name.getD "", slot) := by
  induction h generalizing start with
  | nil => rfl
  | cons hfirst _ ih =>
    rw [List.zip_cons_cons, List.zipIdx_cons, List.zipIdx_cons, List.map_cons, List.map_cons, ih]
    exact congrArg (fun name => (name, start) :: _) hfirst.name

theorem sight_parameterScope {env : Env} {signature : ShaderBytecode.Function}
    (h : List.Forall₂ env.ParameterOf source.parameters signature.parameters) :
    Scopes.sight [[], parameterScope signature source.parameters] = source.sight := by
  have hnames := map_zipIdx_parameters h 0
  simp only [Scopes.sight, List.flatten_cons, List.flatten_nil, List.nil_append, List.append_nil]
  rw [parameterScope, Ast.Function.sight, ← hnames, List.filter_map, List.filter_map, List.map_map]
  rfl

/-- The variables in the code of a function are those that the names in its body mean. -/
theorem DefinedBy.operands (h : r.DefinedBy c source body g d) (markers : Bool) :
    r.Finds (source.meanings body) (Item.operands (d.code markers)) := by
  obtain ⟨r₀, r₁, index, hbefore, hsignature, -, haccepts⟩ := h.accepted
  obtain ⟨frame, hrun, -⟩ := haccepts.statements
  have hparameters := (Env.signatureOf_of_functionSignature hsignature).parameters
  have hfinds := (declares_body hparameters.length_eq.symm hrun).2.finds
  rw [sight_parameterScope hparameters, List.length_map] at hfinds
  exact hbefore.finds (hfinds.of_eq (Definition.pick_code picksAccesses_operand h.defines.zero))

theorem outer_operand? (name : String) :
    (r.outer c).operand? name = (Ast.Meaning.global name).operand? r.allGlobals := by
  simp only [Env.operand?, Scopes.find?, List.findSome?_nil, Ast.Meaning.operand?,
    ← map_global?, Option.map_map]
  rfl

theorem operands_globalCode_concat (markers : Bool) (g : Global) :
    Item.operands (({ r with globals := r.globals ++ [g] } : Registry).globalCode markers)
      = Item.operands (r.globalCode markers)
        ++ Item.operands (g.code markers r.allGlobals.length) := by
  simp [globalCode, allGlobals, List.zipIdx_append]

theorem findIdx?_concat_of_fresh {d : Dialect} {v : Variable} (h : r.Fresh d v.name) :
    (r.allGlobals ++ [v]).findIdx? (·.name = v.name) = some r.allGlobals.length := by
  have hnone : r.allGlobals.findIdx? (·.name = v.name) = none := by
    refine List.findIdx?_eq_none_iff.mpr fun x hx => decide_eq_false fun hname => h.unused ?_
    simp only [names, List.mem_append]
    exact .inl (.inl (List.mem_map.mpr ⟨x, hx, hname⟩))
  rw [List.findIdx?_append, hnone]
  simp

theorem Places.globalCode {signature : ShaderBytecode.Function} {index : Nat}
    (h : r.Places c signature source index r') (markers : Bool) :
    r'.globalCode markers = r.globalCode markers := by
  cases h with
  | again => rfl
  | first => rfl

/-- The code that sets a global variable names those of its start value, and then itself. -/
theorem finds_initMeanings {v : Ast.Variables} {declared : Ast.Declarator} {type : DataType}
    {value : Option Expr} (markers : Bool)
    (hname : (r.outer c).checkName declared.name declared.span = .ok ())
    (hvalue : Option.Rel (fun e t => (r.outer c).exprOf e type .initializer = .ok t)
      declared.initializer value) :
    let g : Global := ⟨v.symbol declared type, value, declared.span.line⟩
    ({ r with globals := r.globals ++ [g] } : Registry).Finds
      (Ast.Part.global v declared).initMeanings
      (Item.operands (g.code markers r.allGlobals.length)) := by
  intro g
  rw [Ast.Part.initMeanings]
  generalize declared.initializer = start at hvalue
  cases hvalue with
  | none => exact denote_nil
  | @some e t ht =>
    have hown : (Ast.Meaning.global declared.name).operand?
        ({ r with globals := r.globals ++ [g] } : Registry).allGlobals
          = some (.global (.ofNat r.allGlobals.length)) := by
      have hconcat := findIdx?_concat_of_fresh (v := g.symbol) (fresh_of_checkName hname)
      simp only [Ast.Meaning.operand?, allGlobals, List.map_append, List.map_singleton,
        ← List.append_assoc]
      exact congrArg (Option.map _) hconcat
    have hstart : ({ r with globals := r.globals ++ [g] } : Registry).Finds (e.meanings [])
        t.operands :=
      (precedes_addGlobal g).finds
        ((Env.exprOf_names e t ht).map fun name _ ho => (outer_operand? name).symm.trans ho)
    refine (hstart.append (denote_singleton hown)).of_eq ?_
    simp [g, Global.code, IndexedOp.operand?, picksAccesses_operand.marker]

/-- The variables in the code that sets the global variables, from those of the parts so far. -/
theorem Registers.initOperands {part : Ast.Part} {done : List Ast.Part} {markers : Bool}
    (h : r.Registers c part r')
    (hr : r.Finds (done.flatMap Ast.Part.initMeanings) (Item.operands (r.globalCode markers))) :
    r'.Finds ((done ++ [part]).flatMap Ast.Part.initMeanings)
      (Item.operands (r'.globalCode markers)) := by
  rw [List.flatMap_append, List.flatMap_singleton]
  have hbefore := h.precedes.finds hr
  cases h with
  | struct =>
    rw [Ast.Part.initMeanings, List.append_nil]
    exact hbefore
  | global htype hname hstorage hvalue =>
    rw [operands_globalCode_concat]
    exact hbefore.append (finds_initMeanings markers hname hvalue)
  | member =>
    rw [operands_globalCode_concat]
    exact hbefore.append denote_nil
  | prototype hsignature hplace =>
    rw [Ast.Part.initMeanings, List.append_nil, hplace.globalCode]
    exact hbefore
  | function hsignature hplace =>
    rw [Ast.Part.initMeanings, List.append_nil]
    exact hbefore.of_eq (congrArg Item.operands (hplace.globalCode markers))

/-- The variables in the code of the initialisation are those that the start values name, each of
them in front of the variable it is for. -/
theorem Run.initOperands {parts : List Ast.Part} (h : Run c parts r r') (hr : r.globals = [])
    (markers : Bool) :
    r'.Finds (parts.flatMap Ast.Part.initMeanings) (Item.operands (r'.initCode markers)) := by
  have hstart : r.Finds (([] : List Ast.Part).flatMap Ast.Part.initMeanings)
      (Item.operands (r.globalCode markers)) := by
    rw [globalCode, hr]
    exact denote_nil
  have hglobals := h.keepsSoFar (P := fun done r => r.Finds (done.flatMap Ast.Part.initMeanings)
    (Item.operands (r.globalCode markers))) (fun _ _ _ _ hstep => hstep.initOperands) hstart
  exact hglobals.of_eq (operands_concat rfl)

end Typed.Registry

end ShaderBytecode
