import ShaderBytecode.Proofs.ReadOnly

/-!
# Samplers

A sampler cannot be copied or written to: it is a uniform of the shader, or is handed to a function
by value. That holds of samplers that stand alone. Arrays of samplers pass every check, since the
checks look at the type with its array length.
-/

namespace ShaderBytecode

open Typed (Registry Statement)

def DataType.isSamplerLike : DataType → Bool
  | .sampler2D | .array .sampler2D _ => true
  | _ => false

/-- Whether a global is a uniform. In HLSL all globals without a qualifier are. -/
def Variable.isUniform (d : Dialect) (v : Variable) : Bool :=
  v.storage = some .uniform || (d = .hlsl && v.storage.isNone)

/-- Values of some types are uniforms or parameters by value: no member of a structure and no
parameter by reference is of such a type, and each global of such a type is a uniform. -/
structure Program.Confines (p : Program) (d : Dialect) (held : DataType → Bool) : Prop where
  members : ∀ s ∈ p.structures, ∀ m ∈ s.members, held m.type = false
  globals : ∀ v ∈ p.builtins ++ p.globals, held v.type = true → v.isUniform d = true
  parameters : ∀ f ∈ p.functions, ∀ x ∈ f.parameters, x.passing.byReference = true →
    held x.type = false

/-- The locals of a function, of which each has a type, are of none of some types. -/
def Typed.Function.KeepsFromLocals (f : Typed.Function) (held : DataType → Bool) : Prop :=
  ∀ d ∈ f.definition, (Statement.localTypesAll d.body).length = d.locals.length
    ∧ ∀ type ∈ Statement.localTypesAll d.body, held type = false

namespace Typed

/-- The same of registries, with the locals of functions. -/
structure Registry.ConfinesSamplers (d : Dialect) (r : Registry) : Prop where
  members : ∀ s ∈ r.structures, ∀ m ∈ s.members, m.type ≠ .sampler2D
  globals : ∀ v ∈ r.allGlobals, v.type = .sampler2D → v.isUniform d = true
  parameters : ∀ f ∈ r.functions, ∀ x ∈ f.signature.parameters, x.passing.byReference = true →
    x.type ≠ .sampler2D
  locals : ∀ f ∈ r.functions, f.KeepsFromLocals (· = .sampler2D)

theorem Registry.confinesSamplers_start (d : Dialect) (stage : Stage) :
    ({ builtins := stageVariables d stage } : Registry).ConfinesSamplers d where
  members := List.forall_mem_nil _
  globals := by cases d <;> cases stage <;> decide
  parameters := List.forall_mem_nil _
  locals := List.forall_mem_nil _

end Typed

/-- A global whose storage is accepted is a uniform if it is a sampler. -/
theorem isUniform_of_checkStorage {c : Context} {type : DataType} {v : Ast.Variables}
    {d : Ast.Declarator} (h : checkStorage c type v.storage d = .ok ())
    (htype : type = .sampler2D) : (v.symbol d type).isUniform c.dialect = true := by
  have hgives : (checkStorage c type v.storage d).Gives fun _ =>
      type = .sampler2D → allowsSampler c.dialect v.storage = true := by
    unfold checkStorage
    cases stageRule? c v.storage with
    | some rule => exact nofun
    | none =>
      refine Check.gives_unless fun hsampler => ?_
      have hallowed : type = .sampler2D → allowsSampler c.dialect v.storage = true := by
        simpa using hsampler
      exact fun _ _ => hallowed
  have hallowed := hgives () h htype
  unfold Variable.isUniform Ast.Variables.symbol
  cases hdialect : c.dialect with
  | glsl =>
    rw [hdialect] at hallowed
    rw [Bool.or_eq_true]
    exact .inl hallowed
  | hlsl =>
    rw [hdialect] at hallowed
    rw [Bool.or_eq_true, Bool.and_eq_true]
    exact .inr ⟨rfl, hallowed⟩

theorem type_ne_of_checkLocal {isConst : Bool} {type : DataType} {d : Ast.Declarator}
    (h : BodyEnv.checkLocal isConst type d = .ok ()) : type ≠ .sampler2D := by
  rintro rfl
  cases h

namespace Typed.Registry

variable {c : Context} {r r' : Registry}

theorem AcceptsBody.keepsFromLocals {signature : ShaderBytecode.Function} {f : Ast.Function}
    {body : Ast.Body} {d : Definition} (h : r.AcceptsBody c signature f body d)
    (hcount : signature.parameters.length = f.parameters.length) :
    (Statement.localTypesAll d.body).length = d.locals.length
      ∧ ∀ type ∈ Statement.localTypesAll d.body, decide (type = .sampler2D) = false := by
  refine ⟨?_, fun type htype => ?_⟩
  · rw [h.locals_eq hcount, List.length_map, (h.localTypes hcount).length_eq]
  · obtain ⟨x, -, hx⟩ := exists_of_mem_right (h.localTypes hcount) htype
    exact decide_eq_false (type_ne_of_checkLocal hx.allowed)

/-- Registering a part of a source keeps samplers where they can be. -/
theorem Registers.confinesSamplers {part : Ast.Part} (h : r.Registers c part r')
    (hr : r.ConfinesSamplers c.dialect) : r'.ConfinesSamplers c.dialect := by
  have hparameters := h.forall_functions hr.parameters
    fun f signature _ _ _ _ hsignature _ _ x hx hreference => by
      obtain ⟨p, -, hp⟩ :=
        exists_of_mem_right (Env.signatureOf_of_functionSignature hsignature).parameters hx
      exact hp.noSampler (hp.passing ▸ hreference)
  have hlocals := h.forall_functions hr.locals fun f signature _ _ _ _ hsignature _ hbody d hd => by
    obtain ⟨body, -, haccepts⟩ := hbody d hd
    have hcount := (Env.signatureOf_of_functionSignature hsignature).parameters.length_eq
    exact haccepts.keepsFromLocals hcount.symm
  have hglobal : ∀ g : Global, (g.symbol.type = .sampler2D → g.symbol.isUniform c.dialect = true) →
      ∀ v ∈ ({ r with globals := r.globals ++ [g] } : Registry).allGlobals,
        v.type = .sampler2D → v.isUniform c.dialect = true := by
    intro g hg
    simp only [allGlobals, List.map_append, ← List.append_assoc]
    exact List.forall_mem_append.mpr ⟨hr.globals, List.forall_mem_singleton.mpr hg⟩
  cases h with
  | struct hname hmembers =>
    obtain ⟨added, rfl, hadded, -⟩ := Env.structMembers_gives [] _ _ hmembers
    refine ⟨List.forall_mem_append.mpr ⟨hr.members, List.forall_mem_singleton.mpr ?_⟩, hr.globals,
      hparameters, hlocals⟩
    intro m hm
    obtain ⟨source, -, hsource⟩ := exists_of_mem_right hadded hm
    exact hsource.noSampler
  | global htype hname hstorage hvalue =>
    exact ⟨hr.members, hglobal _ fun hsampler => isUniform_of_checkStorage hstorage hsampler,
      hparameters, hlocals⟩
  | member htype hname => exact ⟨hr.members, hglobal _ fun _ => rfl, hparameters, hlocals⟩
  | prototype hsignature hplace hbody =>
    exact ⟨hplace.rest.2 ▸ hr.members, hplace.rest.1 ▸ hr.globals, hparameters, hlocals⟩
  | function hsignature hplace hbody hd =>
    exact ⟨hplace.rest.2 ▸ hr.members, hplace.rest.1 ▸ hr.globals, hparameters, hlocals⟩

end Typed.Registry

/-! ## Compiled sources -/

section Compiled

variable {d : Dialect} {config : Config} {request : Request} {compiled : Compiled}

/-- Samplers stay uniforms. In a compiled source no member of a structure, no local and no parameter
by reference is a sampler, and every global that is one is a uniform. -/
theorem compile_confinesSamplers (h : compile d config request = .ok compiled) :
    compiled.program.Confines d (· = .sampler2D)
      ∧ ∃ r, Declares d config request r ∧ compiled.program.locals = r.localNames
        ∧ ∀ f ∈ r.functions, f.KeepsFromLocals (· = .sampler2D) := by
  obtain ⟨-, declarations, r, e, -, -, hdeclares, -, hemit, -, hprogram, hrun⟩ :=
    run_of_compile h
  have hr : r.ConfinesSamplers d :=
    hrun.keeps (P := Registry.ConfinesSamplers d) (fun _ _ _ _ hstep => hstep.confinesSamplers)
      (Registry.confinesSamplers_start d request.stage)
  refine ⟨?_, r, hdeclares, by rw [hprogram]; rfl, hr.locals⟩
  rw [hprogram]
  refine ⟨fun s hs m hm => decide_eq_false (hr.members s hs m hm),
    fun v hv hsampler => hr.globals v hv (of_decide_eq_true hsampler), ?_⟩
  intro f hf x hx hreference
  obtain ⟨g, hg, routine, rfl⟩ := exists_of_mem_right (forall₂_functions_of_emit hemit) hf
  exact decide_eq_false (hr.parameters g hg x hx hreference)

def samplersRequest : Request where
  stage := .pixel
  source := "uniform sampler2D u; vec4 f(sampler2D s) { float k = .5; return texture(s, vec2(k)); }
    void main() { gl_FragColor = f(u); }"

theorem compile_confinesSamplers_samplersRequest :
    ∃ compiled, compile .glsl {} samplersRequest = .ok compiled
      ∧ (∃ v ∈ compiled.program.globals, v.type = .sampler2D)
      ∧ compiled.program.Confines .glsl (· = .sampler2D)
      ∧ ∃ r, Declares .glsl {} samplersRequest r ∧ compiled.program.locals = r.localNames
        ∧ ∀ f ∈ r.functions, f.KeepsFromLocals (· = .sampler2D) := by
  have hsome : (compile .glsl {} samplersRequest).toOption.any
      (·.program.globals.any (·.type = .sampler2D)) = true := by decide +kernel
  obtain ⟨compiled, h, hglobals⟩ := exists_ok_of_any hsome
  obtain ⟨v, hv, hsampler⟩ := List.any_eq_true.mp hglobals
  exact ⟨compiled, h, ⟨v, hv, of_decide_eq_true hsampler⟩, compile_confinesSamplers h⟩

/-- A source with an array of samplers as a member, as a plain global, as a parameter by reference
and as a local. -/
def samplerArraysRequest : Request where
  stage := .vertex
  source := "struct S { sampler2D t[2]; }; sampler2D g[2]; void f(out sampler2D p[2]) { } "
    ++ "void main() { sampler2D l[2]; }"

theorem compile_samplerArraysRequest :
    ∃ compiled, compile .glsl {} samplerArraysRequest = .ok compiled
      ∧ (∃ s ∈ compiled.program.structures, ∃ m ∈ s.members, m.type.isSamplerLike = true)
      ∧ (∃ v ∈ compiled.program.globals, v.type.isSamplerLike = true ∧ v.isUniform .glsl = false)
      ∧ (∃ f ∈ compiled.program.functions, ∃ x ∈ f.parameters,
          x.passing.byReference = true ∧ x.type.isSamplerLike = true)
      ∧ ∃ r, Declares .glsl {} samplerArraysRequest r ∧ ∃ f ∈ r.functions, ∃ d ∈ f.definition,
          ∃ type ∈ Statement.localTypesAll d.body, type.isSamplerLike = true := by
  have hprogram : (compile .glsl {} samplerArraysRequest).toOption.any (fun c =>
      c.program.structures.any (·.members.any (·.type.isSamplerLike))
      && c.program.globals.any (fun v => v.type.isSamplerLike && !v.isUniform .glsl)
      && c.program.functions.any (·.parameters.any fun x =>
        x.passing.byReference && x.type.isSamplerLike)) = true := by decide +kernel
  have hlocals : (analyse .glsl {} samplerArraysRequest).toOption.any (fun found =>
      found.1.functions.any fun f => f.definition.any fun d =>
        (Statement.localTypesAll d.body).any DataType.isSamplerLike) = true := by decide +kernel
  simp only [Option.any_eq_true, List.any_eq_true, Bool.and_eq_true, Bool.not_eq_true'] at hprogram
  simp only [Option.any_eq_true, List.any_eq_true] at hlocals
  obtain ⟨compiled, hcompiled, ⟨hmember, hglobal⟩, hparameter⟩ := hprogram
  obtain ⟨⟨r, remarks⟩, hanalyse, f, hf, d, hd, htype⟩ := hlocals
  exact ⟨compiled, eq_ok_of_toOption hcompiled, hmember, hglobal, hparameter, r,
    declares_of_analyse (eq_ok_of_toOption hanalyse), f, hf, d, hd, htype⟩

end Compiled

end ShaderBytecode
