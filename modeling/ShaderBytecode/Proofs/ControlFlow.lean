import ShaderBytecode.Proofs.Compilation
import ShaderBytecode.Proofs.Layout

/-!
# Emission preserves control flow

The code of an expression does what its evaluation does, and the code of a statement realizes what
the statement does, loops and what leaves them included. So running the bytes of a program from the
address of a function halts just if the evaluation of its body halts, at the same instruction and
with the same state.
-/

namespace ShaderBytecode

universe u

theorem ArithOp.isFinal_operation (op : ArithOp) :
    (Instruction.simple op.operation).isFinal = false := by
  cases op <;> rfl

theorem CompareOp.isFinal_operation (op : CompareOp) :
    (Instruction.simple op.operation).isFinal = false := by
  cases op <;> rfl

theorem Ast.UnaryOp.isFinal_operation (op : Ast.UnaryOp) :
    (Instruction.simple op.operation).isFinal = false := by
  cases op <;> rfl

theorem Ast.StepOp.isFinal_operation (op : Ast.StepOp) :
    (Instruction.simple op.operation).isFinal = false := by
  cases op <;> rfl

namespace Typed

open Item (Behaves behaves_nil behaves_append behaves_op behaves_final behaves_skip behaves_choose)

variable {σ : Type u} {m : Machine σ} {bytes : List UInt8}

/-! ## Expressions -/

abbrev Does (m : Machine σ) (bytes : List UInt8) (items : List Item) (f : σ → σ) : Prop :=
  Behaves m bytes items (.ofFunction .goesOn f)

theorem Does.append {first second : List Item} {f g : σ → σ} (hf : Does m bytes first f)
    (hg : Does m bytes second g) : Does m bytes (first ++ second) fun s => g (f s) := by
  have happend := behaves_append hf hg
  rwa [Behaviour.ofFunction_andThen_ofFunction] at happend

theorem does_indexed (op : IndexedOp) (index : Nat) :
    Does m bytes [.indexed op index] (m.indexed op index) :=
  behaves_op rfl rfl

theorem does_simple {op : SimpleOp} (h : (Instruction.simple op).isFinal = false) :
    Does m bytes [.simple op] (m.simple op) :=
  behaves_op rfl h

theorem Does.choose {first second : List Item} {f g : σ → σ} (hf : Does m bytes first f)
    (hg : Does m bytes second g) : Does m bytes (Item.choose first second) fun s =>
      if (m.test s).1 then f (m.test s).2 else g (m.test s).2 := by
  have hchoose := behaves_choose hf hg
  rwa [Behaviour.branch_ofFunction] at hchoose

theorem Does.skip {op : LogicOp} {body : List Item} {f : σ → σ} (hf : Does m bytes body f) :
    Does m bytes (Item.skip op.decides body) fun s =>
      if op.decidedBy (m.test s).1 then (m.test s).2 else f (m.test s).2 := by
  have hskip := behaves_skip op.decides hf
  rw [Behaviour.branch_ofFunction] at hskip
  cases op with
  | and => exact hskip
  | or => exact hskip

theorem does_assignmentCode (op : Option ArithOp) (target : Place) {reference value : List Item}
    {refer eval : σ → σ} (href : Does m bytes reference refer) (hvalue : Does m bytes value eval) :
    Does m bytes (assignmentCode op target reference value)
      (m.assign op (target.access m) refer eval) := by
  have hwrite (set : IndexedOp) (slot : Nat) : Does m bytes [.simple .dup, .indexed set slot]
      fun s => m.indexed set slot (m.simple .dup s) :=
    (does_simple rfl).append (does_indexed set slot)
  have hstore : Does m bytes [.simple .store] (m.simple .store) := does_simple rfl
  cases op with
  | none =>
    cases target with
    | localVar slot _ => exact hvalue.append (hwrite .setLocal slot)
    | globalVar slot _ => exact hvalue.append (hwrite .setGlobal slot)
    | member _ _ _ | swizzle _ _ _ | index _ _ _ => exact (href.append hvalue).append hstore
  | some op =>
    have hop : Does m bytes [.simple op.operation] (m.simple op.operation) :=
      does_simple op.isFinal_operation
    have hload : Does m bytes [.simple .dup, .simple .load]
        fun s => m.simple .load (m.simple .dup s) := (does_simple rfl).append (does_simple rfl)
    cases target with
    | localVar slot _ =>
      exact ((does_indexed .getLocal slot).append hvalue).append
        (hop.append (hwrite .setLocal slot))
    | globalVar slot _ =>
      exact ((does_indexed .getGlobal slot).append hvalue).append
        (hop.append (hwrite .setGlobal slot))
    | member _ _ _ | swizzle _ _ _ | index _ _ _ =>
      exact ((href.append hload).append hvalue).append (hop.append hstore)

mutual

theorem Expr.behaves : (e : Expr) → Does m bytes e.code (e.eval m)
  | .int _ => behaves_op rfl rfl
  | .float _ => behaves_op rfl rfl
  | .bool _ => behaves_op rfl rfl
  | .localVar slot _ => does_indexed .getLocal slot
  | .globalVar slot _ => does_indexed .getGlobal slot
  | .member base index _ => base.behaves.append (does_indexed .getMember index)
  | .swizzle base _ _ => base.behaves.append (behaves_op rfl rfl)
  | .index base index _ => (base.behaves.append index.behaves).append (does_simple rfl)
  | .unary op operand => operand.behaves.append (does_simple op.isFinal_operation)
  | .arith op left right _ =>
    (left.behaves.append right.behaves).append (does_simple op.isFinal_operation)
  | .compare op left right =>
    (left.behaves.append right.behaves).append (does_simple op.isFinal_operation)
  | .logic _ left right =>
    left.behaves.append ((does_simple rfl).append (.skip ((does_simple rfl).append right.behaves)))
  | .ternary test whenTrue whenFalse =>
    test.behaves.append (.choose whenTrue.behaves whenFalse.behaves)
  | .assign op target value => does_assignmentCode op target target.behaves value.behaves
  | .step op target => target.behaves.append (does_simple op.isFinal_operation)
  | .call _ arguments _ => (Argument.behavesAll arguments).append (behaves_op rfl rfl)
  | .intrinsic _ arguments _ => (Expr.behavesAll arguments).append (behaves_op rfl rfl)
  | .construct _ _ arguments => (Expr.behavesAll arguments).append (behaves_op rfl rfl)

/-- The code of a reference does what referring to the place does. -/
theorem Place.behaves : (place : Place) → Does m bytes place.reference (place.refer m)
  | .localVar slot _ => does_indexed .refLocal slot
  | .globalVar slot _ => does_indexed .refGlobal slot
  | .member base index _ => base.behaves.append (does_indexed .refMember index)
  | .swizzle base _ _ => base.behaves.append (behaves_op rfl rfl)
  | .index base index _ => (base.behaves.append index.behaves).append (does_simple rfl)

theorem Argument.behaves : (argument : Argument) → Does m bytes argument.code (argument.eval m)
  | .value value => value.behaves
  | .reference place => place.behaves

theorem Expr.behavesAll : (es : List Expr) → Does m bytes (Expr.codeAll es) (Expr.evalAll m es)
  | [] => behaves_nil
  | first :: rest => first.behaves.append (Expr.behavesAll rest)

theorem Argument.behavesAll :
    (arguments : List Argument) →
      Does m bytes (Argument.codeAll arguments) (Argument.evalAll m arguments)
  | [] => behaves_nil
  | first :: rest => first.behaves.append (Argument.behavesAll rest)

end

/-! ## Statements -/

section Statements

variable {markers : Bool}

theorem does_marker (markers : Bool) (line : Nat) :
    Does m bytes (marker markers line) (m.mark markers line) := by
  cases markers with
  | false => exact behaves_nil
  | true => exact does_indexed .line line

/-- What stands behind items that do something finds the state they leave. -/
theorem Does.before {first second : List Item} {f : σ → σ} {b : Behaviour σ}
    (hf : Does m bytes first f) (hb : Behaves m bytes second b) :
    Behaves m bytes (first ++ second) fun s => b (f s) := by
  have happend := behaves_append hf hb
  rwa [Behaviour.ofFunction_andThen] at happend

theorem Expr.behaves_effect (e : Expr) : Does m bytes e.effect (e.perform m) := by
  have hvoid : e.perform m
      = if e.type.isVoid then e.eval m else fun s => m.simple .pop (e.eval m s) := by
    funext s
    unfold Expr.perform
    split <;> rfl
  rw [hvoid, Expr.effect]
  split
  · exact e.behaves
  · exact e.behaves.append (does_simple rfl)

theorem Expr.behaves_optionEffect (e : Option Expr) :
    Does m bytes (Expr.optionEffect e) (Expr.performOption m e) := by
  cases e with
  | none => exact behaves_nil
  | some e => exact e.behaves_effect

theorem Expr.behaves_returnCode (value : Option Expr) :
    Behaves m bytes (returnCode value) (Expr.returns m value) := by
  cases value with
  | none => exact behaves_final rfl
  | some value => exact value.behaves.before (behaves_final rfl)

theorem behaves_branchCode {first : List Item} {a : Behaviour σ} {second : List Statement}
    (ha : Behaves m bytes first a)
    (hb : Behaves m bytes (Statement.codeAll markers second)
      (Statement.AllEvaluate m markers second)) :
    Behaves m bytes (branchCode first (Statement.codeAll markers second) !second.isEmpty)
      (.branch m.test a (Statement.AllEvaluate m markers second)) := by
  cases second with
  | nil =>
    have hskip := behaves_skip .ifFalse ha
    rw [Behaviour.branch_takes_ifFalse] at hskip
    exact hskip
  | cons next rest => exact behaves_choose ha hb

theorem behaves_loop (test step : Option Expr) {body : List Item} {b : Behaviour σ}
    (hb : Behaves m bytes body b) :
    Behaves m bytes (Item.repeatWhile (test.map Expr.code) body (Expr.optionEffect step))
      (Rounds (Expr.enters m test) b fun s => (true, Expr.performOption m step s)) := by
  cases test with
  | none => exact Item.behaves_backWhen hb (Expr.behaves_optionEffect step)
  | some test => exact Item.behaves_repeatWhile test.behaves hb (Expr.behaves_optionEffect step)

mutual

theorem Statement.behaves :
    (s : Statement) → Behaves m bytes (s.code markers) (s.Evaluates m markers)
  | .expr value line => (does_marker markers line).before value.behaves_effect
  | .declare slot value line =>
    ((does_marker markers line).append value.behaves).append (does_indexed .setLocal slot)
  | .ifElse test whenTrue whenFalse line =>
    ((does_marker markers line).append test.behaves).before
      (behaves_branchCode (Statement.behavesAll whenTrue) (Statement.behavesAll whenFalse))
  | .loop test step body line =>
    (does_marker markers line).before (behaves_loop test step (Statement.behavesAll body))
  | .doLoop body test line =>
    (does_marker markers line).before
      (Item.behaves_backWhen (Statement.behavesAll body) test.behaves)
  | .returnFrom value line => (does_marker markers line).before (Expr.behaves_returnCode value)
  | .leave kind line => (does_marker markers line).before (Item.behaves_leave kind)
  | .discardPixel line => (does_marker markers line).before (behaves_final rfl)
  | .block body => Statement.behavesAll body

/-- The code of statements realizes what they do, one after the other. -/
theorem Statement.behavesAll : (body : List Statement) →
    Behaves m bytes (Statement.codeAll markers body) (Statement.AllEvaluate m markers body)
  | [] => behaves_nil
  | first :: rest => behaves_append first.behaves (Statement.behavesAll rest)

end

end Statements

/-! ## Functions -/

section Functions

variable {markers : Bool}

theorem Expr.not_goesOn_returns {value : Option Expr} {s s' : σ} :
    ¬Expr.returns m value s .goesOn s' := by
  cases value with
  | none => exact fun h => nomatch h.1
  | some value => exact fun h => nomatch h.1

theorem Statement.not_goesOn_of_endsInReturn {body : List Statement}
    (h : endsInReturn body = true) (s s' : σ) :
    ¬Statement.AllEvaluate m markers body s .goesOn s' := by
  obtain ⟨init, value, line, rfl⟩ := endsInReturn_iff.mp h
  clear h
  induction init generalizing s with
  | nil =>
    rintro (⟨between, hreturn, -⟩ | ⟨hne, -⟩)
    · exact Expr.not_goesOn_returns hreturn
    · exact hne rfl
  | cons first rest ih =>
    rintro (⟨between, -, hrest⟩ | ⟨hne, -⟩)
    · exact ih between hrest
    · exact hne rfl

/-- The code of a body realizes what the body does, and the return at its end. -/
theorem Definition.behaves (d : Definition) : Behaves m bytes (d.code markers)
    ((Statement.AllEvaluate m markers d.body).andThen (Expr.returns m d.zero)) := by
  unfold Definition.code
  split
  · rename_i hends
    rw [List.append_nil, Behaviour.andThen_eq_left (Statement.not_goesOn_of_endsInReturn hends)]
    exact Statement.behavesAll d.body
  · exact behaves_append (Statement.behavesAll d.body) (Expr.behaves_returnCode d.zero)

/-- Running the bytes of a body halts just if its evaluation does. -/
theorem Definition.halts_iff (d : Definition) {front own back : List Instruction}
    (hcode : assemble (sizeAll front) (d.code markers) = .ok own)
    (hown : ∀ i ∈ own, i.WellFormed) {s s' : σ} {final : Instruction} :
    m.Halts (encodeAll (front ++ (own ++ back))) (sizeAll front) s final s'
      ↔ d.Evaluates m markers s final s' := by
  -- nothing leaves a body, so a leave may lead to where nothing can be fetched
  have hplaced := Item.allPlaced_of_assemble
    (fun _ => (encodeAll (front ++ (own ++ back))).length) back hcode hown
  have hbehaves : Behaves m (encodeAll (front ++ (own ++ back))) (d.code markers) _ := d.behaves
  have hrealizes := hbehaves _ _ hplaced
  constructor
  · rintro ⟨fuel, hrun⟩
    obtain ⟨o, s₁, hevaluates, hcontinues⟩ := hrealizes.complete hrun
    cases o with
    | goesOn =>
      obtain ⟨between, -, hreturn⟩ | ⟨hne, -⟩ := hevaluates
      · exact absurd hreturn Expr.not_goesOn_returns
      · exact absurd rfl hne
    | leaves kind =>
      rw [Outcome.Continues, m.run_length] at hcontinues
      cases hcontinues
    | stops i =>
      cases hcontinues
      exact hevaluates
  · intro hevaluates
    exact @hrealizes.sound s (.stops final) s' 0 _ hevaluates rfl

end Functions

/-! ## Emission -/

section Emission

variable {markers : Bool} {c : CodeContext} {p : Nat}

/-- The code of a return ends in an instruction behind which control does not go on. -/
theorem Expr.FitsResult.exists_returnCode {value : Option Expr} (h : Expr.FitsResult c value) :
    ∃ front op, returnCode value = front ++ [.simple op] ∧ (Instruction.simple op).isFinal = true
      ∧ Item.Standalone false front := by
  cases value with
  | none => exact ⟨[], .ret, rfl, rfl, Item.standalone_nil⟩
  | some value => exact ⟨value.code, .retValue, rfl, rfl, h.1.standalone⟩

theorem Definition.exists_code (markers : Bool) {d : Definition}
    (hbody : Statement.AllWellTyped c false d.body) (hzero : Expr.FitsResult c d.zero) :
    ∃ front op, d.code markers = front ++ [.simple op] ∧ (Instruction.simple op).isFinal = true
      ∧ Item.Standalone false front := by
  unfold Definition.code
  split
  · rename_i hends
    obtain ⟨init, value, line, hsplit⟩ := endsInReturn_iff.mp hends
    rw [hsplit, Statement.allWellTyped_append] at hbody
    obtain ⟨front, i, hreturn, hi, hfront⟩ := Expr.FitsResult.exists_returnCode hbody.2.1
    refine ⟨Statement.codeAll markers init ++ (marker markers line ++ front), i, ?_, hi,
      hbody.1.standalone.append ((standalone_marker markers line).append hfront)⟩
    have hlast : Statement.codeAll markers [.returnFrom value line]
        = marker markers line ++ returnCode value := List.append_nil _
    rw [hsplit, Statement.codeAll_append, hlast, hreturn]
    simp only [List.append_assoc, List.append_nil]
  · obtain ⟨front, i, hreturn, hi, hfront⟩ := hzero.exists_returnCode
    refine ⟨Statement.codeAll markers d.body ++ front, i, ?_, hi, hbody.standalone.append hfront⟩
    rw [hreturn, List.append_assoc]

/-- The code of a body can be assembled wherever its end has a place. -/
theorem Definition.exists_assemble (markers : Bool) {d : Definition}
    (hbody : Statement.AllWellTyped c false d.body) (hzero : Expr.FitsResult c d.zero)
    (hsize : p + Item.sizeAll (d.code markers) ≤ UInt32.size) :
    ∃ own, assemble p (d.code markers) = .ok own ∧ ∀ i ∈ own, i.WellFormed := by
  obtain ⟨front, op, hsplit, -, hfront⟩ := Definition.exists_code markers hbody hzero
  rw [hsplit] at hsize ⊢
  obtain ⟨own, hown⟩ := hfront.exists_assemble hsize
  have hcode := hfront.append (Item.standalone_simple op)
  exact ⟨own, hown, hcode.wellFormed hown⟩

def Function.codeSize (markers : Bool) (f : Function) : Nat :=
  (f.definition.map fun d => Item.sizeAll (d.code markers)).getD 0

def Registry.codeSize (markers : Bool) (r : Registry) : Nat :=
  (r.functions.map (Function.codeSize markers)).sum + Item.sizeAll (r.initCode markers)

def Function.StandsIn (markers : Bool) (start : Nat) (code : List Instruction) (f : Function)
    (placed : ShaderBytecode.Function) : Prop :=
  ∃ definition front own back, f.definition = some definition ∧ code = front ++ (own ++ back)
    ∧ placed.address = start + sizeAll front
    ∧ assemble (start + sizeAll front) (definition.code markers) = .ok own
    ∧ ∀ i ∈ own, i.WellFormed

theorem Function.StandsIn.behind {start : Nat} {first more : List Instruction} {f : Function}
    {placed : ShaderBytecode.Function}
    (h : f.StandsIn markers (start + sizeAll first) more placed) :
    f.StandsIn markers start (first ++ more) placed := by
  obtain ⟨definition, front, own, back, hdefinition, rfl, haddress, hown, hformed⟩ := h
  rw [Nat.add_assoc, ← sizeAll_code_append] at haddress hown
  exact ⟨definition, first ++ front, own, back, hdefinition, (List.append_assoc ..).symm, haddress,
    hown, hformed⟩

theorem Function.StandsIn.before {start : Nat} {code more : List Instruction} {f : Function}
    {placed : ShaderBytecode.Function} (h : f.StandsIn markers start code placed) :
    f.StandsIn markers start (code ++ more) placed := by
  obtain ⟨definition, front, own, back, hdefinition, rfl, hrest⟩ := h
  exact ⟨definition, front, own, back ++ more, hdefinition, by simp only [List.append_assoc], hrest⟩

/-- Functions whose code has a place are emitted one behind the other. -/
theorem exists_emitFunctions_of_size (markers : Bool) {d : Dialect} {r : Registry} :
    ∀ (fs : List Function) (p : Nat), (∀ f ∈ fs, f.WellTyped d r) →
      (∀ f ∈ fs, f.definition.isSome = true) →
      p + (fs.map (Function.codeSize markers)).sum ≤ UInt32.size →
      ∃ code functions, emitFunctions markers p fs = .ok (code, functions)
        ∧ sizeAll code = (fs.map (Function.codeSize markers)).sum
        ∧ List.Forall₂ (Function.StandsIn markers p code) fs functions
  | [], _, _, _, _ => ⟨[], [], rfl, rfl, .nil⟩
  | f :: rest, p, htyped, hdefined, hsize => by
    obtain ⟨definition, hdefinition⟩ :=
      Option.isSome_iff_exists.mp (hdefined f (List.mem_cons_self ..))
    obtain ⟨slots, hwell⟩ := htyped f (List.mem_cons_self ..) definition hdefinition
    have hfirst : f.codeSize markers = Item.sizeAll (definition.code markers) := by
      rw [Function.codeSize, hdefinition]
      rfl
    rw [List.map_cons, List.sum_cons, hfirst] at hsize ⊢
    obtain ⟨own, hown, hformed⟩ := Definition.exists_assemble (p := p) markers hwell.body
      hwell.zero (by omega)
    obtain ⟨more, others, hmore, hsizes, hall⟩ := exists_emitFunctions_of_size markers rest
      (p + Item.sizeAll (definition.code markers))
      (fun g hg => htyped g (List.mem_cons_of_mem _ hg))
      (fun g hg => hdefined g (List.mem_cons_of_mem _ hg)) (by omega)
    have hlength := sizeAll_assemble hown
    rw [← hlength] at hmore hall
    refine ⟨own ++ more, _, emitFunctions_cons hdefinition hown hmore, ?_, .cons ?_ ?_⟩
    · rw [sizeAll_code_append, hlength, hsizes]
    · exact ⟨definition, [], own, more, hdefinition, rfl, rfl, hown, hformed⟩
    · exact hall.imp fun _ _ hstands => hstands.behind

theorem Global.WellTyped.standalone {g : Global} {index : Nat} (h : g.WellTyped c index) :
    Item.Standalone false (g.code markers index) := by
  unfold Global.code
  split
  · rename_i value hvalue
    exact ((standalone_marker markers g.line).append (h.2 value hvalue).1.standalone).append
      (Item.standalone_op trivial rfl)
  · exact Item.standalone_nil

theorem standalone_flatMap_global (gs : List (Global × Nat))
    (h : ∀ g index, (g, index) ∈ gs → g.WellTyped c index) :
    Item.Standalone false (gs.flatMap fun (g, index) => g.code markers index) := by
  induction gs with
  | nil => exact Item.standalone_nil
  | cons first rest ih =>
    obtain ⟨g, index⟩ := first
    exact .append (h g index (List.mem_cons_self ..)).standalone
      (ih fun g index hmem => h g index (List.mem_cons_of_mem _ hmem))

/-- A source whose code has less than 4 GiB is emitted, and its code holds that of its functions. -/
theorem Registry.exists_emit_of_size {d : Dialect} {r : Registry} (hr : r.WellTyped d)
    (hdefined : ∀ f ∈ r.functions, f.definition.isSome = true)
    (hsize : r.codeSize markers ≤ UInt32.size) :
    ∃ e, r.emit markers = .ok e ∧ sizeAll e.code = r.codeSize markers
      ∧ List.Forall₂ (Function.StandsIn markers 0 e.code) r.functions e.functions := by
  rw [Registry.codeSize] at hsize
  obtain ⟨code, functions, hfunctions, hlength, hall⟩ :=
    exists_emitFunctions_of_size markers r.functions 0 hr.functions hdefined (by omega)
  obtain ⟨init, hinit⟩ := (standalone_flatMap_global (r.globals.zipIdx r.builtins.length)
    fun g index h => hr.zipIdx h).exists_assemble (p := sizeAll code) (i := .simple .ret)
    (by rw [hlength]; exact hsize)
  have hcode : assemble (sizeAll code) (r.initCode markers) = .ok init := hinit
  refine ⟨_, Registry.emit_eq_ok hfunctions hcode, ?_, hall.imp fun _ _ h => h.before⟩
  rw [sizeAll_code_append, hlength, sizeAll_assemble hcode, Registry.codeSize]

/-- Emission preserves control flow. An accepted source whose code has at most 4 GiB is emitted, and
whatever the instructions mean, running its bytes from the address of a function halts just if the
evaluation of the function's body halts, at the same instruction and with the same state. -/
theorem Registry.emit_evaluates {d : Dialect} {config : Config} {stage : Stage}
    {declarations : List Ast.Declaration} {r : Registry}
    (hr : (typeSource d config stage declarations).1 = .ok r)
    (hsize : r.codeSize markers ≤ UInt32.size) :
    ∃ e, r.emit markers = .ok e ∧ (encodeAll e.code).length = r.codeSize markers
      ∧ List.Forall₂ (fun f placed => ∃ definition, f.definition = some definition
        ∧ ∀ (σ : Type u) (m : Machine σ) (s : σ) (final : Instruction) (s' : σ),
          m.Halts (encodeAll e.code) placed.address s final s'
            ↔ definition.Evaluates m markers s final s') r.functions e.functions := by
  have haccepted := typeSource_meets d config stage declarations
  rw [hr] at haccepted
  obtain ⟨e, hemit, hlength, hall⟩ :=
    Registry.exists_emit_of_size haccepted.typed haccepted.defined hsize
  refine ⟨e, hemit, (length_encodeAll e.code).trans hlength, hall.imp fun f placed hstands => ?_⟩
  obtain ⟨definition, front, own, back, hdefinition, hcode, haddress, hown, hformed⟩ := hstands
  rw [Nat.zero_add] at haddress hown
  rw [hcode, haddress]
  exact ⟨definition, hdefinition, fun σ m s final s' => definition.halts_iff hown hformed⟩

theorem Registry.emit_evaluates_nested : ∃ declarations r,
    (typeSource .glsl {} .pixel declarations).1 = .ok r ∧ r.codeSize true ≤ UInt32.size
      ∧ r.functions ≠ [] ∧ ∃ e, r.emit true = .ok e
      ∧ List.Forall₂ (fun f placed => ∃ definition, f.definition = some definition
        ∧ ∀ (σ : Type) (m : Machine σ) (s : σ) (final : Instruction) (s' : σ),
          m.Halts (encodeAll e.code) placed.address s final s'
            ↔ definition.Evaluates m true s final s') r.functions e.functions := by
  have hsource : ((scan .glsl "void main() \x7b for (int i = 0; i < 2; i++) do \x7b
      if (i < 1) continue; break; \x7d while (true); \x7d").toOption.bind fun scanned =>
        (Ast.ofTokens .glsl scanned).toOption.bind fun declarations =>
          (typeSource .glsl {} .pixel declarations).1.toOption.filter fun r =>
            r.codeSize true ≤ UInt32.size ∧ r.functions.length ≠ 0).isSome = true := by
    decide +kernel
  obtain ⟨r, hr⟩ := Option.isSome_iff_exists.mp hsource
  obtain ⟨scanned, -, hr⟩ := Option.bind_eq_some_iff.mp hr
  obtain ⟨declarations, -, hr⟩ := Option.bind_eq_some_iff.mp hr
  obtain ⟨htyped, hgood⟩ := Option.filter_eq_some_iff.mp hr
  obtain ⟨hsize, hfunctions⟩ := of_decide_eq_true hgood
  obtain ⟨e, hemit, -, hall⟩ := Registry.emit_evaluates (eq_ok_of_toOption htyped) hsize
  exact ⟨declarations, r, eq_ok_of_toOption htyped, hsize,
    List.length_pos_iff.mp (Nat.pos_of_ne_zero hfunctions), e, hemit, hall⟩

end Emission

end Typed

end ShaderBytecode
