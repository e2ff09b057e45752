import ShaderBytecode.Ast

/-!
# Respelled syntax trees

What becomes of a syntax tree if its words are spelled in another way and its parts stand elsewhere.
A callee may be spelled by the number of its arguments.
-/

namespace ShaderBytecode

/-- How words are spelled anew, and where things stand then. -/
structure Respelling where
  word : String → String
  /-- How the name of a function is spelled that is called with so many arguments. -/
  callee : String → (arguments : Nat) → String
  span : Span → Span

namespace Respelling

variable (ρ : Respelling)

def name (n : Located String) : Located String :=
  ⟨ρ.word n.value, ρ.span n.span⟩

def layoutEntry (entry : LayoutEntry) : LayoutEntry :=
  ⟨ρ.word entry.name, entry.value⟩

end Respelling

namespace Ast

mutual

def Expr.respell (ρ : Respelling) : Expr → Expr
  | .int value span => .int value (ρ.span span)
  | .float value span => .float value (ρ.span span)
  | .bool value span => .bool value (ρ.span span)
  | .name w span => .name (ρ.word w) (ρ.span span)
  | .call callee arguments span =>
    .call (ρ.callee callee arguments.length) (Expr.respellAll ρ arguments) (ρ.span span)
  | .member base w span => .member (base.respell ρ) (ρ.word w) (ρ.span span)
  | .index base place span => .index (base.respell ρ) (place.respell ρ) (ρ.span span)
  | .unary op operand span => .unary op (operand.respell ρ) (ρ.span span)
  | .binary op left right span => .binary op (left.respell ρ) (right.respell ρ) (ρ.span span)
  | .assign op target value span => .assign op (target.respell ρ) (value.respell ρ) (ρ.span span)
  | .ternary test whenTrue whenFalse span =>
    .ternary (test.respell ρ) (whenTrue.respell ρ) (whenFalse.respell ρ) (ρ.span span)
  | .step op operand span => .step op (operand.respell ρ) (ρ.span span)

def Expr.respellAll (ρ : Respelling) : List Expr → List Expr
  | [] => []
  | first :: rest => first.respell ρ :: Expr.respellAll ρ rest

end

variable (ρ : Respelling)

theorem Expr.respellAll_eq_map (es : List Expr) : respellAll ρ es = es.map (respell ρ) := by
  induction es with
  | nil => rfl
  | cons first rest ih => rw [respellAll, ih, List.map_cons]

@[simp]
theorem Expr.length_respellAll (es : List Expr) : (respellAll ρ es).length = es.length := by
  rw [respellAll_eq_map, List.length_map]

@[simp]
theorem Expr.span_respell (e : Expr) : (e.respell ρ).span = ρ.span e.span := by
  cases e <;> rfl

def Declarator.respell (d : Declarator) : Declarator :=
  ⟨ρ.word d.name, d.length, d.semantic.map ρ.word, d.initializer.map (Expr.respell ρ),
    ρ.span d.span⟩

def Variables.respell (v : Variables) : Variables :=
  ⟨v.storage, v.layout.map ρ.layoutEntry, ρ.name v.type,
    v.declarators.map (Declarator.respell ρ)⟩

def Member.respell (m : Member) : Member :=
  ⟨ρ.name m.type, ρ.word m.name, m.length, m.semantic.map ρ.word, ρ.span m.span⟩

def Structure.respell (s : Structure) : Structure :=
  ⟨ρ.word s.name, s.members.map (Member.respell ρ), ρ.span s.span⟩

def Buffer.respell (b : Buffer) : Buffer :=
  ⟨ρ.word b.name, b.register.map ρ.word, b.members.map (Member.respell ρ)⟩

def Parameter.respell (p : Parameter) : Parameter :=
  ⟨p.passing, p.isConst, ρ.name p.type, p.name.map ρ.word, p.length, p.semantic.map ρ.word,
    ρ.span p.span⟩

def Simple.respell : Simple → Simple
  | .declare v => .declare (v.respell ρ)
  | .expr e => .expr (e.respell ρ)

def Simple.respellAt (s : Located Simple) : Located Simple :=
  ⟨s.value.respell ρ, ρ.span s.span⟩

mutual

def Statement.respell (ρ : Respelling) : Statement → Statement
  | .block body span => .block (Statement.respellAll ρ body) (ρ.span span)
  | .simple s span => .simple (s.respell ρ) (ρ.span span)
  | .ifThen test body span => .ifThen (test.respell ρ) (body.respell ρ) (ρ.span span)
  | .ifElse test whenTrue whenFalse span =>
    .ifElse (test.respell ρ) (whenTrue.respell ρ) (whenFalse.respell ρ) (ρ.span span)
  | .forLoop start test step body span =>
    .forLoop (start.map (Simple.respellAt ρ)) (test.map (Expr.respell ρ))
      (step.map (Expr.respell ρ)) (body.respell ρ) (ρ.span span)
  | .whileLoop test body span => .whileLoop (test.respell ρ) (body.respell ρ) (ρ.span span)
  | .doLoop body test span => .doLoop (body.respell ρ) (test.respell ρ) (ρ.span span)
  | .returnFrom value span => .returnFrom (value.map (Expr.respell ρ)) (ρ.span span)
  | .breakLoop span => .breakLoop (ρ.span span)
  | .continueLoop span => .continueLoop (ρ.span span)
  | .discardPixel span => .discardPixel (ρ.span span)
  | .empty span => .empty (ρ.span span)

def Statement.respellAll (ρ : Respelling) : List Statement → List Statement
  | [] => []
  | first :: rest => first.respell ρ :: Statement.respellAll ρ rest

end

theorem Statement.respellAll_eq_map (body : List Statement) :
    respellAll ρ body = body.map (respell ρ) := by
  induction body with
  | nil => rfl
  | cons first rest ih => rw [respellAll, ih, List.map_cons]

def Body.respell (b : Body) : Body :=
  ⟨b.statements.map (Statement.respell ρ), ρ.span b.span⟩

def Function.respell (f : Function) : Function :=
  ⟨ρ.name f.returnType, ρ.word f.name, f.parameters.map (Parameter.respell ρ),
    f.returnSemantic.map ρ.word, f.body.map (Body.respell ρ), ρ.span f.span⟩

def Declaration.respell : Declaration → Declaration
  | .struct s => .struct (s.respell ρ)
  | .declare v => .declare (v.respell ρ)
  | .buffer b => .buffer (b.respell ρ)
  | .function f => .function (f.respell ρ)

end Ast

end ShaderBytecode
