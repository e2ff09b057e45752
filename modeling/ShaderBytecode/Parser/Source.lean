import ShaderBytecode.Parser.Declaration

/-!
# Reading statements and whole sources

A statement takes one unit of the nesting budget, as an operator of an expression does.
-/

namespace ShaderBytecode

namespace Parser

open Ast (Expr Simple Statement)

/-- Whether the next tokens start a declaration: a qualifier, or two names. -/
def startsDeclaration : Parser Bool := do
  let c ← get
  match c.peek with
  | some (.keyword (.storage _)) | some (.keyword .inputOutput)
  | some (.keyword .precisionLevel) | some (.keyword .layout) => return true
  | some (.word _) =>
    match c.peekSecond with
    | some (.word _) => return true
    | _ => return false
  | _ => return false

def simple (d : Dialect) (expression : Parser Expr) : Parser Simple := do
  if ← startsDeclaration then
    let head ← head
    return .declare (← declarators d expression head)
  else
    let value ← expression
    let _ ← expectMark .semicolon
    return .expr value

def condition (expression : Parser Expr) : Parser Expr := do
  let _ ← expectMark .openParen
  let found ← expression
  let _ ← expectMark .closeParen
  return found

/-- An expression that may be left out before a mark, and the mark. -/
def optionalUpTo (mark : Punct) (expression : Parser Expr) : Parser (Option Expr) := do
  let found ← if ← isNext (.punct mark) then pure none else some <$> expression
  let _ ← expectMark mark
  return found

/-- Statements in at most `length` tokens up to the closing brace, and its span. -/
def statementsWithin (inner : Parser Statement) : (length : Nat) → Parser (List Statement × Span)
  | 0 => fail .unterminatedBlock
  | length + 1 => do
    match ← peek with
    | none => fail .unterminatedBlock
    | some (.punct .closeBrace) =>
      let close ← here
      advance
      return ([], close)
    | some _ =>
      let first ← inner
      let (more, close) ← statementsWithin inner length
      return (first :: more, close)

def body (inner : Parser Statement) : Parser Ast.Body := do
  let start ← expectMark .openBrace
  let (statements, close) ← statementsWithin inner (← get).rest.length
  return ⟨statements, start.through close⟩

/-- The first part of the header of a `for` loop, and its semicolon. -/
def forStart (d : Dialect) (expression : Parser Expr) : Parser (Option (Located Simple)) := do
  if ← eatMark .semicolon then return none
  else
    let start ← here
    let found ← simple d expression
    return some ⟨found, start.through (← behind)⟩

def statement (d : Dialect) : (budget : Nat) → Parser Statement
  | 0 => fail .nestingTooDeep
  | budget + 1 => do
    let start ← here
    let expression := Parser.expression budget
    match ← peek with
    | some (.punct .openBrace) =>
      let found ← body (statement d budget)
      return .block found.statements (start.through (← behind))
    | some (.punct .semicolon) =>
      advance
      return .empty (start.through (← behind))
    | some (.keyword .ifThen) =>
      advance
      let test ← condition expression
      let whenTrue ← statement d budget
      if ← eat (.keyword .elseThen) then
        let whenFalse ← statement d budget
        return .ifElse test whenTrue whenFalse (start.through (← behind))
      else return .ifThen test whenTrue (start.through (← behind))
    | some (.keyword .whileLoop) =>
      advance
      let test ← condition expression
      let inner ← statement d budget
      return .whileLoop test inner (start.through (← behind))
    | some (.keyword .doLoop) =>
      advance
      let inner ← statement d budget
      expectWhile
      let test ← condition expression
      let _ ← expectMark .semicolon
      return .doLoop inner test (start.through (← behind))
    | some (.keyword .forLoop) =>
      advance
      let _ ← expectMark .openParen
      let first ← forStart d expression
      let test ← optionalUpTo .semicolon expression
      let step ← optionalUpTo .closeParen expression
      let inner ← statement d budget
      return .forLoop first test step inner (start.through (← behind))
    | some (.keyword .returnFrom) =>
      advance
      let value ← optionalUpTo .semicolon expression
      return .returnFrom value (start.through (← behind))
    | some (.keyword .breakLoop) =>
      advance
      let _ ← expectMark .semicolon
      return .breakLoop (start.through (← behind))
    | some (.keyword .continueLoop) =>
      advance
      let _ ← expectMark .semicolon
      return .continueLoop (start.through (← behind))
    | some (.keyword .discardPixel) =>
      advance
      let _ ← expectMark .semicolon
      return .discardPixel (start.through (← behind))
    | some (.keyword .elseThen) => failAt start .elseWithoutIf
    | _ =>
      let found ← simple d expression
      return .simple found (start.through (← behind))

/-- The body of a function, or nothing behind a prototype. -/
def functionBody (d : Dialect) : Parser (Option Ast.Body) := do
  if ← eatMark .semicolon then return none
  else if ← isNext (.punct .openBrace) then some <$> body (statement d nestingLimit)
  else fail (.functionBody (← peek))

def function (d : Dialect) (head : Head) : Parser Ast.Function := do
  if let some storage := head.storage then failAt head.type.span (.functionStorage storage)
  unless head.layout.isEmpty do failAt head.type.span .functionLayout
  let _ ← expectMark .openParen
  let parameters ← parameters d
  let returnSemantic ← semantic d
  let body ← functionBody d
  return ⟨head.type, head.name.value, parameters, returnSemantic, body, head.name.span⟩

/-- A default precision, which means nothing here; the keyword is next. -/
def precision : Parser Unit := do
  advance
  let _ ← eat (.keyword .precisionLevel)
  match ← peek with
  | some (.word _) =>
    advance
    let _ ← expectMark .semicolon
  | found => fail (.precisionType found)

def headed (d : Dialect) : Parser Ast.Declaration := do
  let head ← head
  if ← isNext (.punct .openParen) then return .function (← function d head)
  else return .declare (← declarators d (expression nestingLimit) head)

/-- Declarations in at most `length` tokens. Semicolons may stand between them. -/
def declarationsWithin (d : Dialect) : (length : Nat) → Parser (List Ast.Declaration)
  | 0 => return []
  | length + 1 => do
    match ← peek with
    | none => return []
    | some (.punct .semicolon) =>
      advance
      declarationsWithin d length
    | some (.keyword .precision) =>
      precision
      declarationsWithin d length
    | some (.keyword .struct) =>
      let found ← structDeclaration d
      return .struct found :: (← declarationsWithin d length)
    | some (.keyword .cbuffer) =>
      let found ← bufferDeclaration d
      return .buffer found :: (← declarationsWithin d length)
    | some _ =>
      let found ← headed d
      return found :: (← declarationsWithin d length)

def declarations (d : Dialect) : Parser (List Ast.Declaration) := do
  declarationsWithin d (← get).rest.length

end Parser

def Ast.ofTokens (d : Dialect) (scanned : Scanned) :
    Except (Located SyntaxFault) (List Ast.Declaration) :=
  (Parser.declarations d).run' ⟨none, scanned.tokens, scanned.stop⟩

end ShaderBytecode
