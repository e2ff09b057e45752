import ShaderBytecode.Ast
import ShaderBytecode.Parser.Cursor

/-!
# Reading expressions

How deep a source may nest is bounded by a budget. Every operator takes one unit of it: what is
read behind an operator is read with the budget that is left, so a chain of operators is bounded as
much as nested parentheses are, and the grammar is defined by recursion on the budget.
-/

namespace ShaderBytecode

open Ast (Expr)

def nestingLimit : Nat := 128

/-- The grammar of expressions for one budget. -/
structure Level where
  /-- A whole expression. -/
  assignment : Parser Expr
  ternary : Parser Expr
  /-- A chain of operators that bind at least so tightly. -/
  binary : (minimum : Nat) → Parser Expr
  /-- The rest of such a chain behind its left operand. -/
  binaryTail : (minimum : Nat) → Expr → Parser Expr
  unary : Parser Expr
  /-- The members, indices and steps behind an expression. -/
  suffixes : Expr → Parser Expr

namespace Level

open ShaderBytecode.Parser

/-- The grammar of what nests one level deeper, if the budget allows it. -/
def nest : Option Level → Parser Level
  | some lower => return lower
  | none => fail .nestingTooDeep

/-- The operator of a compound assignment, or none of a plain one, if a token is an assignment. -/
def assignmentOp? : TokenKind → Option (Option ArithOp)
  | .punct .assign => some none
  | .punct (.assignWith op) => some (some op)
  | _ => none

/-- An assignment, which groups to the right, or a ternary expression. -/
def assignmentOver (lower : Option Level) : Parser Expr := do
  let inner ← nest lower
  let target ← inner.ternary
  match (← peek).bind assignmentOp? with
  | some op =>
    advance
    let value ← inner.assignment
    return .assign op target value (target.span.through value.span)
  | none => return target

/-- Arguments behind the opening parenthesis, and the closing one. -/
def arguments (assignment : Parser Expr) : Parser (List Expr) := do
  if ← eatMark .closeParen then return []
  else
    let found ← commaList assignment
    let _ ← expectMark .closeParen
    return found

/-- A literal, a name, a call or an expression in parentheses. -/
def primary (assignment : Parser Expr) : Parser Expr := do
  let span ← here
  match ← peek with
  | some (.int value) =>
    advance
    return .int value span
  | some (.float value) =>
    advance
    return .float value span
  | some (.bool value) =>
    advance
    return .bool value span
  | some (.punct .openParen) =>
    advance
    let inner ← assignment
    let _ ← expectMark .closeParen
    return inner
  | some (.word name) =>
    advance
    if ← eatMark .openParen then
      let found ← arguments assignment
      return .call name found (span.through (← behind))
    else return .name name span
  | found => failAt span (.expectedExpression found)

/-- The members, indices and steps behind an expression. -/
def suffixesOver (lower : Option Level) (base : Expr) : Parser Expr := do
  match ← peek with
  | some (.punct .dot) =>
    let inner ← nest lower
    advance
    let member ← expectName .swizzle
    inner.suffixes (.member base member.value (base.span.through member.span))
  | some (.punct .openBracket) =>
    let inner ← nest lower
    advance
    let index ← inner.assignment
    let close ← expectMark .closeBracket
    inner.suffixes (.index base index (base.span.through close))
  | some (.punct .increment) =>
    let inner ← nest lower
    let span ← here
    advance
    inner.suffixes (.step .postInc base (base.span.through span))
  | some (.punct .decrement) =>
    let inner ← nest lower
    let span ← here
    advance
    inner.suffixes (.step .postDec base (base.span.through span))
  | _ => return base

/-- What an operator in front of an operand makes of it. A plus makes nothing of it. -/
def prefixNode? : TokenKind → Option (Span → Expr → Expr)
  | .punct (.binary (.arith .sub)) =>
    some fun span operand => .unary .negate operand (span.through operand.span)
  | .punct .not => some fun span operand => .unary .not operand (span.through operand.span)
  | .punct .increment => some fun span operand => .step .preInc operand (span.through operand.span)
  | .punct .decrement => some fun span operand => .step .preDec operand (span.through operand.span)
  | .punct (.binary (.arith .add)) => some fun _ operand => operand
  | _ => none

def unaryOver (lower : Option Level) : Parser Expr := do
  match (← peek).bind prefixNode? with
  | some node =>
    let inner ← nest lower
    let span ← here
    advance
    let operand ← inner.unary
    return node span operand
  | none =>
    let base ← primary (assignmentOver lower)
    suffixesOver lower base

/-- The binary operator that a token is, if it binds at least so tightly. -/
def binaryOp? (minimum : Nat) : TokenKind → Option BinaryOp
  | .punct (.binary op) => if minimum ≤ op.precedence then some op else none
  | _ => none

/-- The rest of a chain of operators, which groups to the left. -/
def binaryTailOver (lower : Option Level) (minimum : Nat) (left : Expr) : Parser Expr := do
  match (← peek).bind (binaryOp? minimum) with
  | some op =>
    let inner ← nest lower
    advance
    let right ← inner.binary (op.precedence + 1)
    inner.binaryTail minimum (.binary op left right (left.span.through right.span))
  | none => return left

def binaryOver (lower : Option Level) (minimum : Nat) : Parser Expr := do
  let left ← unaryOver lower
  binaryTailOver lower minimum left

/-- A choice `c ? a : b`, whose last part may be one again, or a chain of operators. -/
def ternaryOver (lower : Option Level) : Parser Expr := do
  let condition ← binaryOver lower 1
  if ← eatMark .question then
    let inner ← nest lower
    let whenTrue ← inner.assignment
    let _ ← expectMark .colon
    let whenFalse ← inner.ternary
    return .ternary condition whenTrue whenFalse (condition.span.through whenFalse.span)
  else return condition

/-- The grammar for a budget, from the one for what nests one level deeper. -/
def ofLower (lower : Option Level) : Level where
  assignment := assignmentOver lower
  ternary := ternaryOver lower
  binary := binaryOver lower
  binaryTail := binaryTailOver lower
  unary := unaryOver lower
  suffixes := suffixesOver lower

def ofBudget : (budget : Nat) → Level
  | 0 => ofLower none
  | budget + 1 => ofLower (some (ofBudget budget))

end Level

def Parser.expression (budget : Nat) : Parser Expr :=
  (Level.ofBudget budget).assignment

end ShaderBytecode
