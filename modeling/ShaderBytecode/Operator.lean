/-!
# Operators
-/

namespace ShaderBytecode

/-- Arithmetic. -/
inductive ArithOp where
  | add
  | sub
  | mul
  | div
  | mod
deriving DecidableEq, Repr

/-- Comparison. -/
inductive CompareOp where
  | eq
  | ne
  | lt
  | gt
  | le
  | ge
deriving DecidableEq, Repr

/-- Connectives that evaluate their right operand only if the left one does not decide. -/
inductive LogicOp where
  | and
  | or
deriving DecidableEq, Repr

/-- A binary operator. -/
inductive BinaryOp where
  | arith (op : ArithOp)
  | compare (op : CompareOp)
  | logic (op : LogicOp)
deriving DecidableEq, Repr

def ArithOp.symbol : ArithOp → String
  | add => "+"
  | sub => "-"
  | mul => "*"
  | div => "/"
  | mod => "%"

def CompareOp.symbol : CompareOp → String
  | eq => "=="
  | ne => "!="
  | lt => "<"
  | gt => ">"
  | le => "<="
  | ge => ">="

/-- Whether this asks for equality rather than for an order. -/
def CompareOp.isEquality : CompareOp → Bool
  | eq | ne => true
  | _ => false

def LogicOp.symbol : LogicOp → String
  | and => "&&"
  | or => "||"

namespace BinaryOp

def symbol : BinaryOp → String
  | arith op => op.symbol
  | compare op => op.symbol
  | logic op => op.symbol

/-- How tightly an operator binds: the higher, the tighter. -/
def precedence : BinaryOp → Nat
  | logic .or => 1
  | logic .and => 2
  | compare op => if op.isEquality then 3 else 4
  | arith .add | arith .sub => 5
  | arith .mul | arith .div | arith .mod => 6

end BinaryOp

end ShaderBytecode
