import ShaderBytecode.Number.Shortest
import ShaderBytecode.Operator
import ShaderBytecode.Symbol
import ShaderBytecode.Text.Span

/-!
# Tokens
-/

namespace ShaderBytecode

/-- A reserved word. Type names are none: they are words that a declaration looks up. -/
inductive Keyword where
  | struct
  | cbuffer
  | precision
  /-- Any of `lowp`, `mediump` and `highp`. -/
  | precisionLevel
  | layout
  | storage (qualifier : Storage)
  | inputOutput
  | ifThen
  | elseThen
  | forLoop
  | whileLoop
  | doLoop
  | returnFrom
  | breakLoop
  | continueLoop
  | discardPixel
deriving DecidableEq, Repr

/-- The spelling of a keyword. A precision level has several and gives none. -/
def Keyword.spelling? : Keyword → Option String
  | struct => some "struct"
  | cbuffer => some "cbuffer"
  | precision => some "precision"
  | precisionLevel => none
  | layout => some "layout"
  | storage qualifier => some qualifier.keyword
  | inputOutput => some "inout"
  | ifThen => some "if"
  | elseThen => some "else"
  | forLoop => some "for"
  | whileLoop => some "while"
  | doLoop => some "do"
  | returnFrom => some "return"
  | breakLoop => some "break"
  | continueLoop => some "continue"
  | discardPixel => some "discard"

/-- A punctuation mark or an operator. -/
inductive Punct where
  | openParen
  | closeParen
  | openBrace
  | closeBrace
  | openBracket
  | closeBracket
  | semicolon
  | comma
  | dot
  | colon
  | question
  | assign
  | assignWith (op : ArithOp)
  | increment
  | decrement
  | not
  | binary (op : BinaryOp)
deriving DecidableEq, Repr

namespace Punct

def spelling : Punct → String
  | openParen => "("
  | closeParen => ")"
  | openBrace => "\x7b"
  | closeBrace => "\x7d"
  | openBracket => "["
  | closeBracket => "]"
  | semicolon => ";"
  | comma => ","
  | dot => "."
  | colon => ":"
  | question => "?"
  | assign => "="
  | assignWith op => op.symbol ++ "="
  | increment => "++"
  | decrement => "--"
  | not => "!"
  | binary op => op.symbol

/-- All marks, the longer ones first, so that the first one that fits is the longest. -/
def all : List Punct :=
  [increment, decrement, assignWith .add, assignWith .sub, assignWith .mul, assignWith .div,
    assignWith .mod, binary (.compare .eq), binary (.compare .ne), binary (.compare .le),
    binary (.compare .ge), binary (.logic .and), binary (.logic .or), openParen, closeParen,
    openBrace, closeBrace, openBracket, closeBracket, semicolon, comma, dot, colon, question,
    assign, not, binary (.arith .add), binary (.arith .sub), binary (.arith .mul),
    binary (.arith .div), binary (.arith .mod), binary (.compare .lt), binary (.compare .gt)]

end Punct

/-- What a token is. -/
inductive TokenKind where
  | word (name : String)
  | int (value : Nat)
  | float (value : Double)
  | bool (value : Bool)
  | keyword (keyword : Keyword)
  | punct (punct : Punct)
deriving DecidableEq, Repr

/-- A token and the span of its text. -/
structure Token where
  kind : TokenKind
  span : Span
deriving DecidableEq, Repr

def boolText (b : Bool) : String :=
  if b then "true" else "false"

namespace TokenKind

/-- How messages quote a token. Numbers are quoted by value. -/
def describe : TokenKind → String
  | word name => s!"'{name}'"
  | int value => s!"'{value}'"
  | float value =>
    let text := value.text .quoted
    s!"'{text}'"
  | bool value => s!"'{boolText value}'"
  | keyword key =>
    match key.spelling? with
    | some spelling => s!"'{spelling}'"
    | none => "a precision qualifier"
  | punct mark => s!"'{mark.spelling}'"

/-- How messages quote a token or the end of the source. -/
def describeNext : Option TokenKind → String
  | some kind => kind.describe
  | none => "end of file"

end TokenKind

namespace Dialect

def commonReserved? : String → Option TokenKind
  | "struct" => some (.keyword .struct)
  | "if" => some (.keyword .ifThen)
  | "else" => some (.keyword .elseThen)
  | "for" => some (.keyword .forLoop)
  | "while" => some (.keyword .whileLoop)
  | "do" => some (.keyword .doLoop)
  | "return" => some (.keyword .returnFrom)
  | "break" => some (.keyword .breakLoop)
  | "continue" => some (.keyword .continueLoop)
  | "discard" => some (.keyword .discardPixel)
  | "const" => some (.keyword (.storage .const))
  | "uniform" => some (.keyword (.storage .uniform))
  | "in" => some (.keyword (.storage .input))
  | "out" => some (.keyword (.storage .output))
  | "inout" => some (.keyword .inputOutput)
  | "true" => some (.bool true)
  | "false" => some (.bool false)
  | _ => none

def glslReserved? : String → Option TokenKind
  | "attribute" => some (.keyword (.storage .vertexAttribute))
  | "varying" => some (.keyword (.storage .varying))
  | "layout" => some (.keyword .layout)
  | "precision" => some (.keyword .precision)
  | "lowp" | "mediump" | "highp" => some (.keyword .precisionLevel)
  | _ => none

def hlslReserved? : String → Option TokenKind
  | "static" => some (.keyword (.storage .static))
  | "groupshared" => some (.keyword (.storage .groupShared))
  | "cbuffer" => some (.keyword .cbuffer)
  | _ => none

def reserved? (d : Dialect) (word : String) : Option TokenKind :=
  commonReserved? word <|>
    match d with
    | glsl => glslReserved? word
    | hlsl => hlslReserved? word

end Dialect

end ShaderBytecode
