import ShaderBytecode.Diagnostic.Report
import ShaderBytecode.Parser.Expression

/-!
# The wording of faults in scanning and reading
-/

namespace ShaderBytecode

namespace LexFault

def message : LexFault → String
  | unexpectedCharacter c => s!"Unexpected character '{c}' in shader source"
  | bitwiseOperator => "Bitwise operators are not supported by the translator"
  | unterminatedComment => "Unterminated block comment - missing closing '*/'"
  | unsupportedDirective name => s!"Preprocessor directive '#{name}' is not supported"
  | invalidNumber text => s!"Invalid numeric literal '{text}'"
  | integerRange text => s!"Integer literal '{text}' does not fit in a 32 bit int"

def details (fault : LexFault) : Details :=
  (.compilationStage, "Tokenization") ::
    match fault with
    | unterminatedComment => [(.suggestedInsertion, "*/")]
    | unsupportedDirective _ =>
      [(.primarySuggestion, "Run the shader through a preprocessor before translating it")]
    | integerRange _ => [(.primarySuggestion, "Add a 'u' suffix for an unsigned constant")]
    | _ => []

end LexFault

namespace SyntaxFault

def message : SyntaxFault → String
  | nestingTooDeep => s!"Expression or block nests deeper than {nestingLimit} levels"
  | expectedSpelling spelling found =>
    s!"Expected '{spelling}', found {TokenKind.describeNext found}"
  | expectedName role found => s!"Expected {role.text}, found {TokenKind.describeNext found}"
  | expectedExpression found => s!"Expected an expression, found {TokenKind.describeNext found}"
  | precisionType found =>
    s!"Expected a type name after 'precision', found {TokenKind.describeNext found}"
  | layoutValue found =>
    s!"Layout qualifier values must be integer literals, found {TokenKind.describeNext found}"
  | arrayLength found =>
    s!"Array sizes must be positive integer literals, found {TokenKind.describeNext found}"
  | storageClash qualifier previous =>
    s!"'{qualifier.keyword}' can't be combined with '{previous.keyword}'"
  | inoutOutsideParameters => "'inout' is only valid on function parameters"
  | functionStorage qualifier => s!"Functions can't be declared '{qualifier.keyword}'"
  | functionLayout => "layout qualifiers can't be applied to functions"
  | functionBody found =>
    s!"Expected a function body or ';', found {TokenKind.describeNext found}"
  | severalPassings => "A parameter can only have one of 'in', 'out' or 'inout'"
  | constReference => "A 'const' parameter can't be 'out' or 'inout'"
  | unterminatedBlock => "Unexpected end of file inside a block, expected '\x7d'"
  | elseWithoutIf => "'else' without a matching 'if'"
  | emptyStruct name => s!"Struct '{name}' must declare at least one member"
  | structEnd found =>
    s!"Expected ';' after the struct definition, found {TokenKind.describeNext found}"
  | registerWord found => s!"Expected 'register' after ':' on a cbuffer, found '{found}'"
  | unterminatedMembers owner => s!"Unterminated {owner.text} body, expected '\x7d'"
  | memberInitializer owner => s!"Members of a {owner.text} can't have initializers"

def details : SyntaxFault → Details
  | nestingTooDeep =>
    [(.compilationStage, "Parsing"),
      (.primarySuggestion, "Split it into smaller expressions or helper functions")]
  | expectedSpelling spelling _ =>
    [(.compilationStage, "Parsing"), (.suggestedInsertion, spelling)]
  | expectedExpression _ => [(.compilationStage, "Expression Parsing")]
  | unterminatedBlock | unterminatedMembers _ =>
    [(.compilationStage, "Parsing"), (.suggestedInsertion, "\x7d")]
  | structEnd _ =>
    [(.compilationStage, "Parsing"),
      (.primarySuggestion, "Declare variables of the struct type in a separate declaration"),
      (.suggestedInsertion, ";")]
  | _ => [(.compilationStage, "Parsing")]

end SyntaxFault

end ShaderBytecode
