import ShaderBytecode.Diagnostic.Report
import ShaderBytecode.Typing.Fault

/-!
# The wording of faults in typing

Types are spelled as the dialect of the source spells them, signatures are spelled alike in both.
-/

namespace ShaderBytecode

def Holder.text : Holder → String
  | structMember => "A struct member"
  | global => "A variable"
  | bufferMember => "A cbuffer member"
  | parameter => "A parameter"
  | localVariable => "A local variable"

def NameUse.text : NameUse → String
  | struct => "struct"
  | global => "global variable"
  | function => "function"

/-- What messages call the purpose of a value. Arguments are counted from one. -/
def Purpose.text : Purpose → String
  | assignment => "the assigned value"
  | initializer => "the initializer"
  | result => "the return value"
  | textureCoordinates => "texture coordinates"
  | argument position callee => s!"argument {position + 1} of '{callee}'"

def StageRule.text : StageRule → String
  | attributeInVertex => "'attribute' variables only exist in the vertex stage"
  | varyingInVertexOrPixel => "'varying' variables only exist in the vertex and pixel stages"
  | semanticsInstead =>
    "HLSL stage inputs and outputs are entry point parameters with semantics"
  | groupSharedInCompute => "'groupshared' variables only exist in the compute stage"

def Ast.UnaryOp.symbol : Ast.UnaryOp → String
  | negate => "-"
  | not => "!"

def Ast.StepOp.symbol : Ast.StepOp → String
  | preInc | postInc => "++"
  | preDec | postDec => "--"

namespace TypingFault

def kind : TypingFault → ErrorKind
  | unknownType _ | undeclared _ _ | noMember _ _ | undeclaredFunction _ => .unresolvedSymbol
  | builtinTypeName _ | nameTaken _ _ | duplicateMember _ _ | duplicateParameter _ _
  | signatureMismatch _ _ | alreadyDefined _ | intrinsicName _ | duplicateLocal _ =>
    .duplicateDefinition
  | reservedName _ | samplerMember _ | storageStage _ _ _ | samplerStorage _
  | constUninitialized _ | initializerForbidden _ _ | samplerReference | leaveOutsideLoop _
  | discardStage _ | localStorage _ | localLayout | localSampler _ | localSemantic _
  | constWritten _ | readOnlyWritten _ _ _ | componentRepeated _ | notAssignable
  | intrinsicStage _ _ => .rule
  | argumentMissing _ | typeCodeMissing _ => .compiler
  | _ => .type

def message (d : Dialect) : TypingFault → String
  | unknownType name => s!"Unknown type '{name}'"
  | voidArray => "Arrays of 'void' are not allowed"
  | voidValue holder => s!"{holder.text} can't have type 'void'"
  | reservedName name => s!"'{name}' uses the reserved 'gl_' prefix"
  | builtinTypeName name => s!"'{name}' is already the name of a built-in type"
  | nameTaken name use => s!"'{name}' is already declared as a {use.text}"
  | samplerMember member => s!"Struct member '{member}' can't be a sampler"
  | duplicateMember struct member => s!"Struct '{struct}' already has a member called '{member}'"
  | storageStage rule name stage => s!"{rule.text} ('{name}' in a {stage.name} shader)"
  | samplerStorage name => s!"Sampler '{name}' must be a uniform"
  | constUninitialized name => s!"Constant '{name}' must be initialized"
  | initializerForbidden name (some storage) =>
    s!"'{storage.keyword}' variables can't have an initializer ('{name}')"
  | initializerForbidden name none =>
    s!"HLSL globals without 'static' can't have an initializer ('{name}')"
  | samplerReference => "Sampler parameters can't be 'out' or 'inout'"
  | duplicateParameter parameter function =>
    s!"Parameter '{parameter}' is declared twice in '{function}'"
  | signatureMismatch declared earlier =>
    s!"'{declared.display}' doesn't match the earlier declaration '{earlier.display}', " ++
      "overloading is not supported"
  | alreadyDefined name => s!"Function '{name}' is already defined"
  | intrinsicName name => s!"'{name}' redefines a built-in function"
  | leaveOutsideLoop keyword => s!"'{keyword}' can only be used inside a loop"
  | discardStage stage =>
    s!"'discard' can only be used in pixel shaders, this is a {stage.name} shader"
  | resultOfVoid => "A void function can't return a value"
  | resultMissing expected =>
    s!"This function must return a value of type '{d.typeName expected}'"
  | localStorage storage => s!"Local variables can't be declared '{storage.keyword}'"
  | localLayout => "layout qualifiers can only be used on globals"
  | localSampler name => s!"Local variable '{name}' can't be a sampler"
  | localSemantic name => s!"Local variable '{name}' can't have a semantic"
  | duplicateLocal name => s!"'{name}' is already declared in this scope"
  | undeclared name _ => s!"Undeclared identifier '{name}'"
  | noMember struct member => s!"Struct '{struct}' has no member '{member}'"
  | noSwizzle type swizzle | unknownLetter type swizzle =>
    s!"'{d.typeName type}' has no member '{swizzle}'"
  | swizzleLength swizzle => s!"Swizzle '.{swizzle}' must have between one and four components"
  | swizzleMixed swizzle => s!"Swizzle '.{swizzle}' mixes component sets"
  | swizzleRange letter type =>
    s!"Swizzle component '{letter}' is out of range for '{d.typeName type}'"
  | notIndexable type => s!"'{d.typeName type}' can't be indexed"
  | indexType found => s!"Array and vector indices must be 'int', found '{d.typeName found}'"
  | indexRange value type => s!"Index {value.toInt} is out of range for '{d.typeName type}'"
  | constWritten name => s!"Can't assign to '{name}', it is const"
  | readOnlyWritten name (some storage) stage =>
    s!"Can't assign to '{name}', '{storage.keyword}' variables are read only " ++
      s!"in a {stage.name} shader"
  | readOnlyWritten name none stage =>
    s!"Can't assign to '{name}', uniform variables are read only in a {stage.name} shader"
  | componentRepeated swizzle => s!"Can't assign to swizzle '.{swizzle}', it repeats a component"
  | notAssignable => "This expression can't be assigned to"
  | mismatch purpose expected found =>
    s!"Expected '{d.typeName expected}' for {purpose.text}, found '{d.typeName found}'"
  | unaryOperand op found => s!"Operator '{op.symbol}' can't be applied to '{d.typeName found}'"
  | stepOperand op found =>
    s!"Operator '{op.symbol}' needs a numeric operand, found '{d.typeName found}'"
  | binaryOperands op left right =>
    s!"Operator '{op.symbol}' can't be applied to '{d.typeName left}' and '{d.typeName right}'"
  | compoundOperands op target value =>
    s!"Operator '{op.symbol}=' can't combine '{d.typeName target}' with '{d.typeName value}'"
  | ternaryBranches whenTrue whenFalse =>
    s!"Both sides of '?:' must have the same type, found '{d.typeName whenTrue}' and " ++
      s!"'{d.typeName whenFalse}'"
  | conditionType found => s!"Conditions must be 'bool', found '{d.typeName found}'"
  | localCalled name type =>
    s!"'{name}' is a local variable of type '{d.typeName type}' and can't be called"
  | undeclaredFunction name => s!"Call to undeclared function '{name}'"
  | notConstructible type => s!"'{d.typeName type}' values can't be constructed"
  | constructorEmpty type => s!"Constructor '{d.typeName type}' needs at least one argument"
  | constructorArgument type found =>
    s!"'{d.typeName found}' can't be used to construct '{d.typeName type}'"
  | tooFewComponents type needed found =>
    s!"Not enough components to construct '{d.typeName type}': needs {needed}, found {found}"
  | tooManyArguments type => s!"Too many arguments to construct '{d.typeName type}'"
  | scalarArguments type => s!"Constructor '{d.typeName type}' takes exactly one argument"
  | structArity name expected found =>
    s!"Constructor '{name}' expects {expected} arguments, found {found}"
  | functionArity name expected found =>
    s!"'{name}' expects {expected} arguments, found {found}"
  | referenceArgument position function expected found =>
    s!"Argument {position + 1} of '{function}' is an out parameter of type " ++
      s!"'{d.typeName expected}', found '{d.typeName found}'"
  | intrinsicStage function stage =>
    s!"'{function.name}' is only available in {stage.name} shaders"
  | intrinsicArity function found =>
    s!"'{function.name}' expects {function.arity} arguments, found {found}"
  | intrinsicFloat function position found =>
    s!"Argument {position + 1} of '{function.name}' must be a float scalar or vector, " ++
      s!"found '{d.typeName found}'"
  | intrinsicMatch function position expected found =>
    s!"Argument {position + 1} of '{function.name}' must be '{d.typeName expected}', " ++
      s!"found '{d.typeName found}'"
  | crossOperand found => s!"'cross' needs 3 component vectors, found '{d.typeName found}'"
  | textureSampler found =>
    s!"The first argument of a texture lookup must be a sampler, found '{d.typeName found}'"
  | productOperands left right =>
    s!"'mul' can't multiply '{d.typeName left}' by '{d.typeName right}'"
  | argumentMissing function => s!"Missing argument for '{function.name}'"
  | typeCodeMissing type => s!"No type code for '{type.display}'"

def hints (d : Dialect) : TypingFault → Details
  | unknownType _ =>
    [(.primarySuggestion, "Structs must be declared before they are used")]
  | voidValue _ => [(.foundType, "void")]
  | reservedName name | builtinTypeName name | nameTaken name _ | duplicateMember _ name
  | storageStage _ name _ | samplerStorage name | initializerForbidden name _
  | duplicateParameter name _ | alreadyDefined name | intrinsicName name | duplicateLocal name
  | noMember _ name | constWritten name | readOnlyWritten name _ _ | functionArity name _ _ =>
    [(.variableName, name)]
  | signatureMismatch declared _ => [(.variableName, declared.name)]
  | constUninitialized name => [(.variableName, name), (.suggestedInsertion, " = ...")]
  | resultOfVoid => [(.expectedType, "void")]
  | resultMissing expected => [(.expectedType, d.typeName expected)]
  | localStorage _ => [(.primarySuggestion, "Move the declaration to global scope")]
  | undeclared name true =>
    [(.variableName, name),
      (.primarySuggestion, s!"'{name}' is a function, call it with '{name}(...)'")]
  | undeclared name false =>
    [(.variableName, name),
      (.primarySuggestion, "Variables must be declared before they are used")]
  | noSwizzle found _ | notIndexable found | unaryOperand _ found | stepOperand _ found
  | constructorArgument _ found => [(.foundType, d.typeName found)]
  | swizzleMixed _ =>
    [(.primarySuggestion, "Use only one of xyzw, rgba or stpq in a swizzle")]
  | indexType found => [(.expectedType, "int"), (.foundType, d.typeName found)]
  | notAssignable =>
    [(.primarySuggestion,
      "Only variables, struct members, swizzles and array elements can be written")]
  | mismatch _ expected found | binaryOperands _ expected found
  | compoundOperands _ expected found | ternaryBranches expected found
  | referenceArgument _ _ expected found | intrinsicMatch _ _ expected found
  | productOperands expected found =>
    [(.expectedType, d.typeName expected), (.foundType, d.typeName found)]
  | conditionType found => [(.expectedType, "bool"), (.foundType, d.typeName found)]
  | localCalled name type =>
    [(.variableName, name), (.foundType, d.typeName type),
      (.primarySuggestion, "Rename the variable, it hides the function with the same name")]
  | undeclaredFunction name =>
    [(.variableName, name),
      (.primarySuggestion, "Functions must be declared or prototyped before they are called")]
  | intrinsicFloat _ _ found => [(.expectedType, "float"), (.foundType, d.typeName found)]
  | crossOperand found =>
    [(.expectedType, d.typeName (.floatVector 3)), (.foundType, d.typeName found)]
  | textureSampler found => [(.expectedType, "sampler2D"), (.foundType, d.typeName found)]
  | _ => []

/-- The details of a fault. Those of the compiler itself have none. -/
def details (d : Dialect) (fault : TypingFault) : Details :=
  if fault.kind = .compiler then []
  else (.compilationStage, "HIR Lowering") :: fault.hints d

end TypingFault

namespace Remark

def kind : Remark → WarningKind
  | ignoredPragma => .ignoredDirective
  | hiddenGlobal _ => .shadowedGlobal
  | unusedLocal _ => .unusedVariable
  | missingReturn _ => .missingReturn

def message : Remark → String
  | ignoredPragma => "#pragma has no effect on translation"
  | hiddenGlobal name => s!"Local variable '{name}' hides the global of the same name"
  | unusedLocal name => s!"Local variable '{name}' is never used"
  | missingReturn function =>
    s!"Function '{function}' can reach the end without returning a value, " ++
      "it will return a zero value"

end Remark

def Located.notice (remark : Located Remark) : Notice :=
  ⟨remark.value.kind, remark.value.message, remark.span⟩

end ShaderBytecode
