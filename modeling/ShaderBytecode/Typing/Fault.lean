import ShaderBytecode.Ast
import ShaderBytecode.Intrinsic

/-!
# What typing refuses
-/

namespace ShaderBytecode

/-- What a type is declared for. -/
inductive Holder where
  | structMember
  | global
  | bufferMember
  | parameter
  | localVariable
deriving DecidableEq, Repr

/-- What a name of the outermost level is already taken by. -/
inductive NameUse where
  | struct
  | global
  | function
deriving DecidableEq, Repr

/-- What a value is converted for. -/
inductive Purpose where
  | assignment
  | initializer
  | result
  | textureCoordinates
  /-- The argument with this number, counted from zero. -/
  | argument (position : Nat) (callee : String)
deriving DecidableEq, Repr

/-- A rule on which stages have globals of a storage. -/
inductive StageRule where
  | attributeInVertex
  | varyingInVertexOrPixel
  | semanticsInstead
  | groupSharedInCompute
deriving DecidableEq, Repr

/-- Why a declaration is refused. -/
inductive TypingFault where
  -- names and types
  | unknownType (name : String)
  | voidArray
  | voidValue (holder : Holder)
  | reservedName (name : String)
  | builtinTypeName (name : String)
  | nameTaken (name : String) (use : NameUse)
  -- structures
  | samplerMember (member : String)
  | duplicateMember (struct member : String)
  -- globals
  | storageStage (rule : StageRule) (name : String) (stage : Stage)
  | samplerStorage (name : String)
  | constUninitialized (name : String)
  | initializerForbidden (name : String) (storage : Option Storage)
  -- functions
  | samplerReference
  | duplicateParameter (parameter function : String)
  | signatureMismatch (declared earlier : Function)
  | alreadyDefined (name : String)
  | intrinsicName (name : String)
  -- statements
  | leaveOutsideLoop (keyword : String)
  | discardStage (stage : Stage)
  | resultOfVoid
  | resultMissing (expected : DataType)
  | localStorage (storage : Storage)
  | localLayout
  | localSampler (name : String)
  | localSemantic (name : String)
  | duplicateLocal (name : String)
  -- names in expressions
  | undeclared (name : String) (isFunction : Bool)
  | noMember (struct member : String)
  | noSwizzle (type : DataType) (swizzle : String)
  | unknownLetter (type : DataType) (swizzle : String)
  | swizzleLength (swizzle : String)
  | swizzleMixed (swizzle : String)
  | swizzleRange (letter : Char) (type : DataType)
  | notIndexable (type : DataType)
  | indexType (found : DataType)
  | indexRange (value : Int32) (type : DataType)
  -- places
  | constWritten (name : String)
  | readOnlyWritten (name : String) (storage : Option Storage) (stage : Stage)
  | componentRepeated (swizzle : String)
  | notAssignable
  -- operators
  | mismatch (purpose : Purpose) (expected found : DataType)
  | unaryOperand (op : Ast.UnaryOp) (found : DataType)
  | stepOperand (op : Ast.StepOp) (found : DataType)
  | binaryOperands (op : BinaryOp) (left right : DataType)
  | compoundOperands (op : ArithOp) (target value : DataType)
  | ternaryBranches (whenTrue whenFalse : DataType)
  | conditionType (found : DataType)
  -- calls
  | localCalled (name : String) (type : DataType)
  | undeclaredFunction (name : String)
  | notConstructible (type : DataType)
  | constructorEmpty (type : DataType)
  | constructorArgument (type found : DataType)
  | tooFewComponents (type : DataType) (needed found : Nat)
  | tooManyArguments (type : DataType)
  | scalarArguments (type : DataType)
  | structArity (name : String) (expected found : Nat)
  | functionArity (name : String) (expected found : Nat)
  | referenceArgument (position : Nat) (function : String) (expected found : DataType)
  | intrinsicStage (function : Intrinsic) (stage : Stage)
  | intrinsicArity (function : Intrinsic) (found : Nat)
  | intrinsicFloat (function : Intrinsic) (position : Nat) (found : DataType)
  | intrinsicMatch (function : Intrinsic) (position : Nat) (expected found : DataType)
  | crossOperand (found : DataType)
  | textureSampler (found : DataType)
  | productOperands (left right : DataType)
  -- faults of the compiler itself
  | argumentMissing (function : Intrinsic)
  | typeCodeMissing (type : DataType)
deriving DecidableEq, Repr

/-- Something worth a warning. -/
inductive Remark where
  | ignoredPragma
  | hiddenGlobal (name : String)
  | unusedLocal (name : String)
  | missingReturn (function : String)
deriving DecidableEq, Repr

end ShaderBytecode
