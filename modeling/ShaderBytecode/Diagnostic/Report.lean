import ShaderBytecode.Text.Span

/-!
# Reports

What a diagnostic says, in a form that tools can read.
-/

namespace ShaderBytecode

/-- What kind of problem an error is. -/
inductive ErrorKind where
  | lexical
  | grammar
  | unresolvedSymbol
  | type
  | duplicateDefinition
  | entryPointNotFound
  | unsupportedStage
  | rule
  | config
  | compiler
deriving DecidableEq, Repr, Inhabited

namespace ErrorKind

def all : List ErrorKind :=
  [lexical, grammar, unresolvedSymbol, type, duplicateDefinition, entryPointNotFound,
    unsupportedStage, rule, config, compiler]

def title : ErrorKind → String
  | lexical => "Lexical Error"
  | grammar => "Syntax Error"
  | unresolvedSymbol => "Unresolved Symbol"
  | type => "Type Mismatch"
  | duplicateDefinition => "Duplicate Definition"
  | entryPointNotFound => "Entry Point Not Found"
  | unsupportedStage => "Unsupported Shader Stage"
  | rule => "Language Rule Violation"
  | config => "Malformed Config"
  | compiler => "Translator Bug"

end ErrorKind

/-- What kind of remark a warning is. -/
inductive WarningKind where
  | unusedVariable
  | missingReturn
  | shadowedGlobal
  | ignoredDirective
deriving DecidableEq, Repr, Inhabited

def WarningKind.title : WarningKind → String
  | unusedVariable => "Unused variable"
  | missingReturn => "Missing return"
  | shadowedGlobal => "Shadowed global"
  | ignoredDirective => "Ignored directive"

/-- What a detail of an error is about. -/
inductive DetailKey where
  | variableName
  | compilationStage
  | primarySuggestion
  | suggestedReplacement
  | suggestedInsertion
  | expectedType
  | foundType
deriving DecidableEq, Repr

abbrev Details := List (DetailKey × String)

/-- An error. -/
structure Report where
  kind : ErrorKind
  message : String
  span : Span := {}
  details : Details := []
deriving DecidableEq, Repr

/-- A warning. -/
structure Notice where
  kind : WarningKind
  message : String
  span : Span
deriving DecidableEq, Repr

/-- All that is said about a source. -/
structure Messages where
  errors : List Report := []
  warnings : List Notice := []
deriving DecidableEq, Repr

namespace Messages

def hasErrors (m : Messages) : Bool :=
  !m.errors.isEmpty

def contains (m : Messages) (kind : ErrorKind) : Bool :=
  m.errors.any (·.kind = kind)

end Messages

end ShaderBytecode
