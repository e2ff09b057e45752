import ShaderBytecode.Parser.Expression

/-!
# Reading declarations
-/

namespace ShaderBytecode.Parser

open Ast (Expr)

/-- What a declaration of variables and one of a function have in common. -/
structure Head where
  storage : Option Storage
  layout : List LayoutEntry
  type : Located String
  name : Located String

def typeName : Parser (Located String) := do
  let _ ← eat (.keyword .precisionLevel)
  expectName .type

def layoutEntry : Parser LayoutEntry := do
  let name ← expectName .layout
  if ← eatMark .assign then
    match ← peek with
    | some (.int value) =>
      advance
      return ⟨name.value, some value⟩
    | found => fail (.layoutValue found)
  else return ⟨name.value, none⟩

def layout : Parser (List LayoutEntry) := do
  if ← eat (.keyword .layout) then
    let _ ← expectMark .openParen
    let entries ← commaList layoutEntry
    let _ ← expectMark .closeParen
    return entries
  else return []

/-- Adds a qualifier to the one found so far. Only `static` and `const` go together, as `const`. -/
def joinStorage (found : Option Storage) (next : Storage) : Except SyntaxFault Storage :=
  match found, next with
  | none, next => .ok next
  | some .static, .const => .ok .const
  | some .const, .static => .ok .const
  | some previous, next => .error (.storageClash next previous)

/-- Storage qualifiers in at most `length` tokens, skipping precision levels. -/
def storageWithin : (length : Nat) → (found : Option Storage) → Parser (Option Storage)
  | 0, found => return found
  | length + 1, found => do
    match ← peek with
    | some (.keyword .precisionLevel) =>
      advance
      storageWithin length found
    | some (.keyword (.storage next)) =>
      match joinStorage found next with
      | .ok joined =>
        advance
        storageWithin length (some joined)
      | .error fault => fail fault
    | _ => return found

def storage : Parser (Option Storage) := do
  storageWithin (← get).rest.length none

def head : Parser Head := do
  let layout ← layout
  let storage ← storage
  if ← isNext (.keyword .inputOutput) then fail .inoutOutsideParameters
  let type ← typeName
  let name ← expectName .declaration
  return ⟨storage, layout, type, name⟩

/-- An optional array length such as `[4]`: a positive literal. -/
def arrayLength : Parser (Option UInt32) := do
  if ← eatMark .openBracket then
    match ← peek with
    | some (.int (length + 1)) =>
      advance
      let _ ← expectMark .closeBracket
      return some (.ofNat (length + 1))
    | found => fail (.arrayLength found)
  else return none

/-- An optional semantic such as `: COLOR`, in the dialect that has them. -/
def semantic (d : Dialect) : Parser (Option String) := do
  if d.hasSemantics then
    if ← eatMark .colon then
      let name ← expectName .semantic
      return some name.value
    else return none
  else return none

def declaratorTail (d : Dialect) (expression : Parser Expr) (name : Located String) :
    Parser Ast.Declarator := do
  let length ← arrayLength
  let semantic ← semantic d
  let initializer ← if ← eatMark .assign then some <$> expression else pure none
  return ⟨name.value, length, semantic, initializer, name.span⟩

/-- The declarators behind the first name, and the semicolon. -/
def declarators (d : Dialect) (expression : Parser Expr) (head : Head) : Parser Ast.Variables := do
  let first ← declaratorTail d expression head.name
  let more ←
    if ← eatMark .comma then
      commaList do
        let name ← expectName .declaration
        declaratorTail d expression name
    else pure []
  let _ ← expectMark .semicolon
  return ⟨head.storage, head.layout, head.type, first :: more⟩

def member (d : Dialect) (owner : MemberOwner) (type : Located String) : Parser Ast.Member := do
  let name ← expectName .member
  let length ← arrayLength
  let semantic ← semantic d
  if ← isNext (.punct .assign) then fail (.memberInitializer owner)
  return ⟨type, name.value, length, semantic, name.span⟩

/-- Members in at most `length` tokens, and the closing brace. -/
def membersWithin (d : Dialect) (owner : MemberOwner) : (length : Nat) → Parser (List Ast.Member)
  | 0 => fail (.unterminatedMembers owner)
  | length + 1 => do
    match ← peek with
    | none => fail (.unterminatedMembers owner)
    | some (.punct .closeBrace) =>
      advance
      return []
    | some _ =>
      let type ← typeName
      let found ← commaList (member d owner type)
      let _ ← expectMark .semicolon
      return found ++ (← membersWithin d owner length)

def members (d : Dialect) (owner : MemberOwner) : Parser (List Ast.Member) := do
  let _ ← expectMark .openBrace
  membersWithin d owner (← get).rest.length

def structDeclaration (d : Dialect) : Parser Ast.Structure := do
  let span ← here
  advance
  let name ← expectName .struct
  let members ← members d .struct
  if members.isEmpty then failAt span (.emptyStruct name.value)
  unless ← eatMark .semicolon do
    failAt (← behind) (.structEnd (← peek))
  return ⟨name.value, members, span⟩

def register : Parser (Option String) := do
  if ← eatMark .colon then
    let word ← expectName .register
    if word.value ≠ "register" then failAt word.span (.registerWord word.value)
    let _ ← expectMark .openParen
    let slot ← expectName .registerSlot
    let _ ← expectMark .closeParen
    return some slot.value
  else return none

/-- A constant buffer; the keyword is next. The semicolon behind it may be left out. -/
def bufferDeclaration (d : Dialect) : Parser Ast.Buffer := do
  advance
  let name ← expectName .cbuffer
  let register ← register
  let members ← members d .cbuffer
  let _ ← eatMark .semicolon
  return ⟨name.value, register, members⟩

def passing? : Keyword → Option Passing
  | .storage .input => some .input
  | .storage .output => some .output
  | .inputOutput => some .inputOutput
  | _ => none

/-- The qualifiers of a parameter in at most `length` tokens: whether it is constant and how it is
passed. -/
def parameterQualifiersWithin :
    (length : Nat) → (isConst : Bool) → (found : Option Passing) → Parser (Bool × Option Passing)
  | 0, isConst, found => return (isConst, found)
  | length + 1, isConst, found => do
    match ← peek with
    | some (.keyword (.storage .const)) =>
      advance
      parameterQualifiersWithin length true found
    | some (.keyword .precisionLevel) =>
      advance
      parameterQualifiersWithin length isConst found
    | some (.keyword key) =>
      match passing? key with
      | some next =>
        if found.isSome then fail .severalPassings
        advance
        parameterQualifiersWithin length isConst (some next)
      | none => return (isConst, found)
    | _ => return (isConst, found)

def optionalName : Parser (Option String) := do
  match ← peek with
  | some (.word name) =>
    advance
    return some name
  | _ => return none

def parameter (d : Dialect) : Parser Ast.Parameter := do
  let span ← here
  let (isConst, found) ← parameterQualifiersWithin (← get).rest.length false none
  let passing := found.getD .input
  if isConst && passing.byReference then failAt span .constReference
  let type ← typeName
  let name ← optionalName
  let length ← arrayLength
  let semantic ← semantic d
  return ⟨passing, isConst, type, name, length, semantic, span.through (← behind)⟩

def isVoidList : Parser Bool := do
  let c ← get
  return c.peek = some (.word "void") && c.peekSecond = some (.punct .closeParen)

/-- Parameters behind the opening parenthesis, and the closing one. The list may be `void`. -/
def parameters (d : Dialect) : Parser (List Ast.Parameter) := do
  if ← eatMark .closeParen then return []
  else if ← isVoidList then
    advance
    advance
    return []
  else
    let found ← commaList (parameter d)
    let _ ← expectMark .closeParen
    return found

end ShaderBytecode.Parser
