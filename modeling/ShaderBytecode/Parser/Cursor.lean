import ShaderBytecode.Token.Scan

/-!
# Reading tokens
-/

namespace ShaderBytecode

/-- What a name is asked for. -/
inductive NameRole where
  | member
  | swizzle
  | type
  | layout
  | declaration
  | semantic
  | struct
  | cbuffer
  | register
  | registerSlot
deriving DecidableEq, Repr

def NameRole.text : NameRole → String
  | member => "a member name"
  | swizzle => "a member name or swizzle"
  | type => "a type name"
  | layout => "a layout qualifier"
  | declaration => "a declaration name"
  | semantic => "a semantic name"
  | struct => "a struct name"
  | cbuffer => "a cbuffer name"
  | register => "'register'"
  | registerSlot => "a register slot"

/-- What members belong to. -/
inductive MemberOwner where
  | struct
  | cbuffer
deriving DecidableEq, Repr

def MemberOwner.text : MemberOwner → String
  | struct => "struct"
  | cbuffer => "cbuffer"

/-- Why tokens are no program. `found` is the token in the way, or nothing at the end. -/
inductive SyntaxFault where
  | nestingTooDeep
  | expectedSpelling (spelling : String) (found : Option TokenKind)
  | expectedName (role : NameRole) (found : Option TokenKind)
  | expectedExpression (found : Option TokenKind)
  | precisionType (found : Option TokenKind)
  | layoutValue (found : Option TokenKind)
  | arrayLength (found : Option TokenKind)
  | storageClash (qualifier previous : Storage)
  | inoutOutsideParameters
  | functionStorage (qualifier : Storage)
  | functionLayout
  | functionBody (found : Option TokenKind)
  | severalPassings
  | constReference
  | unterminatedBlock
  | elseWithoutIf
  | emptyStruct (name : String)
  | structEnd (found : Option TokenKind)
  | registerWord (found : String)
  | unterminatedMembers (owner : MemberOwner)
  | memberInitializer (owner : MemberOwner)
deriving DecidableEq, Repr

/-- A place in a list of tokens: the span of the token before it, the tokens behind it, and the
position of the end. -/
structure Cursor where
  previous : Option Span
  rest : List Token
  stop : Position
deriving DecidableEq, Repr

namespace Cursor

def peek (c : Cursor) : Option TokenKind :=
  c.rest.head?.map (·.kind)

def peekSecond (c : Cursor) : Option TokenKind :=
  c.rest.tail.head?.map (·.kind)

def here (c : Cursor) : Span :=
  match c.rest with
  | token :: _ => token.span
  | [] => ⟨c.stop, c.stop⟩

/-- The span of the token before the cursor, or of the next one if there is none. -/
def behind (c : Cursor) : Span :=
  c.previous.getD c.here

def advance (c : Cursor) : Cursor :=
  match c.rest with
  | token :: rest => { c with previous := some token.span, rest }
  | [] => c

end Cursor

abbrev Parser := StateT Cursor (Except (Located SyntaxFault))

namespace Parser

variable {α : Type}

def peek : Parser (Option TokenKind) := do
  return (← get).peek

def here : Parser Span := do
  return (← get).here

def behind : Parser Span := do
  return (← get).behind

def advance : Parser Unit :=
  modify Cursor.advance

def failAt (span : Span) (fault : SyntaxFault) : Parser α :=
  throw ⟨fault, span⟩

def fail (fault : SyntaxFault) : Parser α := do
  failAt (← here) fault

def isNext (kind : TokenKind) : Parser Bool := do
  return (← peek) = some kind

/-- Moves over the next token if it is a certain one, and says whether it was. -/
def eat (kind : TokenKind) : Parser Bool := do
  if ← isNext kind then
    advance
    return true
  else return false

def eatMark (mark : Punct) : Parser Bool :=
  eat (.punct mark)

/-- Whether a missing mark is reported at the token before it. -/
def endsBefore : Punct → Bool
  | .semicolon | .closeParen | .closeBracket => true
  | _ => false

/-- Moves over a mark that has to be next and gives its span. -/
def expectMark (mark : Punct) : Parser Span := do
  let span ← here
  if ← eatMark mark then return span
  else
    let span ← if endsBefore mark then behind else here
    failAt span (.expectedSpelling mark.spelling (← peek))

/-- Moves over the keyword `while`, which has to be next. -/
def expectWhile : Parser Unit := do
  unless ← eat (.keyword .whileLoop) do
    fail (.expectedSpelling "while" (← peek))

def expectName (role : NameRole) : Parser (Located String) := do
  match ← peek with
  | some (.word name) =>
    let span ← here
    advance
    return ⟨name, span⟩
  | found => fail (.expectedName role found)

/-- Items with commas between them, in at most `length` tokens. -/
def commaListWithin (item : Parser α) : (length : Nat) → Parser (List α)
  | 0 => do return [← item]
  | length + 1 => do
    let first ← item
    if ← eatMark .comma then return first :: (← commaListWithin item length)
    else return [first]

def commaList (item : Parser α) : Parser (List α) := do
  commaListWithin item (← get).rest.length

end Parser

end ShaderBytecode
