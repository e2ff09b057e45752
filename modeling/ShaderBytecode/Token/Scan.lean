import ShaderBytecode.Text.Blank
import ShaderBytecode.Token.Number

/-!
# Scanning a source into tokens

A source is a sequence of pieces: tokens, white space, comments and directive lines. A directive
is one only if nothing but white space and comments stands before it since the last line end.
-/

namespace ShaderBytecode

/-- What a piece of a source is. -/
inductive Piece where
  | token (kind : TokenKind)
  | newline
  /-- Other white space, a comment or a directive without effect. -/
  | filler
  /-- A directive that is ignored with a warning. -/
  | pragma
deriving DecidableEq, Repr

def Piece.lineStartAfter (lineStart : Bool) : Piece → Bool
  | token _ => false
  | newline => true
  | filler | pragma => lineStart

def throughCommentEnd : List Char → Option (List Char × List Char)
  | '*' :: '/' :: rest => some (['*', '/'], rest)
  | c :: rest => (throughCommentEnd rest).map fun (text, rest) => (c :: text, rest)
  | [] => none

def skippedDirectives : List String :=
  ["version", "extension", "line"]

namespace Lexeme

def word (d : Dialect) (source : List Char) : Lexeme TokenKind :=
  let (text, rest) := takeRun isWordPart source
  let name := String.ofList text
  { text, rest, content := .ok ((d.reserved? name).getD (.word name)) }

def mark? (source : List Char) : Option (Lexeme TokenKind) :=
  (Punct.all.find? (·.spelling.toList.isPrefixOf source)).map fun mark =>
    { text := mark.spelling.toList
      rest := source.drop mark.spelling.length
      content := .ok (.punct mark) }

def startsBitwise : List Char → Bool
  | '<' :: '<' :: _ | '>' :: '>' :: _ => true
  | '&' :: rest => rest.head? ≠ some '&'
  | '|' :: rest => rest.head? ≠ some '|'
  | '^' :: _ | '~' :: _ => true
  | _ => false

def startsNumber : List Char → Bool
  | '.' :: c :: _ => isDigit c
  | c :: _ => isDigit c
  | [] => false

/-- The token at the front of a source that starts with the character `c`. -/
def token (d : Dialect) (c : Char) (rest : List Char) : Lexeme TokenKind :=
  let source := c :: rest
  if isWordStart c then word d source
  else if startsNumber source then number source
  else if startsBitwise source then ⟨[c], rest, .error .bitwiseOperator⟩
  else (mark? source).getD ⟨[c], rest, .error (.unexpectedCharacter c)⟩

def directive (source : List Char) : Lexeme Piece :=
  let (blanks, rest) := takeRun (fun c => c = ' ' || c = '\t') source
  let (letters, rest) := takeRun isLetter rest
  let name := String.ofList letters
  let start := '#' :: (blanks ++ letters)
  if name = "pragma" || skippedDirectives.contains name then
    let (line, rest) := takeRun (· ≠ '\n') rest
    { text := start ++ line, rest, content := .ok (if name = "pragma" then .pragma else .filler) }
  else { text := start, rest, content := .error (.unsupportedDirective name) }

/-- A comment up to the line end; `source` follows the `//`. -/
def lineComment (source : List Char) : Lexeme Piece :=
  let (line, rest) := takeRun (· ≠ '\n') source
  { text := '/' :: '/' :: line, rest, content := .ok .filler }

def blockComment (source : List Char) : Lexeme Piece :=
  match throughCommentEnd source with
  | some (text, rest) => { text := '/' :: '*' :: text, rest, content := .ok .filler }
  | none => { text := '/' :: '*' :: source, rest := [], content := .error .unterminatedComment }

/-- The piece at the front of a source, or nothing if it is empty. -/
def piece? (d : Dialect) (lineStart : Bool) : List Char → Option (Lexeme Piece)
  | [] => none
  | '\n' :: rest => some ⟨['\n'], rest, .ok .newline⟩
  | '/' :: '/' :: rest => some (lineComment rest)
  | '/' :: '*' :: rest => some (blockComment rest)
  | c :: rest =>
    if isBlank c then some ⟨[c], rest, .ok .filler⟩
    else if c = '#' && lineStart then some (directive rest)
    else
      let found := token d c rest
      some ⟨found.text, found.rest, found.content.map .token⟩

end Lexeme

/-- The result of scanning: the tokens, the position of the end, and the spans of the directives
that are ignored with a warning. -/
structure Scanned where
  tokens : List Token
  stop : Position
  pragmas : List Span
deriving DecidableEq, Repr

def Scanned.add (s : Scanned) (span : Span) : Piece → Scanned
  | .token kind => { s with tokens := ⟨kind, span⟩ :: s.tokens }
  | .pragma => { s with pragmas := span :: s.pragmas }
  | .newline | .filler => s

/-- Scans a source of at most `length` characters that starts at `p`. -/
def scanFrom (d : Dialect) :
    (length : Nat) → (lineStart : Bool) → (p : Position) → List Char →
      Except (Located LexFault) Scanned
  | 0, _, p, _ => .ok ⟨[], p, []⟩
  | length + 1, lineStart, p, source =>
    match Lexeme.piece? d lineStart source with
    | none => .ok ⟨[], p, []⟩
    | some found => do
      let span : Span := ⟨p, p.after found.text⟩
      match found.content with
      | .error fault => throw ⟨fault, span⟩
      | .ok piece =>
        let scanned ← scanFrom d length (piece.lineStartAfter lineStart) span.stop found.rest
        return scanned.add span piece

def scan (d : Dialect) (source : String) : Except (Located LexFault) Scanned :=
  scanFrom d source.length true {} source.toList

end ShaderBytecode
