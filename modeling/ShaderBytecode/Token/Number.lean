import ShaderBytecode.Text.Word
import ShaderBytecode.Token.Basic

/-!
# Numeric literals

An integer is written in decimal, with a suffix `u` if it needs the top bit, or in hexadecimal.
A float has a point, an exponent or the suffix `f`.
-/

namespace ShaderBytecode

/-- Why a text is no token. -/
inductive LexFault where
  | unexpectedCharacter (c : Char)
  | bitwiseOperator
  | unterminatedComment
  | unsupportedDirective (name : String)
  | invalidNumber (text : String)
  | integerRange (text : String)
deriving DecidableEq, Repr

/-- Text read from the front of a source, what it was found to be, and what is left. -/
structure Lexeme (α : Type) where
  text : List Char
  rest : List Char
  content : Except LexFault α

def takeOne (test : Char → Bool) : List Char → List Char × List Char
  | [] => ([], [])
  | c :: rest => if test c then ([c], rest) else ([], c :: rest)

/-- Splits off the longest run of characters that pass a test. -/
def takeRun (test : Char → Bool) (text : List Char) : List Char × List Char :=
  (text.takeWhile test, text.dropWhile test)

def unsignedLimit : Nat := 0x100000000

def signedLimit : Nat := 0x80000000

/-- An exponent: the mark `e`, an optional sign and digits. -/
structure Exponent where
  mark : List Char := []
  sign : List Char := []
  digits : List Char := []

namespace Exponent

def isAbsent (e : Exponent) : Bool :=
  e.mark.isEmpty

def isBroken (e : Exponent) : Bool :=
  !e.mark.isEmpty && e.digits.isEmpty

def value (e : Exponent) : Int :=
  let magnitude := digitsValue 10 e.digits
  if e.sign = ['-'] then -magnitude else magnitude

def text (e : Exponent) : List Char :=
  e.mark ++ e.sign ++ e.digits

/-- The text as messages quote it, with a lower case mark. -/
def quoted (e : Exponent) : List Char :=
  (if e.isAbsent then [] else ['e']) ++ e.sign ++ e.digits

def read (source : List Char) : Exponent × List Char :=
  let (mark, rest) := takeOne (fun c => c = 'e' || c = 'E') source
  if mark.isEmpty then ({}, source)
  else
    let (sign, rest) := takeOne (fun c => c = '+' || c = '-') rest
    let (digits, rest) := takeRun isDigit rest
    (⟨mark, sign, digits⟩, rest)

end Exponent

namespace Lexeme

/-- The literal `0x…`; `mark` is the letter `x` as written. -/
def hexadecimal (mark : Char) (source : List Char) : Lexeme TokenKind :=
  let (digits, rest) := takeRun isHexDigit source
  let (small, rest) := takeOne (· = 'u') rest
  let (capital, rest) := takeOne (· = 'U') rest
  let value := digitsValue 16 digits
  { text := '0' :: mark :: (digits ++ small ++ capital)
    rest
    content :=
      if digits.isEmpty || unsignedLimit ≤ value then
        .error (.invalidNumber ("0x" ++ String.ofList digits))
      else .ok (.int value) }

/-- The literal that starts with a digit or a point. Word characters right behind it spoil it. -/
def decimal (source : List Char) : Lexeme TokenKind :=
  let (whole, rest) := takeRun isDigit source
  let (point, rest) := takeOne (· = '.') rest
  let (fraction, rest) := if point.isEmpty then ([], rest) else takeRun isDigit rest
  let (exponent, rest) := Exponent.read rest
  let read := whole ++ point ++ fraction ++ exponent.text
  let quoted := whole ++ point ++ fraction ++ exponent.quoted
  if exponent.isBroken then
    { text := read, rest, content := .error (.invalidNumber (String.ofList quoted)) }
  else
    let hasPoint := !point.isEmpty || !exponent.isAbsent
    let (floatMark, rest) := takeOne (fun c => c = 'f' || c = 'F') rest
    let isFloat := hasPoint || !floatMark.isEmpty
    let (unsignedMark, rest) := takeOne (fun c => !isFloat && (c = 'u' || c = 'U')) rest
    let (tail, rest) := takeRun isWordPart rest
    { text := read ++ floatMark ++ unsignedMark ++ tail
      rest
      content :=
        if !tail.isEmpty then .error (.invalidNumber (String.ofList (quoted ++ tail)))
        else if isFloat then
          .ok (.float (.ofDecimal (digitsValue 10 (whole ++ fraction))
            (exponent.value - fraction.length)))
        else
          let value := digitsValue 10 whole
          if !unsignedMark.isEmpty then
            if unsignedLimit ≤ value then .error (.invalidNumber (String.ofList quoted))
            else .ok (.int value)
          else if signedLimit ≤ value then .error (.integerRange (String.ofList quoted))
          else .ok (.int value) }

/-- The numeric literal at the front of a source that starts with a digit or a point. -/
def number : List Char → Lexeme TokenKind
  | '0' :: 'x' :: rest => hexadecimal 'x' rest
  | '0' :: 'X' :: rest => hexadecimal 'X' rest
  | source => decimal source

end Lexeme

end ShaderBytecode
