import ShaderBytecode.Text.Word
import ShaderBytecode.Toml.Value

/-!
# TOML strings, numbers and dates
-/

namespace ShaderBytecode.Toml

abbrev Read := StateT (List Char) (Except Fault)

def malformed {α : Type} : Read α := throw .malformed

def skipWhile (p : Char → Bool) : Read Unit :=
  modify (·.dropWhile p)

def isLineBlank (c : Char) : Bool :=
  c = ' ' || c = '\t'

/-- A control character that may stand in neither strings nor comments. -/
def isForbidden (c : Char) : Bool :=
  (c.toNat < 0x20 && c ≠ '\t') || c.toNat = 0x7F

def expect (c : Char) : Read Unit := do
  match ← get with
  | found :: rest => if found = c then set rest else malformed
  | [] => malformed

/-! ### Strings -/

/-- The character with the code point written by so many hexadecimal digits. -/
def codePoint (width : Nat) : Read Char := do
  let text ← get
  let digits := text.take width
  let value := digitsValue 16 digits
  if digits.length = width && digits.all isHexDigit && value.isValidChar then
    set (text.drop width)
    return Char.ofNat value
  malformed

/-- The character that an escape behind its backslash stands for. -/
def escape : Read Char := do
  match ← get with
  | [] => malformed
  | c :: rest =>
    set rest
    match c with
    | 'b' => return '\x08'
    | 't' => return '\t'
    | 'n' => return '\n'
    | 'f' => return '\x0c'
    | 'r' => return '\r'
    | 'e' => return '\x1b'
    | '"' => return '"'
    | '\\' => return '\\'
    | 'x' => codePoint 2
    | 'u' => codePoint 4
    | 'U' => codePoint 8
    | _ => malformed

/-- A notation of strings: its quote, and whether it spans lines. Only double quotes have
escapes. -/
structure Quoting where
  quote : Char
  multiline : Bool

/-- The rest of a text behind a backslash that ends its line, up to what is neither white space nor
a line end. -/
def afterLineEscape? (text : List Char) : Option (List Char) :=
  match text.dropWhile isLineBlank with
  | '\n' :: rest => some (rest.dropWhile fun c => isLineBlank c || c = '\n' || c = '\r')
  | '\r' :: '\n' :: rest => some (rest.dropWhile fun c => isLineBlank c || c = '\n' || c = '\r')
  | _ => none

/-- The characters of a string up to its closing quotes, which are read too. Up to two quotes may
stand right before the three that close a string of many lines. Each round reads a character, so
the length of the text is fuel enough. -/
def stringBody (q : Quoting) : Nat → Read (List Char)
  | 0 => malformed
  | fuel + 1 => do
    let text ← get
    match text with
    | [] => malformed
    | c :: rest =>
      if c = q.quote then
        if !q.multiline then
          set rest
          return []
        let run := text.takeWhile (· = q.quote)
        set (text.drop run.length)
        if run.length < 3 then return run ++ (← stringBody q fuel)
        else if run.length ≤ 5 then return run.drop 3
        else malformed
      else if c = '\\' && q.quote = '"' then
        match if q.multiline then afterLineEscape? rest else none with
        | some rest =>
          set rest
          stringBody q fuel
        | none =>
          set rest
          let escaped ← escape
          return escaped :: (← stringBody q fuel)
      else if q.multiline && c = '\n' || q.multiline && c = '\r' && rest.head? = some '\n'
          || !isForbidden c then
        set rest
        return c :: (← stringBody q fuel)
      else malformed

def lineString : Read String := do
  match ← get with
  | [] => malformed
  | quote :: rest =>
    set rest
    return String.ofList (← stringBody ⟨quote, false⟩ rest.length)

/-- A string, from its opening quotes. A line end right behind three quotes is left out. -/
def quoted : Read String := do
  match ← get with
  | a :: b :: c :: rest =>
    if a = b && b = c then
      let rest :=
        match rest with
        | '\n' :: rest => rest
        | '\r' :: '\n' :: rest => rest
        | rest => rest
      set rest
      return String.ofList (← stringBody ⟨a, true⟩ rest.length)
    else lineString
  | _ => lineString

/-! ### Numbers -/

/-- Digits without the underscores that stand singly between them. -/
def groupedDigits? (p : Char → Bool) : List Char → Option (List Char)
  | [] => none
  | [c] => if p c then some [c] else none
  | c :: '_' :: rest => if p c then (groupedDigits? p rest).map (c :: ·) else none
  | c :: rest => if p c then (groupedDigits? p rest).map (c :: ·) else none

def signed : List Char → Bool × List Char
  | '-' :: rest => (true, rest)
  | '+' :: rest => (false, rest)
  | rest => (false, rest)

/-- The sign of a whole number, and its digits. One underscore may stand between the two. -/
def signedDigits : List Char → Bool × List Char
  | '-' :: '_' :: digits => (true, digits)
  | '+' :: '_' :: digits => (false, digits)
  | text => signed text

def wholeDigits? (text : List Char) : Option (List Char) :=
  (groupedDigits? isDigit text).filter fun digits => digits.length = 1 || digits.head? ≠ some '0'

def integer? (text : List Char) : Option Int :=
  let based (base : Nat) (p : Char → Bool) (digits : List Char) : Option Int :=
    (groupedDigits? p digits).map fun digits => digitsValue base digits
  match text with
  | '0' :: 'x' :: digits => based 16 isHexDigit digits
  | '0' :: 'o' :: digits => based 8 (fun c => '0' ≤ c && c ≤ '7') digits
  | '0' :: 'b' :: digits => based 2 (fun c => c = '0' || c = '1') digits
  | _ =>
    let (negative, digits) := signedDigits text
    (wholeDigits? digits).map fun digits =>
      let value : Int := digitsValue 10 digits
      if negative then -value else value

def exponent? (text : List Char) : Option Int :=
  let (negative, digits) := signed text
  (groupedDigits? isDigit digits).map fun digits =>
    let value : Int := digitsValue 10 digits
    if negative then -value else value

/-- The size of a number with a fraction or an exponent. -/
def decimal? (text : List Char) : Option Double := do
  let isMark (c : Char) : Bool := c = '.' || c = 'e' || c = 'E'
  let whole ← wholeDigits? (text.takeWhile (!isMark ·))
  let (fraction, rest) ←
    match text.dropWhile (!isMark ·) with
    | '.' :: rest => do
      let isExponent (c : Char) : Bool := c = 'e' || c = 'E'
      let digits ← groupedDigits? isDigit (rest.takeWhile (!isExponent ·))
      pure (digits, rest.dropWhile (!isExponent ·))
    | rest => pure ([], rest)
  let exponent ←
    match rest with
    | [] => pure 0
    | _ :: rest => exponent? rest
  return .ofDecimal (digitsValue 10 (whole ++ fraction)) (exponent - fraction.length)

def float? (text : List Char) : Option Double :=
  let (negative, size) := signed text
  let size? : Option Double :=
    if size = "inf".toList then some Double.infinity
    else if size = "nan".toList then some Double.notANumber
    else decimal? (signedDigits text).2
  size?.map fun x => if negative then x.negate else x

/-! ### Dates -/

/-- A number of so many digits in a range, and the rest. -/
def field? (width low high : Nat) (text : List Char) : Option (Nat × List Char) :=
  let digits := text.take width
  let value := digitsValue 10 digits
  if digits.length = width && digits.all isDigit && low ≤ value && value ≤ high then
    some (value, text.drop width)
  else none

def daysOf (year month : Nat) : Nat :=
  if month = 2 then
    if year % 4 = 0 && (year % 100 ≠ 0 || year % 400 = 0) then 29 else 28
  else if [4, 6, 9, 11].contains month then 30
  else 31

def afterDay? (text : List Char) : Option (List Char) := do
  let (year, text) ← field? 4 0 9999 text
  let '-' :: text := text | none
  let (month, text) ← field? 2 1 12 text
  let '-' :: text := text | none
  let (_, text) ← field? 2 1 (daysOf year month) text
  return text

/-- The rest of a text behind a time of day. Seconds and their fraction may be missing. -/
def afterTime? (text : List Char) : Option (List Char) := do
  let (_, text) ← field? 2 0 23 text
  let ':' :: text := text | none
  let (_, text) ← field? 2 0 59 text
  match text with
  | ':' :: text =>
    let (_, text) ← field? 2 0 60 text
    match text with
    | '.' :: c :: text => if isDigit c then some (text.dropWhile isDigit) else none
    | '.' :: [] => none
    | _ => some text
  | _ => some text

/-- Whether a text is nothing or the distance of a time zone. -/
def isZone (text : List Char) : Bool :=
  match text with
  | [] | ['Z'] | ['z'] => true
  | sign :: text =>
    (sign = '+' || sign = '-') &&
      ((do
        let (_, text) ← field? 2 0 23 text
        let ':' :: text := text | none
        let (_, text) ← field? 2 0 59 text
        return text) : Option (List Char)) = some []

def isDate (text : List Char) : Bool :=
  match afterDay? text with
  | some [] => true
  | some (mark :: rest) =>
    (mark = 'T' || mark = 't' || mark = ' ') &&
      match afterTime? rest with
      | some rest => isZone rest
      | none => false
  | none => afterTime? text = some []

/-! ### Values without quotes -/

def baseMarks : List String :=
  ["0x", "0o", "0b"]

/-- Whether a word starts like a number, a date, a truth value, `inf` or `nan`. -/
def startsBare (word : List Char) : Bool :=
  word.head?.any fun c => isDigit c || "+-_.tTfFiInN".toList.contains c

def bareValue? (word : List Char) : Option Value :=
  if word = "true".toList then some (.boolean true)
  else if word = "false".toList then some (.boolean false)
  else if baseMarks.any (·.toList = word) then some .emptyInteger
  else
    match integer? word with
    | some n => some (.integer n)
    | none =>
      match float? word with
      | some x => some (.float x)
      | none => if isDate word then some (.date (String.ofList word)) else none

def isBarePart (c : Char) : Bool :=
  isWordPart c || c = '+' || c = '-' || c = '.' || c = ':'

/-- A value without quotes. A blank may stand between a day and its time. -/
def bare : Read Value := do
  let text ← get
  let word := text.takeWhile isBarePart
  let rest := text.drop word.length
  let (word, rest) :=
    match afterDay? word, rest with
    | some [], ' ' :: digit :: more =>
      if isDigit digit then
        let time := (digit :: more).takeWhile isBarePart
        (word ++ ' ' :: time, (digit :: more).drop time.length)
      else (word, rest)
    | _, _ => (word, rest)
  match bareValue? word with
  | some value =>
    set rest
    return value
  | none => if startsBare word then malformed else throw .unquotedText

end ShaderBytecode.Toml
