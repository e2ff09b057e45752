import ShaderBytecode.Toml.Scalar

/-!
# TOML documents
-/

namespace ShaderBytecode.Toml

def newline? : Read Bool := do
  match ← get with
  | '\n' :: rest =>
    set rest
    return true
  | '\r' :: '\n' :: rest =>
    set rest
    return true
  | _ => return false

/-- Reads a comment if there is one, up to its line end. -/
def comment : Read Unit := do
  match ← get with
  | '#' :: rest =>
    let body := rest.takeWhile fun c => c ≠ '\n'
    let body := if body.getLast? = some '\r' then body.dropLast else body
    if body.any isForbidden then malformed
    set (rest.drop body.length)
  | _ => return ()

/-- Reads white space, comments and line ends. Each round ends a line, so the length of the text is
fuel enough. -/
def skipLines : Nat → Read Unit
  | 0 => return ()
  | fuel + 1 => do
    skipWhile isLineBlank
    comment
    if ← newline? then skipLines fuel

def skipFiller : Read Unit := do
  skipLines ((← get).length + 1)

def isKeyPart (c : Char) : Bool :=
  isWordPart c || c = '-'

def keyPart : Read String := do
  let text ← get
  match text with
  | '"' :: _ | '\'' :: _ => lineString
  | _ =>
    let word := text.takeWhile isKeyPart
    if word.isEmpty then malformed
    set (text.drop word.length)
    return String.ofList word

def keyTail : Nat → Read (List String)
  | 0 => malformed
  | fuel + 1 => do
    skipWhile isLineBlank
    match ← get with
    | '.' :: rest =>
      set rest
      skipWhile isLineBlank
      let part ← keyPart
      return part :: (← keyTail fuel)
    | _ => return []

def key : Read (List String) := do
  skipWhile isLineBlank
  let first ← keyPart
  return first :: (← keyTail ((← get).length + 1))

mutual

/-- A value. Nested values are shorter, so the length of the text is fuel enough. -/
def value : Nat → Read Value
  | 0 => malformed
  | fuel + 1 => do
    match ← get with
    | '"' :: _ | '\'' :: _ => return .string (← quoted)
    | '[' :: rest =>
      set rest
      return .array (← items fuel)
    | '\x7b' :: rest =>
      set rest
      return .table .inline (← fields fuel [])
    | _ => bare

def items : Nat → Read (List Value)
  | 0 => malformed
  | fuel + 1 => do
    skipFiller
    match ← get with
    | ']' :: rest =>
      set rest
      return []
    | _ =>
      let item ← value fuel
      skipFiller
      match ← get with
      | ',' :: rest =>
        set rest
        return item :: (← items fuel)
      | ']' :: rest =>
        set rest
        return [item]
      | _ => malformed

/-- The entries of a table that is written as a value, up to its closing brace. -/
def fields : Nat → Entries → Read Entries
  | 0, _ => malformed
  | fuel + 1, entries => do
    skipFiller
    match ← get with
    | '\x7d' :: rest =>
      set rest
      return entries
    | _ =>
      let path ← key
      skipFiller
      expect '='
      skipFiller
      let found ← value fuel
      let entries ← (entries.define path found : Except Fault Entries)
      skipFiller
      match ← get with
      | ',' :: rest =>
        set rest
        fields fuel entries
      | '\x7d' :: rest =>
        set rest
        return entries
      | _ => malformed

end

/-- A document as far as it was read. -/
structure Document where
  entries : Entries := []
  /-- The header that the lines belong to. -/
  header : List String := []

def header (d : Document) : Read Document := do
  match ← get with
  | '[' :: rest =>
    set rest
    let path ← key
    expect ']'
    expect ']'
    return ⟨← (d.entries.openRow path : Except Fault Entries), path⟩
  | _ =>
    let path ← key
    expect ']'
    return ⟨← (d.entries.openTable path : Except Fault Entries), path⟩

def definition (d : Document) : Read Document := do
  let path ← key
  if (← get).head? ≠ some '=' then throw .keyWithoutValue
  expect '='
  skipWhile isLineBlank
  let found ← value ((← get).length + 1)
  let entries ←
    (Entries.change false (Entries.define path found) d.header d.entries : Except Fault Entries)
  return { d with entries }

/-- Reads lines up to the end of the text. Each round reads a character, so the length of the text
is fuel enough. -/
def lines : Nat → Document → Read Document
  | 0, d => return d
  | fuel + 1, d => do
    skipFiller
    match ← get with
    | [] => return d
    | c :: rest =>
      let d ←
        if c = '[' then do
          set rest
          header d
        else definition d
      skipWhile isLineBlank
      comment
      if (← get).isEmpty then return d
      if ← newline? then lines fuel d else malformed

/-- The table that a document describes. A byte order mark in front of it is skipped. -/
def read (text : String) : Except Fault Entries :=
  let text :=
    match text.toList with
    | '\uFEFF' :: rest => rest
    | text => text
  match lines (text.length + 1) {} text with
  | .ok (d, _) => .ok d.entries
  | .error fault => .error fault

end ShaderBytecode.Toml
