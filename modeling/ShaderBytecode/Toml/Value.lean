import ShaderBytecode.Number.Binary

/-!
# TOML values

A key is given a value once. A header may return to a table that was only passed through on the way
to another one, and a dotted key to a table that no header began.
-/

namespace ShaderBytecode.Toml

/-- Why a document is refused. -/
inductive Fault where
  | duplicateKey
  /-- A dotted key or a header goes through something that is no open table. -/
  | notExtensible (kind : String)
  | keyWithoutValue
  /-- A value that starts like none. -/
  | unquotedText
  | malformed
deriving DecidableEq, Repr

def Fault.message : Fault → String
  | duplicateKey => "duplicate key"
  | notExtensible kind => s!"cannot extend value of type {kind} with a dotted key"
  | keyWithoutValue => "key with no value, expected `=`"
  | unquotedText => "string values must be quoted, expected literal string"
  | malformed => "invalid document"

/-- How a table came to be. -/
inductive Origin where
  /-- Passed through by the header of another table. -/
  | passed
  | header
  | dotted
  /-- Written as a value, and complete. -/
  | inline
deriving DecidableEq, Repr

/-- What a key stands for. -/
inductive Value where
  | integer (n : Int)
  /-- The mark of a base without digits behind it: an integer that is no number. -/
  | emptyInteger
  | float (x : Double)
  | boolean (b : Bool)
  | string (text : String)
  | date (text : String)
  | array (items : List Value)
  | table (origin : Origin) (entries : List (String × Value))
  /-- Tables that headers add one by one. -/
  | rows (tables : List (List (String × Value)))

/-- The keys of a table and what they stand for, in the order of their definition. No key occurs
twice. -/
abbrev Entries := List (String × Value)

def Value.kind : Value → String
  | integer _ | emptyInteger => "integer"
  | float _ => "float"
  | boolean _ => "boolean"
  | string _ => "string"
  | date _ => "datetime"
  | array _ | rows _ => "array"
  | table .inline _ => "inline table"
  | table _ _ => "table"

namespace Entries

/-- Gives a key a value, in the place of the one it has. -/
def put (key : String) (value : Value) : Entries → Entries
  | [] => [(key, value)]
  | (k, v) :: rest => if k = key then (key, value) :: rest else (k, v) :: put key value rest

/-- Changes the table at the end of a path. Tables that are missing on the path are made. Of the
tables that headers add one by one the path goes through the last, and a dotted key does not end
there. -/
def change (dotted : Bool) (f : Entries → Except Fault Entries) :
    List String → Entries → Except Fault Entries
  | [], entries => f entries
  | key :: path, entries =>
    match entries.lookup key with
    | none => do
      let inner ← change dotted f path []
      return entries.put key (.table (if dotted then .dotted else .passed) inner)
    | some (.table origin inner) =>
      if origin = .inline then .error (.notExtensible "inline table")
      else if dotted && origin = .header then .error .duplicateKey
      else do return entries.put key (.table origin (← change dotted f path inner))
    | some (.rows tables) =>
      if dotted && path.isEmpty then .error .duplicateKey
      else do
        let last ← change dotted f path (tables.getLastD [])
        return entries.put key (.rows (tables.dropLast ++ [last]))
    | some value => .error (.notExtensible value.kind)

def add (key : String) (value : Value) (entries : Entries) : Except Fault Entries :=
  if (entries.lookup key).isSome then .error .duplicateKey else .ok (entries.put key value)

/-- Gives a key a value: the last of `path`, in the table that the keys before it lead to. -/
def define (path : List String) (value : Value) (entries : Entries) : Except Fault Entries :=
  change true (add (path.getLastD "") value) path.dropLast entries

def openTable (path : List String) (entries : Entries) : Except Fault Entries :=
  let key := path.getLastD ""
  change false (fun inner =>
    match inner.lookup key with
    | none => .ok (inner.put key (.table .header []))
    | some (.table .passed known) => .ok (inner.put key (.table .header known))
    | some _ => .error .duplicateKey) path.dropLast entries

/-- Begins another table of a header in double brackets. -/
def openRow (path : List String) (entries : Entries) : Except Fault Entries :=
  let key := path.getLastD ""
  change false (fun inner =>
    match inner.lookup key with
    | none => .ok (inner.put key (.rows [[]]))
    | some (.rows tables) => .ok (inner.put key (.rows (tables ++ [[]])))
    | some _ => .error .duplicateKey) path.dropLast entries

end Entries

end ShaderBytecode.Toml
