import ShaderBytecode.Config.Basic
import ShaderBytecode.Number.Shortest
import ShaderBytecode.Text.Quoted
import ShaderBytecode.Toml.Document

/-!
# Reading a configuration
-/

namespace ShaderBytecode

/-- An option of the compiler. -/
inductive Setting where
  | lineMarkers
  | promoteInts
  | warnings
  | maxErrors
deriving DecidableEq, Repr

namespace Setting

def all : List Setting :=
  [lineMarkers, promoteInts, warnings, maxErrors]

def name : Setting → String
  | lineMarkers => "emit_line_markers"
  | promoteInts => "implicit_int_to_float"
  | warnings => "warnings_enabled"
  | maxErrors => "max_errors"

def ofName? (key : String) : Option Setting :=
  all.find? (·.name = key)

end Setting

/-- Why a configuration is refused. -/
inductive ConfigFault where
  /-- There is no file, or it holds no text. -/
  | unreadable
  | malformed (fault : Toml.Fault)
  | unknownKey (key : String)
  /-- A value of another type, described, than the option has. -/
  | wrongType (found expected : String)
  | negativeCount (value : Int)
  /-- An integer without digits or of more than 128 bits. -/
  | notAnInteger
  /-- At least one error has to be allowed. -/
  | noErrorAllowed
deriving DecidableEq, Repr

namespace ConfigFault

/-- What the values of an option that counts are called. -/
def countName : String := "usize"

def reason : ConfigFault → String
  | unreadable => "not a text"
  | malformed fault => fault.message
  | unknownKey key =>
    let names := String.intercalate ", " (Setting.all.map fun s => s!"`{s.name}`")
    s!"unknown field `{key}`, expected one of {names}"
  | wrongType found expected => s!"invalid type: {found}, expected {expected}"
  | negativeCount value => s!"invalid value: integer `{value}`, expected {countName}"
  | notAnInteger => "integer number overflowed"
  | noErrorAllowed => "max_errors must be at least 1"

def message (f : ConfigFault) : String :=
  match f with
  | unreadable => "Can't read config file"
  | noErrorAllowed => f.reason
  | _ => "Malformed translator config: " ++ f.reason

end ConfigFault

namespace Toml.Value

def wideLimit : Int := 0x80000000000000000000000000000000

/-- What a value is called when its type is wrong. Integers beyond 64 bits are told from the others;
there are none beyond 128. -/
def describe : Value → Except ConfigFault String
  | integer n =>
    if -0x8000000000000000 ≤ n && n < 0x10000000000000000 then .ok s!"integer `{n}`"
    else if -wideLimit ≤ n && n < wideLimit then .ok s!"integer `{n}` as i128"
    else if 0 ≤ n && n < 2 * wideLimit then .ok s!"integer `{n}` as u128"
    else .error .notAnInteger
  | emptyInteger => .error .notAnInteger
  | float x => .ok s!"floating point `{x.text .setting}`"
  | boolean b => .ok (if b then "boolean `true`" else "boolean `false`")
  | string text => .ok ("string " ++ quotedText text)
  | array _ | rows _ => .ok "sequence"
  | date _ | table _ _ => .ok "map"

def toSwitch (v : Value) : Except ConfigFault Bool :=
  match v with
  | boolean b => .ok b
  | _ => do throw (.wrongType (← v.describe) "a boolean")

def toCount (v : Value) : Except ConfigFault Nat :=
  match v with
  | integer n =>
    if 0 ≤ n && n < 0x10000000000000000 then .ok n.toNat
    else if -0x8000000000000000 ≤ n && n < 0 then .error (.negativeCount n)
    else do throw (.wrongType (← v.describe) ConfigFault.countName)
  | _ => do throw (.wrongType (← v.describe) ConfigFault.countName)

end Toml.Value

namespace Config

def set (c : Config) (s : Setting) (v : Toml.Value) : Except ConfigFault Config :=
  match s with
  | .lineMarkers => do return { c with lineMarkers := ← v.toSwitch }
  | .promoteInts => do return { c with promoteInts := ← v.toSwitch }
  | .warnings => do return { c with warnings := ← v.toSwitch }
  | .maxErrors => do return { c with maxErrors := ← v.toCount }

def setKey (c : Config) (entry : String × Toml.Value) : Except ConfigFault Config :=
  match Setting.ofName? entry.1 with
  | some setting => c.set setting entry.2
  | none => .error (.unknownKey entry.1)

/-- The configuration that a TOML document describes. Keys are taken in their order as text, and the
first one that is wrong is reported. -/
def ofToml (text : String) : Except ConfigFault Config :=
  match Toml.read text with
  | .error fault => .error (.malformed fault)
  | .ok entries => do
    let sorted := entries.mergeSort fun a b => !(b.1 < a.1)
    let config ← sorted.foldlM setKey {}
    if config.maxErrors = 0 then throw .noErrorAllowed
    return config

/-- The configuration in a file, given its bytes if it exists. -/
def ofFile (bytes : Option (List UInt8)) : Except ConfigFault Config :=
  match bytes.bind fun bytes => String.fromUTF8? ⟨bytes.toArray⟩ with
  | some text => ofToml text
  | none => .error .unreadable

end Config

end ShaderBytecode
