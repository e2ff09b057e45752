import ShaderBytecode.Text.Combining
import ShaderBytecode.Text.Graphic

/-!
# Quoted text

Text between double quotes, with escapes for what would not show.
-/

namespace ShaderBytecode

/-- Whether a character is written as it is: it can be seen, and it does not merge with the one
before it. -/
def isShown (c : Char) : Bool :=
  isGraphic c && !extendsPrevious c

def quotedChar (c : Char) : String :=
  match c with
  | '"' => "\\\""
  | '\\' => "\\\\"
  | '\n' => "\\n"
  | '\r' => "\\r"
  | '\t' => "\\t"
  | '\x00' => "\\0"
  | _ =>
    if isShown c then c.toString
    else "\\u\x7b" ++ String.ofList (Nat.toDigits 16 c.toNat) ++ "\x7d"

def quotedText (text : String) : String :=
  "\"" ++ String.join (text.toList.map quotedChar) ++ "\""

end ShaderBytecode
