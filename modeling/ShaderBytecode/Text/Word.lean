/-!
# Character classes and digits

The ASCII classes that words and numbers of both dialects are written with, and the value of a
run of digits. The classes are ASCII only because the dialects are: a letter outside ASCII starts
no word.
-/

namespace ShaderBytecode

def isLetter (c : Char) : Bool :=
  ('a' ≤ c && c ≤ 'z') || ('A' ≤ c && c ≤ 'Z')

def isDigit (c : Char) : Bool :=
  '0' ≤ c && c ≤ '9'

def isHexDigit (c : Char) : Bool :=
  isDigit c || ('a' ≤ c && c ≤ 'f') || ('A' ≤ c && c ≤ 'F')

def isWordStart (c : Char) : Bool :=
  isLetter c || c = '_'

def isWordPart (c : Char) : Bool :=
  isWordStart c || isDigit c

def digitValue (c : Char) : Nat :=
  if isDigit c then c.toNat - '0'.toNat
  else if 'a' ≤ c && c ≤ 'f' then c.toNat - 'a'.toNat + 10
  else if 'A' ≤ c && c ≤ 'F' then c.toNat - 'A'.toNat + 10
  else 0

/-- The number written by a run of digits in the given base. -/
def digitsValue (base : Nat) (digits : List Char) : Nat :=
  digits.foldl (fun n c => base * n + digitValue c) 0

end ShaderBytecode
