/-!
# White space

The characters with the Unicode property `White_Space`.
-/

namespace ShaderBytecode

/-- The code points of white space outside the ranges U+0009 to U+000D and U+2000 to U+200A. -/
def isolatedBlanks : List Nat :=
  [0x20, 0x85, 0xA0, 0x1680, 0x2028, 0x2029, 0x202F, 0x205F, 0x3000]

def isBlank (c : Char) : Bool :=
  let n := c.toNat
  (0x9 ≤ n && n ≤ 0xD) || (0x2000 ≤ n && n ≤ 0x200A) || isolatedBlanks.contains n

end ShaderBytecode
