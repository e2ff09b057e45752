import ShaderBytecode.Dialect

/-!
# Intrinsic functions
-/

namespace ShaderBytecode

/-- A predeclared function. -/
inductive Intrinsic where
  | radians
  | degrees
  | sin
  | cos
  | tan
  | asin
  | acos
  | atan
  | atan2
  | pow
  | exp
  | log
  | exp2
  | log2
  | sqrt
  | inverseSqrt
  | abs
  | sign
  | floor
  | ceil
  | fract
  | mod
  | min
  | max
  | clamp
  | saturate
  | mix
  | step
  | smoothstep
  | length
  | distance
  | dot
  | cross
  | normalize
  | reflect
  | refract
  | texture
  | matrixMultiply
  | emitVertex
  | endPrimitive
deriving DecidableEq, Repr, Inhabited

namespace Intrinsic

/-- How the argument types of an intrinsic and its result hang together. `T` stands for a float
scalar or vector. -/
inductive Shape where
  /-- `T` to `T`. -/
  | unary
  /-- `T, T` to `T`. -/
  | binary
  /-- `T`, then `T` or float, to `T`. -/
  | binaryScalarRight
  /-- `T`, then twice `T` or float, to `T`. -/
  | clamp
  /-- `T, T`, then `T` or float, to `T`. -/
  | mix
  /-- `T` or float, then `T`, to `T`. -/
  | step
  /-- Twice `T` or float, then `T`, to `T`. -/
  | smoothstep
  /-- `T` to float. -/
  | length
  /-- `T, T` to float. -/
  | dot
  /-- Two float vectors of three components to one. -/
  | cross
  /-- `T, T`, then float, to `T`. -/
  | refract
  /-- A sampler and a float vector of two components to one of four. -/
  | texture
  /-- Typed like the operator `*`. -/
  | matrixMultiply
  /-- No argument and no result. -/
  | void
deriving DecidableEq, Repr

def all : List Intrinsic :=
  [radians, degrees, sin, cos, tan, asin, acos, atan, atan2, pow, exp, log, exp2, log2, sqrt,
    inverseSqrt, abs, sign, floor, ceil, fract, mod, min, max, clamp, saturate, mix, step,
    smoothstep, length, distance, dot, cross, normalize, reflect, refract, texture,
    matrixMultiply, emitVertex, endPrimitive]

def id (i : Intrinsic) : UInt32 :=
  .ofNat (all.idxOf i)

def ofId? (n : UInt32) : Option Intrinsic :=
  all[n.toNat]?

def name : Intrinsic → String
  | radians => "radians"
  | degrees => "degrees"
  | sin => "sin"
  | cos => "cos"
  | tan => "tan"
  | asin => "asin"
  | acos => "acos"
  | atan => "atan"
  | atan2 => "atan2"
  | pow => "pow"
  | exp => "exp"
  | log => "log"
  | exp2 => "exp2"
  | log2 => "log2"
  | sqrt => "sqrt"
  | inverseSqrt => "inversesqrt"
  | abs => "abs"
  | sign => "sign"
  | floor => "floor"
  | ceil => "ceil"
  | fract => "fract"
  | mod => "mod"
  | min => "min"
  | max => "max"
  | clamp => "clamp"
  | saturate => "saturate"
  | mix => "mix"
  | step => "step"
  | smoothstep => "smoothstep"
  | length => "length"
  | distance => "distance"
  | dot => "dot"
  | cross => "cross"
  | normalize => "normalize"
  | reflect => "reflect"
  | refract => "refract"
  | texture => "texture"
  | matrixMultiply => "mul"
  | emitVertex => "EmitVertex"
  | endPrimitive => "EndPrimitive"

/-- The intrinsics that both dialects call by the same name. -/
def common? : String → Option Intrinsic
  | "radians" => some radians
  | "degrees" => some degrees
  | "sin" => some sin
  | "cos" => some cos
  | "tan" => some tan
  | "asin" => some asin
  | "acos" => some acos
  | "pow" => some pow
  | "exp" => some exp
  | "log" => some log
  | "exp2" => some exp2
  | "log2" => some log2
  | "sqrt" => some sqrt
  | "abs" => some abs
  | "sign" => some sign
  | "floor" => some floor
  | "ceil" => some ceil
  | "min" => some min
  | "max" => some max
  | "clamp" => some clamp
  | "step" => some step
  | "smoothstep" => some smoothstep
  | "length" => some length
  | "distance" => some distance
  | "dot" => some dot
  | "cross" => some cross
  | "normalize" => some normalize
  | "reflect" => some reflect
  | "refract" => some refract
  | _ => none

/-- The intrinsics with a name of their own in GLSL. With two arguments `atan` is `atan2`. -/
def glsl? (arguments : Nat) : String → Option Intrinsic
  | "atan" => if arguments = 2 then some atan2 else some atan
  | "inversesqrt" => some inverseSqrt
  | "fract" => some fract
  | "mod" => some mod
  | "mix" => some mix
  | "texture" => some texture
  | "texture2D" => some texture
  | "EmitVertex" => some emitVertex
  | "EndPrimitive" => some endPrimitive
  | _ => none

def hlsl? : String → Option Intrinsic
  | "atan" => some atan
  | "atan2" => some atan2
  | "rsqrt" => some inverseSqrt
  | "frac" => some fract
  | "fmod" => some mod
  | "lerp" => some mix
  | "saturate" => some saturate
  | "tex2D" => some texture
  | "mul" => some matrixMultiply
  | _ => none

/-- The intrinsic that a call with so many arguments names. -/
def lookup? (d : Dialect) (name : String) (arguments : Nat) : Option Intrinsic :=
  match common? name, d with
  | some found, _ => some found
  | none, .glsl => glsl? arguments name
  | none, .hlsl => hlsl? name

/-- Whether a name is an intrinsic's for some number of arguments. -/
def isName (d : Dialect) (name : String) : Bool :=
  (lookup? d name 0).isSome

def shape : Intrinsic → Shape
  | radians | degrees | sin | cos | tan | asin | acos | atan | exp | log | exp2 | log2 | sqrt
  | inverseSqrt | abs | sign | floor | ceil | fract | saturate | normalize => .unary
  | atan2 | pow | reflect => .binary
  | mod | min | max => .binaryScalarRight
  | clamp => .clamp
  | mix => .mix
  | step => .step
  | smoothstep => .smoothstep
  | length => .length
  | distance | dot => .dot
  | cross => .cross
  | refract => .refract
  | texture => .texture
  | matrixMultiply => .matrixMultiply
  | emitVertex | endPrimitive => .void

def Shape.arity : Shape → Nat
  | void => 0
  | unary | length => 1
  | binary | binaryScalarRight | step | dot | cross | texture | matrixMultiply => 2
  | clamp | mix | smoothstep | refract => 3

def arity (i : Intrinsic) : Nat :=
  i.shape.arity

/-- The only stage that has an intrinsic, if it is restricted to one. -/
def requiredStage? : Intrinsic → Option Stage
  | emitVertex | endPrimitive => some .geometry
  | _ => none

end Intrinsic

end ShaderBytecode
