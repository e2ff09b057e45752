/-!
# Binary floating-point formats

Numbers of the two IEEE 754 binary formats that programs and messages hold, as bit patterns. All
arithmetic on them is exact arithmetic on natural numbers followed by one rounding.
-/

namespace ShaderBytecode

/-- A binary interchange format: the number of bits of a significand, its leading one included,
and the number of bits of the exponent field. -/
structure BinaryFormat where
  precision : Nat
  exponentBits : Nat
deriving DecidableEq, Repr

/-- What a bit pattern without its sign stands for. A finite one is `significand * 2 ^ exponent`. -/
inductive Magnitude where
  | finite (significand : Nat) (exponent : Int)
  | infinite
  | notANumber
deriving DecidableEq, Repr

/-- The integer nearest to `num / den`; a half goes to the even neighbour. -/
def roundHalfEven (num den : Nat) : Nat :=
  let quotient := num / den
  let twice := 2 * (num % den)
  if twice < den then quotient
  else if den < twice then quotient + 1
  else quotient + quotient % 2

def powerOf (base exponent : Nat) : Nat :=
  Nat.pow base exponent

/-- Numerator and denominator of `num / den / 2 ^ exponent`. -/
def divideByPower (num den : Nat) (exponent : Int) : Nat × Nat :=
  if 0 ≤ exponent then (num, den * powerOf 2 exponent.toNat)
  else (num * powerOf 2 (-exponent).toNat, den)

namespace BinaryFormat

def single : BinaryFormat := ⟨24, 8⟩

def double : BinaryFormat := ⟨53, 11⟩

def minExponent (f : BinaryFormat) : Int :=
  3 - powerOf 2 (f.exponentBits - 1) - f.precision

/-- The bits of positive infinity, one more than those of the largest finite number. -/
def infinityBits (f : BinaryFormat) : Nat :=
  (powerOf 2 f.exponentBits - 1) * powerOf 2 (f.precision - 1)

def magnitude (f : BinaryFormat) (bits : Nat) : Magnitude :=
  let field := bits / powerOf 2 (f.precision - 1)
  let fraction := bits % powerOf 2 (f.precision - 1)
  if field = 0 then .finite fraction f.minExponent
  else if field < powerOf 2 f.exponentBits - 1 then
    .finite (powerOf 2 (f.precision - 1) + fraction) (f.minExponent + (field - 1))
  else if fraction = 0 then .infinite
  else .notANumber

/-- The exponent of the unit in the last place of the numbers near `num / den`. -/
def unitExponent (f : BinaryFormat) (num den : Nat) : Int :=
  let guess : Int := (num.log2 : Int) - (den.log2 : Int)
  let scaled := divideByPower num den guess
  let exponent := if scaled.2 ≤ scaled.1 then guess else guess - 1
  max (exponent - (f.precision - 1)) f.minExponent

/-- The bits of the nonnegative number of the format that is nearest to `num / den`; of two equally
near ones the one with the even significand. A rounded significand that gains a bit carries into
the exponent field by the sum, and what is too large becomes infinite. -/
def nearest (f : BinaryFormat) (num den : Nat) : Nat :=
  if num = 0 then 0
  else
    let exponent := f.unitExponent num den
    let scaled := divideByPower num den exponent
    let steps := (exponent - f.minExponent).toNat
    min (steps * powerOf 2 (f.precision - 1) + roundHalfEven scaled.1 scaled.2) f.infinityBits

end BinaryFormat

/-- A number in single precision, given by its bits. -/
structure Single where
  bits : UInt32
deriving DecidableEq, Repr, Inhabited

/-- A number in double precision, given by its bits. -/
structure Double where
  bits : UInt64
deriving DecidableEq, Repr, Inhabited

namespace Single

def isNegative (x : Single) : Bool :=
  0x80000000 ≤ x.bits.toNat

def magnitude (x : Single) : Magnitude :=
  BinaryFormat.single.magnitude (x.bits.toNat % 0x80000000)

def negate (x : Single) : Single :=
  ⟨x.bits ^^^ 0x80000000⟩

end Single

namespace Double

def isNegative (x : Double) : Bool :=
  0x8000000000000000 ≤ x.bits.toNat

def magnitude (x : Double) : Magnitude :=
  BinaryFormat.double.magnitude (x.bits.toNat % 0x8000000000000000)

def infinity : Double :=
  ⟨.ofNat BinaryFormat.double.infinityBits⟩

def notANumber : Double :=
  ⟨.ofNat (BinaryFormat.double.infinityBits + 0x8000000000000)⟩

def negate (x : Double) : Double :=
  ⟨x.bits ^^^ 0x8000000000000000⟩

/-- Decimal orders of magnitude beyond this one round to infinity, and below its negative to
zero. -/
def decimalRange : Int := 400

/-- The double nearest to `significand * 10 ^ exponent`. -/
def ofDecimal (significand : Nat) (exponent : Int) : Double :=
  let order := exponent + (Nat.toDigits 10 significand).length
  if significand = 0 || order < -decimalRange then ⟨0⟩
  else if decimalRange < order then infinity
  else if 0 ≤ exponent then
    ⟨.ofNat (BinaryFormat.double.nearest (significand * powerOf 10 exponent.toNat) 1)⟩
  else ⟨.ofNat (BinaryFormat.double.nearest significand (powerOf 10 (-exponent).toNat))⟩

end Double

def Single.ofDouble (x : Double) : Single :=
  let sign := if x.isNegative then 0x80000000 else 0
  let bits :=
    match x.magnitude with
    | .finite significand exponent =>
      let ratio := divideByPower significand 1 (-exponent)
      BinaryFormat.single.nearest ratio.1 ratio.2
    | .infinite => BinaryFormat.single.infinityBits
    | .notANumber => BinaryFormat.single.infinityBits + 0x400000
  ⟨.ofNat (sign + bits)⟩

end ShaderBytecode
