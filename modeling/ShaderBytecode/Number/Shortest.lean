import ShaderBytecode.Number.Binary

/-!
# Shortest decimal text of binary numbers

A finite number is written with the fewest decimal digits that read back as the same number, and
of those with the nearest; of two equally near ones with the larger.
-/

namespace ShaderBytecode

/-- The number `0.d₁d₂… * 10 ^ point`, where `d₁d₂…` are the digits of `significand`. -/
structure Decimal where
  significand : Nat
  point : Int
deriving DecidableEq, Repr

/-- The reals that round to a binary number, in units of a quarter of its last place: the number
itself and the two ends, all over the same denominator. -/
structure RoundingInterval where
  low : Nat
  value : Nat
  high : Nat
  denominator : Nat
  /-- Whether the ends round to the number too. -/
  closed : Bool
deriving Repr

namespace RoundingInterval

/-- The interval of `significand * 2 ^ exponent`. Below a power of two the numbers lie twice as
dense, so there the lower end is nearer. -/
def ofFinite (f : BinaryFormat) (significand : Nat) (exponent : Int) : RoundingInterval :=
  let ratio := divideByPower 1 4 (-exponent)
  let atPower := significand = powerOf 2 (f.precision - 1) && f.minExponent < exponent
  { low := (4 * significand - if atPower then 1 else 2) * ratio.1
    value := 4 * significand * ratio.1
    high := (4 * significand + 2) * ratio.1
    denominator := ratio.2
    closed := significand % 2 = 0 }

def order (i : RoundingInterval) : Int :=
  if i.denominator ≤ i.value then (Nat.toDigits 10 (i.value / i.denominator)).length
  else 1 - (Nat.toDigits 10 ((i.denominator - 1) / i.value)).length

/-- Whether `candidate / scale` lies in the interval widened by the factor `up`. -/
def contains (i : RoundingInterval) (candidate up : Nat) : Bool :=
  if i.closed then i.low * up ≤ candidate && candidate ≤ i.high * up
  else i.low * up < candidate && candidate < i.high * up

/-- The number of `places` digits that lies in the interval and is nearest to its number, if there
is one: only the two neighbours of the number on that grid come into question. -/
def atPlaces? (i : RoundingInterval) (order : Int) (places : Nat) : Option Nat :=
  let up := powerOf 10 ((places : Int) - order).toNat
  let down := powerOf 10 (order - (places : Int)).toNat
  let unit := i.denominator * down
  let below := i.value * up / unit
  let rest := i.value * up % unit
  match i.contains (below * unit) up, i.contains ((below + 1) * unit) up with
  | true, true => some (if 2 * rest < unit then below else below + 1)
  | true, false => some below
  | false, true => some (below + 1)
  | false, false => none

/-- The first grid from `places` digits on, of at most `count` of them, that meets the interval. -/
def firstGrid (i : RoundingInterval) (order : Int) : (count places : Nat) → Nat × Nat
  | 0, places => (i.value * powerOf 10 ((places : Int) - order).toNat / i.denominator, places)
  | count + 1, places =>
    match i.atPlaces? order places with
    | some digits => (digits, places)
    | none => firstGrid i order count (places + 1)

end RoundingInterval

namespace Decimal

def digits (d : Decimal) : List Char :=
  Nat.toDigits 10 d.significand

/-- The number without the zeros at its end, looking at no more than `count` of them. -/
def dropZeros : (count significand : Nat) → Nat
  | 0, significand => significand
  | count + 1, significand =>
    if significand % 10 = 0 then dropZeros count (significand / 10) else significand

def maxPlaces : Nat := 17

/-- The shortest digits of `significand * 2 ^ exponent` in a format. -/
def shortest (f : BinaryFormat) (significand : Nat) (exponent : Int) : Decimal :=
  let interval := RoundingInterval.ofFinite f significand exponent
  let order := interval.order
  let (chosen, places) := interval.firstGrid order maxPlaces 1
  let carry := (Nat.toDigits 10 chosen).length - places
  ⟨dropZeros maxPlaces chosen, order + carry⟩

def leadingExponent (d : Decimal) : Int :=
  d.point - 1

def positional (d : Decimal) (keepPoint : Bool) : String :=
  let ds := d.digits
  if d.point ≤ 0 then
    "0." ++ String.ofList (List.replicate (-d.point).toNat '0' ++ ds)
  else if ds.length ≤ d.point then
    String.ofList (ds ++ List.replicate (d.point - ds.length).toNat '0')
      ++ if keepPoint then ".0" else ""
  else
    String.ofList (ds.take d.point.toNat) ++ "." ++ String.ofList (ds.drop d.point.toNat)

def scientific (d : Decimal) : String :=
  let mantissa :=
    match d.digits with
    | [] => "0"
    | [c] => String.ofList [c]
    | c :: rest => String.ofList (c :: '.' :: rest)
  mantissa ++ "e" ++ toString d.leadingExponent

end Decimal

/-- How numbers are laid out. -/
structure FloatStyle where
  /-- Whole numbers keep a `.0`. -/
  keepPoint : Bool
  /-- Numbers whose leading digit has an exponent from the first up to, and without, the second are
  written positionally; without bounds all are. -/
  positionalRange : Option (Int × Int)

namespace FloatStyle

def listing : FloatStyle := ⟨true, some (-4, 16)⟩

def quoted : FloatStyle := ⟨false, none⟩

def setting : FloatStyle := ⟨true, none⟩

def ofDecimal (style : FloatStyle) (d : Decimal) : String :=
  match style.positionalRange with
  | some (low, high) =>
    if low ≤ d.leadingExponent && d.leadingExponent < high then d.positional style.keepPoint
    else d.scientific
  | none => d.positional style.keepPoint

def ofMagnitude (style : FloatStyle) (f : BinaryFormat) (negative : Bool) (m : Magnitude) :
    String :=
  let sign := if negative then "-" else ""
  match m with
  | .notANumber => "NaN"
  | .infinite => sign ++ "inf"
  | .finite 0 _ => sign ++ if style.keepPoint then "0.0" else "0"
  | .finite significand exponent => sign ++ style.ofDecimal (.shortest f significand exponent)

end FloatStyle

def Single.text (style : FloatStyle) (x : Single) : String :=
  style.ofMagnitude .single x.isNegative x.magnitude

def Double.text (style : FloatStyle) (x : Double) : String :=
  style.ofMagnitude .double x.isNegative x.magnitude

end ShaderBytecode
