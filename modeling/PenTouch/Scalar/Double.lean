import PenTouch.Scalar

/-!
# Doubles as scalars

The binary64 numbers with their rounded operations. Rounding to whole numbers, the length of a
vector, its angle and the total order are spelled out on the binary form, so that nothing about them
is left to a library routine; only the other transcendental functions are.

* `Double.hypot` is the square root of the exact sum of squares, rounded once.
* `Double.atan2` is the angle of a vector in whole numbers, by a series with terms to spare, rounded
  once.
* `Double.rank` puts all doubles into one line of integers, from the negative infinity to the
  undefined value; zero comes directly after its negative.
-/

namespace PenTouch.Double

/-! ## Binary form -/

/-- A finite double as sign, mantissa and power of two: `± mantissa · 2 ^ exponent`. -/
structure Binary where
  negative : Bool
  mantissa : Nat
  exponent : Int

/-- The leading bit of a mantissa, above its 52 bits of fraction. -/
def leadingBit : Nat := Nat.pow 2 52

def signBit : Nat := Nat.pow 2 63

/-- The number of exponents, those of zero and of the infinities included. -/
def exponents : Nat := Nat.pow 2 11

/-- The binary form of the bits of a finite double. -/
def Binary.ofBits (bits : UInt64) : Binary :=
  let fraction := bits.toNat % leadingBit
  let exponent := bits.toNat / leadingBit % exponents
  { negative := signBit ≤ bits.toNat
    mantissa := if exponent = 0 then fraction else leadingBit + fraction
    exponent := (max exponent 1 : Nat) - 1075 }

/-- The binary form of a finite double. -/
def binary (x : Float) : Binary := Binary.ofBits x.toBits

/-- The square of the double's magnitude over `2 ^ (2 * unit)`, for a `unit` that is not above its
exponent. -/
def Binary.squareIn (b : Binary) (unit : Int) : Nat :=
  let m := b.mantissa <<< (b.exponent - unit).toNat
  m * m

/-- The double closest to the square root of `mantissa · 2 ^ exponent`. -/
def sqrtBinary (mantissa : Nat) (exponent : Int) : Float :=
  if h : 0 < mantissa then
    .ofModel (.pack (.sqrt .binary64 (.finite .positive mantissa exponent h)))
  else 0.0

/-! ## Constants -/

def infinity : Float := 1.0 / 0.0

def nan : Float := 0.0 / 0.0

def pi : Float := 3.141592653589793

/-! ## Length -/

/-- The length of the vector `(x, y)`: infinite if either component is, and otherwise the exact
length rounded once. -/
def hypot (x y : Float) : Float :=
  if x.isInf || y.isInf then infinity
  else if x.isNaN || y.isNaN then nan
  else
    let p := binary x
    let q := binary y
    let unit := min p.exponent q.exponent
    sqrtBinary (p.squareIn unit + q.squareIn unit) (2 * unit)

/-! ## Angle -/

/-- The double closest to `mantissa · 2 ^ exponent`. -/
def roundBinary (mantissa : Nat) (exponent : Int) : Float :=
  if 0 < mantissa then .ofModel (.pack (.round .binary64 .positive mantissa exponent)) else 0.0

/-- The bits to which an angle is computed before it is rounded, and the terms that this takes. -/
def angleBits : Nat := 128

/-- `1 + 2/3 s (1 + 4/5 s (1 + 6/7 s (…)))` with `s = num / den`, from its `k`-th factor on, counted
in units of which `unit` make one. -/
def eulerSeries (num den unit : Nat) : (terms k : Nat) → Nat
  | 0, _ => unit
  | terms + 1, k =>
    unit + eulerSeries num den unit terms (k + 1) * (2 * k * num) / ((2 * k + 1) * den)

/-- The arctangent of `y / x`, at most an eighth of a turn: Euler's series for the square of the
sine of that angle, times the product of its sine and cosine. -/
def arctan (y x unit : Nat) : Nat :=
  y * x * eulerSeries (y * y) (x * x + y * y) unit angleBits 1 / (x * x + y * y)

/-- A quarter of a turn, twice the arctangent of `1 / 1`. -/
def quarterTurn (unit : Nat) : Nat := eulerSeries 1 2 unit angleBits 1

/-- The angle between the horizontal axis and the vector that points `x` to the right, or to the
left, and `y` up. -/
def bearing (left : Bool) (x y unit : Nat) : Nat :=
  if y ≤ x then
    if left then 2 * quarterTurn unit - arctan y x unit else arctan y x unit
  else
    if left then quarterTurn unit + arctan x y unit else quarterTurn unit - arctan x y unit

/-- The ratio of two magnitudes as whole numbers; infinite ones are equal, and all others are
nothing beside them. -/
def ratio (x y : Float) : Nat × Nat :=
  if x.isInf || y.isInf then (x.isInf.toNat, y.isInf.toNat)
  else
    let p := binary x
    let q := binary y
    let unit := min p.exponent q.exponent
    (p.mantissa <<< (p.exponent - unit).toNat, q.mantissa <<< (q.exponent - unit).toNat)

/-- The angle of the vector `(x, y)`, rounded once. It has the sign of `y`, also if that is zero. -/
def atan2 (y x : Float) : Float :=
  if x.isNaN || y.isNaN then nan
  else
    let (p, q) := ratio x y
    -- A small angle is about `q / p`, so as many bits more are computed as that has zeros in front.
    let bits := angleBits + (p.log2 - q.log2)
    let angle := roundBinary (bearing (binary x).negative p q (1 <<< bits)) (-bits)
    if (binary y).negative then -angle else angle

/-! ## Whole numbers -/

/-- From here on every double is a whole number. -/
def wholeFrom : Float := 4503599627370496.0

/-- The whole units of a double, at most `2⁶⁴ - 1`. -/
def toNat (x : Float) : Nat := x.toUInt64.toNat

/-- A magnitude below `wholeFrom` cut to whole units. -/
def cut (x : Float) : Float := x.toUInt64.toFloat

/-- The largest whole number not above `x`. Zero keeps its sign. -/
def floor (x : Float) : Float :=
  if x.abs < wholeFrom then
    if x < 0.0 then
      if cut x.abs < x.abs then -(cut x.abs + 1.0) else -cut x.abs
    else if 0.0 < x then cut x
    else x
  else x

/-- The smallest whole number not below `x`. -/
def ceil (x : Float) : Float := -(floor (-x))

/-- The whole number closest to `x`, the one farther from zero if `x` lies halfway. It has the sign
of `x`, also if it is zero. -/
def round (x : Float) : Float :=
  if x.abs < wholeFrom then
    let nearest := if x.abs - cut x.abs < 0.5 then cut x.abs else cut x.abs + 1.0
    if x < 0.0 then -nearest
    else if 0.0 < x then nearest
    else x
  else x

/-! ## Order -/

/-- The place of a double in the line of all doubles. An undefined double has neither sign nor
payload here: it is one value, behind all numbers. -/
def rank (x : Float) : Int :=
  let bits := x.toBits.toNat
  if bits < signBit then bits else -(bits - signBit : Nat) - 1

def order (x y : Float) : Ordering := compare (rank x) (rank y)

end PenTouch.Double

namespace PenTouch

instance : Scalar Float where
  decidableLT := inferInstance
  decidableLE := inferInstance
  ofNat := Float.ofNat
  toNat := Double.toNat
  isFinite := Float.isFinite
  unbounded := Double.infinity
  abs := Float.abs
  sqrt := Float.sqrt
  hypot := Double.hypot
  log := Float.log
  exp := Float.exp
  pow := Float.pow
  cos := Float.cos
  atan2 := Double.atan2
  pi := Double.pi
  order := Double.order

end PenTouch
