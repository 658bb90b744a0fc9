import PenTouch.Decimal.Shortest

/-!
# The text of a double

Two ways of writing a double: in full, with the fewest digits that read back, and with a fixed
number of decimals. Neither uses an exponent.
-/

namespace PenTouch.Decimal

/-- The digits of `d`, filled up with zeros on the left to at least `width`. -/
def padded (width d : Nat) : String :=
  let digits := toString d
  String.ofList (List.replicate (width - digits.length) '0') ++ digits

/-- The decimal `d · 10 ^ -places` with all its places. -/
def withPlaces (d places : Nat) : String :=
  if places = 0 then toString d
  else s!"{d / tenTo places}.{padded places (d % tenTo places)}"

/-- A decimal written without an exponent; no point if it is whole. -/
def Digits.text (d : Digits) : String :=
  if 0 ≤ d.exponent then toString (d.digits * tenTo d.exponent.toNat)
  else withPlaces d.digits (-d.exponent).toNat

/-- A double written as its sign and the text of its magnitude. -/
def signed (magnitude : Double.Binary → String) (x : Float) : String :=
  if x.isNaN then "NaN"
  else
    let b := Double.binary x
    (if b.negative then "-" else "") ++ if x.isInf then "inf" else magnitude b

/-- The shortest text that reads back as the double. -/
def text (x : Float) : String :=
  signed (fun b => if b.mantissa = 0 then "0" else (shortest b).text) x

/-- The double rounded to a number of decimals. -/
def fixed (places : Nat) (x : Float) : String :=
  signed (fun b => withPlaces ((Quantity.binary b.mantissa b.exponent).round (-places)) places) x

end PenTouch.Decimal
