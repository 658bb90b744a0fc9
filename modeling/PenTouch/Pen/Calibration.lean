import PenTouch.Pen.Sample
import PenTouch.Pen.Settings

/-!
# From antennas to device coordinates

A device may report the size of its sensor and how antennas lie on it. If it does not, the
antennas are taken to be spread evenly over the device range.
-/

namespace PenTouch

/-- The map `x' = xx * x + yx * y + tx`, `y' = xy * x + yy * y + ty`. -/
structure Transform (α : Type) where
  xx : α
  yx : α
  tx : α
  xy : α
  yy : α
  ty : α

/-- What a device reports of its sensor. -/
structure Metadata (α : Type) where
  /-- The number of row antennas. -/
  rows : Nat
  /-- The number of column antennas. -/
  columns : Nat
  width : Nat
  height : Nat
  /-- From numbers of antennas to places on the sensor. -/
  transform : Transform α
  /-- Bytes that are passed on as they are. -/
  vendor : List UInt8

/-- How a position among the antennas becomes one in device units. -/
inductive Calibration (α : Type) where
  /-- The device has reported its sensor. -/
  | sensor (transform : Transform α) (width height : α)
  /-- The antennas are evenly spread. -/
  | even (rows columns : Nat)

variable {α : Type} [Scalar α]

namespace Transform

def identity : Transform α := ⟨1.0, 0.0, 0.0, 0.0, 1.0, 0.0⟩

def apply (t : Transform α) (p : Point α) : Point α :=
  ⟨t.xx * p.x + t.yx * p.y + t.tx, t.xy * p.x + t.yy * p.y + t.ty⟩

/-- The six coefficients, those of `x'` first. -/
def coefficients (t : Transform α) : List α := [t.xx, t.yx, t.tx, t.xy, t.yy, t.ty]

end Transform

namespace Calibration

/-- The calibration of a device: its sensor if that has an area, else its numbers of antennas if
there are several, else those of the settings. -/
def ofMetadata (metadata : Option (Metadata α)) (settings : PenSettings α) : Calibration α :=
  let default := even settings.defaultRows settings.defaultColumns
  match metadata with
  | none => default
  | some m =>
    if m.width > 0 ∧ m.height > 0 then
      sensor m.transform (Scalar.ofNat m.width) (Scalar.ofNat m.height)
    else if m.rows > 1 ∧ m.columns > 1 then even m.rows m.columns
    else default

/-- A position among the antennas as a share of the device range. -/
def fraction (c : Calibration α) (antenna : Point α) : Point α :=
  match c with
  | sensor transform width height =>
    ⟨(transform.apply antenna).x / width, (transform.apply antenna).y / height⟩
  | even rows columns =>
    ⟨antenna.x / Scalar.ofNat (max columns 2 - 1), antenna.y / Scalar.ofNat (max rows 2 - 1)⟩

/-- A position among the antennas in device units, confined to the device range. -/
def toDevice (c : Calibration α) (antenna : Point α) : Point α :=
  let f := c.fraction antenna
  ⟨Scalar.clamp f.x 0.0 1.0 * maxX, Scalar.clamp f.y 0.0 1.0 * maxY⟩

end Calibration

end PenTouch
