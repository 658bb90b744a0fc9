import PenTouch.Scalar.Double

/-!
# Descriptive statistics

The mean and the most frequent level of a list of samples, and percentiles of a sorted one.
-/

namespace PenTouch.Statistics

variable {α : Type} [Scalar α]

/-- The sum of a list, added from its first element on. Negative zero is the neutral element, so
that the sum of one value is that value. -/
@[specialize] def total (values : List α) : α := values.foldl (· + ·) (-0.0)

/-- The arithmetic mean; zero for no samples. -/
@[specialize] def mean (values : List α) : α :=
  if values.isEmpty then 0.0 else total values / Scalar.ofNat values.length

/-! ## The most frequent level -/

/-- The number of samples in a bin of a histogram, and their sum. -/
structure Bin (α : Type) where
  count : Nat
  sum : α

/-- The bin of a sample in `[0, 1]`; the last bin also holds `1`. -/
@[specialize] def binOf (bins : Nat) (v : α) : Nat :=
  min (Scalar.toNat (v * Scalar.ofNat bins)) (bins - 1)

/-- The bins of equal width over `[0, 1]`, filled with the samples cut to that range. -/
@[specialize] def histogram (bins : Nat) (values : List α) : Array (Bin α) :=
  values.foldl (fun bars v =>
      let v := Scalar.clamp v 0.0 1.0
      bars.modify (binOf bins v) fun b => ⟨b.count + 1, b.sum + v⟩)
    (Array.replicate bins ⟨0, 0.0⟩)

/-- The first bin that no other exceeds in count. -/
def fullest (bars : Array (Bin α)) : Bin α :=
  bars.foldl (fun best b => if best.count < b.count then b else best) ⟨0, 0.0⟩

/-- The most frequent level of samples in `[0, 1]`: the mean of the samples in the fullest of the
bins, the first one if several are equally full. That memory for
the bins is found is taken for granted. -/
@[specialize] def mode (bins : Nat) (values : List α) : α :=
  let bin := fullest (histogram (max bins 1) values)
  if bin.count = 0 then 0.0 else bin.sum / Scalar.ofNat bin.count

/-! ## Percentiles -/

/-- The value at the fraction `p` of an ascending list, at the nearest rank. -/
def percentile? {β : Type} (sorted : List β) (p : Float) : Option β :=
  if sorted.isEmpty then none
  else
    let rank := Double.round ((sorted.length - 1).toFloat * Scalar.clamp p 0.0 1.0)
    sorted[Double.toNat rank]?

end PenTouch.Statistics
