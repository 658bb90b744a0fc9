import PenTouch.Statistics

/-!
# Measures and their distribution

A measure is the result of an operation on doubles. If the operation has no result although its
operands are numbers, as an infinite length over an infinite width, the measure is undefined. All
measures lie in one line: the undefined one first, then the numbers in order, and last a value that
was unknown before it was measured.

* `Measure.ofOperation` tells an undefined result from an unknown operand.
* `Distribution.ofMeasures?` sorts the measures first, so that their order does not matter.
-/

namespace PenTouch

/-- The result of an operation on doubles. -/
inductive Measure where
  | undefined
  | number (value : Float)

namespace Measure

/-- The result of an operation on two operands. -/
def ofOperation (x y result : Float) : Measure :=
  if result.isNaN && !x.isNaN && !y.isNaN then undefined else number result

def value : Measure → Float
  | undefined => Double.nan
  | number x => x

/-- The place of a measure in the line of all measures. An undefined result has a sign of its own
and goes before the numbers, an unknown operand has none and goes behind them. Payloads are not
represented: undefined measures share one place, as do unknown ones. -/
def rank : Measure → Int
  | undefined => -Double.signBit
  | number x => Double.rank x

def le (a b : Measure) : Bool := a.rank ≤ b.rank

theorem le_trans {a b c : Measure} (hab : a.le b = true) (hbc : b.le c = true) :
    a.le c = true := by
  simp only [le, decide_eq_true_eq] at hab hbc ⊢
  exact Int.le_trans hab hbc

theorem le_total (a b : Measure) : (a.le b || b.le a) = true := by
  simp only [le, Bool.or_eq_true, decide_eq_true_eq]
  exact Int.le_total a.rank b.rank

end Measure

/-- The mean of a list of measures and its outer percentiles. -/
structure Distribution where
  mean : Float
  /-- The first percentile. -/
  low : Measure
  /-- The 99th percentile. -/
  high : Measure

namespace Distribution

/-- The distribution of a list of measures, summed in ascending order. -/
def ofMeasures? (measures : List Measure) : Option Distribution := do
  let sorted := measures.mergeSort Measure.le
  let low ← Statistics.percentile? sorted 0.01
  let high ← Statistics.percentile? sorted 0.99
  some { mean := Statistics.mean (sorted.map (·.value)), low, high }

end Distribution

end PenTouch
