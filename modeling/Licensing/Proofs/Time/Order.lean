import Mathlib.Order.Defs.LinearOrder
import Licensing.Time.Instant

/-!
# The order of time

Points of time are ordered as their ticks are, so they form a linear order, of which
`Instant.compare` is the three-way form.
-/

namespace Licensing.Instant

instance : LinearOrder Instant where
  le_refl _ := Int.le_refl _
  le_trans _ _ _ := Int.le_trans
  lt_iff_le_not_ge _ _ := Int.lt_iff_le_and_not_ge
  le_antisymm a b hab hba := by
    cases a
    cases b
    exact congrArg Instant.mk (Int.le_antisymm hab hba)
  le_total a b := Int.le_total a.ticks b.ticks
  toDecidableLE := inferInstance
  toDecidableLT := inferInstance
  toDecidableEq := inferInstance

instance : Std.TransCmp Instant.compare := inferInstanceAs (Std.TransCmp (compareOn Instant.ticks))

theorem compare_isLE_iff {a b : Instant} : (Instant.compare a b).isLE = true ↔ a ≤ b :=
  Std.isLE_compare

end Licensing.Instant
