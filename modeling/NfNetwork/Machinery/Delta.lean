import Mathlib.Order.BooleanAlgebra.Basic

/-! A view that is kept up to date by differences: whoever holds it is told only what left and what
entered. -/
namespace NfNetwork.Machinery

universe u

/-- What leaves a view and what enters it. -/
structure Delta (View : Type u) where
  left : View
  entered : View

namespace Delta

variable {View : Type u} [GeneralizedBooleanAlgebra View]

def between (old current : View) : Delta View := ⟨old \ current, current \ old⟩

def apply (view : View) (delta : Delta View) : View := view \ delta.left ⊔ delta.entered

theorem apply_between (old current : View) : apply old (between old current) = current := by
  calc old \ (old \ current) ⊔ current \ old
      = current ⊓ old ⊔ current \ old := by rw [sdiff_sdiff_right_self, inf_comm]
    _ = current := sup_inf_sdiff current old

/-- A difference that is applied a second time changes nothing. -/
theorem apply_between_again (old current : View) :
    apply current (between old current) = current := by
  have hLeft : current \ (old \ current) = current := disjoint_sdiff_self_right.sdiff_eq_left
  calc current \ (old \ current) ⊔ current \ old
      = current ⊔ current \ old := by rw [hLeft]
    _ = current := sup_eq_left.mpr sdiff_le

end Delta

end NfNetwork.Machinery
