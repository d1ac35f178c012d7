import Mathlib.Algebra.BigOperators.Group.Finset.Basic
import Mathlib.Algebra.BigOperators.Group.Finset.Lemmas
import Mathlib.Algebra.Order.BigOperators.Group.Finset
import Mathlib.Data.Fintype.Basic

/-! Finitely many threads, each at one place of its program. A quantity that every
place contributes to is a total over the threads; a thread that moves replaces its
own contribution. -/
namespace NfNetwork.Machinery

universe u v w
variable {Thread : Type u} {Place : Type v} {Amount : Type w}

/-- What all threads contribute. -/
def crewTotal [Fintype Thread] [AddCommMonoid Amount] (f : Place → Amount) (threads : Thread → Place) : Amount :=
  ∑ t, f (threads t)

section Totals

variable [Fintype Thread] [AddCommMonoid Amount] {f : Place → Amount} {threads : Thread → Place} {t : Thread}
  {place : Place}

theorem crewTotal_eq_zero (h : ∀ t, f (threads t) = 0) : crewTotal f threads = 0 :=
  Finset.sum_eq_zero fun t _ => h t

variable [DecidableEq Thread]

/-- What the threads other than `t` contribute. -/
def crewOthers (f : Place → Amount) (threads : Thread → Place) (t : Thread) : Amount :=
  ∑ t' ∈ Finset.univ.erase t, f (threads t')

theorem crewTotal_split (f : Place → Amount) (threads : Thread → Place) (t : Thread) :
    crewTotal f threads = f (threads t) + crewOthers f threads t :=
  (Finset.add_sum_erase _ _ (Finset.mem_univ t)).symm

/-- The others go on contributing the same. -/
theorem crewTotal_update (f : Place → Amount) (threads : Thread → Place) (t : Thread)
    (place : Place) :
    crewTotal f (Function.update threads t place) = f place + crewOthers f threads t := by
  rw [crewTotal_split f _ t, Function.update_self]
  congr 1
  apply Finset.sum_congr rfl
  intro t' ht'
  rw [Function.update_of_ne (Finset.ne_of_mem_erase ht')]

theorem mem_crewOthers {Item : Type w} {f : Place → Multiset Item} {t' : Thread} {item : Item}
    (hOther : t' ≠ t) (h : item ∈ f (threads t')) : item ∈ crewOthers f threads t :=
  Multiset.mem_sum.mpr ⟨t', Finset.mem_erase_of_ne_of_mem hOther (Finset.mem_univ t'), h⟩

/-- How often an item occurs when one thread moves. -/
theorem count_crewTotal_update {Item : Type w} [DecidableEq Item] (f : Place → Multiset Item)
    (threads : Thread → Place) (t : Thread) (place : Place) (item : Item) :
    (crewTotal f (Function.update threads t place)).count item + (f (threads t)).count item =
      (crewTotal f threads).count item + (f place).count item := by
  rw [crewTotal_update, crewTotal_split f threads t, Multiset.count_add, Multiset.count_add]
  omega

theorem crewOthers_congr {f g : Place → Amount} (h : ∀ t', t' ≠ t → f (threads t') = g (threads t')) :
    crewOthers f threads t = crewOthers g threads t :=
  Finset.sum_congr rfl fun t' ht' => h t' (Finset.ne_of_mem_erase ht')

/-- A thread that contributes as before leaves the total as it was. -/
theorem crewTotal_same (h : f place = f (threads t)) :
    crewTotal f (Function.update threads t place) = crewTotal f threads := by
  rw [crewTotal_update, crewTotal_split f threads t, h]

end Totals

section Counts

variable [Fintype Thread] {p : Place → Bool} {threads : Thread → Place} {t : Thread}

/-- How many threads are at a place of this kind. -/
def crewCount (p : Place → Bool) (threads : Thread → Place) : Nat :=
  crewTotal (fun place => (p place).toNat) threads

theorem crewCount_update [DecidableEq Thread] (p : Place → Bool) (threads : Thread → Place)
    (t : Thread) (place : Place) :
    crewCount p (Function.update threads t place) + (p (threads t)).toNat =
      crewCount p threads + (p place).toNat := by
  rw [crewCount, crewCount, crewTotal_update, crewTotal_split _ threads t]
  omega

theorem crewCount_eq_zero (h : ∀ t, p (threads t) = false) : crewCount p threads = 0 := by
  apply crewTotal_eq_zero
  intro t
  rw [h t]
  rfl

theorem crewCount_pos (h : p (threads t) = true) : 0 < crewCount p threads := by
  classical
  rw [crewCount, crewTotal_split _ threads t, h]
  exact Nat.add_pos_left Nat.one_pos _

end Counts

/-- Every place keeps its property if the moving thread gets it and the others are
not disturbed. -/
theorem forall_update [DecidableEq Thread] {P P' : Place → Prop} {threads : Thread → Place}
    {t : Thread} {place : Place} (h : ∀ t, P (threads t)) (hSelf : P' place)
    (hOthers : ∀ t', t' ≠ t → P (threads t') → P' (threads t')) :
    ∀ t', P' (Function.update threads t place t') := by
  intro t'
  by_cases hSame : t' = t
  · subst hSame
    rwa [Function.update_self]
  · rw [Function.update_of_ne hSame]
    exact hOthers t' hSame (h t')

end NfNetwork.Machinery
