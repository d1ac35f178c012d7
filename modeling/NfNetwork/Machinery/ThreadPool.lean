import Mathlib.Algebra.BigOperators.Group.Finset.Basic
import Mathlib.Algebra.GroupWithZero.Nat
import Mathlib.Algebra.Order.BigOperators.Group.Multiset
import Mathlib.Algebra.Order.Group.Nat
import Mathlib.Data.Fintype.Basic

/-! Finitely many threads, each a stack of frames. A property that does not
depend on which thread does what is stated about the multiset of all frames;
replacing the top of one stack replaces a part of it. -/
namespace NfNetwork.Machinery

universe u v
variable {Thread : Type u} [Fintype Thread] {Frame : Type v}

/-- All frames of all stacks. -/
def frames (threads : Thread → List Frame) : Multiset Frame := ∑ t, (threads t : Multiset Frame)

theorem mem_frames {threads : Thread → List Frame} {f : Frame} :
    f ∈ frames threads ↔ ∃ t, f ∈ threads t := by
  simp [frames, Multiset.mem_sum]

theorem countP_eq_sum (p : Frame → Prop) [DecidablePred p] (s : Multiset Frame) :
    s.countP p = (s.map fun f => if p f then 1 else 0).sum := by
  induction s using Multiset.induction_on with
  | empty => rfl
  | cons f s ih => rw [Multiset.countP_cons, ih, Multiset.map_cons, Multiset.sum_cons, Nat.add_comm]

variable [DecidableEq Thread]

/-- The frames outside the top part of one stack. -/
def others (threads : Thread → List Frame) (t : Thread) (rest : List Frame) : Multiset Frame :=
  (rest : Multiset Frame) + ∑ t' ∈ Finset.univ.erase t, (threads t' : Multiset Frame)

variable {threads : Thread → List Frame} {t : Thread} {rest : List Frame}

theorem frames_eq {top : List Frame} (hTop : threads t = top ++ rest) :
    frames threads = (top : Multiset Frame) + others threads t rest := by
  rw [frames, ← Finset.add_sum_erase _ _ (Finset.mem_univ t), hTop, ← Multiset.coe_add, add_assoc,
    others]

/-- Replacing the top of one stack changes nothing among the other frames. -/
theorem frames_update (next : List Frame) :
    frames (Function.update threads t (next ++ rest)) =
      (next : Multiset Frame) + others threads t rest := by
  rw [frames, ← Finset.add_sum_erase _ _ (Finset.mem_univ t), Function.update_self,
    ← Multiset.coe_add, add_assoc, others]
  congr 2
  apply Finset.sum_congr rfl
  intro t' ht'
  rw [Function.update_of_ne (Finset.ne_of_mem_erase ht')]

theorem mem_others {f : Frame} :
    f ∈ others threads t rest ↔ f ∈ rest ∨ ∃ t', t' ≠ t ∧ f ∈ threads t' := by
  simp [others, Multiset.mem_sum]

omit [Fintype Thread] in
/-- What holds of every frame still does after the top of one stack was replaced. -/
theorem forall_frames_update {P : Frame → Prop} {top next : List Frame}
    (h : ∀ t, ∀ f ∈ threads t, P f) (hTop : threads t = top ++ rest) (hNext : ∀ f ∈ next, P f) :
    ∀ t', ∀ f ∈ Function.update threads t (next ++ rest) t', P f := by
  intro t' f hMem
  by_cases ht : t' = t
  · subst ht
    rw [Function.update_self] at hMem
    rcases List.mem_append.mp hMem with hNew | hOld
    · exact hNext f hNew
    · exact h t' f (hTop ▸ List.mem_append_right _ hOld)
  · rw [Function.update_of_ne ht] at hMem
    exact h t' f hMem

section Weight

variable {top : List Frame} (w : Frame → Nat)

/-- What all frames weigh together. -/
def weight (threads : Thread → List Frame) : Nat := ((frames threads).map w).sum

theorem weight_update (hTop : threads t = top ++ rest) (next : List Frame) :
    weight w (Function.update threads t (next ++ rest)) + (top.map w).sum =
      weight w threads + (next.map w).sum := by
  rw [weight, weight, frames_update, frames_eq hTop, Multiset.map_add, Multiset.map_add,
    Multiset.sum_add, Multiset.sum_add, Multiset.map_coe, Multiset.map_coe, Multiset.sum_coe,
    Multiset.sum_coe]
  omega

theorem weight_eq (top : List Frame) (hTop : threads t = top ++ rest) :
    weight w threads = ((others threads t rest).map w).sum + (top.map w).sum := by
  rw [weight, frames_eq hTop, Multiset.map_add, Multiset.sum_add, Multiset.map_coe, Multiset.sum_coe,
    Nat.add_comm]

theorem weight_update_eq (next : List Frame) :
    weight w (Function.update threads t (next ++ rest)) =
      ((others threads t rest).map w).sum + (next.map w).sum := by
  rw [weight, frames_update, Multiset.map_add, Multiset.sum_add, Multiset.map_coe, Multiset.sum_coe,
    Nat.add_comm]

variable {w}

theorem sum_map_zero {fs : List Frame} (h : ∀ f ∈ fs, w f = 0) : (fs.map w).sum = 0 := by
  apply List.sum_eq_zero
  intro n hn
  obtain ⟨f, hMem, rfl⟩ := List.mem_map.mp hn
  exact h f hMem

omit [DecidableEq Thread] in
theorem le_weight {f : Frame} (h : f ∈ threads t) : w f ≤ weight w threads :=
  Multiset.single_le_sum (fun _ _ => Nat.zero_le _) _
    (Multiset.mem_map_of_mem w (mem_frames.mpr ⟨t, h⟩))

omit [DecidableEq Thread] in
/-- What weighs anything is some frame. -/
theorem exists_of_weight (h : weight w threads ≠ 0) : ∃ t, ∃ f ∈ threads t, w f ≠ 0 := by
  by_contra hNone
  push Not at hNone
  apply h
  apply Multiset.sum_eq_zero
  intro n hn
  obtain ⟨f, hFrame, rfl⟩ := Multiset.mem_map.mp hn
  obtain ⟨t, hMem⟩ := mem_frames.mp hFrame
  exact hNone t f hMem

omit [DecidableEq Thread] in
theorem weight_nil : weight w (fun _ : Thread => []) = 0 := by
  by_contra h
  obtain ⟨_, _, hMem, _⟩ := exists_of_weight h
  simp at hMem

end Weight

end NfNetwork.Machinery
