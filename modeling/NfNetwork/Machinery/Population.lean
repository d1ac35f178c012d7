import Mathlib.Algebra.BigOperators.Group.Multiset.Basic
import Mathlib.Algebra.GroupWithZero.Nat
import Mathlib.Algebra.Order.BigOperators.Group.Multiset
import Mathlib.Algebra.Order.Group.Nat
import Mathlib.Data.Multiset.Bind

/-! Machines of many threads, up to the order of the threads: a shared core and
a multiset of acts. A rule takes some acts and leaves others; a measure counts
acts by kind, so that an invariant is an arithmetic fact about totals. -/
namespace NfNetwork.Machinery

universe u v w
variable {Core : Type u} {Act : Type v} {Label : Type w}

/-- A shared core and what the threads are doing. -/
structure Population (Core : Type u) (Act : Type v) where
  core : Core
  acts : Multiset Act

/-- The sum of a measure over all acts. -/
def Population.total (p : Population Core Act) (f : Act → Nat) : Nat := (p.acts.map f).sum

section Totals

variable {p : Population Core Act} {acts : Multiset Act} {f g : Act → Nat} {a : Act}

theorem le_sum_map (h : a ∈ acts) : f a ≤ (acts.map f).sum :=
  Multiset.single_le_sum (fun _ _ => Nat.zero_le _) _ (Multiset.mem_map_of_mem f h)

theorem le_total_of_mem (h : a ∈ p.acts) : f a ≤ p.total f := le_sum_map h

theorem total_mono (h : ∀ a, f a ≤ g a) : p.total f ≤ p.total g :=
  Multiset.sum_map_le_sum_map f g fun a _ => h a

theorem total_le_add {k : Act → Nat} (h : ∀ a, f a ≤ g a + k a) :
    p.total f ≤ p.total g + p.total k := by
  have hSum : (p.acts.map fun a => g a + k a).sum = p.total g + p.total k := Multiset.sum_map_add
  rw [← hSum]
  exact total_mono h

theorem sum_map_eq_zero (h : ∀ a ∈ acts, f a = 0) : (acts.map f).sum = 0 := by
  apply Multiset.sum_eq_zero
  intro x hx
  obtain ⟨a, hMem, rfl⟩ := Multiset.mem_map.mp hx
  exact h a hMem

theorem total_of_acts {pre : List Act} {others : Multiset Act} (h : p.acts = pre + others) :
    p.total f = (pre.map f).sum + (others.map f).sum := by
  rw [Population.total, h, Multiset.map_add, Multiset.sum_add, Multiset.map_coe, Multiset.sum_coe]

/-- A measure of what the members of a crowd are doing is a sum over the crowd. -/
theorem sum_map_bind {Place : Type w} (crowd : Multiset Place) (does : Place → List Act) :
    ((crowd.bind fun x => (does x : Multiset Act)).map f).sum =
      (crowd.map fun x => ((does x).map f).sum).sum := by
  rw [Multiset.map_bind, Multiset.sum_bind]
  rfl

theorem eq_zero_of_total (h : p.total f = 0) (hMem : a ∈ p.acts) : f a = 0 :=
  Nat.le_zero.mp (h ▸ le_total_of_mem hMem)

/-- A total that is not zero is some act's. -/
theorem exists_of_total (h : p.total f ≠ 0) : ∃ a ∈ p.acts, f a ≠ 0 := by
  by_contra hNone
  push Not at hNone
  exact h (sum_map_eq_zero hNone)

end Totals

variable (Rule : Core → List Act → Label → Core → List Act → Prop)

/-- A rule applied among further acts of one thread. -/
def Within (c : Core) (acts : List Act) (label : Label) (c' : Core) (acts' : List Act) : Prop :=
  ∃ pre post tail, acts = pre ++ tail ∧ acts' = post ++ tail ∧ Rule c pre label c' post

/-- A rule applied among the acts of all threads. -/
inductive Applies : Population Core Act → Label → Population Core Act → Prop where
  | row {p : Population Core Act} {c' : Core} {pre post : List Act} {label : Label}
      {others : Multiset Act} (hActs : p.acts = pre + others) (hRow : Rule p.core pre label c' post) :
      Applies p label ⟨c', post + others⟩

variable {Rule} {c c' : Core} {pre post : List Act} {label : Label}

theorem Within.of_rule (h : Rule c pre label c' post) : Within Rule c pre label c' post :=
  ⟨pre, post, [], (List.append_nil _).symm, (List.append_nil _).symm, h⟩

theorem Within.of_rule_tail (h : Rule c pre label c' post) (tail : List Act) :
    Within Rule c (pre ++ tail) label c' (post ++ tail) :=
  ⟨pre, post, tail, rfl, rfl, h⟩

/-- Further acts of the same thread are among the others. -/
theorem Within.rule {acts acts' : List Act} {allActs others : Multiset Act}
    (h : Within Rule c acts label c' acts') (hActs : allActs = acts + others) :
    ∃ (pre post : List Act) (others' : Multiset Act), allActs = pre + others' ∧
      (acts' + others : Multiset Act) = post + others' ∧ Rule c pre label c' post := by
  obtain ⟨pre, post, tail, rfl, rfl, hRule⟩ := h
  refine ⟨pre, post, tail + others, ?_, ?_, hRule⟩
  · rw [hActs, ← Multiset.coe_add, add_assoc]
  · rw [← Multiset.coe_add, add_assoc]

theorem Within.applies {p : Population Core Act} {acts acts' : List Act} {others : Multiset Act}
    (h : Within Rule p.core acts label c' acts') (hActs : p.acts = acts + others) :
    Applies Rule p label ⟨c', acts' + others⟩ := by
  obtain ⟨pre, post, others', hPre, hPost, hRule⟩ := h.rule hActs
  rw [hPost]
  exact .row hPre hRule

end NfNetwork.Machinery
