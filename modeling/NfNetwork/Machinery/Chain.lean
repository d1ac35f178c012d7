import Mathlib.Data.List.Nodup
import Mathlib.Logic.Function.Basic
import Mathlib.Tactic.Common

/-! Singly linked cells. `Chain next p cells q` reads: following `next` from the link
`p` visits exactly these cells, in this order, and ends at the link `q`. -/
namespace NfNetwork.Machinery

universe u
variable {Cell : Type u}

/-- The cells visited from the link `p` up to the link `q`. -/
def Chain (next : Cell → Option Cell) : Option Cell → List Cell → Option Cell → Prop
  | p, [], q => p = q
  | p, n :: cells, q => p = some n ∧ Chain next (next n) cells q

variable {next next' : Cell → Option Cell} {p q : Option Cell} {n m : Cell} {cells cells' : List Cell}

@[simp] theorem chain_nil : Chain next p [] q ↔ p = q := Iff.rfl

@[simp] theorem chain_cons :
    Chain next p (n :: cells) q ↔ p = some n ∧ Chain next (next n) cells q := Iff.rfl

/-- Links of other cells do not matter. -/
theorem Chain.congr (h : Chain next p cells q) (hSame : ∀ n ∈ cells, next' n = next n) :
    Chain next' p cells q := by
  induction cells generalizing p with
  | nil => exact h
  | cons n cells ih =>
      rw [chain_cons, hSame n List.mem_cons_self]
      exact ⟨h.1, ih h.2 fun m hm => hSame m (List.mem_cons_of_mem n hm)⟩

theorem Chain.update [DecidableEq Cell] (h : Chain next p cells q) (hOutside : n ∉ cells)
    (link : Option Cell) : Chain (Function.update next n link) p cells q := by
  apply h.congr
  intro m hm
  apply Function.update_of_ne
  rintro rfl
  exact hOutside hm

/-- A chain that ends nowhere is the only one from its link. -/
theorem Chain.unique (h : Chain next p cells none) (h' : Chain next p cells' none) :
    cells = cells' := by
  induction cells generalizing p cells' with
  | nil =>
      cases cells' with
      | nil => rfl
      | cons m cells' => cases h.symm.trans h'.1
  | cons n cells ih =>
      cases cells' with
      | nil => cases h.1.symm.trans h'
      | cons m cells' =>
          cases h.1.symm.trans h'.1
          rw [ih h.2 h'.2]

/-- A chain that ends nowhere starts with the cell its link names. -/
theorem Chain.eq_cons (h : Chain next (some n) cells none) :
    ∃ later, cells = n :: later ∧ Chain next (next n) later none := by
  cases cells with
  | nil => cases h
  | cons m later =>
      cases h.1
      exact ⟨later, rfl, h.2⟩

theorem chain_append : Chain next p (cells ++ cells') q ↔
    ∃ middle, Chain next p cells middle ∧ Chain next middle cells' q := by
  induction cells generalizing p with
  | nil => simp
  | cons n cells ih => simp [ih, and_assoc]

/-- A cell without successor is the last one. -/
theorem Chain.eq_concat (h : Chain next p cells none) (hMem : n ∈ cells) (hEnd : next n = none) :
    ∃ before, cells = before ++ [n] := by
  obtain ⟨before, later, rfl⟩ := List.append_of_mem hMem
  obtain ⟨middle, _, _, hLater⟩ := chain_append.mp h
  rw [hEnd] at hLater
  cases later with
  | nil => exact ⟨before, rfl⟩
  | cons m later => cases hLater.1

/-- A successor comes after the first cell. -/
theorem Chain.next_mem_tail (h : Chain next p cells none) (hMem : n ∈ cells)
    (hNext : next n = some m) : m ∈ cells.tail := by
  obtain ⟨before, later, rfl⟩ := List.append_of_mem hMem
  obtain ⟨middle, _, _, hLater⟩ := chain_append.mp h
  rw [hNext] at hLater
  obtain ⟨last, rfl, _⟩ := hLater.eq_cons
  cases before <;> simp

/-- Link a chain behind the last cell of another. -/
theorem Chain.link [DecidableEq Cell] {before : List Cell}
    (h : Chain next p (before ++ [n]) none) (hBehind : Chain next q cells none)
    (hBefore : n ∉ before) (hApart : n ∉ cells) :
    Chain (Function.update next n q) p (before ++ [n] ++ cells) none := by
  obtain ⟨middle, hChain, hLast⟩ := chain_append.mp h
  rw [chain_append]
  refine ⟨q, chain_append.mpr ⟨middle, hChain.update hBefore q, hLast.1, ?_⟩, hBehind.update hApart q⟩
  exact Function.update_self ..

end NfNetwork.Machinery
