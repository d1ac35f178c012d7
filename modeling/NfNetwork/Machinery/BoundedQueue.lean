import Mathlib.Data.List.Basic
import Mathlib.Tactic.Common

/-! A queue with a bound on its length. Appending keeps what fits and says how much that
was, and both ways of reading return what is there. -/
namespace NfNetwork.Machinery

universe u

/-- The bound is part of the queue. -/
structure BoundedQueue (Element : Type u) (capacity : Nat) where
  contents : List Element
  bounded : contents.length ≤ capacity

namespace BoundedQueue

variable {Element : Type u} {capacity : Nat} (queue : BoundedQueue Element capacity)

def empty (Element : Type u) (capacity : Nat) : BoundedQueue Element capacity :=
  ⟨[], Nat.zero_le _⟩

def size : Nat := queue.contents.length

def free : Nat := capacity - queue.contents.length

/-- Keep the first elements that fit. -/
def append (elements : List Element) : BoundedQueue Element capacity where
  contents := queue.contents ++ elements.take queue.free
  bounded := by
    have hBounded := queue.bounded
    rw [List.length_append, List.length_take, free]
    omega

def drop (n : Nat) : BoundedQueue Element capacity where
  contents := queue.contents.drop n
  bounded := by
    rw [List.length_drop]
    exact Nat.le_trans (Nat.sub_le _ _) queue.bounded

@[simp] theorem contents_empty : (empty Element capacity).contents = [] := rfl

@[simp] theorem contents_append (elements : List Element) :
    (queue.append elements).contents = queue.contents ++ elements.take queue.free := rfl

@[simp] theorem contents_drop (n : Nat) : (queue.drop n).contents = queue.contents.drop n := rfl

end BoundedQueue
end NfNetwork.Machinery
