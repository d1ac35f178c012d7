import Mathlib.Data.Finset.Card
import Mathlib.Logic.Function.Basic
import NfNetwork.Machinery.Replay

/-! Containers that are leased, emptied slot by slot, filled again in any order, and given
back when every slot has come back. The log of such a life is read by a partial automaton,
which refuses a slot taken or given back twice, and a container given back early or twice. -/
namespace NfNetwork.Machinery

universe u v
variable {Container : Type u} {Slot : Type v} [DecidableEq Slot]

/-- The slots of a leased container that were taken, and those among them that came back. -/
structure Lease (slots : Finset Slot) where
  taken : Finset Slot
  back : Finset Slot
  hTaken : taken ⊆ slots
  hBack : back ⊆ taken

inductive LeaseEvent (Container : Type u) (Slot : Type v) where
  | lease (c : Container)
  | take (c : Container) (i : Slot)
  | giveBack (c : Container) (i : Slot)
  | endLease (c : Container)
deriving DecidableEq

namespace Lease

variable {slots : Finset Slot}

def fresh : Lease slots := ⟨∅, ∅, Finset.empty_subset _, Finset.empty_subset _⟩

/-- A slot that was taken and has not come back. -/
def Out (l : Lease slots) (i : Slot) : Prop := i ∈ l.taken ∧ i ∉ l.back

instance (l : Lease slots) (i : Slot) : Decidable (l.Out i) := inferInstanceAs (Decidable (_ ∧ _))

def take (l : Lease slots) (i : Slot) (hSlot : i ∈ slots) : Lease slots where
  taken := insert i l.taken
  back := l.back
  hTaken := Finset.insert_subset hSlot l.hTaken
  hBack := l.hBack.trans (Finset.subset_insert _ _)

def giveBack (l : Lease slots) (i : Slot) (hTaken : i ∈ l.taken) : Lease slots where
  taken := l.taken
  back := insert i l.back
  hTaken := l.hTaken
  hBack := Finset.insert_subset hTaken l.hBack

theorem card_giveBack {l : Lease slots} {i : Slot} (h : l.Out i) :
    (l.giveBack i h.1).back.card = l.back.card + 1 :=
  Finset.card_insert_of_notMem h.2

omit [DecidableEq Slot] in
/-- All slots have come back only if all were taken. -/
theorem taken_of_back {l : Lease slots} (h : l.back = slots) : l.taken = slots :=
  l.hTaken.antisymm (h.symm.subset.trans l.hBack)

omit [DecidableEq Slot] in
theorem back_eq_iff {l : Lease slots} : l.back = slots ↔ l.back.card = slots.card := by
  constructor
  · intro h
    rw [h]
  · intro h
    exact Finset.eq_of_subset_of_card_le (l.hBack.trans l.hTaken) h.ge

omit [DecidableEq Slot] in
theorem not_back_of_out {l : Lease slots} {i : Slot} (h : l.Out i) : l.back ≠ slots := by
  intro hBack
  exact h.2 (hBack.symm.subset (l.hTaken h.1))

end Lease

variable [DecidableEq Container] (slots : Finset Slot)

/-- How the automaton reads one event. A container without a lease is in the pool. -/
def leaseNext (leases : Container → Option (Lease slots)) :
    LeaseEvent Container Slot → Option (Container → Option (Lease slots))
  | .lease c => match leases c with
    | none => some (Function.update leases c (some .fresh))
    | some _ => none
  | .take c i => match leases c with
    | none => none
    | some l =>
      if h : i ∈ slots ∧ i ∉ l.taken then some (Function.update leases c (some (l.take i h.1)))
      else none
  | .giveBack c i => match leases c with
    | none => none
    | some l =>
      if h : l.Out i then some (Function.update leases c (some (l.giveBack i h.1))) else none
  | .endLease c => match leases c with
    | none => none
    | some l => if l.back = slots then some (Function.update leases c none) else none

section Reads

variable {slots} {leases : Container → Option (Lease slots)} {c : Container} {l : Lease slots} {i : Slot}

theorem leaseNext_lease (h : leases c = none) :
    leaseNext slots leases (.lease c) = some (Function.update leases c (some .fresh)) := by
  simp [leaseNext, h]

theorem leaseNext_take (h : leases c = some l) (hSlot : i ∈ slots) (hFree : i ∉ l.taken) :
    leaseNext slots leases (.take c i) = some (Function.update leases c (some (l.take i hSlot))) := by
  simp [leaseNext, h, hSlot, hFree]

theorem leaseNext_giveBack (h : leases c = some l) (hOut : l.Out i) :
    leaseNext slots leases (.giveBack c i) =
      some (Function.update leases c (some (l.giveBack i hOut.1))) := by
  simp [leaseNext, h, hOut]

theorem leaseNext_endLease (h : leases c = some l) (hBack : l.back = slots) :
    leaseNext slots leases (.endLease c) = some (Function.update leases c none) := by
  simp [leaseNext, h, hBack]

end Reads

end NfNetwork.Machinery
