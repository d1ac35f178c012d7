import Mathlib.Algebra.Group.Action.Defs
import Mathlib.Algebra.Order.BigOperators.Group.Finset
import Mathlib.Algebra.Order.Group.Nat
import NfNetwork.Machinery.Crew
import NfNetwork.Machinery.Transition

/-! Threads that retry. A thread takes a snapshot of a shared cell and replaces the cell if it
still holds the snapshot, and otherwise goes round once more. Only a replacement makes a
snapshot stale, so whoever replaces the cell can pay for the rounds of the others, and a run
takes a bounded number of steps for each call, however the threads are scheduled. -/
namespace NfNetwork.Machinery

universe u v w x
variable {State : Type u} {Action : Type v}

/-- A potential that pays for every step bounds the steps of a run by what its calls bring in. -/
theorem length_le_of_pays {step : State → Action → Option State} {calls : Action → Bool} {fee : Nat}
    (potential : State → Nat)
    (hPays : ∀ {s s' a}, step s a = some s' →
      potential s' + 1 ≤ potential s + if calls a then fee else 0)
    {start s : State} {actions : List Action} (hRun : exec step start actions = some s) :
    actions.length + potential s ≤ potential start + fee * actions.countP calls := by
  induction actions generalizing start with
  | nil =>
      cases hRun
      simp
  | cons a later ih =>
      rw [exec] at hRun
      split at hRun
      · rename_i next hNext
        have hFirst := hPays hNext
        have hLater := ih hRun
        rw [List.length_cons, List.countP_cons, Nat.mul_add, mul_ite, Nat.mul_one, Nat.mul_zero]
        omega
      · cases hRun

/-- What a place of the program has to do with the cell: the steps it has left if nobody
interferes, whether it is still going to replace the cell, and whether its snapshot is one that
the cell no longer holds. -/
structure Retrying (Cell : Type u) (Place : Type v) where
  left : Place → Nat
  replaces : Place → Bool
  stale : Cell → Place → Bool

namespace Retrying

variable {Cell : Type u} {Place : Type v} {Thread : Type w} [Fintype Thread]

/-- What a place may still cost: its own steps, a further round of `round` steps if its snapshot
is stale, and such a round for every other thread if it is going to replace the cell. -/
def cost (r : Retrying Cell Place) (round others : Nat) (cell : Cell) (place : Place) : Nat :=
  r.left place + (if r.stale cell place then round else 0) +
    if r.replaces place then round * others else 0

variable {r : Retrying Cell Place} {round others : Nat} {cell cell' : Cell} {place place' : Place}

/-- A replacement costs another thread one round at most. -/
theorem cost_le (r : Retrying Cell Place) (round others : Nat) (cell cell' : Cell) (place : Place) :
    r.cost round others cell' place ≤ r.cost round others cell place + round := by
  simp only [cost]
  split <;> split <;> omega

/-- How a step is paid for: the cell is left alone, or the one that replaces it pays for all
others too. -/
def Pays (r : Retrying Cell Place) (round others : Nat) (cell : Cell) (place : Place) (cell' : Cell)
    (place' : Place) : Prop :=
  cell' = cell ∧ r.cost round others cell place' + 1 ≤ r.cost round others cell place ∨
    r.cost round others cell' place' + round * others + 1 ≤ r.cost round others cell place

/-- A step that leaves the cell alone and brings its thread nearer to the end. -/
theorem Pays.goesOn (hLeft : r.left place' < r.left place)
    (hStale : r.stale cell place' = true → r.stale cell place = true)
    (hReplaces : r.replaces place' = true → r.replaces place = true) :
    r.Pays round others cell place cell place' := by
  refine .inl ⟨rfl, ?_⟩
  simp only [cost]
  have hRound : (if r.stale cell place' then round else 0) ≤ if r.stale cell place then round else 0 := by
    split
    · rw [if_pos (hStale ‹_›)]
    · exact Nat.zero_le _
  have hOthers : (if r.replaces place' then round * others else 0) ≤
      if r.replaces place then round * others else 0 := by
    split
    · rw [if_pos (hReplaces ‹_›)]
    · exact Nat.zero_le _
  omega

/-- A replacement that has come too late: the thread goes round again with a fresh snapshot. -/
theorem Pays.goesRound (hLeft : r.left place' < r.left place + round)
    (hStale : r.stale cell place = true) (hFresh : r.stale cell place' = false)
    (hReplaces : r.replaces place = true) : r.Pays round others cell place cell place' := by
  refine .inl ⟨rfl, ?_⟩
  simp only [cost, hStale, hFresh, hReplaces, Bool.false_eq_true, if_true, if_false]
  split
  · omega
  · omega

/-- The one replacement of an operation pays for the rounds of all others. -/
theorem Pays.replacesCell (hLeft : r.left place' < r.left place)
    (hFresh : r.stale cell' place' = false) (hBefore : r.replaces place = true)
    (hAfter : r.replaces place' = false) : r.Pays round others cell place cell' place' := by
  right
  simp only [cost, hFresh, hBefore, hAfter, Bool.false_eq_true, if_true, if_false]
  omega

/-- A place that has no snapshot yet and is going to replace the cell. -/
theorem cost_of_calls (hStale : r.stale cell place = false) (hReplaces : r.replaces place = true) :
    r.cost round others cell place = r.left place + round * others := by
  simp [cost, hStale, hReplaces]

variable [DecidableEq Thread] {threads : Thread → Place} {t : Thread}

/-- What all threads may still cost. -/
def potential (r : Retrying Cell Place) (round : Nat) (cell : Cell) (threads : Thread → Place) : Nat :=
  crewTotal (r.cost round (Fintype.card Thread - 1) cell) threads

theorem potential_pays (h : r.Pays round (Fintype.card Thread - 1) cell (threads t) cell' place) :
    r.potential round cell' (Function.update threads t place) + 1 ≤ r.potential round cell threads := by
  rw [potential, potential, crewTotal_update, crewTotal_split _ threads t]
  rcases h with ⟨rfl, hSelf⟩ | hSelf
  · omega
  · have hOthers : crewOthers (r.cost round (Fintype.card Thread - 1) cell') threads t ≤
        crewOthers (r.cost round (Fintype.card Thread - 1) cell) threads t +
          round * (Fintype.card Thread - 1) := by
      calc crewOthers (r.cost round (Fintype.card Thread - 1) cell') threads t
        _ ≤ ∑ t' ∈ Finset.univ.erase t,
            (r.cost round (Fintype.card Thread - 1) cell (threads t') + round) :=
          Finset.sum_le_sum fun t' _ => r.cost_le _ _ _ _ _
        _ = crewOthers (r.cost round (Fintype.card Thread - 1) cell) threads t +
            round * (Fintype.card Thread - 1) := by
          rw [Finset.sum_add_distrib, Finset.sum_const, Finset.card_erase_of_mem (Finset.mem_univ t),
            Finset.card_univ, smul_eq_mul, Nat.mul_comm, crewOthers]
    omega

/-- A call brings in what its first place costs. -/
theorem potential_calls (cell : Cell) (hIdle : r.cost round (Fintype.card Thread - 1) cell (threads t) = 0) :
    r.potential round cell (Function.update threads t place) =
      r.potential round cell threads + r.cost round (Fintype.card Thread - 1) cell place := by
  rw [potential, potential, crewTotal_update, crewTotal_split _ threads t, hIdle]
  omega

end Retrying

end NfNetwork.Machinery
