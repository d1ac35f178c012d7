import Mathlib.Data.Int.Notation
import Mathlib.Logic.Function.Basic
import Mathlib.Tactic.Common

/-! Counters that hand out numbers from zero on. A holder has one number, from one counter; two
holders may have the same number, but then from different counters. -/
namespace NfNetwork.Machinery

universe u v

structure Tickets (Holder : Type u) (Counter : Type v) where
  last : Counter → Int
  held : Holder → Option (Counter × Int)

namespace Tickets

variable {Holder : Type u} {Counter : Type v} [DecidableEq Holder] [DecidableEq Counter]
  {t : Tickets Holder Counter}

def start : Tickets Holder Counter := ⟨fun _ => -1, fun _ => none⟩

/-- The holder takes the next number of a counter. -/
def issue (t : Tickets Holder Counter) (holder : Holder) (counter : Counter) : Tickets Holder Counter where
  last := Function.update t.last counter (t.last counter + 1)
  held := Function.update t.held holder (some (counter, t.last counter + 1))

/-- The numbers of a counter go up to its last one, and each is held once. -/
structure Sound (t : Tickets Holder Counter) : Prop where
  floor : ∀ counter, -1 ≤ t.last counter
  within : ∀ holder counter number, t.held holder = some (counter, number) →
    0 ≤ number ∧ number ≤ t.last counter
  unique : ∀ holder other ticket, t.held holder = some ticket → t.held other = some ticket → holder = other

omit [DecidableEq Holder] [DecidableEq Counter] in
theorem start_sound : (start : Tickets Holder Counter).Sound := by
  constructor <;> simp [start]

theorem Sound.issue (h : t.Sound) (holder : Holder) (counter : Counter) : (t.issue holder counter).Sound where
  floor other := by
    have hLast := h.floor other
    by_cases hSame : other = counter
    · subst hSame
      simp only [Tickets.issue, Function.update_self]
      omega
    · simpa [Tickets.issue, hSame] using hLast
  within other counter' number hHeld := by
    by_cases hSame : other = holder
    · subst hSame
      simp only [Tickets.issue, Function.update_self, Option.some.injEq, Prod.mk.injEq] at hHeld
      obtain ⟨rfl, rfl⟩ := hHeld
      have hLast := h.floor counter
      simp only [Tickets.issue, Function.update_self]
      omega
    · simp only [Tickets.issue, Function.update_of_ne hSame] at hHeld
      have hWithin := h.within other counter' number hHeld
      by_cases hCounter : counter' = counter
      · subst hCounter
        simp only [Tickets.issue, Function.update_self]
        omega
      · simpa [Tickets.issue, hCounter] using hWithin
  unique := by
    -- The number that is handed out is above all that its counter has handed out before.
    have hNew : ∀ other, t.held other ≠ some (counter, t.last counter + 1) := by
      intro other hHeld
      have hWithin := h.within other _ _ hHeld
      omega
    intro first second ticket hFirst hSecond
    by_cases hFirstSame : first = holder <;> by_cases hSecondSame : second = holder
    · rw [hFirstSame, hSecondSame]
    · subst hFirstSame
      simp only [Tickets.issue, Function.update_self, Function.update_of_ne hSecondSame] at hFirst hSecond
      exact absurd (hSecond.trans hFirst.symm) (hNew second)
    · subst hSecondSame
      simp only [Tickets.issue, Function.update_self, Function.update_of_ne hFirstSame] at hFirst hSecond
      exact absurd (hFirst.trans hSecond.symm) (hNew first)
    · simp only [Tickets.issue, Function.update_of_ne hFirstSame, Function.update_of_ne hSecondSame]
        at hFirst hSecond
      exact h.unique first second ticket hFirst hSecond

end Tickets

end NfNetwork.Machinery
