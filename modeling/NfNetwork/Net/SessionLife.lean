import NfNetwork.Machinery.Population
import NfNetwork.Machinery.Transition
import NfNetwork.Net.Session

/-! What a session is for: a counted object that is popped, published, used by
whoever holds a count, released by whoever takes the count to zero, and pushed
back. The abstract machine keeps the count, the released flag, the id and one
act for each thing some thread is in the middle of doing to the session; `Row`
lists every move. The refinement of the code by these rows is at the end. -/
namespace NfNetwork.Net

open Machinery

/-- One thing that a thread is in the middle of doing to a session. -/
inductive Act where
  -- holding one count and about to give it back, or to check the session
  | counted
  -- holding a second count that the next posted operation will take over
  | arming
  -- holding the count of a completed operation, not looked at yet
  | completed
  -- holding one count, the id found equal to the one asked for
  | matched (id : Nat)
  -- acquired for the id asked for
  | held (id : Nat)
  -- handling a completion of a live session, perhaps with its id read
  | serving (id : Option Nat)
  -- brought the count to zero
  | zero
  -- about to try the release, and to report the id if there is one
  | deciding (id : Option Nat)
  | releasing (id : Option Nat)
  | notifying (id : Nat)
  -- popped by the accept thread; whether the new id is written
  | popped (named : Bool)
  | fresh
  | bound (id : Option Nat)
  | connected
  -- stopped by a `logic_error`
  | threw
  deriving DecidableEq, Repr

/-- The moves that a guard can be about. -/
inductive Label where
  | quiet
  | publish
  | decrement
  | release (id : Option Nat)
  | serve
  | drop
  deriving DecidableEq, Repr

/-- The shared part of the abstract machine. `unused` counts occurrences in
`mUnusedSession`, `pending` the operations owed a completion. -/
structure Core where
  released : Bool
  ioCount : Int
  id : Nat
  pending : Nat
  unused : Nat
  log : List Event

/-- One for a session that is not released. -/
def Core.live (c : Core) : Nat := if c.released then 0 else 1

namespace Act

/-- The counts an act holds. -/
def holds : Act → Nat
  | counted | arming | completed | matched _ | held _ | serving _ => 1
  | _ => 0

/-- The acts of the accept thread between the pop and its receive. -/
def accepts : Act → Nat
  | popped _ | fresh | bound _ | connected | deciding none => 1
  | _ => 0

/-- The acts during which the session is out of the stack but not live. -/
def displaces : Act → Nat
  | popped _ | releasing _ => 1
  | _ => 0

/-- The acts that only a live session allows. -/
def uses : Act → Nat
  | held _ | serving _ => 1
  | _ => 0

def throws : Act → Nat
  | threw => 1
  | _ => 0

/-- A reference does not take the session out of its place. -/
theorem displaces_of_holds {a : Act} (h : a.holds = 1) : a.displaces = 0 := by
  cases a <;> first | rfl | cases h

/-- Who uses a session holds a reference. -/
theorem uses_le_holds (a : Act) : a.uses ≤ a.holds := by
  cases a <;> simp [uses, holds]

end Act

/-- One move of the abstract machine: the acts it takes and the acts it leaves. -/
inductive Row : Core → List Act → Label → Core → List Act → Prop where
  | quiet (c : Core) (acts : List Act) : Row c acts .quiet c acts
  | increment (c : Core) : Row c [] .quiet { c with ioCount := c.ioCount + 1 } [.counted]
  | matches (c : Core) : Row c [.counted] .quiet c [.matched c.id]
  | acquire (c : Core) (id : Nat) (h : c.released = false) :
      Row c [.matched id] .quiet c [.held id]
  | forget (c : Core) (a : Act) (h : a.holds = 1) : Row c [a] .quiet c [.counted]
  | armHeld (c : Core) (id : Nat) :
      Row c [.held id] .quiet { c with ioCount := c.ioCount + 1 } [.arming, .held id]
  | armServing (c : Core) :
      Row c [.serving none] .quiet { c with ioCount := c.ioCount + 1 } [.arming, .serving none]
  | armConnected (c : Core) :
      Row c [.connected] .quiet { c with ioCount := c.ioCount + 1 } [.arming]
  | leave (c : Core) : Row c [.connected] .quiet c []
  | post (c : Core) : Row c [.arming] .quiet { c with pending := c.pending + 1 } []
  | decrement (c : Core) (h : 1 < c.ioCount) :
      Row c [.counted] .decrement { c with ioCount := c.ioCount - 1 } []
  | decrementLast (c : Core) (h : c.ioCount = 1) :
      Row c [.counted] .decrement { c with ioCount := 0 } [.zero]
  | underflow (c : Core) (h : c.ioCount < 1) :
      Row c [.counted] .decrement { c with ioCount := c.ioCount - 1 } [.threw]
  | readId (c : Core) : Row c [.zero] .quiet c [.deciding (some c.id)]
  | giveUp (c : Core) (id : Option Nat) : Row c [.deciding id] .quiet c []
  | win (c : Core) (id : Option Nat) (hLive : c.released = false) (hZero : c.ioCount = 0) :
      Row c [.deciding id] (.release id) { c with released := true, log := c.log ++ [.released] }
        [.releasing id]
  | clearId (c : Core) (id : Option Nat) :
      Row c [.releasing id] .quiet { c with id := 0 } [.releasing id]
  | push (c : Core) (id : Nat) :
      Row c [.releasing (some id)] .quiet
        { c with unused := c.unused + 1, log := c.log ++ [.pushed] } [.notifying id]
  | pushSilent (c : Core) :
      Row c [.releasing none] .quiet { c with unused := c.unused + 1, log := c.log ++ [.pushed] } []
  | notify (c : Core) (id : Nat) :
      Row c [.notifying id] .quiet { c with log := c.log ++ [.onDisconnected id] } []
  | complete (c : Core) (h : 0 < c.pending) :
      Row c [] .quiet { c with pending := c.pending - 1 } [.completed]
  | drop (c : Core) (h : c.released = true) : Row c [.completed] .drop c []
  | serve (c : Core) (h : c.released = false) : Row c [.completed] .serve c [.serving none]
  | serveId (c : Core) : Row c [.serving none] .quiet c [.serving (some c.id)]
  | callback (c : Core) (id : Nat) (e : Event) (h : e = .onReceived id ∨ e = .onSent id) :
      Row c [.serving (some id)] .quiet { c with log := c.log ++ [e] } [.serving none]
  | name (c : Core) (id : Nat) (h : id ≠ 0) :
      Row c [.popped false] .quiet { c with id := id } [.popped true]
  | abandon (c : Core) (h : c.released = false) : Row c [.popped false] .quiet c [.threw]
  | publish (c : Core) :
      Row c [.popped true] .publish
        { c with released := false, log := c.log ++ [.published c.id] } [.fresh]
  | bind (c : Core) :
      Row c [.fresh] .quiet { c with log := c.log ++ [.bound c.id] } [.bound none]
  | bindFail (c : Core) : Row c [.fresh] .quiet c [.deciding none]
  | connectId (c : Core) : Row c [.bound none] .quiet c [.bound (some c.id)]
  | connect (c : Core) (id : Nat) :
      Row c [.bound (some id)] .quiet { c with log := c.log ++ [.onConnected id] } [.connected]

/-- The abstract machine: the core and what the threads are doing. -/
abbrev Life := Population Core Act

/-- A session before its first pop. -/
def Life.start : Life where
  core := { released := true, ioCount := 0, id := 0, pending := 0, unused := 1, log := [] }
  acts := 0

/-- A row applied among other acts, or the pop, which only the accept thread
makes and only when it is done with every other session. -/
inductive LifeStep : Life → Label → Life → Prop where
  | row {v : Life} {c' : Core} {pre post : List Act} {label : Label} {others : Multiset Act}
      (hActs : v.acts = pre + others) (hRow : Row v.core pre label c' post) :
      LifeStep v label ⟨c', post + others⟩
  | pop {v : Life} {unused : Nat} (hUnused : v.core.unused = unused + 1)
      (hAlone : v.total Act.accepts = 0) :
      LifeStep v .quiet
        ⟨{ v.core with unused := unused, log := v.core.log ++ [.popped] }, .popped false ::ₘ v.acts⟩

namespace Life

variable {v : Life}

/-- What holds of every session in every run: it is in one place, at most one
act of the accept thread is about it, every act that holds a count is counted,
a released session is not used, and nothing was thrown. -/
structure Sound (v : Life) : Prop where
  place : v.core.unused + v.total Act.displaces + v.core.live = 1
  alone : v.total Act.accepts ≤ 1
  counted : (v.core.pending : Int) + v.total Act.holds ≤ v.core.ioCount
  live : v.core.released = true → v.total Act.uses = 0
  calm : v.total Act.throws = 0

/-- A session between its places is released. -/
theorem Sound.released_of_displaces (h : v.Sound) {a : Act} (hMem : a ∈ v.acts)
    (hDisplaces : a.displaces = 1) : v.core.released = true := by
  by_contra hLive
  have hPlace := h.place
  have hTotal : a.displaces ≤ v.total Act.displaces := le_total_of_mem hMem
  rw [Core.live, if_neg hLive] at hPlace
  omega

/-- A session in use is live. -/
theorem Sound.live_of_uses (h : v.Sound) {a : Act} (hMem : a ∈ v.acts) (hUses : a.uses = 1) :
    v.core.released = false := by
  by_contra hReleased
  have hZero := h.live (by simpa using hReleased)
  have hTotal : a.uses ≤ v.total Act.uses := le_total_of_mem hMem
  omega

end Life

section Sound

attribute [local simp] Population.total Core.live

variable {v v' : Life} {label : Label}

/-- Every step moves the session from one place to one other: the stack of unused sessions, a
thread's hand, or its life. -/
theorem LifeStep.place (h : LifeStep v label v') (hSound : v.Sound) :
    v'.core.unused + v'.total Act.displaces + v'.core.live = 1 := by
  have hPlace := hSound.place
  cases h with
  | row hActs hRow =>
      cases hRow
      case forget a hHolds =>
        have hCounted : Act.counted.displaces = 0 := rfl
        simpa [hActs, Act.displaces_of_holds hHolds, hCounted] using hPlace
      case win hLive _ | abandon hLive =>
        simp [hActs, Act.displaces, hLive] at hPlace ⊢
        try omega
      all_goals simp [hActs, Act.displaces] at hPlace ⊢
      all_goals omega
  | pop hUnused hAlone =>
      simp [Act.displaces, hUnused] at hPlace ⊢
      omega

/-- One accept is under way at most. -/
theorem LifeStep.alone (h : LifeStep v label v') (hSound : v.Sound) :
    v'.total Act.accepts ≤ 1 := by
  have hAlone := hSound.alone
  cases h with
  | row hActs hRow =>
      cases hRow
      all_goals simp [hActs, Act.accepts] at hAlone ⊢
      all_goals omega
  | pop hUnused hZero => simp_all [Act.accepts]

/-- Each reference in a hand or in the kernel is counted. More may be counted, since a dropped
completion keeps its count. -/
theorem LifeStep.counted (h : LifeStep v label v') (hSound : v.Sound) :
    (v'.core.pending : Int) + v'.total Act.holds ≤ v'.core.ioCount := by
  have hCounted := hSound.counted
  cases h with
  | row hActs hRow =>
      cases hRow
      case forget a hHolds =>
        have hOne : Act.counted.holds = 1 := rfl
        simpa [hActs, hHolds, hOne] using hCounted
      all_goals simp [hActs, Act.holds] at hCounted ⊢
      all_goals omega
  | pop hUnused hAlone => simpa [Act.holds] using hCounted

/-- Nobody uses a released session. -/
theorem LifeStep.live (h : LifeStep v label v') (hSound : v.Sound) :
    v'.core.released = true → v'.total Act.uses = 0 := by
  have hLive := hSound.live
  cases h with
  | row hActs hRow =>
      cases hRow
      case win id hReleased hZero =>
        -- A count of zero leaves no act that holds one.
        have hCounted := hSound.counted
        have hUses : v.total Act.uses ≤ v.total Act.holds := total_mono Act.uses_le_holds
        simp only [Population.total, hActs, Multiset.coe_singleton, Multiset.singleton_add,
          Multiset.map_cons, Act.holds, Multiset.sum_cons, zero_add, Act.uses, forall_const]
          at hCounted hUses ⊢
        omega
      all_goals simp_all [Act.uses]
  | pop hUnused hAlone => simpa [Act.uses] using hLive

/-- No thread is about to throw. -/
theorem LifeStep.calm (h : LifeStep v label v') (hSound : v.Sound) :
    v'.total Act.throws = 0 := by
  have hCalm := hSound.calm
  cases h with
  | row hActs hRow =>
      cases hRow
      case underflow hCount =>
        have hCounted := hSound.counted
        simp only [Population.total, hActs, Multiset.coe_singleton, Multiset.singleton_add,
          Multiset.map_cons, Act.holds, Multiset.sum_cons, Int.natCast_add] at hCounted
        omega
      case abandon hLive =>
        have hPlace := hSound.place
        simp [hActs, Act.displaces, hLive] at hPlace
      all_goals simp [hActs, Act.throws] at hCalm ⊢
      all_goals first | assumption | exact hCalm.2
  | pop hUnused hAlone => simpa [Act.throws] using hCalm

/-- So each step of the table is sound. -/
theorem LifeStep.sound (h : LifeStep v label v') (hSound : v.Sound) : v'.Sound :=
  ⟨h.place hSound, h.alone hSound, h.counted hSound, h.live hSound, h.calm hSound⟩

/-- And each of its runs, under any guard. -/
theorem Life.sound_of_reachable {Allowed : Life → Label → Prop}
    (h : Reachable LifeStep Allowed Life.start v) : v.Sound := by
  apply h.invariant
  · constructor <;> simp [Life.start]
  · intro v v' label _ hSound _ hStep
    exact hStep.sound hSound

end Sound

end NfNetwork.Net
