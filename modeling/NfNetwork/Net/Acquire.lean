import NfNetwork.Net.ServerView

/-! `AcquireSessionOrNull`. Its three checks protect the holder of a session
except in one place: the id is compared before the released flag is read, and
between the two the slot may be released and initialised again. -/
namespace NfNetwork.Net

open Machinery

namespace Life

/-- Whoever found the id equal, and whoever holds the session, is right about
its id, the former only while the session is live. -/
structure Owned (v : Life) : Prop where
  matched : ∀ id, .matched id ∈ v.acts → v.core.released = false → id = v.core.id
  held : ∀ id, .held id ∈ v.acts → id = v.core.id

/-- No stale match is left when a session is published. -/
def MatchesFresh (v : Life) (label : Label) : Prop :=
  label = .publish → ∀ id, .matched id ∈ v.acts → id = v.core.id

variable {v v' : Life} {label : Label}

/-- The id of a session only changes while it is out of the stack and released. -/
theorem Owned.of_displaced (hSound : v.Sound) (a : Act) (hMem : a ∈ v.acts)
    (hDisplaces : a.displaces = 1) (hReleased : v'.core.released = v.core.released)
    (hHeld : ∀ id, .held id ∈ v'.acts → .held id ∈ v.acts) : v'.Owned := by
  have hTrue := hSound.released_of_displaces hMem hDisplaces
  constructor
  · intro id _ hLive
    rw [hReleased, hTrue] at hLive
    cases hLive
  · intro id hId
    rw [hSound.live_of_uses (hHeld id hId) rfl] at hTrue
    cases hTrue

theorem Owned.step (h : v.Owned) (hSound : v.Sound) (hFresh : v.MatchesFresh label)
    (hStep : LifeStep v label v') : v'.Owned := by
  obtain ⟨hMatched, hHeld⟩ := h
  cases hStep with
  | row hActs hRow =>
      cases hRow
      case clearId id =>
        exact Owned.of_displaced hSound (.releasing id) (by simp [hActs]) rfl rfl (by simp [hActs])
      case name id _ =>
        exact Owned.of_displaced hSound (.popped false) (by simp [hActs]) rfl rfl (by simp [hActs])
      case publish =>
        have hMatched := hFresh rfl
        simp [hActs] at hMatched hHeld
        constructor
        · simpa using hMatched
        · simpa using hHeld
      case acquire id hLive =>
        simp [hActs] at hMatched hHeld
        constructor
        · simpa using hMatched.2
        · simpa using ⟨hMatched.1 hLive, hHeld⟩
      case forget a hHolds =>
        simp [hActs] at hMatched hHeld
        constructor
        · simpa using fun id hId => hMatched id (.inr hId)
        · simpa using fun id hId => hHeld id (.inr hId)
      case win =>
        simp [hActs] at hHeld
        constructor
        · simp
        · simpa using hHeld
      all_goals
        simp [hActs] at hMatched hHeld
        constructor
        · simpa using hMatched
        · simpa using hHeld
  | pop hUnused hAlone =>
      constructor
      · simpa using hMatched
      · simpa using hHeld

theorem owned_of_reachable (h : Reachable LifeStep MatchesFresh Life.start v) : v.Owned := by
  apply h.invariant
  · constructor <;> simp [Life.start]
  · intro v v' label hReached hOwned hFresh hStep
    exact hOwned.step (sound_of_reachable hReached) hFresh hStep

end Life

/-- The id for which the caller holds the session here: `AcquireSessionOrNull`
returned it and `TryReleaseSession` has not been called. -/
def SlotPc.acquiredId : SlotPc → Option Nat
  | .enqueueClosed id _ | .enqueueReleased id _ | .addRef id _ | .enqueue id _ | .disconnect id
  | .sendPost (.sendPacket id) _ | .returned (.sendPacket id) => some id
  | _ => none

theorem SlotPc.held_of_acquiredId {pc : SlotPc} {id : Nat} (h : pc.acquiredId = some id) :
    .held id ∈ pc.acts := by
  cases pc
  case sendPost caller pc =>
    cases caller <;> cases h
    cases hArmed : pc.armed <;> simp [acts, hArmed, SendCaller.act]
  case returned caller =>
    cases caller <;> cases h
    exact List.mem_singleton.mpr rfl
  all_goals cases h
  all_goals exact List.mem_singleton.mpr rfl

namespace Server

variable {ioThreads callers poolSize : Nat} {s : Server ioThreads callers poolSize}

/-- Whoever holds a session holds the live one that it asked for. -/
def HoldsRight (s : Server ioThreads callers poolSize) : Prop :=
  ∀ t k pc id, .on k pc ∈ s.threads t → pc.acquiredId = some id →
    (s.slots k).session.netSessionId = id ∧ (s.slots k).session.isReleased = false

/-- When `Init` clears the released flag, no thread stands between the id check
and the released check of `AcquireSessionOrNull` with another id. -/
def NoStaleMatch (s : Server ioThreads callers poolSize)
    (a : Thread ioThreads callers × Choice poolSize) : Prop :=
  ∀ k rest, s.threads a.1 = .on k (.init .publish) :: rest →
    ∀ t id purpose, .on k (.acquireCheckReleased id purpose) ∈ s.threads t →
      id = (s.slots k).session.netSessionId

theorem NoStaleMatch.matchesFresh {t : Thread ioThreads callers} {env : Env} {k : Fin poolSize}
    {pc : SlotPc} {rest : List (Frame poolSize)} (h : NoStaleMatch s (t, .env env))
    (hTop : s.threads t = .on k pc :: rest) :
    (s.view k).life.MatchesFresh (pc.label (s.slots k)) := by
  intro hLabel id hMatched
  obtain rfl := SlotPc.label_publish hLabel
  obtain ⟨pc', hPc', hActs⟩ := SlotView.mem_life_acts.mp hMatched
  obtain ⟨purpose, rfl⟩ := SlotPc.mem_acts_matched hActs
  obtain ⟨t', hFrame⟩ := mem_view_pcs.mp hPc'
  exact h k rest hTop t' id purpose hFrame

/-- `AcquireSessionOrNull` gives the session that was asked for, in every run
without a stale match. -/
theorem holdsRight_of_noStaleMatch (h : Reached NoStaleMatch s) : s.HoldsRight := by
  intro t k pc id hFrame hAcquired
  have hReached := Reached.life k Life.MatchesFresh (fun _ h => nomatch h)
    (fun _ hGuard hTop => NoStaleMatch.matchesFresh hGuard hTop) h
  have hHeld : .held id ∈ (s.view k).life.acts :=
    SlotView.mem_life_acts.mpr
      ⟨pc, mem_view_pcs.mpr ⟨t, hFrame⟩, SlotPc.held_of_acquiredId hAcquired⟩
  exact ⟨((Life.owned_of_reachable hReached).held id hHeld).symm,
    (Reached.sound k h).live_of_uses hHeld rfl⟩

/-- The accept thread takes a connection up to its first receive; a caller then
acquires it. -/
def acquireRun : List (Thread 1 2 × Choice 1) :=
  goes .accept 24 ++ (.caller 0, .call 1 (.sendPacket 7)) :: goes (.caller 0) 6

theorem noStaleMatch_of_publishesAlone {a : Thread ioThreads callers × Choice poolSize}
    (h : publishesAlone s a = true) : NoStaleMatch s a := by
  intro k rest hTop t id purpose hFrame
  cases eq_of_publishesAlone h hTop hFrame

theorem holdsRight_of_noStaleMatch_acquired :
    ∃ s : Server 1 2 1, .on 0 (.enqueueClosed 1 7) ∈ s.threads (.caller 0) ∧ s.HoldsRight := by
  have hRun : (exec (checked publishesAlone step) (start 1 2 1) acquireRun).map
      (fun s => decide (.on 0 (.enqueueClosed 1 7) ∈ s.threads (.caller 0))) = some true := by
    decide +kernel
  obtain ⟨s, hExec, hFrame⟩ := Option.map_eq_some_iff.mp hRun
  exact ⟨s, of_decide_eq_true hFrame,
    holdsRight_of_noStaleMatch (reachable_of_checked noStaleMatch_of_publishesAlone hExec)⟩

/-- Two callers look for the first client; the second one still has to read the
released flag when the slot is released, popped and published for the next. -/
def staleMatchRun : List (Thread 1 2 × Choice 1) :=
  goes .accept 24 ++
    (.caller 0, .call 1 .disconnect) :: goes (.caller 0) 3 ++
    (.caller 1, .call 1 .disconnect) :: goes (.caller 1) 3 ++
    (.io 0, .completion 0 .recv (.succeeded 0)) :: goes (.io 0) 5 ++
    goes (.caller 0) 1 ++ goes (.caller 1) 2 ++ goes (.io 0) 12 ++ goes .accept 13 ++
    goes (.caller 1) 1

theorem holdsRight_fails :
    ¬ ∀ s : Server 1 2 1, Reached (fun _ _ => True) s → s.HoldsRight := by
  intro h
  have hRun : (exec step (start 1 2 1) staleMatchRun).map
      (fun s => decide (.on 0 (.disconnect 1) ∈ s.threads (.caller 1) ∧
        (s.slots 0).session.netSessionId = 2)) = some true := by
    decide +kernel
  obtain ⟨s, hExec, hBad⟩ := Option.map_eq_some_iff.mp hRun
  obtain ⟨hFrame, hId⟩ := of_decide_eq_true hBad
  have hRight := h s (reachable_of_exec hExec) _ _ _ 1 hFrame rfl
  rw [hId] at hRight
  exact absurd hRight.1 (by decide)

end Server

end NfNetwork.Net
