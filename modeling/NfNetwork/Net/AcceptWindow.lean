import NfNetwork.Net.ServerView

/-! The time between the end of `Init` and the first receive. The session is
published with a count of zero, so it lives on as long as nobody takes a count
of zero for a reason to release it. -/
namespace NfNetwork.Net

open Machinery

namespace Act

/-- The acts of the accept thread before its receive is counted. -/
def waits : Act → Nat
  | fresh | bound _ | connected => 1
  | _ => 0

/-- The acts of a thread that took the count to zero and has not tried the
release yet. -/
def triesRelease : Act → Nat
  | zero | deciding (some _) => 1
  | _ => 0

theorem waits_le_accepts (a : Act) : a.waits ≤ a.accepts := by
  cases a <;> simp [waits, accepts]

theorem waits_of_holds {a : Act} (h : a.holds = 1) : a.waits = 0 ∧ a.triesRelease = 0 := by
  cases a <;> first | exact ⟨rfl, rfl⟩ | cases h

end Act

namespace Life

/-- What the runs avoid: a session is not published while somebody is about to
release it, and a count of one is not given back before the first receive. -/
def KeepsWindow (v : Life) (label : Label) : Prop :=
  (label = .publish → v.total Act.triesRelease = 0) ∧
    (label = .decrement → v.total Act.waits ≠ 0 → v.core.ioCount ≠ 1)

/-- Before its first receive a session is live and nobody is about to release it. -/
def Window (v : Life) : Prop :=
  v.total Act.waits = 0 ∨ v.core.released = false ∧ v.total Act.triesRelease = 0

variable {v v' : Life} {label : Label}

section Steps

attribute [local simp] Population.total

/-- Whoever is about to try the release waits for no first receive. -/
theorem Window.no_waits_of_deciding (h : v.Window) (hSound : v.Sound) {id : Option Nat}
    {others : Multiset Act} (hActs : v.acts = ([.deciding id] : List Act) + others) :
    v.total Act.waits = 0 := by
  unfold Window at h
  cases id with
  | some id => simpa [hActs, Act.waits, Act.triesRelease] using h
  | none =>
      -- The accept thread gives up its own session: it waits for no other.
      have hAlone := hSound.alone
      have hLe := Multiset.sum_map_le_sum_map (s := others) _ _ fun a _ => Act.waits_le_accepts a
      simp [hActs, Act.accepts, Act.waits] at hAlone hLe ⊢
      omega

theorem Window.step (h : v.Window) (hSound : v.Sound) (hKeeps : v.KeepsWindow label)
    (hStep : LifeStep v label v') : v'.Window := by
  unfold Window at h ⊢
  cases hStep with
  | row hActs hRow =>
      cases hRow
      case forget a hHolds =>
        obtain ⟨hWaits, hTries⟩ := Act.waits_of_holds hHolds
        obtain ⟨hWaits', hTries'⟩ := Act.waits_of_holds (a := .counted) rfl
        simpa [hActs, hWaits, hTries, hWaits', hTries'] using h
      case publish =>
        have hTries := hKeeps.1 rfl
        simp [hActs, Act.triesRelease] at hTries ⊢
        exact .inr hTries
      case decrementLast hLast =>
        left
        by_contra hWaits
        refine hKeeps.2 rfl ?_ hLast
        simpa [hActs, Act.waits] using hWaits
      case win id hLive hZero =>
        left
        have hWaits := Window.no_waits_of_deciding h hSound hActs
        simpa [hActs, Act.waits] using hWaits
      case giveUp id =>
        cases id
        all_goals simp [hActs, Act.waits, Act.triesRelease] at h ⊢
        · exact h
        · exact .inl h
      case armConnected | leave | bindFail =>
        simp [hActs, Act.waits, Act.triesRelease] at h ⊢
        exact .inr h
      all_goals simpa [hActs, Act.waits, Act.triesRelease] using h
  | pop hUnused hAlone => simpa [Act.waits, Act.triesRelease] using h

theorem window_of_reachable (h : Reachable LifeStep KeepsWindow Life.start v) : v.Window := by
  apply h.invariant
  · exact .inl rfl
  · intro v v' label hReached hWindow hKeeps hStep
    exact hWindow.step (sound_of_reachable hReached) hKeeps hStep

end Steps

end Life

/-- Between the end of `Init` and the count of the first receive. -/
def SlotPc.beforeRecv : SlotPc → Bool
  | .countConnected | .bind | .connectedReadId | .connected _ => true
  | .recvPost .acceptThread pc => !pc.armed
  | _ => false

/-- Between a decrement to zero and the compare-exchange of `TryRelease`. -/
def SlotPc.triesRelease : SlotPc → Bool
  | .readId | .checkReleased (some _) | .tryRelease (some _) => true
  | _ => false

theorem SlotPc.acts_waits (pc : SlotPc) :
    (pc.acts.map Act.waits).sum = if pc.beforeRecv then 1 else 0 := by
  cases pc
  case sendPost caller pc =>
    cases caller <;> cases h : pc.armed <;> simp [acts, h, SendCaller.act, beforeRecv, Act.waits]
  case recvPost caller pc =>
    cases caller <;> cases h : pc.armed <;> simp [acts, h, beforeRecv, Act.waits]
  case release id pc => cases id <;> cases pc <;> rfl
  case finishSending caller pc => cases caller <;> rfl
  case returned caller => cases caller <;> rfl
  all_goals rfl

theorem SlotPc.acts_triesRelease (pc : SlotPc) :
    (pc.acts.map Act.triesRelease).sum = if pc.triesRelease then 1 else 0 := by
  cases pc
  case sendPost caller pc =>
    cases caller <;> cases h : pc.armed <;>
      simp [acts, h, SendCaller.act, triesRelease, Act.triesRelease]
  case recvPost caller pc =>
    cases caller <;> cases h : pc.armed <;> simp [acts, h, triesRelease, Act.triesRelease]
  case checkReleased id | tryRelease id => cases id <;> rfl
  case release id pc => cases id <;> cases pc <;> rfl
  case finishSending caller pc => cases caller <;> rfl
  case returned caller => cases caller <;> rfl
  all_goals rfl

namespace Server

variable {ioThreads callers poolSize : Nat} {s : Server ioThreads callers poolSize}

/-- A session is not released before its first receive is counted. -/
def SurvivesAccept (s : Server ioThreads callers poolSize) : Prop :=
  ∀ t k pc, .on k pc ∈ s.threads t → pc.beforeRecv = true → (s.slots k).session.isReleased = false

/-- When `Init` clears the released flag no thread is on its way to release the
session, and until the first receive is counted no thread takes its count from
one to zero. -/
def NoEarlyRelease (s : Server ioThreads callers poolSize)
    (a : Thread ioThreads callers × Choice poolSize) : Prop :=
  (∀ k rest, s.threads a.1 = .on k (.init .publish) :: rest →
    ∀ t pc, .on k pc ∈ s.threads t → pc.triesRelease = false) ∧
  (∀ k rest, s.threads a.1 = .on k .decrement :: rest →
    ∀ t pc, .on k pc ∈ s.threads t → pc.beforeRecv = true → (s.slots k).session.ioCount ≠ 1)

theorem NoEarlyRelease.keepsWindow {t : Thread ioThreads callers} {env : Env} {k : Fin poolSize}
    {pc : SlotPc} {rest : List (Frame poolSize)} (h : NoEarlyRelease s (t, .env env))
    (hTop : s.threads t = .on k pc :: rest) :
    (s.view k).life.KeepsWindow (pc.label (s.slots k)) := by
  constructor
  · intro hLabel
    obtain rfl := SlotPc.label_publish hLabel
    exact (total_eq_zero_iff SlotPc.acts_triesRelease).mpr (h.1 k rest hTop)
  · intro hLabel hWaits
    obtain rfl := SlotPc.label_decrement hLabel
    rw [Ne, total_eq_zero_iff SlotPc.acts_waits] at hWaits
    push Not at hWaits
    obtain ⟨t', pc', hFrame, hBefore⟩ := hWaits
    exact h.2 k rest hTop t' pc' hFrame (by simpa using hBefore)

/-- A freshly accepted session survives until its first receive is posted, in
every run that starts no release before. -/
theorem survivesAccept_of_noEarlyRelease (h : Reached NoEarlyRelease s) : s.SurvivesAccept := by
  intro t k pc hFrame hBefore
  have hReached := Reached.life k Life.KeepsWindow (fun _ => ⟨nofun, nofun⟩)
    (fun _ hGuard hTop => NoEarlyRelease.keepsWindow hGuard hTop) h
  rcases Life.window_of_reachable hReached with hNone | ⟨hLive, _⟩
  · rw [(total_eq_zero_iff SlotPc.acts_waits).mp hNone t pc hFrame] at hBefore
    cases hBefore
  · exact hLive

/-- A test for the guard: nothing else runs at a publication, and no count is
given back. -/
def releasesNothing (s : Server ioThreads callers poolSize)
    (a : Thread ioThreads callers × Choice poolSize) : Bool :=
  publishesAlone s a && match s.threads a.1 with
    | .on _ .decrement :: _ => false
    | _ => true

theorem noEarlyRelease_of_releasesNothing {a : Thread ioThreads callers × Choice poolSize}
    (h : releasesNothing s a = true) : NoEarlyRelease s a := by
  rw [releasesNothing, Bool.and_eq_true] at h
  constructor
  · intro k rest hTop t pc hFrame
    cases eq_of_publishesAlone h.1 hTop hFrame
    rfl
  · intro k rest hTop
    have hNone := h.2
    rw [hTop] at hNone
    cases hNone

/-- A session that has been connected, while a caller has found it. -/
def connectRun : List (Thread 1 2 × Choice 1) :=
  goes .accept 18 ++ (.caller 0, .call 1 (.sendPacket 7)) :: goes (.caller 0) 3

theorem survivesAccept_of_noEarlyRelease_connected :
    ∃ s : Server 1 2 1, .on 0 (.recvPost .acceptThread .checkFull) ∈ s.threads .accept ∧
      .on 0 (.acquireIncrement 1 (.sendPacket 7)) ∈ s.threads (.caller 0) ∧ s.SurvivesAccept := by
  have hRun : (exec (checked releasesNothing step) (start 1 2 1) connectRun).map
      (fun s => decide (.on 0 (.recvPost .acceptThread .checkFull) ∈ s.threads .accept ∧
        .on 0 (.acquireIncrement 1 (.sendPacket 7)) ∈ s.threads (.caller 0))) = some true := by
    decide +kernel
  obtain ⟨s, hExec, hFrames⟩ := Option.map_eq_some_iff.mp hRun
  obtain ⟨hAccept, hCaller⟩ := of_decide_eq_true hFrames
  exact ⟨s, hAccept, hCaller, survivesAccept_of_noEarlyRelease
    (reachable_of_checked noEarlyRelease_of_releasesNothing hExec)⟩

/-- `OnConnected` calls `SendPacket` with the id it was given. The count goes
from zero to one and back, which is taken for the end of the session. -/
def earlyReleaseRun : List (Thread 1 2 × Choice 1) :=
  goes .accept 17 ++ (.accept, .call 1 (.sendPacket 7)) :: goes .accept 8

theorem survivesAccept_fails :
    ¬ ∀ s : Server 1 2 1, Reached (fun _ _ => True) s → s.SurvivesAccept := by
  intro h
  have hRun : (exec step (start 1 2 1) earlyReleaseRun).map
      (fun s => decide (.on 0 (.recvPost .acceptThread .checkFull) ∈ s.threads .accept ∧
        (s.slots 0).session.isReleased = true)) = some true := by
    decide +kernel
  obtain ⟨s, hExec, hBad⟩ := Option.map_eq_some_iff.mp hRun
  obtain ⟨hFrame, hReleased⟩ := of_decide_eq_true hBad
  have hLive := h s (reachable_of_exec hExec) _ _ _ hFrame rfl
  rw [hReleased] at hLive
  cases hLive

end Server

end NfNetwork.Net
