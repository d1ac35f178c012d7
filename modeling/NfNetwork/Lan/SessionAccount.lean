import Mathlib.Algebra.BigOperators.Group.Finset.Piecewise
import Mathlib.Algebra.Ring.Int.Defs
import NfNetwork.Lan.SlotIndex

/-! `ConnectedSessionCount` and `OnDisconnected` of the LAN server against the sessions that live, and
the indexes that a release gives back against the room that the stack has for them. -/
namespace NfNetwork.Lan

open Machinery

variable {ioThreads callers poolSize : Nat}

/-- A session that is accepted and not yet counted. -/
@[simp] def SlotPc.counts : SlotPc → Nat
  | .countConnected => 1
  | _ => 0

/-- A session that is released and still counted. -/
@[simp] def SlotPc.uncounts : SlotPc → Nat
  | .countDisconnected => 1
  | _ => 0

/-- A session that is accepted and not yet open. -/
@[simp] def SlotPc.opens : SlotPc → Nat
  | .init .resetReleased => 1
  | _ => 0

/-- A session that is accepted and has no id yet. -/
@[simp] def SlotPc.starts : SlotPc → Nat
  | .init (.setId _) => 1
  | _ => 0

/-- A session that is released and whose handler has not heard of it. -/
@[simp] def SlotPc.tells : SlotPc → Nat
  | .notify _ => 1
  | _ => 0

/-- An event of each kind counts for its turn. -/
@[simp] def Event.initialises : Event → Nat
  | .initialised _ => 1
  | _ => 0

@[simp] def Event.releases : Event → Nat
  | .released => 1
  | _ => 0

@[simp] def Event.disconnects : Event → Nat
  | .onDisconnected _ => 1
  | _ => 0

/-- 1 for a session that is not released. -/
def Slot.alive (slot : Slot) : Nat := (!slot.session.isReleased).toNat

/-- How the turns of one step add up. -/
structure Effect.Accounts (e : Effect) (slot : Slot) (pc : SlotPc) : Prop where
  connected : e.connected + ((e.next.map SlotPc.counts).sum + pc.opens + pc.uncounts + slot.alive : Nat) =
    (pc.counts + (e.next.map SlotPc.opens).sum + (e.next.map SlotPc.uncounts).sum + e.slot.alive : Nat)
  lives : e.event.elim 0 Event.initialises + (e.next.map SlotPc.starts).sum + slot.alive + pc.opens =
    pc.starts + e.event.elim 0 Event.releases + e.slot.alive + (e.next.map SlotPc.opens).sum
  told : e.event.elim 0 Event.releases + pc.tells =
    e.event.elim 0 Event.disconnects + (e.next.map SlotPc.tells).sum

section Steps

variable {slot : Slot} {env : Env} {e : Effect}

/-- `SendPost` opens and releases nothing. -/
theorem SendPostPc.step_accounts {pc : SendPostPc} (h : pc.step slot env = some e) :
    e.Accounts slot (.sendPost pc) := by
  cases pc
  case wsaSend =>
    cases env <;> cases h
    all_goals constructor
    all_goals simp [Slot.alive, Slot.post]
  all_goals simp only [SendPostPc.step, goto, update] at h
  all_goals repeat' split at h
  all_goals cases h
  all_goals constructor
  all_goals simp [Slot.alive]

/-- Nor does `RecvPost`. -/
theorem RecvPostPc.step_accounts {pc : RecvPostPc} (h : pc.step slot env = some e) :
    e.Accounts slot (.recvPost pc) := by
  cases pc
  case wsaRecv =>
    cases env <;> cases h
    all_goals constructor
    all_goals simp [Slot.alive, Slot.post]
  all_goals simp only [RecvPostPc.step, goto, update] at h
  all_goals repeat' split at h
  all_goals cases h
  all_goals constructor
  all_goals simp [Slot.alive]

/-- Each step moves a session from one account to the next. -/
theorem SlotPc.step_accounts {pc : SlotPc} (h : pc.step slot env = some e)
    (hReleased : pc = .init .resetReleased → slot.session.isReleased = true) : e.Accounts slot pc := by
  cases pc
  case sendPost pc => exact pc.step_accounts h
  case recvPost pc => exact pc.step_accounts h
  case init pc =>
    cases pc <;> cases h
    case resetReleased =>
      constructor
      all_goals simp [Slot.alive, hReleased]
    all_goals constructor
    all_goals simp [Slot.alive]
  case finishSending pc =>
    cases pc <;> cases h
    all_goals constructor
    all_goals simp [Slot.alive]
  case tryRelease id index =>
    simp only [step] at h
    split at h
    · rename_i hReleasable
      cases h
      simp only [LanSession.releasable, Bool.and_eq_true, Bool.not_eq_true'] at hReleasable
      constructor
      all_goals simp [Slot.alive, releaseSteps, hReleasable.1]
    · cases h
      constructor
      all_goals simp [Slot.alive]
  case completed kind outcome =>
    cases outcome <;> cases kind <;> simp only [step, goto] at h
    all_goals repeat' split at h
    all_goals cases h
    all_goals constructor
    all_goals simp [Slot.alive]
  case threw => cases h
  all_goals simp only [step, goto, update] at h
  all_goals repeat' split at h
  all_goals cases h
  all_goals constructor
  all_goals simp [Slot.alive]

end Steps

namespace Server

variable {s s' : Server ioThreads callers poolSize} {t : Thread ioThreads callers}

/-- What the threads weigh at slot `k`. -/
def standing (s : Server ioThreads callers poolSize) (w : SlotPc → Nat) (k : Fin poolSize) : Nat :=
  weight (Frame.weighs k w) s.threads

/-- How often an event happens to slot `k` in a part of the history. -/
def eventSum (w : Event → Nat) (k : Fin poolSize) (entries : List (Fin poolSize × Event)) : Nat :=
  (entries.map fun entry => if entry.1 = k then w entry.2 else 0).sum

/-- How often an event has happened to slot `k`. -/
def happened (s : Server ioThreads callers poolSize) (w : Event → Nat) (k : Fin poolSize) : Nat :=
  eventSum w k s.history

/-- What slot `k` contributes to `ConnectedSessionCount`. -/
def contributes (s : Server ioThreads callers poolSize) (k : Fin poolSize) : Int :=
  ((s.slots k).alive + s.standing SlotPc.opens k + s.standing SlotPc.uncounts k : Nat) -
    (s.standing SlotPc.counts k : Nat)

/-- `ConnectedSessionCount` counts the sessions that live and those on the way in or out; every session
that got an id lives or is released, and of each released one the handler hears once. -/
structure Accounts (s : Server ioThreads callers poolSize) : Prop where
  connected : s.connectedSessionCount = ∑ k, s.contributes k
  lives : ∀ k, s.happened Event.initialises k + s.standing SlotPc.starts k =
    s.happened Event.releases k + (s.slots k).alive + s.standing SlotPc.opens k
  told : ∀ k, s.happened Event.releases k =
    s.happened Event.disconnects k + s.standing SlotPc.tells k

/-- What frames weigh at slot `k`. -/
def frameSum (w : SlotPc → Nat) (k : Fin poolSize) (fs : List (Frame poolSize)) : Nat :=
  (fs.map (Frame.weighs k w)).sum

/-- `Effect.Accounts` as slot `k` sees a step of the server. -/
structure Turns (k : Fin poolSize) (top next : List (Frame poolSize)) (new : List (Fin poolSize × Event))
    (connected : Int) (slot slot' : Slot) : Prop where
  connected : connected + (frameSum SlotPc.counts k next + frameSum SlotPc.opens k top +
      frameSum SlotPc.uncounts k top + slot.alive : Nat) =
    (frameSum SlotPc.counts k top + frameSum SlotPc.opens k next + frameSum SlotPc.uncounts k next +
      slot'.alive : Nat)
  lives : eventSum Event.initialises k new + frameSum SlotPc.starts k next + slot.alive +
      frameSum SlotPc.opens k top =
    frameSum SlotPc.starts k top + eventSum Event.releases k new + slot'.alive +
      frameSum SlotPc.opens k next
  told : eventSum Event.releases k new + frameSum SlotPc.tells k top =
    eventSum Event.disconnects k new + frameSum SlotPc.tells k next

/-- What a thread's step has to show for the accounts of all slots: its own frames, the slot it
changed, and what it counted and reported. -/
theorem Accounts.moved (h : s.Accounts) (top next : List (Frame poolSize)) {rest : List (Frame poolSize)}
    (new : List (Fin poolSize × Event)) (connected : Fin poolSize → Int)
    (hTop : s.threads t = top ++ rest)
    (hThreads : s'.threads = Function.update s.threads t (next ++ rest))
    (hHistory : s'.history = s.history ++ new)
    (hConnected : s'.connectedSessionCount = s.connectedSessionCount + ∑ k, connected k)
    (hTurns : ∀ k, Turns k top next new (connected k) (s.slots k) (s'.slots k)) : s'.Accounts := by
  have hStanding : ∀ w k, s'.standing w k + frameSum w k top = s.standing w k + frameSum w k next := by
    intro w k
    rw [standing, standing, hThreads]
    exact weight_update (Frame.weighs k w) hTop next
  have hHappened : ∀ w k, s'.happened w k = s.happened w k + eventSum w k new := by
    intro w k
    rw [happened, happened, hHistory, eventSum, List.map_append, List.sum_append]
    rfl
  constructor
  · rw [hConnected, h.connected, ← Finset.sum_add_distrib]
    apply Finset.sum_congr rfl
    intro k _
    have hTurn := (hTurns k).connected
    have hCounts := hStanding SlotPc.counts k
    have hOpens := hStanding SlotPc.opens k
    have hUncounts := hStanding SlotPc.uncounts k
    rw [contributes, contributes]
    omega
  · intro k
    have hTurn := (hTurns k).lives
    have hStarts := hStanding SlotPc.starts k
    have hOpens := hStanding SlotPc.opens k
    have hLives := h.lives k
    rw [hHappened, hHappened]
    omega
  · intro k
    have hTurn := (hTurns k).told
    have hTells := hStanding SlotPc.tells k
    have hTold := h.told k
    rw [hHappened, hHappened]
    omega

/-- Frames that no account stands at come and go. -/
theorem Accounts.quiet (h : s.Accounts) (top next : List (Frame poolSize)) {rest : List (Frame poolSize)}
    (hTop : s.threads t = top ++ rest)
    (hThreads : s'.threads = Function.update s.threads t (next ++ rest)) (hHistory : s'.history = s.history)
    (hConnected : s'.connectedSessionCount = s.connectedSessionCount)
    (hAlive : ∀ k, (s'.slots k).alive = (s.slots k).alive)
    (hNone : ∀ k, ∀ w ∈ [SlotPc.counts, SlotPc.opens, SlotPc.uncounts, SlotPc.starts, SlotPc.tells],
      ∀ f ∈ top ++ next, f.weighs k w = 0) : s'.Accounts := by
  refine h.moved top next [] (fun _ => 0) hTop hThreads (by simp [hHistory]) (by simp [hConnected]) fun k => ?_
  have hSum : ∀ w ∈ [SlotPc.counts, SlotPc.opens, SlotPc.uncounts, SlotPc.starts, SlotPc.tells],
      frameSum w k top = 0 ∧ frameSum w k next = 0 := by
    intro w hw
    exact ⟨sum_map_zero fun f hMem => hNone k w hw f (List.mem_append_left _ hMem),
      sum_map_zero fun f hMem => hNone k w hw f (List.mem_append_right _ hMem)⟩
  simp only [List.forall_mem_cons] at hSum
  constructor
  all_goals simp [hSum, hAlive, eventSum]

/-- A step at a slot passes what it owes on to the next place. -/
theorem Accounts.ran {k : Fin poolSize} {pc : SlotPc} {rest : List (Frame poolSize)} {env : Env} {e : Effect}
    (h : s.Accounts) (hTop : s.threads t = .on k pc :: rest) (hStep : pc.step (s.slots k) env = some e)
    (hReleased : pc = .init .resetReleased → (s.slots k).session.isReleased = true) :
    (s.apply t rest k e).Accounts := by
  obtain ⟨hConnected, hLives, hTold⟩ := SlotPc.step_accounts hStep hReleased
  refine h.moved [.on k pc] (effectFrames k e) (e.event.toList.map fun event => (k, event))
    (fun k' => if k' = k then e.connected else 0) hTop rfl rfl (by simp [apply]) fun k' => ?_
  by_cases hk : k' = k
  · subst hk
    have hTopSum : ∀ w, frameSum w k' [.on k' pc] = w pc := by simp [frameSum, Frame.weighs]
    have hNextSum : ∀ w, frameSum w k' (effectFrames k' e) = (e.next.map w).sum := by
      intro w
      rw [frameSum, sum_weighs_effectFrames, if_pos rfl]
    have hEvents : ∀ w, eventSum w k' (e.event.toList.map fun event => (k', event)) = e.event.elim 0 w := by
      intro w
      cases e.event <;> simp [eventSum]
    constructor
    all_goals simp only [hTopSum, hNextSum, hEvents, apply, Function.update_self, if_true]
    · exact hConnected
    · exact hLives
    · exact hTold
  · have hTopSum : ∀ w, frameSum w k' [.on k pc] = 0 := by simp [frameSum, Frame.weighs, Ne.symm hk]
    have hNextSum : ∀ w, frameSum w k' (effectFrames k e) = 0 := by
      intro w
      rw [frameSum, sum_weighs_effectFrames, if_neg (Ne.symm hk)]
    have hEvents : ∀ w, eventSum w k' (e.event.toList.map fun event => (k, event)) = 0 := by
      intro w
      cases e.event <;> simp [eventSum, Ne.symm hk]
    constructor
    all_goals simp [hTopSum, hNextSum, hEvents, apply, hk]

/-- `Init` opens a session that is released. -/
def OpensReleased (s : Server ioThreads callers poolSize)
    (a : Thread ioThreads callers × Choice poolSize) : Prop :=
  ∀ k rest, s.threads a.1 = .on k (.init .resetReleased) :: rest →
    (s.slots k).session.isReleased = true

/-- Each step keeps the accounts, if `Init` opens released sessions only. -/
theorem Accounts.step {choice : Choice poolSize} (h : s.Accounts) (hStep : s.Advance t s')
    (hGuard : OpensReleased s (t, choice)) : s'.Accounts := by
  cases hStep with
  | plain top next hTop hPlain =>
      exact h.quiet top next hTop rfl rfl rfl (fun _ => rfl)
        fun k w _ f hMem => Frame.weighs_of_plain (hPlain f hMem)
  | @called id purpose hIndex =>
      refine h.quiet [] [.on _ (purpose.entry id)] rfl rfl rfl rfl (fun _ => rfl) ?_
      cases purpose <;> simp [Frame.weighs, Purpose.entry]
  | @completed k op outcome hIdle hMem =>
      refine h.quiet [] [.on k (.completed op.1 outcome)] hIdle rfl rfl rfl ?_ (by simp [Frame.weighs])
      intro k'
      by_cases hk : k' = k
      · simp [hk, Slot.alive]
      · simp [hk]
  | @popped rest hTop hIndex =>
      refine h.moved [.tryPop] [.nextUid ⟨_, hIndex⟩] [(⟨_, hIndex⟩, .popped)] (fun _ => 0) hTop rfl rfl
        (by simp [setThread]) fun k => ?_
      constructor
      all_goals simp [frameSum, eventSum, Frame.weighs, setThread]
  | counted hTop =>
      exact h.quiet [.nextUid _] [.checkUid _ _] hTop rfl rfl rfl (fun _ => rfl) (by simp [Frame.weighs])
  | refused hTop =>
      exact h.quiet [.checkUid _ _] [.nextUid _] hTop rfl rfl rfl (fun _ => rfl) (by simp [Frame.weighs])
  | @chosen index uid rest hTop hIndex =>
      -- The frames of `Init` bring one entry for each account that it closes.
      refine h.moved [.checkUid index uid] _ [] (fun _ => 0) hTop rfl (by simp [setThread]) (by simp [setThread])
        fun k => ?_
      have hSum : ∀ w, frameSum w k ((initSteps (LanSession.genSessionId index uid)).map (.on ⟨_, hIndex⟩)) =
          if (⟨_, hIndex⟩ : Fin poolSize) = k then ((initSteps (LanSession.genSessionId index uid)).map w).sum
          else 0 := by
        intro w
        rw [frameSum, Frame.sum_weighs_on]
      constructor
      all_goals simp only [hSum]
      all_goals split
      all_goals simp [frameSum, eventSum, Frame.weighs, initSteps, setThread, Nat.add_comm]
  | @ran k pc rest env e hTop hStep =>
      refine h.ran hTop hStep ?_
      rintro rfl
      exact hGuard k rest hTop

/-- The run lemma. -/
theorem accounts_of_opensReleased (h : Reached OpensReleased s) : s.Accounts := by
  apply h.invariant
  · have hNone : ∀ w k, (start ioThreads callers poolSize).standing w k = 0 := fun _ _ => weight_nil
    constructor
    · refine (Finset.sum_eq_zero fun k _ => ?_).symm
      rw [contributes, hNone, hNone, hNone]
      rfl
    · intro k
      rw [hNone, hNone]
      rfl
    · intro k
      rw [hNone]
      rfl
  · intro s s' a _ hAccounts hGuard hStep
    exact hAccounts.step (step_advance hStep) hGuard

/-- The indexes that a frame holds. -/
def holdsIndex : Frame poolSize → Nat
  | .nextUid _ | .checkUid _ _ => 1
  | .on _ pc => pc.owns
  | _ => 0

/-- What the frames at a slot hold, whichever slot it is. -/
theorem sum_holdsIndex_on (k : Fin poolSize) (pcs : List SlotPc) :
    ((pcs.map (Frame.on k)).map holdsIndex).sum = (pcs.map SlotPc.owns).sum := by
  rw [List.map_map]
  rfl

/-- The same for the frames that an effect leaves. -/
theorem sum_holdsIndex_effectFrames (k : Fin poolSize) (e : Effect) :
    ((effectFrames k e).map holdsIndex).sum = (e.next.map SlotPc.owns).sum := by
  have hHandler : ((if e.callsHandler then [.handler] else [] : List (Frame poolSize)).map
      holdsIndex).sum = 0 := by
    split <;> rfl
  rw [effectFrames, List.map_append, List.sum_append, hHandler, Nat.zero_add, sum_holdsIndex_on]

/-- A frame outside the session's code holds no index. -/
theorem holdsIndex_of_plain {f : Frame poolSize} (h : f.plain = true) : holdsIndex f = 0 := by
  cases f with
  | on | nextUid | checkUid => cases h
  | _ => rfl

/-- There are as many indexes on the stack, in the hands of threads and kept by sessions in use as the
pool has slots. -/
def KeepsIndexes (s : Server ioThreads callers poolSize) : Prop :=
  s.unusedSessionIndexes.length + weight holdsIndex s.threads + ∑ k, (s.slots k).uses = poolSize

/-- An index that leaves one place has come to another. -/
theorem KeepsIndexes.moved (h : s.KeepsIndexes) (top next : List (Frame poolSize))
    {rest : List (Frame poolSize)} (hTop : s.threads t = top ++ rest)
    (hThreads : s'.threads = Function.update s.threads t (next ++ rest))
    (hMoves : s'.unusedSessionIndexes.length + (next.map holdsIndex).sum + ∑ k, (s'.slots k).uses =
      s.unusedSessionIndexes.length + (top.map holdsIndex).sum + ∑ k, (s.slots k).uses) :
    s'.KeepsIndexes := by
  have hHeld := weight_update holdsIndex hTop next
  rw [← hThreads] at hHeld
  unfold KeepsIndexes at h ⊢
  omega

/-- One slot's use replaced. -/
theorem sum_uses_update (slots : Fin poolSize → Slot) (k : Fin poolSize) (slot : Slot) :
    ∑ k', (Function.update slots k slot k').uses + (slots k).uses = ∑ k', (slots k').uses + slot.uses := by
  have hSplit := Finset.add_sum_erase Finset.univ (fun k' => (slots k').uses) (Finset.mem_univ k)
  have hSplit' := Finset.add_sum_erase Finset.univ
    (fun k' => (Function.update slots k slot k').uses) (Finset.mem_univ k)
  have hOthers : ∑ k' ∈ Finset.univ.erase k, (Function.update slots k slot k').uses =
      ∑ k' ∈ Finset.univ.erase k, (slots k').uses :=
    Finset.sum_congr rfl fun k' hMem => by rw [Function.update_of_ne (Finset.ne_of_mem_erase hMem)]
  rw [Function.update_self, hOthers] at hSplit'
  omega

/-- An index goes from the stack to an accept, to its session, to a release and back. -/
theorem KeepsIndexes.step {choice : Choice poolSize} (h : s.KeepsIndexes) (hStep : s.Advance t s')
    (hOpens : OpensReleased s (t, choice)) (hPops : PopsIndex s (t, choice)) : s'.KeepsIndexes := by
  cases hStep with
  | plain top next hTop hPlain =>
      refine h.moved top next hTop rfl ?_
      rw [sum_map_zero fun f hMem => holdsIndex_of_plain (hPlain f (List.mem_append_right _ hMem)),
        sum_map_zero fun f hMem => holdsIndex_of_plain (hPlain f (List.mem_append_left _ hMem))]
      rfl
  | @called id purpose hIndex =>
      refine h.moved [] [.on _ (purpose.entry id)] rfl rfl ?_
      cases purpose <;> rfl
  | @completed k op outcome hIdle hMem =>
      refine h.moved [] [.on k (.completed op.1 outcome)] hIdle rfl ?_
      have hSame := sum_uses_update s.slots k { s.slots k with pending := (s.slots k).pending.erase op }
      simp only [Slot.uses, setThread, List.map_cons, List.map_nil, List.sum_cons, List.sum_nil,
        holdsIndex, SlotPc.owns] at hSame ⊢
      omega
  | @popped rest hTop hIndex =>
      refine h.moved [.tryPop] [.nextUid ⟨_, hIndex⟩] hTop rfl ?_
      have hSome := List.length_pos_iff.mpr (hPops rest hTop)
      simp only [setThread, List.length_tail, List.map_cons, List.map_nil, List.sum_cons, List.sum_nil,
        holdsIndex]
      omega
  | counted hTop => exact h.moved [.nextUid _] [.checkUid _ _] hTop rfl rfl
  | refused hTop => exact h.moved [.checkUid _ _] [.nextUid _] hTop rfl rfl
  | chosen hTop hIndex =>
      refine h.moved [.checkUid _ _] _ hTop rfl ?_
      rw [sum_holdsIndex_on]
      rfl
  | @ran k pc rest env e hTop hStep =>
      refine h.moved [.on k pc] (effectFrames k e) hTop rfl ?_
      have hOwns := SlotPc.step_owns hStep fun hOpen => hOpens k rest (hOpen ▸ hTop)
      have hUses := sum_uses_update s.slots k e.slot
      rw [sum_holdsIndex_effectFrames]
      simp only [apply, List.length_append, List.map_cons, List.map_nil, List.sum_cons, List.sum_nil,
        holdsIndex]
      omega

/-- What the runs do: `Init` opens released sessions, and an accept finds an index on the stack. -/
structure Orderly (s : Server ioThreads callers poolSize)
    (a : Thread ioThreads callers × Choice poolSize) : Prop where
  opens : OpensReleased s a
  pops : PopsIndex s a

/-- The run lemma. -/
theorem keepsIndexes_of_orderly (h : Reached Orderly s) : s.KeepsIndexes := by
  apply h.invariant
  · simp [KeepsIndexes, start, weight_nil, Slot.uses, LanSession.new]
  · intro s s' a _ hKeeps hGuard hStep
    exact hKeeps.step (step_advance hStep) hGuard.opens hGuard.pops

/-- A release finds room on the stack for its index, so `Push` does not refuse it. Between calls the
count is the number of sessions that live, and each session that was ever accepted lives, or its handler
has heard once that it left. -/
theorem sessions_accounted (h : Reached Orderly s) : s.Accounts ∧
    (∀ t k index rest, s.threads t = .on k (.push index) :: rest →
      s.unusedSessionIndexes.length < poolSize) ∧
    ((∀ t, s.threads t = []) → s.connectedSessionCount = ∑ k, ((s.slots k).alive : Int) ∧
      ∀ k, s.happened Event.initialises k = s.happened Event.disconnects k + (s.slots k).alive) := by
  have hAccounts := accounts_of_opensReleased (h.mono fun hGuard => hGuard.opens)
  refine ⟨hAccounts, fun t k index rest hTop => ?_, fun hIdle => ?_⟩
  · have hKeeps := keepsIndexes_of_orderly h
    have hHeld : holdsIndex (.on k (.push index)) ≤ weight holdsIndex s.threads :=
      le_weight (hTop ▸ List.mem_cons_self)
    have hOne : holdsIndex (.on k (.push index)) = 1 := rfl
    unfold KeepsIndexes at hKeeps
    omega
  have hNone : ∀ w k, s.standing w k = 0 := by
    intro w k
    by_contra hSome
    obtain ⟨t, f, hMem, -⟩ := exists_of_weight hSome
    rw [hIdle t] at hMem
    cases hMem
  constructor
  · rw [hAccounts.connected]
    apply Finset.sum_congr rfl
    intro k _
    rw [contributes, hNone, hNone, hNone]
    simp
  · intro k
    have hLives := hAccounts.lives k
    have hTold := hAccounts.told k
    rw [hNone, hNone] at hLives
    rw [hNone] at hTold
    omega

/-- A test for the guard on a pool of two. -/
def orderly (s : Server 1 1 2) (a : Thread 1 1 × Choice 2) : Bool :=
  popsSome s a && match s.threads a.1 with
  | .on k (.init .resetReleased) :: _ => (s.slots k).session.isReleased
  | _ => true

/-- The test that runs evaluate implies the guard. -/
theorem orderly_of_test {s : Server 1 1 2} {a : Thread 1 1 × Choice 2}
    (h : orderly s a = true) : Orderly s a := by
  rw [orderly, Bool.and_eq_true] at h
  refine ⟨?_, popsIndex_of_popsSome h.1⟩
  intro k rest hTop
  have hOpens := h.2
  rwa [hTop] at hOpens

/-- Two clients connect, and the first one leaves. -/
theorem sessions_accounted_oneLeft : ∃ s : Server 1 1 2, s.happened Event.initialises 1 = 1 ∧
    s.connectedSessionCount = ∑ k, ((s.slots k).alive : Int) ∧ s.connectedSessionCount = 1 := by
  have hRun : (exec (checked orderly step) (start 1 1 2)
      (goes .accept 42 ++ (.io 0, .completion 1 (.recv, 1) (.succeeded 0)) :: goes (.io 0) 17)).map
        (fun s => decide ((∀ t, s.threads t = []) ∧ s.happened Event.initialises 1 = 1 ∧
          s.connectedSessionCount = 1)) = some true := by
    decide +kernel
  obtain ⟨s, hExec, hHolds⟩ := Option.map_eq_some_iff.mp hRun
  obtain ⟨hIdle, hInit, hCount⟩ := of_decide_eq_true hHolds
  obtain ⟨-, -, hQuiet⟩ := sessions_accounted (reachable_of_checked orderly_of_test hExec)
  exact ⟨s, hInit, (hQuiet hIdle).1, hCount⟩

end Server

end NfNetwork.Lan
