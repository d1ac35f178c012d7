import NfNetwork.Net.CallbackPhase
import NfNetwork.Net.ServerView

/-! The callbacks of a connection come in order, in every run in which nobody
releases a session or takes up a completion before its `OnConnected`, releases
it under the id of another client, or gets an id that was issued before. -/
namespace NfNetwork.Net

open Machinery

theorem Row.of_published {c c' : Core} {pre post : List Act} {label : Label} {id : Nat}
    (h : Row c pre label c' post) (hLog : c'.log = c.log ++ [.published id]) :
    label = .publish ∧ id = c.id := by
  cases h
  case publish =>
    simp at hLog
    exact ⟨rfl, hLog.symm⟩
  case callback x e hEvent => rcases hEvent with rfl | rfl <;> simp at hLog
  all_goals simp at hLog

/-- Only the last step of `Init` publishes an id, the session's own. -/
theorem SlotPc.of_published {slot : Slot} {env : Env} {pc : SlotPc} {e : Effect} {id : Nat}
    (h : pc.step slot env = some e) (hEvent : e.event = some (.published id)) :
    pc = .init .publish ∧ id = slot.session.netSessionId := by
  obtain ⟨pre, post, tail, _, _, hRow⟩ := SlotPc.step_moves 0 [] h
  have hLog : (e.core 0 []).log = [] ++ [.published id] := by
    simp [Effect.core, Slot.core, hEvent]
  obtain ⟨hLabel, hId⟩ := hRow.of_published hLog
  exact ⟨SlotPc.label_publish hLabel, hId⟩

/-- Between the end of `Init` and the call of `OnConnected`. -/
def SlotPc.beforeConnected : SlotPc → Bool
  | .countConnected | .bind | .connectedReadId | .connected _ => true
  | _ => false

/-- Between a successful binding and the call of `OnConnected`. -/
def SlotPc.connects : SlotPc → Bool
  | .connectedReadId | .connected _ => true
  | _ => false

theorem SlotPc.acts_unconnected (pc : SlotPc) :
    (pc.acts.map Act.unconnected).sum = if pc.beforeConnected then 1 else 0 := by
  cases pc
  case sendPost caller pc =>
    cases caller <;> cases h : pc.armed <;>
      simp [acts, h, SendCaller.act, beforeConnected, Act.unconnected]
  case recvPost caller pc =>
    cases caller <;> cases h : pc.armed <;> simp [acts, h, beforeConnected, Act.unconnected]
  case release id pc => cases id <;> cases pc <;> rfl
  case finishSending caller pc => cases caller <;> rfl
  case returned caller => cases caller <;> rfl
  all_goals rfl

theorem SlotPc.connects_of_mem_acts {pc : SlotPc} {o : Option Nat} (h : .bound o ∈ pc.acts) :
    pc.connects = true := by
  cases pc
  case connectedReadId | connected => rfl
  case sendPost caller pc =>
    cases caller <;> cases hArmed : pc.armed <;> simp [acts, hArmed, SendCaller.act] at h
  case recvPost caller pc =>
    cases caller <;> cases hArmed : pc.armed <;> simp [acts, hArmed] at h
  case returned caller => cases caller <;> simp [acts, SendCaller.act] at h
  case release id pc => cases id <;> cases pc <;> simp [acts, ReleasePc.acts] at h
  case finishSending caller pc => cases caller <;> simp [acts] at h
  all_goals simp [acts] at h

namespace Server

variable {ioThreads callers poolSize : Nat} {s s' : Server ioThreads callers poolSize}

/-- The callbacks with a bound id are `OnConnected` once, then received and sent,
then `OnDisconnected` once; before `OnConnected` the accept thread is about to
call it. No callback gets the invalid id. -/
structure CallsInOrder (s : Server ioThreads callers poolSize) : Prop where
  order : ∀ k id, (k, .bound id) ∈ s.history →
    ∃ phase, Phase.after id (s.history.map Prod.snd) = some phase ∧
      (phase = .before → ∃ t pc, .on k pc ∈ s.threads t ∧ pc.connects = true)
  valid : ∀ k e, (k, e) ∈ s.history → e.callbackId ≠ some 0

/-- Before the accept thread calls `OnConnected` nobody releases its session or
takes up a completion of it; whoever releases a session has read its id and not
an earlier one; `Init` assigns no id twice. -/
structure KeepsOrder (s : Server ioThreads callers poolSize)
    (a : Thread ioThreads callers × Choice poolSize) : Prop where
  release : ∀ k o rest, s.threads a.1 = .on k (.tryRelease o) :: rest →
    (s.slots k).session.isReleased = false → (s.slots k).session.ioCount = 0 →
    (∀ t pc, .on k pc ∈ s.threads t → pc.beforeConnected = false) ∧
      ∀ id, o = some id → id = (s.slots k).session.netSessionId
  serve : ∀ k kind transferred rest,
    s.threads a.1 = .on k (.completed kind (.succeeded transferred)) :: rest → transferred ≠ 0 →
    (s.slots k).session.isReleased = false →
    ∀ t pc, .on k pc ∈ s.threads t → pc.beforeConnected = false
  publish : ∀ k rest, s.threads a.1 = .on k (.init .publish) :: rest →
    ∀ k', (k', .published (s.slots k).session.netSessionId) ∉ s.history

theorem mem_eventsOf {k : Fin poolSize} {history : List (Fin poolSize × Event)} {e : Event} :
    e ∈ eventsOf k history ↔ (k, e) ∈ history := by
  simp [eventsOf]

theorem KeepsOrder.life {t : Thread ioThreads callers} {env : Env} {k : Fin poolSize}
    {pc : SlotPc} {rest : List (Frame poolSize)} (h : KeepsOrder s (t, .env env))
    (hTop : s.threads t = .on k pc :: rest) :
    (s.view k).life.KeepsOrder (pc.label (s.slots k)) := by
  constructor
  · intro o hLabel
    obtain ⟨rfl, hLive, hZero⟩ := SlotPc.label_release hLabel
    obtain ⟨hNone, hOwn⟩ := h.release k o rest hTop hLive hZero
    exact ⟨(total_eq_zero_iff SlotPc.acts_unconnected).mpr hNone, hOwn⟩
  · intro hLabel
    obtain ⟨hLive, kind, transferred, rfl, hTransferred⟩ := SlotPc.label_serve hLabel
    exact (total_eq_zero_iff SlotPc.acts_unconnected).mpr
      (h.serve k kind transferred rest hTop hTransferred hLive)
  · intro hLabel hIn
    obtain rfl := SlotPc.label_publish hLabel
    exact h.publish k rest hTop k (mem_eventsOf.mp hIn)

/-- No two slots ever published the same id. -/
def PublishesApart (s : Server ioThreads callers poolSize) : Prop :=
  ∀ k k' id, (k, .published id) ∈ s.history → (k', .published id) ∈ s.history → k = k'

theorem PublishesApart.append {k : Fin poolSize} (event : Option Event) (h : s.PublishesApart)
    (hHistory : s'.history = s.history ++ event.toList.map fun e => (k, e))
    (hNew : ∀ id, event = some (.published id) → ∀ k', (k', .published id) ∉ s.history) :
    s'.PublishesApart := by
  intro j j' id hMem hMem'
  rw [hHistory] at hMem hMem'
  simp at hMem hMem'
  rcases hMem with hMem | ⟨hEvent, rfl⟩
  · rcases hMem' with hMem' | ⟨hEvent', _⟩
    · exact h j j' id hMem hMem'
    · exact absurd hMem (hNew id hEvent' j)
  · rcases hMem' with hMem' | ⟨_, rfl⟩
    · exact absurd hMem' (hNew id hEvent j')
    · rfl

theorem publishesApart_of_keepsOrder (h : Reached KeepsOrder s) : s.PublishesApart := by
  apply h.invariant
  · intro k k' id hMem
    cases hMem
  · intro s s' ⟨t, choice⟩ _ hApart hKeeps hStep
    cases step_advance hStep with
    | control | find | complete => exact hApart
    | pop => exact PublishesApart.append (some .popped) hApart rfl (by simp)
    | run hTop hEffect =>
        refine PublishesApart.append _ hApart rfl ?_
        intro id hEvent
        obtain ⟨rfl, rfl⟩ := SlotPc.of_published hEffect hEvent
        exact hKeeps.publish _ _ hTop

/-- In every run that keeps the order, so do the callbacks. -/
theorem callsInOrder_of_keepsOrder (h : Reached KeepsOrder s) : s.CallsInOrder := by
  have hLife : ∀ k, (s.view k).life.Identified ∧ (s.view k).life.Phases := fun k =>
    Life.phases_of_reachable
      (Reached.life k Life.KeepsOrder (fun _ => ⟨nofun, nofun, nofun⟩)
        (fun _ hGuard hTop => KeepsOrder.life hGuard hTop) h)
  -- A slot that did not publish an id makes no callback with it.
  have hSilent : ∀ {j e id}, (j, e) ∈ s.history → (j, .published id) ∉ s.history →
      e.callbackId ≠ some id := by
    intro j e id hMem hNot
    have hBefore := (((hLife j).2.follows id).unissued (fun hIn => hNot (mem_eventsOf.mp hIn))).1
    exact Phase.callbackId_ne_of_before hBefore (mem_eventsOf.mpr hMem)
  constructor
  · intro k id hBound
    have hBound' : .bound id ∈ (s.view k).life.core.log := mem_eventsOf.mpr hBound
    obtain ⟨phase, hPhase, hWaiting⟩ := (hLife k).2.of_bound hBound'
    have hPublished : (k, .published id) ∈ s.history := by
      by_contra hNot
      exact (((hLife k).2.follows id).unissued (fun hIn => hNot (mem_eventsOf.mp hIn))).2.1 hBound'
    refine ⟨phase, ?_, ?_⟩
    · rw [← hPhase]
      refine (replay_map_filter Prod.snd (fun x => decide (x.1 = k)) ?_).symm
      intro ⟨j, e⟩ hMem hOther phase
      refine Phase.next_skip (hSilent hMem ?_) phase
      intro hIn
      exact of_decide_eq_false hOther (publishesApart_of_keepsOrder h j k id hIn hPublished)
    · intro hBefore
      obtain ⟨o, hMem⟩ := hWaiting hBefore
      obtain ⟨pc, hPc, hAct⟩ := SlotView.mem_life_acts.mp hMem
      obtain ⟨t, hFrame⟩ := mem_view_pcs.mp hPc
      exact ⟨t, pc, hFrame, SlotPc.connects_of_mem_acts hAct⟩
  · intro k e hMem
    exact hSilent hMem (fun hIn => (hLife k).1.valid (mem_eventsOf.mpr hIn))

/-- A test for the guard: a release under the session's own id and a completion
come when every other thread waits. -/
def ordersCallbacks (s : Server ioThreads callers poolSize)
    (a : Thread ioThreads callers × Choice poolSize) : Bool :=
  match s.threads a.1 with
  | .on k (.tryRelease o) :: rest =>
      decide (o = some (s.slots k).session.netSessionId ∧ rest = [] ∧
        ∀ t, t ≠ a.1 → s.threads t = [])
  | .on _ (.completed _ _) :: rest => decide (rest = [] ∧ ∀ t, t ≠ a.1 → s.threads t = [])
  | .on k (.init .publish) :: _ =>
      decide (∀ x ∈ s.history, x.2 ≠ .published (s.slots k).session.netSessionId)
  | _ => true

theorem keepsOrder_of_ordersCallbacks {a : Thread ioThreads callers × Choice poolSize}
    (h : ordersCallbacks s a = true) : KeepsOrder s a := by
  unfold ordersCallbacks at h
  constructor
  · intro k o rest hTop _ _
    rw [hTop] at h
    obtain ⟨rfl, rfl, hOthers⟩ := of_decide_eq_true h
    constructor
    · intro t pc hFrame
      cases eq_of_alone hTop hOthers hFrame
      rfl
    · intro id hId
      exact (Option.some.inj hId).symm
  · intro k kind transferred rest hTop _ _ t pc hFrame
    rw [hTop] at h
    obtain ⟨rfl, hOthers⟩ := of_decide_eq_true h
    cases eq_of_alone hTop hOthers hFrame
    rfl
  · intro k rest hTop k' hMem
    rw [hTop] at h
    exact of_decide_eq_true h _ hMem rfl

/-- A connection, a packet sent on it, and the client's goodbye, all handled. -/
def sentRun : List (Thread 1 2 × Choice 1) :=
  goes .accept 24 ++ (.caller 0, .call 1 (.sendPacket 7)) :: goes (.caller 0) 25 ++
    (.io 0, .completion 0 .send (.succeeded 5)) :: goes (.io 0) 15 ++
    (.io 0, .completion 0 .recv (.succeeded 0)) :: goes (.io 0) 18

theorem callsInOrder_of_keepsOrder_sent :
    ∃ s : Server 1 2 1, s.CallsInOrder ∧ s.history.map Prod.snd =
      [.popped, .published 1, .bound 1, .onConnected 1, .onSent 1, .released, .pushed,
        .onDisconnected 1] := by
  have hRun : (exec (checked ordersCallbacks step) (start 1 2 1) sentRun).map
      (fun s => decide (s.history.map Prod.snd =
        [.popped, .published 1, .bound 1, .onConnected 1, .onSent 1, .released, .pushed,
          .onDisconnected 1])) = some true := by
    decide +kernel
  obtain ⟨s, hExec, hHistory⟩ := Option.map_eq_some_iff.mp hRun
  exact ⟨s, callsInOrder_of_keepsOrder (reachable_of_checked keepsOrder_of_ordersCallbacks hExec),
    of_decide_eq_true hHistory⟩

/-- A caller finds the first client's session and stops before `IncrementIO`; the
first client leaves and the second one's session is bound; the caller goes on,
counts from zero to one and back, and releases the second one's session. -/
def releasedUnconnectedRun : List (Thread 1 2 × Choice 1) :=
  goes .accept 24 ++ (.caller 0, .call 1 .disconnect) :: goes (.caller 0) 3 ++
    (.io 0, .completion 0 .recv (.succeeded 0)) :: goes (.io 0) 18 ++ goes .accept 15 ++
    goes (.caller 0) 18

theorem callsInOrder_fails :
    ¬ ∀ s : Server 1 2 1, Reached (fun _ _ => True) s → s.CallsInOrder := by
  intro h
  have hRun : (exec step (start 1 2 1) releasedUnconnectedRun).map
      (fun s => decide ((0, .bound 2) ∈ s.history ∧
        Phase.after 2 (s.history.map Prod.snd) = none)) = some true := by
    decide +kernel
  obtain ⟨s, hExec, hBad⟩ := Option.map_eq_some_iff.mp hRun
  obtain ⟨hBound, hNone⟩ := of_decide_eq_true hBad
  obtain ⟨phase, hPhase, _⟩ := (h s (reachable_of_exec hExec)).order 0 2 hBound
  rw [hNone] at hPhase
  cases hPhase

end Server

end NfNetwork.Net
