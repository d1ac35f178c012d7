import Mathlib.Data.List.FinRange
import NfNetwork.Net.Server
import NfNetwork.Net.SlotView

/-! The server seen from one session. `Advance` says once what a step of the
server can do; from it, every run of the server is, in the view of one session,
a run of `SlotStep` and of `LifeStep`. -/
namespace NfNetwork.Net

open Machinery

variable {ioThreads callers poolSize : Nat}

def Frame.pcAt (k : Fin poolSize) : Frame poolSize → Option SlotPc
  | .on j pc => if j = k then some pc else none
  | _ => none

/-- A frame is in the code of one slot at most. -/
theorem Frame.pcAt_eq_some {k : Fin poolSize} {f : Frame poolSize} {pc : SlotPc} :
    f.pcAt k = some pc ↔ f = .on k pc := by
  cases f with
  | on j pc' =>
      simp only [Frame.pcAt, Frame.on.injEq]
      split <;> simp_all
  | _ => simp [Frame.pcAt]

def Frame.accepts : Frame poolSize → Nat
  | .acceptDecide | .acceptPop => 1
  | .on _ pc => pc.accepts
  | _ => 0

/-- What a frame weighs when a place weighs `f`: the accept thread before its pop weighs one. -/
def Frame.weigh (f : SlotPc → Nat) : Frame poolSize → Nat
  | .acceptDecide | .acceptPop => 1
  | .on _ pc => f pc
  | _ => 0

/-- The weight that counts accepts is the one the server uses. -/
theorem Frame.weigh_accepts : (Frame.weigh SlotPc.accepts : Frame poolSize → Nat) = Frame.accepts := by
  funext frame
  cases frame <;> rfl

/-- A measure of the places at which the accept thread works on the session that it popped. -/
structure SlotPc.AcceptMeasure (f : SlotPc → Nat) : Prop where
  find : ∀ id purpose, f (.findId id purpose) = 0
  completed : ∀ kind outcome, f (.completed kind outcome) = 0
  popped : f (.init .checkReleased) = 1
  step : ∀ {slot env pc e}, SlotPc.step slot env pc = some e → (e.next.map f).sum ≤ f pc

/-- The events of one session. -/
def eventsOf (k : Fin poolSize) (history : List (Fin poolSize × Event)) : List Event :=
  (history.filter fun event => event.1 = k).map Prod.snd

/-- Events that a slot adds to the history are its own. -/
theorem eventsOf_append (k j : Fin poolSize) (history : List (Fin poolSize × Event))
    (events : List Event) :
    eventsOf k (history ++ events.map fun event => (j, event)) =
      if j = k then eventsOf k history ++ events else eventsOf k history := by
  rw [eventsOf, eventsOf, List.filter_append, List.map_append, List.filter_map, List.map_map]
  split <;> rename_i hj <;> simp [Function.comp_def, hj]

/-- What a thread goes on with at one slot is nothing at another. -/
theorem filterMap_pcAt (k j : Fin poolSize) (pcs : List SlotPc) :
    (pcs.map (Frame.on j)).filterMap (Frame.pcAt k) = if j = k then pcs else [] := by
  rw [List.filterMap_map]
  split <;> rename_i hj <;> simp [Function.comp_def, Frame.pcAt, hj]

namespace Server

/-- One session of a server. -/
def view (s : Server ioThreads callers poolSize) (k : Fin poolSize) : SlotView where
  slot := s.slots k
  unused := s.unusedSession.count k
  log := eventsOf k s.history
  pcs := (frames s.threads).filterMap (Frame.pcAt k)

/-- What one step of a thread can be: control flow outside the sessions, a call
that looks for a session, the pop, a completion, or a step at a session. -/
inductive Advance (s : Server ioThreads callers poolSize) (t : Thread ioThreads callers) :
    Choice poolSize → Server ioThreads callers poolSize → Prop where
  | control {choice : Choice poolSize} (top next rest : List (Frame poolSize))
      (hTop : s.threads t = top ++ rest)
      (hOutside : ∀ k, top.filterMap (Frame.pcAt k) = [] ∧ next.filterMap (Frame.pcAt k) = [])
      (hAccepts : (t = .accept ∧ rest = [] ∧ (next.map Frame.accepts).sum ≤ 1) ∨
        (next.map Frame.accepts).sum ≤ (top.map Frame.accepts).sum) :
      Advance s t choice (s.setThread t (next ++ rest))
  | find {choice : Choice poolSize} (k : Fin poolSize) (id : Nat) (purpose : Purpose) :
      Advance s t choice (s.setThread t (.on k (.findId id purpose) :: s.threads t))
  | pop {choice : Choice poolSize} {rest : List (Frame poolSize)} {k : Fin poolSize}
      {unusedSession : List (Fin poolSize)} (hTop : s.threads t = .acceptPop :: rest)
      (hUnused : s.unusedSession = k :: unusedSession) :
      Advance s t choice
        { s.setThread t (.on k (.init .checkReleased) :: rest) with
          unusedSession := unusedSession
          history := s.history ++ [(k, .popped)] }
  | complete {choice : Choice poolSize} {k : Fin poolSize} {kind : OpKind} {outcome : Outcome}
      {slot : Slot} (hIdle : s.threads t = [])
      (hTake : (s.slots k).takeCompletion kind = some slot) :
      Advance s t choice
        { s.setThread t [.on k (.completed kind outcome)] with
          slots := Function.update s.slots k slot }
  | run {env : Env} {rest : List (Frame poolSize)} {k : Fin poolSize} {pc : SlotPc} {e : Effect}
      (hTop : s.threads t = .on k pc :: rest) (hStep : pc.step (s.slots k) env = some e) :
      Advance s t (.env env) (s.apply t rest k e)

variable {s s' : Server ioThreads callers poolSize} {t : Thread ioThreads callers}
  {choice : Choice poolSize}

/-- A call from outside puts one frame on an empty stack. -/
theorem call_advance {id : Nat} {purpose : Purpose}
    (h : s.call t id purpose (s.threads t) = some s') : s.Advance t choice s' := by
  rw [call] at h
  split at h <;> cases h
  exact .find _ id purpose

/-- An idle thread begins with an accept or a completion. -/
theorem stepIdle_advance (hIdle : s.threads t = []) (h : s.stepIdle t choice = some s') :
    s.Advance t choice s' := by
  cases t with
  | accept =>
      cases choice with
      | env env =>
          cases env <;> cases h
          · exact .control [] [.handler, .acceptDecide] [] hIdle (fun _ => ⟨rfl, rfl⟩)
              (.inl ⟨rfl, rfl, by simp [Frame.accepts]⟩)
          all_goals
            exact .control [] [.acceptEnded] [] hIdle (fun _ => ⟨rfl, rfl⟩)
              (.inl ⟨rfl, rfl, by simp [Frame.accepts]⟩)
      | call | completion => cases h
  | io i =>
      cases choice with
      | completion k kind outcome =>
          simp only [stepIdle, Option.bind_eq_bind, Option.bind_eq_some_iff] at h
          obtain ⟨slot, hTake, hSlot⟩ := h
          cases hSlot
          exact .complete hIdle hTake
      | env | call => cases h
  | caller i =>
      cases choice with
      | call id purpose =>
          rw [stepIdle, ← hIdle] at h
          exact call_advance h
      | env | completion => cases h

/-- A thread goes on with its top frame, or pops it. -/
theorem stepFrame_advance {frame : Frame poolSize} {rest : List (Frame poolSize)}
    (hTop : s.threads t = frame :: rest) (h : s.stepFrame t rest frame choice = some s') :
    s.Advance t choice s' := by
  cases frame with
  | handler =>
      cases choice with
      | env env =>
          cases h
          exact .control [.handler] [] rest hTop (fun _ => ⟨rfl, rfl⟩)
            (.inr (by simp [Frame.accepts]))
      | call id purpose =>
          rw [stepFrame, ← hTop] at h
          exact call_advance h
      | completion => cases h
  | acceptDecide =>
      cases choice with
      | env env =>
          cases env <;> cases h
          · exact .control [.acceptDecide] [.acceptPop] rest hTop (fun _ => ⟨rfl, rfl⟩)
              (.inr (by simp [Frame.accepts]))
          all_goals
            exact .control [.acceptDecide] [] rest hTop (fun _ => ⟨rfl, rfl⟩)
              (.inr (by simp [Frame.accepts]))
      | call | completion => cases h
  | acceptPop =>
      cases choice with
      | env env =>
          simp only [stepFrame] at h
          split at h <;> cases h
          · exact .control [.acceptPop] [] rest hTop (fun _ => ⟨rfl, rfl⟩)
              (.inr (by simp [Frame.accepts]))
          · rename_i hUnused
            exact .pop hTop hUnused
      | call | completion => cases h
  | acceptEnded => cases choice <;> cases h
  | on k pc =>
      cases choice with
      | env env =>
          simp only [stepFrame, Option.bind_eq_bind, Option.bind_eq_some_iff] at h
          obtain ⟨e, hStep, hServer⟩ := h
          cases hServer
          exact .run hTop hStep
      | call | completion => cases h

/-- What any step of the server does: one thread's stack and one slot change, nothing else. -/
theorem step_advance (h : s.step (t, choice) = some s') : s.Advance t choice s' := by
  simp only [step] at h
  split at h
  · rename_i hIdle
    exact stepIdle_advance hIdle h
  · rename_i hTop
    exact stepFrame_advance hTop h

/-- A frame at its slot weighs what its place does. -/
theorem frames_weigh (f : SlotPc → Nat) (pcs : List SlotPc) (k : Fin poolSize) :
    (pcs.map (Frame.on k)).map (Frame.weigh f) = pcs.map f := by
  rw [List.map_map]
  rfl

/-- Frames outside the sessions weigh what they accept. -/
theorem weigh_outside (f : SlotPc → Nat) {frames : List (Frame poolSize)}
    (hOutside : ∀ k, frames.filterMap (Frame.pcAt k) = []) :
    frames.map (Frame.weigh f) = frames.map Frame.accepts := by
  apply List.map_congr_left
  intro frame hFrame
  cases frame with
  | on k pc =>
      have hNone := List.filterMap_eq_nil_iff.mp (hOutside k) _ hFrame
      simp [Frame.pcAt] at hNone
  | _ => rfl

/-- At most one frame weighs anything, and it is the accept thread's. -/
def WeighsAlone (f : SlotPc → Nat) (s : Server ioThreads callers poolSize) : Prop :=
  ∀ t, ((s.threads t).map (Frame.weigh f)).sum ≤ if t = .accept then 1 else 0

section Weigh

variable {f : SlotPc → Nat}

/-- Only the accept thread may carry weight, and one at most. -/
theorem WeighsAlone.update {stack : List (Frame poolSize)} (hAlone : s.WeighsAlone f)
    (hThreads : s'.threads = Function.update s.threads t stack)
    (hStack : (stack.map (Frame.weigh f)).sum ≤ if t = .accept then 1 else 0) : s'.WeighsAlone f := by
  intro t'
  rw [hThreads]
  by_cases hEq : t' = t
  · subst hEq
    rwa [Function.update_self]
  · rw [Function.update_of_ne hEq]
    exact hAlone t'

/-- A weight that no step makes from nothing stays with the accept thread. -/
theorem Advance.weighsAlone (h : s.Advance t choice s') (hMeasure : SlotPc.AcceptMeasure f)
    (hAlone : s.WeighsAlone f) : s'.WeighsAlone f := by
  have hStack := hAlone t
  cases h with
  | control top next rest hTop hOutside hAccepts =>
      apply hAlone.update rfl
      rw [hTop, List.map_append, List.sum_append, weigh_outside f fun k => (hOutside k).1] at hStack
      rw [List.map_append, List.sum_append, weigh_outside f fun k => (hOutside k).2]
      rcases hAccepts with ⟨rfl, rfl, hNext⟩ | hNext
      · simpa using hNext
      · omega
  | find k id purpose =>
      apply hAlone.update rfl
      simpa [Frame.weigh, hMeasure.find] using hStack
  | pop hTop hUnused =>
      apply hAlone.update rfl
      simpa [hTop, Frame.weigh, hMeasure.popped] using hStack
  | complete hIdle hTake =>
      apply hAlone.update rfl
      simp [Frame.weigh, hMeasure.completed]
  | run hTop hStep =>
      apply hAlone.update rfl
      have hNext := hMeasure.step hStep
      rw [hTop, List.map_cons, List.sum_cons] at hStack
      rw [List.map_append, List.sum_append, List.map_append, List.sum_append, frames_weigh]
      rename_i e
      cases e.callsHandler
      all_goals
        simp [Frame.weigh] at hStack ⊢
        omega

/-- In a stack without weight no frame has any. -/
theorem weigh_eq_zero {stack : List (Frame poolSize)} {frame : Frame poolSize}
    (hStack : (stack.map (Frame.weigh f)).sum = 0) (hFrame : frame ∈ stack) : frame.weigh f = 0 := by
  induction stack with
  | nil => cases hFrame
  | cons g stack ih =>
      rw [List.map_cons, List.sum_cons, Nat.add_eq_zero_iff] at hStack
      cases hFrame with
      | head => exact hStack.1
      | tail _ hFrame => exact ih hStack.2 hFrame

/-- While the accept thread pops, no other frame weighs anything. -/
theorem WeighsAlone.others_eq_zero (hAlone : s.WeighsAlone f) {rest : List (Frame poolSize)}
    (hTop : s.threads t = .acceptPop :: rest) {frame : Frame poolSize}
    (hFrame : frame ∈ others s.threads t rest) : frame.weigh f = 0 := by
  have hStack := hAlone t
  rw [hTop, List.map_cons, List.sum_cons] at hStack
  have hAccept : t = .accept := by
    by_contra hOther
    simp [Frame.weigh, hOther] at hStack
  subst hAccept
  rcases mem_others.mp hFrame with hRest | ⟨t', hOther, hRest⟩
  · simp only [Frame.weigh, if_true] at hStack
    exact weigh_eq_zero (by omega) hRest
  · have hStack' := hAlone t'
    rw [if_neg hOther] at hStack'
    exact weigh_eq_zero (Nat.le_zero.mp hStack') hRest

end Weigh

/-- At most one frame is in the middle of accepting, and it is the accept
thread's. -/
def AcceptsAlone (s : Server ioThreads callers poolSize) : Prop :=
  ∀ t, ((s.threads t).map Frame.accepts).sum ≤ if t = .accept then 1 else 0

/-- Accepting is such a weight. -/
theorem acceptsAlone_iff : s.AcceptsAlone ↔ s.WeighsAlone SlotPc.accepts := by
  rw [WeighsAlone, Frame.weigh_accepts, AcceptsAlone]

/-- No step of the code accepts unless it was accepting. -/
theorem acceptMeasure_accepts : SlotPc.AcceptMeasure SlotPc.accepts where
  find _ _ := rfl
  completed _ _ := rfl
  popped := rfl
  step := SlotPc.step_accepts

/-- The accept thread is the only one that ever accepts. -/
theorem Advance.acceptsAlone (h : s.Advance t choice s') (hAlone : s.AcceptsAlone) :
    s'.AcceptsAlone :=
  acceptsAlone_iff.mpr (h.weighsAlone acceptMeasure_accepts (acceptsAlone_iff.mp hAlone))

section View

/-- The view of a slot, told apart into one thread's frames and the others'. -/
theorem view_eq (k : Fin poolSize) (top rest : List (Frame poolSize)) (hTop : s.threads t = top ++ rest) :
    s.view k = ⟨s.slots k, s.unusedSession.count k, eventsOf k s.history,
      top.filterMap (Frame.pcAt k) + (others s.threads t rest).filterMap (Frame.pcAt k)⟩ := by
  rw [view, frames_eq hTop, Multiset.filterMap_add]
  rfl

/-- The same after that thread has moved. -/
theorem view_update (k : Fin poolSize) (next rest : List (Frame poolSize))
    (hThreads : s'.threads = Function.update s.threads t (next ++ rest)) :
    s'.view k = ⟨s'.slots k, s'.unusedSession.count k, eventsOf k s'.history,
      next.filterMap (Frame.pcAt k) + (others s.threads t rest).filterMap (Frame.pcAt k)⟩ := by
  rw [view, hThreads, frames_update, Multiset.filterMap_add]
  rfl

/-- While the accept thread pops, no other place at a session weighs anything. -/
theorem WeighsAlone.pcs_eq_zero {f : SlotPc → Nat} (hAlone : s.WeighsAlone f)
    {rest : List (Frame poolSize)} (hTop : s.threads t = .acceptPop :: rest) (k : Fin poolSize) :
    (((others s.threads t rest).filterMap (Frame.pcAt k)).map f).sum = 0 := by
  apply sum_map_eq_zero
  intro pc hPc
  obtain ⟨frame, hFrame, hAt⟩ := (Multiset.mem_filterMap _ _).mp hPc
  rw [Frame.pcAt_eq_some.mp hAt] at hFrame
  exact hAlone.others_eq_zero hTop hFrame

/-- A place is in a slot's view if some thread is there. -/
theorem mem_view_pcs {k : Fin poolSize} {pc : SlotPc} :
    pc ∈ (s.view k).pcs ↔ ∃ t, .on k pc ∈ s.threads t := by
  simp only [view, Multiset.mem_filterMap, mem_frames, Frame.pcAt_eq_some]
  constructor
  · rintro ⟨f, ⟨t, hFrame⟩, rfl⟩
    exact ⟨t, hFrame⟩
  · rintro ⟨t, hFrame⟩
    exact ⟨_, ⟨t, hFrame⟩, rfl⟩

/-- A measure that is one in some places and zero in the others counts frames. -/
theorem total_eq_zero_iff {k : Fin poolSize} {f : Act → Nat} {p : SlotPc → Bool}
    (h : ∀ pc : SlotPc, (pc.acts.map f).sum = if p pc then 1 else 0) :
    (s.view k).life.total f = 0 ↔ ∀ t pc, .on k pc ∈ s.threads t → p pc = false := by
  rw [(s.view k).total_eq h, ← countP_eq_sum (fun pc => p pc = true), Multiset.countP_eq_zero]
  simp only [mem_view_pcs, Bool.not_eq_true]
  constructor
  · intro hNone t pc hFrame
    exact hNone pc ⟨t, hFrame⟩
  · rintro hNone pc ⟨t, hFrame⟩
    exact hNone t pc hFrame

section Apply

variable {k j : Fin poolSize} {rest : List (Frame poolSize)} {pc : SlotPc} {env : Env} {e : Effect}

/-- What an effect adds to a stack is seen by its own slot only; the handler's frame by none. -/
theorem filterMap_apply (k j : Fin poolSize) (e : Effect) :
    ((if e.callsHandler then [Frame.handler] else []) ++ e.next.map (Frame.on j)).filterMap
      (Frame.pcAt k) = if j = k then e.next else [] := by
  rw [List.filterMap_append, filterMap_pcAt]
  split <;> rfl

/-- A step at a session, in the view of the session. -/
theorem slotStep_apply (hTop : s.threads t = .on k pc :: rest)
    (hStep : pc.step (s.slots k) env = some e) :
    SlotStep (s.view k) (.run pc env) ((s.apply t rest k e).view k) := by
  have hLog := eventsOf_append k k s.history e.event.toList
  rw [if_pos rfl] at hLog
  have hUnused : (if e.pushed then k :: s.unusedSession else s.unusedSession).count k =
      s.unusedSession.count k + if e.pushed then 1 else 0 := by
    split <;> simp
  rw [view_eq k [_] rest hTop,
    view_update k _ rest (show (s.apply t rest k e).threads = _ from rfl), filterMap_apply]
  simp only [apply, List.filterMap, Frame.pcAt, if_true, Multiset.coe_singleton,
    Multiset.singleton_add, Function.update_self]
  rw [hLog, hUnused]
  exact .run rfl hStep

/-- The views of the other sessions stay. -/
theorem view_apply_of_ne (hTop : s.threads t = .on k pc :: rest) (hj : k ≠ j) :
    (s.apply t rest k e).view j = s.view j := by
  have hLog := eventsOf_append j k s.history e.event.toList
  rw [if_neg hj] at hLog
  have hUnused : (if e.pushed then k :: s.unusedSession else s.unusedSession).count j =
      s.unusedSession.count j := by
    split
    · exact List.count_cons_of_ne hj
    · rfl
  rw [view_eq j [_] rest hTop,
    view_update j _ rest (show (s.apply t rest k e).threads = _ from rfl), filterMap_apply]
  simp only [apply, List.filterMap, Frame.pcAt, if_neg hj, Function.update_of_ne (Ne.symm hj)]
  rw [hLog, hUnused]

end Apply

/-- In the view of a session, a step of the server is a step of its own. -/
theorem Advance.view (h : s.Advance t choice s') (hAlone : s.AcceptsAlone) (k : Fin poolSize) :
    ∃ b, SlotStep (s.view k) b (s'.view k) ∧
      (∀ pc env, b = .run pc env → choice = .env env ∧ ∃ rest, s.threads t = .on k pc :: rest) ∧
      (b = .pop → ∃ rest, s.threads t = .acceptPop :: rest) := by
  cases h with
  | control top next rest hTop hOutside hAccepts =>
      rw [view_eq k top rest hTop, view_update k next rest rfl, (hOutside k).1, (hOutside k).2]
      exact ⟨.stay, .stay, nofun, nofun⟩
  | find j id purpose =>
      rw [view_eq k [] (s.threads t) rfl, view_update k [_] (s.threads t) rfl]
      by_cases hj : j = k
      · subst hj
        simp only [List.filterMap, Frame.pcAt, if_true, Multiset.coe_nil,
          Multiset.coe_singleton, zero_add, Multiset.singleton_add]
        exact ⟨.find id purpose, .find, nofun, nofun⟩
      · simp only [List.filterMap, Frame.pcAt, if_neg hj]
        exact ⟨.stay, .stay, nofun, nofun⟩
  | pop hTop hUnused =>
      rename_i rest j unusedSession
      have hLog := eventsOf_append k j s.history [.popped]
      rw [view_eq k [_] rest hTop, view_update k [_] rest rfl, hUnused]
      by_cases hj : j = k
      · subst hj
        rw [if_pos rfl] at hLog
        simp only [List.filterMap, Frame.pcAt, if_true, Multiset.coe_nil,
          Multiset.coe_singleton, zero_add, Multiset.singleton_add, List.count_cons_self]
        have hRest := (acceptsAlone_iff.mp hAlone).pcs_eq_zero hTop j
        exact ⟨.pop, hLog ▸ .pop rfl hRest, nofun, fun _ => ⟨rest, hTop⟩⟩
      · rw [if_neg hj] at hLog
        simp only [List.filterMap, Frame.pcAt, if_neg hj, List.count_cons_of_ne hj]
        exact ⟨.stay, hLog ▸ .stay, nofun, nofun⟩
  | complete hIdle hTake =>
      rename_i j kind outcome slot
      rw [view_eq k [] [] hIdle, view_update k [_] [] rfl]
      by_cases hj : j = k
      · subst hj
        simp only [List.filterMap, Frame.pcAt, if_true, Multiset.coe_nil,
          Multiset.coe_singleton, zero_add, Multiset.singleton_add, Function.update_self]
        exact ⟨.complete kind outcome, .complete hTake, nofun, nofun⟩
      · simp only [List.filterMap, Frame.pcAt, if_neg hj, Function.update_of_ne (Ne.symm hj)]
        exact ⟨.stay, .stay, nofun, nofun⟩
  | run hTop hStep =>
      rename_i env rest j pc e
      by_cases hj : j = k
      · subst hj
        refine ⟨.run pc env, slotStep_apply hTop hStep, ?_, nofun⟩
        intro pc env h
        cases h
        exact ⟨rfl, rest, hTop⟩
      · rw [view_apply_of_ne hTop hj]
        exact ⟨.stay, .stay, nofun, nofun⟩

/-- A step of the server runs a step at a session, or it leaves the sessions as
they are and at most starts a thread there. -/
theorem Advance.runs_or_starts (h : s.Advance t choice s') :
    (∃ env rest k pc e, choice = .env env ∧ s.threads t = .on k pc :: rest ∧
      pc.step (s.slots k) env = some e ∧ s' = s.apply t rest k e) ∨
    (s'.refCount = s.refCount ∧ ∀ k, (s'.slots k).session = (s.slots k).session ∧
      ∃ extra : Multiset SlotPc, (∀ pc ∈ extra, pc.starts = true) ∧
        (s'.view k).pcs = extra + (s.view k).pcs) := by
  cases h with
  | control top next rest hTop hOutside hAccepts =>
      refine .inr ⟨rfl, fun k => ⟨rfl, 0, fun _ hMem => absurd hMem (Multiset.notMem_zero _), ?_⟩⟩
      rw [view_eq k top rest hTop, view_update k next rest rfl, (hOutside k).1, (hOutside k).2]
      simp
  | find j id purpose =>
      refine .inr ⟨rfl, fun k => ⟨rfl, ([.on j (.findId id purpose)].filterMap (Frame.pcAt k) :), ?_, ?_⟩⟩
      · intro pc hMem
        simp [Frame.pcAt] at hMem
        rw [← hMem.2]
        rfl
      · rw [view_eq k [] (s.threads t) rfl, view_update k [_] (s.threads t) rfl]
        simp
  | pop hTop hUnused =>
      rename_i rest j unusedSession
      refine .inr ⟨rfl, fun k => ⟨rfl, ([.on j (.init .checkReleased)].filterMap (Frame.pcAt k) :), ?_, ?_⟩⟩
      · intro pc hMem
        simp [Frame.pcAt] at hMem
        rw [← hMem.2]
        rfl
      · rw [view_eq k [_] rest hTop, view_update k [_] rest rfl]
        simp [Frame.pcAt]
  | complete hIdle hTake =>
      rename_i j kind outcome slot
      refine .inr ⟨rfl, fun k => ⟨?_, ([.on j (.completed kind outcome)].filterMap (Frame.pcAt k) :), ?_, ?_⟩⟩
      · by_cases hk : k = j
        · subst hk
          simp only [Function.update_self]
          exact Slot.takeCompletion_session hTake
        · simp only [Function.update_of_ne hk]
      · intro pc hMem
        simp [Frame.pcAt] at hMem
        rw [← hMem.2]
        rfl
      · rw [view_eq k [] [] hIdle, view_update k [_] [] rfl]
        simp
  | run hTop hStep => exact .inl ⟨_, _, _, _, _, rfl, hTop, hStep, rfl⟩

end View

section Runs

variable {Guard : Server ioThreads callers poolSize → Thread ioThreads callers × Choice poolSize →
  Prop}

/-- Each slot of the fresh server looks like the fresh slot. -/
theorem start_view (ioThreads callers : Nat) (k : Fin poolSize) :
    (start ioThreads callers poolSize).view k = SlotView.start k := by
  have hFrames : frames (start ioThreads callers poolSize).threads = 0 := by
    simp [frames, start]
  rw [view, hFrames]
  simp [SlotView.start, start, eventsOf, List.count_eq_one_of_mem (List.nodup_finRange _)]

/-- In every run, under any guard, one accept is under way at most. -/
theorem Reached.acceptsAlone (h : Reached Guard s) : s.AcceptsAlone := by
  apply h.invariant
  · intro t
    exact Nat.zero_le _
  · intro s s' a _ hAlone _ hStep
    exact (step_advance hStep).acceptsAlone hAlone

/-- A run of the server is, for every session, a run of its own. -/
theorem Reached.view (k : Fin poolSize) (Allowed : SlotView → SlotPc → Env → Prop)
    (hAllowed : ∀ {s t env pc rest}, Reached Guard s → Guard s (t, .env env) →
      s.threads t = .on k pc :: rest → Allowed (s.view k) pc env)
    (h : Reached Guard s) :
    Reachable SlotStep (SlotAction.Meets Allowed) (SlotView.start k) (s.view k) := by
  rw [← start_view ioThreads callers k]
  refine h.simulate (fun s => s.view k) ?_
  intro s s' ⟨t, choice⟩ hReached hGuard hStep
  obtain ⟨b, hSlotStep, hRun, _⟩ := (step_advance hStep).view (Reached.acceptsAlone hReached) k
  refine ⟨b, ?_, hSlotStep⟩
  cases b with
  | run pc env =>
      obtain ⟨rfl, rest, hTop⟩ := hRun pc env rfl
      exact hAllowed hReached hGuard hTop
  | _ => trivial

/-- A run of the server is, for every session, a run of the abstract machine. -/
theorem Reached.life (k : Fin poolSize) (Allowed : Life → Label → Prop)
    (hQuiet : ∀ v, Allowed v .quiet)
    (hAllowed : ∀ {s t env pc rest}, Reached Guard s → Guard s (t, .env env) →
      s.threads t = .on k pc :: rest → Allowed (s.view k).life (pc.label (s.slots k)))
    (h : Reached Guard s) : Reachable LifeStep Allowed Life.start (s.view k).life :=
  SlotView.reachable_life hQuiet (fun h => h)
    (Reached.view k (fun v pc _ => Allowed v.life (pc.label v.slot)) hAllowed h)

/-- The life of every slot is sound in every run of the server. -/
theorem Reached.sound (k : Fin poolSize) (h : Reached Guard s) : (s.view k).life.Sound :=
  Life.sound_of_reachable
    (Reached.life k (fun _ _ => True) (fun _ => trivial) (fun _ _ _ => trivial) h)

/-- Where all threads but one are outside, every frame is that thread's. -/
theorem eq_of_alone {f f' : Frame poolSize} {t' : Thread ioThreads callers}
    (hTop : s.threads t = [f]) (hOthers : ∀ t', t' ≠ t → s.threads t' = [])
    (hFrame : f' ∈ s.threads t') : f' = f := by
  by_cases ht : t' = t
  · rw [ht, hTop] at hFrame
    exact List.mem_singleton.mp hFrame
  · rw [hOthers t' ht] at hFrame
    cases hFrame

/-- A test that most guards follow from: a session is published while no other
frame is anywhere. -/
def publishesAlone (s : Server ioThreads callers poolSize)
    (a : Thread ioThreads callers × Choice poolSize) : Bool :=
  match s.threads a.1 with
  | .on _ (.init .publish) :: rest => decide (rest = [] ∧ ∀ t, t ≠ a.1 → s.threads t = [])
  | _ => true

/-- At an `Init` that publishes alone there is no other frame in the server. -/
theorem eq_of_publishesAlone {a : Thread ioThreads callers × Choice poolSize} {k : Fin poolSize}
    {rest : List (Frame poolSize)} (h : publishesAlone s a = true)
    (hTop : s.threads a.1 = .on k (.init .publish) :: rest) {t : Thread ioThreads callers}
    {f : Frame poolSize} (hFrame : f ∈ s.threads t) : f = .on k (.init .publish) := by
  rw [publishesAlone, hTop] at h
  obtain ⟨rfl, hOthers⟩ := of_decide_eq_true h
  exact eq_of_alone hTop hOthers hFrame

end Runs

end Server

end NfNetwork.Net
