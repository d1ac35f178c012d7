import NfNetwork.Lan.Server

/-! What one step of the LAN server can be. -/
namespace NfNetwork.Lan

open Machinery

variable {ioThreads callers poolSize : Nat}

/-- A frame that works on no session and holds no index. -/
def Frame.plain : Frame poolSize → Bool
  | .handler | .acceptDecide | .tryPop | .acceptEnded => true
  | .nextUid _ | .checkUid _ _ | .on _ _ => false

/-- A weight for the places at one slot, as a weight for frames. -/
def Frame.weighs (k : Fin poolSize) (w : SlotPc → Nat) : Frame poolSize → Nat
  | .on k' pc => if k' = k then w pc else 0
  | _ => 0

theorem Frame.weighs_of_plain {k : Fin poolSize} {w : SlotPc → Nat} {f : Frame poolSize}
    (h : f.plain = true) : f.weighs k w = 0 := by
  cases f with
  | on | nextUid | checkUid => cases h
  | _ => rfl

/-- The places at slot `k'` weigh at `k'` only. -/
theorem Frame.sum_weighs_on (k k' : Fin poolSize) (w : SlotPc → Nat) (pcs : List SlotPc) :
    ((pcs.map (Frame.on k')).map (Frame.weighs k w)).sum = if k' = k then (pcs.map w).sum else 0 := by
  rw [List.map_map]
  split
  · apply congrArg List.sum
    apply List.map_congr_left
    intro pc _
    simp [Frame.weighs, *]
  · apply sum_map_zero
    intro pc _
    simp [Frame.weighs, *]

namespace Server

theorem sum_weighs_effectFrames (k k' : Fin poolSize) (w : SlotPc → Nat) (e : Effect) :
    ((effectFrames k' e).map (Frame.weighs k w)).sum =
      if k' = k then (e.next.map w).sum else 0 := by
  have hHandler : ((if e.callsHandler then [Frame.handler] else []).map (Frame.weighs k w)).sum = 0 := by
    split <;> rfl
  rw [effectFrames, List.map_append, List.sum_append, hHandler, Nat.zero_add, Frame.sum_weighs_on]

variable {s s' : Server ioThreads callers poolSize} {t : Thread ioThreads callers}
  {choice : Choice poolSize}

inductive Advance (s : Server ioThreads callers poolSize) (t : Thread ioThreads callers) :
    Server ioThreads callers poolSize → Prop where
  | plain (top next : List (Frame poolSize)) {rest : List (Frame poolSize)}
      (hTop : s.threads t = top ++ rest) (hPlain : ∀ f ∈ top ++ next, f.plain = true) :
      Advance s t (s.setThread t (next ++ rest))
  | called {id : Nat} {purpose : Purpose} (h : LanSession.sessionIndex id < poolSize) :
      Advance s t (s.setThread t (.on ⟨_, h⟩ (purpose.entry id) :: s.threads t))
  | completed {k : Fin poolSize} {op : OpKind × Nat} {outcome : Outcome} (hIdle : s.threads t = [])
      (hMem : op ∈ (s.slots k).pending) :
      Advance s t { s.setThread t [.on k (.completed op.1 outcome)] with
        slots := Function.update s.slots k
          { s.slots k with pending := (s.slots k).pending.erase op } }
  | popped {rest : List (Frame poolSize)} (hTop : s.threads t = .tryPop :: rest)
      (h : s.popIndex < poolSize) :
      Advance s t { s.setThread t (.nextUid ⟨_, h⟩ :: rest) with
        unusedSessionIndexes := s.unusedSessionIndexes.tail
        history := s.history ++ [(⟨_, h⟩, .popped)] }
  | counted {index : Fin poolSize} {rest : List (Frame poolSize)} {uid sessionUidAcc : Nat}
      (hTop : s.threads t = .nextUid index :: rest) :
      Advance s t { s.setThread t (.checkUid index uid :: rest) with sessionUidAcc := sessionUidAcc }
  | refused {index : Fin poolSize} {uid : Nat} {rest : List (Frame poolSize)}
      (hTop : s.threads t = .checkUid index uid :: rest) :
      Advance s t (s.setThread t (.nextUid index :: rest))
  | chosen {index : Fin poolSize} {uid : Nat} {rest : List (Frame poolSize)}
      (hTop : s.threads t = .checkUid index uid :: rest)
      (h : LanSession.sessionIndex (LanSession.genSessionId index uid) < poolSize) :
      Advance s t (s.setThread t
        ((initSteps (LanSession.genSessionId index uid)).map (.on ⟨_, h⟩) ++ rest))
  | ran {k : Fin poolSize} {pc : SlotPc} {rest : List (Frame poolSize)} {env : Env} {e : Effect}
      (hTop : s.threads t = .on k pc :: rest) (hStep : pc.step (s.slots k) env = some e) :
      Advance s t (s.apply t rest k e)

theorem call_advance {id : Nat} {purpose : Purpose} (h : s.call t id purpose (s.threads t) = some s') :
    s.Advance t s' := by
  unfold call at h
  split at h
  · cases h
    exact .called _
  · cases h

theorem stepIdle_advance (hIdle : s.threads t = []) (h : s.stepIdle t choice = some s') :
    s.Advance t s' := by
  unfold stepIdle at h
  split at h
  · cases h
    exact .plain [] [_, _] hIdle (by simp [Frame.plain])
  · cases h
    exact .plain [] [_] hIdle (by simp [Frame.plain])
  · split at h
    · cases h
      exact .completed hIdle ‹_›
    · cases h
  · cases h
    exact .plain [] [_] hIdle (by simp [Frame.plain])
  · exact call_advance (hIdle ▸ h)
  · cases h

theorem stepFrame_advance {frame : Frame poolSize} {rest : List (Frame poolSize)}
    (hTop : s.threads t = frame :: rest) (h : s.stepFrame t rest frame choice = some s') :
    s.Advance t s' := by
  unfold stepFrame at h
  split at h
  · exact call_advance (hTop ▸ h)
  · cases h
    exact .plain [_] [] hTop (by simp [Frame.plain])
  · cases h
    exact .plain [_] [_] hTop (by simp [Frame.plain])
  · cases h
    exact .plain [_] [] hTop (by simp [Frame.plain])
  · split at h
    · cases h
      exact .popped hTop _
    · cases h
  · cases h
    exact .counted hTop
  · split at h
    · dsimp only at h
      split at h
      · cases h
        exact .chosen hTop _
      · cases h
    · cases h
      exact .refused hTop
  · simp only [Option.bind_eq_bind, Option.bind_eq_some_iff, Option.some.injEq] at h
    obtain ⟨e, hStep, rfl⟩ := h
    exact .ran hTop hStep
  · cases h

theorem step_advance (h : s.step (t, choice) = some s') : s.Advance t s' := by
  unfold step at h
  split at h
  · exact stepIdle_advance ‹_› h
  · exact stepFrame_advance ‹_› h

end Server

end NfNetwork.Lan
