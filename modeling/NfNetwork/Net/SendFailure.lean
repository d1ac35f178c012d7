import NfNetwork.Net.SendQueue

/-! The sending flag of a session that is open stays at 2 after a send that failed, and nobody sends
on the session any more. While no send fails that way, a flag at 2 has a holder. -/
namespace NfNetwork.Net

open Machinery

/-- A send that is lost, unless its completion timed out: then the session is closed next. -/
def SlotPc.losesFlag (slot : Slot) (env : Env) (pc : SlotPc) : Prop :=
  pc.sendLabel slot env = .loses ∧ pc ≠ .completed .send (.failed true)

namespace SlotView

variable {index : Nat} {v v' : SlotView} {Allowed : SlotView → SlotPc → Env → Prop}

/-- A flag at 2 of an open session has a holder, or the session is about to be closed. -/
def HoldsFlag (v : SlotView) : Prop :=
  v.sending.core.Active → v.sending.core.isSending = 2 → .cancelTimedOut ∉ v.pcs →
    v.sending.core.pending + v.sending.total SendAct.posted ≠ 0

theorem cancelTimedOut_of_step {a : SlotAction} (hStep : SlotStep v a v')
    (hMem : .cancelTimedOut ∈ v.pcs) :
    .cancelTimedOut ∈ v'.pcs ∨ v'.sending.core.closed = true := by
  cases hStep with
  | stay => exact .inl hMem
  | find | pop | complete => exact .inl (Multiset.mem_cons_of_mem hMem)
  | @run pc env e others hPcs hStep =>
      rw [hPcs, Multiset.mem_cons] at hMem
      rcases hMem with rfl | hMem
      · cases hStep
        exact .inr rfl
      · exact .inl (Multiset.mem_add.mpr (.inr hMem))

theorem HoldsFlag.step {a : SlotAction} (h : v.HoldsFlag) (hLocked : v.sending.Locked)
    (hExcludes : v.sending.Excludes) (hStep : SlotStep v a v')
    (hKeeps : ∀ pc env, a = .run pc env → pc.losesFlag v.slot env → ¬ v.sending.core.Active) :
    v'.HoldsFlag := by
  intro hActive hTwo hNone
  have hNoneBefore : .cancelTimedOut ∉ v.pcs := by
    intro hMem
    rcases cancelTimedOut_of_step hStep hMem with hKept | hClosed
    · exact hNone hKept
    · rw [hActive.2] at hClosed
      cases hClosed
  refine hLocked.step_held hExcludes (fun hActive hTwo => h hActive hTwo hNoneBefore) ?_ hStep.sending
    hActive hTwo
  intro hLoses hBefore
  cases a with
  | run pc env =>
      by_cases hTimedOut : pc = .completed .send (.failed true)
      · -- The step that dispatches the completion leaves the thread at `cancelTimedOut`.
        subst hTimedOut
        cases hStep with
        | run hPcs hStep =>
            cases hStep
            refine hNone (Multiset.mem_add.mpr (.inl ?_))
            have hLive : v.slot.session.isReleased = false := hBefore.1
            simp [hLive]
      · exact hKeeps pc env rfl ⟨hLoses, hTimedOut⟩ hBefore
  | _ => cases hLoses

end SlotView

namespace Server

variable {ioThreads callers poolSize : Nat} {s : Server ioThreads callers poolSize}

/-- On a session that is live and not being closed `WSASend` does not fail, and a send completes or
fails with a timeout, which closes the session. -/
structure SendsOrCloses (s : Server ioThreads callers poolSize)
    (a : Thread ioThreads callers × Choice poolSize) : Prop where
  post : ∀ k caller batch rest, s.threads a.1 = .on k (.sendPost caller (.wsaSend batch)) :: rest →
    (s.slots k).session.isReleased = false → (s.slots k).session.isCloseSocket = false →
      a.2 = .env .ok
  complete : ∀ k outcome rest, s.threads a.1 = .on k (.completed .send outcome) :: rest →
    (s.slots k).session.isReleased = false → (s.slots k).session.isCloseSocket = false →
      outcome = .failed true ∨ ∃ transferred, transferred ≠ 0 ∧ outcome = .succeeded transferred

theorem SendsOrCloses.keeps {t : Thread ioThreads callers} {env : Env} {k : Fin poolSize}
    {pc : SlotPc} {rest : List (Frame poolSize)} (h : SendsOrCloses s (t, .env env))
    (hTop : s.threads t = .on k pc :: rest) (hLoses : pc.losesFlag (s.slots k) env) :
    ¬ (s.view k).sending.core.Active := by
  rintro ⟨hLive, hOpen⟩
  obtain ⟨hLabel, hTimedOut⟩ := hLoses
  rcases SlotPc.sendLabel_loses hLabel with ⟨caller, batch, rfl, hFail⟩ | ⟨outcome, rfl, hFail⟩
  · cases h.post k caller batch rest hTop hLive hOpen
    exact hFail rfl
  · rcases h.complete k outcome rest hTop hLive hOpen with rfl | ⟨transferred, hSome, rfl⟩
    · exact hTimedOut rfl
    · exact hFail transferred hSome rfl

end Server

end NfNetwork.Net
