import NfNetwork.Net.ServerView

/-! `IOCountAtomic`. It counts the posted operations and the threads inside an
`IncrementIO`, except that a successful completion which finds the session
released is dropped with its count. -/
namespace NfNetwork.Net

open Machinery

/-- A row that drops no completion changes the count by the operations that it
posts or completes and by the acts that it takes or leaves. -/
theorem Row.surplus {c c' : Core} {pre post : List Act} {label : Label}
    (h : Row c pre label c' post) (hKept : label ≠ .drop) :
    c'.ioCount - c'.pending - (post.map Act.holds).sum =
      c.ioCount - c.pending - (pre.map Act.holds).sum := by
  cases h
  case drop => exact absurd rfl hKept
  case forget a hHolds =>
    have hOne : Act.counted.holds = 1 := rfl
    simp [hHolds, hOne]
  all_goals simp [Act.holds]
  all_goals omega

namespace Life

/-- The count is exact. -/
def Exact (v : Life) : Prop := (v.core.pending : Int) + v.total Act.holds = v.core.ioCount

variable {v v' : Life} {label : Label}

section Steps

attribute [local simp] Population.total

theorem Exact.step (h : v.Exact) (hKept : label ≠ .drop) (hStep : LifeStep v label v') :
    v'.Exact := by
  unfold Exact at h ⊢
  cases hStep with
  | row hActs hRow =>
      have hSurplus := hRow.surplus hKept
      rw [total_of_acts hActs] at h
      rw [total_of_acts rfl]
      simp only
      omega
  | pop hUnused hAlone => simpa [Act.holds] using h

theorem counts_of_reachable (h : Reachable LifeStep (fun _ label => label ≠ .drop) Life.start v) :
    v.Exact := by
  apply h.invariant
  · rfl
  · intro v v' label _ hExact hKept hStep
    exact hExact.step hKept hStep

end Steps

end Life

/-- The counts that a place holds: one for the operation whose completion is
being handled, and one for every `IncrementIO` whose `DecrementIO` is to come. -/
def SlotPc.holds : SlotPc → Nat
  | .acquireCheckId _ _ | .acquireCheckReleased _ _ => 1
  | .enqueueClosed _ _ | .enqueueReleased _ _ | .addRef _ _ | .enqueue _ _ | .disconnect _ => 1
  | .sendPost _ pc => if pc.armed then 2 else 1
  | .returned _ | .decrement => 1
  | .recvPost .ioThread pc => if pc.armed then 2 else 1
  | .recvPost .acceptThread pc => if pc.armed then 1 else 0
  | .finishSending .ioThread _ => 1
  | .completed _ _ | .cancelTimedOut | .checkClosed _ | .sentReadId | .sent _ => 1
  | .recvLoop | .receivedReadId | .received _ | .recvCancel => 1
  | _ => 0

theorem SlotPc.acts_holds (pc : SlotPc) : (pc.acts.map Act.holds).sum = pc.holds := by
  cases pc
  case sendPost caller pc =>
    cases caller <;> cases h : pc.armed <;> simp [acts, h, SendCaller.act, holds, Act.holds]
  case recvPost caller pc =>
    cases caller <;> cases h : pc.armed <;> simp [acts, h, holds, Act.holds]
  case release id pc => cases id <;> cases pc <;> rfl
  case finishSending caller pc => cases caller <;> rfl
  case returned caller => cases caller <;> rfl
  all_goals rfl

/-- So does every step of the code at a session. -/
theorem SlotPc.step_surplus {slot : Slot} {env : Env} {pc : SlotPc} {e : Effect}
    (h : pc.step slot env = some e) (hKept : pc.label slot ≠ .drop) :
    e.slot.session.ioCount - (e.slot.pendingRecv + e.slot.pendingSend : Nat) -
        (e.next.map SlotPc.holds).sum =
      slot.session.ioCount - (slot.pendingRecv + slot.pendingSend : Nat) - pc.holds := by
  obtain ⟨pre, post, tail, hPre, hPost, hRow⟩ := SlotPc.step_moves 0 [] h
  have hSurplus := hRow.surplus hKept
  have hNow : pc.holds = (pre.map Act.holds).sum + (tail.map Act.holds).sum := by
    rw [← SlotPc.acts_holds, hPre, List.map_append, List.sum_append]
  have hNext : (e.next.map SlotPc.holds).sum =
      (post.map Act.holds).sum + (tail.map Act.holds).sum := by
    rw [← List.sum_append, ← List.map_append, ← hPost, Effect.acts, List.flatMap, List.map_flatten,
      List.sum_flatten, List.map_map, List.map_map]
    exact congrArg List.sum (List.map_congr_left fun pc _ => pc.acts_holds.symm)
  simp only [Slot.core, Effect.core] at hSurplus
  omega

namespace Server

variable {ioThreads callers poolSize : Nat} {s : Server ioThreads callers poolSize}

/-- Every count stands for a posted operation or for a thread that will give it
back, no thread was stopped by a `logic_error`, and a session with nothing
outstanding has a count of zero. -/
structure CountsExactly (s : Server ioThreads callers poolSize) : Prop where
  exact : ∀ k, (s.slots k).session.ioCount =
    ((s.slots k).pendingRecv + (s.slots k).pendingSend + ((s.view k).pcs.map SlotPc.holds).sum : Nat)
  nonnegative : ∀ k, 0 ≤ (s.slots k).session.ioCount
  calm : ∀ t k, .on k .threw ∉ s.threads t
  idle : ∀ k, (s.slots k).pendingRecv = 0 → (s.slots k).pendingSend = 0 →
    (∀ t pc, .on k pc ∈ s.threads t → pc.holds = 0) → (s.slots k).session.ioCount = 0

/-- No successful completion is taken up while the session is released. -/
def NoDrop (s : Server ioThreads callers poolSize)
    (a : Thread ioThreads callers × Choice poolSize) : Prop :=
  ∀ k kind transferred rest, s.threads a.1 = .on k (.completed kind (.succeeded transferred)) :: rest →
    (s.slots k).session.isReleased = false

theorem calm_of_reached
    {Guard : Server ioThreads callers poolSize → Thread ioThreads callers × Choice poolSize → Prop}
    (h : Reached Guard s) (t : Thread ioThreads callers) (k : Fin poolSize) :
    .on k .threw ∉ s.threads t := by
  intro hFrame
  have hThrew : .threw ∈ (s.view k).life.acts :=
    SlotView.mem_life_acts.mpr ⟨.threw, mem_view_pcs.mpr ⟨t, hFrame⟩, List.mem_singleton.mpr rfl⟩
  have hLe : Act.threw.throws ≤ (s.view k).life.total Act.throws := le_total_of_mem hThrew
  rw [(Reached.sound k h).calm] at hLe
  exact absurd hLe (by decide)

theorem NoDrop.label_ne_drop {t : Thread ioThreads callers} {env : Env} {k : Fin poolSize}
    {pc : SlotPc} {rest : List (Frame poolSize)} (h : NoDrop s (t, .env env))
    (hTop : s.threads t = .on k pc :: rest) : pc.label (s.slots k) ≠ .drop := by
  intro hLabel
  obtain ⟨hReleased, kind, transferred, rfl⟩ := SlotPc.label_drop hLabel
  rw [h k kind transferred rest hTop] at hReleased
  cases hReleased

/-- The accounting is exact in every run that drops no completion. -/
theorem countsExactly_of_noDrop (h : Reached NoDrop s) : s.CountsExactly := by
  have hExact : ∀ k, (s.slots k).session.ioCount =
      ((s.slots k).pendingRecv + (s.slots k).pendingSend +
        ((s.view k).pcs.map SlotPc.holds).sum : Nat) := by
    intro k
    have hReached := Reached.life k (fun _ label => label ≠ .drop) (fun _ => nofun)
      (fun _ hGuard hTop => NoDrop.label_ne_drop hGuard hTop) h
    have hLife := Life.counts_of_reachable hReached
    rw [Life.Exact, (s.view k).total_eq SlotPc.acts_holds] at hLife
    exact hLife.symm
  refine ⟨hExact, ?_, calm_of_reached h, ?_⟩
  · intro k
    rw [hExact k]
    exact Int.natCast_nonneg _
  · intro k hRecv hSend hHolds
    have hNone : ((s.view k).pcs.map SlotPc.holds).sum = 0 := by
      apply sum_map_eq_zero
      intro pc hPc
      obtain ⟨t, hFrame⟩ := mem_view_pcs.mp hPc
      exact hHolds t pc hFrame
    rw [hExact k, hRecv, hSend, hNone]
    rfl

/-- A test for the guard: only live sessions see successful completions. -/
def keepsCompletions (s : Server 1 2 1) (a : Thread 1 2 × Choice 1) : Bool :=
  match s.threads a.1 with
  | .on 0 (.completed _ (.succeeded _)) :: _ => !(s.slots 0).session.isReleased
  | _ => true

theorem noDrop_of_keepsCompletions {s : Server 1 2 1} {a : Thread 1 2 × Choice 1}
    (h : keepsCompletions s a = true) : NoDrop s a := by
  intro k kind transferred rest hTop
  obtain rfl := Subsingleton.elim k 0
  rw [keepsCompletions, hTop] at h
  simpa using h

/-- A connection, a packet sent on it, and the client's goodbye. -/
def goodbyeRun : List (Thread 1 2 × Choice 1) :=
  goes .accept 24 ++ (.caller 0, .call 1 (.sendPacket 7)) :: goes (.caller 0) 25 ++
    (.io 0, .completion 0 .recv (.succeeded 0)) :: goes (.io 0) 2

theorem countsExactly_of_noDrop_goodbye :
    ∃ s : Server 1 2 1, (s.slots 0).pendingSend = 1 ∧ (s.slots 0).session.ioCount = 1 ∧
      s.CountsExactly := by
  have hRun : (exec (checked keepsCompletions step) (start 1 2 1) goodbyeRun).map
      (fun s => decide ((s.slots 0).pendingSend = 1 ∧ (s.slots 0).session.ioCount = 1)) =
        some true := by
    decide +kernel
  obtain ⟨s, hExec, hCounts⟩ := Option.map_eq_some_iff.mp hRun
  obtain ⟨hPending, hCount⟩ := of_decide_eq_true hCounts
  exact ⟨s, hPending, hCount,
    countsExactly_of_noDrop (reachable_of_checked noDrop_of_keepsCompletions hExec)⟩

/-- A caller releases the session before its first receive is counted; the
receive is posted all the same, and its completion keeps its count for ever. -/
def dropRun : List (Thread 1 2 × Choice 1) :=
  goes .accept 18 ++ (.caller 0, .call 1 .disconnect) :: goes (.caller 0) 8 ++
    goes .accept 6 ++ (.io 0, .completion 0 .recv (.succeeded 5)) :: goes (.io 0) 1 ++
    goes (.caller 0) 13

theorem countsExactly_fails :
    ¬ ∀ s : Server 1 2 1, Reached (fun _ _ => True) s → s.CountsExactly := by
  intro h
  have hRun : (exec step (start 1 2 1) dropRun).map
      (fun s => decide (s.threads = (fun _ => []) ∧ (s.slots 0).pendingRecv = 0 ∧
        (s.slots 0).pendingSend = 0 ∧ (s.slots 0).session.ioCount = 1)) = some true := by
    decide +kernel
  obtain ⟨s, hExec, hBad⟩ := Option.map_eq_some_iff.mp hRun
  obtain ⟨hThreads, hRecv, hSend, hCount⟩ := of_decide_eq_true hBad
  have hIdle := (h s (reachable_of_exec hExec)).idle 0 hRecv hSend
    (fun t pc hFrame => by rw [hThreads] at hFrame; cases hFrame)
  rw [hCount] at hIdle
  exact absurd hIdle (by decide)

end Server

end NfNetwork.Net
