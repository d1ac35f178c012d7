import NfNetwork.Chat.JobEvent
import NfNetwork.Machinery.Crew

/-! Who has a pointer to a receive packet. The IO thread that took it from the pool has one
reference, the job that `OnReceived` makes of it has one, and the last to drop its own returns
the packet. -/
namespace NfNetwork.Chat

open Machinery

/-- Why something has a pointer to a packet. `starting` and `returning` are before the first
reference and after the last; an IO thread's own reference is `unshared` until a job gets one. -/
inductive Hold where
  | starting
  | unshared
  | own
  | job
  | returning
  deriving DecidableEq

variable {Io P Node : Type}

def IoPlace.holds : IoPlace P → Multiset (P × Hold)
  | .addRef d => {(d.packet, .starting)}
  | .fill d | .onReceived d | .peekBody d | .disconnect d | .addRefReceived d _ =>
    {(d.packet, .unshared)}
  | .checkRefCount d _ _ | .enqueue d _ => {(d.packet, .own), (d.packet, .job)}
  | .set d | .tryFreeRecv d _ => {(d.packet, .own)}
  | .giveBack d _ => {(d.packet, .returning)}
  | .idle | .threw | .ended => 0

def QueuedJob.holds (job : QueuedJob P) : Multiset (P × Hold) :=
  match job.recvPacket with
  | none => 0
  | some p => {(p, .job)}

def JobPlace.holds : JobPlace P → Multiset (P × Hold)
  | .handle job | .handled job => job.holds
  | .tryFreeRecv p => {(p, .job)}
  | .giveBack p => {(p, .returning)}
  | .waitOne | .checkIsQuit | .isEmpty | .tryDequeue | .threw | .ended => 0

def QuitPlace.holds : QuitPlace P → Multiset (P × Hold)
  | .handle job | .handled job => job.holds
  | .tryFreeRecv p => {(p, .job)}
  | .giveBack p => {(p, .returning)}
  | .running | .setIsQuit | .setQuitEvent | .setJobEvent | .joinJob | .joinHeartbeat | .isEmpty
  | .tryDequeue | .ended => 0

def Shared.queueHolds (g : Shared P Node) : Multiset (P × Hold) :=
  (g.jobQueue.map QueuedJob.holds).sum

/-- What the holds of a packet say about its count and its place in the pool. -/
structure Balanced [DecidableEq P] (holds : Multiset (P × Hold)) (g : Shared P Node) (p : P) :
    Prop where
  alone : holds.count (p, .starting) + holds.count (p, .unshared) + holds.count (p, .own) ≤ 1
  shared : holds.count (p, .starting) + holds.count (p, .unshared) + holds.count (p, .job) ≤ 1
  last : 2 * holds.count (p, .returning) + holds.count (p, .starting) +
    holds.count (p, .unshared) + holds.count (p, .own) + holds.count (p, .job) ≤ 2
  counted : (g.packets p).refCount =
    holds.count (p, .unshared) + holds.count (p, .own) + holds.count (p, .job)
  lent : (g.packets p).rented.toNat = min 1 (holds.count (p, .starting) +
    holds.count (p, .unshared) + holds.count (p, .own) + holds.count (p, .job) +
    holds.count (p, .returning))
  once : g.history.count (.returned p) + (g.packets p).rented.toNat = g.history.count (.rented p)

section Trades

variable [DecidableEq P] {g g' : Shared P Node} {before after others : Multiset (P × Hold)} {p : P}

/-- A change of the shared state for which a thread gives up these holds and gets those. -/
def Trades (g g' : Shared P Node) (before after : Multiset (P × Hold)) : Prop :=
  ∀ others p, Balanced (before + others) g p → Balanced (after + others) g' p

/-- What somebody else holds meanwhile may be added on both sides. -/
theorem Trades.add (h : Trades g g' before after) (more : Multiset (P × Hold)) :
    Trades g g' (before + more) (after + more) := by
  intro others p hBalanced
  rw [add_assoc] at hBalanced ⊢
  exact h (more + others) p hBalanced

/-- A trade beside holds that it leaves alone keeps every packet's count right. -/
theorem Trades.keeps {holds holds' : Multiset (P × Hold)} (h : Trades g g' before after)
    (others : Multiset (P × Hold)) (hBefore : holds = before + others)
    (hAfter : holds' = after + others) (hBalanced : ∀ p, Balanced holds g p) :
    ∀ p, Balanced holds' g' p := by
  subst hBefore hAfter
  exact fun p => h others p (hBalanced p)

/-- A step that touches no count, no rental and no history trades nothing. -/
theorem trades_of_same (hHolds : before = after)
    (hPackets : ∀ q, (g'.packets q).refCount = (g.packets q).refCount ∧
      (g'.packets q).rented = (g.packets q).rented)
    (hHistory : g'.history = g.history) : Trades g g' before after := by
  subst hHolds
  intro others p h
  obtain ⟨h1, h2, h3, h4, h5, h6⟩ := h
  exact ⟨h1, h2, h3, (hPackets p).1 ▸ h4, (hPackets p).2 ▸ h5, (hPackets p).2 ▸ hHistory ▸ h6⟩

/-- What happens to one packet and its holds is nothing to another. -/
theorem trades_of_one (hBefore : ∀ x ∈ before, x.1 = p) (hAfter : ∀ x ∈ after, x.1 = p)
    (hPackets : ∀ q, q ≠ p → g'.packets q = g.packets q)
    (hHistory : ∀ q, q ≠ p → g'.history.count (.returned q) = g.history.count (.returned q) ∧
      g'.history.count (.rented q) = g.history.count (.rented q))
    (hOne : ∀ others, Balanced (before + others) g p → Balanced (after + others) g' p) :
    Trades g g' before after := by
  intro others q h
  by_cases hSame : q = p
  · subst hSame
    exact hOne others h
  · have hNone : ∀ {m : Multiset (P × Hold)}, (∀ x ∈ m, x.1 = p) → ∀ hold, m.count (q, hold) = 0 :=
      fun hAll hold => Multiset.count_eq_zero.mpr fun hMem => hSame (hAll _ hMem)
    obtain ⟨h1, h2, h3, h4, h5, h6⟩ := h
    simp only [Multiset.count_add, hNone hBefore, Nat.zero_add] at h1 h2 h3 h4 h5
    constructor
    all_goals
      simp only [Multiset.count_add, hNone hAfter, Nat.zero_add, hPackets q hSame,
        (hHistory q hSame).1, (hHistory q hSame).2]
      assumption

theorem count_cons_hold (p : P) (hold hold' : Hold) (holds : Multiset (P × Hold)) :
    ((p, hold') ::ₘ holds).count (p, hold) =
      holds.count (p, hold) + if hold = hold' then 1 else 0 := by
  simp [Multiset.count_cons]

/-- A packet that leaves the pool has one pointer to it, before its first reference. -/
theorem trades_rent (hFree : (g.packets p).rented = false) :
    Trades g (g.rent p) 0 {(p, .starting)} := by
  refine trades_of_one (p := p) (by simp) (by simp) (fun q hSame => ?_) (fun q hSame => ?_) ?_
  · exact Function.update_of_ne hSame _ _
  · simp [Shared.rent, Ne.symm hSame]
  · rintro others ⟨h1, h2, h3, h4, h5, h6⟩
    simp only [zero_add, hFree, Bool.toNat_false] at h1 h2 h3 h4 h5 h6
    have hStarting : others.count (p, .starting) = 0 := by omega
    have hUnshared : others.count (p, .unshared) = 0 := by omega
    have hOwn : others.count (p, .own) = 0 := by omega
    have hJob : others.count (p, .job) = 0 := by omega
    have hReturning : others.count (p, .returning) = 0 := by omega
    constructor
    all_goals
      simp [Shared.rent, count_cons_hold, hStarting, hUnshared, hOwn, hJob, hReturning,
        -Multiset.count_cons_self, -Multiset.count_eq_zero]
    all_goals omega

/-- The `AddRef` of `AllocRecv`. -/
theorem trades_addRef : Trades g (g.addRef p 1) {(p, .starting)} {(p, .unshared)} := by
  refine trades_of_one (p := p) (by simp) (by simp) (fun q hSame => ?_) (fun q hSame => ⟨rfl, rfl⟩) ?_
  · exact Function.update_of_ne hSame _ _
  · rintro others ⟨h1, h2, h3, h4, h5, h6⟩
    simp only [Multiset.singleton_add, count_cons_hold, reduceCtorEq, if_true, if_false]
      at h1 h2 h3 h4 h5 h6
    constructor
    all_goals
      simp [Shared.addRef, count_cons_hold, -Multiset.count_cons_self]
      omega

/-- The `AddRef` of `OnReceived`. -/
theorem trades_share :
    Trades g (g.addRef p 1) {(p, .unshared)} {(p, .own), (p, .job)} := by
  refine trades_of_one (p := p) (by simp) (by simp) (fun q hSame => ?_) (fun q hSame => ⟨rfl, rfl⟩) ?_
  · exact Function.update_of_ne hSame _ _
  · rintro others ⟨h1, h2, h3, h4, h5, h6⟩
    simp only [Multiset.singleton_add, count_cons_hold,
      reduceCtorEq, if_true, if_false] at h1 h2 h3 h4 h5 h6
    constructor
    all_goals
      simp [Shared.addRef, count_cons_hold, -Multiset.count_cons_self]
      omega

/-- When a job gets its reference the packet has one. -/
theorem refCount_of_unshared
    (h : Balanced ({(p, .unshared)} + others) g p) : (g.packets p).refCount = 1 := by
  obtain ⟨h1, h2, h3, h4, h5, h6⟩ := h
  simp only [Multiset.singleton_add, count_cons_hold,
    reduceCtorEq, if_true, if_false] at h1 h2 h3 h4 h5 h6
  omega

/-- Once nobody else gets the packet, the thread's unshared reference is its own. Only the
bookkeeping changes here, no packet does. -/
theorem trades_settle (p : P) : Trades g g {(p, .unshared)} {(p, .own)} := by
  refine trades_of_one (p := p) (by simp) (by simp) (fun _ _ => rfl) (fun q hSame => ⟨rfl, rfl⟩) ?_
  rintro others ⟨h1, h2, h3, h4, h5, h6⟩
  simp only [Multiset.singleton_add, count_cons_hold,
    reduceCtorEq, if_true, if_false] at h1 h2 h3 h4 h5 h6
  refine ⟨?_, ?_, ?_, ?_, ?_, h6⟩
  all_goals
    simp only [Multiset.singleton_add, count_cons_hold, reduceCtorEq, if_true, if_false]
    omega

/-- The `SubRef` of `TryFreeRecv`, with the `Return` still to come if it was the last. -/
theorem trades_subRef {hold : Hold} (hHold : hold = .own ∨ hold = .job) :
    Trades g (g.addRef p (-1)) {(p, hold)}
      (if (g.packets p).refCount - 1 = 0 then {(p, .returning)} else 0) := by
  refine trades_of_one (p := p) (by simp) (by split <;> simp) (fun q hSame => ?_)
    (fun q hSame => ⟨rfl, rfl⟩) ?_
  · exact Function.update_of_ne hSame _ _
  · rintro others ⟨h1, h2, h3, h4, h5, h6⟩
    obtain rfl | rfl := hHold
    all_goals
      simp only [Multiset.singleton_add, count_cons_hold, reduceCtorEq, if_true, if_false]
        at h1 h2 h3 h4 h5 h6
      split
      all_goals
        constructor
        all_goals
          simp [Shared.addRef, count_cons_hold, -Multiset.count_cons_self]
          omega

/-- `Return` ends the last pointer to a packet. -/
theorem trades_giveBack : Trades g (g.giveBack p) {(p, .returning)} 0 := by
  refine trades_of_one (p := p) (by simp) (by simp) (fun q hSame => ?_) (fun q hSame => ?_) ?_
  · exact Function.update_of_ne hSame _ _
  · simp [Shared.giveBack, Ne.symm hSame]
  · rintro others ⟨h1, h2, h3, h4, h5, h6⟩
    simp only [Multiset.singleton_add, count_cons_hold, reduceCtorEq, if_true, if_false]
      at h1 h2 h3 h4 h5 h6
    constructor
    all_goals
      simp [Shared.giveBack]
      omega

/-- What is written into a packet does not matter to its count. -/
theorem trades_store (holds : Multiset (P × Hold)) (contents : Packet netLayout) :
    Trades g (g.store p contents) holds holds := by
  refine trades_of_same rfl (fun q => ?_) rfl
  by_cases hSame : q = p
  · subst hSame
    simp [Shared.store]
  · simp [Shared.store, hSame]

omit [DecidableEq P] in
/-- A job that waits holds the packet that it carries. -/
theorem queueHolds_enqueue (job : QueuedJob P) :
    (g.enqueue job).queueHolds = job.holds + g.queueHolds := by
  simp [Shared.queueHolds, Shared.enqueue, add_comm]

/-- Taking a job off the queue hands its hold to the thread that takes it. -/
theorem trades_dequeue {job : QueuedJob P} {later : List (QueuedJob P)}
    (hQueue : g.jobQueue = job :: later) :
    Trades g { g with jobQueue := later } (0 + g.queueHolds)
      (job.holds + { g with jobQueue := later }.queueHolds) := by
  refine trades_of_same ?_ (fun _ => ⟨rfl, rfl⟩) rfl
  simp [Shared.queueHolds, hQueue]

/-- A report of a disconnected session carries no packet. -/
theorem trades_report (r : Report) :
    Trades g (g.report r).1 g.queueHolds (g.report r).1.queueHolds := by
  cases r with
  | enqueue sessionId =>
      refine trades_of_same ?_ (fun _ => ⟨rfl, rfl⟩) rfl
      exact ((queueHolds_enqueue ⟨.SystemDisconnectUser, sessionId, none⟩).trans (zero_add _)).symm
  | set => exact trades_of_same rfl (fun _ => ⟨rfl, rfl⟩) rfl

/-- `TryFreeRecv`, whichever thread calls it. -/
theorem trades_tryFreeRecv {Place : Type} (holds : Place → Multiset (P × Hold))
    {giveBack next : Place} {hold : Hold} (hHold : hold = .own ∨ hold = .job)
    (hGiveBack : holds giveBack = {(p, .returning)}) (hNext : holds next = 0) :
    Trades g (g.addRef p (-1)) ({(p, hold)} + g.queueHolds)
      (holds (if (g.packets p).refCount - 1 = 0 then giveBack else next) +
        (g.addRef p (-1)).queueHolds) := by
  have hTrades := (trades_subRef (g := g) (p := p) hHold).add g.queueHolds
  rwa [apply_ite holds, hGiveBack, hNext]

/-- What `OnReceived` has seen if the count is kept. -/
def IoPlace.Calm : IoPlace P → Prop
  | .checkRefCount _ _ refCount => refCount = 2
  | .tryFreeRecv _ crash | .giveBack _ crash => crash = false
  | .threw => False
  | _ => True

/-- An IO thread that was calm stays calm, since the count that it reads after `AddRef` is 2. -/
theorem IoPlace.step_calm {place : IoPlace P} {c : IoChoice P} {next : Shared P Node × IoPlace P}
    (h : place.step g c = some next) (hCalm : place.Calm)
    (hBalanced : ∀ p, Balanced (place.holds + others) g p) : next.2.Calm := by
  fun_cases IoPlace.step g place c
  all_goals simp only [IoPlace.step, *, if_true, if_false, reduceCtorEq, Option.some.injEq] at h
  all_goals subst h
  all_goals simp [IoPlace.Calm, IoPlace.next] at hCalm ⊢
  case case7 => split_ifs <;> trivial
  case case8 => split_ifs <;> trivial
  case case10 d jobType => rw [refCount_of_unshared (hBalanced d.packet)]; rfl
  case case11 => rw [if_pos hCalm]; trivial
  case case14 =>
    rw [hCalm]
    split_ifs <;> trivial
  case case15 =>
    rw [hCalm]
    trivial

/-- A thread's step with its packet trades its holds. -/
theorem IoPlace.step_trades {place : IoPlace P} {c : IoChoice P} {next : Shared P Node × IoPlace P}
    (h : place.step g c = some next) (hCalm : place.Calm) :
    Trades g next.1 (place.holds + g.queueHolds) (next.2.holds + next.1.queueHolds) := by
  fun_cases IoPlace.step g place c
  all_goals simp only [IoPlace.step, *, if_true, if_false, reduceCtorEq, Option.some.injEq] at h
  all_goals subst h
  case case2 d hFree => exact (trades_rent (by simpa using hFree)).add g.queueHolds
  case case4 => exact trades_addRef.add g.queueHolds
  case case5 => exact (trades_store _ _).add g.queueHolds
  case case6 | case9 => exact (trades_settle _).add g.queueHolds
  case case7 =>
    cases g.isQuit with
    | true => exact (trades_settle _).add g.queueHolds
    | false => exact trades_of_same rfl (fun _ => ⟨rfl, rfl⟩) rfl
  case case8 =>
    refine trades_of_same ?_ (fun _ => ⟨rfl, rfl⟩) rfl
    simp only
    split_ifs <;> rfl
  case case10 => exact trades_share.add g.queueHolds
  case case11 d jobType refCount =>
    have hTwo : refCount = 2 := hCalm
    rw [if_neg (not_not_intro hTwo)]
    exact trades_of_same rfl (fun _ => ⟨rfl, rfl⟩) rfl
  case case12 d jobType =>
    refine trades_of_same ?_ (fun _ => ⟨rfl, rfl⟩) rfl
    rw [queueHolds_enqueue, ← add_assoc]
    rfl
  case case14 d crash =>
    rw [show crash = false from hCalm]
    exact trades_tryFreeRecv IoPlace.holds (.inl rfl) rfl rfl
  case case15 d crash =>
    rw [show crash = false from hCalm]
    exact trades_giveBack.add g.queueHolds
  all_goals exact trades_of_same rfl (fun _ => ⟨rfl, rfl⟩) rfl

/-- A step of an IO thread moves holds between its place and the queue, and makes none without the
pool or `AddRef`. -/
theorem IoThread.step_trades {t : IoThread P} {c : IoChoice P} {next : Shared P Node × IoThread P}
    (h : t.step g c = some next) (hCalm : t.place.Calm) :
    Trades g next.1 (t.place.holds + g.queueHolds) (next.2.place.holds + next.1.queueHolds) := by
  obtain ⟨r, -, rfl⟩ | ⟨sessionId, -, -, rfl⟩ | ⟨result, -, hStep, rfl⟩ := IoThread.step_cases h
  · rw [add_comm t.place.holds, add_comm t.place.holds]
    exact (trades_report r).add t.place.holds
  · exact trades_of_same rfl (fun _ => ⟨rfl, rfl⟩) rfl
  · exact IoPlace.step_trades hStep hCalm

theorem IoThread.step_calm {t : IoThread P} {c : IoChoice P} {next : Shared P Node × IoThread P}
    (h : t.step g c = some next) (hCalm : t.place.Calm)
    (hBalanced : ∀ p, Balanced (t.place.holds + others) g p) : next.2.place.Calm := by
  obtain ⟨r, -, rfl⟩ | ⟨sessionId, -, -, rfl⟩ | ⟨result, -, hStep, rfl⟩ := IoThread.step_cases h
  · exact hCalm
  · exact hCalm
  · exact IoPlace.step_calm hStep hCalm hBalanced

/-- The heartbeat thread enqueues jobs without a packet. -/
theorem HeartbeatPlace.step_trades {place : HeartbeatPlace} {next : Shared P Node × HeartbeatPlace}
    (h : place.step g = some next) : Trades g next.1 g.queueHolds next.1.queueHolds := by
  cases place with
  | waitOne =>
      obtain rfl := Option.some.inj h
      exact trades_of_same rfl (fun _ => ⟨rfl, rfl⟩) rfl
  | enqueue =>
      obtain rfl := Option.some.inj h
      refine trades_of_same ?_ (fun _ => ⟨rfl, rfl⟩) rfl
      exact ((queueHolds_enqueue ⟨.SystemHeartBeat, 0, none⟩).trans (zero_add _)).symm
  | set =>
      obtain rfl := Option.some.inj h
      exact trades_of_same rfl (fun _ => ⟨rfl, rfl⟩) rfl
  | ended => cases h

/-- The job thread holds a packet from `TryDequeue` until it has dropped the job's reference,
whatever the handler did. -/
theorem JobPlace.step_trades [DecidableEq Node] {env : Env Node} {place : JobPlace P}
    {next : Shared P Node × JobPlace P} (h : place.step env g = some next) :
    Trades g next.1 (place.holds + g.queueHolds) (next.2.holds + next.1.queueHolds) := by
  fun_cases JobPlace.step env g place
  all_goals simp only [JobPlace.step, *, if_true, if_false, reduceCtorEq, Option.some.injEq] at h
  all_goals subst h
  case case3 | case4 =>
    refine trades_of_same ?_ (fun _ => ⟨rfl, rfl⟩) rfl
    simp only
    split_ifs <;> rfl
  case case6 job later hQueue => exact trades_dequeue hQueue
  case case9 job =>
    refine trades_of_same ?_ (fun _ => ⟨rfl, rfl⟩) rfl
    cases hPacket : job.recvPacket <;> simp [JobPlace.holds, QueuedJob.holds, hPacket]
  case case10 p => exact trades_tryFreeRecv JobPlace.holds (.inr rfl) rfl rfl
  case case11 p => exact trades_giveBack.add g.queueHolds
  all_goals exact trades_of_same rfl (fun _ => ⟨rfl, rfl⟩) rfl

theorem JobThread.step_trades [DecidableEq Node] {env : Env Node} {t : JobThread P}
    {reports : Option Nat} {next : Shared P Node × JobThread P}
    (h : t.step env g reports = some next) :
    Trades g next.1 (t.place.holds + g.queueHolds) (next.2.place.holds + next.1.queueHolds) := by
  obtain ⟨r, -, rfl⟩ | ⟨sessionId, -, -, rfl⟩ | ⟨result, -, hStep, rfl⟩ :=
    JobThread.step_cases env h
  · rw [add_comm t.place.holds, add_comm t.place.holds]
    exact (trades_report r).add t.place.holds
  · exact trades_of_same rfl (fun _ => ⟨rfl, rfl⟩) rfl
  · exact JobPlace.step_trades hStep

/-- `OnQuit` handles what is left in the queue as the job thread would, with the same holds. -/
theorem QuitPlace.step_trades [DecidableEq Node] {jobEnded heartbeatEnded : Bool} {place : QuitPlace P}
    {next : Shared P Node × QuitPlace P} (h : place.step g jobEnded heartbeatEnded = some next) :
    Trades g next.1 (place.holds + g.queueHolds) (next.2.holds + next.1.queueHolds) := by
  cases place with
  | running | setIsQuit | setQuitEvent | setJobEvent =>
      obtain rfl := Option.some.inj h
      exact trades_of_same rfl (fun _ => ⟨rfl, rfl⟩) rfl
  | joinJob | joinHeartbeat =>
      obtain ⟨-, hNext⟩ := Option.ite_none_right_eq_some.mp h
      obtain rfl := Option.some.inj hNext
      exact trades_of_same rfl (fun _ => ⟨rfl, rfl⟩) rfl
  | isEmpty =>
      obtain rfl := Option.some.inj h
      refine trades_of_same ?_ (fun _ => ⟨rfl, rfl⟩) rfl
      simp only
      split_ifs <;> rfl
  | tryDequeue =>
      rw [QuitPlace.step] at h
      split at h
      · obtain rfl := Option.some.inj h
        exact trades_of_same rfl (fun _ => ⟨rfl, rfl⟩) rfl
      · rename_i job later hQueue
        obtain rfl := Option.some.inj h
        exact trades_dequeue hQueue
  | handle job =>
      rw [QuitPlace.step] at h
      split at h
      · split at h
        · obtain rfl := Option.some.inj h
          exact trades_of_same rfl (fun _ => ⟨rfl, rfl⟩) rfl
        · cases h
      · obtain rfl := Option.some.inj h
        exact trades_of_same rfl (fun _ => ⟨rfl, rfl⟩) rfl
  | handled job =>
      obtain rfl := Option.some.inj h
      refine trades_of_same ?_ (fun _ => ⟨rfl, rfl⟩) rfl
      cases hPacket : job.recvPacket <;> simp [QuitPlace.holds, QueuedJob.holds, hPacket]
  | tryFreeRecv p =>
      obtain rfl := Option.some.inj h
      exact trades_tryFreeRecv QuitPlace.holds (.inr rfl) rfl rfl
  | giveBack p =>
      obtain rfl := Option.some.inj h
      exact trades_giveBack.add g.queueHolds
  | ended => cases h

end Trades

namespace JobSystem

variable [DecidableEq Io] [DecidableEq P] [DecidableEq Node] [Fintype Io] {env : Env Node}
  {s s' : JobSystem Io P Node}

/-- Every pointer to a packet. -/
def holds (s : JobSystem Io P Node) : Multiset (P × Hold) :=
  crewTotal (fun t => t.place.holds) s.io + s.job.place.holds + s.quit.holds + s.shared.queueHolds

structure Kept (s : JobSystem Io P Node) : Prop where
  balanced : ∀ p, Balanced s.holds s.shared p
  calm : ∀ i, (s.io i).place.Calm

omit [DecidableEq Io] [DecidableEq Node] in
/-- Before the first step every packet is in the pool and nobody points to one. -/
theorem kept_start (users : Node → ChatUser) (contents : P → Packet netLayout) :
    (start env users contents : JobSystem Io P Node).Kept where
  balanced p := by
    have hNone : (start env users contents : JobSystem Io P Node).holds = 0 := by
      simp [holds, start, crewTotal, IoPlace.holds, JobPlace.holds, QuitPlace.holds,
        Shared.queueHolds]
    rw [hNone]
    exact ⟨by simp, by simp, by simp, by simp [start], by simp [start], by simp [start]⟩
  calm _ := trivial

omit [DecidableEq P] [DecidableEq Node] in
/-- The holds of one IO thread and those of all others. -/
theorem holds_split (i : Io) :
    s.holds = ((s.io i).place.holds + s.shared.queueHolds) +
      (crewOthers (fun t => t.place.holds) s.io i + s.job.place.holds + s.quit.holds) := by
  rw [holds, crewTotal_split _ s.io i]
  ac_rfl

/-- A step of an IO thread keeps all packets balanced, the others' holds being left alone. -/
theorem Kept.io {i : Io} {c : IoChoice P} (hKept : s.Kept)
    (h : s.step env (.io i c) = some s') : s'.Kept := by
  obtain ⟨next, hStep, rfl⟩ := Option.map_eq_some_iff.mp h
  have hBalanced := hKept.balanced
  constructor
  · refine (IoThread.step_trades hStep (hKept.calm i)).keeps _ (holds_split i) ?_ hBalanced
    simp only [holds, crewTotal_update]
    ac_rfl
  · simp only [holds_split i, add_assoc] at hBalanced
    have hCalm := IoThread.step_calm hStep (hKept.calm i) hBalanced
    intro i'
    by_cases hSame : i' = i
    · subst hSame
      show (Function.update s.io i' next.2 i').place.Calm
      rwa [Function.update_self]
    · show (Function.update s.io i next.2 i').place.Calm
      rw [Function.update_of_ne hSame]
      exact hKept.calm i'

theorem Kept.heartbeat (hKept : s.Kept) (h : s.step env .heartbeat = some s') : s'.Kept := by
  obtain ⟨next, hStep, rfl⟩ := Option.map_eq_some_iff.mp h
  refine ⟨?_, hKept.calm⟩
  refine (HeartbeatPlace.step_trades hStep).keeps
    (crewTotal (fun t => t.place.holds) s.io + s.job.place.holds + s.quit.holds) ?_ ?_ hKept.balanced
  · exact add_comm _ _
  · exact add_comm _ _

/-- The same for the job thread, whose reports of disconnected sessions hold nothing. -/
theorem Kept.job {reports : Option Nat} (hKept : s.Kept)
    (h : s.step env (.job reports) = some s') : s'.Kept := by
  obtain ⟨next, hStep, rfl⟩ := Option.map_eq_some_iff.mp h
  refine ⟨?_, hKept.calm⟩
  refine (JobThread.step_trades hStep).keeps
    (crewTotal (fun t => t.place.holds) s.io + s.quit.holds) ?_ ?_ hKept.balanced
  · rw [holds]
    ac_rfl
  · rw [holds]
    ac_rfl

/-- The same for `OnQuit`, which takes over the queue. -/
theorem Kept.quit (hKept : s.Kept) (h : s.step env .quit = some s') : s'.Kept := by
  obtain ⟨next, hStep, rfl⟩ := Option.map_eq_some_iff.mp h
  refine ⟨?_, hKept.calm⟩
  refine (QuitPlace.step_trades hStep).keeps
    (crewTotal (fun t => t.place.holds) s.io + s.job.place.holds) ?_ ?_ hKept.balanced
  · rw [holds]
    ac_rfl
  · rw [holds]
    ac_rfl

/-- In every run, under any guard, every packet stays balanced. -/
theorem Reached.kept {users : Node → ChatUser} {contents : P → Packet netLayout}
    {Guard : JobSystem Io P Node → JobAction Io P → Prop}
    (h : Reached env users contents Guard s) : s.Kept := by
  refine Reachable.invariant (kept_start users contents) ?_ h
  intro s s' a _ hKept _ hStep
  cases a with
  | io i c => exact hKept.io hStep
  | heartbeat => exact hKept.heartbeat hStep
  | job reports => exact hKept.job hStep
  | quit => exact hKept.quit hStep

/-- What is true of the receive packets, whatever the threads have done. -/
structure Conserved (s : JobSystem Io P Node) : Prop where
  counted : ∀ p, (s.shared.packets p).refCount =
    (s.holds.count (p, .unshared) + s.holds.count (p, .own)) + s.holds.count (p, .job)
  owners : ∀ p, s.holds.count (p, .unshared) + s.holds.count (p, .own) ≤ 1
  jobs : ∀ p, s.holds.count (p, .job) ≤ 1
  addRef : ∀ i d jobType refCount,
    (s.io i).place = .checkRefCount d jobType refCount → refCount = 2
  alive : ∀ p hold, (p, hold) ∈ s.holds → (s.shared.packets p).rented = true ∧
    (0 < (s.shared.packets p).refCount ∨ s.holds.filter (fun x => x.1 = p) = {(p, hold)})
  once : ∀ p, s.shared.history.count (.returned p) + (s.shared.packets p).rented.toNat =
    s.shared.history.count (.rented p)
  back : ∀ p, (∀ hold, (p, hold) ∉ s.holds) → (s.shared.packets p).rented = false

omit [DecidableEq Io] [DecidableEq Node] in
/-- What the balance of each packet says about the counts that the code reads. -/
theorem Kept.conserved (h : s.Kept) : s.Conserved where
  counted p := by
    rw [(h.balanced p).counted]
  owners p := by
    have hAlone := (h.balanced p).alone
    omega
  jobs p := by
    have hShared := (h.balanced p).shared
    omega
  addRef i d jobType refCount hPlace := by
    have hCalm := h.calm i
    rw [hPlace] at hCalm
    exact hCalm
  alive p hold hMem := by
    obtain ⟨h1, h2, h3, h4, h5, h6⟩ := h.balanced p
    have hCount := Multiset.count_pos.mpr hMem
    have hLent : (s.shared.packets p).rented.toNat = 1 := by
      cases hold <;> omega
    refine ⟨Bool.toNat_eq_one.mp hLent, ?_⟩
    by_cases hPos : 0 < (s.shared.packets p).refCount
    · exact .inl hPos
    · refine .inr (Multiset.ext.mpr fun ⟨q, hold'⟩ => ?_)
      rw [Multiset.count_filter, Multiset.count_singleton]
      by_cases hSame : q = p
      · subst hSame
        simp only [if_true, Prod.mk.injEq, true_and]
        cases hold <;> cases hold' <;> simp only [reduceCtorEq, if_true, if_false] <;> omega
      · simp [hSame]
  once p := (h.balanced p).once
  back p hNone := by
    have hZero := fun hold => Multiset.count_eq_zero.mpr (hNone hold)
    have hLent := (h.balanced p).lent
    simp only [hZero] at hLent
    exact Bool.toNat_eq_zero.mp hLent

/-- `NetCore::Stop` joins the IO threads before it calls `OnQuit`. -/
def JoinsIo (s : JobSystem Io P Node) : JobAction Io P → Prop
  | .quit => s.quit = .running → ∀ i, s.io i = ⟨.ended, none⟩
  | _ => True

end JobSystem

/-- `OnQuit` after its joins. -/
def QuitPlace.takes : QuitPlace P → Bool
  | .running | .setIsQuit | .setQuitEvent | .setJobEvent | .joinJob | .joinHeartbeat => false
  | _ => true

section QuitSteps

variable [DecidableEq P] [DecidableEq Node]

/-- `OnQuit` begins to take jobs only after it has joined the heartbeat thread. -/
theorem QuitPlace.takes_step {g : Shared P Node} {place : QuitPlace P}
    {jobEnded heartbeatEnded : Bool} {next : Shared P Node × QuitPlace P}
    (h : place.step g jobEnded heartbeatEnded = some next) (hTakes : next.2.takes = true) :
    place.takes = true ∨ heartbeatEnded = true := by
  cases place with
  | running | setIsQuit | setQuitEvent | setJobEvent =>
      obtain rfl := Option.some.inj h
      cases hTakes
  | joinJob =>
      obtain ⟨-, hNext⟩ := Option.ite_none_right_eq_some.mp h
      obtain rfl := Option.some.inj hNext
      cases hTakes
  | joinHeartbeat =>
      obtain ⟨hEnded, -⟩ := Option.ite_none_right_eq_some.mp h
      exact .inr hEnded
  | isEmpty | tryDequeue | handle | handled | tryFreeRecv | giveBack | ended => exact .inl rfl

/-- `OnQuit` returns where `IsEmpty` has just said so. -/
theorem QuitPlace.ended_step {g : Shared P Node} {place : QuitPlace P}
    {jobEnded heartbeatEnded : Bool} {next : Shared P Node × QuitPlace P}
    (h : place.step g jobEnded heartbeatEnded = some next) (hEnded : next.2 = .ended) :
    next.1.jobQueue = [] := by
  fun_cases QuitPlace.step g jobEnded heartbeatEnded place
  all_goals simp only [QuitPlace.step, *, if_true, if_false, reduceCtorEq, Option.some.injEq] at h
  all_goals grind

end QuitSteps

namespace JobSystem

variable [DecidableEq Io] [DecidableEq P] [DecidableEq Node] [Fintype Io] {env : Env Node}
  {s s' : JobSystem Io P Node}

/-- How far the threads have stopped. -/
structure Stopping (s : JobSystem Io P Node) : Prop where
  io : s.quit ≠ .running → ∀ i, s.io i = ⟨.ended, none⟩
  heartbeat : s.quit.takes = true → s.heartbeat = .ended
  empty : s.quit = .ended → s.shared.jobQueue = []

omit [DecidableEq Io] [DecidableEq P] [DecidableEq Node] [Fintype Io] in
theorem Stopping.of_running (h : s.quit = .running) : s.Stopping where
  io hQuit := absurd h hQuit
  heartbeat hTakes := by
    rw [h] at hTakes
    cases hTakes
  empty hEnded := by
    rw [h] at hEnded
    cases hEnded

omit [DecidableEq Io] [Fintype Io] in
/-- A job thread that has left its loop takes no more steps. -/
theorem Wakeful.job_stuck {reports : Option Nat} (h : s.Wakeful)
    (hEnded : s.job.place = .ended) : s.job.step env s.shared reports = none := by
  rw [Option.eq_none_iff_forall_not_mem]
  intro next hStep
  obtain ⟨r, hReport, -⟩ | ⟨sessionId, -, hMay, -⟩ | ⟨result, -, hPlace, -⟩ :=
    JobThread.step_cases env hStep
  · have hMay := h.reports (Option.isSome_of_eq_some hReport)
    rw [hEnded] at hMay
    cases hMay
  · rw [hEnded] at hMay
    cases hMay
  · rw [hEnded] at hPlace
    cases hPlace

omit [Fintype Io] in
/-- From the last join on, nobody but `OnQuit` is left to touch the queue. -/
theorem Stopping.quit (h : s.Stopping) (hGuard : JoinsIo s (.quit : JobAction Io P))
    (hStep : s.step env .quit = some s') : s'.Stopping := by
  obtain ⟨next, hNext, rfl⟩ := Option.map_eq_some_iff.mp hStep
  refine ⟨fun _ => ?_, ?_, ?_⟩
  · by_cases hQuit : s.quit = .running
    · exact hGuard hQuit
    · exact h.io hQuit
  · intro hTakes
    obtain hBefore | hEnded := QuitPlace.takes_step hNext hTakes
    · exact h.heartbeat hBefore
    · exact of_decide_eq_true hEnded
  · exact QuitPlace.ended_step hNext

omit [Fintype Io] in
/-- Who is still running while `OnQuit` joins one thread after the other. -/
theorem Stopping.step {a : JobAction Io P} (h : s.Stopping) (hWakeful : s.Wakeful)
    (hGuard : JoinsIo s a) (hStep : s.step env a = some s') : s'.Stopping := by
  cases a with
  | io i c =>
      obtain ⟨next, hNext, rfl⟩ := Option.map_eq_some_iff.mp hStep
      refine .of_running ?_
      by_contra hQuit
      rw [h.io hQuit i] at hNext
      cases c <;> cases hNext
  | heartbeat =>
      obtain ⟨next, hNext, rfl⟩ := Option.map_eq_some_iff.mp hStep
      have hTakes : s.quit.takes ≠ true := by
        intro hTakes
        rw [h.heartbeat hTakes] at hNext
        cases hNext
      refine ⟨h.io, fun hQuit => absurd hQuit hTakes, fun hQuit => ?_⟩
      exact absurd (congrArg QuitPlace.takes hQuit) hTakes
  | job reports =>
      obtain ⟨next, hNext, rfl⟩ := Option.map_eq_some_iff.mp hStep
      have hDrains : s.quit.drains ≠ true := by
        intro hDrains
        rw [hWakeful.job_stuck (hWakeful.drains hDrains)] at hNext
        cases hNext
      refine ⟨h.io, h.heartbeat, fun hQuit => ?_⟩
      exact absurd (congrArg QuitPlace.drains hQuit) hDrains
  | quit => exact h.quit hGuard hStep

omit [DecidableEq Io] [DecidableEq P] [DecidableEq Node] in
/-- Once `OnQuit` has returned, nobody has a pointer to a packet. -/
theorem Stopping.no_holds (h : s.Stopping) (hWakeful : s.Wakeful) (hQuit : s.quit = .ended) :
    s.holds = 0 := by
  have hIo : crewTotal (fun t : IoThread P => t.place.holds) s.io = 0 := by
    refine crewTotal_eq_zero fun i => ?_
    rw [h.io (by rw [hQuit]; exact nofun) i]
    rfl
  have hJob : s.job.place = .ended := hWakeful.drains (by rw [hQuit]; rfl)
  rw [holds, hIo, hJob, hQuit, Shared.queueHolds, h.empty hQuit]
  rfl

/-- Every packet that was taken from the pool is back. -/
def AllReturned (s : JobSystem Io P Node) : Prop :=
  ∀ p, (s.shared.packets p).rented = false ∧
    s.shared.history.count (.returned p) = s.shared.history.count (.rented p)

/-- The references to the receive packets of a chat, in every run, and at the end of a run that
stops as `NetCore::Stop` does. -/
theorem packets_conserved (env : Env Node) (users : Node → ChatUser)
    (contents : P → Packet netLayout) :
    (∀ s : JobSystem Io P Node, Reached env users contents (fun _ _ => True) s → s.Conserved) ∧
    ∀ s : JobSystem Io P Node, Reached env users contents JoinsIo s → s.quit = .ended →
      s.AllReturned := by
  refine ⟨fun s h => (Reached.kept h).conserved, ?_⟩
  intro s h hQuit p
  have hKept := Reached.kept h
  have hStopping : s.Stopping := by
    refine Reachable.invariant (.of_running rfl) ?_ h
    intro s s' a hReached hInv hGuard hStep
    exact hInv.step (Reached.wakeful hReached) hGuard hStep
  have hNone := hStopping.no_holds (Reached.wakeful h) hQuit
  have hBack := hKept.conserved.back p (by simp [hNone])
  have hOnce := hKept.conserved.once p
  rw [hBack] at hOnce
  exact ⟨hBack, hOnce⟩

/-- Two messages too short for their type. The job thread gives up on the first, and `OnQuit`
finds the second in the queue. -/
private def shortMessages : List (JobAction (Fin 1) (Fin 1)) :=
  let deliver : List (JobAction (Fin 1) (Fin 1)) :=
    .io 0 (.allocRecv ⟨0, 1⟩) :: .io 0 .go :: .io 0 (.decoded (clientPacket [5, 0])) ::
      List.replicate 7 (.io 0 .go)
  List.flatten [deliver, List.replicate 9 (.job none), deliver, .io 0 .close :: List.replicate 4 .quit,
    .job none :: .job none :: .heartbeat :: List.replicate 9 .quit]

private def joinsIo (s : JobSystem (Fin 1) (Fin 1) Nat) : JobAction (Fin 1) (Fin 1) → Bool
  | .quit => match s.io 0 with
    | ⟨.ended, none⟩ => true
    | _ => false
  | _ => true

private def hasEnded (s : JobSystem (Fin 1) (Fin 1) Nat) : Bool :=
  match s.quit with
  | .ended => s.shared.history = [.rented 0, .returned 0, .rented 0, .returned 0]
  | _ => false

/-- Both packets are back, each once. -/
theorem packets_conserved_shortMessages :
    ∃ s : JobSystem (Fin 1) (Fin 1) Nat, s.quit = .ended ∧ s.Conserved ∧ s.AllReturned ∧
      s.shared.history = [.rented 0, .returned 0, .rented 0, .returned 0] := by
  have hRun : (exec (checked joinsIo (step zeroEnv))
      (start zeroEnv (fun _ => zeroUser) fun _ => clientPacket []) shortMessages).map hasEnded =
        some true := by decide +kernel
  obtain ⟨s, hSome, hLast⟩ := Option.map_eq_some_iff.mp hRun
  have hReached : Reached zeroEnv (fun _ => zeroUser) (fun _ => clientPacket []) JoinsIo s := by
    refine reachable_of_checked ?_ hSome
    intro s a hCheck
    cases a with
    | quit =>
        intro _ i
        obtain rfl : i = 0 := Subsingleton.elim _ _
        simp only [joinsIo] at hCheck
        split at hCheck
        · assumption
        · cases hCheck
    | io | heartbeat | job => trivial
  have hConserved := @packets_conserved (Fin 1) (Fin 1) Nat _ _ _ _ zeroEnv (fun _ => zeroUser)
    fun _ => clientPacket []
  simp only [hasEnded] at hLast
  split at hLast
  · rename_i hQuit
    exact ⟨s, hQuit, hConserved.1 s (Reachable.mono (fun _ => trivial) hReached),
      hConserved.2 s hReached hQuit, of_decide_eq_true hLast⟩
  · cases hLast

end JobSystem

end NfNetwork.Chat
