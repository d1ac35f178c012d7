import Mathlib.Algebra.BigOperators.Group.Finset.Piecewise
import Mathlib.Algebra.BigOperators.Group.Multiset.Basic
import Mathlib.Algebra.Order.BigOperators.Group.Finset
import Mathlib.Algebra.Order.Group.Int
import Mathlib.Algebra.Ring.Int.Defs
import NfNetwork.Net.SendBatch
import NfNetwork.Net.ServerView

/-! The references of packets. A session holds one for every occurrence of a packet
in its queue and in its batch, and so does a thread that carries a packet from one
place to another; the count of a packet is the sum of these. -/
namespace NfNetwork.Net

open Machinery

/-- The packets in `PacketBuffer[0..PacketCount)`. -/
def NetSession.batch (session : NetSession) : List Nat :=
  (List.range session.packetCount).map session.packetBuffer

/-- The occurrences of a packet in a session. -/
def NetSession.occurrences (session : NetSession) (packet : Nat) : Nat :=
  session.sendQueue.count packet + session.batch.count packet

section Places

variable (session : NetSession) (packet : Nat)

/-- What a thread has taken a reference for and not appended, or dequeued and not
counted. -/
def SlotPc.inHand : SlotPc → Nat
  | .enqueue _ packet' | .sendPost _ (.store _ _ _ packet')
  | .sendPost _ (.count _ _ _ packet') => [packet'].count packet
  | _ => 0

/-- What a `FinishSending` in progress has freed and not taken out of the batch. -/
def SlotPc.freed : SlotPc → Nat
  | .finishSending _ (.free i _) => ((List.range i).map session.packetBuffer).count packet
  | .finishSending _ .resetCount => session.batch.count packet
  | _ => 0

/-- What the step of a thread adds to the count of a packet. -/
def Effect.refsOf (e : Effect) : Int :=
  (e.refs.map fun r => if r.1 = packet then r.2 else 0).sum

end Places

section Steps

variable {slot : Slot} {env : Env} {pc : SlotPc} {e : Effect} (packet : Nat)

/-- What is known of a session that a thread is about to clear. -/
structure SlotPc.Clears (session : NetSession) (pc : SlotPc) : Prop where
  count : ∀ caller queueSize, pc = .sendPost caller (.resetCount queueSize) → session.packetCount = 0
  initCount : pc = .init .resetCount → session.packetCount = 0
  initQueue : pc = .init .clearQueue → session.sendQueue = []

/-- The references that a session and one of its threads account for. -/
def SlotPc.accounts (session : NetSession) (pcs : List SlotPc) : Int :=
  session.occurrences packet + ((pcs.map (SlotPc.inHand packet)).sum : Nat) -
    ((pcs.map (SlotPc.freed session packet)).sum : Nat)

/-- A store behind the batch does not change it. -/
theorem map_range_store (buffer : Nat → Nat) (count packet : Nat) :
    ((List.range count).map fun j => if j = count then packet else buffer j) =
      (List.range count).map buffer := by
  apply List.map_congr_left
  intro j hMem
  exact if_neg (Nat.ne_of_lt (List.mem_range.mp hMem))

attribute [local simp] SlotPc.accounts NetSession.occurrences NetSession.batch SlotPc.inHand
  SlotPc.freed Effect.refsOf map_range_store List.range_succ List.count_cons

/-- `SendPost` hands the references of its packets on to the batch. -/
theorem SendPostPc.step_accounts {caller : SendCaller} {pc : SendPostPc}
    (h : pc.step slot env caller = some e)
    (hClears : SlotPc.Clears slot.session (.sendPost caller pc))
    (hKnows : (SlotPc.sendPost caller pc).knows slot.session) :
    SlotPc.accounts packet e.slot.session e.next =
      SlotPc.accounts packet slot.session [.sendPost caller pc] + e.refsOf packet := by
  cases pc <;> simp only [SendPostPc.step, goto, update] at h
  all_goals repeat' split at h
  all_goals cases h
  case resetCount queueSize =>
    have hZero := hClears.count caller queueSize rfl
    simp [hZero]
  case count queueSize i batch packet' =>
    have hStored : slot.session.packetBuffer slot.session.packetCount = packet' := hKnows
    simp [hStored]
    omega
  all_goals simp [*]
  all_goals omega

/-- `FinishSending` drops them one by one. -/
theorem FinishPc.step_accounts {caller : FinishCaller} {pc : FinishPc}
    (h : pc.step slot caller = some e)
    (hKnows : (SlotPc.finishSending caller pc).knows slot.session) :
    SlotPc.accounts packet e.slot.session e.next =
      SlotPc.accounts packet slot.session [.finishSending caller pc] + e.refsOf packet := by
  cases pc
  case clearFlag =>
    cases h
    cases caller <;> simp
  case free i packetCount =>
    simp only [FinishPc.step, goto] at h
    split at h <;> cases h
    · by_cases hSame : slot.session.packetBuffer i = packet
      all_goals simp [hSame]
      all_goals omega
    · have hAll : i = slot.session.packetCount := by
        have hLe : i ≤ slot.session.packetCount := hKnows
        omega
      simp [hAll]
  all_goals cases h
  all_goals simp

/-- `Release` drops those of the packets still queued. -/
theorem ReleasePc.step_accounts {id : Option Nat} {pc : ReleasePc} (h : pc.step slot id = some e) :
    SlotPc.accounts packet e.slot.session e.next =
      SlotPc.accounts packet slot.session [.release id pc] + e.refsOf packet := by
  cases pc
  case countDisconnected => cases h; cases id <;> simp
  case drainDequeue =>
    simp only [ReleasePc.step, goto] at h
    split at h <;> cases h
    · simp
    · rename_i packet' sendQueue hQueue
      by_cases hSame : packet' = packet
      all_goals simp [hQueue, hSame]
      all_goals omega
  all_goals simp only [ReleasePc.step, goto, update] at h
  all_goals repeat' split at h
  all_goals cases h
  all_goals simp

/-- `Init` finds none. -/
theorem InitPc.step_accounts {pc : InitPc} (h : pc.step slot = some e)
    (hClears : SlotPc.Clears slot.session (.init pc)) :
    SlotPc.accounts packet e.slot.session e.next =
      SlotPc.accounts packet slot.session [.init pc] + e.refsOf packet := by
  cases pc <;> simp only [InitPc.step, goto, update] at h
  all_goals repeat' split at h
  all_goals cases h
  case clearQueue => simp [hClears.initQueue rfl]
  case resetCount => simp [hClears.initCount rfl]
  all_goals simp

/-- A step changes what is accounted for by what it adds to the counts. -/
theorem SlotPc.step_accounts (h : pc.step slot env = some e)
    (hClears : pc.Clears slot.session) (hKnows : pc.knows slot.session) :
    SlotPc.accounts packet e.slot.session e.next =
      SlotPc.accounts packet slot.session [pc] + e.refsOf packet := by
  cases pc
  case sendPost caller pc => exact SendPostPc.step_accounts packet h hClears hKnows
  case finishSending caller pc => exact FinishPc.step_accounts packet h hKnows
  case release id pc => exact ReleasePc.step_accounts packet h
  case init pc => exact InitPc.step_accounts packet h hClears
  case recvPost caller pc =>
    cases pc <;> simp only [SlotPc.step, RecvPostPc.step, goto, update] at h
    all_goals repeat' split at h
    all_goals cases h
    all_goals cases caller <;> simp [RecvCaller.returned]
  case completed kind outcome =>
    cases outcome <;> cases h <;> repeat' split
    all_goals simp
  case acquireCheckReleased id purpose =>
    cases purpose <;> cases h <;> split <;> simp [Purpose.acquired]
  case bind | recvLoop => cases env <;> cases h <;> simp
  case checkClosed kind => cases kind <;> cases h <;> split <;> simp
  case addRef id packet' =>
    cases h
    by_cases hSame : packet' = packet <;> simp [hSame]
  case enqueue id packet' =>
    cases h
    simp
    omega
  all_goals simp only [SlotPc.step, goto, update] at h
  all_goals repeat' split at h
  all_goals cases h
  all_goals simp

end Steps

section View

variable {v : SlotView} {pc : SlotPc} {env : Env} {e : Effect} {others : Multiset SlotPc}

/-- A thread that clears a batch or a queue finds it empty. -/
theorem SlotView.clears (hLocked : v.sending.Locked) (hSound : v.life.Sound) (hMem : pc ∈ v.pcs) :
    pc.Clears v.slot.session := by
  have hRest : ∀ {init : InitPc}, pc = .init init → init.sendAct = .inits true →
      v.slot.session.sendQueue = [] ∧ v.slot.session.packetCount = 0 := by
    rintro init rfl hAct
    have hIn : .inits true ∈ v.sending.acts := by
      apply SlotView.mem_sending_acts.mpr
      exact ⟨.init init, hMem, by simp [SlotPc.sendActs, hAct]⟩
    obtain ⟨_, hQueue, hCount, _⟩ := hLocked.rest_of_inits (SlotView.excludes hSound) hIn
    exact ⟨hQueue, hCount⟩
  constructor
  · rintro caller queueSize rfl
    have hIn : .sampled queueSize ∈ v.sending.acts :=
      SlotView.mem_sending_acts.mpr ⟨_, hMem, List.mem_singleton_self _⟩
    exact (hLocked.promised _ hIn).1
  · intro hPc
    exact (hRest hPc rfl).2
  · intro hPc
    exact (hRest hPc rfl).1

/-- The references that a session and the threads at it account for. -/
def SlotView.references (v : SlotView) (packet : Nat) : Int :=
  v.slot.session.occurrences packet + ((v.pcs.map (SlotPc.inHand packet)).sum : Nat) -
    ((v.pcs.map (SlotPc.freed v.slot.session packet)).sum : Nat)

/-- A thread without the batch frees nothing of it. -/
theorem SlotPc.freed_of_not_owns {session : NetSession} {packet : Nat} (h : pc.owns = false) :
    pc.freed session packet = 0 := by
  unfold freed
  split
  · cases h
  · cases h
  · rfl

/-- What has been freed is about the batch only. -/
theorem SlotPc.freed_congr {session session' : NetSession} (packet : Nat)
    (hCount : session'.packetCount = session.packetCount)
    (hBuffer : session'.packetBuffer = session.packetBuffer) :
    pc.freed session' packet = pc.freed session packet := by
  unfold freed NetSession.batch
  rw [hCount, hBuffer]

/-- A step of one thread changes what is accounted for by what it adds. -/
theorem SlotStep.references {v' : SlotView} (h : SlotStep v (.run pc env) v')
    (hStep : pc.step v.slot env = some e) (packet : Nat) (hLocked : v.sending.Locked)
    (hSound : v.life.Sound) (hKnows : ∀ pc ∈ v.pcs, pc.knows v.slot.session) :
    v'.references packet = v.references packet + e.refsOf packet := by
  cases h with
  | run hPcs hStep' =>
      rename_i e' others
      rw [hStep] at hStep'
      cases hStep'
      have hMem : pc ∈ v.pcs := by simp [hPcs]
      have hAccounts := SlotPc.step_accounts packet hStep (SlotView.clears hLocked hSound hMem)
        (hKnows pc hMem)
      have hOthers : (others.map (SlotPc.freed e.slot.session packet)).sum =
          (others.map (SlotPc.freed v.slot.session packet)).sum := by
        apply congrArg Multiset.sum
        apply Multiset.map_congr rfl
        intro pc' hOther
        cases hOwns : pc.owns with
        | true =>
            have hFree := SlotView.owns_alone hLocked hSound hPcs hOwns pc' hOther
            rw [SlotPc.freed_of_not_owns hFree, SlotPc.freed_of_not_owns hFree]
        | false =>
            obtain ⟨hCount, hBuffer⟩ := SlotPc.step_batch hStep hOwns
            exact SlotPc.freed_congr packet hCount hBuffer
      have hSum : ∀ f : SlotPc → Nat,
          ((e.next + others : Multiset SlotPc).map f).sum = (e.next.map f).sum + (others.map f).sum := by
        intro f
        rw [Multiset.map_add, Multiset.sum_add, Multiset.map_coe, Multiset.sum_coe]
      rw [SlotPc.accounts, SlotPc.accounts, List.map_singleton, List.map_singleton,
        List.sum_singleton, List.sum_singleton] at hAccounts
      rw [SlotView.references, SlotView.references, hPcs, hSum, hSum, hOthers, Multiset.map_cons,
        Multiset.sum_cons, Multiset.map_cons, Multiset.sum_cons]
      dsimp only
      omega

/-- No more is freed than was in the batch. -/
theorem SlotPc.freed_le {session : NetSession} (packet : Nat) (h : pc.knows session) :
    pc.freed session packet ≤ session.batch.count packet := by
  unfold freed
  split
  · rename_i caller i packetCount
    have hLe : i ≤ session.packetCount := h
    exact ((List.range_sublist.mpr hLe).map session.packetBuffer).count_le packet
  · exact le_rfl
  · exact Nat.zero_le _

/-- No more is freed than the batch holds: one thread at a time frees. -/
theorem SlotView.freed_le (packet : Nat) (hLocked : v.sending.Locked) (hSound : v.life.Sound)
    (hKnows : ∀ pc ∈ v.pcs, pc.knows v.slot.session) :
    (v.pcs.map (SlotPc.freed v.slot.session packet)).sum ≤ v.slot.session.batch.count packet := by
  by_cases hOwner : ∃ pc ∈ v.pcs, pc.owns = true
  · obtain ⟨pc, hMem, hOwns⟩ := hOwner
    obtain ⟨others, hPcs⟩ := Multiset.exists_cons_of_mem hMem
    have hOthers : (others.map (SlotPc.freed v.slot.session packet)).sum = 0 :=
      sum_map_eq_zero fun pc' hOther =>
        SlotPc.freed_of_not_owns (SlotView.owns_alone hLocked hSound hPcs hOwns pc' hOther)
    rw [hPcs, Multiset.map_cons, Multiset.sum_cons, hOthers, add_zero]
    exact SlotPc.freed_le packet (hKnows pc hMem)
  · push Not at hOwner
    have hNone : (v.pcs.map (SlotPc.freed v.slot.session packet)).sum = 0 :=
      sum_map_eq_zero fun pc hMem => SlotPc.freed_of_not_owns (by simpa using hOwner pc hMem)
    rw [hNone]
    exact Nat.zero_le _

/-- Who has a packet in hand has acquired the session. -/
theorem SlotPc.inHand_le (pc : SlotPc) (packet : Nat) :
    pc.inHand packet ≤ (pc.sendActs.map SendAct.uses).sum := by
  unfold inHand
  split
  case h_4 => exact Nat.zero_le _
  all_goals
    rw [List.count_singleton]
    split
    · exact le_rfl
    · exact Nat.zero_le _

/-- A session at rest accounts for nothing. -/
theorem SlotView.references_rest (packet : Nat) (hLocked : v.sending.Locked)
    (hSound : v.life.Sound) (hKnows : ∀ pc ∈ v.pcs, pc.knows v.slot.session)
    (hReleased : v.slot.session.isReleased = true) (hDone : v.sending.total SendAct.releases = 0) :
    v.slot.session.sendQueue = [] ∧ v.slot.session.batch = [] ∧ v.references packet = 0 := by
  obtain ⟨hQueue, hCount, _⟩ := hLocked.rest hReleased hDone
  have hQueue : v.slot.session.sendQueue = [] := hQueue
  have hCount : v.slot.session.packetCount = 0 := hCount
  have hBatch : v.slot.session.batch = [] := by
    rw [NetSession.batch, hCount]
    rfl
  have hHand : (v.pcs.map (SlotPc.inHand packet)).sum = 0 := by
    have hUses := (SlotView.excludes hSound).live hReleased
    rw [v.sending_total] at hUses
    have hLe := Multiset.sum_map_le_sum_map (s := v.pcs) _ _ fun pc _ => SlotPc.inHand_le pc packet
    omega
  have hFreed := SlotView.freed_le packet hLocked hSound hKnows
  rw [hBatch, List.count_nil] at hFreed
  refine ⟨hQueue, hBatch, ?_⟩
  rw [SlotView.references, NetSession.occurrences, hQueue, hBatch, hHand, List.count_nil]
  omega

/-- Threads that only start at a session account for nothing. -/
theorem SlotView.references_starts (packet : Nat) {v' : SlotView} {extra : Multiset SlotPc}
    (hSession : v'.slot.session = v.slot.session) (hStarts : ∀ pc ∈ extra, pc.starts = true)
    (hPcs : v'.pcs = extra + v.pcs) : v'.references packet = v.references packet := by
  have hInHand : (extra.map (SlotPc.inHand packet)).sum = 0 := by
    apply sum_map_eq_zero
    intro pc hMem
    have hStart := hStarts pc hMem
    unfold SlotPc.starts at hStart
    split at hStart <;> first | rfl | cases hStart
  have hFreed : (extra.map (SlotPc.freed v.slot.session packet)).sum = 0 := by
    apply sum_map_eq_zero
    intro pc hMem
    have hStart := hStarts pc hMem
    unfold SlotPc.starts at hStart
    split at hStart <;> first | rfl | cases hStart
  simp only [SlotView.references, hPcs, hSession, Multiset.map_add, Multiset.sum_add, hInHand,
    hFreed, zero_add]

end View

namespace Server

variable {ioThreads callers poolSize : Nat} {s s' : Server ioThreads callers poolSize}
  {t : Thread ioThreads callers} {choice : Choice poolSize}
  {Guard : Server ioThreads callers poolSize → Thread ioThreads callers × Choice poolSize → Prop}

/-- The references that all sessions and all threads account for. -/
def references (s : Server ioThreads callers poolSize) (packet : Nat) : Int :=
  ∑ k, (s.view k).references packet

/-- Every slot of a run of the server makes a run of its own. -/
theorem Reached.slot (h : Reached Guard s) (k : Fin poolSize) :
    Reachable SlotStep (SlotAction.Meets fun _ _ _ => True) (SlotView.start k) (s.view k) :=
  Reached.view k (fun _ _ _ => True) (fun _ _ _ => trivial) h

/-- What a session accounts for covers its queue, and its batch unless the batch is
being freed. -/
theorem references_bounds (h : Reached Guard s) (k : Fin poolSize) (packet : Nat) :
    ((s.slots k).session.sendQueue.count packet : Int) ≤ (s.view k).references packet ∧
      ((∀ pc ∈ (s.view k).pcs, pc.freed (s.slots k).session packet = 0) →
        ((s.slots k).session.occurrences packet : Int) ≤ (s.view k).references packet) := by
  have hSlot := Reached.slot h k
  have hLe := SlotView.freed_le packet (SlotView.locked_of_reachable hSlot)
    (SlotView.sound_of_reachable hSlot) (SlotView.knows_of_reachable hSlot)
  have hSession : (s.view k).slot.session = (s.slots k).session := rfl
  rw [SlotView.references, hSession, NetSession.occurrences]
  rw [hSession] at hLe
  constructor
  · omega
  · intro hNone
    have hZero : ((s.view k).pcs.map (SlotPc.freed (s.slots k).session packet)).sum = 0 :=
      sum_map_eq_zero hNone
    rw [hZero]
    omega

/-- The references of a packet are never negative. -/
theorem references_nonneg (h : Reached Guard s) (packet : Nat) : 0 ≤ s.references packet := by
  apply Finset.sum_nonneg
  intro k _
  exact le_trans (Int.natCast_nonneg _) (references_bounds h k packet).1

/-- What one session accounts for is a part of the whole. -/
theorem references_le (h : Reached Guard s) (k : Fin poolSize) (packet : Nat) :
    (s.view k).references packet ≤ s.references packet := by
  apply Finset.single_le_sum (f := fun k => (s.view k).references packet) _ (Finset.mem_univ k)
  intro j _
  exact le_trans (Int.natCast_nonneg _) (references_bounds h j packet).1

/-- An effect changes counts as it says. -/
theorem refCount_apply (k : Fin poolSize) (rest : List (Frame poolSize)) (e : Effect)
    (packet : Nat) : (s.apply t rest k e).refCount packet = s.refCount packet + e.refsOf packet := by
  have hFold : ∀ (refs : List (Nat × Int)) (refCount : Nat → Int),
      refs.foldl (fun refCount r => Function.update refCount r.1 (refCount r.1 + r.2)) refCount
        packet = refCount packet + (refs.map fun r => if r.1 = packet then r.2 else 0).sum := by
    intro refs
    induction refs with
    | nil =>
        intro refCount
        simp
    | cons r refs ih =>
        intro refCount
        rw [List.foldl_cons, ih, List.map_cons, List.sum_cons]
        by_cases hSame : r.1 = packet
        · subst hSame
          rw [Function.update_self, if_pos rfl]
          omega
        · rw [Function.update_of_ne (Ne.symm hSame), if_neg hSame]
          omega
  exact hFold e.refs s.refCount

/-- In every run the count of a packet is what is accounted for. -/
theorem refCount_eq_references (h : Reached Guard s) (packet : Nat) :
    s.refCount packet = s.references packet := by
  apply h.invariant
  · have hNone : ∀ k, ((start ioThreads callers poolSize).view k).references packet = 0 := by
      intro k
      rw [start_view]
      simp [SlotView.references, SlotView.start, NetSession.new, NetSession.occurrences,
        NetSession.batch]
    simp only [references, hNone, Finset.sum_const_zero]
    rfl
  · intro s s' a hReached hEq _ hStep
    obtain ⟨t, choice⟩ := a
    rcases (step_advance hStep).runs_or_starts with
      ⟨env, rest, k, pc, e, _, hTop, hEffect, rfl⟩ | ⟨hCount, hSame⟩
    · have hSlot := Reached.slot hReached k
      have hViews : ∀ j, ((s.apply t rest k e).view j).references packet =
          (s.view j).references packet + if j = k then e.refsOf packet else 0 := by
        intro j
        by_cases hj : j = k
        · subst hj
          rw [if_pos rfl]
          exact (slotStep_apply hTop hEffect).references hEffect packet
            (SlotView.locked_of_reachable hSlot) (SlotView.sound_of_reachable hSlot)
            (SlotView.knows_of_reachable hSlot)
        · rw [view_apply_of_ne hTop (Ne.symm hj), if_neg hj, add_zero]
      rw [refCount_apply, hEq]
      simp only [references, hViews, Finset.sum_add_distrib, Finset.sum_ite_eq', Finset.mem_univ,
        if_true]
    · rw [hCount, hEq]
      apply Finset.sum_congr rfl
      intro k _
      obtain ⟨hSession, extra, hStarts, hPcs⟩ := hSame k
      exact (SlotView.references_starts packet hSession hStarts hPcs).symm

end Server

end NfNetwork.Net
