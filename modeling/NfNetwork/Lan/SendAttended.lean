import NfNetwork.Lan.SendOrder

/-! Who sends what is left in the queue of a LAN session. A caller that finds `IsSendingAtomic` raised
leaves its packet to the thread that raised it, and that thread may have sampled the queue already. -/
namespace NfNetwork.Lan

open Machinery

variable {ioThreads callers poolSize : Nat}

/-- The thread is about to look at the flag. -/
@[simp] def SlotPc.looks : SlotPc → Nat
  | .sendPost .readFlag | .sendPost .incrementFlag => 1
  | _ => 0

def SlotPc.finishes : SlotPc → Bool
  | .finishSending _ => true
  | _ => false

theorem finishes_of_flags {pc : SlotPc} (h : pc.flags = 0) : pc.finishes = false := by
  cases pc with
  | finishSending => cases h
  | _ => rfl

/-- The queue is empty, or somebody counts in the flag, or looks at it. -/
def Slot.Attends (slot : Slot) (looks : Nat) : Prop :=
  slot.session.sendQueue = [] ∨ 0 < slot.session.isSending ∨ 0 < looks

/-- The last one to count in the flag counts out over a queue that is not empty. -/
def Slot.Strands (slot : Slot) (looks : Nat) (pc : SlotPc) : Prop :=
  pc = .sendPost .decrementFlag ∧ slot.session.sendQueue ≠ [] ∧ slot.session.isSending = 1 ∧ looks = 0

section Steps

variable {slot : Slot} {env : Env} {e : Effect} {looks : Nat}

/-- What is counted in the flag attends to the queue until it is counted out. -/
theorem attends_of_step {pc : SlotPc} (h : pc.step slot env = some e) (hLives : pc.ends slot = false)
    (hCounted : (pc.flags : Int) ≤ slot.session.isSending)
    (hResumes : pc.finishes = true → 0 < looks) (hAttends : slot.Attends (looks + pc.looks)) :
    e.slot.Attends (looks + (e.next.map SlotPc.looks).sum) ↔ ¬slot.Strands looks pc := by
  simp only [Slot.Attends, Slot.Strands] at hAttends ⊢
  cases pc
  case sendPost pc =>
    cases pc <;> simp only [SlotPc.step, SendPostPc.step, goto, update] at h
    all_goals repeat' split at h
    all_goals cases h
    all_goals simp [Slot.post] at hCounted hAttends ⊢
    all_goals grind
  case recvPost pc =>
    cases pc <;> simp only [SlotPc.step, RecvPostPc.step, goto, update] at h
    all_goals repeat' split at h
    all_goals cases h
    all_goals simp [Slot.post] at hAttends ⊢
    all_goals grind
  case finishSending pc =>
    cases pc <;> simp only [SlotPc.step, FinishPc.step, goto, update] at h
    all_goals cases h
    all_goals simp [SlotPc.finishes] at hCounted hResumes ⊢
    all_goals grind
  case completed kind outcome =>
    cases outcome <;> cases kind <;> simp only [SlotPc.step, goto] at h
    all_goals repeat' split at h
    all_goals cases h
    all_goals simp at hAttends ⊢
    all_goals grind
  case init | drainCheck | drainDequeue | clearId | clearCount => cases hLives
  case tryRelease id index =>
    rw [SlotPc.step, if_neg (by simpa [SlotPc.ends] using hLives)] at h
    cases h
    simp at hAttends ⊢
    grind
  all_goals simp only [SlotPc.step, goto, update] at h
  all_goals repeat' split at h
  all_goals cases h
  all_goals simp at hAttends ⊢
  all_goals grind

/-- Where a step can leave a `FinishSending`. -/
theorem finishes_of_step {pc : SlotPc} (h : pc.step slot env = some e) (hLives : pc.ends slot = false) :
    (∀ pc' ∈ e.next, pc'.finishes = false) ∨
    (pc.finishes = true ∧ ∃ pc', e.next = [pc']) ∨
    e.next = [.finishSending (.free 0), .sentReadId, .sendPost .readFlag, .decrement] := by
  cases pc
  case sendPost pc =>
    left
    cases pc <;> simp only [SlotPc.step, SendPostPc.step, goto, update] at h
    all_goals repeat' split at h
    all_goals cases h
    all_goals simp [SlotPc.finishes]
  case recvPost pc =>
    left
    cases pc <;> simp only [SlotPc.step, RecvPostPc.step, goto, update] at h
    all_goals repeat' split at h
    all_goals cases h
    all_goals simp [SlotPc.finishes]
  case finishSending pc =>
    cases pc <;> cases h
    all_goals simp [SlotPc.finishes]
  case completed kind outcome =>
    cases outcome <;> cases kind <;> simp only [SlotPc.step, goto] at h
    all_goals repeat' split at h
    all_goals cases h
    all_goals simp [SlotPc.finishes]
  case init | drainCheck | drainDequeue | clearId | clearCount => cases hLives
  case tryRelease id index =>
    rw [SlotPc.step, if_neg (by simpa [SlotPc.ends] using hLives)] at h
    cases h
    simp [SlotPc.finishes]
  all_goals left
  all_goals simp only [SlotPc.step, goto, update] at h
  all_goals repeat' split at h
  all_goals cases h
  all_goals simp [SlotPc.finishes]

end Steps

/-- The frame is in `FinishSending` of the session in slot `k`. -/
def Frame.finishes (k : Fin poolSize) : Frame poolSize → Bool
  | .on k' pc => k' == k && pc.finishes
  | _ => false

/-- Below every `FinishSending` there is a `SendPost` to come. -/
def Resumes (k : Fin poolSize) : List (Frame poolSize) → Prop
  | [] => True
  | f :: below => (f.finishes k = true → .on k (.sendPost .readFlag) ∈ below) ∧ Resumes k below

theorem Resumes.of_append {k : Fin poolSize} {above below : List (Frame poolSize)}
    (h : Resumes k (above ++ below)) : Resumes k below := by
  induction above with
  | nil => exact h
  | cons f above ih => exact ih h.2

theorem Resumes.append {k : Fin poolSize} (above : List (Frame poolSize))
    {below : List (Frame poolSize)} (hAbove : ∀ f ∈ above, f.finishes k = false) (h : Resumes k below) : Resumes k (above ++ below) := by
  induction above with
  | nil => exact h
  | cons f above ih =>
      refine ⟨fun hFinishes => ?_, ih fun f hMem => hAbove f (List.mem_cons_of_mem _ hMem)⟩
      rw [hAbove f (List.mem_cons_self ..)] at hFinishes
      cases hFinishes

theorem Frame.finishes_of_plain {k : Fin poolSize} {f : Frame poolSize} (h : f.plain = true) :
    f.finishes k = false := by
  cases f with
  | on | nextUid | checkUid => cases h
  | _ => rfl

namespace Server

variable {s s' : Server ioThreads callers poolSize} {t : Thread ioThreads callers} {k : Fin poolSize}

theorem finishes_effectFrames {k' : Fin poolSize} {e : Effect}
    (h : k' = k → ∀ pc ∈ e.next, pc.finishes = false) : ∀ f ∈ effectFrames k' e, f.finishes k = false := by
  intro f hMem
  simp only [effectFrames, List.mem_append, List.mem_ite_nil_right, List.mem_singleton, List.mem_map] at hMem
  obtain ⟨-, rfl⟩ | ⟨pc, hNext, rfl⟩ := hMem
  · rfl
  · by_cases hk : k' = k
    · rw [Frame.finishes, h hk pc hNext, Bool.and_false]
    · simp [Frame.finishes, hk]

/-- The stack of a thread that works on slot `k` after its step. -/
theorem resumes_ran {pc : SlotPc} {rest : List (Frame poolSize)} {env : Env} {e : Effect}
    (h : Resumes k (.on k pc :: rest)) (hStep : pc.step (s.slots k) env = some e)
    (hLives : pc.ends (s.slots k) = false) : Resumes k (effectFrames k e ++ rest) := by
  rcases finishes_of_step hStep hLives with hNone | ⟨hFinishes, pc', hNext⟩ | hNext
  · exact h.2.append _ (finishes_effectFrames fun _ => hNone)
  · rw [effectFrames, hNext, List.append_assoc]
    refine Resumes.append _ (by split <;> simp [Frame.finishes, SlotPc.finishes]) ⟨fun _ => ?_, h.2⟩
    exact h.1 (by simpa [Frame.finishes, SlotPc.finishes] using hFinishes)
  · rw [effectFrames, hNext, List.append_assoc]
    refine Resumes.append _ (by split <;> simp [Frame.finishes, SlotPc.finishes]) ?_
    refine ⟨fun _ => by simp, h.2.append [_, _, _] ?_⟩
    simp [Frame.finishes, SlotPc.finishes]

theorem resumes_of_advance (h : ∀ t, Resumes k (s.threads t)) (hStep : s.Advance t s')
    (hLives : ∀ pc rest, s.threads t = .on k pc :: rest → pc.ends (s.slots k) = false) :
    ∀ t, Resumes k (s'.threads t) := by
  have hUpdate : ∀ stack, Resumes k stack → ∀ t', Resumes k (Function.update s.threads t stack t') := by
    intro stack hStack t'
    by_cases ht : t' = t
    · subst ht
      rwa [Function.update_self]
    · rw [Function.update_of_ne ht]
      exact h t'
  cases hStep with
  | plain top next hTop hPlain =>
      refine hUpdate _ (Resumes.append _ ?_ (hTop ▸ h t).of_append)
      exact fun f hMem => Frame.finishes_of_plain (hPlain f (List.mem_append_right _ hMem))
  | @called id purpose hIndex =>
      refine hUpdate _ (Resumes.append [_] ?_ (h t))
      cases purpose <;> simp [Frame.finishes, SlotPc.finishes, Purpose.entry]
  | completed hIdle hMem => exact hUpdate _ (Resumes.append [_] (by simp [Frame.finishes, SlotPc.finishes]) trivial)
  | popped hTop | counted hTop | refused hTop =>
      exact hUpdate _ (Resumes.append [_] (by simp [Frame.finishes, SlotPc.finishes]) (hTop ▸ h t).2)
  | chosen hTop hIndex =>
      refine hUpdate _ (Resumes.append _ ?_ (hTop ▸ h t).2)
      simp [Frame.finishes, SlotPc.finishes, initSteps]
  | @ran k' pc rest env e hTop hStep =>
      apply hUpdate
      by_cases hk : k' = k
      · subst hk
        exact resumes_ran (hTop ▸ h t) hStep (hLives pc rest hTop)
      · exact Resumes.append _ (finishes_effectFrames fun hEq => absurd hEq hk) (hTop ▸ h t).2

/-- The threads that are about to look at the flag of slot `k`. -/
def looks (s : Server ioThreads callers poolSize) (k : Fin poolSize) : Nat :=
  weight (Frame.weighs k SlotPc.looks) s.threads

/-- What is left in the queue of slot `k` will be sent, or fails with a send. -/
def Attended (k : Fin poolSize) (s : Server ioThreads callers poolSize) : Prop :=
  (s.slots k).Attends (s.looks k)

/-- The step takes the flag down over what others have left to it. -/
def Strands (k : Fin poolSize) (s : Server ioThreads callers poolSize)
    (a : Thread ioThreads callers × Choice poolSize) : Prop :=
  (∃ rest, s.threads a.1 = .on k (.sendPost .decrementFlag) :: rest) ∧
    (s.slots k).session.sendQueue ≠ [] ∧ (s.slots k).session.isSending = 1 ∧ s.looks k = 0

theorem attends_mono {slot slot' : Slot} {looks looks' : Nat} (h : slot.Attends looks)
    (hQueue : slot'.session.sendQueue = slot.session.sendQueue)
    (hSending : slot'.session.isSending = slot.session.isSending) (hLooks : looks ≤ looks') :
    slot'.Attends looks' := by
  rw [Slot.Attends, hQueue, hSending]
  exact h.imp_right fun hSome => hSome.imp_right fun hPos => by omega

/-- Frames that look at no flag go, and any come. -/
theorem Attended.quiet (h : Attended k s) (top next : List (Frame poolSize))
    {rest : List (Frame poolSize)} (hTop : s.threads t = top ++ rest)
    (hThreads : s'.threads = Function.update s.threads t (next ++ rest))
    (hQueue : (s'.slots k).session.sendQueue = (s.slots k).session.sendQueue)
    (hSending : (s'.slots k).session.isSending = (s.slots k).session.isSending)
    (hNone : ∀ f ∈ top, f.weighs k SlotPc.looks = 0) : Attended k s' := by
  refine attends_mono h hQueue hSending ?_
  rw [looks, looks, hThreads, weight_update_eq, weight_eq _ _ hTop, sum_map_zero hNone]
  omega

/-- The thread's own step. -/
theorem attended_ran_iff {log : List Traffic} {stuck : Nat} {took : List Nat} {pc : SlotPc}
    {rest : List (Frame poolSize)} {env : Env} {e : Effect} {choice : Choice poolSize}
    (hOrders : s.Orders k log stuck took) (hResumes : ∀ t, Resumes k (s.threads t)) (h : Attended k s)
    (hTop : s.threads t = .on k pc :: rest) (hStep : pc.step (s.slots k) env = some e)
    (hLives : pc.ends (s.slots k) = false) :
    Attended k (s.apply t rest k e) ↔ ¬Strands k s (t, choice) := by
  have hFlag := hOrders.gate.flag
  have hLooks := weight_eq (Frame.weighs k SlotPc.looks) [_] hTop
  rw [flags, weight_eq _ [_] hTop] at hFlag
  simp only [List.map_cons, List.map_nil, List.sum_singleton, Frame.weighs, if_true] at hFlag hLooks
  have hBelow : pc.finishes = true → 0 < ((others s.threads t rest).map (Frame.weighs k SlotPc.looks)).sum := by
    intro hFinishes
    have hMem := (hTop ▸ hResumes t).1 (by simpa [Frame.finishes] using hFinishes)
    have hLe := Multiset.single_le_sum (fun _ _ => Nat.zero_le _) _
      (Multiset.mem_map_of_mem (Frame.weighs k SlotPc.looks)
        (show _ ∈ others s.threads t rest from mem_others.mpr (.inl hMem)))
    simpa [Frame.weighs, Nat.one_le_iff_ne_zero, Nat.pos_iff_ne_zero] using hLe
  rw [Attended, looks, hLooks] at h
  have hIff := attends_of_step hStep hLives (by omega) hBelow h
  rw [Attended, looks, Strands, looks, hLooks]
  simp only [apply, Function.update_self, weight_update_eq, sum_weighs_effectFrames, if_true]
  rw [hIff, Slot.Strands, hTop]
  apply not_congr
  constructor
  · rintro ⟨rfl, hQueue, hOne, hNone⟩
    exact ⟨⟨rest, rfl⟩, hQueue, hOne, by simpa using hNone⟩
  · rintro ⟨⟨below, hPlace⟩, hQueue, hOne, hNone⟩
    cases hPlace
    exact ⟨rfl, hQueue, hOne, by omega⟩

/-- A thread that works on a slot does that slot's step. -/
theorem ran_of_step {k : Fin poolSize} {pc : SlotPc} {rest : List (Frame poolSize)} {choice : Choice poolSize}
    (hTop : s.threads t = .on k pc :: rest) (h : s.step (t, choice) = some s') :
    ∃ env e, pc.step (s.slots k) env = some e ∧ s' = s.apply t rest k e := by
  rw [step, hTop] at h
  cases choice with
  | env env =>
      obtain ⟨e, hStep, hApply⟩ := Option.bind_eq_some_iff.mp h
      cases hApply
      exact ⟨env, e, hStep, rfl⟩
  | call | completion => cases h

/-- What no other step does. -/
theorem attended_of_advance {log : List Traffic} {stuck : Nat} {took : List Nat} {choice : Choice poolSize}
    (hOrders : s.Orders k log stuck took) (hResumes : ∀ t, Resumes k (s.threads t)) (h : Attended k s)
    (hStep : s.Advance t s') (hKeeps : ¬Strands k s (t, choice))
    (hLives : ∀ pc rest, s.threads t = .on k pc :: rest → pc.ends (s.slots k) = false) : Attended k s' := by
  cases hStep with
  | plain top next hTop hPlain =>
      exact h.quiet top next hTop rfl rfl rfl fun f hMem =>
        Frame.weighs_of_plain (hPlain f (List.mem_append_left _ hMem))
  | @called id purpose hIndex => exact h.quiet [] [.on _ (purpose.entry id)] rfl rfl rfl rfl (by simp)
  | @completed k' op outcome hIdle hMem =>
      refine h.quiet [] [_] hIdle rfl ?_ ?_ (by simp)
      all_goals by_cases hk : k = k'
      all_goals simp [hk]
  | popped hTop | counted hTop | refused hTop =>
      exact h.quiet [_] [_] hTop rfl rfl rfl (by simp [Frame.weighs])
  | chosen hTop hIndex => exact h.quiet [_] _ hTop rfl rfl rfl (by simp [Frame.weighs])
  | @ran k' pc rest env e hTop hStep =>
      by_cases hk : k' = k
      · subst hk
        exact (attended_ran_iff hOrders hResumes h hTop hStep (hLives pc rest hTop)).mpr hKeeps
      · refine h.quiet [_] _ hTop rfl ?_ ?_ (by simp [Frame.weighs, hk])
        all_goals simp [apply, Ne.symm hk]

/-- No step but the flag's last decrement leaves the queue to nobody. -/
theorem attended_step_iff {log : List Traffic} {stuck : Nat} {took : List Nat} {choice : Choice poolSize}
    (hOrders : s.Orders k log stuck took) (hResumes : ∀ t, Resumes k (s.threads t)) (h : Attended k s)
    (hStep : lifeStep k s (t, choice) = some s') : Attended k s' ↔ ¬Strands k s (t, choice) := by
  obtain ⟨hAdvance, hLives⟩ := advance_of_lifeStep hStep
  by_cases hStrands : Strands k s (t, choice)
  · obtain ⟨⟨rest, hTop⟩, -⟩ := id hStrands
    have hTakes : s.step (t, choice) = some s' := by
      rw [lifeStep, checked] at hStep
      split at hStep
      · exact hStep
      · cases hStep
    obtain ⟨env, e, hRan, rfl⟩ := ran_of_step hTop hTakes
    exact attended_ran_iff hOrders hResumes h hTop hRan (hLives _ rest hTop)
  · exact iff_of_true (attended_of_advance hOrders hResumes h hAdvance hStrands hLives) hStrands

/-- While a session lives, what is in its queue has somebody to send it, in every state of a run, exactly
if no thread ever takes the flag down over a queue that was left to it. -/
theorem attended_iff_never_strands {s₀ : Server ioThreads callers poolSize}
    {actions : List (Thread ioThreads callers × Choice poolSize)} (hIdle : s₀.Idle k)
    (hRun : exec (lifeStep k) s₀ actions = some s) :
    EachState (lifeStep k) (Attended k) s₀ actions ↔
      EachStep (lifeStep k) (fun s a => ¬Strands k s a) s₀ actions := by
  refine eachState_iff_eachStep
    (fun s => (∃ log stuck took, s.Orders k log stuck took) ∧ ∀ t, Resumes k (s.threads t))
    ?_ ?_ ⟨⟨[], 0, [], hIdle.orders⟩, ?_⟩ (.inl hIdle.queue) hRun
  · rintro s s' ⟨t, choice⟩ ⟨⟨log, stuck, took, hOrders⟩, hResumes⟩ hStep
    obtain ⟨hAdvance, hLives⟩ := advance_of_lifeStep hStep
    obtain ⟨stuck', took', hOrders'⟩ := hOrders.step hAdvance hLives
    exact ⟨⟨_, stuck', took', hOrders'⟩, resumes_of_advance hResumes hAdvance hLives⟩
  · rintro s s' ⟨t, choice⟩ ⟨⟨log, stuck, took, hOrders⟩, hResumes⟩ hAttended hStep
    exact attended_step_iff hOrders hResumes hAttended hStep
  · intro t
    rw [← List.append_nil (s₀.threads t)]
    refine Resumes.append _ (fun f hMem => ?_) trivial
    have hNone := hIdle.places t f hMem
    cases f with
    | on k' pc =>
        by_cases hk : k' = k
        · rw [Frame.weighs, if_pos hk] at hNone
          rw [Frame.finishes, finishes_of_flags hNone, Bool.and_false]
        · simp [Frame.finishes, hk]
    | _ => rfl

/-- The thread that finished a send samples an empty queue, a caller leaves its packet to it, and it
takes the flag down. -/
private def packetLeft : List (Thread 1 2 × Choice 2) :=
  ([(.caller 0, .call (2 ^ 48 + 1) (.sendPacket 7))] : List (Thread 1 2 × Choice 2)) ++
    goes (.caller 0) 18 ++
    ([(.io 0, .completion 1 (.send, 1) (.succeeded 1))] : List (Thread 1 2 × Choice 2)) ++
    goes (.io 0) 11 ++
    ([(.caller 1, .call (2 ^ 48 + 1) (.sendPacket 8))] : List (Thread 1 2 × Choice 2)) ++
    goes (.caller 1) 8 ++ goes (.io 0) 2

/-- The second packet stays in the queue, with nobody left to look at it. -/
theorem attended_iff_never_strands_packetLeft :
    ∃ s₀ s : Server 1 2 2, exec (lifeStep 1) s₀ packetLeft = some s ∧
      (s.slots 1).session.sendQueue = [8] ∧ (∀ t, s.threads t = []) ∧
      ¬EachStep (lifeStep 1) (fun s a => ¬Strands 1 s a) s₀ packetLeft := by
  have hRun : ((exec step (start 1 2 2) (goes .accept 21)).bind fun s =>
      (exec (lifeStep 1) s packetLeft).map fun s' =>
        decide (((s.slots 1).session.isSending = 0 ∧ (s.slots 1).session.sendQueue = [] ∧
          (s.slots 1).sends = 0 ∧ ∀ t, ∀ f ∈ s.threads t, f.weighs 1 SlotPc.flags = 0) ∧
          (s'.slots 1).session.sendQueue = [8] ∧ (s'.slots 1).session.isSending = 0 ∧
          ∀ t, s'.threads t = [])) = some true := by
    decide +kernel
  obtain ⟨s₀, -, hLives⟩ := Option.bind_eq_some_iff.mp hRun
  obtain ⟨s, hExec, hHolds⟩ := Option.map_eq_some_iff.mp hLives
  obtain ⟨⟨hFlag, hQueue, hSends, hPlaces⟩, hLeft, hDown, hGone⟩ := of_decide_eq_true hHolds
  refine ⟨s₀, s, hExec, hLeft, hGone, fun hSteps => ?_⟩
  have hAttended : Attended 1 s :=
    (attended_iff_never_strands ⟨hFlag, hQueue, hSends, hPlaces⟩ hExec).mpr hSteps packetLeft [] s
      (List.append_nil _).symm hExec
  rcases hAttended with hEmpty | hUp | hLooks
  · rw [hLeft] at hEmpty
    cases hEmpty
  · rw [hDown] at hUp
    cases hUp
  · obtain ⟨t, f, hMem, -⟩ := exists_of_weight (Nat.pos_iff_ne_zero.mp hLooks)
    rw [hGone t] at hMem
    cases hMem

end Server

end NfNetwork.Lan
