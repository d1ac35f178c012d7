import NfNetwork.Net.SessionLife

/-! One session with all that works on it. Every place in the code stands for
acts of the abstract machine, and every step of the code is one of its rows, so
a run of `SlotStep` is a run of `LifeStep`. -/
namespace NfNetwork.Net

open Machinery

/-- A row applied among further acts of the same frames. -/
abbrev Moves (c : Core) (acts : List Act) (label : Label) (c' : Core) (acts' : List Act) : Prop :=
  Within Row c acts label c' acts'

/-- A row of the table is a move of the one thread that it is about. -/
theorem Row.moves {c c' : Core} {pre post : List Act} {label : Label}
    (h : Row c pre label c' post) : Moves c pre label c' post :=
  .of_rule h

/-- What a thread has still to do behind the step stays as it is. -/
theorem Row.moves_tail {c c' : Core} {pre post : List Act} {label : Label}
    (h : Row c pre label c' post) (tail : List Act) :
    Moves c (pre ++ tail) label c' (post ++ tail) :=
  .of_rule_tail h tail

/-- A step that changes neither the session's core nor what the thread is about to do. -/
theorem Moves.quiet {c c' : Core} {acts acts' : List Act} (hCore : c' = c)
    (hActs : acts' = acts) : Moves c acts .quiet c' acts' := by
  subst hCore hActs
  exact (Row.quiet c' acts').moves

section Refinement

/-- What the caller of `SendPost` is doing meanwhile. -/
def SendCaller.act : SendCaller → Act
  | .sendPacket id => .held id
  | .ioThread => .serving none

/-- `SendPost` between its own `IncrementIO` and the outcome of `WSASend`. -/
def SendPostPc.armed : SendPostPc → Bool
  | .resetOverlapped _ | .socketClosed _ | .readSocket _ | .wsaSend _ => true
  | _ => false

/-- `RecvPost` between its own `IncrementIO` and the outcome of `WSARecv`. -/
def RecvPostPc.armed : RecvPostPc → Bool
  | .resetOverlapped | .socketClosed | .readSocket | .wsaRecv => true
  | _ => false

/-- `Init` after the new id is written. -/
def InitPc.named : InitPc → Bool
  | .checkReleased | .readPrevUid | .nextUid _ => false
  | _ => true

def ReleasePc.acts (id : Option Nat) : ReleasePc → List Act
  | .countDisconnected => id.toList.map .notifying
  | _ => [.releasing id]

/-- The acts that a place in the code stands for. -/
def SlotPc.acts : SlotPc → List Act
  | .findId _ _ | .findClosed _ _ | .findReleased _ _ | .acquireIncrement _ _ => []
  | .threw => [.threw]
  | .acquireCheckId _ _ | .decrement => [.counted]
  | .acquireCheckReleased id _ => [.matched id]
  | .enqueueClosed id _ | .enqueueReleased id _ | .addRef id _ | .enqueue id _
  | .disconnect id => [.held id]
  | .sendPost caller pc => if pc.armed then [.arming, caller.act] else [caller.act]
  | .returned caller => [caller.act]
  | .recvPost .ioThread pc => if pc.armed then [.arming, .serving none] else [.serving none]
  | .recvPost .acceptThread pc => if pc.armed then [.arming] else [.connected]
  | .readId => [.zero]
  | .checkReleased id | .tryRelease id => [.deciding id]
  | .release id pc => pc.acts id
  | .notify id => [.notifying id]
  | .finishSending (.release id) _ => [.releasing id]
  | .finishSending .ioThread _ => [.serving none]
  | .completed _ _ | .cancelTimedOut => [.completed]
  | .checkClosed _ | .sentReadId | .recvLoop | .receivedReadId | .recvCancel => [.serving none]
  | .sent id | .received id => [.serving (some id)]
  | .init pc => [.popped pc.named]
  | .countConnected | .bind => [.fresh]
  | .connectedReadId => [.bound none]
  | .connected id => [.bound (some id)]

/-- The label of the move made from a place. -/
def SlotPc.label (slot : Slot) : SlotPc → Label
  | .init .publish => .publish
  | .decrement => .decrement
  | .tryRelease id =>
      if slot.session.isReleased = false ∧ slot.session.ioCount = 0 then .release id else .quiet
  | .completed _ (.succeeded transferred) =>
      if slot.session.isReleased then .drop else if transferred = 0 then .quiet else .serve
  | _ => .quiet

/-- What the abstract machine sees of a slot. -/
def Slot.core (slot : Slot) (unused : Nat) (log : List Event) : Core where
  released := slot.session.isReleased
  ioCount := slot.session.ioCount
  id := slot.session.netSessionId
  pending := slot.pendingRecv + slot.pendingSend
  unused := unused
  log := log

/-- What the abstract machine sees of a slot after a step. -/
def Effect.core (e : Effect) (unused : Nat) (log : List Event) : Core :=
  e.slot.core (unused + if e.pushed then 1 else 0) (log ++ e.event.toList)

def Effect.acts (e : Effect) : List Act := e.next.flatMap SlotPc.acts

variable {slot : Slot} {env : Env} {e : Effect} (unused : Nat) (log : List Event)

attribute [local simp] SendCaller.act SendPostPc.armed RecvPostPc.armed InitPc.named ReleasePc.acts
  SlotPc.acts SlotPc.label Slot.core Effect.core Effect.acts

/-- Every caller of `SendPost` has the session acquired while it sends. -/
theorem SendCaller.act_holds (caller : SendCaller) : caller.act.holds = 1 := by cases caller <;> rfl

/-- To the life of a session `SendPost` is quiet up to the exit, where its caller goes on or a send
is posted. -/
theorem SendPostPc.step_moves {caller : SendCaller} {pc : SendPostPc}
    (h : pc.step slot env caller = some e) :
    Moves (slot.core unused log) (SlotPc.sendPost caller pc).acts
      ((SlotPc.sendPost caller pc).label slot) (e.core unused log) e.acts := by
  cases pc
  case increment batch =>
    cases h
    simp
    cases caller with
    | sendPacket id => exact (Row.armHeld _ id).moves
    | ioThread => exact (Row.armServing _).moves
  case wsaSend batch =>
    cases env <;> cases h <;> simp
    · exact (Row.post _).moves_tail [caller.act]
    all_goals exact (Row.forget _ _ rfl).moves_tail [caller.act]
  all_goals simp only [SendPostPc.step, goto, update] at h
  all_goals repeat' split at h
  all_goals cases h
  case socketClosed.isTrue | readSocket.isFalse =>
    simpa using (Row.forget _ _ rfl).moves_tail [caller.act]
  all_goals exact .quiet (by simp) (by simp)

/-- The same for `RecvPost`, whose posted receive holds a count. -/
theorem RecvPostPc.step_moves {caller : RecvCaller} {pc : RecvPostPc}
    (h : pc.step slot env caller = some e) :
    Moves (slot.core unused log) (SlotPc.recvPost caller pc).acts
      ((SlotPc.recvPost caller pc).label slot) (e.core unused log) e.acts := by
  cases pc
  case cancelFull =>
    cases h
    cases caller with
    | acceptThread => simpa [RecvCaller.returned] using (Row.leave _).moves
    | ioThread => exact .quiet (by simp) rfl
  case increment =>
    cases h
    cases caller with
    | acceptThread => simpa using (Row.armConnected _).moves
    | ioThread => simpa using (Row.armServing _).moves
  case wsaRecv =>
    cases env <;> cases h <;> cases caller <;> simp [RecvCaller.returned, Nat.add_right_comm]
    · exact (Row.post _).moves
    · exact (Row.post _).moves_tail [.serving none]
    · exact (Row.forget _ _ rfl).moves
    · exact (Row.forget _ _ rfl).moves_tail [.serving none]
    · exact (Row.forget _ _ rfl).moves
    · exact (Row.forget _ _ rfl).moves_tail [.serving none]
  all_goals simp only [RecvPostPc.step, goto] at h
  all_goals repeat' split at h
  all_goals cases h
  case socketClosed.isTrue | readSocket.isFalse =>
    cases caller with
    | acceptThread => simpa [RecvCaller.returned] using (Row.forget _ _ rfl).moves
    | ioThread =>
        simpa [RecvCaller.returned] using (Row.forget _ _ rfl).moves_tail [.serving none]
  all_goals exact .quiet (by simp) (by cases caller <;> simp)

/-- The steps of a release in their order: the id is cleared, the queue emptied, the session pushed,
the event handler called. -/
theorem ReleasePc.step_moves {id : Option Nat} {pc : ReleasePc}
    (h : pc.step slot id = some e) :
    Moves (slot.core unused log) (SlotPc.release id pc).acts
      ((SlotPc.release id pc).label slot) (e.core unused log) e.acts := by
  cases pc
  case clearId =>
    cases h
    simpa using (Row.clearId _ _).moves
  case push =>
    cases h
    cases id with
    | some id => simpa using (Row.push _ id).moves
    | none => simpa using (Row.pushSilent _).moves
  all_goals simp only [ReleasePc.step, goto, update] at h
  all_goals repeat' split at h
  all_goals cases h
  all_goals exact .quiet (by simp) (by cases id <;> simp)

/-- `FinishSending` frees packets and leaves the life of the session alone. -/
theorem FinishPc.step_moves {caller : FinishCaller} {pc : FinishPc}
    (h : pc.step slot caller = some e) :
    Moves (slot.core unused log) (SlotPc.finishSending caller pc).acts
      ((SlotPc.finishSending caller pc).label slot) (e.core unused log) e.acts := by
  cases caller <;> cases pc
  all_goals simp only [FinishPc.step, goto, update] at h
  all_goals repeat' split at h
  all_goals cases h
  all_goals exact .quiet (by simp) (by simp)

/-- `Init` publishes the session in one step; the stores around it are quiet. -/
theorem InitPc.step_moves {pc : InitPc} (h : pc.step slot = some e) :
    Moves (slot.core unused log) (SlotPc.init pc).acts
      ((SlotPc.init pc).label slot) (e.core unused log) e.acts := by
  cases pc
  case checkReleased =>
    simp only [InitPc.step, goto] at h
    split at h <;> cases h
    · exact .quiet (by simp) rfl
    · rename_i hLive
      simpa using (Row.abandon _ (by simpa using hLive)).moves
  case nextUid oldSessionUid =>
    simp only [InitPc.step, update] at h
    split at h <;> cases h
    · rename_i hUid
      have hUid' : (slot.session.sessionUidAcc + 1) % 2 ^ 48 % 2 ^ 48 ≠ 0 := by
        rw [Nat.mod_mod]
        exact hUid.1
      have hId := NetSession.genSessionId_ne_zero slot.session.sessionIndex hUid'
      simpa using (Row.name _ _ hId).moves
    · exact .quiet (by simp) rfl
  case publish =>
    cases h
    simpa using (Row.publish _).moves
  all_goals cases h
  all_goals exact .quiet (by simp) rfl

/-- Each step of the code is one row of the life table, with the label that the table gives it. -/
theorem SlotPc.step_moves {pc : SlotPc} (h : pc.step slot env = some e) :
    Moves (slot.core unused log) pc.acts (pc.label slot) (e.core unused log) e.acts := by
  cases pc
  case sendPost caller pc => exact SendPostPc.step_moves unused log h
  case recvPost caller pc => exact RecvPostPc.step_moves unused log h
  case release id pc => exact ReleasePc.step_moves unused log h
  case finishSending caller pc => exact FinishPc.step_moves unused log h
  case init pc => exact InitPc.step_moves unused log h
  case acquireIncrement id purpose =>
    simp only [SlotPc.step, update] at h
    split at h <;> cases h
    all_goals simpa using (Row.increment _).moves
  case acquireCheckId id purpose =>
    simp only [SlotPc.step, goto] at h
    split at h <;> cases h
    · exact .quiet (by simp) rfl
    · rename_i hId
      rw [← not_not.mp hId]
      simpa using (Row.matches _).moves
  case acquireCheckReleased id purpose =>
    simp only [SlotPc.step, goto] at h
    split at h <;> cases h
    · simpa using (Row.forget _ _ rfl).moves
    · rename_i hLive
      have hLive : slot.session.isReleased = false := by simpa using hLive
      cases purpose <;> simpa [Purpose.acquired] using (Row.acquire _ id hLive).moves
  case decrement =>
    cases h
    rcases Int.lt_trichotomy slot.session.ioCount 1 with hUnder | hLast | hMore
    · have hNegative : slot.session.ioCount - 1 < 0 := by omega
      simpa [hNegative] using (Row.underflow (slot.core unused log) hUnder).moves
    · simpa [hLast] using (Row.decrementLast (slot.core unused log) hLast).moves
    · have hPositive : ¬ slot.session.ioCount - 1 < 0 ∧ slot.session.ioCount - 1 ≠ 0 := by omega
      simpa [hPositive] using (Row.decrement (slot.core unused log) hMore).moves
  case checkReleased id =>
    simp only [SlotPc.step, goto] at h
    split at h <;> cases h
    · simpa using (Row.giveUp _ id).moves
    · exact .quiet (by simp) rfl
  case tryRelease id =>
    simp only [SlotPc.step, goto] at h
    split at h <;> cases h
    · rename_i hWin
      simpa [hWin] using (Row.win (slot.core unused log) id hWin.1 hWin.2).moves
    · rename_i hLose
      simpa [hLose] using (Row.giveUp _ id).moves
  case completed kind outcome =>
    cases outcome with
    | failed semTimeout =>
        simp only [SlotPc.step, goto] at h
        split at h <;> [skip; split at h] <;> cases h
        · simpa using (Row.forget _ _ rfl).moves
        · exact .quiet (by simp) rfl
        · simpa using (Row.forget _ _ rfl).moves
    | succeeded transferred =>
        simp only [SlotPc.step, goto] at h
        split at h
        · rename_i hReleased
          cases h
          simpa [hReleased] using (Row.drop (slot.core unused log) hReleased).moves
        · rename_i hReleased
          have hLive : slot.session.isReleased = false := by simpa using hReleased
          split at h
          · rename_i hZero
            cases h
            simpa [hLive, hZero] using (Row.forget _ .completed rfl).moves
          · rename_i hTransferred
            cases h
            simpa [hLive, hTransferred] using (Row.serve (slot.core unused log) hLive).moves
  case checkClosed kind =>
    simp only [SlotPc.step, goto] at h
    split at h <;> cases h
    · simpa using (Row.forget _ _ rfl).moves
    · cases kind <;> exact .quiet (by simp) rfl
  case bind =>
    cases env <;> cases h
    · simpa using (Row.bind (slot.core unused log)).moves
    all_goals simpa using (Row.bindFail _).moves
  case returned caller =>
    cases h
    simpa using (Row.forget _ _ caller.act_holds).moves
  case disconnect | cancelTimedOut | recvCancel =>
    cases h
    simpa using (Row.forget _ _ rfl).moves
  case readId => cases h; simpa using (Row.readId (slot.core unused log)).moves
  case notify id => cases h; simpa using (Row.notify (slot.core unused log) id).moves
  case sentReadId | receivedReadId =>
    cases h
    simpa using (Row.serveId (slot.core unused log)).moves
  case sent id =>
    cases h
    simpa using (Row.callback (slot.core unused log) id _ (.inr rfl)).moves
  case received id =>
    cases h
    simpa using (Row.callback (slot.core unused log) id _ (.inl rfl)).moves
  case connectedReadId => cases h; simpa using (Row.connectId (slot.core unused log)).moves
  case connected id => cases h; simpa using (Row.connect (slot.core unused log) id).moves
  all_goals simp only [SlotPc.step, goto, update] at h
  all_goals repeat' split at h
  all_goals cases h
  all_goals exact .quiet (by simp) (by simp)

end Refinement


/-- Only `AcquireSessionOrNull` has compared the id, between that and its second check. -/
theorem SlotPc.mem_acts_matched {pc : SlotPc} {id : Nat} (h : .matched id ∈ pc.acts) :
    ∃ purpose, pc = .acquireCheckReleased id purpose := by
  cases pc
  case acquireCheckReleased id' purpose =>
    cases List.mem_singleton.mp h
    exact ⟨purpose, rfl⟩
  case sendPost caller pc =>
    cases caller <;> cases hArmed : pc.armed <;> simp [acts, hArmed, SendCaller.act] at h
  case recvPost caller pc =>
    cases caller <;> cases hArmed : pc.armed <;> simp [acts, hArmed] at h
  case returned caller => cases caller <;> simp [acts, SendCaller.act] at h
  case release id pc => cases id <;> cases pc <;> simp [acts, ReleasePc.acts] at h
  case finishSending caller pc => cases caller <;> simp [acts] at h
  all_goals simp [acts] at h

section Labels

variable {slot : Slot} {pc : SlotPc}

/-- Only `Init` publishes a session. -/
theorem SlotPc.label_publish (h : pc.label slot = .publish) : pc = .init .publish := by
  unfold label at h
  repeat' split at h
  all_goals cases h
  rfl

/-- Counts are given back at one place of the code. -/
theorem SlotPc.label_decrement (h : pc.label slot = .decrement) : pc = .decrement := by
  unfold label at h
  repeat' split at h
  all_goals cases h
  rfl

/-- The compare-exchange of `TryRelease` wins at zero references only. -/
theorem SlotPc.label_release {id : Option Nat} (h : pc.label slot = .release id) :
    pc = .tryRelease id ∧ slot.session.isReleased = false ∧ slot.session.ioCount = 0 := by
  unfold label at h
  repeat' split at h
  all_goals cases h
  rename_i hWin
  exact ⟨rfl, hWin⟩

/-- A completion is served where it carries bytes and finds the session alive. -/
theorem SlotPc.label_serve (h : pc.label slot = .serve) : slot.session.isReleased = false ∧
    ∃ kind transferred, pc = .completed kind (.succeeded transferred) ∧ transferred ≠ 0 := by
  unfold label at h
  repeat' split at h
  all_goals cases h
  rename_i hLive hTransferred
  exact ⟨by simpa using hLive, _, _, rfl, hTransferred⟩

/-- A completion that finds its session released is dropped, count and all. -/
theorem SlotPc.label_drop (h : pc.label slot = .drop) : slot.session.isReleased = true ∧
    ∃ kind transferred, pc = .completed kind (.succeeded transferred) := by
  unfold label at h
  repeat' split at h
  all_goals cases h
  rename_i hReleased
  exact ⟨hReleased, _, _, rfl⟩

end Labels

/-- How much of the accept thread's attention a place stands for. -/
def SlotPc.accepts (pc : SlotPc) : Nat := (pc.acts.map Act.accepts).sum

/-- No move makes an accept out of something else. -/
theorem accepts_le_of_moves {c c' : Core} {acts acts' : List Act} {label : Label}
    (h : Moves c acts label c' acts') : (acts'.map Act.accepts).sum ≤ (acts.map Act.accepts).sum := by
  obtain ⟨pre, post, tail, rfl, rfl, hRow⟩ := h
  cases hRow <;> simp [Act.accepts]

/-- The accepts among the acts are those of the places. -/
theorem sum_accepts (pcs : List SlotPc) :
    ((pcs.flatMap SlotPc.acts).map Act.accepts).sum = (pcs.map SlotPc.accepts).sum := by
  induction pcs with
  | nil => rfl
  | cons pc pcs ih => simp [SlotPc.accepts, ih]

/-- A thread that is not accepting does not begin to in the midst of its code. -/
theorem SlotPc.step_accepts {slot : Slot} {env : Env} {pc : SlotPc} {e : Effect}
    (h : pc.step slot env = some e) : (e.next.map SlotPc.accepts).sum ≤ pc.accepts := by
  have hMoves := accepts_le_of_moves (SlotPc.step_moves 0 [] h)
  rwa [Effect.acts, sum_accepts] at hMoves

/-- The places at which a thread starts to work on a session. -/
def SlotPc.starts : SlotPc → Bool
  | .findId _ _ | .init .checkReleased | .completed _ _ => true
  | _ => false

/-- What concerns one session of the pool. -/
structure SlotView where
  slot : Slot
  unused : Nat
  log : List Event
  pcs : Multiset SlotPc

/-- What a step of the server is for one session. -/
inductive SlotAction where
  | stay
  | find (id : Nat) (purpose : Purpose)
  | pop
  | complete (kind : OpKind) (outcome : Outcome)
  | run (pc : SlotPc) (env : Env)

inductive SlotStep : SlotView → SlotAction → SlotView → Prop where
  | stay {v : SlotView} : SlotStep v .stay v
  | find {v : SlotView} {id : Nat} {purpose : Purpose} :
      SlotStep v (.find id purpose) { v with pcs := .findId id purpose ::ₘ v.pcs }
  | pop {v : SlotView} {unused : Nat} (hUnused : v.unused = unused + 1)
      (hAlone : (v.pcs.map SlotPc.accepts).sum = 0) :
      SlotStep v .pop
        { v with unused := unused, log := v.log ++ [.popped], pcs := .init .checkReleased ::ₘ v.pcs }
  | complete {v : SlotView} {kind : OpKind} {outcome : Outcome} {slot : Slot}
      (hTake : v.slot.takeCompletion kind = some slot) :
      SlotStep v (.complete kind outcome)
        { v with slot := slot, pcs := .completed kind outcome ::ₘ v.pcs }
  | run {v : SlotView} {pc : SlotPc} {env : Env} {e : Effect} {others : Multiset SlotPc}
      (hPcs : v.pcs = pc ::ₘ others) (hStep : pc.step v.slot env = some e) :
      SlotStep v (.run pc env)
        { slot := e.slot, unused := v.unused + if e.pushed then 1 else 0,
          log := v.log ++ e.event.toList, pcs := e.next + others }

/-- The session with the given index before its first pop. -/
def SlotView.start (index : Nat) : SlotView where
  slot := { session := .new index, pendingRecv := 0, pendingSend := 0 }
  unused := 1
  log := []
  pcs := 0

/-- A guard on the steps at a session, as a guard on all its steps. -/
def SlotAction.Meets (Allowed : SlotView → SlotPc → Env → Prop) (v : SlotView) : SlotAction → Prop
  | .run pc env => Allowed v pc env
  | _ => True

/-- The abstract machine's state. -/
def SlotView.life (v : SlotView) : Life where
  core := v.slot.core v.unused v.log
  acts := v.pcs.bind fun pc => pc.acts

def SlotAction.label (slot : Slot) : SlotAction → Label
  | .run pc _ => pc.label slot
  | _ => .quiet

/-- A measure of the acts is a sum over the places. -/
theorem SlotView.total_eq (v : SlotView) {f : Act → Nat} {g : SlotPc → Nat}
    (h : ∀ pc : SlotPc, (pc.acts.map f).sum = g pc) : v.life.total f = (v.pcs.map g).sum := by
  rw [Population.total, SlotView.life, sum_map_bind]
  exact congrArg Multiset.sum (Multiset.map_congr rfl fun pc _ => h pc)

/-- A thread's move is a step of the session's life, whatever the other threads are about. -/
theorem LifeStep.of_moves {v : Life} {c' : Core} {acts acts' : List Act} {label : Label}
    {others : Multiset Act} (hActs : v.acts = acts + others)
    (h : Moves v.core acts label c' acts') : LifeStep v label ⟨c', acts' + others⟩ := by
  obtain ⟨pre, post, others', hPre, hPost, hRow⟩ := h.rule hActs
  rw [hPost]
  exact .row hPre hRow

/-- A session may stay as it is. -/
theorem LifeStep.quiet {v : Life} : LifeStep v .quiet v := by
  have hActs : v.acts = ([] : List Act) + v.acts := (zero_add _).symm
  have hStep := LifeStep.row hActs (.quiet v.core [])
  rwa [← hActs] at hStep

/-- `GetQueuedCompletionStatus` hands a completion out and leaves the session alone. -/
theorem Slot.takeCompletion_session {slot slot' : Slot} {kind : OpKind}
    (h : slot.takeCompletion kind = some slot') : slot'.session = slot.session := by
  cases kind <;> simp only [Slot.takeCompletion] at h <;> split at h <;> cases h <;> rfl

/-- To the session's life it is a completion in a thread's hand. -/
theorem takeCompletion_core {slot slot' : Slot} {kind : OpKind} (unused : Nat) (log : List Event)
    (h : slot.takeCompletion kind = some slot') :
    Row (slot.core unused log) [] .quiet (slot'.core unused log) [.completed] := by
  have hPending : 0 < slot.pendingRecv + slot.pendingSend ∧ slot'.session = slot.session ∧
      slot'.pendingRecv + slot'.pendingSend = slot.pendingRecv + slot.pendingSend - 1 := by
    cases kind <;> simp only [Slot.takeCompletion] at h <;> split at h <;> cases h <;>
      simp only [true_and] <;> omega
  have hRow := Row.complete (slot.core unused log) hPending.1
  simpa [Slot.core, hPending.2.1, hPending.2.2] using hRow

/-- The acts of one more thread come on top of those of the others. -/
theorem SlotView.life_cons (slot : Slot) (unused : Nat) (log : List Event) (pc : SlotPc)
    (pcs : Multiset SlotPc) :
    (SlotView.mk slot unused log (pc ::ₘ pcs)).life =
      ⟨slot.core unused log, pc.acts + (SlotView.mk slot unused log pcs).life.acts⟩ := by
  rw [SlotView.life, Multiset.cons_bind]
  rfl

/-- Every step of one session's view is a step of the abstract machine. -/
theorem SlotStep.life {v v' : SlotView} {a : SlotAction} (h : SlotStep v a v') :
    LifeStep v.life (a.label v.slot) v'.life := by
  have hActs : v.life.acts = ([] : List Act) + v.life.acts := (zero_add _).symm
  cases h with
  | stay => exact LifeStep.quiet
  | find =>
      rw [SlotView.life_cons]
      exact .row hActs (.quiet v.life.core [])
  | pop hUnused hAlone =>
      rw [SlotView.life_cons]
      exact .pop hUnused ((v.total_eq fun _ => rfl).trans hAlone)
  | complete hTake =>
      rw [SlotView.life_cons]
      exact .row hActs (takeCompletion_core v.unused v.log hTake)
  | run hPcs hStep =>
      rename_i pc env e others
      have hMoves := SlotPc.step_moves v.unused v.log hStep
      have hActs : v.life.acts = pc.acts + others.bind fun pc => (pc.acts : Multiset Act) := by
        rw [SlotView.life, hPcs, Multiset.cons_bind]
      have hLife := LifeStep.of_moves hActs hMoves
      rwa [Effect.acts, ← Multiset.coe_bind, ← Multiset.add_bind] at hLife

/-- Every act belongs to the place of some thread. -/
theorem SlotView.mem_life_acts {v : SlotView} {a : Act} :
    a ∈ v.life.acts ↔ ∃ pc ∈ v.pcs, a ∈ pc.acts :=
  Multiset.mem_bind

/-- Runs of the code are runs of the life table, and a guard on the code that implies one on labels
carries over. -/
theorem SlotView.reachable_life {Allowed : SlotView → SlotPc → Env → Prop}
    {Allowed' : Life → Label → Prop} (hQuiet : ∀ v, Allowed' v .quiet)
    (hAllowed : ∀ {v pc env}, Allowed v pc env → Allowed' v.life (pc.label v.slot))
    {index : Nat} {v : SlotView}
    (h : Reachable SlotStep (SlotAction.Meets Allowed) (SlotView.start index) v) :
    Reachable LifeStep Allowed' Life.start v.life := by
  refine h.simulate SlotView.life ?_
  intro v v' b _ hMeets hStep
  refine ⟨b.label v.slot, ?_, hStep.life⟩
  cases b with
  | run pc env => exact hAllowed hMeets
  | _ => exact hQuiet _

/-- The counts of a session are right in every run of its own. -/
theorem SlotView.sound_of_reachable {Allowed : SlotView → SlotPc → Env → Prop} {index : Nat}
    {v : SlotView} (h : Reachable SlotStep (SlotAction.Meets Allowed) (SlotView.start index) v) :
    v.life.Sound := by
  have hLife : Reachable LifeStep (fun _ _ => True) Life.start v.life :=
    SlotView.reachable_life (fun _ => trivial) (fun _ => trivial) h
  exact Life.sound_of_reachable hLife

end NfNetwork.Net
