import NfNetwork.Net.ServerView
import NfNetwork.Packet.Contents
import NfNetwork.Packet.EncodeSteps

/-! One packet sent to many sessions. `SendPacket` calls `EncodeOnce` when it has
acquired the session and before it appends; here a server runs together with the
memory of its packets, one access of `EncodeOnce` at a time, and the kernel may
read a packet at any time after it was handed to `WSASend`. -/
namespace NfNetwork.Net

open Machinery

/-- The packets that a frame of `SendPacket` holds once `EncodeOnce` has returned. -/
def SlotPc.packets : SlotPc → List Nat
  | .enqueueReleased _ packet | .addRef _ packet | .enqueue _ packet => [packet]
  | .sendPost _ (.dequeue _ _ batch) | .sendPost _ (.checkCount batch)
  | .sendPost _ (.markPosted batch) | .sendPost _ (.increment batch)
  | .sendPost _ (.resetOverlapped batch) | .sendPost _ (.socketClosed batch)
  | .sendPost _ (.readSocket batch) | .sendPost _ (.wsaSend batch) => batch
  | .sendPost _ (.store _ _ batch packet) | .sendPost _ (.count _ _ batch packet) =>
      batch ++ [packet]
  | _ => []

/-- The packets that the step of a frame can pass on. -/
def SlotPc.passes : SlotPc → List Nat
  | .enqueueClosed _ packet => [packet]
  | pc => pc.packets

/-- The packets that a step hands to `WSASend`. -/
def SlotPc.posts (env : Env) : SlotPc → List Nat
  | .sendPost _ (.wsaSend batch) => if env = .ok then batch else []
  | _ => []

/-- A thread posts packets that it carries. -/
theorem SlotPc.posts_subset (env : Env) (pc : SlotPc) : pc.posts env ⊆ pc.packets := by
  unfold SlotPc.posts
  split
  · split <;> simp [SlotPc.packets]
  · exact List.nil_subset _

section Packets

variable {slot : Slot} {env : Env} {pc : SlotPc} {e : Effect}

/-- What a step leaves in frames and in the queue, its frame passed on or the
queue held. -/
abbrev PassesOn (slot : Slot) (pc : SlotPc) (e : Effect) : Prop :=
  e.next.flatMap SlotPc.packets ++ e.slot.session.sendQueue ⊆ pc.passes ++ slot.session.sendQueue

/-- `SendPost` takes its packets from the queue. -/
theorem SendPostPc.step_packets {caller : SendCaller} {pc : SendPostPc}
    (h : pc.step slot env caller = some e) : PassesOn slot (.sendPost caller pc) e := by
  cases pc
  case clearFlag | markPosted =>
    cases h
    simp [PassesOn, SlotPc.packets, SlotPc.passes]
  all_goals simp only [SendPostPc.step, goto, update] at h
  all_goals repeat' split at h
  all_goals cases h
  all_goals simp_all [PassesOn, SlotPc.packets, SlotPc.passes]

/-- Every step passes on packets of its frame or of the queue. -/
theorem SlotPc.step_packets (h : pc.step slot env = some e) : PassesOn slot pc e := by
  unfold PassesOn
  cases pc
  case sendPost caller pc => exact SendPostPc.step_packets h
  case recvPost caller pc =>
    cases pc <;> simp only [SlotPc.step, RecvPostPc.step, goto, update] at h
    all_goals repeat' split at h
    all_goals cases h
    all_goals cases caller <;> simp [SlotPc.packets, RecvCaller.returned]
  case release id pc =>
    cases pc <;> simp only [SlotPc.step, ReleasePc.step, goto, update] at h
    all_goals repeat' split at h
    all_goals cases h
    all_goals simp_all [SlotPc.packets]
    cases id <;> simp [SlotPc.packets]
  case finishSending caller pc =>
    cases pc
    case clearFlag =>
      cases h
      cases caller <;> simp [SlotPc.packets]
    all_goals simp only [SlotPc.step, FinishPc.step, goto, update] at h
    all_goals repeat' split at h
    all_goals cases h
    all_goals simp [SlotPc.packets]
  case init pc =>
    cases pc <;> simp only [SlotPc.step, InitPc.step, goto, update] at h
    all_goals repeat' split at h
    all_goals cases h
    all_goals simp [SlotPc.packets]
  case acquireCheckReleased id purpose =>
    cases h
    cases purpose <;> split <;>
      simp [SlotPc.packets, Purpose.acquired]
  case enqueueClosed id packet =>
    cases h
    split <;> simp [SlotPc.packets, SlotPc.passes]
  case completed kind outcome =>
    cases outcome <;> cases h <;> repeat' split
    all_goals simp [SlotPc.packets]
  case checkClosed kind =>
    cases kind <;> cases h <;> split <;> simp [SlotPc.packets]
  case recvLoop | bind => cases env <;> cases h <;> simp [SlotPc.packets]
  all_goals simp only [SlotPc.step, goto, update] at h
  all_goals repeat' split at h
  all_goals cases h
  all_goals simp [SlotPc.packets, SlotPc.passes]

/-- The frame that calls `EncodeOnce` is the only one that its step leaves. -/
theorem SlotPc.of_enters {id packet : Nat} (h : pc.step slot env = some e)
    (hNext : .enqueueClosed id packet ∈ e.next) :
    e.callsHandler = false ∧ e.next = [.enqueueClosed id packet] := by
  cases pc
  case acquireCheckReleased id' purpose =>
    simp only [SlotPc.step, goto] at h
    split at h <;> cases h
    · simp at hNext
    · cases purpose <;> simp [Purpose.acquired] at hNext ⊢
      exact ⟨hNext.1.symm, hNext.2.symm⟩
  case sendPost caller pc =>
    cases pc <;> simp only [SlotPc.step, SendPostPc.step, goto, update] at h
    all_goals repeat' split at h
    all_goals cases h
    all_goals simp at hNext
  case recvPost caller pc =>
    cases pc <;> simp only [SlotPc.step, RecvPostPc.step, goto, update] at h
    all_goals repeat' split at h
    all_goals cases h
    all_goals cases caller <;> simp [RecvCaller.returned] at hNext
  case release id' pc =>
    cases pc <;> simp only [SlotPc.step, ReleasePc.step, goto, update] at h
    all_goals repeat' split at h
    all_goals cases h
    all_goals simp at hNext
  case finishSending caller pc =>
    cases pc <;> simp only [SlotPc.step, FinishPc.step, goto, update] at h
    all_goals repeat' split at h
    all_goals cases h
    all_goals simp at hNext
  case init pc =>
    cases pc <;> simp only [SlotPc.step, InitPc.step, goto, update] at h
    all_goals repeat' split at h
    all_goals cases h
    all_goals simp at hNext
  case completed kind outcome =>
    cases outcome <;> cases h <;> revert hNext <;> repeat' split
    all_goals simp
  case checkClosed kind => cases kind <;> cases h <;> revert hNext <;> split <;> simp
  case recvLoop | bind => cases env <;> cases h <;> simp at hNext
  all_goals simp only [SlotPc.step, goto, update] at h
  all_goals repeat' split at h
  all_goals cases h
  all_goals revert hNext
  all_goals simp

end Packets

/-- A thread that enters a session's code carries nothing yet. -/
theorem SlotPc.packets_of_starts {pc : SlotPc} (h : pc.starts = true) : pc.packets = [] := by
  unfold SlotPc.starts at h
  split at h
  · rfl
  · rfl
  · rfl
  · cases h

namespace Server

variable {ioThreads callers poolSize : Nat} {s s' : Server ioThreads callers poolSize}
  {t : Thread ioThreads callers} {choice : Choice poolSize}

/-- The packets that some frame or some queue holds, encoded or about to be. -/
def Carries (s : Server ioThreads callers poolSize) (packet : Nat) : Prop :=
  (∃ t k pc, .on k pc ∈ s.threads t ∧ packet ∈ pc.packets) ∨
    ∃ k, packet ∈ (s.slots k).session.sendQueue

/-- The call of `EncodeOnce` that the thread stands before. -/
def encodes (s : Server ioThreads callers poolSize) (t : Thread ioThreads callers) :
    Option (Nat × EncodePc) :=
  match s.threads t with
  | .on _ (.enqueueClosed _ packet) :: _ => some (packet, .exchange)
  | _ => none

/-- The packets that a step of the thread hands to `WSASend`. -/
def posts (s : Server ioThreads callers poolSize) (t : Thread ioThreads callers) :
    Choice poolSize → List Nat
  | .env env => match s.threads t with
    | .on _ pc :: _ => pc.posts env
    | _ => []
  | _ => []

/-- What is posted is carried by its session. -/
theorem carries_of_posts {packet : Nat} (h : packet ∈ s.posts t choice) : s.Carries packet := by
  cases choice with
  | env env =>
      unfold posts at h
      cases hTop : s.threads t with
      | nil =>
          rw [hTop] at h
          cases h
      | cons frame rest =>
          rw [hTop] at h
          cases frame with
          | on k pc =>
              refine .inl ⟨t, k, pc, ?_, pc.posts_subset env h⟩
              rw [hTop]
              exact List.mem_cons_self
          | handler | acceptDecide | acceptPop | acceptEnded => cases h
  | call | completion => cases h

/-- Where the frames at the sessions come from. -/
theorem Advance.frame {k : Fin poolSize} {pc : SlotPc} {t' : Thread ioThreads callers}
    (h : s.Advance t choice s') (hFrame : .on k pc ∈ s'.threads t') :
    .on k pc ∈ s.threads t' ∨ pc.starts = true ∨
      ∃ env rest pc' e, t' = t ∧ s.threads t = .on k pc' :: rest ∧
        pc'.step (s.slots k) env = some e ∧ s' = s.apply t rest k e ∧ pc ∈ e.next := by
  have hOther : ∀ {stack : List (Frame poolSize)}, s'.threads = Function.update s.threads t stack →
      (t' = t → .on k pc ∈ stack → .on k pc ∈ s.threads t ∨ pc.starts = true ∨
        ∃ env rest pc' e, t' = t ∧ s.threads t = .on k pc' :: rest ∧
          pc'.step (s.slots k) env = some e ∧ s' = s.apply t rest k e ∧ pc ∈ e.next) →
      .on k pc ∈ s.threads t' ∨ pc.starts = true ∨
        ∃ env rest pc' e, t' = t ∧ s.threads t = .on k pc' :: rest ∧
          pc'.step (s.slots k) env = some e ∧ s' = s.apply t rest k e ∧ pc ∈ e.next := by
    intro stack hThreads hOwn
    rw [hThreads] at hFrame
    by_cases ht : t' = t
    · subst ht
      rw [Function.update_self] at hFrame
      exact hOwn rfl hFrame
    · rw [Function.update_of_ne ht] at hFrame
      exact .inl hFrame
  cases h with
  | control top next rest hTop hOutside =>
      refine hOther rfl fun _ hIn => .inl ?_
      rw [hTop]
      rcases List.mem_append.mp hIn with hNext | hRest
      · have hNone := (hOutside k).2
        rw [List.filterMap_eq_nil_iff] at hNone
        have hAt := hNone _ hNext
        simp [Frame.pcAt] at hAt
      · exact List.mem_append_right _ hRest
  | find j id purpose =>
      refine hOther rfl fun _ hIn => ?_
      rcases List.mem_cons.mp hIn with hNew | hOld
      · cases hNew
        exact .inr (.inl rfl)
      · exact .inl hOld
  | pop hTop hUnused =>
      refine hOther rfl fun _ hIn => ?_
      rcases List.mem_cons.mp hIn with hNew | hOld
      · cases hNew
        exact .inr (.inl rfl)
      · rw [hTop]
        exact .inl (List.mem_cons_of_mem _ hOld)
  | complete hIdle hTake =>
      refine hOther rfl fun _ hIn => ?_
      cases List.mem_singleton.mp hIn
      exact .inr (.inl rfl)
  | run hTop hStep =>
      rename_i env rest j pc' e
      refine hOther rfl fun hSame hIn => ?_
      rcases List.mem_append.mp hIn with hNew | hOld
      · rcases List.mem_append.mp hNew with hHandler | hNext
        · split at hHandler <;> simp at hHandler
        · obtain ⟨pc'', hMem, hEq⟩ := List.mem_map.mp hNext
          cases hEq
          exact .inr (.inr ⟨env, rest, pc', e, hSame, hTop, hStep, rfl, hMem⟩)
      · rw [hTop]
        exact .inl (List.mem_cons_of_mem _ hOld)

/-- Where the packets of a queue come from. -/
theorem Advance.queue {k : Fin poolSize} (h : s.Advance t choice s') :
    (s'.slots k).session.sendQueue = (s.slots k).session.sendQueue ∨
      ∃ env rest pc e, s.threads t = .on k pc :: rest ∧ pc.step (s.slots k) env = some e ∧
        (s'.slots k).session.sendQueue = e.slot.session.sendQueue := by
  cases h with
  | control | find | pop => exact .inl rfl
  | complete hIdle hTake =>
      rename_i j kind outcome slot
      left
      by_cases hk : k = j
      · subst hk
        simp only [Function.update_self]
        cases kind <;> simp only [Slot.takeCompletion] at hTake <;> split at hTake <;> cases hTake <;>
          rfl
      · simp only [Function.update_of_ne hk]
  | run hTop hStep =>
      rename_i env rest j pc e
      by_cases hk : k = j
      · subst hk
        exact .inr ⟨env, rest, pc, e, hTop, hStep, by simp [apply]⟩
      · exact .inl (by simp [apply, Function.update_of_ne hk])

/-- What a step at a session leaves in frames and in the queue was carried, or a
thread appends it after its `EncodeOnce`. -/
theorem carries_of_step {env : Env} {packet : Nat} {k : Fin poolSize} {pc : SlotPc}
    {rest : List (Frame poolSize)} {e : Effect} (hTop : s.threads t = .on k pc :: rest)
    (hStep : pc.step (s.slots k) env = some e)
    (hPacket : packet ∈ e.next.flatMap SlotPc.packets ++ e.slot.session.sendQueue) :
    s.Carries packet ∨ ∃ id, pc = .enqueueClosed id packet := by
  have hFrame : .on k pc ∈ s.threads t := by
    rw [hTop]
    exact List.mem_cons_self
  rcases List.mem_append.mp (SlotPc.step_packets hStep hPacket) with hPasses | hQueue
  · cases pc
    case enqueueClosed id packet' =>
      obtain rfl := List.mem_singleton.mp hPasses
      exact .inr ⟨id, rfl⟩
    all_goals exact .inl (.inl ⟨t, k, _, hFrame, hPasses⟩)
  · exact .inl (.inr ⟨k, hQueue⟩)

/-- A packet gets into a session's hands by `Enqueue` only. -/
theorem Advance.carries {packet : Nat} (h : s.Advance t choice s') (hCarries : s'.Carries packet) :
    s.Carries packet ∨ ∃ k id, .on k (.enqueueClosed id packet) ∈ s.threads t := by
  have hSource : ∀ {env : Env} {k : Fin poolSize} {pc : SlotPc} {rest : List (Frame poolSize)}
      {e : Effect}, s.threads t = .on k pc :: rest → pc.step (s.slots k) env = some e →
      packet ∈ e.next.flatMap SlotPc.packets ++ e.slot.session.sendQueue →
      s.Carries packet ∨ ∃ k id, .on k (.enqueueClosed id packet) ∈ s.threads t := by
    intro env k pc rest e hTop hStep hPacket
    rcases carries_of_step hTop hStep hPacket with hCarried | ⟨id, rfl⟩
    · exact .inl hCarried
    · refine .inr ⟨k, id, ?_⟩
      rw [hTop]
      exact List.mem_cons_self
  rcases hCarries with ⟨t', k, pc, hFrame, hPacket⟩ | ⟨k, hPacket⟩
  · rcases h.frame hFrame with hOld | hStarts | ⟨env, rest, pc', e, _, hTop, hStep, _, hNext⟩
    · exact .inl (.inl ⟨t', k, pc, hOld, hPacket⟩)
    · rw [SlotPc.packets_of_starts hStarts] at hPacket
      cases hPacket
    · exact hSource hTop hStep (List.mem_append_left _ (List.mem_flatMap.mpr ⟨pc, hNext, hPacket⟩))
  · rcases h.queue (k := k) with hSame | ⟨env, rest, pc, e, hTop, hStep, hSame⟩
    · rw [hSame] at hPacket
      exact .inl (.inr ⟨k, hPacket⟩)
    · rw [hSame] at hPacket
      exact hSource hTop hStep (List.mem_append_right _ hPacket)

/-- A frame that calls `EncodeOnce` is on top when it is new. -/
theorem Advance.enters {packet id : Nat} {k : Fin poolSize} {t' : Thread ioThreads callers}
    (h : s.Advance t choice s') (hFrame : .on k (.enqueueClosed id packet) ∈ s'.threads t') :
    .on k (.enqueueClosed id packet) ∈ s.threads t' ∨
      t' = t ∧ s'.encodes t = some (packet, .exchange) := by
  rcases h.frame hFrame with hOld | hStarts | ⟨env, rest, pc, e, rfl, hTop, hStep, rfl, hNext⟩
  · exact .inl hOld
  · cases hStarts
  · obtain ⟨hEvent, hOnly⟩ := SlotPc.of_enters hStep hNext
    refine .inr ⟨rfl, ?_⟩
    simp [encodes, apply, hEvent, hOnly]

end Server

/-- A server and the memory of its packets. `encoding` says which threads are in
`EncodeOnce` and where, `posted` which packets were handed to `WSASend`, and
`reads` what the kernel read of them. -/
structure Wire (ioThreads callers poolSize : Nat) where
  server : Server ioThreads callers poolSize
  packets : Nat → Packet netLayout
  encoding : Thread ioThreads callers → Option (Nat × EncodePc)
  posted : List Nat
  reads : List (Nat × List UInt8)

inductive WireAction (ioThreads callers poolSize : Nat) where
  | server (t : Thread ioThreads callers) (choice : Choice poolSize)
  -- one access of `EncodeOnce`, with what `rand()` returns
  | encode (t : Thread ioThreads callers) (rand : Nat)
  | read (packet : Nat)

namespace Wire

variable {ioThreads callers poolSize : Nat}

/-- A fresh server, and packets that their callers have filled. -/
def start (ioThreads callers poolSize : Nat) (original : Nat → Packet netLayout) :
    Wire ioThreads callers poolSize where
  server := .start ioThreads callers poolSize
  packets := original
  encoding _ := none
  posted := []
  reads := []

def step (option : ServerComponentOption) (w : Wire ioThreads callers poolSize) :
    WireAction ioThreads callers poolSize → Option (Wire ioThreads callers poolSize)
  | .server t choice =>
      if w.encoding t = none then do
        let server ← w.server.step (t, choice)
        some { w with
          server := server
          encoding := Function.update w.encoding t (server.encodes t)
          posted := w.posted ++ w.server.posts t choice }
      else none
  | .encode t rand => do
      let (packet, pc) ← w.encoding t
      let (p, next) ← pc.step option.packetCode option.packetEncodeKey (w.packets packet) rand
      some { w with
        packets := Function.update w.packets packet p
        encoding := Function.update w.encoding t (next.map fun pc => (packet, pc)) }
  | .read packet =>
      if packet ∈ w.posted then
        some { w with reads := w.reads ++ [(packet, (w.packets packet).wireBytes)] }
      else none

variable (option : ServerComponentOption) (original : Nat → Packet netLayout)

/-- What was read is what one complete `EncodeOnce` makes of the packet. -/
def ReadsEncoded (w : Wire ioThreads callers poolSize) : Prop :=
  ∀ packet bytes, (packet, bytes) ∈ w.reads → ∃ rand p,
    (original packet).encodeOnce option.packetCode option.packetEncodeKey rand = some (true, p) ∧
      bytes = p.wireBytes

/-- The kernel does not read a packet while the thread that won the exchange on
it is still in `EncodeOnce`. -/
def ReadsLate (w : Wire ioThreads callers poolSize)
    (a : WireAction ioThreads callers poolSize) : Prop :=
  ∀ packet, a = .read packet → ∀ t pc, w.encoding t = some (packet, pc) → pc = .exchange

/-- The thread won the exchange on the packet and is still in `EncodeOnce`. -/
def Inside (w : Wire ioThreads callers poolSize) (packet : Nat) (t : Thread ioThreads callers)
    (pc : EncodePc) : Prop :=
  w.encoding t = some (packet, pc) ∧ pc ≠ .exchange

/-- What is known of one packet: it is as its caller left it until somebody wins
the exchange; then one thread is inside, and what its call gives is the result;
then the packet is the result. -/
structure Encodes (w : Wire ioThreads callers poolSize) (packet : Nat) : Prop where
  flag : (w.packets packet).isEncoded = 0 ∨ (w.packets packet).isEncoded = 1
  fresh : (w.packets packet).isEncoded = 0 →
    w.packets packet = original packet ∧ ∀ t pc, ¬ w.Inside packet t pc
  alone : ∀ t t' pc pc', w.Inside packet t pc → w.Inside packet t' pc' → t = t'
  winner : ∀ t pc, w.Inside packet t pc → ∃ rand,
    (pc.finish option.packetCode option.packetEncodeKey (w.packets packet)).map (fun p => (true, p)) =
      (original packet).encodeOnce option.packetCode option.packetEncodeKey rand
  done : (w.packets packet).isEncoded = 1 → (∀ t pc, ¬ w.Inside packet t pc) → ∃ rand,
    (original packet).encodeOnce option.packetCode option.packetEncodeKey rand =
      some (true, w.packets packet)

/-- A packet that is queued or handed out has its flag set, and so has one that a
thread is about to append unless that thread is in `EncodeOnce`. -/
structure Begun (w : Wire ioThreads callers poolSize) : Prop where
  carried : ∀ packet, w.server.Carries packet ∨ packet ∈ w.posted →
    (w.packets packet).isEncoded ≠ 0
  entered : ∀ t k id packet, .on k (.enqueueClosed id packet) ∈ w.server.threads t →
    (w.packets packet).isEncoded ≠ 0 ∨ ∃ pc, w.encoding t = some (packet, pc)

variable {option original} {w w' : Wire ioThreads callers poolSize}
  {a : WireAction ioThreads callers poolSize}

/-- A packet that sessions carry has had its `EncodeOnce` begun. Steps of the server keep this,
since packets enter behind it. -/
theorem Begun.step_server {t : Thread ioThreads callers} {choice : Choice poolSize}
    (h : w.Begun) (hStep : w.step option (.server t choice) = some w') : w'.Begun := by
  simp only [step] at hStep
  split at hStep
  · rename_i hOut
    simp only [Option.bind_eq_bind, Option.bind_eq_some_iff, Option.some.injEq] at hStep
    obtain ⟨server, hServer, rfl⟩ := hStep
    have hAdvance := Server.step_advance hServer
    constructor
    · rintro packet (hCarries | hPosted)
      · rcases hAdvance.carries hCarries with hCarried | ⟨k, id, hFrame⟩
        · exact h.carried packet (.inl hCarried)
        · rcases h.entered t k id packet hFrame with hFlag | ⟨pc, hIn⟩
          · exact hFlag
          · rw [hOut] at hIn
            cases hIn
      · rcases List.mem_append.mp hPosted with hPosted | hPosts
        · exact h.carried packet (.inr hPosted)
        · exact h.carried packet (.inl (Server.carries_of_posts hPosts))
    · intro t' k id packet hFrame
      rcases hAdvance.enters hFrame with hOld | ⟨rfl, hEnters⟩
      · rcases h.entered t' k id packet hOld with hFlag | ⟨pc, hIn⟩
        · exact .inl hFlag
        · by_cases ht : t' = t
          · rw [ht, hOut] at hIn
            cases hIn
          · exact .inr ⟨pc, by simp [Function.update_of_ne ht, hIn]⟩
      · exact .inr ⟨.exchange, by simp [hEnters]⟩
  · cases hStep

/-- A step of `EncodeOnce` works on one packet; afterwards the thread is inside if
it goes on, and whoever else was is. -/
theorem step_encode_cases {t : Thread ioThreads callers} {rand : Nat}
    (hStep : w.step option (.encode t rand) = some w') :
    ∃ packet pc p next, w.encoding t = some (packet, pc) ∧
      pc.step option.packetCode option.packetEncodeKey (w.packets packet) rand = some (p, next) ∧
      w' = { w with
        packets := Function.update w.packets packet p
        encoding := Function.update w.encoding t (next.map fun pc => (packet, pc)) } := by
  simp only [step, Option.bind_eq_bind, Option.bind_eq_some_iff, Option.some.injEq] at hStep
  obtain ⟨⟨packet, pc⟩, hIn, ⟨p, next⟩, hEncode, rfl⟩ := hStep
  exact ⟨packet, pc, p, next, hIn, hEncode, rfl⟩

/-- A packet stays as it is known while nothing about it changes. -/
theorem Encodes.congr {packet : Nat} (h : w.Encodes option original packet)
    (hPacket : w'.packets packet = w.packets packet)
    (hInside : ∀ t pc, w'.Inside packet t pc ↔ w.Inside packet t pc) :
    w'.Encodes option original packet := by
  obtain ⟨hFlag, hFresh, hAlone, hWinner, hDone⟩ := h
  constructor
  all_goals simp only [hPacket, hInside]
  all_goals assumption

/-- Steps of the server do not write into packets. -/
theorem Encodes.step_server {t : Thread ioThreads callers} {choice : Choice poolSize} {packet : Nat}
    (h : w.Encodes option original packet) (hStep : w.step option (.server t choice) = some w') :
    w'.Encodes option original packet := by
  simp only [step] at hStep
  split at hStep
  · rename_i hOut
    simp only [Option.bind_eq_bind, Option.bind_eq_some_iff, Option.some.injEq] at hStep
    obtain ⟨server, _, rfl⟩ := hStep
    refine h.congr rfl ?_
    intro t' pc
    by_cases ht : t' = t
    · subst ht
      simp only [Inside, Function.update_self, hOut, Server.encodes]
      constructor
      · rintro ⟨hIn, hPast⟩
        split at hIn <;> cases hIn
        exact absurd rfl hPast
      · rintro ⟨hIn, _⟩
        cases hIn
    · simp only [Inside, Function.update_of_ne ht]
  · cases hStep

/-- A winner's packet has its flag set. -/
theorem Encodes.flag_of_inside {packet : Nat} {t : Thread ioThreads callers} {pc : EncodePc}
    (h : w.Encodes option original packet) (hInside : w.Inside packet t pc) :
    (w.packets packet).isEncoded = 1 := by
  rcases h.flag with hZero | hOne
  · exact absurd hInside ((h.fresh hZero).2 t pc)
  · exact hOne

/-- A packet in which one thread is inside. -/
theorem Encodes.of_winner {packet r : Nat} {t : Thread ioThreads callers} {p : EncodePc}
    (hFlag : (w.packets packet).isEncoded = 1)
    (hInside : ∀ t' pc, w.Inside packet t' pc ↔ t' = t ∧ pc = p)
    (hFinish : (p.finish option.packetCode option.packetEncodeKey (w.packets packet)).map
        (fun p => (true, p)) =
      (original packet).encodeOnce option.packetCode option.packetEncodeKey r) :
    w.Encodes option original packet := by
  constructor
  · exact .inr hFlag
  · intro hZero
    omega
  · intro t' t'' pc' pc'' hIn hIn'
    rw [((hInside t' pc').mp hIn).1, ((hInside t'' pc'').mp hIn').1]
  · intro t' pc' hIn
    obtain ⟨_, rfl⟩ := (hInside t' pc').mp hIn
    exact ⟨r, hFinish⟩
  · intro _ hNone
    exact absurd ((hInside t p).mpr ⟨rfl, rfl⟩) (hNone t p)

/-- The winner of the flag encodes once, a loser leaves the packet alone. -/
theorem Encodes.step_encode {t : Thread ioThreads callers} {rand packet : Nat}
    (h : w.Encodes option original packet) (hStep : w.step option (.encode t rand) = some w') :
    w'.Encodes option original packet := by
  obtain ⟨packet', pc, p, next, hIn, hEncode, hNow⟩ := step_encode_cases hStep
  by_cases hOther : packet = packet'
  · subst hOther
    have hPacket : w'.packets packet = p := by simp [hNow]
    have hInside : ∀ t' pc', w'.Inside packet t' pc' ↔
        t' = t ∧ next = some pc' ∧ pc' ≠ .exchange ∨ t' ≠ t ∧ w.Inside packet t' pc' := by
      intro t' pc'
      by_cases ht : t' = t
      · subst ht
        cases next <;> simp [Inside, hNow]
      · simp [Inside, hNow, ht]
    by_cases hExchange : pc = .exchange
    · subst hExchange
      cases hEncode
      rcases h.flag with hZero | hOne
      · -- The thread wins the exchange.
        obtain ⟨hSame, hNone⟩ := h.fresh hZero
        have hFirst : (original packet).isEncoded = 0 := hSame ▸ hZero
        refine Encodes.of_winner (t := t) (p := .putCheckSum (UInt8.ofNat (rand % 255))) (r := rand)
          (by simp [hPacket]) ?_ ?_
        · intro t' pc'
          rw [hInside]
          simp only [hNone, and_false, or_false, hZero, ne_eq, not_true_eq_false, ↓reduceIte,
            Option.some.injEq]
          constructor
          · rintro ⟨ht, rfl, _⟩
            exact ⟨ht, rfl⟩
          · rintro ⟨ht, rfl⟩
            exact ⟨ht, rfl, nofun⟩
        · rw [hPacket, hSame, ← EncodePc.encodeOnce_eq_finish hFirst]
      · refine h.congr ?_ ?_
        · rw [hPacket, ← hOne]
        · intro t' pc'
          rw [hInside]
          by_cases ht : t' = t
          · subst ht
            simp only [hOne, Inside, hIn, Option.some.injEq, Prod.mk.injEq, true_and]
            constructor
            · rintro (⟨hGoes, _⟩ | ⟨hNe, _⟩)
              · cases hGoes
              · exact absurd rfl hNe
            · rintro ⟨rfl, hPast⟩
              exact absurd rfl hPast
          · simp [hOne, ht]
    · have hWas : w.Inside packet t pc := ⟨hIn, hExchange⟩
      have hNobody : ∀ t' pc', t' ≠ t → ¬ w.Inside packet t' pc' :=
        fun t' pc' ht hIn' => ht (h.alone t' t pc' pc hIn' hWas)
      have hFlag := h.flag_of_inside hWas
      obtain ⟨rand', hResult⟩ := h.winner t pc hWas
      cases next with
      | none =>
          obtain ⟨hEncoded, hFinish⟩ := EncodePc.finish_last hExchange hEncode
          have hOutside : ∀ t' pc', ¬ w'.Inside packet t' pc' := by
            intro t' pc'
            rw [hInside]
            rintro (⟨_, hGoes, _⟩ | ⟨ht, hIn'⟩)
            · cases hGoes
            · exact hNobody t' pc' ht hIn'
          have hSet : (w'.packets packet).isEncoded = 1 := by rw [hPacket, hEncoded, hFlag]
          constructor
          · exact .inr hSet
          · intro hZero
            rw [hSet] at hZero
            cases hZero
          · exact fun t' _ pc' _ hIn' => absurd hIn' (hOutside t' pc')
          · exact fun t' pc' hIn' => absurd hIn' (hOutside t' pc')
          · intro _ _
            refine ⟨rand', ?_⟩
            rw [← hResult, hFinish, hPacket, Option.map_some]
      | some pc' =>
          obtain ⟨hPast, hEncoded, hFinish⟩ := EncodePc.finish_step hExchange hEncode
          refine Encodes.of_winner (t := t) (p := pc') (r := rand') (by rw [hPacket, hEncoded, hFlag]) ?_ ?_
          · intro t' pc''
            rw [hInside]
            by_cases ht : t' = t
            · simp only [ht, Option.some.injEq, true_and, ne_eq, not_true_eq_false, false_and,
                or_false]
              constructor
              · rintro ⟨rfl, _⟩
                rfl
              · rintro rfl
                exact ⟨rfl, hPast⟩
            · simp [ht, hNobody]
          · rw [hPacket, hFinish, hResult]
  · refine h.congr (by simp [hNow, hOther]) ?_
    intro t' pc'
    by_cases ht : t' = t
    · subst ht
      cases next <;> simp [Inside, hNow, hIn, Ne.symm hOther]
    · simp [Inside, hNow, ht]

/-- No step takes the flag of a packet back. -/
theorem Encodes.flag_step_encode {t : Thread ioThreads callers} {rand packet : Nat}
    (h : w.Encodes option original packet) (hStep : w.step option (.encode t rand) = some w')
    (hFlag : (w.packets packet).isEncoded ≠ 0 ∨ ∃ pc, w.encoding t = some (packet, pc)) :
    (w'.packets packet).isEncoded ≠ 0 := by
  obtain ⟨packet', pc, p, next, hIn, hEncode, rfl⟩ := step_encode_cases hStep
  by_cases hOther : packet = packet'
  · subst hOther
    simp only [Function.update_self]
    by_cases hExchange : pc = .exchange
    · subst hExchange
      cases hEncode
      exact Nat.one_ne_zero
    · have hOne := h.flag_of_inside ⟨hIn, hExchange⟩
      cases next with
      | none =>
          rw [(EncodePc.finish_last hExchange hEncode).1, hOne]
          exact Nat.one_ne_zero
      | some pc' =>
          rw [(EncodePc.finish_step hExchange hEncode).2.1, hOne]
          exact Nat.one_ne_zero
  · simp only [Function.update_of_ne hOther]
    rcases hFlag with hFlag | ⟨pc', hIn'⟩
    · exact hFlag
    · rw [hIn] at hIn'
      cases hIn'
      exact absurd rfl hOther

/-- `EncodeOnce` comes before `Enqueue`. -/
theorem Begun.step_encode {t : Thread ioThreads callers} {rand : Nat} (h : w.Begun)
    (hEncodes : ∀ packet, w.Encodes option original packet)
    (hStep : w.step option (.encode t rand) = some w') : w'.Begun := by
  have hKeeps := fun packet => (hEncodes packet).flag_step_encode hStep
  obtain ⟨packet', pc, p, next, hIn, _, rfl⟩ := step_encode_cases hStep
  constructor
  · intro packet hCarried
    exact hKeeps packet (.inl (h.carried packet hCarried))
  · intro t' k id packet hFrame
    rcases h.entered t' k id packet hFrame with hFlag | ⟨pc', hIn'⟩
    · exact .inl (hKeeps packet (.inl hFlag))
    · by_cases ht : t' = t
      · subst ht
        exact .inl (hKeeps packet (.inr ⟨pc', hIn'⟩))
      · exact .inr ⟨pc', by simp [Function.update_of_ne ht, hIn']⟩

/-- What holds along the runs in which the kernel reads late enough. -/
structure Known (option : ServerComponentOption) (original : Nat → Packet netLayout)
    (w : Wire ioThreads callers poolSize) : Prop where
  begun : w.Begun
  encodes : ∀ packet, w.Encodes option original packet
  reads : w.ReadsEncoded option original

/-- Fresh packets, carried by nobody. -/
theorem known_start (hFresh : ∀ packet, (original packet).isEncoded = 0) :
    (start ioThreads callers poolSize original).Known option original := by
  have hOutside : ∀ packet t pc, ¬ (start ioThreads callers poolSize original).Inside packet t pc := by
    rintro packet t pc ⟨hIn, _⟩
    cases hIn
  constructor
  · constructor
    · rintro packet ((⟨t, k, pc, hFrame, hPacket⟩ | ⟨k, hQueue⟩) | hPosted)
      · cases t <;> simp [start, Server.start] at hFrame
      · cases hQueue
      · cases hPosted
    · intro t k id packet hFrame
      cases t <;> simp [start, Server.start] at hFrame
  · intro packet
    constructor
    · exact .inl (hFresh packet)
    · exact fun _ => ⟨rfl, hOutside packet⟩
    · exact fun t _ pc _ hIn _ => absurd hIn (hOutside packet t pc)
    · exact fun t pc hIn => absurd hIn (hOutside packet t pc)
    · intro hOne
      have hZero := hFresh packet
      rw [start] at hOne
      simp [hZero] at hOne
  · intro packet bytes hRead
    cases hRead

/-- With every guarded read, what `WSASend` was given so far is complete encodings. -/
theorem Known.step (h : w.Known option original) (hLate : w.ReadsLate a)
    (hStep : w.step option a = some w') : w'.Known option original := by
  obtain ⟨hBegun, hEncodes, hReads⟩ := h
  cases a with
  | server t choice =>
      refine ⟨hBegun.step_server hStep, fun packet => (hEncodes packet).step_server hStep, ?_⟩
      simp only [Wire.step] at hStep
      split at hStep
      · simp only [Option.bind_eq_bind, Option.bind_eq_some_iff, Option.some.injEq] at hStep
        obtain ⟨server, _, rfl⟩ := hStep
        exact hReads
      · cases hStep
  | encode t rand =>
      refine ⟨hBegun.step_encode hEncodes hStep, fun packet => (hEncodes packet).step_encode hStep, ?_⟩
      obtain ⟨_, _, _, _, _, _, rfl⟩ := step_encode_cases hStep
      exact hReads
  | read packet =>
      simp only [Wire.step] at hStep
      split at hStep
      · rename_i hPosted
        cases hStep
        refine ⟨⟨hBegun.carried, hBegun.entered⟩, fun packet => ?_, ?_⟩
        · exact (hEncodes packet).congr rfl fun _ _ => Iff.rfl
        · intro packet' bytes hRead
          rcases List.mem_append.mp hRead with hOld | hNew
          · exact hReads packet' bytes hOld
          · cases List.mem_singleton.mp hNew
            have hSet := (hEncodes packet).flag.resolve_left (hBegun.carried packet (.inr hPosted))
            obtain ⟨rand, hResult⟩ := (hEncodes packet).done hSet
              fun t pc hIn => hIn.2 (hLate packet rfl t pc hIn.1)
            exact ⟨rand, w.packets packet, hResult, rfl⟩
      · cases hStep

/-- Every `WSASend` reads a completely encoded packet, in all runs in which no
read falls into the winner's `EncodeOnce`. -/
theorem readsEncoded_of_readsLate (option : ServerComponentOption)
    (original : Nat → Packet netLayout) (hFresh : ∀ packet, (original packet).isEncoded = 0)
    {w : Wire ioThreads callers poolSize}
    (h : Reachable (Takes (step option)) ReadsLate (start ioThreads callers poolSize original) w) :
    w.ReadsEncoded option original := by
  have hKnown : w.Known option original :=
    h.invariant (known_start hFresh) fun _ hKnown hLate hStep => hKnown.step hLate hStep
  exact hKnown.reads

/-- A test for reads that are late enough. -/
def readsLate (w : Wire ioThreads callers poolSize) :
    WireAction ioThreads callers poolSize → Bool
  | .read packet => decide (∀ t, ∀ place ∈ w.encoding t, place.1 = packet → place.2 = .exchange)
  | _ => true

/-- The test that runs evaluate implies the guard. -/
theorem readsLate_of_test (h : w.readsLate a = true) : w.ReadsLate a := by
  intro packet hRead t pc hIn
  subst hRead
  exact of_decide_eq_true h t (packet, pc) hIn rfl

/-- A packet with one byte in its body. -/
def oneByte : Packet netLayout where
  buffer := [0, 0, 0, 0, 0] ++ [42] ++ List.replicate 4095 0
  readPos := 5
  writePos := 6
  bodyBegin := 5
  bodyEnd := 4096
  encodeBegin := 4
  isEncoded := 0

/-- A packet with one byte of body. -/
theorem oneByte_holds : oneByte.Holds [0, 0, 0, 0, 0] [42] (List.replicate 4095 0) where
  buffer := rfl
  header_length := rfl
  total := by
    rw [show oneByte.buffer = [0, 0, 0, 0, 0] ++ [42] ++ List.replicate 4095 0 from rfl,
      List.length_append, List.length_replicate]
    rfl
  bodyBegin := rfl
  encodeBegin := rfl
  bodyEnd := rfl
  writePos := rfl

def coded : ServerComponentOption := { packetCode := 0x77, packetEncodeKey := 0x32 }

def servers (run : List (Thread 1 2 × Choice 1)) : List (WireAction 1 2 1) :=
  run.map fun a => .server a.1 a.2

/-- A caller acquires a connected session for the packet. -/
def callsEncodeOnce (t : Thread 1 2) : List (WireAction 1 2 1) :=
  servers ((t, .call 1 (.sendPacket 7)) :: Server.goes t 6)

/-- One complete call of `SendPacket`, and the kernel reads. -/
def oneSenderRun : List (WireAction 1 2 1) :=
  servers (Server.goes .accept 24) ++ callsEncodeOnce (.caller 0) ++
    List.replicate 8 (.encode (.caller 0) 5) ++ servers (Server.goes (.caller 0) 19) ++ [.read 7]

/-- One sender, whose packet arrives encoded. -/
theorem readsEncoded_of_readsLate_oneSender :
    ∃ w : Wire 1 2 1, w.ReadsEncoded coded (fun _ => oneByte) ∧
      w.reads = [(7, [0x77, 1, 0, 5, 31, 74])] := by
  have hRun : (exec (checked readsLate (step coded)) (start 1 2 1 fun _ => oneByte)
      oneSenderRun).map (fun w => decide (w.reads = [(7, [0x77, 1, 0, 5, 31, 74])])) =
      some true := by
    decide +kernel
  obtain ⟨w, hExec, hReads⟩ := Option.map_eq_some_iff.mp hRun
  exact ⟨w, readsEncoded_of_readsLate coded (fun _ => oneByte) (fun _ => rfl)
    (reachable_of_checked readsLate_of_test hExec), of_decide_eq_true hReads⟩

/-- Two callers send the same packet. The first has set the flag and written
nothing; the second finds it set, appends and posts. -/
def twoSendersRun : List (WireAction 1 2 1) :=
  servers (Server.goes .accept 24) ++ callsEncodeOnce (.caller 0) ++ [.encode (.caller 0) 5] ++
    callsEncodeOnce (.caller 1) ++ [.encode (.caller 1) 5] ++
    servers (Server.goes (.caller 1) 19) ++ [.read 7]

/-- Two sessions get the packet. The one that loses the flag posts it while the other is still
encoding. -/
theorem readsEncoded_fails :
    ¬ ∀ w : Wire 1 2 1,
      Reachable (Takes (step coded)) (fun _ _ => True) (start 1 2 1 fun _ => oneByte) w →
        w.ReadsEncoded coded fun _ => oneByte := by
  intro h
  have hRun : (exec (step coded) (start 1 2 1 fun _ => oneByte) twoSendersRun).map
      (fun w => decide (w.reads = [(7, [0, 0, 0, 0, 0, 42])])) = some true := by
    decide +kernel
  obtain ⟨w, hExec, hReads⟩ := Option.map_eq_some_iff.mp hRun
  obtain ⟨rand, p, hEncode, hBytes⟩ := h w (reachable_of_exec hExec) 7 [0, 0, 0, 0, 0, 42] (by
    rw [of_decide_eq_true hReads]
    exact List.mem_singleton_self _)
  obtain ⟨p', hEncode', hFrame⟩ := oneByte_holds.encodeOnce rfl rfl coded.packetCode
    coded.packetEncodeKey rand
  rw [hEncode'] at hEncode
  cases hEncode
  rw [hFrame] at hBytes
  -- The first byte of every frame is the packet code.
  cases congrArg List.head? hBytes

end Wire

end NfNetwork.Net
