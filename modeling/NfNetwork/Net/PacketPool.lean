import NfNetwork.Net.References

/-! `AllocSend` and `TryFreeSend` around a server. The callers own references, the
server takes and drops its own, and the packet whose count reaches zero goes back to
the pool. The pool itself is only what it promises: `Rent` hands out a packet that
is not in use. -/
namespace NfNetwork.Net

open Machinery

section Needs

/-- The packets that a place uses on the reference of its caller: `SendPacket`
until it has taken its own. -/
def Purpose.needs : Purpose → List Nat
  | .sendPacket packet => [packet]
  | .disconnect => []

def SlotPc.needs : SlotPc → List Nat
  | .findId _ purpose | .findClosed _ purpose | .findReleased _ purpose
  | .acquireIncrement _ purpose | .acquireCheckId _ purpose
  | .acquireCheckReleased _ purpose => purpose.needs
  | .enqueueClosed _ packet | .enqueueReleased _ packet | .addRef _ packet => [packet]
  | _ => []

variable {slot : Slot} {env : Env} {pc : SlotPc} {e : Effect}

attribute [local simp] SlotPc.needs Purpose.needs

/-- A step relies on its caller for no other packet than before. -/
theorem SlotPc.step_needs (h : pc.step slot env = some e) : e.next.flatMap SlotPc.needs ⊆ pc.needs := by
  cases pc
  case sendPost caller pc =>
    cases pc <;> simp only [SlotPc.step, SendPostPc.step, goto, update] at h
    all_goals repeat' split at h
    all_goals cases h
    all_goals simp
  case recvPost caller pc =>
    cases pc <;> simp only [SlotPc.step, RecvPostPc.step, goto, update] at h
    all_goals repeat' split at h
    all_goals cases h
    all_goals cases caller <;> simp [RecvCaller.returned]
  case release id pc =>
    cases pc <;> simp only [SlotPc.step, ReleasePc.step, goto, update] at h
    all_goals repeat' split at h
    all_goals cases h
    all_goals cases id <;> simp
  case finishSending caller pc =>
    cases pc <;> simp only [SlotPc.step, FinishPc.step, goto, update] at h
    all_goals repeat' split at h
    all_goals cases h
    all_goals simp
  case init pc =>
    cases pc <;> simp only [SlotPc.step, InitPc.step, goto, update] at h
    all_goals repeat' split at h
    all_goals cases h
    all_goals simp
  case acquireCheckReleased id purpose =>
    cases purpose <;> cases h <;> split <;> simp [Purpose.acquired]
  case completed kind outcome => cases outcome <;> cases h <;> repeat' split <;> simp
  case checkClosed kind => cases kind <;> cases h <;> split <;> simp
  case bind | recvLoop => cases env <;> cases h <;> simp
  all_goals simp only [SlotPc.step, goto, update] at h
  all_goals repeat' split at h
  all_goals cases h
  all_goals simp

/-- A step takes one reference on the strength of its caller's, or drops one, or
none. -/
theorem SlotPc.step_refs (h : pc.step slot env = some e) : e.refs = [] ∨
    (∃ packet ∈ pc.needs, e.refs = [(packet, 1)]) ∨ ∃ packet, e.refs = [(packet, -1)] := by
  cases pc
  case addRef id packet =>
    cases h
    exact .inr (.inl ⟨packet, List.mem_singleton_self _, rfl⟩)
  case finishSending caller pc =>
    cases pc
    case free i packetCount =>
      simp only [SlotPc.step, FinishPc.step, goto] at h
      split at h <;> cases h
      · exact .inr (.inr ⟨_, rfl⟩)
      · exact .inl rfl
    all_goals cases h
    all_goals exact .inl rfl
  case release id pc =>
    cases pc
    case drainDequeue =>
      simp only [SlotPc.step, ReleasePc.step, goto] at h
      split at h <;> cases h
      · exact .inl rfl
      · exact .inr (.inr ⟨_, rfl⟩)
    all_goals simp only [SlotPc.step, ReleasePc.step, goto, update] at h
    all_goals repeat' split at h
    all_goals cases h
    all_goals exact .inl rfl
  case sendPost caller pc =>
    cases pc <;> simp only [SlotPc.step, SendPostPc.step, goto, update] at h
    all_goals repeat' split at h
    all_goals cases h
    all_goals exact .inl rfl
  case recvPost caller pc =>
    cases pc <;> simp only [SlotPc.step, RecvPostPc.step, goto, update] at h
    all_goals repeat' split at h
    all_goals cases h
    all_goals exact .inl rfl
  case init pc =>
    cases pc <;> simp only [SlotPc.step, InitPc.step, goto, update] at h
    all_goals repeat' split at h
    all_goals cases h
    all_goals exact .inl rfl
  case completed kind outcome => cases outcome <;> cases h <;> exact .inl rfl
  case bind => cases env <;> cases h <;> exact .inl rfl
  all_goals simp only [SlotPc.step, goto, update] at h
  all_goals repeat' split at h
  all_goals cases h
  all_goals exact .inl rfl

def Frame.needs {poolSize : Nat} : Frame poolSize → List Nat
  | .on _ pc => pc.needs
  | _ => []

/-- A call of `SendPacket` begins to rely on its caller. -/
def Choice.needs {poolSize : Nat} : Choice poolSize → List Nat
  | .call _ purpose => purpose.needs
  | _ => []

end Needs

namespace Server

variable {ioThreads callers poolSize : Nat} {s s' : Server ioThreads callers poolSize}
  {t : Thread ioThreads callers} {choice : Choice poolSize} {packet : Nat}

/-- Some call relies on its caller's reference of the packet. -/
def Needs (s : Server ioThreads callers poolSize) (packet : Nat) : Prop :=
  ∃ t, packet ∈ (s.threads t).flatMap Frame.needs

instance (s : Server ioThreads callers poolSize) (packet : Nat) : Decidable (s.Needs packet) :=
  inferInstanceAs (Decidable (∃ t, packet ∈ (s.threads t).flatMap Frame.needs))

/-- What a step adds to the counts, in order. -/
def refs (s : Server ioThreads callers poolSize) (t : Thread ioThreads callers) :
    Choice poolSize → List (Nat × Int)
  | .env env => match s.threads t with
    | .on k pc :: _ => ((pc.step (s.slots k) env).map Effect.refs).getD []
    | _ => []
  | _ => []

/-- A call from outside begins with looking the session up. -/
theorem call_needs {id : Nat} {purpose : Purpose} {rest : List (Frame poolSize)}
    (h : s.call t id purpose rest = some s') :
    ∃ k, s'.threads = Function.update s.threads t (.on k (.findId id purpose) :: rest) := by
  simp only [call] at h
  split at h <;> cases h
  exact ⟨_, rfl⟩

/-- The stack that a step leaves relies on what the old one did, or on the caller
of a new call. -/
theorem step_stack (h : s.step (t, choice) = some s') :
    ∃ stack, s'.threads = Function.update s.threads t stack ∧
      stack.flatMap Frame.needs ⊆ (s.threads t).flatMap Frame.needs ++ choice.needs := by
  simp only [step] at h
  split at h
  · rename_i hIdle
    cases t with
    | accept =>
        cases choice with
        | env env =>
            cases env <;> cases h
            all_goals exact ⟨_, rfl, by simp [Frame.needs]⟩
        | call | completion => cases h
    | io i =>
        cases choice with
        | completion k kind outcome =>
            simp only [stepIdle, Option.bind_eq_bind, Option.bind_eq_some_iff] at h
            obtain ⟨slot, hTake, hSlot⟩ := h
            cases hSlot
            exact ⟨_, rfl, by simp [Frame.needs, SlotPc.needs]⟩
        | env | call => cases h
    | caller i =>
        cases choice with
        | call id purpose =>
            obtain ⟨k, hThreads⟩ := call_needs h
            exact ⟨_, hThreads, by simp [Frame.needs, SlotPc.needs, Choice.needs]⟩
        | env | completion => cases h
  · rename_i frame rest hTop
    rw [hTop]
    cases frame with
    | handler =>
        cases choice with
        | env env =>
            cases h
            exact ⟨_, rfl, by simp [Frame.needs]⟩
        | call id purpose =>
            obtain ⟨k, hThreads⟩ := call_needs h
            refine ⟨_, hThreads, ?_⟩
            simp [Frame.needs, SlotPc.needs, Choice.needs]
        | completion => cases h
    | acceptDecide =>
        cases choice with
        | env env =>
            cases env <;> cases h
            all_goals exact ⟨_, rfl, by simp [Frame.needs]⟩
        | call | completion => cases h
    | acceptPop =>
        cases choice with
        | env env =>
            simp only [stepFrame] at h
            split at h <;> cases h
            all_goals exact ⟨_, rfl, by simp [Frame.needs, SlotPc.needs]⟩
        | call | completion => cases h
    | acceptEnded => cases choice <;> cases h
    | on k pc =>
        cases choice with
        | env env =>
            simp only [stepFrame, Option.bind_eq_bind, Option.bind_eq_some_iff] at h
            obtain ⟨e, hStep, hServer⟩ := h
            cases hServer
            refine ⟨_, rfl, ?_⟩
            have hNeeds := SlotPc.step_needs hStep
            intro packet hMem
            rw [List.flatMap_append, List.mem_append, List.flatMap_append, List.mem_append] at hMem
            rw [List.flatMap_cons, List.append_assoc, List.mem_append]
            rcases hMem with (hHandler | hNext) | hRest
            · split at hHandler <;> simp [Frame.needs] at hHandler
            · rw [List.flatMap_map] at hNext
              exact .inl (hNeeds hNext)
            · exact .inr (List.mem_append_left _ hRest)
        | call | completion => cases h

/-- A call relies on a reference that it relied on before, unless it begins. -/
theorem step_needs (h : s.step (t, choice) = some s') (hNeeds : s'.Needs packet) :
    s.Needs packet ∨ packet ∈ choice.needs := by
  obtain ⟨t', hMem⟩ := hNeeds
  obtain ⟨stack, hThreads, hStack⟩ := step_stack h
  rw [hThreads] at hMem
  by_cases ht : t' = t
  · subst ht
    rw [Function.update_self] at hMem
    rcases List.mem_append.mp (hStack hMem) with hOld | hNew
    · exact .inl ⟨t', hOld⟩
    · exact .inr hNew
  · rw [Function.update_of_ne ht] at hMem
    exact .inl ⟨t', hMem⟩

/-- A step at a session adds what its effect says; no other step adds anything. -/
theorem step_refs (h : s.step (t, choice) = some s') :
    (∃ env rest k pc e, s.threads t = .on k pc :: rest ∧ pc.step (s.slots k) env = some e ∧
      s' = s.apply t rest k e ∧ s.refs t choice = e.refs) ∨
    s.refs t choice = [] ∧ s'.refCount = s.refCount := by
  rcases (step_advance h).runs_or_starts with
    ⟨env, rest, k, pc, e, rfl, hTop, hStep, rfl⟩ | ⟨hCount, _⟩
  · left
    refine ⟨env, rest, k, pc, e, hTop, hStep, rfl, ?_⟩
    simp [refs, hTop, hStep]
  · cases choice with
    | env env =>
        cases hThread : s.threads t with
        | nil => exact .inr ⟨by simp [refs, hThread], hCount⟩
        | cons frame rest =>
            cases frame with
            | on k pc =>
                simp only [step, hThread, stepFrame, Option.bind_eq_bind, Option.bind_eq_some_iff,
                  Option.some.injEq] at h
                obtain ⟨e, hStep, rfl⟩ := h
                left
                exact ⟨env, rest, k, pc, e, rfl, hStep, rfl, by simp [refs, hThread, hStep]⟩
            | handler | acceptDecide | acceptPop | acceptEnded =>
                exact .inr ⟨by simp [refs, hThread], hCount⟩
    | call | completion => exact .inr ⟨rfl, hCount⟩

/-- A step takes a reference for a packet that its thread has, or drops one, or does neither. -/
theorem refs_cases (h : s.step (t, choice) = some s') : s.refs t choice = [] ∨
    (∃ packet, s.Needs packet ∧ s.refs t choice = [(packet, 1)]) ∨
      ∃ packet, s.refs t choice = [(packet, -1)] := by
  rcases step_refs h with ⟨env, rest, k, pc, e, hTop, hStep, _, hRefs⟩ | ⟨hNone, _⟩
  · rw [hRefs]
    rcases SlotPc.step_refs hStep with hNone | ⟨packet, hNeeds, hOne⟩ | ⟨packet, hOne⟩
    · exact .inl hNone
    · refine .inr (.inl ⟨packet, ⟨t, ?_⟩, hOne⟩)
      rw [hTop, List.flatMap_cons]
      exact List.mem_append_left _ hNeeds
    · exact .inr (.inr ⟨packet, hOne⟩)
  · exact .inl hNone

/-- And this is what happens to the counts. -/
theorem step_refCount (h : s.step (t, choice) = some s') (packet : Nat) :
    s'.refCount packet = s.refCount packet +
      ((s.refs t choice).map fun r => if r.1 = packet then r.2 else 0).sum := by
  rcases step_refs h with ⟨env, rest, k, pc, e, _, _, rfl, hRefs⟩ | ⟨hNone, hCount⟩
  · rw [refCount_apply, hRefs, Effect.refsOf]
  · rw [hNone, hCount, List.map_nil, List.sum_nil, add_zero]

end Server

/-- A server and those who own packets. `refCount` is the `mRefCount` of every packet
object, `owned` the references that callers own; `rented` and `returned` record what
left the pool and what came back. -/
structure PacketPool (ioThreads callers poolSize : Nat) where
  server : Server ioThreads callers poolSize
  refCount : Nat → Int
  owned : Nat → Nat
  rented : List Nat
  returned : List Nat

inductive PoolAction (ioThreads callers poolSize : Nat) where
  | allocSend (packet : Nat)
  | tryFreeSend (packet : Nat)
  | server (t : Thread ioThreads callers) (choice : Choice poolSize)

namespace PacketPool

variable {ioThreads callers poolSize : Nat}

def start (ioThreads callers poolSize : Nat) : PacketPool ioThreads callers poolSize where
  server := .start ioThreads callers poolSize
  refCount := fun _ => 0
  owned := fun _ => 0
  rented := []
  returned := []

/-- `AddRef`, or `TryFreeSend`: `SubRef`, and `Return` if that gives zero. -/
def count (s : PacketPool ioThreads callers poolSize) (r : Nat × Int) :
    PacketPool ioThreads callers poolSize :=
  { s with
    refCount := Function.update s.refCount r.1 (s.refCount r.1 + r.2)
    returned := if r.2 = -1 ∧ s.refCount r.1 + r.2 = 0 then s.returned ++ [r.1] else s.returned }

def step (s : PacketPool ioThreads callers poolSize) :
    PoolAction ioThreads callers poolSize → Option (PacketPool ioThreads callers poolSize)
  | .allocSend packet =>
      -- `Rent` runs the constructor, which sets `mRefCount` to zero.
      if s.rented.count packet = s.returned.count packet then
        some (count { s with
          refCount := Function.update s.refCount packet 0
          owned := Function.update s.owned packet (s.owned packet + 1)
          rented := s.rented ++ [packet] } (packet, 1))
      else none
  | .tryFreeSend packet =>
      -- The caller keeps its last reference until its calls have no more use for it.
      if 0 < s.owned packet ∧ (s.owned packet = 1 → ¬ s.server.Needs packet) then
        some (count { s with owned := Function.update s.owned packet (s.owned packet - 1) }
          (packet, -1))
      else none
  | .server t choice =>
      if ∀ packet ∈ choice.needs, 0 < s.owned packet then do
        let server ← s.server.step (t, choice)
        some ((s.server.refs t choice).foldl count { s with server := server })
      else none

variable (s : PacketPool ioThreads callers poolSize)

/-- The packet left the pool once more than it came back. -/
def InUse (packet : Nat) : Prop := s.rented.count packet = s.returned.count packet + 1

/-- What the counts are for. -/
structure Conserves : Prop where
  counts : ∀ packet, s.refCount packet = s.owned packet + s.server.references packet
  settled : ∀ packet, (∀ t k pc, .on k pc ∈ s.server.threads t →
      pc.inHand packet = 0 ∧ pc.freed (s.server.slots k).session packet = 0) →
    s.refCount packet =
      s.owned packet + ∑ k, ((s.server.slots k).session.occurrences packet : Int)
  once : ∀ packet, s.rented.count packet = s.returned.count packet ∧ s.refCount packet = 0 ∨
    s.InUse packet ∧ 0 < s.refCount packet
  queued : ∀ k, ∀ packet ∈ (s.server.slots k).session.sendQueue, s.InUse packet
  inFlight : ∀ k, (s.server.slots k).pendingSend ≠ 0 →
    ∀ packet ∈ (s.server.slots k).session.batch, s.InUse packet
  released : ∀ k, (s.server.slots k).session.isReleased = true →
    (∀ t id pc, .on k (.release id pc) ∉ s.server.threads t) →
    (∀ t id pc, .on k (.finishSending (.release id) pc) ∉ s.server.threads t) →
    (s.server.slots k).session.sendQueue = [] ∧ (s.server.slots k).session.batch = [] ∧
      ∀ packet, (s.server.view k).references packet = 0

section Runs

variable {s} {s' : PacketPool ioThreads callers poolSize}
  {a : PoolAction ioThreads callers poolSize} {packet : Nat} {r : Nat × Int}

/-- A packet is in the pool with a count of zero, or in use with a positive one. -/
def Counted (s : PacketPool ioThreads callers poolSize) (packet : Nat) : Prop :=
  s.rented.count packet = s.returned.count packet ∧ s.refCount packet = 0 ∨
    s.InUse packet ∧ 0 < s.refCount packet

/-- Counting a packet in use keeps every packet counted. -/
theorem Counted.count (h : s.Counted packet) (hUse : 0 < s.refCount r.1)
    (hOne : r.2 = 1 ∨ r.2 = -1) : (s.count r).Counted packet := by
  by_cases hSame : r.1 = packet
  · subst hSame
    have hIn : s.InUse r.1 := by
      rcases h with ⟨_, hZero⟩ | ⟨hIn, _⟩
      · rw [hZero] at hUse
        exact absurd hUse (lt_irrefl 0)
      · exact hIn
    unfold InUse at hIn
    simp only [Counted, InUse, PacketPool.count, Function.update_self]
    by_cases hLast : r.2 = -1 ∧ s.refCount r.1 + r.2 = 0
    · rw [if_pos hLast, List.count_append, List.count_singleton_self]
      exact .inl ⟨hIn, hLast.2⟩
    · rw [if_neg hLast]
      right
      omega
  · have hRefCount : (s.count r).refCount packet = s.refCount packet :=
      Function.update_of_ne (Ne.symm hSame) _ _
    have hReturned : (s.count r).returned.count packet = s.returned.count packet := by
      simp only [PacketPool.count]
      split
      · rw [List.count_append, List.count_singleton, if_neg (by simpa using hSame), add_zero]
      · rfl
    unfold Counted InUse
    rw [hRefCount, hReturned]
    exact h

/-- What holds in every run: the server's own count is a part of the count of the
packet, and whoever relies on a caller's reference may. -/
structure Balanced (s : PacketPool ioThreads callers poolSize) : Prop where
  reached : Server.Reached (fun _ _ => True) s.server
  split : ∀ packet, s.refCount packet = s.owned packet + s.server.refCount packet
  counted : ∀ packet, s.Counted packet
  needs : ∀ packet, s.server.Needs packet → 0 < s.owned packet

/-- Nothing is rented to begin with. -/
theorem balanced_start : (start ioThreads callers poolSize).Balanced where
  reached := .refl
  split _ := rfl
  counted _ := .inl ⟨rfl, rfl⟩
  needs := by
    rintro packet ⟨t, hMem⟩
    cases hMem

@[simp] theorem count_server (s : PacketPool ioThreads callers poolSize) (r : Nat × Int) :
    (s.count r).server = s.server := rfl

@[simp] theorem count_owned (s : PacketPool ioThreads callers poolSize) (r : Nat × Int) :
    (s.count r).owned = s.owned := rfl

/-- Counting changes the one packet. -/
theorem count_refCount (s : PacketPool ioThreads callers poolSize) (r : Nat × Int) (packet : Nat) :
    (s.count r).refCount packet = s.refCount packet + if r.1 = packet then r.2 else 0 := by
  by_cases hSame : r.1 = packet
  · subst hSame
    rw [if_pos rfl]
    exact Function.update_self ..
  · rw [if_neg hSame, add_zero]
    exact Function.update_of_ne (Ne.symm hSame) _ _

/-- A packet that somebody owns has a reference. -/
theorem Balanced.refCount_pos (h : s.Balanced) (hOwned : 0 < s.owned packet) :
    0 < s.refCount packet := by
  have hSplit := h.split packet
  have hServer := Server.references_nonneg h.reached packet
  rw [← Server.refCount_eq_references h.reached packet] at hServer
  omega

/-- A packet comes from the pool with one reference and one owner. -/
theorem Balanced.allocSend (h : s.Balanced) (hStep : s.step (.allocSend packet) = some s') :
    s'.Balanced := by
  simp only [PacketPool.step] at hStep
  split at hStep <;> cases hStep
  rename_i hBack
  obtain ⟨hReached, hSplit, hCounted, hNeeds⟩ := h
  have hServer := Server.references_nonneg hReached packet
  rw [← Server.refCount_eq_references hReached packet] at hServer
  have hZero : s.refCount packet = 0 := by
    rcases hCounted packet with ⟨_, hZero⟩ | ⟨hIn, _⟩
    · exact hZero
    · rw [InUse, hBack] at hIn
      omega
  have hOwned : s.owned packet = 0 := by
    have hSplit := hSplit packet
    omega
  refine ⟨hReached, ?_, ?_, ?_⟩
  · intro packet'
    have hSplit := hSplit packet'
    rw [count_refCount]
    by_cases hSame : packet = packet'
    · subst hSame
      simp [hOwned]
      omega
    · simp [hSame, Function.update_of_ne (Ne.symm hSame), hSplit]
  · intro packet'
    by_cases hSame : packet = packet'
    · subst hSame
      right
      simp [InUse, PacketPool.count, hBack]
    · have hCounted := hCounted packet'
      unfold Counted InUse at hCounted ⊢
      simpa [PacketPool.count, Function.update_of_ne (Ne.symm hSame), hSame] using hCounted
  · intro packet' hNeed
    have hOwned := hNeeds packet' hNeed
    by_cases hSame : packet = packet'
    · subst hSame
      simp
    · simpa [Function.update_of_ne (Ne.symm hSame)] using hOwned

/-- An owner drops its reference, and the last one returns the packet. -/
theorem Balanced.tryFreeSend (h : s.Balanced) (hStep : s.step (.tryFreeSend packet) = some s') :
    s'.Balanced := by
  have hPositive : 0 < s.owned packet → 0 < s.refCount packet := h.refCount_pos
  simp only [PacketPool.step] at hStep
  split at hStep <;> cases hStep
  rename_i hMay
  obtain ⟨hOwned, hLast⟩ := hMay
  obtain ⟨hReached, hSplit, hCounted, hNeeds⟩ := h
  refine ⟨hReached, ?_, ?_, ?_⟩
  · intro packet'
    have hSplit := hSplit packet'
    rw [count_refCount]
    by_cases hSame : packet = packet'
    · subst hSame
      simp
      omega
    · simp [hSame, Function.update_of_ne (Ne.symm hSame), hSplit]
  · intro packet'
    exact Counted.count (hCounted packet') (hPositive hOwned) (.inr rfl)
  · intro packet' hNeed
    have hOwned' := hNeeds packet' hNeed
    by_cases hSame : packet = packet'
    · subst hSame
      have hMore : s.owned packet ≠ 1 := fun hOne => hLast hOne hNeed
      simp
      omega
    · simpa [Function.update_of_ne (Ne.symm hSame)] using hOwned'

/-- The server's steps are balanced among themselves. -/
theorem Balanced.server {t : Thread ioThreads callers} {choice : Choice poolSize} (h : s.Balanced)
    (hStep : s.step (.server t choice) = some s') : s'.Balanced := by
  simp only [PacketPool.step] at hStep
  split at hStep
  · rename_i hMay
    simp only [Option.bind_eq_bind, Option.bind_eq_some_iff, Option.some.injEq] at hStep
    obtain ⟨server, hServer, rfl⟩ := hStep
    have hReached : Server.Reached (fun _ _ => True) server := h.reached.tail trivial hServer
    have hNeeds : ∀ packet, server.Needs packet → 0 < s.owned packet := by
      intro packet hNeed
      rcases Server.step_needs hServer hNeed with hOld | hNew
      · exact h.needs packet hOld
      · exact hMay packet hNew
    have hCount := Server.step_refCount hServer
    rcases Server.refs_cases hServer with hNone | ⟨packet, hNeed, hOne⟩ | ⟨packet, hOne⟩
    · rw [hNone] at hCount ⊢
      simp only [List.map_nil, List.sum_nil, add_zero] at hCount
      refine ⟨hReached, ?_, h.counted, hNeeds⟩
      intro packet
      rw [List.foldl_nil]
      exact (h.split packet).trans (by rw [hCount])
    · have hPositive := h.refCount_pos (h.needs packet hNeed)
      rw [hOne] at hCount ⊢
      refine ⟨hReached, ?_, fun packet' => Counted.count (h.counted packet') hPositive (.inl rfl),
        hNeeds⟩
      intro packet'
      have hSplit := h.split packet'
      have hCount := hCount packet'
      simp only [List.map_singleton, List.sum_singleton] at hCount
      rw [List.foldl_cons, List.foldl_nil, count_refCount, count_server, count_owned]
      dsimp only
      omega
    · rw [hOne] at hCount ⊢
      have hPositive : 0 < s.refCount packet := by
        have hSplit := h.split packet
        have hCount := hCount packet
        have hServer := Server.references_nonneg hReached packet
        rw [← Server.refCount_eq_references hReached packet] at hServer
        simp only [List.map_singleton, List.sum_singleton, if_true] at hCount
        omega
      refine ⟨hReached, ?_, fun packet' => Counted.count (h.counted packet') hPositive (.inr rfl),
        hNeeds⟩
      intro packet'
      have hSplit := h.split packet'
      have hCount := hCount packet'
      simp only [List.map_singleton, List.sum_singleton] at hCount
      rw [List.foldl_cons, List.foldl_nil, count_refCount, count_server, count_owned]
      dsimp only
      omega
  · cases hStep

/-- So every step is. -/
theorem Balanced.step (h : s.Balanced) (hStep : s.step a = some s') : s'.Balanced := by
  cases a with
  | allocSend packet => exact h.allocSend hStep
  | tryFreeSend packet => exact h.tryFreeSend hStep
  | server t choice => exact h.server hStep

/-- Only the code of `Release` is in the middle of a release. -/
theorem SlotPc.sum_releases {pc : SlotPc} (hRelease : ∀ id pc', pc ≠ .release id pc')
    (hFinish : ∀ id pc', pc ≠ .finishSending (.release id) pc') :
    (pc.sendActs.map SendAct.releases).sum = 0 := by
  cases pc
  case release id pc' => exact absurd rfl (hRelease id pc')
  case finishSending caller pc' =>
    cases caller
    case release id => exact absurd rfl (hFinish id pc')
    case ioThread => cases pc' <;> rfl
  case sendPost caller pc' => cases pc' <;> rfl
  case init pc' => cases pc' <;> rfl
  case completed kind outcome => cases kind <;> rfl
  case checkClosed kind => cases kind <;> rfl
  all_goals rfl

/-- What is held somewhere is not in the pool. -/
theorem Balanced.inUse (h : s.Balanced) (k : Fin poolSize)
    (hHeld : 0 < (s.server.view k).references packet) : s.InUse packet := by
  have hLe := Server.references_le h.reached k packet
  have hSplit := h.split packet
  rw [Server.refCount_eq_references h.reached packet] at hSplit
  rcases h.counted packet with ⟨_, hZero⟩ | ⟨hIn, _⟩
  · omega
  · exact hIn

/-- What the balance says about counts, returns and released sessions. -/
theorem Balanced.conserves (h : s.Balanced) : s.Conserves := by
  have hCounts : ∀ packet, s.refCount packet = s.owned packet + s.server.references packet := by
    intro packet
    rw [← Server.refCount_eq_references h.reached packet]
    exact h.split packet
  constructor
  case counts => exact hCounts
  case once => exact h.counted
  case settled =>
    intro packet hNone
    rw [hCounts packet, Server.references]
    congr 1
    apply Finset.sum_congr rfl
    intro k _
    have hHand : ((s.server.view k).pcs.map (SlotPc.inHand packet)).sum = 0 := by
      apply sum_map_eq_zero
      intro pc hMem
      obtain ⟨t, hFrame⟩ := Server.mem_view_pcs.mp hMem
      exact (hNone t k pc hFrame).1
    have hFreed : ((s.server.view k).pcs.map
        (SlotPc.freed (s.server.view k).slot.session packet)).sum = 0 := by
      apply sum_map_eq_zero
      intro pc hMem
      obtain ⟨t, hFrame⟩ := Server.mem_view_pcs.mp hMem
      exact (hNone t k pc hFrame).2
    rw [SlotView.references, hHand, hFreed]
    simp [Server.view]
  case queued =>
    intro k packet hMem
    have hBounds := (Server.references_bounds h.reached k packet).1
    have hCount := List.count_pos_iff.mpr hMem
    exact h.inUse k (by omega)
  case inFlight =>
    intro k hPending packet hMem
    have hSlot := Server.Reached.slot h.reached k
    have hNone : ∀ pc ∈ (s.server.view k).pcs,
        pc.freed (s.server.slots k).session packet = 0 := fun pc hPc =>
      SlotPc.freed_of_not_owns (SlotView.not_owns_of_pending (SlotView.locked_of_reachable hSlot)
        (SlotView.sound_of_reachable hSlot) hPending hPc)
    have hBounds := (Server.references_bounds h.reached k packet).2 hNone
    have hCount := List.count_pos_iff.mpr hMem
    unfold NetSession.occurrences at hBounds
    exact h.inUse k (by omega)
  case released =>
    intro k hReleased hNoRelease hNoFinish
    have hSlot := Server.Reached.slot h.reached k
    have hDone : (s.server.view k).sending.total SendAct.releases = 0 := by
      rw [SlotView.sending_total]
      apply sum_map_eq_zero
      intro pc hMem
      obtain ⟨t, hFrame⟩ := Server.mem_view_pcs.mp hMem
      exact SlotPc.sum_releases (fun id pc' hPc => hNoRelease t id pc' (hPc ▸ hFrame))
        fun id pc' hPc => hNoFinish t id pc' (hPc ▸ hFrame)
    have hRest := fun packet => SlotView.references_rest packet (SlotView.locked_of_reachable hSlot)
      (SlotView.sound_of_reachable hSlot) (SlotView.knows_of_reachable hSlot) hReleased hDone
    exact ⟨(hRest 0).1, (hRest 0).2.1, fun packet => (hRest packet).2.2⟩

/-- In every run the references of packets are conserved. -/
theorem conserves_of_reachable
    (h : Reachable (Takes PacketPool.step) (fun _ _ => True) (start ioThreads callers poolSize) s) :
    s.Conserves := by
  have hBalanced : s.Balanced :=
    h.invariant balanced_start fun _ hBalanced _ hStep => hBalanced.step hStep
  exact hBalanced.conserves

end Runs

def servers (run : List (Thread 1 2 × Choice 1)) : List (PoolAction 1 2 1) :=
  run.map fun a => .server a.1 a.2

/-- A packet is sent on a connection, the caller drops its reference while the send
is in flight, and the completion drops the last one. -/
def oneSendRun : List (PoolAction 1 2 1) :=
  [.allocSend 7] ++ servers (Server.goes .accept 24) ++
    servers ((.caller 0, .call 1 (.sendPacket 7)) :: Server.goes (.caller 0) 25) ++
    [.tryFreeSend 7] ++
    servers ((.io 0, .completion 0 .send (.succeeded 5)) :: Server.goes (.io 0) 15)

/-- A packet that is sent once and returned once. -/
theorem conserves_of_reachable_oneSend :
    ∃ s : PacketPool 1 2 1, s.Conserves ∧ s.rented = [7] ∧ s.returned = [7] := by
  have hRun : (exec PacketPool.step (start 1 2 1) oneSendRun).map
      (fun s => decide (s.rented = [7] ∧ s.returned = [7])) = some true := by
    decide +kernel
  obtain ⟨s, hExec, hState⟩ := Option.map_eq_some_iff.mp hRun
  exact ⟨s, conserves_of_reachable (reachable_of_exec hExec), of_decide_eq_true hState⟩

end PacketPool

end NfNetwork.Net
