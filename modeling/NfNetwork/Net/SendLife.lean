import NfNetwork.Machinery.Population
import NfNetwork.Machinery.Transition
import NfNetwork.Net.Session

/-! What the sending flag of a session is for: many threads append to the queue,
and one at a time, the holder of the flag, takes from it and sends. The flag is 1
while its holder fills a buffer and 2 until the send is finished. `SendRow` lists
every move; the invariant says who will look at a queue that is not empty. -/
namespace NfNetwork.Net

open Machinery

/-- One thing that a thread is in the middle of doing to the send queue. -/
inductive SendAct where
  | adds
  -- about to try the flag
  | tries
  -- holding the flag at 1, from the read of the size to the mark
  | samples
  | clears
  | sampled (queueSize : Nat)
  | takes (left : Nat)
  | stores (left : Nat)
  | checks
  | marks
  | threw
  -- holding the flag at 2
  | sending
  | completed
  | finishes (reset : Bool)
  -- `Release` before and after the drain, the reset of the count, the flag; and
  -- `Init` before and after it stores the socket
  | releasing (done : Nat)
  | inits (socket : Bool)
  deriving DecidableEq, Repr

/-- The moves that a guard can be about: a failed attempt at the flag, and a send
that is not followed by another look at the queue. -/
inductive SendLabel where
  | quiet
  | misses
  | loses
  deriving DecidableEq, Repr

/-- The shared part. `pending` counts the sends owed a completion. -/
structure SendCore where
  released : Bool
  closed : Bool
  hasSocket : Bool
  ioCount : Int
  sendQueue : List Nat
  isSending : Nat
  packetCount : Nat
  pending : Nat

namespace SendCore

/-- A compare-exchange of the flag. -/
def exchange (c : SendCore) (exchange comperand : Nat) : SendCore :=
  { c with isSending := if c.isSending = comperand then exchange else c.isSending }

/-- A session that is live and not being closed. -/
def Active (c : SendCore) : Prop := c.released = false ∧ c.closed = false

end SendCore

namespace SendAct

/-- The holders of the flag at 1. -/
def readies : SendAct → Nat
  | samples | clears | sampled _ | takes _ | stores _ | checks | marks | threw => 1
  | _ => 0

/-- The holders of the flag at 2 among the threads. -/
def posted : SendAct → Nat
  | sending | completed | finishes _ => 1
  | _ => 0

def clearing : SendAct → Nat
  | clears => 1
  | _ => 0

def trying : SendAct → Nat
  | tries => 1
  | _ => 0

def completing : SendAct → Nat
  | completed => 1
  | _ => 0

def releases : SendAct → Nat
  | releasing _ => 1
  | _ => 0

/-- The acts that lead to another look at the queue. -/
def wakes : SendAct → Nat
  | adds | clears | releasing _ | inits _ => 0
  | _ => 1

/-- The acts that only a live session allows. -/
def uses : SendAct → Nat
  | completed | releasing _ | inits _ => 0
  | _ => 1

def displaces : SendAct → Nat
  | releasing _ | inits _ => 1
  | _ => 0

/-- What a thread relies on: the holder of the flag on the queue and the batch,
`Release` and `Init` on what they have done so far. -/
def promise (c : SendCore) : SendAct → Prop
  | samples | clears | finishes true => c.packetCount = 0
  | sampled queueSize => c.packetCount = 0 ∧ 0 < queueSize ∧ queueSize ≤ c.sendQueue.length
  | takes left => left ≤ c.sendQueue.length ∧ (0 < left ∨ 0 < c.packetCount)
  | stores left => left ≤ c.sendQueue.length
  | checks => 0 < c.packetCount
  | releasing done => (c.isSending = 0 ∨ c.isSending = 2) ∧ (1 ≤ done → c.sendQueue = []) ∧
      (2 ≤ done → c.packetCount = 0) ∧ (3 ≤ done → c.isSending = 0)
  | inits socket => socket = true → c.hasSocket = true
  | _ => True

/-- Whoever fills a batch has taken the flag, so it counts among those who will clear it or wake a
sender. -/
theorem readies_le (a : SendAct) : a.readies ≤ a.clearing + a.wakes := by
  cases a <;> simp [readies, clearing, wakes]

/-- A send that is being posted brings a completion, which wakes a sender. -/
theorem posted_le_wakes (a : SendAct) : a.posted ≤ a.wakes := by
  cases a <;> simp [posted, wakes]

/-- So does a thread that is about to try the flag. -/
theorem trying_le_wakes (a : SendAct) : a.trying ≤ a.wakes := by
  cases a <;> simp [trying, wakes]

/-- A thread that empties the queue has the released session to itself. -/
theorem releases_le_displaces (a : SendAct) : a.releases ≤ a.displaces := by
  cases a <;> simp [releases, displaces]

/-- A thread that fills a batch has the session acquired. -/
theorem readies_le_uses (a : SendAct) : a.readies ≤ a.uses := by
  cases a <;> simp [readies, uses]

/-- So has one that posts a send or serves its completion. -/
theorem posted_le (a : SendAct) : a.posted ≤ a.completing + a.uses := by
  cases a <;> simp [posted, completing, uses]

end SendAct

/-- One move: the acts it takes and the acts it leaves. -/
inductive SendRow : SendCore → List SendAct → SendLabel → SendCore → List SendAct → Prop where
  | quiet (c : SendCore) (acts : List SendAct) (ioCount : Int) :
      SendRow c acts .quiet { c with ioCount := ioCount } acts
  | close (c : SendCore) : SendRow c [] .quiet { c with closed := true } []
  | arrive (c : SendCore) : SendRow c [] .quiet c [.adds]
  | enqueue (c : SendCore) (packet : Nat) :
      SendRow c [.adds] .quiet { c with sendQueue := c.sendQueue ++ [packet] } [.tries]
  | lock (c : SendCore) (h : c.isSending = 0) :
      SendRow c [.tries] .quiet { c with isSending := 1 } [.samples]
  | miss (c : SendCore) (h : c.isSending ≠ 0) : SendRow c [.tries] .misses c []
  | sampleEmpty (c : SendCore) (h : c.sendQueue = []) : SendRow c [.samples] .quiet c [.clears]
  | sample (c : SendCore) (h : c.sendQueue ≠ []) :
      SendRow c [.samples] .quiet c [.sampled c.sendQueue.length]
  | throw (c : SendCore) : SendRow c [.samples] .quiet c [.threw]
  | clear (c : SendCore) : SendRow c [.clears] .quiet (c.exchange 0 1) []
  | start (c : SendCore) (queueSize : Nat) :
      SendRow c [.sampled queueSize] .quiet { c with packetCount := 0 } [.takes queueSize]
  | take (c : SendCore) (left packet : Nat) (sendQueue : List Nat)
      (h : c.sendQueue = packet :: sendQueue) :
      SendRow c [.takes (left + 1)] .quiet { c with sendQueue := sendQueue } [.stores left]
  | takeNone (c : SendCore) (left : Nat) (h : c.sendQueue = []) :
      SendRow c [.takes (left + 1)] .quiet c [.checks]
  | takeLast (c : SendCore) : SendRow c [.takes 0] .quiet c [.checks]
  | count (c : SendCore) (left : Nat) :
      SendRow c [.stores left] .quiet { c with packetCount := c.packetCount + 1 } [.takes left]
  | checkNone (c : SendCore) (h : c.packetCount = 0) : SendRow c [.checks] .quiet c [.clears]
  | check (c : SendCore) (h : c.packetCount ≠ 0) : SendRow c [.checks] .quiet c [.marks]
  | mark (c : SendCore) : SendRow c [.marks] .quiet (c.exchange 2 1) [.sending]
  | post (c : SendCore) : SendRow c [.sending] .quiet { c with pending := c.pending + 1 } []
  | stop (c : SendCore) (a : SendAct) (ha : a = .sending ∨ a = .completed)
      (h : c.closed = true ∨ c.hasSocket = false) : SendRow c [a] .quiet c []
  | lose (c : SendCore) (a : SendAct) (ha : a = .sending ∨ a = .completed) :
      SendRow c [a] .loses c []
  | complete (c : SendCore) (h : 0 < c.pending) :
      SendRow c [] .quiet { c with pending := c.pending - 1 } [.completed]
  | drop (c : SendCore) (h : c.released = true) : SendRow c [.completed] .quiet c []
  | finish (c : SendCore) : SendRow c [.completed] .quiet c [.finishes false]
  | resetFinished (c : SendCore) :
      SendRow c [.finishes false] .quiet { c with packetCount := 0 } [.finishes true]
  | unlock (c : SendCore) : SendRow c [.finishes true] .quiet (c.exchange 0 2) [.tries]
  | win (c : SendCore) (hLive : c.released = false) (hZero : c.ioCount = 0) :
      SendRow c [] .quiet { c with released := true } [.releasing 0]
  | closeSocket (c : SendCore) :
      SendRow c [.releasing 0] .quiet { c with hasSocket := false } [.releasing 0]
  | drain (c : SendCore) (packet : Nat) (sendQueue : List Nat)
      (h : c.sendQueue = packet :: sendQueue) :
      SendRow c [.releasing 0] .quiet { c with sendQueue := sendQueue } [.releasing 0]
  | drained (c : SendCore) (h : c.sendQueue = []) :
      SendRow c [.releasing 0] .quiet c [.releasing 1]
  | resetReleased (c : SendCore) :
      SendRow c [.releasing 1] .quiet { c with packetCount := 0 } [.releasing 2]
  | unlockReleased (c : SendCore) :
      SendRow c [.releasing 2] .quiet (c.exchange 0 2) [.releasing 3]
  | push (c : SendCore) : SendRow c [.releasing 3] .quiet c []
  | pop (c : SendCore) : SendRow c [] .quiet c [.inits false]
  | abandon (c : SendCore) : SendRow c [.inits false] .quiet c []
  | setSocket (c : SendCore) :
      SendRow c [.inits false] .quiet { c with hasSocket := true } [.inits true]
  | clearQueue (c : SendCore) :
      SendRow c [.inits true] .quiet { c with sendQueue := [] } [.inits true]
  | clearCount (c : SendCore) :
      SendRow c [.inits true] .quiet { c with packetCount := 0 } [.inits true]
  | clearFlag (c : SendCore) :
      SendRow c [.inits true] .quiet { c with isSending := 0 } [.inits true]
  | openSocket (c : SendCore) :
      SendRow c [.inits true] .quiet { c with closed := false } [.inits true]
  | publish (c : SendCore) : SendRow c [.inits true] .quiet { c with released := false } []

/-- The sending part of a session and what the threads are doing to it. -/
abbrev Sending := Population SendCore SendAct

abbrev SendStep : Sending → SendLabel → Sending → Prop := Applies SendRow

namespace Sending

/-- What the counts of a session say about its sending part: a released session
is not used, it is released or initialised by one thread and only while it is
not live, and a count of zero leaves nothing to do with a send. -/
structure Excludes (v : Sending) : Prop where
  live : v.core.released = true → v.total SendAct.uses = 0
  place : v.core.released = false → v.total SendAct.displaces = 0
  alone : v.total SendAct.displaces ≤ 1
  counted : v.core.ioCount = 0 → v.core.pending = 0 ∧ v.total SendAct.completing = 0 ∧
    v.total SendAct.uses = 0

/-- The flag, its holders among the threads and the holders at 2. -/
def Flagged (isSending readies posted : Nat) : Prop :=
  isSending = 0 ∧ readies = 0 ∧ posted = 0 ∨ isSending = 1 ∧ readies = 1 ∧ posted = 0 ∨
    isSending = 2 ∧ readies = 0 ∧ posted ≤ 1

/-- What the runs avoid: a send that fails or is not finished, and a failed
attempt at the flag while its holder has seen an empty queue that is not empty
any more, when nobody else is about to try. -/
structure KeepsAwake (v : Sending) (label : SendLabel) : Prop where
  misses : label = .misses → v.core.Active → v.core.sendQueue ≠ [] →
    v.total SendAct.clearing ≠ 0 → v.total SendAct.trying ≠ 1
  loses : label = .loses → ¬ v.core.Active

/-- In every run: the flag of a live session has at most one holder, a session at
rest has nothing left of its last client, and nobody relies on what is not so. -/
structure Locked (v : Sending) : Prop where
  idle : v.core.released = true → v.core.pending = 0 ∧ v.total SendAct.completing = 0
  socket : v.core.released = false → v.core.hasSocket = true
  flag : v.core.released = false →
    Flagged v.core.isSending (v.total SendAct.readies) (v.core.pending + v.total SendAct.posted)
  empty : v.core.released = false → v.core.isSending = 0 → v.core.packetCount = 0
  rest : v.core.released = true → v.total SendAct.releases = 0 →
    v.core.sendQueue = [] ∧ v.core.packetCount = 0 ∧ v.core.isSending = 0
  promised : ∀ a ∈ v.acts, a.promise v.core

/-- In the runs that keep awake: a flag at 2 has a holder, and a queue that is
not empty is looked at again. -/
structure Awake (v : Sending) : Prop where
  locked : v.Locked
  held : v.core.Active → v.core.isSending = 2 → v.core.pending + v.total SendAct.posted ≠ 0
  awake : v.core.Active → v.core.sendQueue ≠ [] → v.core.pending + v.total SendAct.wakes ≠ 0

variable {v v' : Sending} {label : SendLabel}

/-- An acquired session is live. -/
theorem Excludes.live_of_uses (h : v.Excludes) {a : SendAct} (hMem : a ∈ v.acts)
    (hUses : a.uses = 1) : v.core.released = false := by
  by_contra hReleased
  have hNone := eq_zero_of_total (h.live (by simpa using hReleased)) hMem
  omega

/-- Nobody releases a session that is being initialised. -/
theorem Excludes.no_releases (h : v.Excludes) {socket : Bool} (hMem : .inits socket ∈ v.acts) :
    v.total SendAct.releases = 0 := by
  obtain ⟨others, hActs⟩ := Multiset.exists_cons_of_mem hMem
  have hAlone := h.alone
  have hLe := Multiset.sum_map_le_sum_map (s := others) _ _ fun a _ => SendAct.releases_le_displaces a
  simp [Population.total, hActs, SendAct.releases, SendAct.displaces] at hAlone ⊢
  omega

/-- A session that a thread has to itself is released. -/
theorem Excludes.released_of_displaces (h : v.Excludes) {a : SendAct} (hMem : a ∈ v.acts)
    (hDisplaces : a.displaces = 1) : v.core.released = true := by
  by_contra hLive
  have hNone := eq_zero_of_total (h.place (by simpa using hLive)) hMem
  omega

/-- What `Init` works on is at rest. -/
theorem Locked.rest_of_inits (h : v.Locked) (hExcludes : v.Excludes) {socket : Bool}
    (hMem : .inits socket ∈ v.acts) : v.core.released = true ∧
      v.core.sendQueue = [] ∧ v.core.packetCount = 0 ∧ v.core.isSending = 0 := by
  have hReleased := hExcludes.released_of_displaces hMem rfl
  exact ⟨hReleased, h.rest hReleased (hExcludes.no_releases hMem)⟩

/-- The promises about the batch are kept while nobody else holds the flag or
the batch stays and the queue does not shrink, the promises of `Release` and `Init`
while nobody else does either or everything stays. -/
theorem promised_of {c c' : SendCore} {acts : Multiset SendAct} (h : ∀ a ∈ acts, a.promise c)
    (hHolder : (∀ a ∈ acts, a.readies + a.posted = 0) ∨
      c.sendQueue.length ≤ c'.sendQueue.length ∧ c'.packetCount = c.packetCount)
    (hDisplaces : (∀ a ∈ acts, a.displaces = 0) ∨ c'.hasSocket = c.hasSocket ∧
      c'.sendQueue = c.sendQueue ∧ c'.isSending = c.isSending ∧ c'.packetCount = c.packetCount) :
    ∀ a ∈ acts, a.promise c' := by
  intro a hMem
  have hPromise := h a hMem
  cases a
  case releasing | inits =>
    rcases hDisplaces with hNone | ⟨hSocket, hQueue, hFlag, hCount⟩
    · exact absurd (hNone _ hMem) (by simp [SendAct.displaces])
    · simpa only [SendAct.promise, hSocket, hQueue, hFlag, hCount] using hPromise
  case adds | tries | marks | threw | sending | completed => trivial
  case finishes reset =>
    rcases hHolder with hNone | ⟨hQueue, hCount⟩
    · exact absurd (hNone _ hMem) (by simp [SendAct.posted])
    · cases reset
      · trivial
      · exact hCount.trans hPromise
  all_goals
    rcases hHolder with hNone | ⟨hQueue, hCount⟩
    · exact absurd (hNone _ hMem) (by simp [SendAct.readies])
    · simp only [SendAct.promise, hCount] at hPromise ⊢
      omega

section Steps

attribute [local simp] Population.total SendCore.exchange

/-- No send of a released session is out, and no completion of one is being served. -/
theorem Locked.step_idle (h : v.Locked) (hExcludes : v.Excludes) (hStep : SendStep v label v') :
    v'.core.released = true → v'.core.pending = 0 ∧ v'.total SendAct.completing = 0 := by
  have hIdle := h.idle
  cases hStep with
  | row hActs hRow =>
      cases hRow
      case post =>
        have hLive := hExcludes.live_of_uses (a := .sending) (by simp [hActs]) rfl
        simp [hLive]
      case complete hPending =>
        intro hTrue
        exact absurd (hIdle hTrue).1 (Nat.ne_of_gt hPending)
      case win hLive hZero =>
        intro _
        have hCounted := hExcludes.counted hZero
        exact ⟨hCounted.1, by simpa [hActs, SendAct.completing] using hCounted.2.1⟩
      case stop a ha hStop | lose a ha =>
        rcases ha with rfl | rfl
        all_goals simp_all [SendAct.completing]
      all_goals simp_all [SendAct.completing]

/-- A live session keeps its socket. -/
theorem Locked.step_socket (h : v.Locked) (hExcludes : v.Excludes) (hStep : SendStep v label v') :
    v'.core.released = false → v'.core.hasSocket = true := by
  have hSocket := h.socket
  cases hStep with
  | row hActs hRow =>
      cases hRow
      case closeSocket =>
        have hReleased := hExcludes.released_of_displaces (a := .releasing 0) (by simp [hActs]) rfl
        simp [hReleased]
      case publish =>
        have hDone := h.promised (.inits true) (by simp [hActs])
        simpa using hDone rfl
      all_goals simp_all

/-- The flag of a live session is 0, or 1 with one thread in `ReadySending`, or 2 with one send out. -/
theorem Locked.step_flag (h : v.Locked) (hExcludes : v.Excludes) (hStep : SendStep v label v') :
    v'.core.released = false → Flagged v'.core.isSending (v'.total SendAct.readies)
      (v'.core.pending + v'.total SendAct.posted) := by
  intro hLive
  have hFlag := h.flag
  unfold Flagged at hFlag ⊢
  cases hStep with
  | row hActs hRow =>
      cases hRow
      case publish =>
        obtain ⟨hReleased, _, _, hZero⟩ := h.rest_of_inits hExcludes
          (show .inits true ∈ v.acts by simp [hActs])
        have hIdle := h.idle hReleased
        have hUses := hExcludes.live hReleased
        have hReadies : v.total SendAct.readies ≤ v.total SendAct.uses :=
          total_mono SendAct.readies_le_uses
        have hPosted : v.total SendAct.posted ≤ v.total SendAct.completing + v.total SendAct.uses :=
          total_le_add SendAct.posted_le
        left
        simp [hActs, SendAct.readies, SendAct.posted, SendAct.uses, SendAct.completing]
          at hIdle hUses hReadies hPosted ⊢
        omega
      case unlockReleased | clearFlag =>
        have hNone := hExcludes.place hLive
        simp [hActs, SendAct.displaces] at hNone
      case win => cases hLive
      case stop a ha hStop | lose a ha =>
        rcases ha with rfl | rfl
        all_goals
          simp [hActs, SendAct.readies, SendAct.posted] at hLive hFlag ⊢
          have hFlag := hFlag hLive
          omega
      all_goals
        simp [hActs, SendAct.readies, SendAct.posted] at hLive hFlag ⊢
        have hFlag := hFlag hLive
        try split
        all_goals omega

/-- A flag at 2 keeps its holder while no send is lost. -/
theorem Locked.step_held (h : v.Locked) (hExcludes : v.Excludes)
    (hHeld : v.core.Active → v.core.isSending = 2 → v.core.pending + v.total SendAct.posted ≠ 0)
    (hLoses : label = .loses → ¬ v.core.Active) (hStep : SendStep v label v') :
    v'.core.Active → v'.core.isSending = 2 → v'.core.pending + v'.total SendAct.posted ≠ 0 := by
  rintro ⟨hLive, hOpen⟩ hTwo
  have hFlag := h.flag
  unfold SendCore.Active at hHeld
  unfold Flagged at hFlag
  cases hStep with
  | row hActs hRow =>
      cases hRow
      case publish =>
        obtain ⟨_, _, _, hZero⟩ := h.rest_of_inits hExcludes
          (show .inits true ∈ v.acts by simp [hActs])
        rw [hZero] at hTwo
        cases hTwo
      case lose a ha => exact absurd ⟨hLive, hOpen⟩ (hLoses rfl)
      case stop a ha hStop =>
        rcases hStop with hClosed | hNone
        · rw [hOpen] at hClosed
          cases hClosed
        · rw [h.socket hLive] at hNone
          cases hNone
      case openSocket =>
        have hNone := hExcludes.place hLive
        simp [hActs, SendAct.displaces] at hNone
      case win => cases hLive
      case close => cases hOpen
      case drop hReleased => simp [hReleased] at hLive
      case clearFlag | lock => cases hTwo
      case mark | post | complete | finish | resetFinished => simp [SendAct.posted]
      case clear =>
        simp [hActs, SendAct.readies] at hLive hTwo hFlag
        have hFlag := hFlag hLive
        split at hTwo <;> omega
      case unlock | unlockReleased =>
        simp at hTwo
        split at hTwo
        · cases hTwo
        · rename_i hNot
          exact absurd hTwo hNot
      all_goals
        simp [hActs, SendAct.posted] at hLive hOpen hTwo hHeld ⊢
        have hHeld := hHeld hLive hOpen hTwo
        omega

/-- Packets that wait have a send out or a thread that is going to look at the queue. -/
theorem Awake.step_awake (h : v.Awake) (hExcludes : v.Excludes) (hKeeps : v.KeepsAwake label)
    (hStep : SendStep v label v') :
    v'.core.Active → v'.core.sendQueue ≠ [] → v'.core.pending + v'.total SendAct.wakes ≠ 0 := by
  rintro ⟨hLive, hOpen⟩ hQueue
  have hAwake := h.awake
  unfold SendCore.Active at hAwake
  cases hStep with
  | row hActs hRow =>
      cases hRow
      case publish =>
        obtain ⟨_, hEmpty, _⟩ := h.locked.rest_of_inits hExcludes
          (show .inits true ∈ v.acts by simp [hActs])
        exact absurd hEmpty hQueue
      case openSocket =>
        have hNone := hExcludes.place hLive
        simp [hActs, SendAct.displaces] at hNone
      case lose a ha => exact absurd ⟨hLive, hOpen⟩ (hKeeps.loses rfl)
      case stop a ha hStop =>
        rcases hStop with hClosed | hNone
        · rw [hOpen] at hClosed
          cases hClosed
        · rw [h.locked.socket hLive] at hNone
          cases hNone
      case win => cases hLive
      case close => cases hOpen
      case drop hReleased => simp [hReleased] at hLive
      case sampleEmpty hEmpty => exact absurd hEmpty hQueue
      case checkNone hNone =>
        have hSome : 0 < v.core.packetCount := h.locked.promised .checks (by simp [hActs])
        omega
      case miss hTaken =>
        -- The holder of the flag is awake, or it is about to leave it and another tries.
        rename_i others
        have hOther := hKeeps.misses rfl ⟨hLive, hOpen⟩ hQueue
        have hFlag := h.locked.flag hLive
        have hHeld := h.held ⟨hLive, hOpen⟩
        have hReadies : (⟨v.core, others⟩ : Sending).total SendAct.readies ≤ _ :=
          total_le_add SendAct.readies_le
        have hPosted : (⟨v.core, others⟩ : Sending).total SendAct.posted ≤ _ :=
          total_mono SendAct.posted_le_wakes
        have hTrying : (⟨v.core, others⟩ : Sending).total SendAct.trying ≤ _ :=
          total_mono SendAct.trying_le_wakes
        unfold Flagged at hFlag
        simp [hActs, SendAct.readies, SendAct.posted, SendAct.clearing, SendAct.trying]
          at hOther hFlag hHeld hReadies hPosted hTrying ⊢
        omega
      case clearQueue => exact absurd rfl hQueue
      case drain hSome =>
        have hAwake := hAwake ⟨hLive, hOpen⟩ (by simp [hSome])
        simpa [hActs, SendAct.wakes] using hAwake
      case clear | closeSocket | drained | resetReleased | unlockReleased | push | pop | abandon
          | setSocket | clearCount | clearFlag | arrive | quiet =>
        have hAwake := hAwake ⟨hLive, hOpen⟩ hQueue
        simpa [hActs, SendAct.wakes] using hAwake
      all_goals simp [SendAct.wakes]

/-- The holder of the flag is the only one, and nobody displaces the session. -/
theorem Locked.holder_others (h : v.Locked) (hExcludes : v.Excludes) {a : SendAct}
    {others : Multiset SendAct} (hActs : v.acts = ([a] : List SendAct) + others)
    (hHolds : a.readies + a.posted = 1) (hUses : a.uses = 1) :
    (∀ b ∈ others, b.readies + b.posted = 0) ∧ ∀ b ∈ others, b.displaces = 0 := by
  have hLive := hExcludes.live_of_uses (by simp [hActs]) hUses
  have hFlag := h.flag hLive
  unfold Flagged at hFlag
  constructor
  · intro b hMem
    have hReadies : b.readies ≤ _ := le_sum_map hMem
    have hPosted : b.posted ≤ _ := le_sum_map hMem
    simp [hActs] at hFlag
    omega
  · intro b hMem
    exact eq_zero_of_total (hExcludes.place hLive) (by simp [hActs, hMem])

/-- While a session is released or initialised nobody else does, and nobody holds
the flag. -/
theorem Locked.displaces_others (h : v.Locked) (hExcludes : v.Excludes) {a : SendAct}
    {others : Multiset SendAct} (hActs : v.acts = ([a] : List SendAct) + others)
    (hDisplaces : a.displaces = 1) :
    (∀ b ∈ others, b.readies + b.posted = 0) ∧ ∀ b ∈ others, b.displaces = 0 := by
  have hReleased := hExcludes.released_of_displaces (by simp [hActs]) hDisplaces
  constructor
  · intro b hMem
    have hIn : b ∈ v.acts := by simp [hActs, hMem]
    have hUses := eq_zero_of_total (hExcludes.live hReleased) hIn
    have hCompleting := eq_zero_of_total (h.idle hReleased).2 hIn
    have hReadies := SendAct.readies_le_uses b
    have hPosted := SendAct.posted_le b
    omega
  · intro b hMem
    have hLe : b.displaces ≤ _ := le_sum_map hMem
    have hAlone := hExcludes.alone
    simp [hActs, hDisplaces] at hAlone
    omega

/-- With the flag down no batch is kept. -/
theorem Locked.step_empty (h : v.Locked) (hExcludes : v.Excludes) (hStep : SendStep v label v') :
    v'.core.released = false → v'.core.isSending = 0 → v'.core.packetCount = 0 := by
  intro hLive hZero
  have hEmpty := h.empty
  have hFlag := h.flag
  unfold Flagged at hFlag
  cases hStep with
  | row hActs hRow =>
      cases hRow
      case publish =>
        obtain ⟨_, _, hEmpty, _⟩ := h.rest_of_inits hExcludes
          (show .inits true ∈ v.acts by simp [hActs])
        exact hEmpty
      case win => cases hLive
      case lock => cases hZero
      case clear => exact h.promised .clears (by simp [hActs])
      case unlock => exact h.promised (.finishes true) (by simp [hActs])
      case count left =>
        simp [hActs, SendAct.readies] at hLive hZero hFlag
        have hFlag := hFlag hLive
        omega
      case mark =>
        simp [hActs, SendAct.readies] at hLive hZero hFlag
        have hFlag := hFlag hLive
        split at hZero <;> omega
      case unlockReleased | clearFlag =>
        have hNone := hExcludes.place hLive
        simp [hActs, SendAct.displaces] at hNone
      case start | resetFinished | resetReleased | clearCount => rfl
      all_goals exact hEmpty hLive hZero

/-- What a release leaves behind it is empty. -/
theorem Locked.step_rest (h : v.Locked) (hExcludes : v.Excludes) (hStep : SendStep v label v') :
    v'.core.released = true → v'.total SendAct.releases = 0 →
      v'.core.sendQueue = [] ∧ v'.core.packetCount = 0 ∧ v'.core.isSending = 0 := by
  intro hReleased hNone
  have hRest := h.rest
  have hUnused : ∀ {a : SendAct}, a ∈ v.acts → v.core.released = true → a.uses = 0 :=
    fun hMem hReleased => eq_zero_of_total (hExcludes.live hReleased) hMem
  cases hStep with
  | row hActs hRow =>
      cases hRow
      case push =>
        have hPromise := h.promised (.releasing 3) (by simp [hActs])
        exact ⟨hPromise.2.1 (by decide), hPromise.2.2.1 (by decide), hPromise.2.2.2 (by decide)⟩
      case win | closeSocket | drain | drained | resetReleased | unlockReleased =>
        simp [SendAct.releases] at hNone
      case publish => cases hReleased
      case clearQueue | clearCount | clearFlag =>
        obtain ⟨_, hQueue, hCount, hFlag⟩ := h.rest_of_inits hExcludes
          (show .inits true ∈ v.acts by simp [hActs])
        simp [hQueue, hCount, hFlag]
      case enqueue => cases hUnused (a := .adds) (by simp [hActs]) hReleased
      case lock => cases hUnused (a := .tries) (by simp [hActs]) hReleased
      case clear => cases hUnused (a := .clears) (by simp [hActs]) hReleased
      case start queueSize => cases hUnused (a := .sampled queueSize) (by simp [hActs]) hReleased
      case take left _ _ _ => cases hUnused (a := .takes (left + 1)) (by simp [hActs]) hReleased
      case count left => cases hUnused (a := .stores left) (by simp [hActs]) hReleased
      case mark => cases hUnused (a := .marks) (by simp [hActs]) hReleased
      case resetFinished => cases hUnused (a := .finishes false) (by simp [hActs]) hReleased
      case unlock => cases hUnused (a := .finishes true) (by simp [hActs]) hReleased
      case stop a ha hStop | lose a ha =>
        refine hRest hReleased ?_
        rcases ha with rfl | rfl <;> simpa [hActs, SendAct.releases] using hNone
      all_goals
        refine hRest hReleased ?_
        simpa [hActs, SendAct.releases] using hNone

/-- What each thread relies on for its next step holds after everybody else's. -/
theorem Locked.step_promised (h : v.Locked) (hExcludes : v.Excludes) (hStep : SendStep v label v') :
    ∀ a ∈ v'.acts, a.promise v'.core := by
  have hPromised := h.promised
  cases hStep with
  | row hActs hRow =>
      rename_i others
      have hOthers : ∀ b ∈ others, b.promise v.core :=
        fun b hMem => hPromised b (by simp [hActs, hMem])
      have hHolder : ∀ {a : SendAct}, v.acts = ([a] : List SendAct) + others →
          a.readies + a.posted = 1 → a.uses = 1 → ∀ {c : SendCore}, ∀ b ∈ others, b.promise c := by
        intro a hActs hHolds hUses c
        obtain ⟨hNone, hDisplaces⟩ := h.holder_others hExcludes hActs hHolds hUses
        exact promised_of hOthers (.inl hNone) (.inl hDisplaces)
      have hDisplaces : ∀ {a : SendAct}, v.acts = ([a] : List SendAct) + others →
          a.displaces = 1 → ∀ {c : SendCore}, ∀ b ∈ others, b.promise c := by
        intro a hActs hOne c
        obtain ⟨hNone, hDisplaces⟩ := h.displaces_others hExcludes hActs hOne
        exact promised_of hOthers (.inl hNone) (.inl hDisplaces)
      have hSame : ∀ {c : SendCore}, c.hasSocket = v.core.hasSocket →
          c.sendQueue = v.core.sendQueue → c.isSending = v.core.isSending →
          c.packetCount = v.core.packetCount → ∀ b ∈ others, b.promise c := by
        intro c hSocket hQueue hFlag hCount
        refine promised_of hOthers (.inr ⟨?_, hCount⟩) (.inr ⟨hSocket, hQueue, hFlag, hCount⟩)
        rw [hQueue]
      have hInitNone : v.core.released = false → ∀ b ∈ others, b.displaces = 0 :=
        fun hLive b hMem => eq_zero_of_total (hExcludes.place hLive) (by simp [hActs, hMem])
      -- The acts that a row leaves, and then the others.
      intro a hMem
      rw [Multiset.mem_add] at hMem
      cases hRow
      case quiet acts ioCount =>
        refine promised_of hPromised (.inr ?_) (.inr ?_) a ?_
        all_goals simp [hActs]
        simpa using hMem
      all_goals rcases hMem with hMem | hMem
      -- What the row leaves.
      case lock.inl hFree =>
        cases List.mem_singleton.mp hMem
        have hLive := hExcludes.live_of_uses (a := .tries) (by simp [hActs]) rfl
        exact h.empty hLive hFree
      case sampleEmpty.inl =>
        cases List.mem_singleton.mp hMem
        exact hPromised .samples (by simp [hActs])
      case sample.inl hSome =>
        cases List.mem_singleton.mp hMem
        exact ⟨hPromised .samples (by simp [hActs]), List.length_pos_iff.mpr hSome, le_rfl⟩
      case start.inl queueSize =>
        cases List.mem_singleton.mp hMem
        have hPromise := hPromised (.sampled queueSize) (by simp [hActs])
        exact ⟨hPromise.2.2, .inl hPromise.2.1⟩
      case take.inl left packet sendQueue hSome =>
        cases List.mem_singleton.mp hMem
        have hPromise := hPromised (.takes (left + 1)) (by simp [hActs])
        simpa [SendAct.promise, hSome] using hPromise
      case takeNone.inl left hNone =>
        have hPromise := hPromised (.takes (left + 1)) (by simp [hActs])
        simp [SendAct.promise, hNone] at hPromise
      case takeLast.inl =>
        cases List.mem_singleton.mp hMem
        have hPromise := hPromised (.takes 0) (by simp [hActs])
        simpa [SendAct.promise] using hPromise
      case count.inl left =>
        cases List.mem_singleton.mp hMem
        exact ⟨hPromised (.stores left) (by simp [hActs]), .inr (Nat.succ_pos _)⟩
      case checkNone.inl hNone =>
        cases List.mem_singleton.mp hMem
        exact hNone
      case win.inl hLive hZero =>
        cases List.mem_singleton.mp hMem
        have hReadies : v.total SendAct.readies ≤ v.total SendAct.uses :=
          total_mono SendAct.readies_le_uses
        have hFlag := h.flag hLive
        have hUses := (hExcludes.counted hZero).2.2
        unfold Flagged at hFlag
        simp [SendAct.promise]
        omega
      case closeSocket.inl | drain.inl =>
        cases List.mem_singleton.mp hMem
        have hPromise := hPromised (.releasing 0) (by simp [hActs])
        simpa [SendAct.promise] using hPromise.1
      case drained.inl hNone =>
        cases List.mem_singleton.mp hMem
        have hPromise := hPromised (.releasing 0) (by simp [hActs])
        simpa [SendAct.promise, hNone] using hPromise.1
      case resetReleased.inl =>
        cases List.mem_singleton.mp hMem
        have hPromise := hPromised (.releasing 1) (by simp [hActs])
        simpa [SendAct.promise] using ⟨hPromise.1, hPromise.2.1 le_rfl⟩
      case unlockReleased.inl =>
        cases List.mem_singleton.mp hMem
        have hPromise := hPromised (.releasing 2) (by simp [hActs])
        rcases hPromise with ⟨hFlag | hFlag, hQueue, hCount, _⟩
        all_goals simp [SendAct.promise, hFlag, hQueue (by decide), hCount (by decide)]
      case clearQueue.inl | clearCount.inl | clearFlag.inl | openSocket.inl =>
        cases List.mem_singleton.mp hMem
        exact hPromised (.inits true) (by simp [hActs])
      case pop.inl | setSocket.inl =>
        cases List.mem_singleton.mp hMem
        simp [SendAct.promise]
      case enqueue.inl | throw.inl | check.inl | mark.inl | arrive.inl | complete.inl | finish.inl
          | resetFinished.inl | unlock.inl | miss.inl | clear.inl | post.inl | stop.inl | lose.inl
          | drop.inl | close.inl | push.inl | abandon.inl | publish.inl =>
        simp at hMem
        try subst hMem
        try trivial
      -- The others.
      case enqueue.inr packet =>
        have hLive := hExcludes.live_of_uses (a := .adds) (by simp [hActs]) rfl
        refine promised_of hOthers (.inr ?_) (.inl (hInitNone hLive)) a hMem
        simp
      case lock.inr =>
        have hLive := hExcludes.live_of_uses (a := .tries) (by simp [hActs]) rfl
        refine promised_of hOthers (.inr ?_) (.inl (hInitNone hLive)) a hMem
        simp
      case clear.inr | start.inr | take.inr | count.inr | mark.inr | resetFinished.inr | unlock.inr =>
        exact hHolder hActs rfl rfl a hMem
      case closeSocket.inr | drain.inr | resetReleased.inr | unlockReleased.inr | setSocket.inr
          | clearQueue.inr | clearCount.inr | clearFlag.inr =>
        exact hDisplaces hActs rfl a hMem
      all_goals exact hSame rfl rfl rfl rfl a hMem

/-- The sending side stays locked, field by field. -/
theorem Locked.step (h : v.Locked) (hExcludes : v.Excludes) (hStep : SendStep v label v') :
    v'.Locked :=
  ⟨h.step_idle hExcludes hStep, h.step_socket hExcludes hStep, h.step_flag hExcludes hStep,
    h.step_empty hExcludes hStep, h.step_rest hExcludes hStep, h.step_promised hExcludes hStep⟩

/-- And awake, if no wakeup is lost. -/
theorem Awake.step (h : v.Awake) (hExcludes : v.Excludes) (hKeeps : v.KeepsAwake label)
    (hStep : SendStep v label v') : v'.Awake :=
  ⟨h.locked.step hExcludes hStep, h.locked.step_held hExcludes h.held hKeeps.loses hStep,
    h.step_awake hExcludes hKeeps hStep⟩

end Steps

end Sending

end NfNetwork.Net
