import NfNetwork.Machinery.Tickets
import NfNetwork.Machinery.Transition
import NfNetwork.Profile.ProfileThreadGroup

/-! `Profiler`, and the thread-local number of a thread, which all profilers of the process share. The
numbers come from a counter of each profiler, which is taken not to overflow. A group belongs to a
thread alone in exactly the runs in which nobody calls again that was refused, and no two threads with
the same number, from different profilers, call the same profiler. -/
namespace NfNetwork.Profile

open Machinery

/-- `MAX_SUPPORT_THREAD`. -/
def maxSupportThread : Nat := 8

structure Profiler (Thread : Type) where
  mThreadIndexAcc : Int
  mProfileGroups : Fin maxSupportThread → ProfileThreadGroup Thread

/-- A call's use of the group with this index. -/
structure GroupUse (Thread Id : Type) where
  thread : Thread
  profiler : Id
  index : Int
deriving DecidableEq

/-- The profilers of a process. Which profiler gave a thread its number, and which groups were used, is
only recorded. -/
structure Profilers (Thread Id : Type) where
  gTLSThreadIndex : Thread → Int
  profilers : Id → Profiler Thread
  givenBy : Thread → Option Id
  uses : List (GroupUse Thread Id)

inductive ProfilerCall (Thread Id : Type) where
  | beginTag (thread : Thread) (profiler : Id) (tag : String) (now : Int)
  | endTag (thread : Thread) (profiler : Id) (tag : String) (now : Int)

namespace ProfilerCall

variable {Thread Id : Type}

def thread : ProfilerCall Thread Id → Thread
  | .beginTag thread .. | .endTag thread .. => thread

def profiler : ProfilerCall Thread Id → Id
  | .beginTag _ profiler .. | .endTag _ profiler .. => profiler

end ProfilerCall

namespace Profilers

variable {Thread Id : Type} [DecidableEq Thread] [DecidableEq Id]

/-- Profilers as constructed, before any thread has a number. -/
def new (frequency : Id → Int) : Profilers Thread Id where
  gTLSThreadIndex _ := -1
  profilers id := ⟨-1, fun _ => .new (frequency id)⟩
  givenBy _ := none
  uses := []

/-- `gTLSThreadIndex = InterlockedIncrement64(&mThreadIndexAcc)`. -/
def assign (s : Profilers Thread Id) (thread : Thread) (id : Id) : Profilers Thread Id :=
  let index := (s.profilers id).mThreadIndexAcc + 1
  { s with
    gTLSThreadIndex := Function.update s.gTLSThreadIndex thread index
    profilers := Function.update s.profilers id { s.profilers id with mThreadIndexAcc := index }
    givenBy := Function.update s.givenBy thread (some id) }

/-- `mProfileGroups[gTLSThreadIndex]` and the call on it. There is no group outside the array; what was
there before stands for what an undefined access leaves. -/
def useGroup (s : Profilers Thread Id) (thread : Thread) (id : Id)
    (body : ProfileThreadGroup Thread → Except ProfileStop (ProfileThreadGroup Thread)) :
    Profilers Thread Id × Except ProfileStop Unit :=
  let index := s.gTLSThreadIndex thread
  let s := { s with uses := ⟨thread, id, index⟩ :: s.uses }
  if h : 0 ≤ index ∧ index.toNat < maxSupportThread then
    match body ((s.profilers id).mProfileGroups ⟨index.toNat, h.2⟩) with
    | .ok group =>
      ({ s with profilers := Function.update s.profilers id { s.profilers id with
          mProfileGroups := Function.update (s.profilers id).mProfileGroups ⟨index.toNat, h.2⟩ group } }, .ok ())
    | .error stop => (s, .error stop)
  else (s, .error .undefined)

/-- `Begin`. -/
def beginTag (s : Profilers Thread Id) (thread : Thread) (id : Id) (tag : String) (now : Int) :
    Profilers Thread Id × Except ProfileStop Unit :=
  if s.gTLSThreadIndex thread = -1 then
    let s := s.assign thread id
    if s.gTLSThreadIndex thread ≥ maxSupportThread then (s, .error (.logicError "exceed support thread count"))
    else s.useGroup thread id fun group => group.startRecord thread tag now
  else s.useGroup thread id fun group => group.startRecord thread tag now

/-- `End`. -/
def endTag (s : Profilers Thread Id) (thread : Thread) (id : Id) (tag : String) (now : Int) :
    Profilers Thread Id × Except ProfileStop Unit :=
  if s.gTLSThreadIndex thread = -1 then (s, .error (.logicError "invalid threa index"))
  else s.useGroup thread id fun group => group.stopRecord thread tag now

def step (s : Profilers Thread Id) : ProfilerCall Thread Id → Option (Profilers Thread Id)
  | .beginTag thread id tag now => some (s.beginTag thread id tag now).1
  | .endTag thread id tag now => some (s.endTag thread id tag now).1

/-- Every use was of a group that is there, and no two threads have used the same one. -/
structure Private (s : Profilers Thread Id) : Prop where
  inRange : ∀ use ∈ s.uses, 0 ≤ use.index ∧ use.index < maxSupportThread
  alone : ∀ use ∈ s.uses, ∀ other ∈ s.uses, other.profiler = use.profiler → other.index = use.index →
    other.thread = use.thread

/-- The index of the group that the call works on, unless it throws before. -/
def indexOf (s : Profilers Thread Id) : ProfilerCall Thread Id → Option Int
  | .beginTag thread id .. =>
    if s.gTLSThreadIndex thread = -1 then
      if (s.profilers id).mThreadIndexAcc + 1 ≥ maxSupportThread then none
      else some ((s.profilers id).mThreadIndexAcc + 1)
    else some (s.gTLSThreadIndex thread)
  | .endTag thread .. => if s.gTLSThreadIndex thread = -1 then none else some (s.gTLSThreadIndex thread)

/-- The profiler that gave the thread its number, or gives it in this call. -/
def giver (s : Profilers Thread Id) (call : ProfilerCall Thread Id) : Option Id :=
  if s.gTLSThreadIndex call.thread = -1 then some call.profiler else s.givenBy call.thread

/-- The thread was not refused before, and no other thread that has used the profiler has the number
that this one uses from another profiler. -/
structure Allowed (s : Profilers Thread Id) (call : ProfilerCall Thread Id) : Prop where
  served : s.gTLSThreadIndex call.thread < maxSupportThread
  apart : ∀ index, s.indexOf call = some index → ∀ use ∈ s.uses, use.profiler = call.profiler →
    use.thread ≠ call.thread → s.givenBy use.thread ≠ s.giver call → use.index ≠ index

section Steps

variable {s s' : Profilers Thread Id} {call : ProfilerCall Thread Id}

/-- The numbers that the threads have. -/
def tickets (s : Profilers Thread Id) : Tickets Thread Id where
  last id := (s.profilers id).mThreadIndexAcc
  held thread := (s.givenBy thread).map fun id => (id, s.gTLSThreadIndex thread)

/-- The state after the number of the thread is known. -/
def entered (s : Profilers Thread Id) : ProfilerCall Thread Id → Profilers Thread Id
  | .beginTag thread id .. => if s.gTLSThreadIndex thread = -1 then s.assign thread id else s
  | .endTag .. => s

/-- The numbers are sound, a thread has one exactly if some profiler gave it one, and what was used is
the group of the thread's number. -/
structure Numbered (s : Profilers Thread Id) : Prop where
  sound : s.tickets.Sound
  given : ∀ thread, s.gTLSThreadIndex thread = -1 ↔ s.givenBy thread = none
  used : ∀ use ∈ s.uses, use.index = s.gTLSThreadIndex use.thread ∧ s.givenBy use.thread ≠ none

/-- The numbers, and what gave them, are the same. -/
structure SameNumbers (s s' : Profilers Thread Id) : Prop where
  tls : s'.gTLSThreadIndex = s.gTLSThreadIndex
  givenBy : s'.givenBy = s.givenBy
  acc : ∀ id, (s'.profilers id).mThreadIndexAcc = (s.profilers id).mThreadIndexAcc

omit [DecidableEq Thread] in
/-- What happens in a thread's group does not concern the numbers. -/
theorem useGroup_sameNumbers (s : Profilers Thread Id) (thread : Thread) (id : Id)
    (body : ProfileThreadGroup Thread → Except ProfileStop (ProfileThreadGroup Thread)) :
    SameNumbers s (s.useGroup thread id body).1 ∧
      (s.useGroup thread id body).1.uses = ⟨thread, id, s.gTLSThreadIndex thread⟩ :: s.uses := by
  rw [useGroup]
  dsimp only
  split
  · split
    · refine ⟨⟨rfl, rfl, ?_⟩, rfl⟩
      intro other
      by_cases hSame : other = id
      · subst hSame
        simp
      · simp [hSame]
    · exact ⟨⟨rfl, rfl, fun _ => rfl⟩, rfl⟩
  · exact ⟨⟨rfl, rfl, fun _ => rfl⟩, rfl⟩

/-- All that a call does to the numbers and to the record of the uses. -/
theorem step_cases (h : s.step call = some s') : SameNumbers (s.entered call) s' ∧
    s'.uses = (s.indexOf call).toList.map (⟨call.thread, call.profiler, ·⟩) ++ s.uses := by
  cases call with
  | beginTag thread id tag now =>
      cases h
      rw [beginTag, entered, indexOf]
      by_cases hNew : s.gTLSThreadIndex thread = -1
      · simp only [if_pos hNew]
        have hNumber : (s.assign thread id).gTLSThreadIndex thread = (s.profilers id).mThreadIndexAcc + 1 :=
          Function.update_self ..
        rw [hNumber]
        by_cases hRefused : (s.profilers id).mThreadIndexAcc + 1 ≥ maxSupportThread
        · rw [if_pos hRefused, if_pos hRefused]
          exact ⟨⟨rfl, rfl, fun _ => rfl⟩, rfl⟩
        · rw [if_neg hRefused, if_neg hRefused]
          obtain ⟨hSame, hUses⟩ := (s.assign thread id).useGroup_sameNumbers thread id
            fun group => group.startRecord thread tag now
          rw [hNumber] at hUses
          exact ⟨hSame, hUses⟩
      · simp only [if_neg hNew]
        exact s.useGroup_sameNumbers thread id fun group => group.startRecord thread tag now
  | endTag thread id tag now =>
      cases h
      rw [endTag, entered, indexOf]
      by_cases hNew : s.gTLSThreadIndex thread = -1
      · simp only [if_pos hNew]
        exact ⟨⟨rfl, rfl, fun _ => rfl⟩, rfl⟩
      · simp only [if_neg hNew]
        exact s.useGroup_sameNumbers thread id fun group => group.stopRecord thread tag now

omit [DecidableEq Thread] [DecidableEq Id] in
/-- Nor the tickets that stand for them. -/
theorem SameNumbers.tickets (h : SameNumbers s s') : s'.tickets = s.tickets := by
  simp only [Profilers.tickets, h.tls, h.givenBy, h.acc]

/-- Giving a thread its number is issuing a ticket. -/
theorem assign_tickets (s : Profilers Thread Id) (thread : Thread) (id : Id) :
    (s.assign thread id).tickets = s.tickets.issue thread id := by
  simp only [Profilers.tickets, Tickets.issue, assign, Tickets.mk.injEq]
  constructor
  · funext other
    by_cases hSame : other = id
    · subst hSame
      simp
    · simp [hSame]
  · funext other
    by_cases hSame : other = thread
    · subst hSame
      simp
    · simp [hSame]

/-- A new number is above all that this profiler has given. -/
theorem Numbered.assign (h : s.Numbered) {thread : Thread} (hNew : s.gTLSThreadIndex thread = -1) (id : Id) :
    (s.assign thread id).Numbered where
  sound := by
    rw [assign_tickets]
    exact h.sound.issue thread id
  given other := by
    by_cases hSame : other = thread
    · subst hSame
      have hFloor := h.sound.floor id
      simp only [Profilers.assign, Function.update_self]
      simp only [Profilers.tickets] at hFloor
      simp
      omega
    · simpa [Profilers.assign, hSame] using h.given other
  used use hMem := by
    have hUsed := h.used use hMem
    have hOther : use.thread ≠ thread := by
      rintro rfl
      exact hUsed.2 ((h.given _).mp hNew)
    simpa [Profilers.assign, hOther] using hUsed

/-- A thread that has a number keeps it, whichever profiler gave it. -/
theorem Numbered.entered (h : s.Numbered) (call : ProfilerCall Thread Id) : (s.entered call).Numbered := by
  cases call with
  | beginTag thread id =>
      rw [Profilers.entered]
      split
      · rename_i hNew
        exact h.assign hNew id
      · exact h
  | endTag => exact h

omit [DecidableEq Thread] [DecidableEq Id] in
/-- A thread without a number gets it from the profiler it calls. -/
theorem giver_of_new (hNew : s.gTLSThreadIndex call.thread = -1) : s.giver call = some call.profiler := if_pos hNew

omit [DecidableEq Thread] [DecidableEq Id] in
/-- Any other thread has it already. -/
theorem giver_of_old (hOld : s.gTLSThreadIndex call.thread ≠ -1) : s.giver call = s.givenBy call.thread :=
  if_neg hOld

/-- A call that uses a group has a thread with this number, or gives its thread this new one. -/
theorem indexOf_cases {index : Int} (hIndex : s.indexOf call = some index) :
    (s.gTLSThreadIndex call.thread = -1 ∧ index = (s.profilers call.profiler).mThreadIndexAcc + 1 ∧
      index < maxSupportThread ∧ s.entered call = s.assign call.thread call.profiler) ∨
    (s.gTLSThreadIndex call.thread ≠ -1 ∧ index = s.gTLSThreadIndex call.thread ∧ s.entered call = s) := by
  cases call with
  | beginTag thread id =>
      rw [indexOf] at hIndex
      by_cases hNew : s.gTLSThreadIndex thread = -1
      · rw [if_pos hNew, Option.ite_none_left_eq_some, Option.some.injEq] at hIndex
        exact .inl ⟨hNew, hIndex.2.symm, hIndex.2 ▸ Int.not_le.mp hIndex.1, if_pos hNew⟩
      · rw [if_neg hNew, Option.some.injEq] at hIndex
        exact .inr ⟨hNew, hIndex.symm, if_neg hNew⟩
  | endTag thread id =>
      rw [indexOf, Option.ite_none_left_eq_some, Option.some.injEq] at hIndex
      exact .inr ⟨hIndex.1, hIndex.2.symm, rfl⟩

/-- The index that a call uses is the number that its thread then has. -/
theorem Numbered.indexOf (h : s.Numbered) {index : Int} (hIndex : s.indexOf call = some index) :
    (s.entered call).gTLSThreadIndex call.thread = index ∧
      (s.entered call).givenBy call.thread = s.giver call ∧ s.giver call ≠ none := by
  rcases indexOf_cases hIndex with ⟨hNew, rfl, _, hEntered⟩ | ⟨hOld, rfl, hEntered⟩
  · rw [hEntered, giver_of_new hNew]
    simp [Profilers.assign]
  · rw [hEntered, giver_of_old hOld]
    exact ⟨rfl, rfl, (h.given _).not.mp hOld⟩

omit [DecidableEq Thread] [DecidableEq Id] in
/-- A number that was given is not -1. -/
theorem Numbered.nonneg (h : s.Numbered) {thread : Thread} (hGiven : s.givenBy thread ≠ none) :
    0 ≤ s.gTLSThreadIndex thread := by
  obtain ⟨id, hId⟩ := Option.ne_none_iff_exists'.mp hGiven
  exact (h.sound.within thread id _ (by simp [Profilers.tickets, hId])).1

/-- Entering is not a use yet. -/
theorem entered_uses (s : Profilers Thread Id) (call : ProfilerCall Thread Id) :
    (s.entered call).uses = s.uses := by
  cases call with
  | beginTag =>
      rw [entered]
      split <;> rfl
  | endTag => rfl

/-- Every call keeps the numbers apart. -/
theorem Numbered.step (h : s.Numbered) (hStep : s.step call = some s') : s'.Numbered := by
  obtain ⟨hSame, hUses⟩ := step_cases hStep
  have hEntered := h.entered call
  refine ⟨?_, ?_, ?_⟩
  · rw [hSame.tickets]
    exact hEntered.sound
  · rw [hSame.tls, hSame.givenBy]
    exact hEntered.given
  · intro use hMem
    rw [hSame.tls, hSame.givenBy]
    rw [hUses, List.mem_append] at hMem
    rcases hMem with hMem | hMem
    · obtain ⟨index, hIndex, rfl⟩ := List.mem_map.mp hMem
      obtain ⟨hNumber, hGiver, hSome⟩ := h.indexOf (Option.mem_toList.mp hIndex)
      exact ⟨hNumber.symm, by rwa [hGiver]⟩
    · exact hEntered.used use (by rwa [entered_uses])

omit [DecidableEq Thread] [DecidableEq Id] in
/-- Two threads whose numbers come from one profiler have different numbers. -/
theorem Numbered.apart (h : s.Numbered) {thread other : Thread} (hGiven : s.givenBy thread ≠ none)
    (hGiver : s.givenBy other = s.givenBy thread)
    (hNumber : s.gTLSThreadIndex other = s.gTLSThreadIndex thread) : other = thread := by
  obtain ⟨id, hId⟩ := Option.ne_none_iff_exists'.mp hGiven
  apply h.sound.unique other thread (id, s.gTLSThreadIndex thread)
  · simp [Profilers.tickets, hGiver, hId, hNumber]
  · simp [Profilers.tickets, hId]

/-- A use of the number that the call gives or finds, by a thread whose number has the same giver, is
one of the calling thread. -/
theorem Numbered.thread_eq (h : s.Numbered) {index : Int} (hIndex : s.indexOf call = some index)
    {use : GroupUse Thread Id} (hMem : use ∈ s.uses) (hSame : use.index = index)
    (hGiver : s.givenBy use.thread = s.giver call) : use.thread = call.thread := by
  obtain ⟨hNumber, hUsed⟩ := h.used use hMem
  rcases indexOf_cases hIndex with ⟨hNew, rfl, _, _⟩ | ⟨hOld, rfl, _⟩
  · rw [giver_of_new hNew] at hGiver
    have hWithin := (h.sound.within use.thread call.profiler (s.gTLSThreadIndex use.thread)
      (by simp [Profilers.tickets, hGiver])).2
    simp only [Profilers.tickets] at hWithin
    omega
  · rw [giver_of_old hOld] at hGiver
    exact h.apart ((h.given _).not.mp hOld) hGiver (hNumber.symm.trans hSame)

omit [DecidableEq Thread] [DecidableEq Id] in
/-- A call that gets no group has no number. -/
theorem tls_of_indexOf_none (hIndex : s.indexOf call = none) : s.gTLSThreadIndex call.thread = -1 := by
  by_contra hOld
  cases call with
  | beginTag thread id => exact Option.some_ne_none _ ((if_neg hOld).symm.trans hIndex)
  | endTag thread id => exact Option.some_ne_none _ ((if_neg hOld).symm.trans hIndex)

/-- The index that a call uses is in the array exactly if the thread was not refused before. -/
theorem served_iff {index : Int} (hIndex : s.indexOf call = some index) :
    index < maxSupportThread ↔ s.gTLSThreadIndex call.thread < maxSupportThread := by
  rcases indexOf_cases hIndex with ⟨hNew, rfl, hServed, _⟩ | ⟨_, rfl, _⟩
  · simp [hNew, hServed]
    omega
  · exact Iff.rfl

omit [DecidableEq Thread] [DecidableEq Id] in
/-- What one more use must be like for the groups to stay private. -/
theorem Private.cons_iff (h : s.Private) {use : GroupUse Thread Id} (hUses : s'.uses = use :: s.uses) :
    s'.Private ↔ (0 ≤ use.index ∧ use.index < maxSupportThread) ∧
      ∀ other ∈ s.uses, other.profiler = use.profiler → other.index = use.index → other.thread = use.thread := by
  constructor
  · intro hPrivate
    have hMem : use ∈ s'.uses := by simp [hUses]
    exact ⟨hPrivate.inRange use hMem, fun other hOther => hPrivate.alone use hMem other (by simp [hUses, hOther])⟩
  · rintro ⟨hRange, hAlone⟩
    constructor
    · rw [hUses, List.forall_mem_cons]
      exact ⟨hRange, h.inRange⟩
    · rw [hUses, List.forall_mem_cons]
      refine ⟨?_, ?_⟩
      · rw [List.forall_mem_cons]
        exact ⟨fun _ _ => rfl, hAlone⟩
      · intro first hFirst
        rw [List.forall_mem_cons]
        exact ⟨fun hProfiler hSame => (hAlone first hFirst hProfiler.symm hSame.symm).symm, h.alone first hFirst⟩

/-- A call leaves the groups private exactly if it is allowed. -/
theorem private_step (h : s.Numbered) (hPrivate : s.Private) (hStep : s.step call = some s') :
    s'.Private ↔ s.Allowed call := by
  obtain ⟨_, hUses⟩ := step_cases hStep
  cases hIndex : s.indexOf call with
  | none =>
      rw [hIndex] at hUses
      have hNone := tls_of_indexOf_none hIndex
      apply iff_of_true
      · exact ⟨by rw [hUses]; exact hPrivate.inRange, by rw [hUses]; exact hPrivate.alone⟩
      · refine ⟨by rw [hNone]; decide, ?_⟩
        intro index hSome
        cases hIndex.symm.trans hSome
  | some index =>
      rw [hIndex] at hUses
      rw [hPrivate.cons_iff hUses, served_iff hIndex]
      constructor
      · rintro ⟨⟨_, hServed⟩, hAlone⟩
        refine ⟨hServed, ?_⟩
        intro index' hSome use hMem hProfiler hOther _ hSame
        cases hIndex.symm.trans hSome
        exact hOther (hAlone use hMem hProfiler hSame)
      · rintro ⟨hServed, hApart⟩
        obtain ⟨hNumber, hGiver, hSome⟩ := h.indexOf hIndex
        have hNonneg := (h.entered call).nonneg (hGiver ▸ hSome)
        refine ⟨⟨hNumber ▸ hNonneg, hServed⟩, ?_⟩
        intro use hMem hProfiler hSame
        by_contra hOther
        by_cases hGivers : s.givenBy use.thread = s.giver call
        · exact hOther (h.thread_eq hIndex hMem hSame hGivers)
        · exact hApart index hIndex use hMem hProfiler hOther hGivers hSame

end Steps

omit [DecidableEq Thread] [DecidableEq Id] in
/-- No numbers are given to begin with. -/
theorem new_numbered (frequency : Id → Int) : (new frequency : Profilers Thread Id).Numbered :=
  ⟨Tickets.start_sound, by simp [new], by simp [new]⟩

/-- Every sequence of calls can be made. -/
theorem exec_isSome (s : Profilers Thread Id) (calls : List (ProfilerCall Thread Id)) :
    ∃ s', exec step s calls = some s' := by
  induction calls generalizing s with
  | nil => exact ⟨s, rfl⟩
  | cons call calls ih => cases call <;> exact ih _

/-- The groups stay private in exactly the runs in which every call is allowed. -/
theorem private_iff (frequency : Id → Int) (calls : List (ProfilerCall Thread Id)) :
    EachState step Private (new frequency) calls ↔ EachStep step Allowed (new frequency) calls := by
  obtain ⟨s, hRun⟩ := exec_isSome (new frequency) calls
  exact eachState_iff_eachStep Numbered (fun h hStep => h.step hStep)
    (fun h hPrivate hStep => private_step h hPrivate hStep) (new_numbered frequency)
    ⟨by simp [new], by simp [new]⟩ hRun

/-- Nine threads call `Begin`; the ninth is refused, calls again, and works on a group behind the array. -/
theorem not_private_of_refused : ¬ ∀ (frequency : Unit → Int) (calls : List (ProfilerCall Nat Unit)),
    EachState step Private (new frequency) calls := by
  intro hAll
  let calls : List (ProfilerCall Nat Unit) :=
    (List.range 9).map (fun thread => .beginTag thread () "OnReceived" 0) ++ [.beginTag 8 () "OnReceived" 0]
  have hUses : (exec step (new fun _ => 1) calls).map (·.uses.head?) = some (some ⟨8, (), 8⟩) := by
    decide +kernel
  obtain ⟨s, hRun, hHead⟩ := Option.map_eq_some_iff.mp hUses
  have hPrivate := hAll (fun _ => 1) calls calls [] s (List.append_nil _).symm hRun
  have hRange := hPrivate.inRange _ (List.mem_of_head? hHead)
  exact absurd hRange.2 (by decide)

end Profilers

end NfNetwork.Profile
