import NfNetwork.Profile.ProfileThreadGroup

/-! What a sample still tells of the times that were recorded in it. -/
namespace NfNetwork.Profile

open Machinery

namespace ProfileSample

variable {Thread : Type} {sample : ProfileSample Thread} {k : Kept} {elapsed : Int}

/-- The sample keeps these times, in the order of its arrays. -/
structure Keeps (sample : ProfileSample Thread) (k : Kept) : Prop where
  least : sample.minElapseds = padded int64Max skipMinmax k.low
  most : sample.maxElapseds = padded 0 skipMinmax k.high
  sum : sample.sumOfElapsed = k.rest

/-- A cleared sample keeps nothing. -/
theorem clear_keeps (sample : ProfileSample Thread) : sample.clear.Keeps .start := ⟨rfl, rfl, rfl⟩

/-- The new least value shows that the sample beat the old one. -/
theorem min_ne_iff (least elapsed : Int) : min least elapsed ≠ least ↔ elapsed < least := by
  rw [ne_eq, min_eq_left_iff, Int.not_le]

/-- The same for the greatest. -/
theorem max_ne_iff (most elapsed : Int) : max most elapsed ≠ most ↔ elapsed > most := by
  rw [ne_eq, max_eq_left_iff, Int.not_le]

/-- What one sample does to the shelves it does to the fields of the code. -/
theorem Keeps.record (h : sample.Keeps k) (hSound : k.Sound) (hPos : 0 < elapsed)
    (hMax : elapsed < int64Max) : (sample.record elapsed).Keeps (k.record elapsed) := by
  have hLow : (padded int64Max skipMinmax k.low).any (fun least => elapsed < least) =
      (offer (· < ·) elapsed skipMinmax k.low).isSome := padded_any hMax hSound.lowLength
  have hHigh : (padded 0 skipMinmax k.high).any (fun most => elapsed > most) =
      (offer (· > ·) elapsed skipMinmax k.high).isSome := padded_any hPos hSound.highLength
  have hPutLow : (padded int64Max skipMinmax k.low).replaceF (fun least =>
      if elapsed < least then some elapsed else none) =
        padded int64Max skipMinmax ((offer (· < ·) elapsed skipMinmax k.low).getD k.low) :=
    replaceF_padded hMax hSound.lowLength
  have hPutHigh : (padded 0 skipMinmax k.high).replaceF (fun most =>
      if elapsed > most then some elapsed else none) =
        padded 0 skipMinmax ((offer (· > ·) elapsed skipMinmax k.high).getD k.high) :=
    replaceF_padded hPos hSound.highLength
  obtain ⟨hLeast, hMost, hSum⟩ := h
  simp only [ProfileSample.record, Kept.record, min_ne_iff, max_ne_iff, hLeast, hMost, hLow, hHigh,
    hPutLow, hPutHigh]
  cases offer (· < ·) elapsed skipMinmax k.low with
  | some low =>
      simp only [Option.isSome_some, if_true]
      exact ⟨rfl, rfl, hSum⟩
  | none =>
      cases offer (· > ·) elapsed skipMinmax k.high with
      | some high =>
          simp only [Option.isSome_none, Option.isSome_some, Bool.false_eq_true, if_false, if_true]
          exact ⟨rfl, rfl, hSum⟩
      | none =>
          simp only [Option.isSome_none, Bool.false_eq_true, if_false]
          exact ⟨rfl, rfl, rfl⟩

/-- All times are counted; those kept aside are among them and, with the sum, add up to all of them;
no time kept as one of the smallest is above one kept as one of the largest. -/
structure Accounts (sample : ProfileSample Thread) (samples : List Int) : Prop where
  callCount : sample.callCount.toNat = samples.length
  sum : sample.sumOfElapsed + (sample.minElapseds.filter (· ≠ int64Max)).sum +
    (sample.maxElapseds.filter (· ≠ 0)).sum = samples.sum
  measured : ∀ e, (e ∈ sample.minElapseds ∧ e ≠ int64Max) ∨ (e ∈ sample.maxElapseds ∧ e ≠ 0) → e ∈ samples
  apart : ∀ a ∈ sample.minElapseds, a ≠ int64Max → ∀ b ∈ sample.maxElapseds, b ≠ 0 → a ≤ b

/-- A sample that kept what it could of these times accounts for them exactly if they were orderly. -/
theorem Keeps.accounts_iff_orderly {samples : List Int} (h : sample.Keeps (samples.foldl Kept.record .start))
    (hCount : sample.callCount = UInt64.ofNat samples.length)
    (hSamples : ∀ e ∈ samples, 0 < e ∧ e < int64Max) : sample.Accounts samples ↔ Orderly samples := by
  have hPos : ∀ e ∈ samples, 0 < e := fun e hMem => (hSamples e hMem).1
  have hSound := Kept.start_sound.foldl_record samples hPos
  obtain ⟨hTotal, _, _⟩ := total_eq_sum_iff samples hPos
  obtain ⟨hLowMem, hHighMem⟩ := Kept.start_sound.foldl_forall_mem (P := (· ∈ samples)) (by simp [Kept.start])
    (by simp [Kept.start]) samples fun e hMem => ⟨hPos e hMem, hMem⟩
  generalize samples.foldl Kept.record .start = k at *
  have hLow : sample.minElapseds.filter (· ≠ int64Max) = k.low := by
    rw [h.least]
    exact padded_filter fun a hMem => Int.ne_of_lt (hSamples a (hLowMem a hMem)).2
  have hHigh : sample.maxElapseds.filter (· ≠ 0) = k.high := by
    rw [h.most]
    exact padded_filter fun b hMem => Int.ne_of_gt (hPos b (hHighMem b hMem))
  have hLeast : ∀ a, a ∈ sample.minElapseds ∧ a ≠ int64Max ↔ a ∈ k.low := by
    intro a
    rw [← hLow]
    simp
  have hMost : ∀ b, b ∈ sample.maxElapseds ∧ b ≠ 0 ↔ b ∈ k.high := by
    intro b
    rw [← hHigh]
    simp
  have hSum : sample.sumOfElapsed + (sample.minElapseds.filter (· ≠ int64Max)).sum +
      (sample.maxElapseds.filter (· ≠ 0)).sum = k.total := by
    rw [hLow, hHigh, h.sum, Kept.total]
    omega
  constructor
  · intro hAccounts
    exact hTotal.mp (hSum.symm.trans hAccounts.sum)
  · intro hOrderly
    have hLength := hOrderly.length
    refine ⟨?_, hSum.trans (hTotal.mpr hOrderly), ?_, ?_⟩
    · rw [hCount, UInt64.toNat_ofNat']
      exact Nat.mod_eq_of_lt (Nat.lt_of_le_of_lt hLength (by decide))
    · rintro e (hMem | hMem)
      · exact hLowMem e ((hLeast e).mp hMem)
      · exact hHighMem e ((hMost e).mp hMem)
    · intro a hMem hTaken b hMem' hTaken'
      exact hSound.apart a ((hLeast a).mp ⟨hMem, hTaken⟩) b ((hMost b).mp ⟨hMem', hTaken'⟩)

end ProfileSample

namespace ProfileThreadGroup

variable {Thread : Type} {g : ProfileThreadGroup Thread} {thread : Thread} {tag : String}
  {i : Fin maxSupportProfileSample}

/-- The entry that a search for the tag finds has not been used since it was cleared. -/
structure FreeFor (g : ProfileThreadGroup Thread) (tag : String) (i : Fin maxSupportProfileSample) : Prop where
  others : ∀ j < i, (g.mProfileSamples j).name ≠ "" ∧ (g.mProfileSamples j).name ≠ tag
  cleared : (g.mProfileSamples i).clear = g.mProfileSamples i

/-- The entry that a search for the tag finds, between two pairs of calls. -/
structure Ready (g : ProfileThreadGroup Thread) (thread : Thread) (tag : String)
    (i : Fin maxSupportProfileSample) : Prop where
  others : ∀ j < i, (g.mProfileSamples j).name ≠ "" ∧ (g.mProfileSamples j).name ≠ tag
  idle : (g.mProfileSamples i).isActivated = false
  named : (g.mProfileSamples i).name = "" ∨
    (g.mProfileSamples i).name = tag ∧ (g.mProfileSamples i).threadID = some thread

/-- A free sample may be started under its tag. -/
theorem FreeFor.ready (h : g.FreeFor tag i) (thread : Thread) : g.Ready thread tag i where
  others := h.others
  idle := by
    rw [← h.cleared]
    rfl
  named := by
    rw [← h.cleared]
    exact .inl rfl

/-- The sample of a tag after its `StartRecord`. -/
def started (sample : ProfileSample Thread) (thread : Thread) (tag : String) (now : Int) :
    ProfileSample Thread :=
  { sample with name := tag, threadID := some thread, isActivated := true, startPerformanceCount := now }

/-- `StartRecord` finds the first sample that is free or has the tag. -/
theorem sampleToStart_eq (hOthers : ∀ j < i, (g.mProfileSamples j).name ≠ "" ∧ (g.mProfileSamples j).name ≠ tag)
    (hName : (g.mProfileSamples i).name = "" ∨ (g.mProfileSamples i).name = tag) :
    g.sampleToStart tag = some i := by
  unfold sampleToStart
  apply Fin.find?_eq_some_iff.mpr
  exact ⟨decide_eq_true hName, fun j hBefore => decide_eq_false (not_or.mpr (hOthers j hBefore))⟩

/-- And starts it. -/
theorem Ready.startRecord (h : g.Ready thread tag i) (now : Int) :
    g.startRecord thread tag now = .ok (g.set i (started (g.mProfileSamples i) thread tag now)) := by
  have hFind := sampleToStart_eq h.others (h.named.imp_right And.left)
  simp only [ProfileThreadGroup.startRecord, hFind, h.idle, Bool.false_eq_true, if_false]
  by_cases hNone : (g.mProfileSamples i).name = ""
  · rw [if_pos hNone, started]
  · obtain ⟨hTag, hThread⟩ := h.named.resolve_left hNone
    rw [if_neg hNone, started, ← hTag, ← hThread]

variable [DecidableEq Thread]

/-- `StopRecord` finds the sample of its thread and tag. -/
theorem sampleToStop_eq (hOthers : ∀ j < i, (g.mProfileSamples j).name ≠ tag)
    (hThread : (g.mProfileSamples i).threadID = some thread) (hName : (g.mProfileSamples i).name = tag) :
    g.sampleToStop thread tag = some i := by
  unfold sampleToStop
  apply Fin.find?_eq_some_iff.mpr
  exact ⟨decide_eq_true ⟨hThread, hName⟩,
    fun j hBefore => decide_eq_false fun hBoth => hOthers j hBefore hBoth.2⟩

omit [DecidableEq Thread] in
/-- Samples before it are left alone. -/
theorem set_of_lt {j : Fin maxSupportProfileSample} (hBefore : j < i) (sample : ProfileSample Thread) :
    (g.set i sample).mProfileSamples j = g.mProfileSamples j := Function.update_of_ne (Fin.ne_of_lt hBefore) ..

/-- And stops it, with the time between the two. -/
theorem Ready.stopRecord {start stop elapsed : Int} (h : g.Ready thread tag i)
    (hElapsed : elapsedOf g.mFrequency start stop = some elapsed) :
    (g.set i (started (g.mProfileSamples i) thread tag start)).stopRecord thread tag stop =
      .ok (g.set i ((started (g.mProfileSamples i) thread tag start).record elapsed)) := by
  have hFind : (g.set i (started (g.mProfileSamples i) thread tag start)).sampleToStop thread tag = some i := by
    apply sampleToStop_eq
    · intro j hBefore
      rw [set_of_lt hBefore]
      exact (h.others j hBefore).2
    · rw [set_self, started]
    · rw [set_self, started]
  have hStart : elapsedOf (g.set i (started (g.mProfileSamples i) thread tag start)).mFrequency
      (started (g.mProfileSamples i) thread tag start).startPerformanceCount stop = some elapsed := hElapsed
  simp only [ProfileThreadGroup.stopRecord, hFind, set_self, hStart]
  simp only [ProfileThreadGroup.set, Function.update_idem]

omit [DecidableEq Thread] in
/-- An elapsed time is below `INT64_MAX`, which is no multiple of ten. -/
theorem lt_int64Max_of_elapsedOf {frequency start stop elapsed : Int}
    (h : elapsedOf frequency start stop = some elapsed) : elapsed < int64Max := by
  rw [elapsedOf, Option.ite_none_right_eq_some, Option.some.injEq] at h
  obtain ⟨⟨_, ⟨hLeast, hMost⟩, _⟩, rfl⟩ := h
  have hAbs : (((stop - start) * 10).tdiv frequency).natAbs ≤ ((stop - start) * 10).natAbs :=
    Int.natAbs_tdiv_le_natAbs ..
  simp only [int64Max] at hMost ⊢
  omega

/-- A pair of calls records the time between them. -/
theorem Ready.recordPair {start stop elapsed : Int} (h : g.Ready thread tag i)
    (hElapsed : elapsedOf g.mFrequency start stop = some elapsed) (pairs : List (Int × Int)) :
    ∃ g' : ProfileThreadGroup Thread, g.recordPairs thread tag ((start, stop) :: pairs) = g'.recordPairs thread tag pairs ∧
      g'.Ready thread tag i ∧ g'.mFrequency = g.mFrequency ∧
      g'.mProfileSamples i = (started (g.mProfileSamples i) thread tag start).record elapsed := by
  refine ⟨g.set i ((started (g.mProfileSamples i) thread tag start).record elapsed), ?_, ?_, rfl, set_self ..⟩
  · rw [recordPairs, h.startRecord]
    simp only [bind, Except.bind, h.stopRecord hElapsed]
  · constructor
    · intro j hBefore
      rw [set_of_lt hBefore]
      exact h.others j hBefore
    · simp
    · simp [started]

/-- The pairs that have these elapsed times. -/
def Elapse (frequency : Int) (pairs : List (Int × Int)) (samples : List Int) : Prop :=
  List.Forall₂ (fun pair elapsed => elapsedOf frequency pair.1 pair.2 = some elapsed ∧ 0 < elapsed) pairs samples

/-- Times that could be computed are positive and below the sentinel. -/
theorem Elapse.bounds {frequency : Int} {pairs : List (Int × Int)} {samples : List Int}
    (h : Elapse frequency pairs samples) : ∀ e ∈ samples, 0 < e ∧ e < int64Max := by
  induction h with
  | nil => simp
  | cons hPair _ ih =>
      rw [List.forall_mem_cons]
      exact ⟨⟨hPair.2, lt_int64Max_of_elapsedOf hPair.1⟩, ih⟩

/-- Pairs of calls record the times between them, one after the other. -/
theorem Ready.recordPairs {pairs : List (Int × Int)} {samples : List Int} {k : Kept} (h : g.Ready thread tag i)
    (hElapse : Elapse g.mFrequency pairs samples) (hSound : k.Sound)
    (hKeeps : (g.mProfileSamples i).Keeps k) : ∃ g', g.recordPairs thread tag pairs = .ok g' ∧
      (g'.mProfileSamples i).Keeps (samples.foldl Kept.record k) ∧
      (g'.mProfileSamples i).callCount = (g.mProfileSamples i).callCount + UInt64.ofNat samples.length := by
  induction pairs generalizing g samples k with
  | nil =>
      cases hElapse
      exact ⟨g, rfl, hKeeps, by simp⟩
  | cons pair pairs ih =>
      cases hElapse with
      | @cons _ elapsed _ later hPair hLater =>
          obtain ⟨recorded, hRun, hReady, hFrequency, hSample⟩ := h.recordPair hPair.1 pairs
          have hStarted : (started (g.mProfileSamples i) thread tag pair.1).Keeps k :=
            ⟨hKeeps.least, hKeeps.most, hKeeps.sum⟩
          have hRecorded : (recorded.mProfileSamples i).Keeps (k.record elapsed) := by
            rw [hSample]
            exact hStarted.record hSound hPair.2 (lt_int64Max_of_elapsedOf hPair.1)
          obtain ⟨g', hRun', hKeeps', hCount⟩ := ih hReady (by rwa [hFrequency])
            ((hSound.records elapsed).sound hSound hPair.2) hRecorded
          refine ⟨g', hRun.trans hRun', hKeeps', ?_⟩
          rw [hCount, hSample, ProfileSample.record_callCount, started, List.length_cons]
          rw [Nat.add_comm later.length, UInt64.ofNat_add, UInt64.add_assoc]
          rfl

/-- After any pairs of calls the sample of the tag accounts for all the times exactly if they were
orderly. -/
theorem accounts_iff (g : ProfileThreadGroup Thread) (thread : Thread) (tag : String)
    (i : Fin maxSupportProfileSample) (hFree : g.FreeFor tag i) (pairs : List (Int × Int)) (samples : List Int)
    (hElapse : Elapse g.mFrequency pairs samples) : ∃ g', g.recordPairs thread tag pairs = .ok g' ∧
      ((g'.mProfileSamples i).Accounts samples ↔ Orderly samples) := by
  have hKeeps : (g.mProfileSamples i).Keeps .start := by
    rw [← hFree.cleared]
    exact ProfileSample.clear_keeps _
  have hZero : (g.mProfileSamples i).callCount = 0 := by
    rw [← hFree.cleared]
    rfl
  obtain ⟨g', hRun, hKeeps', hCount⟩ := (hFree.ready thread).recordPairs hElapse Kept.start_sound hKeeps
  refine ⟨g', hRun, hKeeps'.accounts_iff_orderly ?_ hElapse.bounds⟩
  rw [hCount, hZero, UInt64.zero_add]

omit [DecidableEq Thread] in
/-- A new group has its first sample free. -/
theorem new_freeFor (frequency : Int) (tag : String) :
    (new frequency : ProfileThreadGroup Thread).FreeFor tag 0 := ⟨fun j hBefore => absurd hBefore (Fin.not_lt_zero j), rfl⟩

/-- Three times that rise are all accounted for. -/
theorem accounts_iff_rising : ∃ g' : ProfileThreadGroup Unit,
    (new 10000000).recordPairs () "OnReceived" [(0, 2000000), (3000000, 5000000), (7000000, 10000000)] = .ok g' ∧
      (g'.mProfileSamples 0).Accounts [2, 2, 3] := by
  obtain ⟨g', hRun, hIff⟩ := accounts_iff (new 10000000) () "OnReceived" 0 (new_freeFor _ _)
    [(0, 2000000), (3000000, 5000000), (7000000, 10000000)] [2, 2, 3]
    (by simp only [Elapse]; repeat' constructor)
  exact ⟨g', hRun, hIff.mpr ⟨by decide, by decide, by decide, by decide⟩⟩

/-- A second time that is shorter than the first takes its place, and the first is lost. -/
theorem not_accounts_of_falling : ¬ ∀ (tag : String) (pairs : List (Int × Int)) (samples : List Int)
    (g' : ProfileThreadGroup Unit), Elapse 10000000 pairs samples →
      (new 10000000).recordPairs () tag pairs = .ok g' → (g'.mProfileSamples 0).Accounts samples := by
  intro hAll
  have hElapse : Elapse 10000000 [(0, 5000000), (6000000, 9000000)] [5, 3] := by
    simp only [Elapse]
    repeat' constructor
  obtain ⟨g', hRun, hKeeps, hCount⟩ := ((new_freeFor 10000000 "OnReceived").ready ()).recordPairs hElapse
    Kept.start_sound (ProfileSample.clear_keeps _)
  have hOrderly := (hKeeps.accounts_iff_orderly hCount hElapse.bounds).mp (hAll _ _ _ g' hElapse hRun)
  exact absurd hOrderly.rises (by decide)

end ProfileThreadGroup

end NfNetwork.Profile
