import NfNetwork.Machinery.Crew
import NfNetwork.ObjectPool.ObjectPoolTLS

/-! The chunks of `ObjectPoolTLS` are leased: a chunk that the chunk pool has handed out belongs
to one thread, its blocks are taken from above, come back in any order, and the last one to come
back ends the lease. -/
namespace NfNetwork.ObjectPool

open Machinery

variable {Thread Chunk : Type}

/-- The blocks of a chunk. -/
abbrev blockSlots : Finset Nat := Finset.range MAX_BLOCK_BUFFER_SIZE

section Kinds

/-- The block that a thread has taken and not yet returned from `Rent`. -/
def TLSPc.renting : TLSPc Chunk → Multiset (Chunk × Nat)
  | .rent (.testIndex chunk stored) | .rent (.rentNextChunk chunk stored)
  | .rent (.tlsSetNextValue chunk stored _) | .rent (.readIndex chunk stored) =>
      {(chunk, stored.toNat)}
  | .rent (.construct chunk index) | .rent (.incrementAllocatedSize chunk index) => {(chunk, index)}
  | _ => 0

/-- The block that a thread was passed and has not yet counted as free. -/
def TLSPc.returning : TLSPc Chunk → Multiset (Chunk × Nat)
  | .giveBack (.readBlockNode block) | .giveBack (.checkFreeCount block _)
  | .giveBack (.destroy block _) | .giveBack (.decrementFreeCount block _) => {block}
  | _ => 0

/-- The chunk that a thread is about to give back. -/
def TLSPc.closing : TLSPc Chunk → Multiset Chunk
  | .giveBack (.checkIndex chunk) | .giveBack (.returnChunk chunk) => {chunk}
  | _ => 0

/-- In `Return`, where `mTLSAllocatedSize` still counts the object. -/
def TLSPc.counted : TLSPc Chunk → Bool
  | .giveBack _ => true
  | _ => false

/-- The chunk that a thread has rented and not yet put in its TLS slot. -/
def TLSPc.unset : TLSPc Chunk → Multiset Chunk
  | .rent (.tlsSetValue chunk) | .rent (.tlsSetNextValue _ _ chunk) => {chunk}
  | _ => 0

/-- The chunks that only this thread rents from. -/
def TLSThread.owned (thread : TLSThread Chunk) : Multiset Chunk :=
  thread.mTlsIndexForChunk.elim 0 (fun chunk => {chunk}) + thread.pc.unset

end Kinds

/-- What a chunk looks like from outside, and how many threads are at it. -/
structure ChunkView (Chunk : Type) where
  handedOut : Bool
  chunk : ObjectPoolTLSChunk Chunk
  renting : Nat → Nat
  out : Nat → Nat
  closing : Nat
  owners : Nat

namespace ChunkView

/-- Nobody is at a chunk that is in the chunk pool. -/
structure Vacant (v : ChunkView Chunk) : Prop where
  handedOut : v.handedOut = false
  renting : ∀ i, v.renting i = 0
  out : ∀ i, v.out i = 0
  closing : v.closing = 0
  owners : v.owners = 0

/-- The chunk `c` under the lease `l`. -/
structure Leased (v : ChunkView Chunk) (c : Chunk) (l : Lease blockSlots) : Prop where
  handedOut : v.handedOut = true
  guarded : ∀ i < MAX_BLOCK_BUFFER_SIZE, (v.chunk.BlockBuffer i).guarded = true
  origin : ∀ i < MAX_BLOCK_BUFFER_SIZE, (v.chunk.BlockBuffer i).OriginChunk = some c
  lower : 0 ≤ v.chunk.BufferAllocIndex
  upper : v.chunk.BufferAllocIndex ≤ MAX_BLOCK_BUFFER_SIZE
  taken : ∀ i ∈ l.taken, v.chunk.BufferAllocIndex ≤ i
  renting : ∀ i, v.renting i =
    if v.chunk.BufferAllocIndex ≤ i ∧ i < MAX_BLOCK_BUFFER_SIZE ∧ i ∉ l.taken then 1 else 0
  out : ∀ i, v.out i = if l.Out i then 1 else 0
  free : v.chunk.AvailableFreeCount = MAX_BLOCK_BUFFER_SIZE - l.back.card
  closing : v.closing = if l.back = blockSlots then 1 else 0
  owners : v.owners ≤ 1

/-- The chunk `c` under its lease, if it has one. -/
def Shows (v : ChunkView Chunk) (c : Chunk) : Option (Lease blockSlots) → Prop
  | none => v.Vacant
  | some l => v.Leased c l

variable {v : ChunkView Chunk} {c : Chunk} {l : Lease blockSlots} {i : Nat}

/-- A chunk that is handed out begins a lease, with the slots from its first index on to be given. -/
theorem Vacant.lease (h : v.Vacant) :
    Leased { v with handedOut := true, chunk := .new c, owners := 1 } c .fresh where
  handedOut := rfl
  guarded i _ := by simp [ObjectPoolTLSChunk.new, ObjectPoolTLSChunk.BlockNode.guarded]
  origin i _ := rfl
  lower := Int.natCast_nonneg _
  upper := Int.le_refl _
  taken i hi := by cases hi
  renting i := by
    rw [h.renting, if_neg]
    simp only [ObjectPoolTLSChunk.new]
    omega
  out i := by simp [h.out, Lease.Out, Lease.fresh]
  free := by simp [ObjectPoolTLSChunk.new, Lease.fresh]
  closing := by
    rw [if_neg]
    · exact h.closing
    · intro hBack
      have hCard := congrArg Finset.card hBack
      simp [Lease.fresh, MAX_BLOCK_BUFFER_SIZE] at hCard
  owners := Nat.le_refl _

/-- `BufferAllocIndex` goes down: the block there is being rented. -/
theorem Leased.decrement (h : v.Leased c l) (hPos : 0 < v.chunk.BufferAllocIndex) :
    Leased { v with
      chunk := { v.chunk with BufferAllocIndex := v.chunk.BufferAllocIndex - 1 }
      renting := Function.update v.renting (v.chunk.BufferAllocIndex - 1).toNat 1 } c l where
  handedOut := h.handedOut
  guarded := h.guarded
  origin := h.origin
  lower := by
    dsimp only
    omega
  upper := by
    have hUpper := h.upper
    dsimp only
    omega
  taken i hi := by
    have hTaken := h.taken i hi
    dsimp only
    omega
  renting i := by
    have hUpper := h.upper
    have hTaken := h.taken i
    dsimp only
    by_cases hi : i = (v.chunk.BufferAllocIndex - 1).toNat
    · subst hi
      rw [Function.update_self, if_pos]
      refine ⟨by omega, by omega, fun hMem => ?_⟩
      have hAbove := hTaken hMem
      omega
    · rw [Function.update_of_ne hi, h.renting]
      have hSame : v.chunk.BufferAllocIndex ≤ i ↔ v.chunk.BufferAllocIndex - 1 ≤ i := by omega
      simp only [hSame]
  out := h.out
  free := h.free
  closing := h.closing
  owners := h.owners

/-- A slot in a `Rent` lies in front of the index and has not been given yet. -/
theorem Leased.of_renting (h : v.Leased c l) (hRenting : 0 < v.renting i) :
    v.chunk.BufferAllocIndex ≤ i ∧ i < MAX_BLOCK_BUFFER_SIZE ∧ i ∉ l.taken := by
  rw [h.renting] at hRenting
  by_contra hNot
  rw [if_neg hNot] at hRenting
  cases hRenting

/-- A slot that somebody has was given in this lease and has not come back. -/
theorem Leased.of_out (h : v.Leased c l) (hOut : 0 < v.out i) : l.Out i := by
  rw [h.out] at hOut
  by_contra hNot
  rw [if_neg hNot] at hOut
  cases hOut

/-- While a slot is out the chunk still waits for it. -/
theorem Leased.free_pos (h : v.Leased c l) (hOut : l.Out i) : 0 < v.chunk.AvailableFreeCount := by
  have hCard := Finset.card_le_card (l.hBack.trans l.hTaken)
  have hNot := mt Lease.back_eq_iff.mpr (Lease.not_back_of_out hOut)
  rw [Finset.card_range] at hCard hNot
  rw [h.free]
  omega

/-- A block that is being rented has not been taken. -/
theorem Leased.one_holder (h : v.Leased c l) (i : Nat) : v.renting i + v.out i ≤ 1 := by
  rw [h.renting, h.out]
  split
  · rename_i hRenting
    rw [if_neg fun hOut => hRenting.2.2 hOut.1]
  · split <;> omega

/-- `Rent` returns the block. -/
theorem Leased.take (h : v.Leased c l) (hSlot : i ∈ blockSlots) (hFree : i ∉ l.taken)
    (hIndex : v.chunk.BufferAllocIndex ≤ i) :
    Leased { v with
      renting := Function.update v.renting i 0
      out := Function.update v.out i 1 } c (l.take i hSlot) where
  handedOut := h.handedOut
  guarded := h.guarded
  origin := h.origin
  lower := h.lower
  upper := h.upper
  taken j hj := by
    rcases Finset.mem_insert.mp hj with rfl | hj
    · exact hIndex
    · exact h.taken j hj
  renting j := by
    by_cases hj : j = i
    · subst hj
      simp [Lease.take]
    · simp [h.renting, Lease.take, hj]
  out j := by
    by_cases hj : j = i
    · subst hj
      have hBack : j ∉ l.back := fun hMem => hFree (l.hBack hMem)
      simp [Lease.take, Lease.Out, hBack]
    · dsimp only
      rw [Function.update_of_ne hj, h.out]
      exact if_congr (by simp [Lease.take, Lease.Out, hj]) rfl rfl
  free := h.free
  closing := h.closing
  owners := h.owners

/-- The block is counted as free; the last one leaves a thread that closes the chunk. -/
theorem Leased.giveBack (h : v.Leased c l) (hOut : l.Out i) {closing : Nat}
    (hClosing : closing = if v.chunk.AvailableFreeCount - 1 = 0 then 1 else 0) :
    Leased { v with
      chunk := { v.chunk with AvailableFreeCount := v.chunk.AvailableFreeCount - 1 }
      out := Function.update v.out i 0
      closing := v.closing + closing } c (l.giveBack i hOut.1) where
  handedOut := h.handedOut
  guarded := h.guarded
  origin := h.origin
  lower := h.lower
  upper := h.upper
  taken := h.taken
  renting := h.renting
  out j := by
    by_cases hj : j = i
    · subst hj
      simp [Lease.giveBack, Lease.Out]
    · dsimp only
      rw [Function.update_of_ne hj, h.out]
      exact if_congr (by simp [Lease.giveBack, Lease.Out, hj]) rfl rfl
  free := by
    have hCard := Lease.card_giveBack hOut
    have hFree := h.free
    dsimp only
    omega
  closing := by
    have hCard := Lease.card_giveBack hOut
    have hFree := h.free
    have hBefore := h.closing
    rw [if_neg (Lease.not_back_of_out hOut)] at hBefore
    dsimp only
    rw [hBefore, Nat.zero_add, hClosing]
    refine if_congr ?_ rfl rfl
    rw [Lease.back_eq_iff, Finset.card_range]
    omega
  owners := h.owners

/-- A chunk is given back after the hundredth `Return`. -/
theorem Leased.back_of_closing (h : v.Leased c l) (hClosing : 0 < v.closing) :
    l.back = blockSlots := by
  rw [h.closing] at hClosing
  by_contra hNot
  rw [if_neg hNot] at hClosing
  cases hClosing

/-- A thread that closes the chunk gives back the whole of it. -/
theorem Leased.endLease (h : v.Leased c l) (hBack : l.back = blockSlots) (hOwners : v.owners = 0)
    (chunk : ObjectPoolTLSChunk Chunk) :
    Vacant { v with handedOut := false, chunk, closing := v.closing - 1 } := by
  refine ⟨rfl, ?_, ?_, ?_, hOwners⟩
  · intro i
    dsimp only
    rw [h.renting, if_neg]
    rintro ⟨_, hSlot, hFree⟩
    rw [Lease.taken_of_back hBack] at hFree
    exact hFree (Finset.mem_range.mpr hSlot)
  · intro i
    dsimp only
    rw [h.out, if_neg]
    intro hOut
    exact Lease.not_back_of_out hOut hBack
  · dsimp only
    rw [h.closing, if_pos hBack]

/-- When every block has come back, `BufferAllocIndex` is 0. -/
theorem Leased.index_of_back (h : v.Leased c l) (hBack : l.back = blockSlots) :
    v.chunk.BufferAllocIndex = 0 := by
  have hMem : 0 ∈ l.taken := by
    rw [Lease.taken_of_back hBack]
    simp [MAX_BLOCK_BUFFER_SIZE]
  have hTaken := h.taken 0 hMem
  have hLower := h.lower
  omega

/-- A view of the same chunk from which at most an owner is gone. -/
theorem Shows.quiet {v' : ChunkView Chunk} {lease : Option (Lease blockSlots)} (h : v.Shows c lease)
    (hHandedOut : v'.handedOut = v.handedOut)
    (hIndex : v'.chunk.BufferAllocIndex = v.chunk.BufferAllocIndex)
    (hFree : v'.chunk.AvailableFreeCount = v.chunk.AvailableFreeCount)
    (hGuarded : ∀ i, (v'.chunk.BlockBuffer i).guarded = (v.chunk.BlockBuffer i).guarded)
    (hOrigin : ∀ i, (v'.chunk.BlockBuffer i).OriginChunk = (v.chunk.BlockBuffer i).OriginChunk)
    (hRenting : v'.renting = v.renting) (hOut : v'.out = v.out) (hClosing : v'.closing = v.closing)
    (hOwners : v'.owners ≤ v.owners) : v'.Shows c lease := by
  cases lease with
  | none =>
      refine ⟨hHandedOut.trans h.handedOut, hRenting ▸ h.renting, hOut ▸ h.out,
        hClosing.trans h.closing, ?_⟩
      have hNone := h.owners
      omega
  | some l =>
      constructor
      · exact hHandedOut.trans h.handedOut
      · intro i hi
        exact (hGuarded i).trans (h.guarded i hi)
      · intro i hi
        exact (hOrigin i).trans (h.origin i hi)
      · exact hIndex ▸ h.lower
      · exact hIndex ▸ h.upper
      · exact hIndex ▸ h.taken
      · rw [hIndex, hRenting]
        exact h.renting
      · exact hOut ▸ h.out
      · exact hFree.trans h.free
      · exact hClosing.trans h.closing
      · exact hOwners.trans h.owners

end ChunkView

section Sound

variable {pool pool' : ObjectPoolTLS Chunk} {thread : TLSThread Chunk}

/-- The chunk in the thread's TLS slot has blocks left. -/
def TLSThread.Ready (pool : ObjectPoolTLS Chunk) (thread : TLSThread Chunk) : Prop :=
  ∀ c, thread.mTlsIndexForChunk = some c → 0 < (pool.chunks c).BufferAllocIndex

/-- What a thread knows at each place. -/
def TLSThread.Sound (pool : ObjectPoolTLS Chunk) (thread : TLSThread Chunk) : Prop :=
  match thread.pc with
  | .rent .rentChunk => thread.mTlsIndexForChunk = none
  | .rent (.tlsSetValue chunk) =>
      thread.mTlsIndexForChunk = none ∧ 0 < (pool.chunks chunk).BufferAllocIndex
  | .rent (.loadIndex chunk) =>
      thread.mTlsIndexForChunk = some chunk ∧ 0 < (pool.chunks chunk).BufferAllocIndex
  | .rent (.storeIndex chunk loaded) =>
      thread.mTlsIndexForChunk = some chunk ∧ 0 < loaded ∧
        (pool.chunks chunk).BufferAllocIndex = loaded
  | .rent (.testIndex chunk stored) =>
      thread.mTlsIndexForChunk = some chunk ∧ 0 ≤ stored ∧
        (pool.chunks chunk).BufferAllocIndex = stored
  | .rent (.rentNextChunk chunk stored) =>
      thread.mTlsIndexForChunk = some chunk ∧ stored = 0 ∧ (pool.chunks chunk).BufferAllocIndex = 0
  | .rent (.tlsSetNextValue chunk stored nextChunk) =>
      thread.mTlsIndexForChunk = some chunk ∧ stored = 0 ∧
        (pool.chunks chunk).BufferAllocIndex = 0 ∧ 0 < (pool.chunks nextChunk).BufferAllocIndex
  | .rent (.readIndex chunk stored) =>
      thread.Ready pool ∧ (pool.chunks chunk).BufferAllocIndex = stored ∧
        (stored = 0 ∨ 0 < stored ∧ thread.mTlsIndexForChunk = some chunk)
  | .giveBack (.checkFreeCount block chunk) | .giveBack (.destroy block chunk)
  | .giveBack (.decrementFreeCount block chunk) => thread.Ready pool ∧ chunk = block.1
  | .crashed => False
  | _ => thread.Ready pool

/-- A thread's knowledge is about chunks that it owns, and exhausted ones that it rents from. -/
theorem TLSThread.Sound.frame (h : thread.Sound pool)
    (hOwned : ∀ c ∈ thread.owned,
      (pool'.chunks c).BufferAllocIndex = (pool.chunks c).BufferAllocIndex)
    (hExhausted : ∀ c i, (c, i) ∈ thread.pc.renting → (pool.chunks c).BufferAllocIndex = 0 →
      (pool'.chunks c).BufferAllocIndex = 0) : thread.Sound pool' := by
  have hTls : ∀ c, thread.mTlsIndexForChunk = some c →
      (pool'.chunks c).BufferAllocIndex = (pool.chunks c).BufferAllocIndex := by
    intro c hc
    exact hOwned c (by simp [owned, hc])
  have hReady : thread.Ready pool → thread.Ready pool' := by
    intro hReady c hc
    rw [hTls c hc]
    exact hReady c hc
  obtain ⟨tls, pc⟩ := thread
  cases pc with
  | idle => exact hReady h
  | crashed => exact h
  | rent pc =>
      cases pc with
      | tlsGetValue | construct | incrementAllocatedSize => exact hReady h
      | rentChunk => exact h
      | tlsSetValue chunk =>
          refine ⟨h.1, ?_⟩
          rw [hOwned chunk (by simp [owned, TLSPc.unset])]
          exact h.2
      | loadIndex chunk =>
          refine ⟨h.1, ?_⟩
          rw [hTls chunk h.1]
          exact h.2
      | storeIndex chunk loaded => exact ⟨h.1, h.2.1, (hTls chunk h.1).trans h.2.2⟩
      | testIndex chunk stored => exact ⟨h.1, h.2.1, (hTls chunk h.1).trans h.2.2⟩
      | rentNextChunk chunk stored => exact ⟨h.1, h.2.1, (hTls chunk h.1).trans h.2.2⟩
      | tlsSetNextValue chunk stored nextChunk =>
          refine ⟨h.1, h.2.1, (hTls chunk h.1).trans h.2.2.1, ?_⟩
          rw [hOwned nextChunk (by simp [owned, TLSPc.unset])]
          exact h.2.2.2
      | readIndex chunk stored =>
          obtain ⟨hHas, hIndex, hCase⟩ := h
          refine ⟨hReady hHas, ?_, hCase⟩
          rcases hCase with rfl | ⟨_, hSet⟩
          · exact hExhausted chunk 0 (by simp [TLSPc.renting]) hIndex
          · exact (hTls chunk hSet).trans hIndex
  | giveBack pc =>
      cases pc with
      | checkFreeCount | destroy | decrementFreeCount => exact ⟨hReady h.1, h.2⟩
      | _ => exact hReady h

/-- The owner of an exhausted chunk is renting its last block. -/
theorem TLSThread.Sound.renting_of_exhausted {c : Chunk} (h : thread.Sound pool)
    (hOwned : c ∈ thread.owned) (hIndex : (pool.chunks c).BufferAllocIndex = 0) :
    (c, 0) ∈ thread.pc.renting := by
  have hHas : thread.mTlsIndexForChunk = some c ∨ c ∈ thread.pc.unset := by
    rcases Multiset.mem_add.mp hOwned with hTls | hUnset
    · cases hSet : thread.mTlsIndexForChunk with
      | none => simp [hSet] at hTls
      | some chunk => exact .inl (by simpa [hSet, eq_comm] using hTls)
    · exact .inr hUnset
  have hReady : thread.Ready pool → thread.mTlsIndexForChunk ≠ some c := by
    intro hReady hc
    have hPos := hReady c hc
    omega
  obtain ⟨tls, pc⟩ := thread
  cases pc with
  | idle => simp [TLSPc.unset, hReady h] at hHas
  | crashed => cases h
  | rent pc =>
      cases pc with
      | tlsGetValue | construct | incrementAllocatedSize => simp [TLSPc.unset, hReady h] at hHas
      | rentChunk =>
          have hNone : tls = none := h
          simp [TLSPc.unset, hNone] at hHas
      | tlsSetValue chunk =>
          obtain ⟨hNone, hPos⟩ : tls = none ∧ _ := h
          obtain rfl : c = chunk := by simpa [TLSPc.unset, hNone] using hHas
          omega
      | loadIndex chunk =>
          obtain ⟨hSet, hPos⟩ : tls = some chunk ∧ _ := h
          obtain rfl : chunk = c := by simpa [TLSPc.unset, hSet] using hHas
          omega
      | storeIndex chunk loaded =>
          obtain ⟨hSet, hPos, hLoaded⟩ : tls = some chunk ∧ _ := h
          obtain rfl : chunk = c := by simpa [TLSPc.unset, hSet] using hHas
          omega
      | testIndex chunk stored =>
          obtain ⟨hSet, _, hStored⟩ : tls = some chunk ∧ _ := h
          obtain rfl : chunk = c := by simpa [TLSPc.unset, hSet] using hHas
          simp [TLSPc.renting, ← hStored, hIndex]
      | rentNextChunk chunk stored =>
          obtain ⟨hSet, rfl, _⟩ : tls = some chunk ∧ _ := h
          obtain rfl : chunk = c := by simpa [TLSPc.unset, hSet] using hHas
          simp [TLSPc.renting]
      | tlsSetNextValue chunk stored nextChunk =>
          obtain ⟨hSet, rfl, _, hPos⟩ : tls = some chunk ∧ _ := h
          rcases hHas with hTls | hUnset
          · obtain rfl : chunk = c := by simpa [hSet] using hTls
            simp [TLSPc.renting]
          · obtain rfl : c = nextChunk := by simpa [TLSPc.unset] using hUnset
            omega
      | readIndex => simp [TLSPc.unset, hReady h.1] at hHas
  | giveBack pc =>
      cases pc with
      | checkFreeCount | destroy | decrementFreeCount =>
          simp [TLSPc.unset, hReady h.1] at hHas
      | _ => simp [TLSPc.unset, hReady h] at hHas

end Sound

namespace ObjectPoolTLS

variable {pool pool' : ObjectPoolTLS Chunk}

/-- The pools differ in constructed objects and in `mTLSAllocatedSize` at most. -/
structure Alike (pool pool' : ObjectPoolTLS Chunk) : Prop where
  handedOut : pool'.mChunkPool = pool.mChunkPool
  index : ∀ c, (pool'.chunks c).BufferAllocIndex = (pool.chunks c).BufferAllocIndex
  freeCount : ∀ c, (pool'.chunks c).AvailableFreeCount = (pool.chunks c).AvailableFreeCount
  guarded : ∀ c i, ((pool'.chunks c).BlockBuffer i).guarded = ((pool.chunks c).BlockBuffer i).guarded
  origin : ∀ c i, ((pool'.chunks c).BlockBuffer i).OriginChunk =
    ((pool.chunks c).BlockBuffer i).OriginChunk

/-- A pool is like itself. -/
theorem Alike.refl : pool.Alike pool := ⟨rfl, fun _ => rfl, fun _ => rfl, fun _ _ => rfl, fun _ _ => rfl⟩

/-- The allocated size is not part of a chunk. -/
theorem alike_size (size : Int) : pool.Alike { pool with mTLSAllocatedSize := size } :=
  ⟨rfl, fun _ => rfl, fun _ => rfl, fun _ _ => rfl, fun _ _ => rfl⟩

/-- Constructing or destroying an object leaves the chunks' counters alone. -/
theorem alike_storeData [DecidableEq Chunk] (block : Chunk × Nat) (constructed : Bool) :
    pool.Alike (pool.storeData block constructed) := by
  have hBlock : ∀ c i, ((pool.storeData block constructed).chunks c).BlockBuffer i =
      if (c, i) = block then { (pool.chunks c).BlockBuffer i with Data := constructed }
      else (pool.chunks c).BlockBuffer i := by
    intro c i
    obtain ⟨c', i'⟩ := block
    by_cases hc : c = c'
    · subst hc
      by_cases hi : i = i'
      · subst hi
        simp [storeData, storeChunk]
      · simp [storeData, storeChunk, hi]
    · simp [storeData, storeChunk, hc]
  refine ⟨rfl, ?_, ?_, ?_, ?_⟩
  · intro c
    by_cases hc : c = block.1
    · subst hc
      simp [storeData, storeChunk]
    · simp [storeData, storeChunk, hc]
  · intro c
    by_cases hc : c = block.1
    · subst hc
      simp [storeData, storeChunk]
    · simp [storeData, storeChunk, hc]
  · intro c i
    rw [hBlock]
    split <;> rfl
  · intro c i
    rw [hBlock]
    split <;> rfl

end ObjectPoolTLS

namespace TLSSystem

variable [Fintype Thread]

section Views

variable [DecidableEq Chunk]

def renting (s : TLSSystem Thread Chunk) : Multiset (Chunk × Nat) :=
  crewTotal (fun thread => thread.pc.renting) s.threads

def returning (s : TLSSystem Thread Chunk) : Multiset (Chunk × Nat) :=
  crewTotal (fun thread => thread.pc.returning) s.threads

def closing (s : TLSSystem Thread Chunk) : Multiset Chunk :=
  crewTotal (fun thread => thread.pc.closing) s.threads

def owned (s : TLSSystem Thread Chunk) : Multiset Chunk := crewTotal TLSThread.owned s.threads

/-- What there is of the chunk `c`. -/
def view (s : TLSSystem Thread Chunk) (c : Chunk) : ChunkView Chunk where
  handedOut := s.pool.mChunkPool c
  chunk := s.pool.chunks c
  renting i := s.renting.count (c, i)
  out i := s.rented.count (c, i) + s.returning.count (c, i)
  closing := s.closing.count c
  owners := s.owned.count c

variable [DecidableEq Thread] {s s' : TLSSystem Thread Chunk} {t : Thread} {thread : TLSThread Chunk}
  {c : Chunk}

/-- The view of a chunk after one thread moved. -/
theorem view_eq (hThreads : s'.threads = Function.update s.threads t thread) {v : ChunkView Chunk}
    (hHandedOut : s'.pool.mChunkPool c = v.handedOut) (hChunk : s'.pool.chunks c = v.chunk)
    (hRenting : ∀ i, v.renting i + (s.threads t).pc.renting.count (c, i) =
      (s.view c).renting i + thread.pc.renting.count (c, i))
    (hOut : ∀ i, v.out i + s.rented.count (c, i) + (s.threads t).pc.returning.count (c, i) =
      (s.view c).out i + s'.rented.count (c, i) + thread.pc.returning.count (c, i))
    (hClosing : v.closing + (s.threads t).pc.closing.count c =
      (s.view c).closing + thread.pc.closing.count c)
    (hOwners : v.owners + (s.threads t).owned.count c =
      (s.view c).owners + thread.owned.count c) : s'.view c = v := by
  obtain ⟨handedOut, chunk, renting, out, closing, owners⟩ := v
  have hMovedRenting := count_crewTotal_update (fun thread => thread.pc.renting) s.threads t thread
  have hMovedReturning :=
    count_crewTotal_update (fun thread => thread.pc.returning) s.threads t thread
  have hMovedClosing := count_crewTotal_update (fun thread => thread.pc.closing) s.threads t thread
  have hMovedOwned := count_crewTotal_update TLSThread.owned s.threads t thread
  rw [← hThreads] at hMovedRenting hMovedReturning hMovedClosing hMovedOwned
  simp only [view, TLSSystem.renting, TLSSystem.returning, TLSSystem.closing, owned,
    ChunkView.mk.injEq] at hRenting hOut hClosing hOwners ⊢
  refine ⟨hHandedOut, hChunk, ?_, ?_, ?_, ?_⟩
  · funext i
    have hMoved := hMovedRenting (c, i)
    have hGiven := hRenting i
    omega
  · funext i
    have hMoved := hMovedReturning (c, i)
    have hGiven := hOut i
    omega
  · have hMoved := hMovedClosing c
    omega
  · have hMoved := hMovedOwned c
    omega

end Views

variable [DecidableEq Chunk]

/-- The state of the pool against the leases of its chunks. -/
structure Leased (s : TLSSystem Thread Chunk) (leases : Chunk → Option (Lease blockSlots)) : Prop where
  replayed : replay (leaseNext blockSlots) (fun _ => none) s.history = some leases
  shows : ∀ c, (s.view c).Shows c (leases c)
  sound : ∀ t, (s.threads t).Sound s.pool
  size : s.pool.mTLSAllocatedSize =
    s.rented.card + crewCount (fun thread => thread.pc.counted) s.threads

variable [DecidableEq Thread] {s s' : TLSSystem Thread Chunk} {t : Thread} {thread : TLSThread Chunk}
  {leases leases' : Chunk → Option (Lease blockSlots)} {c : Chunk}

/-- What a thread's step has to show: the chunk that it touched, its own place and the size. The
rest follows. -/
theorem Leased.moved (h : s.Leased leases) (hThreads : s'.threads = Function.update s.threads t thread)
    (hReplayed : replay (leaseNext blockSlots) (fun _ => none) s'.history = some leases')
    (hShows : ∀ c, (s'.view c).Shows c (leases' c)) (hSelf : thread.Sound s'.pool)
    (hOthers : ∀ t', t' ≠ t → (s.threads t').Sound s.pool → (s.threads t').Sound s'.pool)
    (hSize : s'.pool.mTLSAllocatedSize + s.rented.card + (s.threads t).pc.counted.toNat =
      s.pool.mTLSAllocatedSize + s'.rented.card + thread.pc.counted.toNat) : s'.Leased leases' where
  replayed := hReplayed
  shows := hShows
  sound := by
    rw [hThreads]
    exact forall_update h.sound hSelf hOthers
  size := by
    have hCounted := crewCount_update (fun thread => thread.pc.counted) s.threads t thread
    rw [← hThreads] at hCounted
    have hBefore := h.size
    omega

/-- A step at one chunk, of which it leaves `v`: the views of the others stay. -/
theorem Leased.moved_at {lease : Option (Lease blockSlots)} {v : ChunkView Chunk} (h : s.Leased leases)
    (hThreads : s'.threads = Function.update s.threads t thread)
    (hReplayed : replay (leaseNext blockSlots) (fun _ => none) s'.history =
      some (Function.update leases c lease))
    (hShows : v.Shows c lease) (hHere : s'.view c = v)
    (hElsewhere : ∀ c', c' ≠ c → s'.view c' = s.view c') (hSelf : thread.Sound s'.pool)
    (hOthers : ∀ t', t' ≠ t → (s.threads t').Sound s.pool → (s.threads t').Sound s'.pool)
    (hSize : s'.pool.mTLSAllocatedSize + s.rented.card + (s.threads t).pc.counted.toNat =
      s.pool.mTLSAllocatedSize + s'.rented.card + thread.pc.counted.toNat) :
    s'.Leased (Function.update leases c lease) := by
  refine h.moved hThreads hReplayed ?_ hSelf hOthers hSize
  intro c'
  by_cases hc : c' = c
  · subst hc
    rw [Function.update_self, hHere]
    exact hShows
  · rw [Function.update_of_ne hc, hElsewhere c' hc]
    exact h.shows c'

/-- A step that moves no block. -/
theorem Leased.quiet (h : s.Leased leases) (hThreads : s'.threads = Function.update s.threads t thread)
    (hHistory : s'.history = s.history) (hAlike : s.pool.Alike s'.pool)
    (hRenting : thread.pc.renting = (s.threads t).pc.renting)
    (hOut : ∀ block, s'.rented.count block + thread.pc.returning.count block =
      s.rented.count block + (s.threads t).pc.returning.count block)
    (hClosing : thread.pc.closing = (s.threads t).pc.closing)
    (hOwned : thread.owned ≤ (s.threads t).owned) (hSelf : thread.Sound s.pool)
    (hSize : s'.pool.mTLSAllocatedSize + s.rented.card + (s.threads t).pc.counted.toNat =
      s.pool.mTLSAllocatedSize + s'.rented.card + thread.pc.counted.toNat) : s'.Leased leases := by
  have hFrame : ∀ {thread : TLSThread Chunk}, thread.Sound s.pool → thread.Sound s'.pool :=
    fun hSound => hSound.frame (fun c _ => hAlike.index c) fun c _ _ hIndex =>
      (hAlike.index c).trans hIndex
  refine h.moved hThreads (hHistory ▸ h.replayed) ?_ (hFrame hSelf) (fun _ _ => hFrame) hSize
  intro c
  have hOwners := count_crewTotal_update TLSThread.owned s.threads t thread c
  rw [← hThreads] at hOwners
  have hView : s'.view c = ⟨s'.pool.mChunkPool c, s'.pool.chunks c, (s.view c).renting,
      (s.view c).out, (s.view c).closing, (s'.view c).owners⟩ := by
    refine view_eq hThreads rfl rfl ?_ ?_ ?_ hOwners
    · intro i
      rw [hRenting]
    · intro i
      have hBlock := hOut (c, i)
      dsimp only
      omega
    · rw [hClosing]
  rw [hView]
  refine (h.shows c).quiet (congrFun hAlike.handedOut c) (hAlike.index c) (hAlike.freeCount c)
    (hAlike.guarded c) (hAlike.origin c) rfl rfl rfl ?_
  have hLe := Multiset.count_le_of_le c hOwned
  simp only [view, TLSSystem.owned] at hOwners ⊢
  omega

omit [DecidableEq Thread] in
/-- Where somebody is, there is a lease. -/
theorem Leased.lease_of_used (h : s.Leased leases) (hUsed : ¬ (s.view c).Vacant) :
    ∃ l, leases c = some l ∧ (s.view c).Leased c l := by
  have hShows := h.shows c
  cases hLease : leases c with
  | none =>
      rw [hLease] at hShows
      exact absurd hShows hUsed
  | some l =>
      rw [hLease] at hShows
      exact ⟨l, rfl, hShows⟩

omit [DecidableEq Thread] in
/-- What a thread is renting is seen by the view of the chunk. -/
theorem mem_renting {i : Nat} (h : (c, i) ∈ (s.threads t).pc.renting) : 0 < (s.view c).renting i :=
  Multiset.count_pos.mpr (Multiset.mem_sum.mpr ⟨t, Finset.mem_univ t, h⟩)

omit [DecidableEq Thread] in
/-- A slot on its way back still counts as out. -/
theorem mem_returning {i : Nat} (h : (c, i) ∈ (s.threads t).pc.returning) : 0 < (s.view c).out i := by
  refine Nat.add_pos_right _ (Multiset.count_pos.mpr ?_)
  exact Multiset.mem_sum.mpr ⟨t, Finset.mem_univ t, h⟩

omit [DecidableEq Thread] in
/-- A thread about to give a chunk back shows in the chunk's view. -/
theorem mem_closing (h : c ∈ (s.threads t).pc.closing) : 0 < (s.view c).closing :=
  Multiset.count_pos.mpr (Multiset.mem_sum.mpr ⟨t, Finset.mem_univ t, h⟩)

omit [DecidableEq Thread] in
/-- So does the thread whose current chunk it is. -/
theorem mem_owned (h : c ∈ (s.threads t).owned) : 0 < (s.view c).owners :=
  Multiset.count_pos.mpr (Multiset.mem_sum.mpr ⟨t, Finset.mem_univ t, h⟩)

omit [DecidableEq Thread] in
/-- A chunk with a slot in a `Rent` is leased. -/
theorem Leased.lease_of_renting {i : Nat} (h : s.Leased leases)
    (hMem : (c, i) ∈ (s.threads t).pc.renting) :
    ∃ l, leases c = some l ∧ (s.view c).Leased c l := by
  apply h.lease_of_used
  intro hVacant
  have hPos := mem_renting hMem
  rw [hVacant.renting] at hPos
  cases hPos

omit [DecidableEq Thread] in
/-- A chunk with a slot in a `Return` is leased. -/
theorem Leased.lease_of_returning {i : Nat} (h : s.Leased leases)
    (hMem : (c, i) ∈ (s.threads t).pc.returning) :
    ∃ l, leases c = some l ∧ (s.view c).Leased c l := by
  apply h.lease_of_used
  intro hVacant
  have hPos := mem_returning hMem
  rw [hVacant.out] at hPos
  cases hPos

omit [DecidableEq Thread] in
/-- A chunk about to be given back is leased until it is. -/
theorem Leased.lease_of_closing (h : s.Leased leases) (hMem : c ∈ (s.threads t).pc.closing) :
    ∃ l, leases c = some l ∧ (s.view c).Leased c l := by
  apply h.lease_of_used
  intro hVacant
  have hPos := mem_closing hMem
  rw [hVacant.closing] at hPos
  cases hPos

omit [DecidableEq Thread] in
/-- A thread's current chunk is leased to it. -/
theorem Leased.lease_of_owned (h : s.Leased leases) (hMem : c ∈ (s.threads t).owned) :
    ∃ l, leases c = some l ∧ (s.view c).Leased c l := by
  apply h.lease_of_used
  intro hVacant
  have hPos := mem_owned hMem
  rw [hVacant.owners] at hPos
  cases hPos

/-- A chunk has one owner. -/
theorem Leased.not_owned (h : s.Leased leases) (hMem : c ∈ (s.threads t).owned) {t' : Thread}
    (hOther : t' ≠ t) : c ∉ (s.threads t').owned := by
  intro hMem'
  obtain ⟨l, _, hView⟩ := h.lease_of_owned hMem
  have hOwners := hView.owners
  have hOne := Multiset.one_le_count_iff_mem.mpr hMem
  have hOthers := Multiset.one_le_count_iff_mem.mpr (mem_crewOthers (f := TLSThread.owned) hOther hMem')
  simp only [view, TLSSystem.owned] at hOwners
  rw [crewTotal_split _ _ t, Multiset.count_add] at hOwners
  omega

omit [DecidableEq Thread] in
/-- Nobody owns a chunk all of whose blocks have come back. -/
theorem Leased.owners_of_back {l : Lease blockSlots} (h : s.Leased leases)
    (hView : (s.view c).Leased c l) (hBack : l.back = blockSlots) : (s.view c).owners = 0 := by
  apply Multiset.count_eq_zero.mpr
  intro hMem
  obtain ⟨t, _, hOwned⟩ := Multiset.mem_sum.mp hMem
  have hRenting := (h.sound t).renting_of_exhausted hOwned (hView.index_of_back hBack)
  obtain ⟨_, hSlot, hFree⟩ := hView.of_renting (mem_renting hRenting)
  rw [Lease.taken_of_back hBack] at hFree
  exact hFree (Finset.mem_range.mpr hSlot)

/-- A thread rents a chunk. -/
theorem Leased.lease (h : s.Leased leases) (hThreads : s'.threads = Function.update s.threads t thread)
    (hFree : s.pool.mChunkPool c = false) (hPool : s'.pool = s.pool.rentChunk c)
    (hRented : s'.rented = s.rented) (hHistory : s'.history = s.history ++ [.lease c])
    (hRenting : thread.pc.renting = (s.threads t).pc.renting)
    (hReturning : thread.pc.returning = (s.threads t).pc.returning)
    (hClosing : thread.pc.closing = (s.threads t).pc.closing)
    (hCounted : thread.pc.counted = (s.threads t).pc.counted)
    (hOwned : thread.owned = (s.threads t).owned + {c}) (hSelf : thread.Sound s'.pool) :
    s'.Leased (Function.update leases c (some .fresh)) := by
  have hNone : leases c = none ∧ (s.view c).Vacant := by
    have hShows := h.shows c
    cases hLease : leases c with
    | none =>
        rw [hLease] at hShows
        exact ⟨rfl, hShows⟩
    | some l =>
        rw [hLease] at hShows
        exact absurd (hShows.handedOut.symm.trans hFree) (by decide)
  have hOther : ∀ {c'}, (∃ l, leases c' = some l ∧ (s.view c').Leased c' l) →
      s'.pool.chunks c' = s.pool.chunks c' := by
    rintro c' ⟨l, hLease, _⟩
    have hc : c' ≠ c := by
      rintro rfl
      rw [hNone.1] at hLease
      cases hLease
    simp [hPool, ObjectPoolTLS.rentChunk, ObjectPoolTLS.storeChunk, hc]
  refine h.moved_at hThreads ?_ hNone.2.lease ?_ ?_ hSelf ?_ ?_
  · rw [hHistory, replay_concat h.replayed]
    exact leaseNext_lease hNone.1
  · apply view_eq hThreads
    · simp [hPool, ObjectPoolTLS.rentChunk]
    · simp [hPool, ObjectPoolTLS.rentChunk, ObjectPoolTLS.storeChunk]
    · simp [hRenting]
    · simp [hRented, hReturning]
    · simp [hClosing]
    · simp [hOwned, hNone.2.owners, Nat.add_comm]
  · intro c' hc
    apply view_eq hThreads
    · simp [hPool, ObjectPoolTLS.rentChunk, hc, view]
    · simp [hPool, ObjectPoolTLS.rentChunk, ObjectPoolTLS.storeChunk, hc, view]
    · simp [hRenting]
    · simp [hRented, hReturning]
    · simp [hClosing]
    · simp [hOwned, hc]
  · intro t' _ hSound
    apply hSound.frame
    · intro c' hMem
      rw [hOther (h.lease_of_owned hMem)]
    · intro c' i hMem hIndex
      rw [hOther (h.lease_of_renting hMem), hIndex]
  · rw [hPool, hRented, hCounted]
    rfl

/-- The owner of a chunk takes its next block. -/
theorem Leased.decrement {tls : Option Chunk} {loaded : Int} (h : s.Leased leases)
    (hThread : s.threads t = ⟨tls, .rent (.storeIndex c loaded)⟩) :
    (s.advance t ⟨s.pool.storeIndex c (loaded - 1), ⟨tls, .rent (.testIndex c (loaded - 1))⟩,
      none, none⟩).Leased leases := by
  have hSound := h.sound t
  rw [hThread] at hSound
  obtain ⟨hTls, hPos, hLoaded⟩ : tls = some c ∧ _ := hSound
  have hOwned : c ∈ (s.threads t).owned := by simp [hThread, TLSThread.owned, hTls]
  obtain ⟨l, hLease, hView⟩ := h.lease_of_owned hOwned
  have hOther : ∀ {c'}, c' ≠ c → (s.pool.storeIndex c (loaded - 1)).chunks c' = s.pool.chunks c' := by
    intro c' hc
    simp [ObjectPoolTLS.storeIndex, ObjectPoolTLS.storeChunk, hc]
  have hIndex : (s.view c).chunk.BufferAllocIndex = loaded := hLoaded
  have hFresh : (s.view c).renting (loaded - 1).toNat = 0 := by
    rw [hView.renting, if_neg]
    omega
  have hMoved := hView.decrement (hIndex ▸ hPos)
  rw [hIndex] at hMoved
  have hStays : Function.update leases c (some l) = leases := by rw [← hLease, Function.update_eq_self]
  rw [← hStays]
  refine h.moved_at rfl ?_ hMoved ?_ ?_ ?_ ?_ ?_
  · simpa [advance, hStays] using h.replayed
  · apply view_eq rfl
    · rfl
    · simp [advance, ObjectPoolTLS.storeIndex, ObjectPoolTLS.storeChunk, view]
    · intro i
      by_cases hi : i = (loaded - 1).toNat
      · subst hi
        simp [-Int.pred_toNat, hThread, TLSPc.renting, hFresh]
      · simp [-Int.pred_toNat, hThread, TLSPc.renting, hi]
    · simp [advance, hThread, TLSPc.returning]
    · simp [hThread, TLSPc.closing]
    · simp [hThread, TLSThread.owned, TLSPc.unset]
  · intro c' hc
    apply view_eq rfl
    · rfl
    · exact hOther hc
    · simp [hThread, TLSPc.renting, hc]
    · simp [advance, hThread, TLSPc.returning]
    · simp [hThread, TLSPc.closing]
    · simp [hThread, TLSThread.owned, TLSPc.unset]
  · exact ⟨hTls, by omega, by simp [advance, ObjectPoolTLS.storeIndex, ObjectPoolTLS.storeChunk]⟩
  · intro t' ht' hSound
    apply hSound.frame
    · intro c' hMem
      rw [advance, hOther]
      rintro rfl
      exact h.not_owned hOwned ht' hMem
    · intro c' i hMem hIndex
      rw [advance, hOther, hIndex]
      rintro rfl
      omega
  · simp [advance, hThread, TLSPc.counted, ObjectPoolTLS.storeIndex, ObjectPoolTLS.storeChunk]

/-- `Rent` returns a block to its caller. -/
theorem Leased.take {tls : Option Chunk} {i : Nat} (h : s.Leased leases)
    (hThread : s.threads t = ⟨tls, .rent (.incrementAllocatedSize c i)⟩) :
    ∃ leases', (s.advance t ⟨{ s.pool with mTLSAllocatedSize := s.pool.mTLSAllocatedSize + 1 },
      ⟨tls, .idle⟩, some (c, i), some (.take c i)⟩).Leased leases' := by
  have hSound := h.sound t
  have hMem : (c, i) ∈ (s.threads t).pc.renting := by simp [hThread, TLSPc.renting]
  rw [hThread] at hSound
  obtain ⟨l, hLease, hView⟩ := h.lease_of_renting hMem
  obtain ⟨hIndex, hSlot, hFree⟩ := hView.of_renting (mem_renting hMem)
  have hTake := hView.take (Finset.mem_range.mpr hSlot) hFree hIndex
  have hRenting : (s.view c).renting i = 1 := by rw [hView.renting, if_pos ⟨hIndex, hSlot, hFree⟩]
  have hOut : (s.view c).out i = 0 := by
    rw [hView.out, if_neg]
    exact fun hOut => hFree hOut.1
  refine ⟨Function.update leases c (some (l.take i (Finset.mem_range.mpr hSlot))), ?_⟩
  refine h.moved_at rfl ?_ hTake ?_ ?_ hSound (fun _ _ hSound => hSound) ?_
  · rw [advance, Option.toList_some, replay_concat h.replayed]
    exact leaseNext_take hLease (Finset.mem_range.mpr hSlot) hFree
  · apply view_eq rfl
    · rfl
    · rfl
    · intro j
      by_cases hj : j = i
      · subst hj
        simp [hThread, TLSPc.renting, hRenting]
      · simp [hThread, TLSPc.renting, hj]
    · intro j
      by_cases hj : j = i
      · subst hj
        simp [advance, hThread, TLSPc.returning, hOut, Nat.add_comm]
      · simp [advance, hThread, TLSPc.returning, hj]
    · simp [hThread, TLSPc.closing]
    · simp [hThread, TLSThread.owned, TLSPc.unset]
  · intro c' hc
    apply view_eq rfl
    · rfl
    · rfl
    · simp [hThread, TLSPc.renting, hc]
    · simp [advance, hThread, TLSPc.returning, hc]
    · simp [hThread, TLSPc.closing]
    · simp [hThread, TLSThread.owned, TLSPc.unset]
  · simp [advance, hThread, TLSPc.counted]
    omega

/-- A block is counted as free. -/
theorem Leased.giveBack {tls : Option Chunk} {i : Nat} (h : s.Leased leases)
    (hThread : s.threads t = ⟨tls, .giveBack (.decrementFreeCount (c, i) c)⟩) :
    0 ≤ (s.pool.chunks c).AvailableFreeCount - 1 ∧
    ∃ leases', (s.advance t ⟨s.pool.storeFreeCount c ((s.pool.chunks c).AvailableFreeCount - 1),
      ⟨tls, if (s.pool.chunks c).AvailableFreeCount - 1 = 0 then .giveBack (.checkIndex c)
        else .giveBack .decrementAllocatedSize⟩, none, some (.giveBack c i)⟩).Leased leases' := by
  have hSound := h.sound t
  have hMem : (c, i) ∈ (s.threads t).pc.returning := by simp [hThread, TLSPc.returning]
  rw [hThread] at hSound
  obtain ⟨l, hLease, hView⟩ := h.lease_of_returning hMem
  have hOut := hView.of_out (mem_returning hMem)
  have hOne : (s.view c).out i = 1 := by rw [hView.out, if_pos hOut]
  have hFree : 0 ≤ (s.pool.chunks c).AvailableFreeCount - 1 := Int.le_sub_one_of_lt (hView.free_pos hOut)
  have hGiveBack := hView.giveBack hOut rfl
  have hOther : ∀ c', (s.pool.storeFreeCount c ((s.pool.chunks c).AvailableFreeCount - 1)).chunks c' =
      if c' = c then { s.pool.chunks c with
        AvailableFreeCount := (s.pool.chunks c).AvailableFreeCount - 1 } else s.pool.chunks c' := by
    intro c'
    by_cases hc : c' = c
    · subst hc
      simp [ObjectPoolTLS.storeFreeCount, ObjectPoolTLS.storeChunk]
    · simp [ObjectPoolTLS.storeFreeCount, ObjectPoolTLS.storeChunk, hc]
  have hIndex : ∀ c', ((s.pool.storeFreeCount c
      ((s.pool.chunks c).AvailableFreeCount - 1)).chunks c').BufferAllocIndex =
        (s.pool.chunks c').BufferAllocIndex := by
    intro c'
    rw [hOther]
    split
    · subst_vars
      rfl
    · rfl
  refine ⟨hFree, Function.update leases c (some (l.giveBack i hOut.1)), ?_⟩
  generalize hPc : (if (s.pool.chunks c).AvailableFreeCount - 1 = 0 then
    TLSPc.giveBack (.checkIndex c) else .giveBack .decrementAllocatedSize) = pc
  have hRenting : pc.renting = 0 := by
    rw [← hPc]
    split <;> rfl
  have hReturning : pc.returning = 0 := by
    rw [← hPc]
    split <;> rfl
  have hUnset : pc.unset = 0 := by
    rw [← hPc]
    split <;> rfl
  have hCounted : pc.counted = true := by
    rw [← hPc]
    split <;> rfl
  have hClosing : pc.closing =
      if (s.pool.chunks c).AvailableFreeCount - 1 = 0 then {c} else 0 := by
    rw [← hPc]
    split <;> rfl
  refine h.moved_at rfl ?_ hGiveBack ?_ ?_ ?_ ?_ ?_
  · rw [advance, Option.toList_some, replay_concat h.replayed]
    exact leaseNext_giveBack hLease hOut
  · apply view_eq rfl
    · rfl
    · rw [advance, hOther, if_pos rfl]
      rfl
    · simp only [hThread, hRenting]
      simp [TLSPc.renting]
    · intro j
      by_cases hj : j = i
      · subst hj
        simp only [advance, hThread, hReturning, hOne]
        simp [TLSPc.returning, Nat.add_comm]
      · simp only [advance, hThread, hReturning]
        simp [TLSPc.returning, hj]
    · by_cases hZero : (s.pool.chunks c).AvailableFreeCount - 1 = 0
      · rw [hClosing, if_pos hZero]
        simp only [view, hThread, hZero]
        simp [TLSPc.closing]
      · rw [hClosing, if_neg hZero]
        simp only [view, hThread, hZero]
        simp [TLSPc.closing]
    · simp only [hThread, TLSThread.owned, hUnset]
      simp [TLSPc.unset]
  · intro c' hc
    apply view_eq rfl
    · rfl
    · exact (hOther c').trans (if_neg hc)
    · simp only [hThread, hRenting]
      simp [TLSPc.renting]
    · simp only [advance, hThread, hReturning]
      simp [TLSPc.returning, hc]
    · rw [hClosing]
      split <;> simp [hThread, TLSPc.closing, hc]
    · simp only [hThread, TLSThread.owned, hUnset]
      simp [TLSPc.unset]
  · have hReady : TLSThread.Ready (s.pool.storeFreeCount c
        ((s.pool.chunks c).AvailableFreeCount - 1)) ⟨tls, pc⟩ := by
      intro c' hc'
      rw [hIndex]
      exact hSound.1 c' hc'
    rw [← hPc] at hReady ⊢
    split <;> exact hReady
  · intro t' _ hOtherSound
    exact hOtherSound.frame (fun c' _ => hIndex c') fun c' _ _ hZero => (hIndex c').trans hZero
  · simp only [advance, hThread, hCounted]
    simp [TLSPc.counted, ObjectPoolTLS.storeFreeCount, ObjectPoolTLS.storeChunk]

/-- A chunk goes back to the chunk pool. -/
theorem Leased.endLease {tls : Option Chunk} (h : s.Leased leases)
    (hThread : s.threads t = ⟨tls, .giveBack (.returnChunk c)⟩) :
    ∃ leases', (s.advance t ⟨s.pool.returnChunk c, ⟨tls, .giveBack .decrementAllocatedSize⟩, none,
      some (.endLease c)⟩).Leased leases' := by
  have hSound := h.sound t
  have hMem : c ∈ (s.threads t).pc.closing := by simp [hThread, TLSPc.closing]
  rw [hThread] at hSound
  obtain ⟨l, hLease, hView⟩ := h.lease_of_closing hMem
  have hBack := hView.back_of_closing (mem_closing hMem)
  have hVacant := hView.endLease hBack (h.owners_of_back hView hBack)
    ((s.pool.returnChunk c).chunks c)
  have hIndex : ∀ c', ((s.pool.returnChunk c).chunks c').BufferAllocIndex =
      (s.pool.chunks c').BufferAllocIndex := by
    intro c'
    by_cases hc : c' = c
    · subst hc
      simp [ObjectPoolTLS.returnChunk, ObjectPoolTLS.storeChunk]
    · simp [ObjectPoolTLS.returnChunk, ObjectPoolTLS.storeChunk, hc]
  refine ⟨Function.update leases c none, ?_⟩
  refine h.moved_at rfl ?_ hVacant ?_ ?_ ?_ ?_ ?_
  · rw [advance, Option.toList_some, replay_concat h.replayed]
    exact leaseNext_endLease hLease hBack
  · apply view_eq rfl
    · simp [advance, ObjectPoolTLS.returnChunk]
    · rfl
    · simp [hThread, TLSPc.renting]
    · simp [advance, hThread, TLSPc.returning]
    · have hPos := mem_closing hMem
      simp [hThread, TLSPc.closing]
      omega
    · simp [hThread, TLSThread.owned, TLSPc.unset]
  · intro c' hc
    apply view_eq rfl
    · simp [advance, ObjectPoolTLS.returnChunk, hc, view]
    · simp [advance, ObjectPoolTLS.returnChunk, ObjectPoolTLS.storeChunk, hc, view]
    · simp [hThread, TLSPc.renting]
    · simp [advance, hThread, TLSPc.returning]
    · simp [hThread, TLSPc.closing, hc]
    · simp [hThread, TLSThread.owned, TLSPc.unset]
  · intro c' hc'
    rw [advance, hIndex]
    exact hSound c' hc'
  · intro t' _ hOtherSound
    exact hOtherSound.frame (fun c' _ => hIndex c') fun c' _ _ hZero => (hIndex c').trans hZero
  · simp [advance, hThread, TLSPc.counted, ObjectPoolTLS.returnChunk, ObjectPoolTLS.storeChunk]

/-- A step of `Rent` or `Return` that moves no block. -/
theorem Leased.run_quiet {pool : ObjectPoolTLS Chunk} (h : s.Leased leases)
    (hAlike : s.pool.Alike pool) (hRenting : thread.pc.renting = (s.threads t).pc.renting)
    (hReturning : thread.pc.returning = (s.threads t).pc.returning)
    (hClosing : thread.pc.closing = (s.threads t).pc.closing)
    (hOwned : thread.owned ≤ (s.threads t).owned) (hSelf : thread.Sound s.pool)
    (hSize : pool.mTLSAllocatedSize + (s.threads t).pc.counted.toNat =
      s.pool.mTLSAllocatedSize + thread.pc.counted.toNat) :
    ∃ leases', (s.advance t ⟨pool, thread, none, none⟩).Leased leases' := by
  refine ⟨leases, h.quiet rfl ?_ hAlike hRenting ?_ hClosing hOwned hSelf ?_⟩
  · simp [advance]
  · intro block
    simp [advance, hReturning]
  · simp only [advance, Option.elim_none, zero_add]
    omega

section Runs

variable {tls : Option Chunk} {a : TLSAdvance Chunk}

attribute [local simp] TLSPc.renting TLSPc.returning TLSPc.closing TLSPc.counted TLSPc.unset
  TLSThread.owned TLSThread.Sound TLSThread.Ready

/-- A step of `Rent` keeps the leases: it begins one, takes the next slot, or leaves its chunk
behind. -/
theorem Leased.run_rent {rentable : Option Chunk} {pc : TLSRentPc Chunk} (h : s.Leased leases)
    (hThread : s.threads t = ⟨tls, .rent pc⟩)
    (hAllocates : rentable = none → pc ≠ .rentChunk ∧ ∀ chunk stored, pc ≠ .rentNextChunk chunk stored)
    (hStep : pc.step s.pool tls rentable = some a) : ∃ leases', (s.advance t a).Leased leases' := by
  have hSound := h.sound t
  rw [hThread] at hSound
  cases pc with
  | tlsGetValue =>
      cases hStep
      cases tls with
      | none => apply h.run_quiet .refl <;> simp [hThread]
      | some chunk =>
          apply h.run_quiet .refl <;> simp [hThread]
          exact hSound chunk rfl
  | rentChunk =>
      cases rentable with
      | none => exact absurd rfl (hAllocates rfl).1
      | some chunk =>
          simp only [TLSRentPc.step] at hStep
          split at hStep
          · cases hStep
          · rename_i hFree
            cases hStep
            have hTls : tls = none := hSound
            refine ⟨_, h.lease rfl (Bool.eq_false_iff.mpr hFree) rfl (by simp [advance]) rfl
              ?_ ?_ ?_ ?_ ?_ ?_⟩ <;> simp [hThread, hTls]
            simp [advance, ObjectPoolTLS.rentChunk, ObjectPoolTLS.storeChunk, ObjectPoolTLSChunk.new,
              MAX_BLOCK_BUFFER_SIZE]
  | tlsSetValue chunk =>
      cases hStep
      obtain ⟨rfl, hPos⟩ : tls = none ∧ _ := hSound
      apply h.run_quiet .refl <;> simp [hThread]
      exact hPos
  | loadIndex chunk =>
      cases hStep
      apply h.run_quiet .refl <;> simp [hThread]
      exact hSound
  | storeIndex chunk loaded =>
      cases hStep
      exact ⟨leases, h.decrement hThread⟩
  | testIndex chunk stored =>
      cases hStep
      obtain ⟨hTls, hLower, hIndex⟩ : tls = some chunk ∧ _ := hSound
      by_cases hZero : (s.pool.chunks chunk).BufferAllocIndex = 0
      · rw [if_pos hZero]
        apply h.run_quiet .refl <;> simp [hThread, hTls]
        omega
      · rw [if_neg hZero]
        apply h.run_quiet .refl <;> simp [hThread, hTls]
        omega
  | rentNextChunk chunk stored =>
      cases rentable with
      | none => exact absurd rfl ((hAllocates rfl).2 chunk stored)
      | some nextChunk =>
          obtain ⟨hTls, hStored, hIndex⟩ : tls = some chunk ∧ _ := hSound
          simp only [TLSRentPc.step] at hStep
          split at hStep
          · cases hStep
          · rename_i hFree
            cases hStep
            have hOther : chunk ≠ nextChunk := by
              rintro rfl
              obtain ⟨l, _, hView⟩ := h.lease_of_owned (t := t) (c := chunk) (by simp [hThread, hTls])
              exact hFree hView.handedOut
            refine ⟨_, h.lease rfl (Bool.eq_false_iff.mpr hFree) rfl (by simp [advance]) rfl
              ?_ ?_ ?_ ?_ ?_ ?_⟩ <;> simp [hThread, hTls]
            simp [advance, ObjectPoolTLS.rentChunk, ObjectPoolTLS.storeChunk, ObjectPoolTLSChunk.new,
              MAX_BLOCK_BUFFER_SIZE, hOther, hStored, hIndex]
  | tlsSetNextValue chunk stored nextChunk =>
      cases hStep
      obtain ⟨hTls, hStored, hIndex, hPos⟩ : tls = some chunk ∧ _ := hSound
      apply h.run_quiet .refl <;> simp [hThread, hTls]
      omega
  | readIndex chunk stored =>
      cases hStep
      obtain ⟨hReady, hIndex, _⟩ := hSound
      have hMem : (chunk, stored.toNat) ∈ (s.threads t).pc.renting := by simp [hThread]
      obtain ⟨l, _, hView⟩ := h.lease_of_renting hMem
      obtain ⟨_, hSlot, _⟩ := hView.of_renting (mem_renting hMem)
      have hLower := hView.lower
      have hRange : 0 ≤ (s.pool.chunks chunk).BufferAllocIndex ∧
          (s.pool.chunks chunk).BufferAllocIndex < MAX_BLOCK_BUFFER_SIZE := by
        refine ⟨hLower, ?_⟩
        omega
      rw [if_pos hRange]
      apply h.run_quiet .refl <;> simp [hThread, hIndex]
      exact hReady
  | construct chunk index =>
      cases hStep
      split
      · apply h.run_quiet (ObjectPoolTLS.alike_storeData _ _) <;>
          simp [hThread, ObjectPoolTLS.storeData, ObjectPoolTLS.storeChunk]
        exact hSound
      · apply h.run_quiet .refl <;> simp [hThread]
        exact hSound
  | incrementAllocatedSize chunk index =>
      cases hStep
      exact h.take hThread

/-- A step of `Return` keeps the leases: the slot comes back, and the last one ends the lease. -/
theorem Leased.run_return {pc : TLSReturnPc Chunk} (h : s.Leased leases)
    (hThread : s.threads t = ⟨tls, .giveBack pc⟩) :
    ∃ leases', (s.advance t (pc.step s.pool tls)).Leased leases' := by
  have hSound := h.sound t
  rw [hThread] at hSound
  cases pc with
  | readBlockNode block =>
      have hMem : (block.1, block.2) ∈ (s.threads t).pc.returning := by simp [hThread]
      obtain ⟨l, _, hView⟩ := h.lease_of_returning hMem
      have hSlot := Finset.mem_range.mp (l.hTaken (hView.of_out (mem_returning hMem)).1)
      have hGuarded : ((s.pool.chunks block.1).BlockBuffer block.2).guarded = true :=
        hView.guarded block.2 hSlot
      have hOrigin : ((s.pool.chunks block.1).BlockBuffer block.2).OriginChunk = some block.1 :=
        hView.origin block.2 hSlot
      simp only [TLSReturnPc.step, hGuarded, hOrigin, if_true, Option.elim_some]
      apply h.run_quiet .refl <;> simp [hThread]
      exact hSound
  | checkFreeCount block chunk =>
      obtain ⟨hReady, rfl⟩ := hSound
      have hMem : (block.1, block.2) ∈ (s.threads t).pc.returning := by simp [hThread]
      obtain ⟨l, _, hView⟩ := h.lease_of_returning hMem
      have hFree := hView.free_pos (hView.of_out (mem_returning hMem))
      have hNonneg : 0 ≤ (s.pool.chunks block.1).AvailableFreeCount := hFree.le
      simp only [TLSReturnPc.step, hNonneg, if_true]
      apply h.run_quiet .refl <;> simp [hThread]
      exact hReady
  | destroy block chunk =>
      rw [TLSReturnPc.step]
      split
      · apply h.run_quiet (ObjectPoolTLS.alike_storeData _ _) <;>
          simp [hThread, ObjectPoolTLS.storeData, ObjectPoolTLS.storeChunk]
        exact hSound
      · apply h.run_quiet .refl <;> simp [hThread]
        exact hSound
  | decrementFreeCount block chunk =>
      obtain ⟨_, rfl⟩ := hSound
      obtain ⟨hFree, hLeased⟩ := h.giveBack hThread
      simp only [TLSReturnPc.step, if_neg (not_lt.mpr hFree)]
      exact hLeased
  | checkIndex chunk =>
      have hMem : chunk ∈ (s.threads t).pc.closing := by simp [hThread]
      obtain ⟨l, _, hView⟩ := h.lease_of_closing hMem
      have hIndex : (s.pool.chunks chunk).BufferAllocIndex = 0 :=
        hView.index_of_back (hView.back_of_closing (mem_closing hMem))
      simp only [TLSReturnPc.step, hIndex, if_true]
      apply h.run_quiet .refl <;> simp [hThread]
      exact hSound
  | returnChunk chunk => exact h.endLease hThread
  | decrementAllocatedSize =>
      rw [TLSReturnPc.step]
      apply h.run_quiet (ObjectPoolTLS.alike_size _) <;> simp [hThread]
      exact hSound

/-- One action keeps the chunks leased. -/
theorem Leased.step {action : TLSAction Thread Chunk} (h : s.Leased leases)
    (hAllocates : s.Allocates action) (hStep : s.step action = some s') :
    ∃ leases', s'.Leased leases' := by
  cases action with
  | callRent t =>
      simp only [TLSSystem.step] at hStep
      split at hStep
      · rename_i hIdle
        cases hStep
        have hSound := h.sound t
        rw [TLSThread.Sound, hIdle] at hSound
        refine ⟨leases, h.quiet (t := t) rfl rfl .refl ?_ ?_ ?_ ?_ hSound ?_⟩ <;> simp [call, hIdle]
      · cases hStep
  | callReturn t block =>
      simp only [TLSSystem.step] at hStep
      split at hStep
      · rename_i hIdle
        split at hStep
        · rename_i hMem
          cases hStep
          have hSound := h.sound t
          rw [TLSThread.Sound, hIdle] at hSound
          refine ⟨leases, h.quiet (t := t) rfl rfl .refl ?_ ?_ ?_ ?_ hSound ?_⟩
          · simp [hIdle]
          · intro block'
            have hErase := congrArg (Multiset.count block') (Multiset.cons_erase hMem)
            rw [Multiset.count_cons] at hErase
            simp only [call, hIdle, TLSPc.returning, Multiset.count_singleton, Multiset.count_zero]
            omega
          · simp [hIdle]
          · simp [hIdle]
          · have hCard := Multiset.card_erase_add_one hMem
            simp [call, hIdle]
            omega
        · cases hStep
      · cases hStep
  | run t rentable =>
      obtain ⟨a, hRun, rfl⟩ := Option.map_eq_some_iff.mp hStep
      rcases hThread : s.threads t with ⟨tls, pc⟩
      rw [TLSThread.step, hThread] at hRun
      cases pc with
      | idle | crashed => cases hRun
      | rent pc =>
          refine h.run_rent hThread ?_ hRun
          rintro rfl
          simpa [Allocates, hThread] using hAllocates
      | giveBack pc =>
          cases hRun
          exact h.run_return hThread

end Runs

omit [DecidableEq Thread] in
/-- No chunk is handed out to begin with. -/
theorem leased_start (policy : eAllocationPolicy) (chunks : Chunk → ObjectPoolTLSChunk Chunk) :
    (start policy chunks : TLSSystem Thread Chunk).Leased fun _ => none where
  replayed := rfl
  shows c := by
    constructor
    · rfl
    all_goals simp [view, start, renting, returning, closing, owned, crewTotal, TLSPc.renting,
      TLSPc.returning, TLSPc.closing, TLSThread.owned, TLSPc.unset]
  sound _ := nofun
  size := by simp [start, crewCount, crewTotal, TLSPc.counted]

/-- What the pool promises. -/
structure Owned (s : TLSSystem Thread Chunk) : Prop where
  /-- Nobody else holds an object that `Rent` returns or has returned. -/
  oneHolder : ∀ block,
    s.rented.count block + s.renting.count block + s.returning.count block ≤ 1
  notCrashed : ∀ t, (s.threads t).pc ≠ .crashed
  inBounds : ∀ t chunk stored, (s.threads t).pc = .rent (.readIndex chunk stored) →
    0 ≤ (s.pool.chunks chunk).BufferAllocIndex ∧
      (s.pool.chunks chunk).BufferAllocIndex < MAX_BLOCK_BUFFER_SIZE
  /-- Each chunk is given back once for each time it was rented, after all its blocks were rented
  and returned. -/
  lives : ∃ leases : Chunk → Option (Lease blockSlots),
    replay (leaseNext blockSlots) (fun _ => none) s.history = some leases ∧
      ∀ c, s.pool.mChunkPool c = (leases c).isSome
  notCurrent : ∀ t c, (s.threads t).pc = .giveBack (.returnChunk c) →
    ∀ t', (s.threads t').mTlsIndexForChunk ≠ some c
  /-- The counter agrees when no operation is in progress. -/
  counted : (∀ t, (s.threads t).pc = .idle) → s.pool.mTLSAllocatedSize = s.rented.card

omit [DecidableEq Thread] in
/-- The chunk pool and the replayed history agree on what is handed out. -/
theorem Leased.handedOut (h : s.Leased leases) (c : Chunk) :
    s.pool.mChunkPool c = (leases c).isSome := by
  have hShows := h.shows c
  cases hLease : leases c with
  | none =>
      rw [hLease] at hShows
      exact hShows.handedOut
  | some l =>
      rw [hLease] at hShows
      exact hShows.handedOut

omit [DecidableEq Thread] in
theorem Leased.one_holder (h : s.Leased leases) (c : Chunk) (i : Nat) :
    (s.view c).renting i + (s.view c).out i ≤ 1 := by
  have hShows := h.shows c
  cases hLease : leases c with
  | none =>
      rw [hLease] at hShows
      rw [hShows.renting, hShows.out]
      decide
  | some l =>
      rw [hLease] at hShows
      exact ChunkView.Leased.one_holder hShows i

omit [DecidableEq Thread] in
/-- The leases of all chunks, read off as what holds of every object. -/
theorem Leased.owned (h : s.Leased leases) : s.Owned where
  oneHolder := by
    rintro ⟨c, i⟩
    have hOne := h.one_holder c i
    dsimp only [view] at hOne
    omega
  notCrashed t hCrashed := by
    have hSound := h.sound t
    rwa [TLSThread.Sound, hCrashed] at hSound
  inBounds t chunk stored hPc := by
    have hSound := h.sound t
    rw [TLSThread.Sound, hPc] at hSound
    have hMem : (chunk, stored.toNat) ∈ (s.threads t).pc.renting := by simp [hPc, TLSPc.renting]
    obtain ⟨l, _, hView⟩ := h.lease_of_renting hMem
    obtain ⟨_, hSlot, _⟩ := hView.of_renting (mem_renting hMem)
    have hLower : 0 ≤ (s.pool.chunks chunk).BufferAllocIndex := hView.lower
    have hIndex := hSound.2.1
    omega
  lives := ⟨leases, h.replayed, h.handedOut⟩
  notCurrent t c hPc t' hTls := by
    have hMem : c ∈ (s.threads t).pc.closing := by simp [hPc, TLSPc.closing]
    obtain ⟨l, _, hView⟩ := h.lease_of_closing hMem
    have hNone := h.owners_of_back hView (hView.back_of_closing (mem_closing hMem))
    have hSome : 0 < (s.view c).owners := mem_owned (t := t') (by simp [TLSThread.owned, hTls])
    omega
  counted hIdle := by
    have hNone : crewCount (fun thread : TLSThread Chunk => thread.pc.counted) s.threads = 0 :=
      crewCount_eq_zero fun t => by rw [hIdle t]; rfl
    simpa [hNone] using h.size

/-- Every object has one holder and every chunk its life, in every run in which chunks can be
allocated. -/
theorem owned_of_reached {policy : eAllocationPolicy} {chunks : Chunk → ObjectPoolTLSChunk Chunk}
    (h : Reachable (Takes step) Allocates (start policy chunks) s) : s.Owned := by
  have hLeased : ∃ leases, s.Leased leases := by
    apply h.invariant
    · exact ⟨_, leased_start policy chunks⟩
    · rintro s s' a _ ⟨leases, hLeased⟩ hAllocates hStep
      exact hLeased.step hAllocates hStep
  obtain ⟨leases, hLeased⟩ := hLeased
  exact hLeased.owned

/-- Two threads rent, each from its own chunk, and one returns what the other rented. -/
private def crossReturn : List (TLSAction Bool Nat) :=
  List.flatten [.callRent false :: List.replicate 9 (.run false (some 0)),
    .callRent true :: List.replicate 9 (.run true (some 1)),
    .callReturn false (1, 99) :: List.replicate 5 (.run false (some 0))]

/-- A test for the assumption that allocations succeed. -/
private def givesChunk (_ : TLSSystem Bool Nat) : TLSAction Bool Nat → Bool
  | .run _ none => false
  | _ => true

/-- A thread returns the object that the other one rented. -/
theorem owned_of_reached_crossReturn :
    ∃ s : TLSSystem Bool Nat, s.rented = {(0, 99)} ∧ s.pool.mTLSAllocatedSize = 1 ∧ s.Owned := by
  have hRun : (exec (checked givesChunk step)
      (start .CallConstructorDestructor fun _ => ⟨fun _ => ⟨none, 0, false, 0⟩, 0, 0⟩)
      crossReturn).map (fun s => decide (s.rented = {(0, 99)} ∧ s.pool.mTLSAllocatedSize = 1)) =
        some true := by
    decide +kernel
  obtain ⟨s, hExec, hEnd⟩ := Option.map_eq_some_iff.mp hRun
  obtain ⟨hRented, hSize⟩ := of_decide_eq_true hEnd
  have hGuard : ∀ {s : TLSSystem Bool Nat} {a}, givesChunk s a = true → s.Allocates a := by
    intro s a hGives
    rcases a with _ | _ | ⟨t, _ | chunk⟩
    · trivial
    · trivial
    · cases hGives
    · trivial
  exact ⟨s, hRented, hSize, owned_of_reached (reachable_of_checked hGuard hExec)⟩

end TLSSystem

end NfNetwork.ObjectPool
