import NfNetwork.Machinery.Leases
import NfNetwork.Machinery.Transition
import NfNetwork.ObjectPool.ObjectPoolLockFree

/-! `ObjectPoolTLS` step by step. Every thread rents through the chunk in its own TLS slot, and
any thread returns. The chunk pool hands out chunks, each to one renter at a time; which one is
an input. -/
namespace NfNetwork.ObjectPool

open Machinery

def MAX_BLOCK_BUFFER_SIZE : Nat := 100

def TLS_CHUNK_GUARD : Int := 0x0ABCDEF123456789

/-- A block of a chunk. Of the object only whether it has been constructed is kept. -/
structure ObjectPoolTLSChunk.BlockNode (Chunk : Type) where
  OriginChunk : Option Chunk
  SafeUpper : Int
  Data : Bool
  SafeLower : Int

/-- The asserted memory guards around the object. -/
def ObjectPoolTLSChunk.BlockNode.guarded {Chunk : Type} (block : BlockNode Chunk) : Bool :=
  block.SafeUpper == TLS_CHUNK_GUARD && block.SafeLower == TLS_CHUNK_GUARD

/-- `BlockBuffer` is read below `MAX_BLOCK_BUFFER_SIZE`. -/
structure ObjectPoolTLSChunk (Chunk : Type) where
  BlockBuffer : Nat → ObjectPoolTLSChunk.BlockNode Chunk
  BufferAllocIndex : Int
  AvailableFreeCount : Int

/-- The pool, its chunks in memory, and which of them `mChunkPool` has handed out. -/
structure ObjectPoolTLS (Chunk : Type) where
  chunks : Chunk → ObjectPoolTLSChunk Chunk
  mChunkPool : Chunk → Bool
  mPolicy : eAllocationPolicy
  mTLSAllocatedSize : Int

/-- Where a thread is in `Rent`. `stored` is what it stored in `BufferAllocIndex`, which the
code reads again. -/
inductive TLSRentPc (Chunk : Type) where
  | tlsGetValue
  | rentChunk
  | tlsSetValue (chunk : Chunk)
  | loadIndex (chunk : Chunk)
  | storeIndex (chunk : Chunk) (loaded : Int)
  | testIndex (chunk : Chunk) (stored : Int)
  | rentNextChunk (chunk : Chunk) (stored : Int)
  | tlsSetNextValue (chunk : Chunk) (stored : Int) (nextChunk : Chunk)
  | readIndex (chunk : Chunk) (stored : Int)
  | construct (chunk : Chunk) (index : Nat)
  | incrementAllocatedSize (chunk : Chunk) (index : Nat)

/-- Where a thread is in `Return`. -/
inductive TLSReturnPc (Chunk : Type) where
  | readBlockNode (block : Chunk × Nat)
  | checkFreeCount (block : Chunk × Nat) (chunk : Chunk)
  | destroy (block : Chunk × Nat) (chunk : Chunk)
  | decrementFreeCount (block : Chunk × Nat) (chunk : Chunk)
  | checkIndex (chunk : Chunk)
  | returnChunk (chunk : Chunk)
  | decrementAllocatedSize

/-- `crashed` stands for a failed assertion or an index outside of `BlockBuffer`. -/
inductive TLSPc (Chunk : Type) where
  | idle
  | rent (pc : TLSRentPc Chunk)
  | giveBack (pc : TLSReturnPc Chunk)
  | crashed

/-- A thread and its TLS slot. -/
structure TLSThread (Chunk : Type) where
  mTlsIndexForChunk : Option Chunk
  pc : TLSPc Chunk

/-- What a step leaves behind, the object it returns from `Rent`, and its part in the life of a
chunk. -/
structure TLSAdvance (Chunk : Type) where
  pool : ObjectPoolTLS Chunk
  thread : TLSThread Chunk
  rented : Option (Chunk × Nat) := none
  event : Option (LeaseEvent Chunk Nat) := none

variable {Thread Chunk : Type} [DecidableEq Thread] [DecidableEq Chunk]

/-- The constructor of a chunk, which constructs the objects of its blocks as well. -/
def ObjectPoolTLSChunk.new (chunk : Chunk) : ObjectPoolTLSChunk Chunk where
  BlockBuffer _ := ⟨some chunk, TLS_CHUNK_GUARD, true, TLS_CHUNK_GUARD⟩
  BufferAllocIndex := MAX_BLOCK_BUFFER_SIZE
  AvailableFreeCount := MAX_BLOCK_BUFFER_SIZE

namespace ObjectPoolTLS

variable (pool : ObjectPoolTLS Chunk)

def storeChunk (chunk : Chunk) (value : ObjectPoolTLSChunk Chunk) : ObjectPoolTLS Chunk :=
  { pool with chunks := Function.update pool.chunks chunk value }

/-- `mChunkPool.Rent()`. -/
def rentChunk (chunk : Chunk) : ObjectPoolTLS Chunk :=
  { pool.storeChunk chunk (.new chunk) with mChunkPool := Function.update pool.mChunkPool chunk true }

/-- `mChunkPool.Return(chunk)`, which destroys the chunk and the objects in it. -/
def returnChunk (chunk : Chunk) : ObjectPoolTLS Chunk :=
  { pool.storeChunk chunk
      { pool.chunks chunk with
        BlockBuffer := fun i => { (pool.chunks chunk).BlockBuffer i with Data := false } } with
    mChunkPool := Function.update pool.mChunkPool chunk false }

def storeIndex (chunk : Chunk) (index : Int) : ObjectPoolTLS Chunk :=
  pool.storeChunk chunk { pool.chunks chunk with BufferAllocIndex := index }

def storeFreeCount (chunk : Chunk) (count : Int) : ObjectPoolTLS Chunk :=
  pool.storeChunk chunk { pool.chunks chunk with AvailableFreeCount := count }

/-- The placement new, or the explicit destructor call. -/
def storeData (block : Chunk × Nat) (constructed : Bool) : ObjectPoolTLS Chunk :=
  pool.storeChunk block.1
    { pool.chunks block.1 with
      BlockBuffer := Function.update (pool.chunks block.1).BlockBuffer block.2
        { (pool.chunks block.1).BlockBuffer block.2 with Data := constructed } }

end ObjectPoolTLS

section Steps

variable (pool : ObjectPoolTLS Chunk) (tls : Option Chunk)

def TLSRentPc.step (rentable : Option Chunk) : TLSRentPc Chunk → Option (TLSAdvance Chunk)
  | .tlsGetValue =>
      some { pool, thread := ⟨tls, .rent (tls.elim .rentChunk .loadIndex)⟩ }
  | .rentChunk => match rentable with
    -- throws `std::bad_alloc`
    | none => some { pool, thread := ⟨tls, .idle⟩ }
    | some chunk =>
        if pool.mChunkPool chunk then none
        else some { pool := pool.rentChunk chunk, thread := ⟨tls, .rent (.tlsSetValue chunk)⟩,
                    event := some (.lease chunk) }
  | .tlsSetValue chunk => some { pool, thread := ⟨some chunk, .rent (.loadIndex chunk)⟩ }
  | .loadIndex chunk =>
      some { pool, thread := ⟨tls, .rent (.storeIndex chunk (pool.chunks chunk).BufferAllocIndex)⟩ }
  | .storeIndex chunk loaded =>
      some { pool := pool.storeIndex chunk (loaded - 1),
             thread := ⟨tls, .rent (.testIndex chunk (loaded - 1))⟩ }
  | .testIndex chunk stored =>
      some { pool, thread := ⟨tls, .rent (if (pool.chunks chunk).BufferAllocIndex = 0 then
        .rentNextChunk chunk stored else .readIndex chunk stored)⟩ }
  | .rentNextChunk chunk stored => match rentable with
    | none => some { pool, thread := ⟨tls, .idle⟩ }
    | some nextChunk =>
        if pool.mChunkPool nextChunk then none
        else some { pool := pool.rentChunk nextChunk,
                    thread := ⟨tls, .rent (.tlsSetNextValue chunk stored nextChunk)⟩,
                    event := some (.lease nextChunk) }
  | .tlsSetNextValue chunk stored nextChunk =>
      some { pool, thread := ⟨some nextChunk, .rent (.readIndex chunk stored)⟩ }
  | .readIndex chunk _ =>
      let index := (pool.chunks chunk).BufferAllocIndex
      some { pool, thread := ⟨tls, if 0 ≤ index ∧ index < MAX_BLOCK_BUFFER_SIZE then
        .rent (.construct chunk index.toNat) else .crashed⟩ }
  | .construct chunk index =>
      some { pool := if pool.mPolicy = .CallConstructorDestructor then
               pool.storeData (chunk, index) true else pool,
             thread := ⟨tls, .rent (.incrementAllocatedSize chunk index)⟩ }
  | .incrementAllocatedSize chunk index =>
      some { pool := { pool with mTLSAllocatedSize := pool.mTLSAllocatedSize + 1 },
             thread := ⟨tls, .idle⟩, rented := some (chunk, index),
             event := some (.take chunk index) }

def TLSReturnPc.step : TLSReturnPc Chunk → TLSAdvance Chunk
  | .readBlockNode block =>
      let blockNode := (pool.chunks block.1).BlockBuffer block.2
      { pool, thread := ⟨tls, if blockNode.guarded then
          blockNode.OriginChunk.elim .crashed fun chunk => .giveBack (.checkFreeCount block chunk)
        else .crashed⟩ }
  | .checkFreeCount block chunk =>
      { pool, thread := ⟨tls, if 0 ≤ (pool.chunks chunk).AvailableFreeCount then
          .giveBack (.destroy block chunk) else .crashed⟩ }
  | .destroy block chunk =>
      { pool := if pool.mPolicy = .CallConstructorDestructor then pool.storeData block false else pool,
        thread := ⟨tls, .giveBack (.decrementFreeCount block chunk)⟩ }
  | .decrementFreeCount block chunk =>
      let freeCount := (pool.chunks chunk).AvailableFreeCount - 1
      { pool := pool.storeFreeCount chunk freeCount,
        thread := ⟨tls, if freeCount < 0 then .crashed
          else if freeCount = 0 then .giveBack (.checkIndex chunk)
          else .giveBack .decrementAllocatedSize⟩,
        event := some (.giveBack block.1 block.2) }
  | .checkIndex chunk =>
      { pool, thread := ⟨tls, if (pool.chunks chunk).BufferAllocIndex = 0 then
          .giveBack (.returnChunk chunk) else .crashed⟩ }
  | .returnChunk chunk =>
      { pool := pool.returnChunk chunk, thread := ⟨tls, .giveBack .decrementAllocatedSize⟩,
        event := some (.endLease chunk) }
  | .decrementAllocatedSize =>
      { pool := { pool with mTLSAllocatedSize := pool.mTLSAllocatedSize - 1 },
        thread := ⟨tls, .idle⟩ }

def TLSThread.step (thread : TLSThread Chunk) (rentable : Option Chunk) : Option (TLSAdvance Chunk) :=
  match thread.pc with
  | .rent pc => pc.step pool thread.mTlsIndexForChunk rentable
  | .giveBack pc => some (pc.step pool thread.mTlsIndexForChunk)
  | .idle | .crashed => none

end Steps

/-- A pool and its callers. `rented` are the objects that `Rent` has returned and that have not
been passed to `Return` since. `history` logs the lives of the chunks. -/
structure TLSSystem (Thread Chunk : Type) where
  pool : ObjectPoolTLS Chunk
  rented : Multiset (Chunk × Nat)
  threads : Thread → TLSThread Chunk
  history : List (LeaseEvent Chunk Nat)

inductive TLSAction (Thread Chunk : Type) where
  | callRent (t : Thread)
  | callReturn (t : Thread) (block : Chunk × Nat)
  | run (t : Thread) (rentable : Option Chunk)

namespace TLSSystem

/-- No chunk is handed out; what is in memory does not matter. -/
def start (policy : eAllocationPolicy) (chunks : Chunk → ObjectPoolTLSChunk Chunk) :
    TLSSystem Thread Chunk :=
  ⟨⟨chunks, fun _ => false, policy, 0⟩, 0, fun _ => ⟨none, .idle⟩, []⟩

/-- A thread calls `Rent` or `Return`. -/
def call (s : TLSSystem Thread Chunk) (t : Thread) (pc : TLSPc Chunk) : TLSSystem Thread Chunk :=
  { s with threads := Function.update s.threads t ⟨(s.threads t).mTlsIndexForChunk, pc⟩ }

/-- A thread has made its step; an object that `Rent` returns is its caller's. -/
def advance (s : TLSSystem Thread Chunk) (t : Thread) (a : TLSAdvance Chunk) :
    TLSSystem Thread Chunk :=
  ⟨a.pool, a.rented.elim 0 (fun block => {block}) + s.rented, Function.update s.threads t a.thread,
    s.history ++ a.event.toList⟩

/-- Callers return an object that is rented, each rented object once. -/
def step (s : TLSSystem Thread Chunk) : TLSAction Thread Chunk → Option (TLSSystem Thread Chunk)
  | .callRent t => match (s.threads t).pc with
    | .idle => some (s.call t (.rent .tlsGetValue))
    | _ => none
  | .callReturn t block => match (s.threads t).pc with
    | .idle =>
        if block ∈ s.rented then
          some (({ s with rented := s.rented.erase block } : TLSSystem Thread Chunk).call t
            (.giveBack (.readBlockNode block)))
        else none
    | _ => none
  | .run t rentable => ((s.threads t).step s.pool rentable).map (s.advance t)

/-- The allocation of a chunk succeeds. -/
def Allocates (s : TLSSystem Thread Chunk) : TLSAction Thread Chunk → Prop
  | .run t none => (s.threads t).pc ≠ .rent .rentChunk ∧
      ∀ chunk stored, (s.threads t).pc ≠ .rent (.rentNextChunk chunk stored)
  | _ => True

end TLSSystem

end NfNetwork.ObjectPool
