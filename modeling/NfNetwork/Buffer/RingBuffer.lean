import NfNetwork.Machinery.Circular

/-! The byte ring of `nf/buffer/ringbuffer`. Every copy goes through a bounded
read or write of the backing storage, so an operation has no result exactly
when the source would leave its allocation. -/
namespace NfNetwork.Buffer

open Machinery

/-- `mBegin` always points at the first byte of `mBuffer`. -/
structure RingBuffer where
  buffer : Block
  maxCapacity : Nat
  usedSize : Nat
  writeIndex : Nat
  readIndex : Nat
  deriving DecidableEq, Repr

namespace RingBuffer

/-- `RingBuffer::Init`: `make_unique` zeroes the storage, one byte more than
the capacity. -/
def init (maxCapacity : Nat) : RingBuffer where
  buffer := List.replicate (maxCapacity + 1) 0
  maxCapacity := maxCapacity
  usedSize := 0
  writeIndex := 0
  readIndex := 0

def clearBuffer (rb : RingBuffer) : RingBuffer :=
  { rb with usedSize := 0, writeIndex := 0, readIndex := 0 }

def getUsedSize (rb : RingBuffer) : Nat := rb.usedSize

def getEnquableSize (rb : RingBuffer) : Nat := rb.maxCapacity - rb.usedSize

def isEmpty (rb : RingBuffer) : Bool := rb.usedSize == 0

def getDirectEnqueueSize (rb : RingBuffer) : Nat :=
  if rb.getEnquableSize = 0 then 0
  else if rb.readIndex ≤ rb.writeIndex then rb.maxCapacity - rb.writeIndex
  else rb.readIndex - rb.writeIndex

/-- `Enqueue`: the returned size and the ring. Nothing past the copied bytes of the caller
is read. -/
def enqueue (rb : RingBuffer) (bytes : List UInt8) : Option (Nat × RingBuffer) :=
  if bytes.length = 0 then some (0, rb)
  else
    let available := min bytes.length (rb.maxCapacity - rb.usedSize)
    if available ≤ rb.maxCapacity - rb.writeIndex then do
      let buffer ← writeBytes rb.buffer rb.writeIndex (bytes.take available)
      let writeIndex := rb.writeIndex + available
      some (available, { rb with
        buffer := buffer
        writeIndex := if writeIndex = rb.maxCapacity then 0 else writeIndex
        usedSize := rb.usedSize + available })
    else do
      let fst := rb.maxCapacity - rb.writeIndex
      let snd := available - fst
      let buffer ← writeBytes rb.buffer rb.writeIndex (bytes.take fst)
      let buffer ← writeBytes buffer 0 ((bytes.drop fst).take snd)
      some (available, { rb with
        buffer := buffer
        writeIndex := snd
        usedSize := rb.usedSize + available })

/-- `Dequeue`: the bytes copied out, whose number is the returned size. -/
def dequeue (rb : RingBuffer) (size : Nat) : Option (List UInt8 × RingBuffer) :=
  if size = 0 then some ([], rb)
  else
    let available := min size rb.usedSize
    if available ≤ rb.maxCapacity - rb.readIndex then do
      let bytes ← readBytes rb.buffer rb.readIndex available
      let readIndex := rb.readIndex + available
      some (bytes, { rb with
        readIndex := if readIndex = rb.maxCapacity then 0 else readIndex
        usedSize := rb.usedSize - available })
    else do
      let fst := rb.maxCapacity - rb.readIndex
      let snd := available - fst
      let front ← readBytes rb.buffer rb.readIndex fst
      let back ← readBytes rb.buffer 0 snd
      some (front ++ back, { rb with readIndex := snd, usedSize := rb.usedSize - available })

/-- `Peek`: the same copy as `Dequeue`, without moving the counters. -/
def peek (rb : RingBuffer) (size : Nat) : Option (List UInt8) :=
  if size = 0 then some []
  else
    let available := min size rb.usedSize
    if available ≤ rb.maxCapacity - rb.readIndex then
      readBytes rb.buffer rb.readIndex available
    else do
      let fst := rb.maxCapacity - rb.readIndex
      let snd := available - fst
      let front ← readBytes rb.buffer rb.readIndex fst
      let back ← readBytes rb.buffer 0 snd
      some (front ++ back)

/-- `MoveWrite`: the returned size and the moved ring. -/
def moveWrite (rb : RingBuffer) (size : Nat) : Nat × RingBuffer :=
  if size = 0 then (0, rb)
  else
    let available := min size (rb.maxCapacity - rb.usedSize)
    if available ≤ rb.maxCapacity - rb.writeIndex then
      let writeIndex := rb.writeIndex + available
      (available, { rb with
        writeIndex := if writeIndex = rb.maxCapacity then 0 else writeIndex
        usedSize := rb.usedSize + available })
    else
      (available, { rb with
        writeIndex := available - (rb.maxCapacity - rb.writeIndex)
        usedSize := rb.usedSize + available })

/-- `MoveRead`: the returned size and the moved ring. -/
def moveRead (rb : RingBuffer) (size : Nat) : Nat × RingBuffer :=
  if size = 0 then (0, rb)
  else
    let available := min size rb.usedSize
    if available ≤ rb.maxCapacity - rb.readIndex then
      let readIndex := rb.readIndex + available
      (available, { rb with
        readIndex := if readIndex = rb.maxCapacity then 0 else readIndex
        usedSize := rb.usedSize - available })
    else
      (available, { rb with
        readIndex := available - (rb.maxCapacity - rb.readIndex)
        usedSize := rb.usedSize - available })

/-- One `WSABUF` handed to the kernel: where it starts in the storage, and its
length. -/
structure WsaBuf where
  buf : Nat
  len : Nat
  deriving DecidableEq, Repr

/-- The buffers both `RecvPost` functions build from the free space. -/
def recvBuffers (rb : RingBuffer) : List WsaBuf :=
  let directSize := rb.getDirectEnqueueSize
  let enqueableSize := rb.getEnquableSize
  if directSize = enqueableSize then [⟨rb.writeIndex, directSize⟩]
  else [⟨rb.writeIndex, directSize⟩, ⟨0, enqueableSize - directSize⟩]

/-- A completed receive: the kernel fills the posted buffers in order. More
bytes than were offered cannot arrive, so that case has no result. -/
def scatter (block : Block) : List WsaBuf → List UInt8 → Option Block
  | [], bytes => if bytes = [] then some block else none
  | b :: bufs, bytes => do
      let block ← writeBytes block b.buf (bytes.take b.len)
      scatter block bufs (bytes.drop b.len)

/-- The ring after the kernel stored `bytes` through the buffers that
`RecvPost` posted; the counters have not moved yet. -/
def receive (rb : RingBuffer) (bytes : List UInt8) : Option RingBuffer := do
  let block ← scatter rb.buffer rb.recvBuffers bytes
  some { rb with buffer := block }

end RingBuffer
end NfNetwork.Buffer
