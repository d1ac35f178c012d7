import NfNetwork.Machinery.Block
import NfNetwork.Packet.Cipher

/-! The packet template of `nf/network/packet`. A pointer into `mBuffer` is its
offset there, and every access goes through the bounded reads and writes, so a
function has no result exactly when the source would leave `mBuffer`. -/
namespace NfNetwork

open Machinery

/-- The template arguments `tHeaderSize` and `tBodyCapacity`. -/
structure Layout where
  headerSize : Nat
  bodyCapacity : Nat
  deriving DecidableEq, Repr

/-- What the pool hands out for `mBuffer`: memory of the right size with
whatever an earlier packet left there. -/
def Layout.Memory (layout : Layout) : Type :=
  {block : Block // block.length = layout.headerSize + layout.bodyCapacity}

structure Packet (layout : Layout) where
  buffer : Block
  readPos : Nat
  writePos : Nat
  bodyBegin : Nat
  bodyEnd : Nat
  encodeBegin : Nat
  isEncoded : Nat
  deriving DecidableEq, Repr

namespace Packet

variable {layout : Layout}

/-- The constructor: `Initial` places the cursors and leaves the bytes alone. -/
def initial (memory : layout.Memory) : Packet layout where
  buffer := memory.val
  bodyBegin := layout.headerSize
  encodeBegin := layout.headerSize - 1
  bodyEnd := layout.bodyCapacity
  readPos := layout.headerSize
  writePos := layout.headerSize
  isEncoded := 0

def getBodySize (p : Packet layout) : Nat := p.writePos - p.bodyBegin

def getPacketSize (p : Packet layout) : Nat := layout.headerSize + p.getBodySize

/-- The bytes a reader of the packet can reach. -/
def body (p : Packet layout) : List UInt8 := (p.buffer.drop p.bodyBegin).take p.getBodySize

/-- The `GetPacketSize()` bytes at `GetHeaderPtr()`, as handed to `WSASend`. -/
def wireBytes (p : Packet layout) : List UInt8 := p.buffer.take p.getPacketSize

def moveBodyWritePos (p : Packet layout) (size : Nat) : Nat × Packet layout :=
  let moveSize := min (p.bodyEnd - p.writePos) size
  (moveSize, { p with writePos := p.writePos + moveSize })

/-- The copy that `RingBuffer::Dequeue` makes through `GetHeaderPtr()` or
`GetBodyPtr()`. The cursors stay where they are. -/
def store (p : Packet layout) (offset : Nat) (bytes : List UInt8) : Option (Packet layout) := do
  let buffer ← writeBytes p.buffer offset bytes
  some { p with buffer := buffer }

/-- `memcpy(dst + at, src + from, count)` between two blocks. -/
def copyBytes (dst : Block) (dstOffset : Nat) (src : Block) (srcOffset count : Nat) :
    Option Block := do
  let bytes ← readBytes src srcOffset count
  writeBytes dst dstOffset bytes

/-- `SetHeader`: `memcpy(mBuffer, &header, tHeaderSize)`. -/
def setHeader (p : Packet layout) (header : Block) : Option (Packet layout) := do
  let buffer ← copyBytes p.buffer 0 header 0 layout.headerSize
  some { p with buffer := buffer }

/-- The size switch of `PutBody`: one store for each power of two it can use,
`memcpy` above eight bytes. -/
def switchCopy (dst : Block) (offset : Nat) (src : Block) : Nat → Option Block
  | 0 => some dst
  | 1 => copyBytes dst offset src 0 1
  | 2 => copyBytes dst offset src 0 2
  | 3 => do
      let dst ← copyBytes dst offset src 0 2
      copyBytes dst (offset + 2) src 2 1
  | 4 => copyBytes dst offset src 0 4
  | 5 => do
      let dst ← copyBytes dst offset src 0 4
      copyBytes dst (offset + 4) src 4 1
  | 6 => do
      let dst ← copyBytes dst offset src 0 4
      copyBytes dst (offset + 4) src 4 2
  | 7 => do
      let dst ← copyBytes dst offset src 0 4
      let dst ← copyBytes dst (offset + 4) src 4 2
      copyBytes dst (offset + 6) src 6 1
  | 8 => copyBytes dst offset src 0 8
  | count => copyBytes dst offset src 0 count

/-- `PutBody`: the returned size and the written packet. -/
def putBody (p : Packet layout) (data : Block) (size : Nat) : Option (Nat × Packet layout) := do
  let count := min (p.bodyEnd - p.writePos) size
  let buffer ← switchCopy p.buffer p.writePos data count
  some (count, { p with buffer := buffer, writePos := p.writePos + count })

/-- The object representation of a `width`-byte scalar, low byte first. -/
def scalarBytes : Nat → Nat → List UInt8
  | 0, _ => []
  | width + 1, value => UInt8.ofNat value :: scalarBytes width (value / 256)

/-- The `operator<<` overloads: each puts the `sizeof` bytes of its operand. -/
def putScalar (p : Packet layout) (width value : Nat) : Option (Packet layout) := do
  let (_, p) ← p.putBody (scalarBytes width value) width
  some p

/-- One call that fills a packet. -/
inductive Put where
  | body (data : List UInt8)
  | scalar (width value : Nat)

def Put.bytes : Put → List UInt8
  | .body data => data
  | .scalar width value => scalarBytes width value

/-- Fill a packet by consecutive `PutBody` and `operator<<` calls. -/
def fill (p : Packet layout) : List Put → Option (Packet layout)
  | [] => some p
  | .body data :: puts => do
      let (_, p) ← p.putBody data data.length
      fill p puts
  | .scalar width value :: puts => do
      let p ← p.putScalar width value
      fill p puts

/-- `EncodeOnce`, with the value that `rand()` returns. -/
def encodeOnce (p : Packet layout) (code key : UInt8) (rand : Nat) :
    Option (Bool × Packet layout) :=
  if p.isEncoded ≠ 0 then some (false, { p with isEncoded := 1 })
  else do
    let randKey := UInt8.ofNat (rand % 255)
    let body ← readBytes p.buffer p.bodyBegin p.getBodySize
    let buffer ← writeBytes p.buffer p.encodeBegin [calculateCheckSum body]
    let region ← readBytes buffer p.encodeBegin (p.getBodySize + 1)
    let buffer ← writeBytes buffer p.encodeBegin (packetEncode key randKey region)
    let buffer ← writeBytes buffer 0 [code]
    let buffer ← writeBytes buffer 1 (scalarBytes 2 p.getBodySize)
    let buffer ← writeBytes buffer 3 [randKey]
    some (true, { p with buffer := buffer, isEncoded := 1 })

/-- `DoDecode`: whether the recovered checksum fits the recovered body. -/
def doDecode (p : Packet layout) (key randKey : UInt8) : Option (Bool × Packet layout) := do
  let region ← readBytes p.buffer p.encodeBegin (p.getBodySize + 1)
  let buffer ← writeBytes p.buffer p.encodeBegin (packetDecode key randKey region)
  let saved ← readBytes buffer p.encodeBegin 1
  let body ← readBytes buffer p.bodyBegin p.getBodySize
  some (saved = [calculateCheckSum body], { p with buffer := buffer })

end Packet
end NfNetwork
