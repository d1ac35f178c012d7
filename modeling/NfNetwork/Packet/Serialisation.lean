import NfNetwork.Machinery.Transition
import NfNetwork.Packet.Reader
import NfNetwork.Share.Define

/-! Writing and reading a packet by any calls in any order. What was put and not yet taken lies between
the two cursors; every call either moves one cursor inside the body or nothing at all. -/
namespace NfNetwork

open Machinery

/-- A call, with the object it copies from or into; the size it asks for is the object's. -/
inductive PacketCall where
  | putBody (data : List UInt8)
  | putScalar (width value : Nat)
  | getBody (data : List UInt8)
  | getScalar (data : List UInt8)
  | getHeader
  | peekBody (data : List UInt8)
  | moveBodyWritePos (size : Nat)
  | moveBodyReadPos (size : Nat)

/-- What a call returns, and the object it was given as it is afterwards. -/
inductive PacketAnswer where
  | done
  | moved (size : Nat)
  | copied (size : Nat) (data : List UInt8)
  | packetReaderException (data : List UInt8)
deriving DecidableEq

namespace Packet

variable {layout : Layout}

def moveBodyReadPos (p : Packet layout) (size : Nat) : Nat × Packet layout :=
  let moveSize := min (p.writePos - p.readPos) size
  (moveSize, { p with readPos := p.readPos + moveSize })

/-- `GetHeader`, which is also `operator>>(THeader*)`. -/
def getHeader (p : Packet layout) : Option Block := readBytes p.buffer 0 layout.headerSize

/-- `GetBody`, which is also the other `operator>>` overloads. The exception is thrown before the first
byte is copied. -/
def getBodyInto (p : Packet layout) (data : List UInt8) : Option (PacketAnswer × Packet layout) :=
  match p.getBody (⟨data, rfl⟩ : Bytes data.length) data.length with
  | .ok (data, p) => some (.copied data.val.length data.val, p)
  | .error .packetReaderException => some (.packetReaderException data, p)
  | .error .outOfBounds => none

/-- One call. No result means that it left `mBuffer` or its object. -/
def call (p : Packet layout) : PacketCall → Option (PacketAnswer × Packet layout)
  | .putBody data => do
    let (size, p) ← p.putBody data data.length
    some (.moved size, p)
  | .putScalar width value => do
    let p ← p.putScalar width value
    some (.done, p)
  | .getBody data | .getScalar data => p.getBodyInto data
  | .getHeader => do
    let header ← p.getHeader
    some (.copied layout.headerSize header, p)
  | .peekBody data => do
    let (size, data) ← p.peekBody data data.length
    some (.copied size data, p)
  | .moveBodyWritePos size => some (.moved (p.moveBodyWritePos size).1, (p.moveBodyWritePos size).2)
  | .moveBodyReadPos size => some (.moved (p.moveBodyReadPos size).1, (p.moveBodyReadPos size).2)

/-- The bytes between the cursors. -/
def unread (p : Packet layout) : List UInt8 := (p.buffer.drop p.readPos).take (p.writePos - p.readPos)

/-- Consecutive `GetBody` calls, if none of them throws: what each object holds then. -/
def takeAll (p : Packet layout) : List (List UInt8) → Option (List (List UInt8) × Packet layout)
  | [] => some ([], p)
  | data :: later => match p.getBodyInto data with
    | some (.copied _ data, p) => do
      let (objects, p) ← takeAll p later
      some (data :: objects, p)
    | _ => none

/-- A packet between two calls. The body area starts with what was read and what was not; the
bytes before and behind the area are those of the fresh packet. -/
structure Streams (memory : layout.Memory) (p : Packet layout) (done left : List UInt8) : Prop where
  content : ∃ tail, Holds p (memory.val.take layout.headerSize) (done ++ left) tail ∧
    tail.drop (layout.room - (done ++ left).length) = memory.val.drop layout.bodyCapacity
  readPos : p.readPos = layout.headerSize + done.length
  fits : (done ++ left).length ≤ layout.room

section Calls

variable {memory : layout.Memory} {p : Packet layout} {done left : List UInt8}

/-- A packet that `Initial` has prepared holds the empty stream. -/
theorem initial_streams (hLayout : layout.headerSize ≤ layout.bodyCapacity) (memory : layout.Memory) :
    (initial memory).Streams memory [] [] where
  content := by
    refine ⟨_, initial_holds memory, ?_⟩
    rw [List.append_nil, List.length_nil, Nat.sub_zero, List.drop_drop, Layout.room]
    congr 1
    omega
  readPos := rfl
  fits := Nat.zero_le _

/-- The rest of the stream is what is still to be read. -/
theorem Streams.unread (h : p.Streams memory done left) : p.Unread done left := by
  obtain ⟨tail, hHolds, _⟩ := h.content
  exact ⟨⟨_, tail, hHolds⟩, h.readPos⟩

/-- The same for the bytes themselves. -/
theorem Streams.unread_eq (h : p.Streams memory done left) : p.unread = left := by
  obtain ⟨tail, hSource⟩ := h.unread.source_eq
  rw [Packet.unread, hSource, h.unread.left_eq, List.take_left]

/-- `PutBody` copies as much as there is room for. -/
theorem putBody_take (p : Packet layout) {data : List UInt8} {count : Nat}
    (hCount : min (p.bodyEnd - p.writePos) data.length = count)
    (hBuffer : p.writePos + count ≤ p.buffer.length) :
    p.putBody data data.length = p.putBody (data.take count) (data.take count).length := by
  have hLength : (data.take count).length = count := by
    rw [List.length_take]
    omega
  have hSame : min (p.bodyEnd - p.writePos) (data.take count).length = count := by
    rw [hLength]
    omega
  rw [Packet.putBody, Packet.putBody, hCount, hSame,
    switchCopy_eq (by omega) hBuffer, switchCopy_eq (by omega) hBuffer, List.take_take, Nat.min_self]

/-- What is left of the body is room for as many bytes more. -/
theorem Streams.room_eq (h : p.Streams memory done left) :
    p.bodyEnd - p.writePos = layout.room - (done ++ left).length := by
  obtain ⟨tail, hHolds, _⟩ := h.content
  exact hHolds.room_eq

/-- `PutBody` appends what fits. -/
theorem Streams.putBody (h : p.Streams memory done left) (data : List UInt8) {count : Nat}
    (hCount : min (p.bodyEnd - p.writePos) data.length = count) :
    ∃ p', p.putBody data data.length = some (count, p') ∧
      p'.Streams memory done (left ++ data.take count) := by
  obtain ⟨tail, hHolds, hBehind⟩ := h.content
  have hRoom := h.room_eq
  have hFits := h.fits
  have hTail := hHolds.tail_length
  have hLength : (data.take count).length = count := by
    rw [List.length_take]
    omega
  have hCapacity : layout.room ≤ layout.bodyCapacity := Nat.sub_le _ _
  have hBuffer : p.writePos + count ≤ p.buffer.length := by
    rw [hHolds.writePos, hHolds.total]
    omega
  obtain ⟨p', hPut, hAfter, -⟩ := hHolds.putBody (data.take count) (by omega)
  rw [← putBody_take p hCount hBuffer, hLength] at hPut
  rw [hLength, List.append_assoc] at hAfter
  have hRead : p'.readPos = p.readPos := by
    rw [Packet.putBody, Option.bind_eq_bind, Option.bind_eq_some_iff] at hPut
    obtain ⟨buffer, _, hSame⟩ := hPut
    cases hSame
    rfl
  refine ⟨p', hPut, ⟨_, hAfter, ?_⟩, hRead.trans h.readPos, ?_⟩
  · rw [List.drop_drop, ← hBehind]
    congr 1
    rw [← List.append_assoc, List.length_append, hLength]
    omega
  · rw [← List.append_assoc, List.length_append, hLength]
    omega

/-- A scalar goes to the end of the stream, as far as there is room. -/
theorem Streams.putScalar (h : p.Streams memory done left) (width value : Nat) :
    ∃ p', p.putScalar width value = some p' ∧
      p'.Streams memory done (left ++ (scalarBytes width value).take (p.bodyEnd - p.writePos)) := by
  obtain ⟨p', hPut, hAfter⟩ := h.putBody (scalarBytes width value) rfl
  rw [scalarBytes_length] at hPut hAfter
  refine ⟨p', by rw [Packet.putScalar, hPut]; rfl, ?_⟩
  rwa [List.take_eq_take_min, scalarBytes_length]

/-- `MoveBodyWritePos` takes over what stands behind the write position. -/
theorem Streams.moveBodyWritePos (h : p.Streams memory done left) (size : Nat) :
    ∃ more, more.length = (p.moveBodyWritePos size).1 ∧
      (p.moveBodyWritePos size).2.Streams memory done (left ++ more) := by
  obtain ⟨tail, hHolds, hBehind⟩ := h.content
  have hRoom := h.room_eq
  have hFits := h.fits
  have hTail := hHolds.tail_length
  have hCapacity : layout.room ≤ layout.bodyCapacity := Nat.sub_le _ _
  obtain ⟨count, hCount⟩ : ∃ count, min (p.bodyEnd - p.writePos) size = count := ⟨_, rfl⟩
  have hLength : (tail.take count).length = count := by
    rw [List.length_take]
    omega
  have hMove : p.moveBodyWritePos size = (count, { p with writePos := p.writePos + count }) := by
    rw [Packet.moveBodyWritePos, hCount]
  rw [hMove]
  refine ⟨tail.take count, hLength, ⟨tail.drop count, ?_, ?_⟩, h.readPos, ?_⟩
  · exact {
      buffer := by
        rw [← List.append_assoc done, List.append_assoc (memory.val.take layout.headerSize),
          List.append_assoc (done ++ left), List.take_append_drop, ← List.append_assoc]
        exact hHolds.buffer
      header_length := hHolds.header_length
      total := hHolds.total
      bodyBegin := hHolds.bodyBegin
      encodeBegin := hHolds.encodeBegin
      bodyEnd := hHolds.bodyEnd
      writePos := by
        rw [← List.append_assoc, List.length_append, hLength, ← Nat.add_assoc, ← hHolds.writePos] }
  · rw [List.drop_drop, ← hBehind]
    congr 1
    rw [← List.append_assoc, List.length_append, hLength]
    omega
  · rw [← List.append_assoc, List.length_append, hLength]
    omega

/-- Whatever moves the read position moves it over unread bytes. -/
theorem Streams.advance (h : p.Streams memory done left) {size : Nat} (hSize : size ≤ left.length) :
    Streams memory ({ p with readPos := p.readPos + size } : Packet layout) (done ++ left.take size)
      (left.drop size) := by
  have hSame : done ++ left.take size ++ left.drop size = done ++ left := by
    rw [List.append_assoc, List.take_append_drop]
  obtain ⟨tail, hHolds, hBehind⟩ := h.content
  refine ⟨⟨tail, ?_, ?_⟩, (h.unread.advance hSize).readPos, ?_⟩
  · rw [hSame]
    exact ⟨hHolds.buffer, hHolds.header_length, hHolds.total, hHolds.bodyBegin, hHolds.encodeBegin,
      hHolds.bodyEnd, hHolds.writePos⟩
  · rw [hSame]
    exact hBehind
  · rw [hSame]
    exact h.fits

/-- `MoveBodyReadPos` skips bytes. -/
theorem Streams.moveBodyReadPos (h : p.Streams memory done left) (size : Nat) :
    (p.moveBodyReadPos size).2.Streams memory (done ++ left.take (min left.length size))
      (left.drop (min left.length size)) := by
  rw [Packet.moveBodyReadPos, h.unread.left_eq]
  exact h.advance (Nat.min_le_left _ _)

/-- `GetBody` takes its bytes off the front. -/
theorem Streams.getBodyInto (h : p.Streams memory done left) {data : List UInt8}
    (hSize : data.length ≤ left.length) :
    ∃ p', p.getBodyInto data = some (.copied data.length (left.take data.length), p') ∧
      p'.Streams memory (done ++ left.take data.length) (left.drop data.length) := by
  obtain ⟨data', hGet, hData⟩ :=
    h.unread.getBody_eq (⟨data, rfl⟩ : Bytes data.length) hSize (Nat.le_refl _)
  refine ⟨_, ?_, h.advance hSize⟩
  rw [Packet.getBodyInto, hGet]
  dsimp only
  rw [data'.property, hData, List.drop_length, List.append_nil]

/-- Short of them it throws, and the packet is as before. -/
theorem Streams.getBodyInto_throws (h : p.Streams memory done left) {data : List UInt8}
    (hShort : left.length < data.length) :
    p.getBodyInto data = some (.packetReaderException data, p) := by
  rw [Packet.getBodyInto, h.unread.getBody_throws (⟨data, rfl⟩ : Bytes data.length) hShort]

/-- `PeekBody` copies what is there. -/
theorem Streams.peekBody (h : p.Streams memory done left) (data : List UInt8) :
    p.peekBody data data.length = some (min left.length data.length,
      left.take data.length ++ data.drop left.length) := by
  obtain ⟨tail, hSource⟩ := h.unread.source_eq
  have hTake : (left ++ tail).take (min left.length data.length) = left.take data.length := by
    rw [List.take_append_of_le_length (by omega), Nat.min_comm, ← List.take_eq_take_min]
  rw [Packet.peekBody, h.unread.left_eq, hSource,
    switchCopy_eq (by rw [List.length_append]; omega) (by omega), hTake, writeBytes_of_le]
  · simp only [Option.bind_eq_bind, Option.bind_some, List.take_zero, List.nil_append, Nat.zero_add,
      List.length_take]
    congr 3
    rcases Nat.le_total left.length data.length with hLe | hLe
    · rw [Nat.min_eq_right hLe]
    · rw [Nat.min_eq_left hLe, List.drop_length, List.drop_eq_nil_of_le hLe]
  · rw [List.length_take]
    omega

/-- Every call returns or throws, and leaves a packet between two calls. -/
theorem Streams.call (h : p.Streams memory done left) (c : PacketCall) :
    ∃ answer p' done' left', p.call c = some (answer, p') ∧ p'.Streams memory done' left' := by
  have hGet (data : List UInt8) : ∃ answer p' done' left', p.getBodyInto data = some (answer, p') ∧
      p'.Streams memory done' left' := by
    rcases Nat.lt_or_ge left.length data.length with hShort | hSize
    · exact ⟨_, p, done, left, h.getBodyInto_throws hShort, h⟩
    · obtain ⟨p', hGet, hAfter⟩ := h.getBodyInto hSize
      exact ⟨_, p', _, _, hGet, hAfter⟩
  cases c with
  | putBody data =>
      obtain ⟨p', hPut, hAfter⟩ := h.putBody data rfl
      exact ⟨_, p', _, _, by rw [Packet.call, hPut]; rfl, hAfter⟩
  | putScalar width value =>
      obtain ⟨p', hPut, hAfter⟩ := h.putScalar width value
      exact ⟨_, p', _, _, by rw [Packet.call, hPut]; rfl, hAfter⟩
  | getBody data => exact hGet data
  | getScalar data => exact hGet data
  | getHeader =>
      obtain ⟨tail, hHolds, _⟩ := h.content
      have hHeader : p.getHeader = some ((p.buffer.drop 0).take layout.headerSize) :=
        readBytes_of_le (by rw [hHolds.total]; omega)
      exact ⟨_, p, done, left, by rw [Packet.call, hHeader]; rfl, h⟩
  | peekBody data => exact ⟨_, p, done, left, by rw [Packet.call, h.peekBody]; rfl, h⟩
  | moveBodyWritePos size =>
      obtain ⟨more, _, hAfter⟩ := h.moveBodyWritePos size
      exact ⟨_, _, _, _, rfl, hAfter⟩
  | moveBodyReadPos size => exact ⟨_, _, _, _, rfl, h.moveBodyReadPos size⟩

/-- Puts that fit are appended one after another. -/
theorem Streams.fill {puts : List Put} (h : p.Streams memory done left)
    (hFits : (puts.flatMap Put.bytes).length ≤ p.bodyEnd - p.writePos) :
    ∃ p', p.fill puts = some p' ∧ p'.Streams memory done (left ++ puts.flatMap Put.bytes) := by
  induction puts generalizing p left with
  | nil => exact ⟨p, rfl, by simpa using h⟩
  | cons put puts ih =>
      rw [List.flatMap_cons, List.length_append] at hFits
      have hStep : ∃ next : Packet layout, p.fill (put :: puts) = next.fill puts ∧
          next.Streams memory done (left ++ put.bytes) := by
        cases put with
        | body data =>
            rw [Put.bytes] at hFits
            obtain ⟨next, hPut, hAfter⟩ := h.putBody data (Nat.min_eq_right (by omega))
            rw [List.take_length] at hAfter
            exact ⟨next, by rw [Packet.fill, hPut]; rfl, hAfter⟩
        | scalar width value =>
            rw [Put.bytes, scalarBytes_length] at hFits
            obtain ⟨next, hPut, hAfter⟩ := h.putScalar width value
            rw [List.take_of_length_le (by rw [scalarBytes_length]; omega)] at hAfter
            exact ⟨next, by rw [Packet.fill, hPut]; rfl, hAfter⟩
      obtain ⟨next, hFill, hAfter⟩ := hStep
      have hRoom := h.room_eq
      have hRoom' := hAfter.room_eq
      simp only [List.length_append] at hRoom hRoom'
      obtain ⟨p', hRest, hAll⟩ := ih hAfter (by omega)
      refine ⟨p', hFill.trans hRest, ?_⟩
      rwa [List.flatMap_cons, ← List.append_assoc]

/-- Objects of the right sizes take back consecutive pieces. -/
theorem Streams.takeAll {pieces objects : List (List UInt8)} {rest : List UInt8}
    (h : p.Streams memory done (pieces.flatten ++ rest))
    (hSizes : objects.map List.length = pieces.map List.length) :
    ∃ p', p.takeAll objects = some (pieces, p') ∧ p'.Streams memory (done ++ pieces.flatten) rest := by
  induction pieces generalizing p done objects with
  | nil =>
      obtain rfl : objects = [] := List.map_eq_nil_iff.mp hSizes
      exact ⟨p, rfl, by simpa using h⟩
  | cons piece pieces ih =>
      obtain ⟨data, later, rfl⟩ : ∃ data later, objects = data :: later := by
        cases objects with
        | nil => cases hSizes
        | cons data later => exact ⟨data, later, rfl⟩
      rw [List.map_cons, List.map_cons, List.cons.injEq] at hSizes
      obtain ⟨hSize, hSizes⟩ := hSizes
      rw [List.flatten_cons, List.append_assoc] at h
      obtain ⟨next, hGet, hAfter⟩ := h.getBodyInto
        (show data.length ≤ (piece ++ (pieces.flatten ++ rest)).length by rw [List.length_append]; omega)
      rw [hSize, List.take_left, List.drop_left] at hAfter
      obtain ⟨p', hRest, hAll⟩ := ih hAfter hSizes
      refine ⟨p', ?_, ?_⟩
      · rw [Packet.takeAll, hGet, hSize, List.take_left]
        dsimp only
        rw [hRest]
        rfl
      · rwa [List.flatten_cons, ← List.append_assoc]

end Calls

/-- What a packet promises between two calls. -/
structure Serialises (memory : layout.Memory) (p : Packet layout) : Prop where
  area : p.bodyBegin = layout.headerSize ∧ p.bodyEnd = layout.bodyCapacity
  cursors : p.bodyBegin ≤ p.readPos ∧ p.readPos ≤ p.writePos ∧ p.writePos ≤ p.bodyEnd
  outside : p.buffer.length = memory.val.length ∧
    p.buffer.take p.bodyBegin = memory.val.take p.bodyBegin ∧
    p.buffer.drop p.bodyEnd = memory.val.drop p.bodyEnd
  inBounds : ∀ c, ∃ answer p', p.call c = some (answer, p')
  /-- What was not read yet comes first. -/
  roundTrip : ∀ puts first objects, (puts.flatMap Put.bytes).length ≤ p.bodyEnd - p.writePos →
    first.length = p.writePos - p.readPos →
    objects.map List.length = puts.map (fun put => put.bytes.length) →
    ∃ filled p', p.fill puts = some filled ∧
      filled.takeAll (first :: objects) = some (p.unread :: puts.map Put.bytes, p')
  peek : ∀ data, ∃ size data', p.call (.peekBody data) = some (.copied size data', p) ∧
    size = min (p.writePos - p.readPos) data.length ∧ data'.drop size = data.drop size ∧
    ∃ p', p.call (.getBody (data.take size)) = some (.copied size (data'.take size), p')
  throws : ∀ data, p.writePos - p.readPos < data.length ↔
    p.call (.getBody data) = some (.packetReaderException data, p)

/-- The size switch is a plain copy, for every size. -/
def SwitchCopies : Prop :=
  ∀ (dst src : Block) (offset count : Nat), count ≤ src.length → offset + count ≤ dst.length →
    switchCopy dst offset src count = copyBytes dst offset src 0 count

/-- The nine branches of the switch copy what a plain copy would. -/
theorem switchCopies : SwitchCopies := by
  intro dst src offset count hSrc hDst
  rw [switchCopy_eq hSrc hDst, copyBytes_eq (by omega), List.drop_zero]

section Promise

variable {memory : layout.Memory} {p : Packet layout} {done left : List UInt8}

/-- The cursors stay in order and within the body. -/
theorem Streams.cursors (h : p.Streams memory done left) (hLayout : layout.headerSize ≤ layout.bodyCapacity) :
    p.bodyBegin ≤ p.readPos ∧ p.readPos ≤ p.writePos ∧ p.writePos ≤ p.bodyEnd := by
  obtain ⟨tail, hHolds, _⟩ := h.content
  have hFits := h.fits
  have hWrite := hHolds.writePos
  rw [Layout.room] at hFits
  rw [List.length_append] at hFits hWrite
  rw [hHolds.bodyBegin, hHolds.bodyEnd, h.readPos, hWrite]
  omega

/-- No byte outside the body area differs from what it was in the fresh packet. -/
theorem Streams.outside (h : p.Streams memory done left) (hLayout : layout.headerSize ≤ layout.bodyCapacity) :
    p.buffer.length = memory.val.length ∧
      p.buffer.take p.bodyBegin = memory.val.take p.bodyBegin ∧
      p.buffer.drop p.bodyEnd = memory.val.drop p.bodyEnd := by
  obtain ⟨tail, hHolds, hBehind⟩ := h.content
  have hFits := h.fits
  have hBuffer := hHolds.buffer
  refine ⟨hHolds.total.trans memory.property.symm, ?_, ?_⟩
  · rw [hHolds.bodyBegin, hBuffer, List.append_assoc (memory.val.take layout.headerSize)]
    exact List.take_left' hHolds.header_length
  · have hEnd : (memory.val.take layout.headerSize ++ (done ++ left)).length +
        (layout.room - (done ++ left).length) = layout.bodyCapacity := by
      rw [Layout.room] at hFits ⊢
      rw [List.length_append, hHolds.header_length]
      omega
    have hDrop (front : List UInt8) {n m : Nat} (hn : front.length + m = n) :
        (front ++ tail).drop n = tail.drop m := by
      rw [← hn, ← List.drop_drop, List.drop_left]
    rw [hHolds.bodyEnd, hBuffer, ← hBehind]
    exact hDrop _ hEnd

/-- What was put into an exhausted packet comes out again, object by object. -/
theorem Streams.roundTrip (h : p.Streams memory done left) {puts : List Put} {first : List UInt8}
    {objects : List (List UInt8)} (hFits : (puts.flatMap Put.bytes).length ≤ p.bodyEnd - p.writePos)
    (hFirst : first.length = p.writePos - p.readPos)
    (hSizes : objects.map List.length = puts.map (fun put => put.bytes.length)) :
    ∃ filled p', p.fill puts = some filled ∧
      filled.takeAll (first :: objects) = some (p.unread :: puts.map Put.bytes, p') := by
  obtain ⟨filled, hFill, hFilled⟩ := h.fill hFits
  have hAll : filled.Streams memory done ((left :: puts.map Put.bytes).flatten ++ []) := by
    rwa [List.flatten_cons, List.append_nil, ← List.flatMap_def]
  have hPieces : (first :: objects).map List.length = (left :: puts.map Put.bytes).map List.length := by
    rw [List.map_cons, List.map_cons, hFirst, h.unread.left_eq, hSizes, List.map_map]
    rfl
  obtain ⟨p', hTake, -⟩ := hAll.takeAll hPieces
  exact ⟨filled, p', hFill, by rw [hTake, h.unread_eq]⟩

/-- `PeekBody` shows what `GetBody` would take. -/
theorem Streams.peek (h : p.Streams memory done left) (data : List UInt8) :
    ∃ size data', p.call (.peekBody data) = some (.copied size data', p) ∧
      size = min (p.writePos - p.readPos) data.length ∧ data'.drop size = data.drop size ∧
      ∃ p', p.call (.getBody (data.take size)) = some (.copied size (data'.take size), p') := by
  rw [h.unread.left_eq]
  have hLength : (left.take data.length).length = min left.length data.length := by
    rw [List.length_take, Nat.min_comm]
  have hObject : (data.take (min left.length data.length)).length = min left.length data.length := by
    rw [List.length_take]
    omega
  refine ⟨_, _, by rw [Packet.call, h.peekBody]; rfl, rfl, ?_, ?_⟩
  · rw [← hLength, List.drop_left, hLength]
    rcases Nat.le_total left.length data.length with hLe | hLe
    · rw [Nat.min_eq_left hLe]
    · rw [Nat.min_eq_right hLe, List.drop_length, List.drop_eq_nil_of_le hLe]
  · obtain ⟨p', hGet, -⟩ := h.getBodyInto
      (show (data.take (min left.length data.length)).length ≤ left.length by omega)
    refine ⟨p', hGet.trans ?_⟩
    rw [hObject, ← hLength, List.take_left, hLength, Nat.min_comm, ← List.take_eq_take_min]

/-- `GetBody` throws exactly where too little is left. -/
theorem Streams.throws_iff (h : p.Streams memory done left) (data : List UInt8) :
    p.writePos - p.readPos < data.length ↔
      p.call (.getBody data) = some (.packetReaderException data, p) := by
  rw [h.unread.left_eq]
  constructor
  · exact h.getBodyInto_throws
  · intro hThrows
    by_contra hSize
    obtain ⟨p', hGet, -⟩ := h.getBodyInto (Nat.le_of_not_lt hSize)
    cases hGet.symm.trans hThrows

/-- All that a stream says about the calls. -/
theorem Streams.serialises (h : p.Streams memory done left)
    (hLayout : layout.headerSize ≤ layout.bodyCapacity) : p.Serialises memory where
  area := by
    obtain ⟨tail, hHolds, _⟩ := h.content
    exact ⟨hHolds.bodyBegin, hHolds.bodyEnd⟩
  cursors := h.cursors hLayout
  outside := h.outside hLayout
  inBounds c := by
    obtain ⟨answer, p', _, _, hCall, _⟩ := h.call c
    exact ⟨answer, p', hCall⟩
  roundTrip _ _ _ hFits hFirst hSizes := h.roundTrip hFits hFirst hSizes
  peek := h.peek
  throws := h.throws_iff

/-- One call, whatever it answers. -/
def Calls (p : Packet layout) (c : PacketCall) (p' : Packet layout) : Prop :=
  ∃ answer, p.call c = some (answer, p')

/-- After any calls a packet holds some stream. -/
theorem streams_of_reachable (hLayout : layout.headerSize ≤ layout.bodyCapacity)
    (h : Reachable Calls (fun _ _ => True) (initial memory) p) : ∃ done left, p.Streams memory done left := by
  induction h with
  | refl => exact ⟨[], [], initial_streams hLayout memory⟩
  | tail _ _ hStep ih =>
      obtain ⟨done, left, hStreams⟩ := ih
      obtain ⟨answer, hCall⟩ := hStep
      obtain ⟨answer', p', done', left', hCall', hAfter⟩ := hStreams.call _
      cases hCall'.symm.trans hCall
      exact ⟨done', left', hAfter⟩

/-- Whatever was called on a packet, it keeps its promises. -/
theorem serialises_of_reachable (layout : Layout) (hLayout : layout.headerSize ≤ layout.bodyCapacity)
    (memory : layout.Memory) (p : Packet layout)
    (h : Reachable Calls (fun _ _ => True) (initial memory) p) : p.Serialises memory ∧ SwitchCopies := by
  obtain ⟨done, left, hStreams⟩ := streams_of_reachable hLayout h
  exact ⟨hStreams.serialises hLayout, switchCopies⟩

def zeroMemory : netLayout.Memory :=
  ⟨List.replicate (netLayout.headerSize + netLayout.bodyCapacity) 0, List.length_replicate⟩

/-- A packet of the NET server, after three bytes. -/
theorem serialises_of_putBody : ∃ p answer, (initial zeroMemory).call (.putBody [1, 2, 3]) = some (answer, p) ∧
    p.Serialises zeroMemory := by
  obtain ⟨answer, p, _, _, hCall, _⟩ :=
    (initial_streams (by decide) zeroMemory).call (.putBody [1, 2, 3])
  exact ⟨p, answer, hCall,
    (serialises_of_reachable netLayout (by decide) zeroMemory p (.tail .refl trivial ⟨answer, hCall⟩)).1⟩

end Promise

end Packet
end NfNetwork
