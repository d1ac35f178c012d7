import NfNetwork.Packet.Packet

/-! `EncodeOnce` one shared access at a time: the exchange on `mIsEncoded`, the
checksum, every byte that `PacketEncode` rewrites in place, and the header. From
every place on, the rest of the call is a function of the packet; a step of the
caller that won the exchange does not change what that function gives. -/
namespace NfNetwork

open Machinery

/-- The loop of `PacketEncode` in the memory of the packet. -/
def encodeInPlace : Nat → Nat → UInt8 → UInt8 → UInt8 → UInt8 → Block → Option Block
  | 0, _, _, _, _, _, block => some block
  | left + 1, offset, accK, accRK, P, E, block => do
      let bytes ← readBytes block offset 1
      let P := (P + (accRK + 1)) ^^^ bytes.headD 0
      let E := (E + (accK + 1)) ^^^ P
      let block ← writeBytes block offset [E]
      encodeInPlace left (offset + 1) (accK + 1) (accRK + 1) P E block

/-- Byte by byte or all at once, the bytes are the same. -/
theorem encodeInPlace_eq (left offset : Nat) (accK accRK P E : UInt8) {block : Block}
    (h : offset ≤ block.length) :
    encodeInPlace left offset accK accRK P E block =
      (readBytes block offset left).bind fun region =>
        writeBytes block offset (encodeLoop accK accRK P E region) := by
  induction left generalizing offset accK accRK P E block with
  | zero =>
      rw [readBytes_of_le h, Option.bind_some, List.take_zero, encodeLoop, writeBytes_of_le h]
      simp [encodeInPlace]
  | succ left ih =>
      rw [encodeInPlace, readBytes_succ block offset left]
      cases hRead : readBytes block offset 1 with
      | none => rfl
      | some bytes =>
          obtain ⟨byte, rfl⟩ := List.length_eq_one_iff.mp (readBytes_length hRead)
          have hFits : offset + 1 ≤ block.length := by
            unfold readBytes at hRead
            split at hRead
            · assumption
            · cases hRead
          simp only [Option.bind_eq_bind, Option.bind_some, List.headD_cons]
          generalize hNext : (P + (accRK + 1)) ^^^ byte = P'
          generalize hByte : (E + (accK + 1)) ^^^ P' = E'
          obtain ⟨after, hWrite⟩ : ∃ after, writeBytes block offset [E'] = some after :=
            ⟨_, writeBytes_of_le hFits⟩
          have hLength := writeBytes_length hWrite
          have hRest := readBytes_of_writeBytes left hWrite (Nat.le_refl (offset + 1))
          rw [hWrite, Option.bind_some, ih _ _ _ _ _ (by omega), hRest]
          cases hRegion : readBytes block (offset + 1) left with
          | none => rfl
          | some region =>
              have hWhole := writeBytes_writeBytes block offset [E']
                (encodeLoop (accK + 1) (accRK + 1) P' E' region)
              rw [hWrite, Option.bind_some] at hWhole
              simp only [Option.bind_some, List.singleton_append, encodeLoop, hNext, hByte]
              exact hWhole

/-- Where a thread stands in `EncodeOnce`. It has drawn `randKey` once it is past
the exchange; `encode` is the loop of `PacketEncode` with `left` bytes to go. -/
inductive EncodePc where
  | exchange
  | putCheckSum (randKey : UInt8)
  | encode (randKey : UInt8) (left offset : Nat) (accK accRK P E : UInt8)
  | putCode (randKey : UInt8)
  | putBodySize (randKey : UInt8)
  | putRandKey (randKey : UInt8)
  deriving DecidableEq, Repr

namespace Packet

variable {layout : Layout}

def putCheckSum (p : Packet layout) : Option (Packet layout) := do
  let body ← readBytes p.buffer p.bodyBegin p.getBodySize
  p.store p.encodeBegin [calculateCheckSum body]

/-- The header stores of `EncodeOnce`. -/
def putHeader (p : Packet layout) (code randKey : UInt8) : Option (Packet layout) := do
  let p ← p.store 0 [code]
  let p ← p.store 1 (scalarBytes 2 p.getBodySize)
  p.store 3 [randKey]

end Packet

namespace EncodePc

variable {layout : Layout} (code key : UInt8)

/-- One shared access of `EncodeOnce`: the packet afterwards, and where the
thread goes on if the call has not returned. -/
def step (p : Packet layout) (rand : Nat) : EncodePc → Option (Packet layout × Option EncodePc)
  | .exchange =>
      some ({ p with isEncoded := 1 },
        if p.isEncoded ≠ 0 then none else some (.putCheckSum (UInt8.ofNat (rand % 255))))
  | .putCheckSum randKey => do
      let p ← p.putCheckSum
      some (p, some (.encode randKey (p.getBodySize + 1) p.encodeBegin key randKey 0 0))
  | .encode randKey 0 _ _ _ _ _ => some (p, some (.putCode randKey))
  | .encode randKey (left + 1) offset accK accRK P E => do
      let bytes ← readBytes p.buffer offset 1
      let P := (P + (accRK + 1)) ^^^ bytes.headD 0
      let E := (E + (accK + 1)) ^^^ P
      let p ← p.store offset [E]
      some (p, some (.encode randKey left (offset + 1) (accK + 1) (accRK + 1) P E))
  | .putCode randKey => do
      let p ← p.store 0 [code]
      some (p, some (.putBodySize randKey))
  | .putBodySize randKey => do
      let p ← p.store 1 (Packet.scalarBytes 2 p.getBodySize)
      some (p, some (.putRandKey randKey))
  | .putRandKey randKey => do
      let p ← p.store 3 [randKey]
      some (p, none)

/-- The rest of the call, for the thread that won the exchange. -/
def finish (p : Packet layout) : EncodePc → Option (Packet layout)
  | .exchange => none
  | .putCheckSum randKey => do
      let p ← p.putCheckSum
      let buffer ← encodeInPlace (p.getBodySize + 1) p.encodeBegin key randKey 0 0 p.buffer
      Packet.putHeader { p with buffer := buffer } code randKey
  | .encode randKey left offset accK accRK P E => do
      let buffer ← encodeInPlace left offset accK accRK P E p.buffer
      Packet.putHeader { p with buffer := buffer } code randKey
  | .putCode randKey => p.putHeader code randKey
  | .putBodySize randKey => do
      let p ← p.store 1 (Packet.scalarBytes 2 p.getBodySize)
      p.store 3 [randKey]
  | .putRandKey randKey => p.store 3 [randKey]

variable {code key} {p p' : Packet layout} {rand : Nat} {pc pc' : EncodePc}

theorem store_eq_some {offset : Nat} {bytes : List UInt8} (h : p.store offset bytes = some p') :
    ∃ buffer, writeBytes p.buffer offset bytes = some buffer ∧ p' = { p with buffer := buffer } := by
  simp only [Packet.store, Option.bind_eq_bind, Option.bind_eq_some_iff, Option.some.injEq] at h
  obtain ⟨buffer, hWrite, rfl⟩ := h
  exact ⟨buffer, hWrite, rfl⟩

/-- A step of the winner leaves it with the same result. -/
theorem finish_step (hWon : pc ≠ .exchange) (h : pc.step code key p rand = some (p', some pc')) :
    pc' ≠ .exchange ∧ p'.isEncoded = p.isEncoded ∧ pc'.finish code key p' = pc.finish code key p := by
  cases pc with
  | exchange => exact absurd rfl hWon
  | putCheckSum randKey =>
      simp only [step, Option.bind_eq_bind, Option.bind_eq_some_iff, Option.some.injEq,
        Prod.mk.injEq] at h
      obtain ⟨p'', hPut, rfl, rfl⟩ := h
      refine ⟨nofun, ?_, ?_⟩
      · simp only [Packet.putCheckSum, Option.bind_eq_bind, Option.bind_eq_some_iff] at hPut
        obtain ⟨_, _, hStore⟩ := hPut
        obtain ⟨_, _, rfl⟩ := store_eq_some hStore
        rfl
      · simp only [finish, hPut, Option.bind_eq_bind, Option.bind_some]
  | encode randKey left offset accK accRK P E =>
      cases left with
      | zero =>
          cases h
          exact ⟨nofun, rfl, rfl⟩
      | succ left =>
          simp only [step, Option.bind_eq_bind, Option.bind_eq_some_iff, Option.some.injEq,
            Prod.mk.injEq] at h
          obtain ⟨bytes, hRead, p'', hStore, rfl, rfl⟩ := h
          obtain ⟨buffer, hWrite, rfl⟩ := store_eq_some hStore
          refine ⟨nofun, rfl, ?_⟩
          simp only [finish, encodeInPlace, hRead, hWrite, Option.bind_eq_bind, Option.bind_some]
  | putCode randKey =>
      simp only [step, Option.bind_eq_bind, Option.bind_eq_some_iff, Option.some.injEq,
        Prod.mk.injEq] at h
      obtain ⟨p'', hStore, rfl, rfl⟩ := h
      obtain ⟨buffer, hWrite, rfl⟩ := store_eq_some hStore
      refine ⟨nofun, rfl, ?_⟩
      simp only [finish, Packet.putHeader, hStore, Option.bind_eq_bind, Option.bind_some]
  | putBodySize randKey =>
      simp only [step, Option.bind_eq_bind, Option.bind_eq_some_iff, Option.some.injEq,
        Prod.mk.injEq] at h
      obtain ⟨p'', hStore, rfl, rfl⟩ := h
      obtain ⟨buffer, hWrite, rfl⟩ := store_eq_some hStore
      refine ⟨nofun, rfl, ?_⟩
      simp only [finish, hStore, Option.bind_eq_bind, Option.bind_some]
  | putRandKey randKey => 
      simp only [step, Option.bind_eq_bind, Option.bind_eq_some_iff, Option.some.injEq,
        Prod.mk.injEq] at h
      obtain ⟨_, _, _, hNone⟩ := h
      cases hNone

/-- The winner's last step gives its result. -/
theorem finish_last (hWon : pc ≠ .exchange) (h : pc.step code key p rand = some (p', none)) :
    p'.isEncoded = p.isEncoded ∧ pc.finish code key p = some p' := by
  cases pc with
  | exchange => exact absurd rfl hWon
  | putRandKey randKey =>
      simp only [step, Option.bind_eq_bind, Option.bind_eq_some_iff, Option.some.injEq,
        Prod.mk.injEq, and_true, exists_eq_right] at h
      obtain ⟨_, _, rfl⟩ := store_eq_some h
      exact ⟨rfl, h⟩
  | encode randKey left offset accK accRK P E =>
      cases left <;> simp [step, Option.bind_eq_some_iff] at h
  | putCheckSum | putCode | putBodySize => simp [step, Option.bind_eq_some_iff] at h

/-- After the exchange the rest of the winner's call is the rest of `EncodeOnce`. -/
theorem encodeOnce_eq_finish (hFirst : p.isEncoded = 0) :
    p.encodeOnce code key rand =
      ((EncodePc.putCheckSum (UInt8.ofNat (rand % 255))).finish code key
        { p with isEncoded := 1 }).map fun p => (true, p) := by
  rw [Packet.encodeOnce, if_neg (by simp [hFirst])]
  simp only [finish, Packet.putCheckSum, Packet.store, Packet.putHeader, Packet.getBodySize]
  cases readBytes p.buffer p.bodyBegin (p.writePos - p.bodyBegin) with
  | none => rfl
  | some body =>
      simp only [Option.bind_eq_bind, Option.bind_some]
      cases hWrite : writeBytes p.buffer p.encodeBegin [calculateCheckSum body] with
      | none => rfl
      | some buffer =>
          have hLe : p.encodeBegin ≤ buffer.length := by
            rw [writeBytes_length hWrite]
            unfold writeBytes at hWrite
            split at hWrite
            · omega
            · cases hWrite
          simp only [Option.bind_some, encodeInPlace_eq _ _ _ _ _ _ hLe, packetEncode,
            Option.bind_assoc, Option.map_eq_bind, Function.comp_def]

end EncodePc

end NfNetwork
