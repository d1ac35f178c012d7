import Mathlib.Data.List.Basic
import Mathlib.Tactic.Common

/-! Blocks of bytes and the two ways of touching them. A read or a write that
leaves the block has no result: it is undefined behaviour of the program, and
"stays in bounds" is then a fact about the result rather than an assumption. -/
namespace NfNetwork.Machinery

/-- An allocated block, addressed from its first byte. -/
abbrev Block := List UInt8

/-- Copy `count` bytes out of the block, starting at `offset`. -/
def readBytes (block : Block) (offset count : Nat) : Option (List UInt8) :=
  if offset + count ≤ block.length then some ((block.drop offset).take count) else none

/-- Overwrite the block from `offset` on. -/
def writeBytes (block : Block) (offset : Nat) (bytes : List UInt8) : Option Block :=
  if offset + bytes.length ≤ block.length then
    some (block.take offset ++ bytes ++ block.drop (offset + bytes.length))
  else none

theorem readBytes_of_le {block : Block} {offset count : Nat}
    (h : offset + count ≤ block.length) :
    readBytes block offset count = some ((block.drop offset).take count) := if_pos h

theorem writeBytes_of_le {block : Block} {offset : Nat} {bytes : List UInt8}
    (h : offset + bytes.length ≤ block.length) :
    writeBytes block offset bytes =
      some (block.take offset ++ bytes ++ block.drop (offset + bytes.length)) := if_pos h

theorem readBytes_length {block : Block} {offset count : Nat} {bytes : List UInt8}
    (h : readBytes block offset count = some bytes) : bytes.length = count := by
  unfold readBytes at h
  split at h
  · cases h
    rw [List.length_take, List.length_drop]
    omega
  · cases h

/-- A write never changes the size of the block. -/
theorem writeBytes_length {block after : Block} {offset : Nat} {bytes : List UInt8}
    (h : writeBytes block offset bytes = some after) : after.length = block.length := by
  unfold writeBytes at h
  split at h
  · cases h
    simp only [List.length_append, List.length_take, List.length_drop]
    omega
  · cases h

/-- A write replaces exactly the bytes it covers. -/
theorem writeBytes_getElem? {block after : Block} {offset : Nat} {bytes : List UInt8}
    (h : writeBytes block offset bytes = some after) (i : Nat) :
    after[i]? = if offset ≤ i ∧ i < offset + bytes.length then bytes[i - offset]? else block[i]? := by
  unfold writeBytes at h
  split at h
  · rename_i hFits
    cases h
    have hTake : (block.take offset).length = offset := by
      rw [List.length_take]
      omega
    rcases Nat.lt_or_ge i offset with hBefore | hAfter
    · rw [if_neg (by omega), List.append_assoc, List.getElem?_append_left (by omega),
        List.getElem?_take_of_lt hBefore]
    · rcases Nat.lt_or_ge i (offset + bytes.length) with hIn | hPast
      · rw [if_pos ⟨hAfter, hIn⟩, List.append_assoc, List.getElem?_append_right (by omega), hTake,
          List.getElem?_append_left (by omega)]
      · rw [if_neg (by omega), List.getElem?_append_right (by rw [List.length_append]; omega),
          List.getElem?_drop]
        congr 1
        rw [List.length_append]
        omega
  · cases h

theorem readBytes_append (front middle back : List UInt8) {offset count : Nat}
    (hOffset : offset = front.length) (hCount : count = middle.length) :
    readBytes (front ++ middle ++ back) offset count = some middle := by
  subst hOffset hCount
  rw [readBytes_of_le (by simp), List.append_assoc, List.drop_left, List.take_left]

theorem writeBytes_append (front middle back bytes : List UInt8) {offset : Nat}
    (hOffset : offset = front.length) (hBytes : bytes.length = middle.length) :
    writeBytes (front ++ middle ++ back) offset bytes = some (front ++ bytes ++ back) := by
  subst hOffset
  rw [writeBytes_of_le (by simp [hBytes]), List.append_assoc front middle back, List.take_left,
    hBytes, ← List.append_assoc front middle back, ← List.length_append, List.drop_left]

/-- Two adjacent writes are one. -/
theorem writeBytes_writeBytes (block : Block) (offset : Nat) (first second : List UInt8) :
    (writeBytes block offset first).bind
        (fun block => writeBytes block (offset + first.length) second) =
      writeBytes block offset (first ++ second) := by
  by_cases hFirst : offset + first.length ≤ block.length
  · have hWritten := writeBytes_of_le hFirst
    have hLength := writeBytes_length hWritten
    rw [hWritten, Option.bind_some]
    by_cases hSecond : offset + first.length + second.length ≤ block.length
    · have hFront : (block.take offset ++ first).length = offset + first.length := by
        rw [List.length_append, List.length_take]
        omega
      rw [writeBytes_of_le (by omega), writeBytes_of_le (by rw [List.length_append]; omega),
        ← hFront, List.take_left, ← List.drop_drop, List.drop_left, hFront, List.drop_drop,
        List.length_append, List.append_assoc _ first second, Nat.add_assoc]
    · rw [writeBytes, writeBytes, if_neg (by omega),
        if_neg (by rw [List.length_append]; omega)]
  · rw [writeBytes, writeBytes, if_neg hFirst, if_neg (by rw [List.length_append]; omega)]
    rfl

/-- A read goes byte by byte. -/
theorem readBytes_succ (block : Block) (offset count : Nat) :
    readBytes block offset (count + 1) = (readBytes block offset 1).bind fun byte =>
      (readBytes block (offset + 1) count).bind fun bytes => some (byte ++ bytes) := by
  by_cases hFits : offset + (count + 1) ≤ block.length
  · rw [readBytes_of_le hFits, readBytes_of_le (by omega), Option.bind_some,
      readBytes_of_le (by omega), Option.bind_some, Nat.add_comm count 1, ← List.drop_drop,
      List.take_add]
  · rw [readBytes, if_neg hFits]
    by_cases hFirst : offset + 1 ≤ block.length
    · rw [readBytes_of_le hFirst, Option.bind_some, readBytes, if_neg (by omega), Option.bind_none]
    · rw [readBytes, if_neg hFirst, Option.bind_none]

/-- A write leaves what is read behind it. -/
theorem readBytes_of_writeBytes {block after : Block} {offset start : Nat} {bytes : List UInt8}
    (count : Nat) (h : writeBytes block offset bytes = some after)
    (hBehind : offset + bytes.length ≤ start) :
    readBytes after start count = readBytes block start count := by
  have hLength := writeBytes_length h
  rw [readBytes, readBytes, hLength]
  split
  · congr 1
    apply List.ext_getElem?
    intro i
    by_cases hLt : i < count
    · rw [List.getElem?_take_of_lt hLt, List.getElem?_take_of_lt hLt, List.getElem?_drop,
        List.getElem?_drop, writeBytes_getElem? h, if_neg (by omega)]
    · rw [List.getElem?_take_eq_none (by omega), List.getElem?_take_eq_none (by omega)]
  · rfl

section Prefix

variable {block : Block} {offset size : Nat}

/-- An access that ends inside the first `size` bytes needs no others. -/
theorem readBytes_take {count : Nat} (h : offset + count ≤ size) (hSize : size ≤ block.length) :
    readBytes (block.take size) offset count = readBytes block offset count := by
  rw [readBytes_of_le (by rw [List.length_take]; omega), readBytes_of_le (by omega), List.drop_take,
    List.take_take, Nat.min_eq_left (by omega)]

theorem writeBytes_take {bytes : List UInt8} (h : offset + bytes.length ≤ size)
    (hSize : size ≤ block.length) :
    writeBytes (block.take size) offset bytes =
      (writeBytes block offset bytes).map (List.take size) := by
  have hFront : (block.take offset ++ bytes).length = offset + bytes.length := by
    rw [List.length_append, List.length_take]
    omega
  rw [writeBytes_of_le (by rw [List.length_take]; omega), writeBytes_of_le (by omega),
    Option.map_some, List.take_take, Nat.min_eq_left (by omega), List.drop_take,
    List.take_append, hFront, List.take_of_length_le (Nat.le_trans (Nat.le_of_eq hFront) h)]

end Prefix

end NfNetwork.Machinery
