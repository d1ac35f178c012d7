import NfNetwork.Machinery.Block
import Mathlib.Data.Nat.ModEq

/-! Circular slices of a block. The first `capacity` bytes of a block are read
as a ring: offset `start + i` stands for the byte at `(start + i) % capacity`.
Nothing here fixes who owns the ring; a queue keeps a read and a write offset
into it and these lemmas say what its copies move. -/
namespace NfNetwork.Machinery

/-- The `count` bytes met when walking the ring from `start`. -/
def slice (block : Block) (capacity start count : Nat) : List UInt8 :=
  (List.range count).map fun i => block.getD ((start + i) % capacity) 0

@[simp] theorem slice_length (block : Block) (capacity start count : Nat) :
    (slice block capacity start count).length = count := by
  simp [slice]

@[simp] theorem slice_zero (block : Block) (capacity start : Nat) :
    slice block capacity start 0 = [] := rfl

theorem slice_add (block : Block) (capacity start first second : Nat) :
    slice block capacity start (first + second) =
      slice block capacity start first ++ slice block capacity (start + first) second := by
  simp [slice, List.range_add, Nat.add_assoc, Function.comp_def]

/-- Only the residue of the starting offset matters. -/
theorem slice_congr (block : Block) (capacity count : Nat) {start start' : Nat}
    (h : start % capacity = start' % capacity) :
    slice block capacity start count = slice block capacity start' count := by
  unfold slice
  apply List.map_congr_left
  intro i _
  rw [Nat.add_mod start, h, ← Nat.add_mod start']

theorem slice_take (block : Block) (capacity start : Nat) {count n : Nat} (h : n ≤ count) :
    (slice block capacity start count).take n = slice block capacity start n := by
  rw [show count = n + (count - n) by omega, slice_add, List.take_left' (slice_length ..)]

theorem slice_drop (block : Block) (capacity start : Nat) {count n : Nat} (h : n ≤ count) :
    (slice block capacity start count).drop n = slice block capacity (start + n) (count - n) := by
  conv_lhs => rw [show count = n + (count - n) by omega, slice_add]
  rw [List.drop_left' (slice_length ..)]

/-- A slice that does not wrap is a plain read. -/
theorem readBytes_eq_slice {block : Block} {capacity start count : Nat}
    (hFits : start + count ≤ capacity) (hBlock : capacity ≤ block.length) :
    readBytes block start count = some (slice block capacity start count) := by
  rw [readBytes_of_le (by omega)]
  congr 1
  apply List.ext_getElem?
  intro i
  rcases Nat.lt_or_ge i count with hi | hi
  · rw [List.getElem?_take_of_lt hi, List.getElem?_drop, slice, List.getElem?_map,
      List.getElem?_range hi, Option.map_some, Nat.mod_eq_of_lt (by omega),
      List.getD_eq_getElem?_getD, List.getElem?_eq_getElem (by omega), Option.getD_some]
  · rw [List.getElem?_eq_none (by rw [List.length_take]; omega),
      List.getElem?_eq_none (by rw [slice_length]; exact hi)]

/-- A write outside the walked offsets leaves the slice alone. -/
theorem slice_writeBytes_of_disjoint {block after : Block} {offset : Nat} {bytes : List UInt8}
    (hWrite : writeBytes block offset bytes = some after) {capacity start count : Nat}
    (h : ∀ i < count, ¬(offset ≤ (start + i) % capacity ∧
      (start + i) % capacity < offset + bytes.length)) :
    slice after capacity start count = slice block capacity start count := by
  unfold slice
  apply List.map_congr_left
  intro i hi
  rw [List.getD_eq_getElem?_getD, List.getD_eq_getElem?_getD, writeBytes_getElem? hWrite,
    if_neg (h i (List.mem_range.mp hi))]

/-- Reading back what was written without wrapping. -/
theorem slice_writeBytes_self {block after : Block} {offset : Nat} {bytes : List UInt8}
    (hWrite : writeBytes block offset bytes = some after) {capacity : Nat}
    (hFits : offset + bytes.length ≤ capacity) :
    slice after capacity offset bytes.length = bytes := by
  apply List.ext_getElem?
  intro i
  rcases Nat.lt_or_ge i bytes.length with hi | hi
  · rw [slice, List.getElem?_map, List.getElem?_range hi, Option.map_some,
      Nat.mod_eq_of_lt (by omega), List.getD_eq_getElem?_getD, writeBytes_getElem? hWrite,
      if_pos (by omega), Nat.add_sub_cancel_left, List.getElem?_eq_getElem hi, Option.getD_some]
  · rw [List.getElem?_eq_none (by rw [slice_length]; exact hi), List.getElem?_eq_none hi]

/-- Distinct offsets of one walk of at most a full turn name distinct bytes. -/
theorem add_mod_ne_of_lt (capacity start : Nat) {i j : Nat} (hij : i < j) (hj : j < i + capacity) :
    (start + i) % capacity ≠ (start + j) % capacity := by
  intro h
  have hDvd : capacity ∣ (start + j) - (start + i) :=
    (Nat.modEq_iff_dvd' (by omega)).mp h
  have := Nat.le_of_dvd (by omega) hDvd
  omega

/-- Storing `bytes` from offset `w` with one wrap at the capacity: the walk
from `w` reads them back. -/
theorem slice_wrapped_self {block middle after : Block} {capacity w : Nat} {bytes : List UInt8}
    (hw : w < capacity) (hLen : bytes.length ≤ capacity)
    (hFirst : writeBytes block w (bytes.take (capacity - w)) = some middle)
    (hSecond : writeBytes middle 0 (bytes.drop (capacity - w)) = some after) :
    slice after capacity w bytes.length = bytes := by
  have hTake : (bytes.take (capacity - w)).length = min (capacity - w) bytes.length :=
    List.length_take ..
  have hDrop : (bytes.drop (capacity - w)).length = bytes.length - (capacity - w) :=
    List.length_drop ..
  have hFront : slice after capacity w (bytes.take (capacity - w)).length =
      bytes.take (capacity - w) := by
    rw [slice_writeBytes_of_disjoint hSecond, slice_writeBytes_self hFirst (by omega)]
    intro i hi
    rw [Nat.mod_eq_of_lt (by omega)]
    omega
  have hBack : slice after capacity (w + (bytes.take (capacity - w)).length)
      (bytes.drop (capacity - w)).length = bytes.drop (capacity - w) := by
    rcases Nat.le_total bytes.length (capacity - w) with hLe | hLe
    · rw [List.drop_eq_nil_of_le hLe]
      rfl
    · have hTurn : (w + (bytes.take (capacity - w)).length) % capacity = 0 % capacity := by
        rw [hTake, Nat.min_eq_left hLe, show w + (capacity - w) = capacity by omega]
        simp
      rw [slice_congr _ _ _ hTurn, slice_writeBytes_self hSecond (by omega)]
  calc
    slice after capacity w bytes.length
        = slice after capacity w ((bytes.take (capacity - w)).length +
            (bytes.drop (capacity - w)).length) := by
          congr 1
          omega
    _ = bytes.take (capacity - w) ++ bytes.drop (capacity - w) := by
          rw [slice_add, hFront, hBack]
    _ = bytes := List.take_append_drop ..

/-- The same store leaves every walk that ends where it begins alone, as long
as both fit in one turn. -/
theorem slice_wrapped_of_before {block middle after : Block} {capacity w : Nat}
    {bytes : List UInt8} (hw : w < capacity)
    (hFirst : writeBytes block w (bytes.take (capacity - w)) = some middle)
    (hSecond : writeBytes middle 0 (bytes.drop (capacity - w)) = some after)
    {start count : Nat} (hStart : (start + count) % capacity = w)
    (hRoom : count + bytes.length ≤ capacity) :
    slice after capacity start count = slice block capacity start count := by
  have hTake : (bytes.take (capacity - w)).length = min (capacity - w) bytes.length :=
    List.length_take ..
  have hDrop : (bytes.drop (capacity - w)).length = bytes.length - (capacity - w) :=
    List.length_drop ..
  have hWritten : ∀ i < count, ∀ j < bytes.length,
      (start + i) % capacity ≠ (w + j) % capacity := by
    intro i hi j hj
    have h := add_mod_ne_of_lt capacity start (show i < count + j by omega)
      (show count + j < i + capacity by omega)
    rwa [← Nat.add_assoc, ← Nat.mod_add_mod (start + count), hStart] at h
  rw [slice_writeBytes_of_disjoint hSecond, slice_writeBytes_of_disjoint hFirst]
  · rintro i hi ⟨hLow, hHigh⟩
    apply hWritten i hi ((start + i) % capacity - w) (by omega)
    rw [Nat.add_sub_cancel' hLow, Nat.mod_mod]
  · rintro i hi ⟨-, hHigh⟩
    apply hWritten i hi (capacity - w + (start + i) % capacity) (by omega)
    rw [show w + (capacity - w + (start + i) % capacity) =
      capacity + (start + i) % capacity by omega, Nat.add_mod_left, Nat.mod_mod]

end NfNetwork.Machinery
