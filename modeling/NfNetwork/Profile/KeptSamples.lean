import Mathlib.Algebra.Order.BigOperators.Group.List
import Mathlib.Algebra.Order.Group.Int
import Mathlib.Algebra.Ring.Int.Defs
import Mathlib.Data.List.Induction
import NfNetwork.Machinery.Shelf

/-! Which samples of a sequence are still there at its end. A sample that is small goes to one shelf
and one that is large to another; what neither takes is the rest. A sample is lost when another one
takes its place, on a shelf or as the rest. -/
namespace NfNetwork.Profile

open Machinery

/-- `SKIP_MINMAX`. -/
def skipMinmax : Nat := 10

structure Kept where
  low : List Int
  high : List Int
  rest : Int

namespace Kept

def start : Kept := ⟨[], [], 0⟩

def record (k : Kept) (elapsed : Int) : Kept :=
  match offer (· < ·) elapsed skipMinmax k.low with
  | some low => { k with low := low }
  | none => match offer (· > ·) elapsed skipMinmax k.high with
    | some high => { k with high := high }
    | none => { k with rest := elapsed }

def total (k : Kept) : Int := k.low.sum + k.high.sum + k.rest

/-- All samples are positive, no small one is above a large one, and the high shelf is not used before
the low one is full. -/
structure Sound (k : Kept) : Prop where
  lowLength : k.low.length ≤ skipMinmax
  highLength : k.high.length ≤ skipMinmax
  low : ∀ a ∈ k.low, 0 < a
  high : ∀ b ∈ k.high, 0 < b
  rest : 0 ≤ k.rest
  apart : ∀ a ∈ k.low, ∀ b ∈ k.high, a ≤ b
  lowFirst : k.low.length < skipMinmax → k.high = []

/-- The sample finds a free place: on the low shelf, else on the high one, else as the rest. -/
def FindsPlace (k : Kept) (elapsed : Int) : Prop :=
  (∀ a ∈ k.low, a ≤ elapsed) ∧ (k.low.length < skipMinmax ∨
    (∀ b ∈ k.high, elapsed ≤ b) ∧ (k.high.length < skipMinmax ∨ k.rest = 0))

/-- The ways of recording a sample. -/
inductive Records (k : Kept) (elapsed : Int) : Kept → Prop where
  | displaceLow (old : Int) (low : List Int) (h : Displaces (· < ·) elapsed k.low low old) :
      Records k elapsed { k with low := low }
  | placeLow (hLow : ∀ a ∈ k.low, a ≤ elapsed) (hRoom : k.low.length < skipMinmax) :
      Records k elapsed { k with low := k.low ++ [elapsed] }
  | displaceHigh (hLow : ∀ a ∈ k.low, a ≤ elapsed) (hFull : k.low.length = skipMinmax)
      (old : Int) (high : List Int) (h : Displaces (· > ·) elapsed k.high high old) :
      Records k elapsed { k with high := high }
  | placeHigh (hLow : ∀ a ∈ k.low, a ≤ elapsed) (hFull : k.low.length = skipMinmax)
      (hHigh : ∀ b ∈ k.high, elapsed ≤ b) (hRoom : k.high.length < skipMinmax) :
      Records k elapsed { k with high := k.high ++ [elapsed] }
  | overwrite (hLow : ∀ a ∈ k.low, a ≤ elapsed) (hFull : k.low.length = skipMinmax)
      (hHigh : ∀ b ∈ k.high, elapsed ≤ b) (hFull' : k.high.length = skipMinmax) :
      Records k elapsed { k with rest := elapsed }

variable {k k' : Kept} {elapsed : Int}

/-- What `record` does to sound shelves: it takes the place of the sample it beats. -/
theorem Sound.records (h : k.Sound) (elapsed : Int) : k.Records elapsed (k.record elapsed) := by
  rw [record]
  cases hOffer : offer (· < ·) elapsed skipMinmax k.low with
  | some low =>
      rcases offer_cases hOffer with ⟨old, hDisplaces⟩ | ⟨rfl, hSpares, hRoom⟩
      · exact .displaceLow old low hDisplaces
      · exact .placeLow (fun a hMem => Int.not_lt.mp (hSpares a hMem)) hRoom
  | none =>
      obtain ⟨hSpares, hFull⟩ := (offer_eq_none h.lowLength).mp hOffer
      have hLow : ∀ a ∈ k.low, a ≤ elapsed := fun a hMem => Int.not_lt.mp (hSpares a hMem)
      cases hOffer' : offer (· > ·) elapsed skipMinmax k.high with
      | some high =>
          rcases offer_cases hOffer' with ⟨old, hDisplaces⟩ | ⟨rfl, hSpares', hRoom⟩
          · exact .displaceHigh hLow hFull old high hDisplaces
          · exact .placeHigh hLow hFull (fun b hMem => Int.not_lt.mp (hSpares' b hMem)) hRoom
      | none =>
          obtain ⟨hSpares', hFull'⟩ := (offer_eq_none h.highLength).mp hOffer'
          exact .overwrite hLow hFull (fun b hMem => Int.not_lt.mp (hSpares' b hMem)) hFull'

/-- What a displaced entry was worth is missing from the sum. -/
theorem sum_of_displaces {beats : Int → Int → Prop} {shelf after : List Int} {old : Int}
    (h : Displaces beats elapsed shelf after old) : after.sum + old = shelf.sum + elapsed := by
  obtain ⟨front, back, rfl, _, rfl⟩ := h
  simp only [List.sum_append, List.sum_cons]
  omega

/-- The total of what is kept grows by the new sample at most. -/
theorem Records.total_le (h : k.Records elapsed k') (hSound : k.Sound) : k'.total ≤ k.total + elapsed := by
  cases h with
  | displaceLow old low hDisplaces =>
      have hSum := sum_of_displaces hDisplaces
      obtain ⟨front, back, hLow, _⟩ := hDisplaces
      have hOld := hSound.low old (by simp [hLow])
      simp only [total]
      omega
  | placeLow | placeHigh =>
      simp only [total, List.sum_append, List.sum_singleton]
      omega
  | displaceHigh _ _ old high hDisplaces =>
      have hSum := sum_of_displaces hDisplaces
      obtain ⟨front, back, hHigh, _⟩ := hDisplaces
      have hOld := hSound.high old (by simp [hHigh])
      simp only [total]
      omega
  | overwrite =>
      have hRest := hSound.rest
      simp only [total]
      omega

/-- Nothing is lost exactly if the sample finds a free place. -/
theorem Records.total_eq_iff (h : k.Records elapsed k') (hSound : k.Sound) :
    k'.total = k.total + elapsed ↔ k.FindsPlace elapsed := by
  cases h with
  | displaceLow old low hDisplaces =>
      have hSum := sum_of_displaces hDisplaces
      obtain ⟨front, back, hLow, hBeats, _⟩ := hDisplaces
      have hOld := hSound.low old (by simp [hLow])
      apply iff_of_false
      · simp only [total]
        omega
      · intro hFinds
        exact absurd (hFinds.1 old (by simp [hLow])) (Int.not_le.mpr hBeats)
  | placeLow hLow hRoom =>
      apply iff_of_true
      · simp only [total, List.sum_append, List.sum_singleton]
        omega
      · exact ⟨hLow, .inl hRoom⟩
  | displaceHigh hLow hFull old high hDisplaces =>
      have hSum := sum_of_displaces hDisplaces
      obtain ⟨front, back, hHigh, hBeats, _⟩ := hDisplaces
      have hOld := hSound.high old (by simp [hHigh])
      apply iff_of_false
      · simp only [total]
        omega
      · rintro ⟨_, hRoom | ⟨hSpares, _⟩⟩
        · omega
        · exact absurd (hSpares old (by simp [hHigh])) (Int.not_le.mpr hBeats)
  | placeHigh hLow hFull hHigh hRoom =>
      apply iff_of_true
      · simp only [total, List.sum_append, List.sum_singleton]
        omega
      · exact ⟨hLow, .inr ⟨hHigh, .inl hRoom⟩⟩
  | overwrite hLow hFull hHigh hFull' =>
      simp only [total, FindsPlace, hFull, hFull', Nat.lt_irrefl, false_or]
      constructor
      · intro hTotal
        exact ⟨hLow, hHigh, by omega⟩
      · rintro ⟨_, _, hRest⟩
        omega

/-- What holds of a shelf and of the new value holds of the shelf after. -/
theorem forall_of_displaces {beats : Int → Int → Prop} {shelf after : List Int} {old : Int}
    {P : Int → Prop} (h : Displaces beats elapsed shelf after old) (hShelf : ∀ x ∈ shelf, P x)
    (hNew : P elapsed) : ∀ x ∈ after, P x := by
  obtain ⟨front, back, rfl, _, rfl⟩ := h
  simp only [List.forall_mem_append, List.forall_mem_cons] at hShelf ⊢
  exact ⟨hShelf.1, hNew, hShelf.2.2⟩

/-- A shelf does not grow once it is full. -/
theorem length_of_displaces {beats : Int → Int → Prop} {shelf after : List Int} {old : Int}
    (h : Displaces beats elapsed shelf after old) : after.length = shelf.length := by
  obtain ⟨front, back, rfl, _, rfl⟩ := h
  simp

/-- The shelves stay sound, samples being positive. -/
theorem Records.sound (h : k.Records elapsed k') (hSound : k.Sound) (hPos : 0 < elapsed) : k'.Sound := by
  cases h with
  | displaceLow old low hDisplaces =>
      have hBelow : ∀ b ∈ k.high, elapsed ≤ b := by
        obtain ⟨front, back, hLow, hBeats, _⟩ := hDisplaces
        intro b hMem
        have hOld := hSound.apart old (by simp [hLow]) b hMem
        exact Int.le_trans (Int.le_of_lt hBeats) hOld
      exact { hSound with
        lowLength := by simpa [length_of_displaces hDisplaces] using hSound.lowLength
        low := forall_of_displaces hDisplaces hSound.low hPos
        apart := forall_of_displaces hDisplaces hSound.apart hBelow
        lowFirst := by simpa [length_of_displaces hDisplaces] using hSound.lowFirst }
  | placeLow hLow hRoom =>
      have hNone : k.high = [] := hSound.lowFirst hRoom
      refine { hSound with lowLength := ?_, low := ?_, apart := ?_, lowFirst := fun _ => hNone }
      · rw [List.length_append]
        exact hRoom
      · rw [List.forall_mem_append]
        exact ⟨hSound.low, by simpa using hPos⟩
      · simp [hNone]
  | displaceHigh hLow hFull old high hDisplaces =>
      exact { hSound with
        highLength := by simpa [length_of_displaces hDisplaces] using hSound.highLength
        high := forall_of_displaces hDisplaces hSound.high hPos
        apart := fun a hMem => forall_of_displaces hDisplaces (hSound.apart a hMem) (hLow a hMem)
        lowFirst := by simp [hFull] }
  | placeHigh hLow hFull hHigh hRoom =>
      refine { hSound with highLength := ?_, high := ?_, apart := ?_, lowFirst := by simp [hFull] }
      · rw [List.length_append]
        exact hRoom
      · rw [List.forall_mem_append]
        exact ⟨hSound.high, by simpa using hPos⟩
      · intro a hMem
        rw [List.forall_mem_append]
        exact ⟨hSound.apart a hMem, by simpa using hLow a hMem⟩
  | overwrite => exact { hSound with rest := Int.le_of_lt hPos }

/-- Whatever holds of the shelves and of the sample holds of the shelves after. -/
theorem Records.forall_mem {P : Int → Prop} (h : k.Records elapsed k') (hLow : ∀ a ∈ k.low, P a)
    (hHigh : ∀ b ∈ k.high, P b) (hNew : P elapsed) : (∀ a ∈ k'.low, P a) ∧ ∀ b ∈ k'.high, P b := by
  cases h with
  | displaceLow _ _ hDisplaces => exact ⟨forall_of_displaces hDisplaces hLow hNew, hHigh⟩
  | placeLow => exact ⟨by simpa [or_imp, forall_and] using ⟨hLow, hNew⟩, hHigh⟩
  | displaceHigh _ _ _ _ hDisplaces => exact ⟨hLow, forall_of_displaces hDisplaces hHigh hNew⟩
  | placeHigh => exact ⟨hLow, by simpa [or_imp, forall_and] using ⟨hHigh, hNew⟩⟩
  | overwrite => exact ⟨hLow, hHigh⟩

/-- The empty shelves are. -/
theorem start_sound : start.Sound := by
  constructor <;> simp [start, skipMinmax]

/-- So the shelves are sound after any samples. -/
theorem Sound.foldl_record (h : k.Sound) (samples : List Int) (hPos : ∀ e ∈ samples, 0 < e) :
    (samples.foldl record k).Sound := by
  induction samples generalizing k with
  | nil => exact h
  | cons e samples ih =>
      rw [List.forall_mem_cons] at hPos
      exact ih ((h.records e).sound h hPos.1) hPos.2

/-- What holds of every sample holds of every kept one. -/
theorem Sound.foldl_forall_mem {P : Int → Prop} (h : k.Sound) (hLow : ∀ a ∈ k.low, P a)
    (hHigh : ∀ b ∈ k.high, P b) (samples : List Int) (hSamples : ∀ e ∈ samples, 0 < e ∧ P e) :
    (∀ a ∈ (samples.foldl record k).low, P a) ∧ ∀ b ∈ (samples.foldl record k).high, P b := by
  induction samples generalizing k with
  | nil => exact ⟨hLow, hHigh⟩
  | cons e samples ih =>
      rw [List.forall_mem_cons] at hSamples
      obtain ⟨⟨hPos, hNew⟩, hLater⟩ := hSamples
      have hRecords := h.records e
      obtain ⟨hLow', hHigh'⟩ := hRecords.forall_mem hLow hHigh hNew
      exact ih (hRecords.sound h hPos) hLow' hHigh' hLater

end Kept

section Orderly

/-- The first ten samples do not fall, the next eleven do not rise and are not below any of the first
ten, and there are no more. -/
structure Orderly (samples : List Int) : Prop where
  length : samples.length ≤ 2 * skipMinmax + 1
  rises : (samples.take skipMinmax).Pairwise (· ≤ ·)
  falls : (samples.drop skipMinmax).Pairwise (· ≥ ·)
  apart : ∀ a ∈ samples.take skipMinmax, ∀ b ∈ samples.drop skipMinmax, a ≤ b

/-- Where orderly samples are: each of them in a place of its own. -/
def layout (samples : List Int) : Kept where
  low := samples.take skipMinmax
  high := (samples.drop skipMinmax).take skipMinmax
  rest := (samples.drop (2 * skipMinmax)).headD 0

variable {samples : List Int} {elapsed : Int}

/-- The first samples fill the low shelf. -/
theorem layout_concat_low (h : samples.length < skipMinmax) :
    layout (samples ++ [elapsed]) = { layout samples with low := (layout samples).low ++ [elapsed] } := by
  have hTake : samples.take skipMinmax = samples := List.take_of_length_le (by omega)
  have hTake' : (samples ++ [elapsed]).take skipMinmax = samples ++ [elapsed] :=
    List.take_of_length_le (by simp; omega)
  have hDrop : samples.drop skipMinmax = [] := List.drop_eq_nil_of_le (by omega)
  have hDrop' : (samples ++ [elapsed]).drop skipMinmax = [] := List.drop_eq_nil_of_le (by simp; omega)
  have hRest : samples.drop (2 * skipMinmax) = [] := List.drop_eq_nil_of_le (by omega)
  have hRest' : (samples ++ [elapsed]).drop (2 * skipMinmax) = [] :=
    List.drop_eq_nil_of_le (by simp; omega)
  simp [layout, hTake, hTake', hDrop, hDrop', hRest, hRest']

/-- From then on its samples stay the first ones. -/
theorem take_concat (h : skipMinmax ≤ samples.length) :
    (samples ++ [elapsed]).take skipMinmax = samples.take skipMinmax := List.take_append_of_le_length h

/-- And later ones go behind. -/
theorem drop_concat (h : skipMinmax ≤ samples.length) :
    (samples ++ [elapsed]).drop skipMinmax = samples.drop skipMinmax ++ [elapsed] :=
  List.drop_append_of_le_length h

/-- The next samples fill the high shelf. -/
theorem layout_concat_high (hLow : skipMinmax ≤ samples.length) (h : samples.length < 2 * skipMinmax) :
    layout (samples ++ [elapsed]) = { layout samples with high := (layout samples).high ++ [elapsed] } := by
  have hTake : (samples.drop skipMinmax).take skipMinmax = samples.drop skipMinmax :=
    List.take_of_length_le (by rw [List.length_drop]; omega)
  have hTake' : (samples.drop skipMinmax ++ [elapsed]).take skipMinmax = samples.drop skipMinmax ++ [elapsed] :=
    List.take_of_length_le (by rw [List.length_append, List.length_drop, List.length_singleton]; omega)
  have hRest : samples.drop (2 * skipMinmax) = [] := List.drop_eq_nil_of_le (by omega)
  have hRest' : (samples ++ [elapsed]).drop (2 * skipMinmax) = [] :=
    List.drop_eq_nil_of_le (by simp; omega)
  simp [layout, take_concat hLow, drop_concat hLow, hTake, hTake', hRest, hRest']

/-- The first sample after both shelves are full counts as one of the rest. -/
theorem layout_concat_rest (h : samples.length = 2 * skipMinmax) :
    layout (samples ++ [elapsed]) = { layout samples with rest := elapsed } := by
  have hLow : skipMinmax ≤ samples.length := by omega
  have hTake : (samples.drop skipMinmax ++ [elapsed]).take skipMinmax =
      (samples.drop skipMinmax).take skipMinmax :=
    List.take_append_of_le_length (by rw [List.length_drop]; omega)
  have hRest : (samples ++ [elapsed]).drop (2 * skipMinmax) = [elapsed] := by
    rw [List.drop_append_of_le_length h.ge, List.drop_eq_nil_of_le h.le, List.nil_append]
  simp [layout, take_concat hLow, drop_concat hLow, hTake, hRest]

/-- The rest is free until there are 21 samples. -/
theorem layout_rest_eq_zero (hPos : ∀ e ∈ samples, 0 < e) :
    (layout samples).rest = 0 ↔ samples.length ≤ 2 * skipMinmax := by
  rw [← List.drop_eq_nil_iff, layout]
  cases hDrop : samples.drop (2 * skipMinmax) with
  | nil => simp
  | cons e later =>
      have hMem : e ∈ samples := List.mem_of_mem_drop (hDrop ▸ List.mem_cons_self)
      have hSome := hPos e hMem
      simp
      omega

/-- The low shelf has room while there are few samples. -/
theorem layout_low_length : (layout samples).low.length < skipMinmax ↔ samples.length < skipMinmax := by
  simp [layout]

/-- The high shelf after it. -/
theorem layout_high_length (hLow : skipMinmax ≤ samples.length) :
    (layout samples).high.length < skipMinmax ↔ samples.length < 2 * skipMinmax := by
  simp [layout]
  omega

/-- While only the low shelf is in use, orderly means ascending. -/
theorem orderly_of_length_le (h : samples.length ≤ skipMinmax) :
    Orderly samples ↔ samples.Pairwise (· ≤ ·) := by
  have hTake : samples.take skipMinmax = samples := List.take_of_length_le h
  have hDrop : samples.drop skipMinmax = [] := List.drop_eq_nil_of_le h
  constructor
  · intro hOrderly
    simpa [hTake] using hOrderly.rises
  · intro hRises
    exact ⟨by omega, by rwa [hTake], by simp [hDrop], by simp [hDrop]⟩

/-- A sample finds its place on the low shelf if it beats none of those before it. -/
theorem findsPlace_of_low (h : samples.length < skipMinmax) :
    (layout samples).FindsPlace elapsed ↔ ∀ a ∈ samples, a ≤ elapsed := by
  have hRoom := layout_low_length.mpr h
  have hLow : (layout samples).low = samples := List.take_of_length_le (Nat.le_of_lt h)
  rw [Kept.FindsPlace]
  simp [hRoom]
  rw [hLow]

/-- And on the high shelf if it lies above the low ones and below the high ones. -/
theorem findsPlace_of_high (hPos : ∀ e ∈ samples, 0 < e) (h : skipMinmax ≤ samples.length) :
    (layout samples).FindsPlace elapsed ↔ samples.length ≤ 2 * skipMinmax ∧
      (∀ a ∈ samples.take skipMinmax, a ≤ elapsed) ∧ ∀ b ∈ samples.drop skipMinmax, elapsed ≤ b := by
  have hFull : ¬ (layout samples).low.length < skipMinmax := by
    rw [layout_low_length]
    omega
  rw [Kept.FindsPlace, layout_high_length h, layout_rest_eq_zero hPos]
  constructor
  · rintro ⟨hLow, hRoom | ⟨hHigh, hRoom⟩⟩
    · exact absurd hRoom hFull
    · have hLength : samples.length ≤ 2 * skipMinmax := by omega
      have hAll : (samples.drop skipMinmax).take skipMinmax = samples.drop skipMinmax :=
        List.take_of_length_le (by rw [List.length_drop]; omega)
      refine ⟨hLength, hLow, ?_⟩
      rw [← hAll]
      exact hHigh
  · rintro ⟨hLength, hLow, hHigh⟩
    exact ⟨hLow, .inr ⟨fun b hMem => hHigh b (List.mem_of_mem_take hMem), by omega⟩⟩

/-- One more sample keeps them orderly exactly if it finds a place beside them. -/
theorem orderly_concat (hPos : ∀ e ∈ samples, 0 < e) :
    Orderly (samples ++ [elapsed]) ↔ Orderly samples ∧ (layout samples).FindsPlace elapsed := by
  by_cases hShort : samples.length < skipMinmax
  · rw [orderly_of_length_le (by simp; omega), orderly_of_length_le (Nat.le_of_lt hShort),
      findsPlace_of_low hShort, List.pairwise_append]
    simp
  · have hLow : skipMinmax ≤ samples.length := by omega
    rw [findsPlace_of_high hPos hLow]
    constructor
    · rintro ⟨hLength, hRises, hFalls, hApart⟩
      rw [take_concat hLow] at hRises hApart
      rw [drop_concat hLow, List.pairwise_append] at hFalls
      simp only [drop_concat hLow, List.forall_mem_append, List.forall_mem_singleton] at hApart
      have hRoom : samples.length ≤ 2 * skipMinmax := by simpa using hLength
      exact ⟨⟨by omega, hRises, hFalls.1, fun a hMem => (hApart a hMem).1⟩, hRoom,
        fun a hMem => (hApart a hMem).2, fun b hMem => hFalls.2.2 b hMem elapsed List.mem_cons_self⟩
    · rintro ⟨⟨_, hRises, hFalls, hApart⟩, hRoom, hAbove, hBelow⟩
      refine ⟨by simpa using hRoom, ?_, ?_, ?_⟩
      · rwa [take_concat hLow]
      · rw [drop_concat hLow, List.pairwise_append]
        refine ⟨hFalls, List.pairwise_singleton .., ?_⟩
        intro b hMem e hSingle
        rw [List.mem_singleton.mp hSingle]
        exact hBelow b hMem
      · simp only [take_concat hLow, drop_concat hLow, List.forall_mem_append, List.forall_mem_singleton]
        exact fun a hMem => ⟨hApart a hMem, hAbove a hMem⟩

/-- As long as samples find their places, `record` keeps the layout. -/
theorem record_layout (hPos : ∀ e ∈ samples, 0 < e) (hSound : (layout samples).Sound)
    (hFinds : (layout samples).FindsPlace elapsed) :
    (layout samples).record elapsed = layout (samples ++ [elapsed]) := by
  have hRecords := hSound.records elapsed
  generalize (layout samples).record elapsed = after at hRecords
  cases hRecords with
  | displaceLow old low hDisplaces =>
      obtain ⟨front, back, hLow, hBeats, _⟩ := hDisplaces
      exact absurd (hFinds.1 old (by simp [hLow])) (Int.not_le.mpr hBeats)
  | placeLow _ hRoom => exact (layout_concat_low (layout_low_length.mp hRoom)).symm
  | displaceHigh _ hFull old high hDisplaces =>
      obtain ⟨front, back, hHigh, hBeats, _⟩ := hDisplaces
      rcases hFinds.2 with hRoom | ⟨hSpares, _⟩
      · omega
      · exact absurd (hSpares old (by simp [hHigh])) (Int.not_le.mpr hBeats)
  | placeHigh _ hFull _ hRoom =>
      have hLow : skipMinmax ≤ samples.length := by
        rw [← Nat.not_lt, ← layout_low_length]
        omega
      exact (layout_concat_high hLow ((layout_high_length hLow).mp hRoom)).symm
  | overwrite _ hFull _ hFull' =>
      have hLow : skipMinmax ≤ samples.length := by
        rw [← Nat.not_lt, ← layout_low_length]
        omega
      have hLong := (layout_high_length hLow).not.mp (by omega)
      have hRoom := ((findsPlace_of_high hPos hLow).mp hFinds).1
      exact (layout_concat_rest (by omega)).symm

/-- Every sample is accounted for exactly if the samples are orderly, and then each has its place. -/
theorem total_eq_sum_iff (samples : List Int) (hPos : ∀ e ∈ samples, 0 < e) :
    ((samples.foldl Kept.record .start).total = samples.sum ↔ Orderly samples) ∧
      (samples.foldl Kept.record .start).total ≤ samples.sum ∧
      (Orderly samples → samples.foldl Kept.record .start = layout samples) := by
  induction samples using List.reverseRecOn with
  | nil => exact ⟨iff_of_true rfl (by constructor <;> simp [skipMinmax]), Int.le_refl _, fun _ => rfl⟩
  | append_singleton samples e ih =>
      have hPos' : ∀ x ∈ samples, 0 < x := fun x hMem => hPos x (List.mem_append_left _ hMem)
      obtain ⟨hIff, hLe, hLayout⟩ := ih hPos'
      have hSound := Kept.start_sound.foldl_record samples hPos'
      have hRecords := hSound.records e
      have hStep := hRecords.total_le hSound
      have hLossless := hRecords.total_eq_iff hSound
      rw [List.foldl_append, List.foldl_cons, List.foldl_nil, List.sum_append, List.sum_singleton,
        orderly_concat hPos']
      refine ⟨⟨?_, ?_⟩, by omega, ?_⟩
      · intro hTotal
        have hOrderly := hIff.mp (by omega)
        have hSum := hIff.mpr hOrderly
        rw [← hLayout hOrderly]
        exact ⟨hOrderly, hLossless.mp (by omega)⟩
      · rintro ⟨hOrderly, hFinds⟩
        have hTotal := hIff.mpr hOrderly
        rw [← hLayout hOrderly, ← hLossless] at hFinds
        omega
      · rintro ⟨hOrderly, hFinds⟩
        rw [hLayout hOrderly] at hSound ⊢
        exact record_layout hPos' hSound hFinds

end Orderly

end NfNetwork.Profile
