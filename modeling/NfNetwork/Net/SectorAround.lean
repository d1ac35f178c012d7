import Mathlib.Data.List.Nodup
import Mathlib.Tactic.Ring
import NfNetwork.Machinery.Delta
import NfNetwork.Net.SectorManager

/-! The sectors around a position, and what changes of them when a user moves. The loops of
`GetSectorAround` count in `int32_t`, so a position at one of the limits has no sectors around. -/
namespace NfNetwork.Net

open Machinery

/-- The first `Count` entries of `Around` are in use. -/
structure SectorAround where
  count : Nat
  around : Vector Int2 9
  count_le : count ≤ 9

namespace SectorAround

def new : SectorAround := ⟨0, Vector.replicate 9 ⟨0, 0⟩, by decide⟩

/-- `Count = 0`. -/
def clear (s : SectorAround) : SectorAround := ⟨0, s.around, by decide⟩

/-- A write past the end of `Around` is undefined. -/
def push (s : SectorAround) (pos : Int2) : Option SectorAround :=
  if h : s.count < 9 then some ⟨s.count + 1, s.around.set s.count pos, h⟩ else none

def cells (s : SectorAround) : List Int2 := s.around.toList.take s.count

/-- The two loops of `GetUpdateSectorAround`: append to `will` what is among these but not among
those. -/
def pushMissing (these those will : SectorAround) : Option SectorAround :=
  these.cells.foldlM (fun will pos =>
    if those.cells.any (· == pos) then some will else will.push pos) will

@[simp] theorem cells_new : new.cells = [] := rfl

@[simp] theorem cells_clear (s : SectorAround) : s.clear.cells = [] := rfl

/-- As many cells as the count says. -/
theorem length_cells (s : SectorAround) : s.cells.length = s.count := by
  simp [cells, s.count_le]

/-- Below nine cells there is room for one more. -/
theorem push_cells (s : SectorAround) (pos : Int2) (hRoom : s.cells.length < 9) :
    ∃ s', s.push pos = some s' ∧ s'.cells = s.cells ++ [pos] := by
  rw [length_cells] at hRoom
  refine ⟨_, dif_pos hRoom, ?_⟩
  simp [cells, Vector.toList_set, List.take_add_one, hRoom, List.take_set_of_le]

/-- As many positions as there is room for are appended one after the other. -/
theorem foldlM_push (s : SectorAround) (poss : List Int2) (hRoom : s.cells.length + poss.length ≤ 9) :
    ∃ s', poss.foldlM push s = some s' ∧ s'.cells = s.cells ++ poss := by
  induction poss generalizing s with
  | nil => exact ⟨s, rfl, (List.append_nil _).symm⟩
  | cons pos poss ih =>
      rw [List.length_cons] at hRoom
      obtain ⟨pushed, hPush, hPushed⟩ := s.push_cells pos (by omega)
      have hLength : pushed.cells.length = s.cells.length + 1 := by rw [hPushed, List.length_append]; rfl
      obtain ⟨s', hFold, hCells⟩ := ih pushed (by omega)
      refine ⟨s', ?_, ?_⟩
      · rw [List.foldlM_cons, hPush]
        exact hFold
      · rw [hCells, hPushed, List.append_assoc]
        rfl

/-- The loop over one neighbourhood keeps the cells that are not in the other. -/
theorem pushMissing_cells (these those will : SectorAround) (hEmpty : will.cells = []) :
    ∃ s, these.pushMissing those will = some s ∧
      s.cells = these.cells.filter fun pos => !those.cells.any (· == pos) := by
  have hLength : these.cells.length ≤ 9 := by
    rw [length_cells]
    exact these.count_le
  have hFewer := List.length_filter_le (fun pos => !those.cells.any (· == pos)) these.cells
  obtain ⟨s, hFold, hCells⟩ := will.foldlM_push
    (these.cells.filter fun pos => !those.cells.any (· == pos)) (by rw [hEmpty]; simp; omega)
  refine ⟨s, ?_, by rw [hCells, hEmpty, List.nil_append]⟩
  rw [List.foldlM_filter] at hFold
  rw [← hFold, pushMissing]
  congr 1
  funext will pos
  cases those.cells.any (· == pos) <;> rfl

end SectorAround

namespace SectorManager

/-- `for (int32_t i = center - 1; i <= center + 1; ++i)`. The last `++i` has to fit as well. -/
def forAround {State : Type} (center : Int) (body : State → Int → Option State) (s : State) : Option State :=
  if FitsInt32 (center - 1) ∧ FitsInt32 (center + 2) then
    [center - 1, center, center + 1].foldlM body s
  else none

variable {User : Type} (m : SectorManager User)

/-- The sectors are appended to what is in use of `sectorAround`. -/
def getSectorAround (sectorX sectorY : Int) (sectorAround : SectorAround) : Option SectorAround :=
  forAround sectorY (fun sectorAround y =>
    if 0 ≤ y ∧ y < m.mHeight then
      forAround sectorX (fun sectorAround x =>
        if 0 ≤ x ∧ x < m.mWidth then sectorAround.push ⟨x, y⟩ else some sectorAround) sectorAround
    else some sectorAround) sectorAround

def getUpdateSectorAround (user : User) (willRemoveSector willAddSector : SectorAround) :
    Option (SectorAround × SectorAround) := do
  let willRemoveSector := willRemoveSector.clear
  let willAddSector := willAddSector.clear
  let oldSectorPos := (m.users user).oldSectorPos
  let curSectorPos := (m.users user).curSectorPos
  let oldSectorAround ← m.getSectorAround oldSectorPos.X oldSectorPos.Y .new
  let curSectorAround ← m.getSectorAround curSectorPos.X curSectorPos.Y .new
  let willRemoveSector ← oldSectorAround.pushMissing curSectorAround willRemoveSector
  let willAddSector ← curSectorAround.pushMissing oldSectorAround willAddSector
  some (willRemoveSector, willAddSector)

/-- The cells of the grid around a position, row by row. -/
def neighbourhood (pos : Int2) : List Int2 :=
  ([pos.Y - 1, pos.Y, pos.Y + 1].filter fun y => 0 ≤ y ∧ y < m.mHeight).flatMap fun y =>
    ([pos.X - 1, pos.X, pos.X + 1].filter fun x => 0 ≤ x ∧ x < m.mWidth).map fun x => ⟨x, y⟩

/-- A cell of the grid at most one column and one row away. -/
def Near (pos cell : Int2) : Prop :=
  m.Inside cell ∧ (cell.X - pos.X).natAbs ≤ 1 ∧ (cell.Y - pos.Y).natAbs ≤ 1

/-- The loops around the position do not overflow. -/
def ClearOfLimits (pos : Int2) : Prop :=
  (FitsInt32 (pos.X - 1) ∧ FitsInt32 (pos.X + 2)) ∧ FitsInt32 (pos.Y - 1) ∧ FitsInt32 (pos.Y + 2)

instance (pos : Int2) : Decidable (ClearOfLimits pos) := inferInstanceAs (Decidable (_ ∧ _))

variable {m} {pos cell : Int2}

/-- Steps that are made only where a test holds are steps along the filtered list. -/
theorem foldlM_ite {State Item : Type} (test : Item → Prop) [DecidablePred test]
    (body : State → Item → Option State) (items : List Item) (s : State) :
    items.foldlM (fun s item => if test item then body s item else some s) s =
      (items.filter fun item => test item).foldlM body s := by
  rw [List.foldlM_filter]
  congr 1
  funext s item
  by_cases hTest : test item <;> simp [hTest]

/-- Rows and columns are gone through in this order. -/
theorem foldlM_rows (rows columns : List Int) (s : SectorAround) :
    rows.foldlM (fun s y => (columns.map fun x => Int2.mk x y).foldlM SectorAround.push s) s =
      (rows.flatMap fun y => columns.map fun x => Int2.mk x y).foldlM SectorAround.push s := by
  induction rows generalizing s with
  | nil => rfl
  | cons y rows ih =>
      rw [List.flatMap_cons, List.foldlM_append, List.foldlM_cons]
      congr 1
      funext s'
      exact ih s'

/-- A neighbourhood has nine cells at most. -/
theorem length_neighbourhood (m : SectorManager User) (pos : Int2) : (m.neighbourhood pos).length ≤ 9 := by
  have hRows := List.length_filter_le (fun y : Int => decide (0 ≤ y ∧ y < m.mHeight))
    [pos.Y - 1, pos.Y, pos.Y + 1]
  have hColumns := List.length_filter_le (fun x : Int => decide (0 ≤ x ∧ x < m.mWidth))
    [pos.X - 1, pos.X, pos.X + 1]
  simp only [neighbourhood, List.length_flatMap, List.length_map, List.map_const',
    List.sum_replicate_nat]
  exact Nat.mul_le_mul hRows hColumns

/-- Three neighbouring coordinates differ. -/
theorem nodup_around (center : Int) : [center - 1, center, center + 1].Nodup := by
  simp
  omega

/-- So no cell is in a neighbourhood twice. -/
theorem nodup_neighbourhood (m : SectorManager User) (pos : Int2) : (m.neighbourhood pos).Nodup := by
  rw [neighbourhood, List.nodup_flatMap]
  constructor
  · intro y _
    exact ((nodup_around pos.X).filter _).map fun x x' hSame => congrArg Int2.X hSame
  · apply ((nodup_around pos.Y).filter _).imp
    intro y y' hRows cell hMem hMem'
    obtain ⟨x, -, rfl⟩ := List.mem_map.mp hMem
    obtain ⟨x', -, hSame⟩ := List.mem_map.mp hMem'
    exact hRows (congrArg Int2.Y hSame).symm

/-- The cells of a neighbourhood are those of the grid that are near. -/
theorem mem_neighbourhood : cell ∈ m.neighbourhood pos ↔ m.Near pos cell := by
  obtain ⟨x, y⟩ := cell
  simp only [neighbourhood, Near, Inside, List.mem_flatMap, List.mem_filter, List.mem_map,
    List.mem_cons, List.not_mem_nil, or_false, decide_eq_true_eq, Int2.mk.injEq]
  constructor
  · rintro ⟨y', ⟨hRow, hHeight⟩, x', ⟨hColumn, hWidth⟩, rfl, rfl⟩
    omega
  · rintro ⟨⟨hX, hWidth, hY, hHeight⟩, hColumn, hRow⟩
    exact ⟨y, ⟨by omega, hY, hHeight⟩, x, ⟨by omega, hX, hWidth⟩, rfl, rfl⟩

/-- Where the loops do not overflow they collect the cells around. -/
theorem getSectorAround_of_clear (m : SectorManager User) (h : ClearOfLimits pos) :
    ∃ s, m.getSectorAround pos.X pos.Y .new = some s ∧ s.cells = m.neighbourhood pos := by
  obtain ⟨s, hFold, hCells⟩ := SectorAround.new.foldlM_push (m.neighbourhood pos) (by
    have hLength := m.length_neighbourhood pos
    simpa using hLength)
  refine ⟨s, ?_, hCells⟩
  rw [← hFold, getSectorAround, forAround, if_pos h.2, foldlM_ite, neighbourhood, ← foldlM_rows]
  congr 1
  funext s' y
  rw [forAround, if_pos h.1, foldlM_ite, List.foldlM_map]

/-- A cell of the grid is near itself. -/
theorem near_self (h : m.Inside pos) : m.Near pos pos := ⟨h, by simp, by simp⟩

/-- `GetSectorAround` does not overflow, or has nothing to add. -/
theorem clear_or_empty_of_getSectorAround {s s' : SectorAround}
    (h : m.getSectorAround pos.X pos.Y s = some s') :
    ClearOfLimits pos ∨ s' = s ∧ m.neighbourhood pos = [] := by
  rw [getSectorAround, forAround, Option.ite_none_right_eq_some] at h
  obtain ⟨hRows, hFold⟩ := h
  by_cases hColumns : FitsInt32 (pos.X - 1) ∧ FitsInt32 (pos.X + 2)
  · exact .inl ⟨hColumns, hRows⟩
  · rw [foldlM_ite] at hFold
    rw [neighbourhood]
    cases hFilter : [pos.Y - 1, pos.Y, pos.Y + 1].filter fun y : Int => decide (0 ≤ y ∧ y < m.mHeight) with
    | nil =>
        rw [hFilter] at hFold
        cases hFold
        exact .inr ⟨rfl, rfl⟩
    | cons y rows =>
        rw [hFilter, List.foldlM_cons, forAround, if_neg hColumns] at hFold
        cases hFold

/-- What it collects is the neighbourhood. -/
theorem cells_of_getSectorAround {x y : Int} {s : SectorAround} (h : m.getSectorAround x y .new = some s) :
    s.cells = m.neighbourhood ⟨x, y⟩ := by
  have hAround : m.getSectorAround (Int2.mk x y).X (Int2.mk x y).Y .new = some s := h
  rcases clear_or_empty_of_getSectorAround hAround with hClear | ⟨rfl, hEmpty⟩
  · obtain ⟨s', hAround, hCells⟩ := m.getSectorAround_of_clear hClear
    cases hAround.symm.trans h
    exact hCells
  · exact hEmpty.symm

/-- A cell of the grid has sectors around exactly if the loops do not overflow. -/
theorem Inside.getSectorAround_iff (h : m.Inside pos) :
    (∃ s, m.getSectorAround pos.X pos.Y .new = some s) ↔ ClearOfLimits pos := by
  constructor
  · rintro ⟨s, hAround⟩
    rcases clear_or_empty_of_getSectorAround hAround with hClear | ⟨_, hEmpty⟩
    · exact hClear
    · have hMem : pos ∈ m.neighbourhood pos := mem_neighbourhood.mpr (near_self h)
      rw [hEmpty] at hMem
      cases hMem
  · intro hClear
    obtain ⟨s, hAround, _⟩ := m.getSectorAround_of_clear hClear
    exact ⟨s, hAround⟩

section Address

variable (m) (pos)

/-- The asserts of `GetSectorUsersInSector`. -/
def PassesChecks : Prop := 0 ≤ pos.X ∧ 0 ≤ pos.X ∧ pos.X < m.mHeight ∧ pos.Y < m.mWidth

/-- A cell of the grid passes the checks and has a list of its own; whatever passes them has a list;
what `GetSectorAround` gives passes them. -/
structure Addressed : Prop where
  accepted : m.Inside pos → m.PassesChecks pos
  listed : m.Inside pos ∨ m.PassesChecks pos →
    ∃ i : Nat, m.sectorIndex pos = some i ∧ (i : Int) < m.mWidth * m.mHeight
  apart : m.Inside pos → ∀ other i, m.Inside other → m.sectorIndex pos = some i →
    m.sectorIndex other = some i → pos = other
  around : ∀ x y s, m.getSectorAround x y .new = some s → pos ∈ s.cells → m.PassesChecks pos

/-- A cell of the grid lies within the swapped bounds, and a position that passes the checks has a
row-major index that is in the array and fits an `int32_t`. -/
structure Addressable : Prop where
  swapped : m.Inside pos → pos.X < m.mHeight ∧ pos.Y < m.mWidth
  index : m.PassesChecks pos → 0 ≤ pos.Y * m.mWidth + pos.X ∧
    pos.Y * m.mWidth + pos.X < m.mWidth * m.mHeight ∧ pos.Y * m.mWidth + pos.X < 2 ^ 31

variable {m} {pos}

/-- An index that is computed lies within the lists. -/
theorem sectorIndex_lt {i : Nat} (h : m.sectorIndex pos = some i) : (i : Int) < m.mWidth * m.mHeight := by
  rw [sectorIndex, Option.ite_none_right_eq_some, Option.some.injEq] at h
  omega

/-- For cells of the grid the swapped bounds are what is left of the check. -/
theorem passesChecks_iff_of_inside (h : m.Inside pos) :
    m.PassesChecks pos ↔ pos.X < m.mHeight ∧ pos.Y < m.mWidth := by
  have hX := h.1
  simp [PassesChecks, hX]

/-- What passes the checks has a list exactly if its index is in the array and fits. -/
theorem PassesChecks.sectorIndex_iff (h : m.PassesChecks pos) (hHeight : FitsInt32 m.mHeight) :
    (∃ i, m.sectorIndex pos = some i) ↔ 0 ≤ pos.Y * m.mWidth + pos.X ∧
      pos.Y * m.mWidth + pos.X < m.mWidth * m.mHeight ∧ pos.Y * m.mWidth + pos.X < 2 ^ 31 := by
  obtain ⟨hX, -, hBelow, -⟩ := h
  have hLess := hHeight.2
  rw [sectorIndex]
  constructor
  · rintro ⟨i, hSome⟩
    rw [Option.ite_none_right_eq_some] at hSome
    obtain ⟨⟨_, hFits, hNonneg, hIndex⟩, _⟩ := hSome
    exact ⟨hNonneg, hIndex, hFits.2⟩
  · rintro ⟨hNonneg, hIndex, hSmall⟩
    rw [if_pos ⟨⟨by omega, by omega⟩, ⟨by omega, hSmall⟩, hNonneg, hIndex⟩]
    exact ⟨_, rfl⟩

/-- A height that fits an `int` makes the checked condition the one that the lookup needs. -/
theorem addressed_iff_addressable (hHeight : FitsInt32 m.mHeight) :
    m.Addressed pos ↔ m.Addressable pos := by
  constructor
  · intro h
    constructor
    · exact fun hInside => (passesChecks_iff_of_inside hInside).mp (h.accepted hInside)
    · intro hPasses
      obtain ⟨i, hIndex, _⟩ := h.listed (.inr hPasses)
      exact (hPasses.sectorIndex_iff hHeight).mp ⟨i, hIndex⟩
  · intro h
    have hAccepted : m.Inside pos → m.PassesChecks pos :=
      fun hInside => (passesChecks_iff_of_inside hInside).mpr (h.swapped hInside)
    refine ⟨hAccepted, ?_, ?_, ?_⟩
    · intro hEither
      have hPasses : m.PassesChecks pos := hEither.elim hAccepted id
      obtain ⟨i, hIndex⟩ := (hPasses.sectorIndex_iff hHeight).mpr (h.index hPasses)
      exact ⟨i, hIndex, sectorIndex_lt hIndex⟩
    · exact fun hInside other i hOther hIndex hIndex' => sectorIndex_injective hInside hOther hIndex hIndex'
    · intro x y s hAround hMem
      rw [cells_of_getSectorAround hAround, mem_neighbourhood] at hMem
      exact hAccepted hMem.1

/-- No grid addresses all positions: the one above the first cell passes the checks. -/
theorem not_addressed (hWidth : 0 < m.mWidth) (hHeight : 0 < m.mHeight) (hFits : FitsInt32 m.mHeight) :
    ¬ m.Addressed ⟨0, -1⟩ := by
  intro h
  have hIndex := ((addressed_iff_addressable hFits).mp h).index ⟨by simp, by simp, hHeight, by simp; omega⟩
  simp at hIndex
  omega

/-- The cells of the grid are all addressed in the square grids whose last index fits. -/
theorem addressed_inside_iff (hWidth : 0 < m.mWidth) (hHeight : 0 < m.mHeight) (hFits : FitsInt32 m.mHeight) :
    (∀ pos, m.Inside pos → m.Addressed pos) ↔
      m.mWidth = m.mHeight ∧ m.mWidth * m.mHeight ≤ 2 ^ 31 := by
  simp only [addressed_iff_addressable hFits]
  constructor
  · intro h
    have hSquare : m.mWidth = m.mHeight := by
      by_contra hOther
      rcases Int.lt_or_gt_of_ne hOther with hTall | hWide
      · have hInside : m.Inside ⟨0, m.mWidth⟩ := ⟨by simp, hWidth, Int.le_of_lt hWidth, hTall⟩
        exact absurd ((h _ hInside).swapped hInside).2 (Int.lt_irrefl _)
      · have hInside : m.Inside ⟨m.mHeight, 0⟩ := ⟨Int.le_of_lt hHeight, hWide, by simp, hHeight⟩
        exact absurd ((h _ hInside).swapped hInside).1 (Int.lt_irrefl _)
    have hLast : m.Inside ⟨m.mWidth - 1, m.mHeight - 1⟩ := by
      simp only [Inside]
      omega
    have hPasses := (passesChecks_iff_of_inside hLast).mpr ((h _ hLast).swapped hLast)
    obtain ⟨_, _, hSmall⟩ := (h _ hLast).index hPasses
    refine ⟨hSquare, ?_⟩
    have hIndex : (m.mHeight - 1) * m.mWidth + (m.mWidth - 1) = m.mWidth * m.mHeight - 1 := by ring
    simp only [hIndex] at hSmall
    omega
  · rintro ⟨hSquare, hArea⟩ pos hInside
    have hIndex := hInside.index
    obtain ⟨hX, hColumn, hY, hRow⟩ := hInside
    exact ⟨fun _ => ⟨by omega, by omega⟩, fun _ => ⟨by omega, hIndex.2, by omega⟩⟩

/-- A position is addressed exactly if it is addressable; the cells of a grid all are exactly if it
is square and its last index fits; all positions never are. -/
theorem addressing_iff (m : SectorManager User) (hWidth : 0 < m.mWidth) (hHeight : 0 < m.mHeight)
    (hFits : FitsInt32 m.mHeight) :
    (∀ pos, m.Addressed pos ↔ m.Addressable pos) ∧
      ((∀ pos, m.Inside pos → m.Addressed pos) ↔
        m.mWidth = m.mHeight ∧ m.mWidth * m.mHeight ≤ 2 ^ 31) ∧
      ¬ ∀ pos, m.Addressed pos :=
  ⟨fun _ => addressed_iff_addressable hFits, addressed_inside_iff hWidth hHeight hFits,
    fun hAll => not_addressed hWidth hHeight hFits (hAll _)⟩

private def emptyGrid (width height : Int) : SectorManager Unit :=
  ⟨width, height, fun _ => [], fun _ => ⟨0, 0, ⟨0, 0⟩, ⟨0, 0⟩⟩⟩

/-- The last cell of a square grid. -/
theorem addressing_iff_square : (emptyGrid 50 50).Addressed ⟨49, 49⟩ :=
  (addressing_iff (emptyGrid 50 50) (by decide) (by decide) (by decide)).2.1.mpr (by decide) _ (by decide)

/-- The last cell of the first row of a grid of 3 by 2 fails a check. -/
theorem not_addressed_of_wide : ¬ ∀ (m : SectorManager Unit) (pos : Int2), 0 < m.mWidth → 0 < m.mHeight →
    FitsInt32 m.mWidth → FitsInt32 m.mHeight → m.Addressed pos := by
  intro hAll
  have hPasses := (hAll (emptyGrid 3 2) ⟨2, 0⟩ (by decide) (by decide) (by decide) (by decide)).accepted
    (by decide)
  exact absurd hPasses.2.2.1 (by decide)

end Address

end SectorManager

end NfNetwork.Net
