import Mathlib.Order.BooleanAlgebra.Set
import NfNetwork.Net.SectorAround

/-! A client sees the sectors around its user. When the user moves it is told which sectors to drop
and which to add, and that keeps what it sees right along any walk, on the grid or off it. -/
namespace NfNetwork.Net

open Machinery

namespace SectorManager

variable {User : Type} {m m' : SectorManager User} {user : User} {old cur : Int2}

/-- The sectors in sight of a position. -/
def inSight (m : SectorManager User) (pos : Int2) : Set Int2 := {cell | m.Near pos cell}

def viewOf (cells : List Int2) : Set Int2 := {cell | cell ∈ cells}

/-- The lists tell what changes in sight between two positions, each sector once. -/
structure TellsChange (m : SectorManager User) (old cur : Int2) (willRemove willAdd : SectorAround) :
    Prop where
  removeNodup : willRemove.cells.Nodup
  addNodup : willAdd.cells.Nodup
  removeLength : willRemove.cells.length ≤ 9
  addLength : willAdd.cells.length ≤ 9
  remove : ∀ cell, cell ∈ willRemove.cells ↔ m.Near old cell ∧ ¬ m.Near cur cell
  add : ∀ cell, cell ∈ willAdd.cells ↔ m.Near cur cell ∧ ¬ m.Near old cell
  rebuilds : ∀ cell, (m.Near old cell ∧ cell ∉ willRemove.cells) ∨ cell ∈ willAdd.cells ↔ m.Near cur cell

theorem mem_missing {these those : SectorAround} (hThese : these.cells = m.neighbourhood old)
    (hThose : those.cells = m.neighbourhood cur) (cell : Int2) :
    (cell ∈ these.cells.filter fun pos => !those.cells.any (· == pos)) ↔
      m.Near old cell ∧ ¬ m.Near cur cell := by
  have hFound : (m.neighbourhood cur).any (· == cell) = decide (cell ∈ m.neighbourhood cur) := by
    rw [Bool.eq_iff_iff]
    simp
  rw [hThese, hThose, ← mem_neighbourhood, ← mem_neighbourhood, List.mem_filter, hFound]
  simp

theorem getUpdateSectorAround_tells (m : SectorManager User) (user : User)
    (hOld : ClearOfLimits (m.users user).oldSectorPos) (hCur : ClearOfLimits (m.users user).curSectorPos)
    (willRemoveSector willAddSector : SectorAround) :
    ∃ willRemove willAdd,
      m.getUpdateSectorAround user willRemoveSector willAddSector = some (willRemove, willAdd) ∧
      m.TellsChange (m.users user).oldSectorPos (m.users user).curSectorPos willRemove willAdd := by
  obtain ⟨oldAround, hOldAround, hOldCells⟩ := m.getSectorAround_of_clear hOld
  obtain ⟨curAround, hCurAround, hCurCells⟩ := m.getSectorAround_of_clear hCur
  obtain ⟨willRemove, hRemove, hRemoveCells⟩ :=
    oldAround.pushMissing_cells curAround willRemoveSector.clear (by simp)
  obtain ⟨willAdd, hAdd, hAddCells⟩ :=
    curAround.pushMissing_cells oldAround willAddSector.clear (by simp)
  have hMemRemove := mem_missing hOldCells hCurCells
  have hMemAdd := mem_missing hCurCells hOldCells
  rw [← hRemoveCells] at hMemRemove
  rw [← hAddCells] at hMemAdd
  refine ⟨willRemove, willAdd, ?_, ?_⟩
  · simp [getUpdateSectorAround, hOldAround, hCurAround, hRemove, hAdd]
  · refine ⟨?_, ?_, ?_, ?_, hMemRemove, hMemAdd, ?_⟩
    · rw [hRemoveCells, hOldCells]
      exact (m.nodup_neighbourhood _).filter _
    · rw [hAddCells, hCurCells]
      exact (m.nodup_neighbourhood _).filter _
    · rw [SectorAround.length_cells]
      exact willRemove.count_le
    · rw [SectorAround.length_cells]
      exact willAdd.count_le
    · intro cell
      rw [hMemRemove, hMemAdd]
      tauto

/-- The lists are the difference of the two views. -/
theorem TellsChange.between {willRemove willAdd : SectorAround} (h : m.TellsChange old cur willRemove willAdd) :
    (⟨viewOf willRemove.cells, viewOf willAdd.cells⟩ : Delta (Set Int2)) =
      Delta.between (m.inSight old) (m.inSight cur) := by
  rw [Delta.between, Delta.mk.injEq]
  constructor
  · ext cell
    exact h.remove cell
  · ext cell
    exact h.add cell

/-- The user moves: `SetOldSectorPos` of where it was, `SetCurSectorPos` of where it goes. -/
def moved [DecidableEq User] (m : SectorManager User) (user : User) (next : Int2) : SectorManager User :=
  { m with users := Function.update m.users user { m.users user with
      oldSectorPos := (m.users user).curSectorPos
      curSectorPos := next } }

end SectorManager

/-- A client and the manager of its user. -/
structure SectorClient (User : Type) where
  manager : SectorManager User
  seen : List Int2

inductive SectorMove where
  | move (next : Int2)
  /-- The difference is asked for again. -/
  | stay

namespace SectorClient

variable {User : Type} [DecidableEq User] {s s' : SectorClient User} {user : User}

omit [DecidableEq User] in
def position (s : SectorClient User) (user : User) : Int2 := (s.manager.users user).curSectorPos

omit [DecidableEq User] in
/-- The client drops what it is told to drop and adds what it is told to add. -/
def told (s : SectorClient User) (user : User) : Option (SectorClient User) := do
  let (willRemove, willAdd) ← s.manager.getUpdateSectorAround user .new .new
  some { s with seen := s.seen.filter (fun cell => cell ∉ willRemove.cells) ++ willAdd.cells }

def step (user : User) (s : SectorClient User) : SectorMove → Option (SectorClient User)
  | .move next => { s with manager := s.manager.moved user next }.told user
  | .stay => s.told user

/-- The client sees the sectors around its user. -/
structure SeesAround (s : SectorClient User) (user : User) : Prop where
  old : SectorManager.ClearOfLimits (s.manager.users user).oldSectorPos
  cur : SectorManager.ClearOfLimits (s.position user)
  seen : SectorManager.viewOf s.seen = s.manager.inSight (s.position user)

/-- A move stays clear of the limits of `int32_t`. -/
def Allowed : SectorMove → Prop
  | .move next => SectorManager.ClearOfLimits next
  | .stay => True

instance : DecidablePred Allowed
  | .move next => inferInstanceAs (Decidable (SectorManager.ClearOfLimits next))
  | .stay => inferInstanceAs (Decidable True)

omit [DecidableEq User] in
/-- What the client is told replaces the view of the old position, or the current one, by the
current one. -/
theorem told_seesAround (hOld : SectorManager.ClearOfLimits (s.manager.users user).oldSectorPos)
    (hCur : SectorManager.ClearOfLimits (s.position user))
    (hSeen : SectorManager.viewOf s.seen = s.manager.inSight (s.manager.users user).oldSectorPos ∨
      SectorManager.viewOf s.seen = s.manager.inSight (s.position user)) :
    ∃ s', s.told user = some s' ∧ s'.SeesAround user := by
  obtain ⟨willRemove, willAdd, hTold, hTells⟩ :=
    s.manager.getUpdateSectorAround_tells user hOld hCur .new .new
  refine ⟨{ s with seen := s.seen.filter (fun cell => cell ∉ willRemove.cells) ++ willAdd.cells },
    by rw [told, hTold]; rfl, ⟨hOld, hCur, ?_⟩⟩
  calc SectorManager.viewOf (s.seen.filter (fun cell => cell ∉ willRemove.cells) ++ willAdd.cells)
      = Delta.apply (SectorManager.viewOf s.seen)
          ⟨SectorManager.viewOf willRemove.cells, SectorManager.viewOf willAdd.cells⟩ := by
        ext cell
        simp [SectorManager.viewOf, Delta.apply]
    _ = s.manager.inSight (s.position user) := by
        rw [hTells.between]
        rcases hSeen with hSeen | hSeen
        · rw [hSeen]
          exact Delta.apply_between _ _
        · rw [hSeen]
          exact Delta.apply_between_again _ _

theorem step_seesAround (h : s.SeesAround user) {move : SectorMove} (hAllowed : Allowed move) :
    ∃ s', step user s move = some s' ∧ s'.SeesAround user := by
  cases move with
  | move next =>
      have hSelf : (s.manager.moved user next).users user =
          { s.manager.users user with
            oldSectorPos := (s.manager.users user).curSectorPos
            curSectorPos := next } := Function.update_self ..
      let gone : SectorClient User := { s with manager := s.manager.moved user next }
      have hOld : SectorManager.ClearOfLimits (gone.manager.users user).oldSectorPos := by
        rw [hSelf]
        exact h.cur
      have hCur : SectorManager.ClearOfLimits (gone.position user) := by
        rw [position, hSelf]
        exact hAllowed
      have hSeen : SectorManager.viewOf gone.seen =
          gone.manager.inSight (gone.manager.users user).oldSectorPos := by
        rw [hSelf]
        exact h.seen
      exact told_seesAround hOld hCur (.inl hSeen)
  | stay =>
      exact told_seesAround h.old h.cur (.inr h.seen)

/-- A client that starts with the sectors around its user sees them after any moves. -/
theorem exec_seesAround (h : s.SeesAround user) (moves : List SectorMove)
    (hAllowed : ∀ move ∈ moves, Allowed move) :
    ∃ s', exec (step user) s moves = some s' ∧ s'.SeesAround user := by
  induction moves generalizing s with
  | nil => exact ⟨s, rfl, h⟩
  | cons move moves ih =>
      obtain ⟨next, hStep, hSees⟩ := step_seesAround h (hAllowed move List.mem_cons_self)
      obtain ⟨s', hRun, hSees'⟩ := ih hSees fun other hMem => hAllowed other (List.mem_cons_of_mem _ hMem)
      exact ⟨s', by rw [exec, hStep]; exact hRun, hSees'⟩

/-- The lists tell exactly what changes between the two positions of the user, and a client that
applies them after every move sees the sectors around its user after any sequence of moves. -/
theorem updateSectorAround_tells (m : SectorManager User) (user : User)
    (hOld : SectorManager.ClearOfLimits (m.users user).oldSectorPos)
    (hCur : SectorManager.ClearOfLimits (m.users user).curSectorPos) :
    (∀ willRemoveSector willAddSector, ∃ willRemove willAdd,
      m.getUpdateSectorAround user willRemoveSector willAddSector = some (willRemove, willAdd) ∧
      m.TellsChange (m.users user).oldSectorPos (m.users user).curSectorPos willRemove willAdd) ∧
    ∀ (seen : List Int2) (moves : List SectorMove), (∀ cell, cell ∈ seen ↔ m.Near (m.users user).curSectorPos cell) →
      (∀ move ∈ moves, Allowed move) → ∃ s, exec (step user) ⟨m, seen⟩ moves = some s ∧
        ∀ cell, cell ∈ s.seen ↔ s.manager.Near (s.position user) cell := by
  constructor
  · exact m.getUpdateSectorAround_tells user hOld hCur
  · intro seen moves hSeen hAllowed
    have hStart : (⟨m, seen⟩ : SectorClient User).SeesAround user := ⟨hOld, hCur, Set.ext hSeen⟩
    obtain ⟨s, hRun, hSees⟩ := exec_seesAround hStart moves hAllowed
    exact ⟨s, hRun, fun cell => Set.ext_iff.mp hSees.seen cell⟩

/-- A user of a grid one column wide jumps along it and off it. -/
theorem updateSectorAround_tells_jumps : ∃ s : SectorClient Unit,
    exec (step ()) ⟨⟨1, 9, fun _ => [], fun _ => ⟨0, 0, ⟨0, 0⟩, ⟨0, 0⟩⟩⟩, [⟨0, 0⟩, ⟨0, 1⟩]⟩
      [.move ⟨0, 7⟩, .stay, .move ⟨0, 6⟩, .move ⟨-5, 6⟩] = some s ∧
    ∀ cell, cell ∈ s.seen ↔ s.manager.Near (s.position ()) cell := by
  refine (updateSectorAround_tells ⟨1, 9, fun _ => [], fun _ => ⟨0, 0, ⟨0, 0⟩, ⟨0, 0⟩⟩⟩ () (by decide)
    (by decide)).2 _ _ ?_ ?_
  · intro cell
    rw [← SectorManager.mem_neighbourhood]
    exact Iff.rfl
  · simp only [List.mem_cons, List.not_mem_nil, or_false]
    rintro move (rfl | rfl | rfl | rfl) <;> decide

end SectorClient

end NfNetwork.Net
