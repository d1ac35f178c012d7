import NfNetwork.Machinery.Transition
import Mathlib.Data.List.Count
import Mathlib.Logic.Function.Basic
import Mathlib.Tactic.Linarith

/-! `SectorManager` of the server library: a grid of user lists, and the position each user keeps of
the list that it is in. The index into the grid is an `int32_t`, so a grid of more than `2^31` cells
has cells that no position reaches. -/
namespace NfNetwork.Net

open Machinery

/-- `int2`. -/
structure Int2 where
  X : Int
  Y : Int
deriving DecidableEq

/-- What an `ISectorUser` answers. -/
structure SectorUser where
  x : Int
  y : Int
  curSectorPos : Int2
  oldSectorPos : Int2

/-- The manager, and the users that its pointers lead to. -/
structure SectorManager (User : Type) where
  mWidth : Int
  mHeight : Int
  mSector : Nat → List User
  users : User → SectorUser

namespace SectorManager

variable {User : Type} (m : SectorManager User)

def getNowSectorPosFromSectorUser (user : User) : Int2 :=
  ⟨(m.users user).x.tdiv m.mWidth, (m.users user).y.tdiv m.mHeight⟩

/-- The result of an `int32_t` operation that does not overflow. -/
def FitsInt32 (value : Int) : Prop := -2 ^ 31 ≤ value ∧ value < 2 ^ 31

instance (value : Int) : Decidable (FitsInt32 value) := inferInstanceAs (Decidable (_ ∧ _))

/-- The index that `GetSectorUsersInSector` uses. An overflow, or an index outside the array, is
undefined. -/
def sectorIndex (pos : Int2) : Option Nat :=
  if FitsInt32 (pos.Y * m.mWidth) ∧ FitsInt32 (pos.Y * m.mWidth + pos.X) ∧
      0 ≤ pos.Y * m.mWidth + pos.X ∧ pos.Y * m.mWidth + pos.X < m.mWidth * m.mHeight then
    some (pos.Y * m.mWidth + pos.X).toNat
  else none

variable [DecidableEq User]

def addSectorUser (user : User) : Option (SectorManager User) := do
  let nowSectorPos := m.getNowSectorPosFromSectorUser user
  let i ← m.sectorIndex nowSectorPos
  some { m with
    mSector := Function.update m.mSector i (m.mSector i ++ [user])
    users := Function.update m.users user { m.users user with curSectorPos := nowSectorPos } }

/-- An `erase` of `end()` is undefined. -/
def delSectorUser (user : User) : Option (SectorManager User) := do
  let curSectorPos := (m.users user).curSectorPos
  let i ← m.sectorIndex curSectorPos
  if user ∈ m.mSector i then
    some { m with
      mSector := Function.update m.mSector i ((m.mSector i).erase user)
      users := Function.update m.users user { m.users user with oldSectorPos := curSectorPos } }
  else none

def updateSectorUser (user : User) : Option (Bool × SectorManager User) :=
  if m.getNowSectorPosFromSectorUser user = (m.users user).curSectorPos then some (false, m)
  else do
    let m ← m.delSectorUser user
    let m ← m.addSectorUser user
    some (true, m)

omit [DecidableEq User] in
/-- The position is one of the grid. -/
def Inside (pos : Int2) : Prop := 0 ≤ pos.X ∧ pos.X < m.mWidth ∧ 0 ≤ pos.Y ∧ pos.Y < m.mHeight

omit [DecidableEq User] in
instance (pos : Int2) : Decidable (m.Inside pos) := inferInstanceAs (Decidable (_ ∧ _))

/-- Each user that is present is once in the list at its position and in no other; who is not
present is in none. -/
structure Membership (m : SectorManager User) (present : User → Bool) : Prop where
  inside : ∀ user, present user = true → m.Inside (m.users user).curSectorPos
  placed : ∀ user, present user = true → ∃ i, m.sectorIndex (m.users user).curSectorPos = some i
  count : ∀ user i, (m.mSector i).count user =
    if present user = true ∧ m.sectorIndex (m.users user).curSectorPos = some i then 1 else 0

end SectorManager

inductive SectorOp (User : Type) where
  | addSectorUser (user : User)
  | delSectorUser (user : User)
  | updateSectorUser (user : User)
  /-- The user moves; the manager is not told. -/
  | place (user : User) (x y : Int)

/-- A manager in use, and who is present. -/
structure SectorRun (User : Type) where
  manager : SectorManager User
  present : User → Bool

namespace SectorRun

variable {User : Type} [DecidableEq User]

/-- A grid as constructed, over any users. -/
def new (width height : Int) (users : User → SectorUser) : SectorRun User :=
  ⟨⟨width, height, fun _ => [], users⟩, fun _ => false⟩

def step (s : SectorRun User) : SectorOp User → Option (SectorRun User)
  | .addSectorUser user =>
    (s.manager.addSectorUser user).map fun m => ⟨m, Function.update s.present user true⟩
  | .delSectorUser user =>
    (s.manager.delSectorUser user).map fun m => ⟨m, Function.update s.present user false⟩
  | .updateSectorUser user => (s.manager.updateSectorUser user).map fun r => ⟨r.2, s.present⟩
  | .place user x y =>
    some { s with manager := { s.manager with
      users := Function.update s.manager.users user { s.manager.users user with x := x, y := y } } }

omit [DecidableEq User] in
/-- Absent users are added, present ones updated and deleted, and the sector that is computed is one
of the grid. -/
def Allowed (s : SectorRun User) : SectorOp User → Prop
  | .addSectorUser user => s.present user = false ∧
      s.manager.Inside (s.manager.getNowSectorPosFromSectorUser user)
  | .delSectorUser user => s.present user = true
  | .updateSectorUser user => s.present user = true ∧
      s.manager.Inside (s.manager.getNowSectorPosFromSectorUser user)
  | .place .. => True

omit [DecidableEq User] in
/-- The index of the sector that the call computes fits an `int32_t`. -/
def InRange (s : SectorRun User) : SectorOp User → Prop
  | .addSectorUser user | .updateSectorUser user =>
      (s.manager.getNowSectorPosFromSectorUser user).Y * s.manager.mWidth +
        (s.manager.getNowSectorPosFromSectorUser user).X < 2 ^ 31
  | _ => True

/-- The call ends with every user in its list; an update tells whether the sector changed, and then
the old position is the sector that was left. -/
def Performs (s : SectorRun User) : SectorOp User → Prop
  | .updateSectorUser user => ∃ changed m, s.manager.updateSectorUser user = some (changed, m) ∧
      m.Membership s.present ∧
      (m.users user).curSectorPos = s.manager.getNowSectorPosFromSectorUser user ∧
      (changed = true ↔ (m.users user).curSectorPos ≠ (s.manager.users user).curSectorPos) ∧
      (changed = true → (m.users user).oldSectorPos = (s.manager.users user).curSectorPos)
  | op => ∃ s', s.step op = some s' ∧ s'.manager.Membership s'.present

end SectorRun

namespace SectorManager

variable {User : Type} {m m' : SectorManager User} {pos pos' : Int2} {i : Nat}

theorem Inside.index (h : m.Inside pos) :
    0 ≤ pos.Y * m.mWidth ∧ pos.Y * m.mWidth + pos.X < m.mWidth * m.mHeight := by
  obtain ⟨hX, hWidth, hY, hHeight⟩ := h
  have hRow : 0 ≤ pos.Y * m.mWidth := Int.mul_nonneg hY (by omega)
  refine ⟨hRow, ?_⟩
  calc pos.Y * m.mWidth + pos.X
      < pos.Y * m.mWidth + m.mWidth := by omega
    _ = (pos.Y + 1) * m.mWidth := by rw [Int.add_mul, Int.one_mul]
    _ ≤ m.mHeight * m.mWidth := Int.mul_le_mul_of_nonneg_right (by omega) (by omega)
    _ = m.mWidth * m.mHeight := Int.mul_comm ..

/-- A position of the grid has a list unless its index overflows. -/
theorem Inside.sectorIndex_iff (h : m.Inside pos) :
    (∃ i, m.sectorIndex pos = some i) ↔ pos.Y * m.mWidth + pos.X < 2 ^ 31 := by
  obtain ⟨hRow, hIndex⟩ := h.index
  have hX := h.1
  rw [sectorIndex]
  constructor
  · rintro ⟨i, hSome⟩
    split at hSome
    · rename_i hFits
      exact hFits.2.1.2
    · cases hSome
  · intro hSmall
    rw [if_pos ⟨⟨by omega, by omega⟩, ⟨by omega, hSmall⟩, by omega, hIndex⟩]
    exact ⟨_, rfl⟩

/-- Different positions have different lists. -/
theorem sectorIndex_injective (h : m.Inside pos) (h' : m.Inside pos') (hSome : m.sectorIndex pos = some i)
    (hSome' : m.sectorIndex pos' = some i) : pos = pos' := by
  obtain ⟨hX, hWidth, hY, -⟩ := h
  obtain ⟨hX', hWidth', hY', -⟩ := h'
  have hSame : pos.Y * m.mWidth + pos.X = pos'.Y * m.mWidth + pos'.X := by
    rw [sectorIndex, Option.ite_none_right_eq_some, Option.some.injEq] at hSome hSome'
    omega
  have hRow : pos.Y = pos'.Y := by
    have hDiv := congrArg (· / m.mWidth) hSame
    simp only [Int.add_comm (_ * m.mWidth)] at hDiv
    rwa [Int.add_mul_ediv_right _ _ (by omega), Int.add_mul_ediv_right _ _ (by omega),
      Int.ediv_eq_zero_of_lt hX hWidth, Int.ediv_eq_zero_of_lt hX' hWidth', Int.zero_add,
      Int.zero_add] at hDiv
  obtain ⟨X, Y⟩ := pos
  obtain ⟨X', Y'⟩ := pos'
  dsimp only at hRow hSame
  subst hRow
  rw [Int.add_left_cancel hSame]

variable [DecidableEq User] {present : User → Bool} {user other : User}

/-- Calls that leave a user's current position leave all. -/
theorem curSectorPos_update (m : SectorManager User) (user : User) (after : SectorUser)
    (hAfter : after.curSectorPos = (m.users user).curSectorPos) (other : User) :
    (Function.update m.users user after other).curSectorPos = (m.users other).curSectorPos := by
  by_cases hSame : other = user
  · rw [hSame, Function.update_self, hAfter]
  · rw [Function.update_of_ne hSame]

/-- A present user is in the list at its position. -/
theorem Membership.mem_iff (h : m.Membership present) :
    other ∈ m.mSector i ↔ present other = true ∧ m.sectorIndex (m.users other).curSectorPos = some i := by
  rw [← List.count_pos_iff, h.count]
  split <;> simp_all

theorem Membership.addSectorUser (h : m.Membership present) (hAbsent : present user = false)
    (hInside : m.Inside (m.getNowSectorPosFromSectorUser user))
    (hIndex : m.sectorIndex (m.getNowSectorPosFromSectorUser user) = some i) :
    ∃ m', m.addSectorUser user = some m' ∧ m'.Membership (Function.update present user true) ∧
      m'.users = Function.update m.users user
        { m.users user with curSectorPos := m.getNowSectorPosFromSectorUser user } := by
  refine ⟨_, by rw [SectorManager.addSectorUser, hIndex]; rfl, ⟨?_, ?_, ?_⟩, rfl⟩
  · intro other hPresent
    by_cases hSame : other = user
    · subst hSame
      simpa [Inside] using hInside
    · rw [Function.update_of_ne hSame] at hPresent
      simpa [Inside, hSame] using h.inside other hPresent
  · intro other hPresent
    by_cases hSame : other = user
    · subst hSame
      exact ⟨i, by simpa [sectorIndex] using hIndex⟩
    · rw [Function.update_of_ne hSame] at hPresent
      simpa [sectorIndex, hSame] using h.placed other hPresent
  · intro other j
    have hCount := h.count other j
    show (Function.update m.mSector i (m.mSector i ++ [user]) j).count other =
      if Function.update present user true other = true ∧ m.sectorIndex (Function.update m.users user
        { m.users user with curSectorPos := m.getNowSectorPosFromSectorUser user } other).curSectorPos =
          some j then 1 else 0
    by_cases hSame : other = user
    · subst hSame
      rw [if_neg (by simp [hAbsent])] at hCount
      by_cases hCell : j = i
      · subst hCell
        simp [hCount, hIndex]
      · simp [hCount, hIndex, hCell, Ne.symm hCell]
    · rw [Function.update_of_ne hSame, Function.update_of_ne hSame, ← hCount]
      by_cases hCell : j = i
      · subst hCell
        simp [Ne.symm hSame]
      · rw [Function.update_of_ne hCell]

theorem Membership.delSectorUser (h : m.Membership present) (hPresent : present user = true) :
    ∃ m', m.delSectorUser user = some m' ∧ m'.Membership (Function.update present user false) ∧
      m'.mWidth = m.mWidth ∧ m'.mHeight = m.mHeight ∧
      m'.users = Function.update m.users user
        { m.users user with oldSectorPos := (m.users user).curSectorPos } := by
  obtain ⟨i, hIndex⟩ := h.placed user hPresent
  have hMem : user ∈ m.mSector i := h.mem_iff.mpr ⟨hPresent, hIndex⟩
  let deleted : SectorManager User := { m with
    mSector := Function.update m.mSector i ((m.mSector i).erase user)
    users := Function.update m.users user
      { m.users user with oldSectorPos := (m.users user).curSectorPos } }
  have hStays := m.curSectorPos_update user { m.users user with oldSectorPos := (m.users user).curSectorPos } rfl
  refine ⟨deleted, by simp only [SectorManager.delSectorUser, hIndex, Option.bind_eq_bind,
    Option.bind_some, if_pos hMem, deleted], ⟨?_, ?_, ?_⟩, rfl, rfl, rfl⟩
  · intro other hOther
    have hPresent : present other = true := by
      by_cases hSame : other = user
      · rwa [hSame]
      · rwa [Function.update_of_ne hSame] at hOther
    show m.Inside _
    rw [hStays]
    exact h.inside other hPresent
  · intro other hOther
    have hPresent : present other = true := by
      by_cases hSame : other = user
      · rwa [hSame]
      · rwa [Function.update_of_ne hSame] at hOther
    show ∃ i, m.sectorIndex _ = some i
    rw [hStays]
    exact h.placed other hPresent
  · intro other j
    have hCount := h.count other j
    show (Function.update m.mSector i ((m.mSector i).erase user) j).count other =
      if Function.update present user false other = true ∧ m.sectorIndex (Function.update m.users user
        { m.users user with oldSectorPos := (m.users user).curSectorPos } other).curSectorPos =
          some j then 1 else 0
    by_cases hSame : other = user
    · subst hSame
      rw [hIndex] at hCount
      by_cases hCell : j = i
      · subst hCell
        rw [if_pos ⟨hPresent, rfl⟩] at hCount
        simp [List.count_erase_self, hCount]
      · rw [if_neg (by simp [Ne.symm hCell])] at hCount
        simp [hCount, hCell]
    · rw [Function.update_of_ne hSame, Function.update_of_ne hSame, ← hCount]
      by_cases hCell : j = i
      · subst hCell
        rw [Function.update_self, List.count_erase_of_ne hSame]
      · rw [Function.update_of_ne hCell]

/-- Deleting a user does not change the sector that it stands in. -/
theorem now_of_delSectorUser (hWidth : m'.mWidth = m.mWidth) (hHeight : m'.mHeight = m.mHeight)
    (hUsers : m'.users = Function.update m.users user
      { m.users user with oldSectorPos := (m.users user).curSectorPos }) :
    m'.getNowSectorPosFromSectorUser user = m.getNowSectorPosFromSectorUser user ∧
      ∀ pos, m'.sectorIndex pos = m.sectorIndex pos := by
  refine ⟨?_, fun pos => by rw [sectorIndex, sectorIndex, hWidth, hHeight]⟩
  rw [getNowSectorPosFromSectorUser, getNowSectorPosFromSectorUser, hWidth, hHeight, hUsers,
    Function.update_self]

/-- An update that finds the sector changed deletes the user and adds it again. -/
theorem Membership.updateSectorUser (h : m.Membership present) (hPresent : present user = true)
    (hInside : m.Inside (m.getNowSectorPosFromSectorUser user))
    (hIndex : m.sectorIndex (m.getNowSectorPosFromSectorUser user) = some i)
    (hChanged : m.getNowSectorPosFromSectorUser user ≠ (m.users user).curSectorPos) :
    ∃ m', m.updateSectorUser user = some (true, m') ∧ m'.Membership present ∧
      (m'.users user).curSectorPos = m.getNowSectorPosFromSectorUser user ∧
      (m'.users user).oldSectorPos = (m.users user).curSectorPos := by
  obtain ⟨deleted, hDel, hGone, hWidth, hHeight, hUsers⟩ := h.delSectorUser hPresent
  obtain ⟨hNow, hCells⟩ := now_of_delSectorUser hWidth hHeight hUsers
  obtain ⟨m', hAdd, hBack, hAfter⟩ := hGone.addSectorUser (i := i) (Function.update_self user false present)
    (by rw [hNow, Inside, hWidth, hHeight]; exact hInside) (by rw [hNow, hCells, hIndex])
  rw [Function.update_idem, ← hPresent, Function.update_eq_self] at hBack
  refine ⟨m', ?_, hBack, ?_, ?_⟩
  · rw [SectorManager.updateSectorUser, if_neg hChanged, hDel]
    simp only [Option.bind_eq_bind, Option.bind_some, hAdd]
  · rw [hAfter, Function.update_self]
    exact hNow
  · rw [hAfter, Function.update_self, hUsers, Function.update_self]

/-- Where a user stands does not matter to the lists. -/
theorem Membership.place (h : m.Membership present) (user : User) (x y : Int) :
    ({ m with users := Function.update m.users user { m.users user with x := x, y := y } } :
      SectorManager User).Membership present := by
  have hSame := m.curSectorPos_update user { m.users user with x := x, y := y } rfl
  refine ⟨?_, ?_, ?_⟩
  · intro other hPresent
    simpa [Inside, hSame] using h.inside other hPresent
  · intro other hPresent
    simpa [sectorIndex, hSame] using h.placed other hPresent
  · intro other j
    simpa [sectorIndex, hSame] using h.count other j

end SectorManager

namespace SectorRun

open SectorManager

variable {User : Type} [DecidableEq User] {s s' : SectorRun User} {op : SectorOp User}

/-- A call that has a result computed an index that fits. -/
theorem inRange_of_step (h : s.manager.Membership s.present) (hAllowed : s.Allowed op)
    (hStep : s.step op = some s') : s.InRange op := by
  cases op with
  | addSectorUser user =>
      rw [InRange, ← hAllowed.2.sectorIndex_iff]
      obtain ⟨m', hAdd, -⟩ := Option.map_eq_some_iff.mp hStep
      obtain ⟨i, hIndex, -⟩ := Option.bind_eq_some_iff.mp hAdd
      exact ⟨i, hIndex⟩
  | updateSectorUser user =>
      obtain ⟨hPresent, hInside⟩ := hAllowed
      rw [InRange, ← hInside.sectorIndex_iff]
      obtain ⟨r, hUpdate, -⟩ := Option.map_eq_some_iff.mp hStep
      rw [updateSectorUser] at hUpdate
      split at hUpdate
      · rename_i hSame
        rw [hSame]
        exact h.placed user hPresent
      · obtain ⟨deleted, hDel, hAdd⟩ := Option.bind_eq_some_iff.mp hUpdate
        obtain ⟨deleted', hDel', _, hWidth, hHeight, hUsers⟩ := h.delSectorUser hPresent
        cases hDel'.symm.trans hDel
        obtain ⟨hNow, hCells⟩ := now_of_delSectorUser hWidth hHeight hUsers
        obtain ⟨_, hAdd, -⟩ := Option.bind_eq_some_iff.mp hAdd
        obtain ⟨i, hIndex, -⟩ := Option.bind_eq_some_iff.mp hAdd
        exact ⟨i, by rw [← hIndex, hNow, hCells]⟩
  | delSectorUser | place => trivial

/-- An allowed call whose index fits does what it should. -/
theorem performs_of_inRange (h : s.manager.Membership s.present) (hAllowed : s.Allowed op)
    (hRange : s.InRange op) : s.Performs op := by
  cases op with
  | addSectorUser user =>
      obtain ⟨hAbsent, hInside⟩ := hAllowed
      obtain ⟨i, hIndex⟩ := hInside.sectorIndex_iff.mpr hRange
      obtain ⟨m', hAdd, hAfter, -⟩ := h.addSectorUser hAbsent hInside hIndex
      exact ⟨_, by rw [step, hAdd]; rfl, hAfter⟩
  | delSectorUser user =>
      obtain ⟨m', hDel, hAfter, -⟩ := h.delSectorUser hAllowed
      exact ⟨_, by rw [step, hDel]; rfl, hAfter⟩
  | updateSectorUser user =>
      obtain ⟨hPresent, hInside⟩ := hAllowed
      obtain ⟨i, hIndex⟩ := hInside.sectorIndex_iff.mpr hRange
      by_cases hSame : s.manager.getNowSectorPosFromSectorUser user = (s.manager.users user).curSectorPos
      · refine ⟨false, s.manager, ?_, h, hSame.symm, ?_, nofun⟩
        · rw [updateSectorUser, if_pos hSame]
        · simp
      · obtain ⟨m', hUpdate, hAfter, hCur, hOld⟩ := h.updateSectorUser hPresent hInside hIndex hSame
        refine ⟨true, m', hUpdate, hAfter, hCur, ?_, fun _ => hOld⟩
        rw [hCur]
        simp [hSame]
  | place user x y => exact ⟨_, rfl, h.place user x y⟩

/-- A call that does what it should has a result. -/
theorem Performs.step (h : s.Performs op) : ∃ s', s.step op = some s' ∧
    s'.manager.Membership s'.present := by
  cases op with
  | updateSectorUser user =>
      obtain ⟨changed, m', hUpdate, hAfter, -⟩ := h
      exact ⟨_, by rw [SectorRun.step, hUpdate]; rfl, hAfter⟩
  | addSectorUser | delSectorUser | place => exact h

theorem performs_iff (h : s.manager.Membership s.present) (hAllowed : s.Allowed op) :
    s.Performs op ↔ s.InRange op := by
  constructor
  · intro hPerforms
    obtain ⟨s', hStep, _⟩ := hPerforms.step
    exact inRange_of_step h hAllowed hStep
  · exact performs_of_inRange h hAllowed

theorem new_membership (width height : Int) (users : User → SectorUser) :
    (new width height users).manager.Membership (new width height users).present :=
  ⟨nofun, nofun, fun _ _ => rfl⟩

theorem step_membership (h : s.manager.Membership s.present) (hAllowed : s.Allowed op)
    (hStep : s.step op = some s') : s'.manager.Membership s'.present := by
  obtain ⟨after, hStep', hAfter⟩ := (performs_of_inRange h hAllowed (inRange_of_step h hAllowed hStep)).step
  cases hStep'.symm.trans hStep
  exact hAfter

theorem membership_of_reachable {width height : Int} {users : User → SectorUser}
    (h : Reachable (Takes step) Allowed (new width height users) s) :
    s.manager.Membership s.present := by
  induction h with
  | refl => exact new_membership width height users
  | tail _ hAllowed hStep ih => exact step_membership ih hAllowed hStep

/-- After any run every user is where it should be, lists of different positions are different ones,
and a call does what it should exactly if the index that it computes fits an `int32_t`. -/
theorem sector_membership {width height : Int} {users : User → SectorUser}
    (h : Reachable (Takes step) Allowed (new width height users) s) :
    s.manager.Membership s.present ∧
      (∀ pos pos' i, s.manager.Inside pos → s.manager.Inside pos' →
        s.manager.sectorIndex pos = some i → s.manager.sectorIndex pos' = some i → pos = pos') ∧
      ∀ op, s.Allowed op → (s.Performs op ↔ s.InRange op) :=
  ⟨membership_of_reachable h, fun _ _ _ hInside hInside' => sectorIndex_injective hInside hInside',
    fun _ hAllowed => performs_iff (membership_of_reachable h) hAllowed⟩

section Runs

/-- Whether an action meets the guard. -/
def allowedTest (s : SectorRun User) : SectorOp User → Bool
  | .addSectorUser user => !s.present user &&
      decide (s.manager.Inside (s.manager.getNowSectorPosFromSectorUser user))
  | .delSectorUser user => s.present user
  | .updateSectorUser user => s.present user &&
      decide (s.manager.Inside (s.manager.getNowSectorPosFromSectorUser user))
  | .place .. => true

omit [DecidableEq User] in
theorem allowed_of_test (h : s.allowedTest op = true) : s.Allowed op := by
  cases op <;> simp_all [allowedTest, Allowed]

/-- Two users of a small grid, one of which changes its sector. -/
theorem sector_membership_moved : ∃ s : SectorRun Bool, exec (checked allowedTest step)
      (new 3 2 fun _ => ⟨0, 0, ⟨0, 0⟩, ⟨0, 0⟩⟩)
      [.addSectorUser true, .place true 7 3, .addSectorUser false, .updateSectorUser true] = some s ∧
      s.manager.sectorIndex (s.manager.users true).curSectorPos = some 5 ∧
      s.manager.Membership s.present := by
  obtain ⟨s, hRun, hIndex⟩ : ∃ s : SectorRun Bool, exec (checked allowedTest step)
      (new 3 2 fun _ => ⟨0, 0, ⟨0, 0⟩, ⟨0, 0⟩⟩)
      [.addSectorUser true, .place true 7 3, .addSectorUser false, .updateSectorUser true] = some s ∧
      s.manager.sectorIndex (s.manager.users true).curSectorPos = some 5 := ⟨_, rfl, by decide⟩
  exact ⟨s, hRun, hIndex, (sector_membership (reachable_of_checked allowed_of_test hRun)).1⟩

/-- In a grid of 46341 by 46341 cells the index of the last one does not fit. -/
theorem not_performs_of_large : ¬ ∀ (width height : Int) (users : Unit → SectorUser) (s : SectorRun Unit)
    (op : SectorOp Unit), Reachable (Takes step) Allowed (new width height users) s → s.Allowed op →
      s.Performs op := by
  intro h
  have hLast := h 46341 46341 (fun _ => ⟨2147441940, 2147441940, ⟨0, 0⟩, ⟨0, 0⟩⟩) _ (.addSectorUser ())
    .refl (allowed_of_test (by decide))
  obtain ⟨_, hStep, _⟩ := hLast
  cases hStep

end Runs

end SectorRun

end NfNetwork.Net
