import Mathlib.Data.Finset.Basic
import NfNetwork.Net.SectorAround

/-! What is done for the users around a position: `GetAroundSectorUsers`, `SendAround` and
`SendAroundExcept`. A `Send` is a call into the user and leaves the lists alone, so what a broadcast
does is the list of its calls. -/
namespace NfNetwork.Net

open Machinery

/-- A call on the packet, or on the user that it is sent to. -/
inductive SectorEvent (User : Type) where
  | addRef (x : Int)
  | send (user : User)
deriving DecidableEq

namespace SectorManager

variable {User : Type} (m : SectorManager User)

def getSectorUsersInSector (pos : Int2) : Option (List User) := (m.sectorIndex pos).map m.mSector

/-- The loop over the lists of `GetSectorAround` that the three functions share. -/
def forSectorUsers {State : Type} (pos : Int2) (body : State → List User → State) (s : State) :
    Option State := do
  let sectorAround ← m.getSectorAround pos.X pos.Y .new
  sectorAround.cells.foldlM (fun s cell => (m.getSectorUsersInSector cell).map (body s)) s

variable [DecidableEq User]

def getAroundSectorUsers (user : User) : Option (Finset User) := do
  let ret : Finset User ← m.forSectorUsers (m.users user).curSectorPos
    (fun ret sectorUsers => sectorUsers.foldl (fun ret sectorUser => insert sectorUser ret) ret) ∅
  some (ret.erase user)

def sendAroundExcept (user : User) : Option (List (SectorEvent User)) :=
  m.forSectorUsers (m.users user).curSectorPos
    (fun events sectorUsers => sectorUsers.foldl (fun events sectorUser =>
      if sectorUser = user then events else events ++ [.addRef 1, .send sectorUser]) events) []

omit [DecidableEq User] in
def sendAround (sectorPos : Int2) : Option (List (SectorEvent User)) :=
  m.forSectorUsers sectorPos
    (fun events sectorUsers => sectorUsers.foldl (fun events sectorUser => events ++ [.send sectorUser])
      (events ++ [.addRef sectorUsers.length])) []

omit [DecidableEq User] in
/-- The list of a cell, whether or not its index fits an `int32_t`. -/
def listAt (cell : Int2) : List User := m.mSector (cell.Y * m.mWidth + cell.X).toNat

omit [DecidableEq User] in
def listsAround (pos : Int2) : List (List User) := (m.neighbourhood pos).map m.listAt

/-- Each user with a home is once in the list of that cell and in no other one; who has none is in
none. -/
structure Population (home : User → Option Int2) : Prop where
  inside : ∀ user cell, home user = some cell → m.Inside cell
  count : ∀ user cell, m.Inside cell → (m.listAt cell).count user = if home user = some cell then 1 else 0

/-- The loops around the position do not overflow, nor does the index of any cell around. -/
structure Indexable (pos : Int2) : Prop where
  clear : ClearOfLimits pos
  index : ∀ cell, m.Near pos cell → cell.Y * m.mWidth + cell.X < 2 ^ 31

end SectorManager

section Events

variable {User : Type}

def sentTo (events : List (SectorEvent User)) : List User :=
  events.filterMap fun
    | .send user => some user
    | .addRef _ => none

def refsTaken (events : List (SectorEvent User)) : Int :=
  (events.map fun
    | .addRef x => x
    | .send _ => 0).sum

/-- Each of the recipients is sent to once and nobody else, a reference is taken for each call of
`Send`, and before that call. -/
structure Broadcasts [DecidableEq User] (recipient : User → Prop) (events : List (SectorEvent User)) :
    Prop where
  once : ∀ user, recipient user → (sentTo events).count user = 1
  nobodyElse : ∀ user, ¬ recipient user → (sentTo events).count user = 0
  refs : refsTaken events = (sentTo events).length
  before : ∀ earlier user later, events = earlier ++ .send user :: later →
    ((sentTo earlier).length : Int) < refsTaken earlier

/-- One `AddRef` for all of these users, then their calls of `Send`. -/
def burst (users : List User) : List (SectorEvent User) := .addRef users.length :: users.map .send

@[simp] theorem sentTo_append (events later : List (SectorEvent User)) :
    sentTo (events ++ later) = sentTo events ++ sentTo later := List.filterMap_append

@[simp] theorem refsTaken_append (events later : List (SectorEvent User)) :
    refsTaken (events ++ later) = refsTaken events + refsTaken later := by
  simp [refsTaken]

@[simp] theorem sentTo_map_send (users : List User) : sentTo (users.map .send) = users := by
  induction users with
  | nil => rfl
  | cons user users ih => exact congrArg (user :: ·) ih

@[simp] theorem refsTaken_map_send (users : List User) : refsTaken (users.map .send) = 0 := by
  induction users with
  | nil => rfl
  | cons user users ih => simpa [refsTaken] using ih

/-- A burst sends to each user of the list, in order. -/
theorem sentTo_burst (users : List User) : sentTo (burst users) = users := sentTo_map_send users

/-- And takes one reference for each before it sends. -/
theorem refsTaken_burst (users : List User) : refsTaken (burst users) = users.length := by
  have hSends := refsTaken_map_send users
  simpa [refsTaken, burst] using hSends

/-- Bursts one after the other send to their lists one after the other. -/
theorem sentTo_bursts (bursts : List (List User)) : sentTo (bursts.flatMap burst) = bursts.flatten := by
  induction bursts with
  | nil => rfl
  | cons users bursts ih => rw [List.flatMap_cons, sentTo_append, sentTo_burst, ih, List.flatten_cons]

/-- They take as many references as there are users in the lists. -/
theorem refsTaken_bursts (bursts : List (List User)) :
    refsTaken (bursts.flatMap burst) = bursts.flatten.length := by
  induction bursts with
  | nil => rfl
  | cons users bursts ih =>
      rw [List.flatMap_cons, refsTaken_append, refsTaken_burst, ih, List.flatten_cons, List.length_append,
        Int.natCast_add]

/-- Inside a burst the reference for a call of `Send` was taken at its start. -/
theorem burst_before {users : List User} {earlier later : List (SectorEvent User)} {user : User}
    (h : burst users = earlier ++ .send user :: later) : ((sentTo earlier).length : Int) < refsTaken earlier := by
  cases earlier with
  | nil => cases h
  | cons first earlier =>
      rw [burst, List.cons_append, List.cons.injEq] at h
      obtain ⟨rfl, hSends⟩ := h
      obtain ⟨done, rest, rfl, rfl, hRest⟩ := List.map_eq_append_iff.mp hSends
      have hSome : 0 < rest.length := List.length_pos_iff.mpr (by
        rintro rfl
        cases hRest)
      have hSent : sentTo (SectorEvent.addRef (((done ++ rest).length : Nat) : Int) :: done.map SectorEvent.send) =
          done := sentTo_map_send done
      have hRefs : refsTaken (SectorEvent.addRef (((done ++ rest).length : Nat) : Int) :: done.map SectorEvent.send) =
          (done ++ rest).length := by
        have hNone := refsTaken_map_send done
        simpa [refsTaken] using hNone
      rw [hSent, hRefs, List.length_append]
      omega

/-- Before any single `SendPacket` more references are taken than packets are sent, so the packet
outlives the call. -/
theorem bursts_before {bursts : List (List User)} {earlier later : List (SectorEvent User)} {user : User}
    (h : bursts.flatMap burst = earlier ++ .send user :: later) :
    ((sentTo earlier).length : Int) < refsTaken earlier := by
  induction bursts generalizing earlier with
  | nil => simp at h
  | cons users bursts ih =>
      rw [List.flatMap_cons] at h
      rcases List.append_eq_append_iff.mp h with ⟨rest, rfl, hRest⟩ | ⟨rest, hBurst, hRest⟩
      · have hLater := ih hRest
        rw [sentTo_append, refsTaken_append, sentTo_burst, refsTaken_burst, List.length_append]
        omega
      · cases rest with
        | nil =>
            have hLater := ih (hRest.symm.trans (List.nil_append _).symm)
            simp [sentTo, refsTaken] at hLater
        | cons first rest =>
            cases hRest
            exact burst_before hBurst

/-- A broadcast is right if its lists have each recipient once and nobody else. -/
theorem broadcasts_of_bursts [DecidableEq User] {recipient : User → Prop} {bursts : List (List User)}
    (hOnce : ∀ user, recipient user → bursts.flatten.count user = 1)
    (hNobody : ∀ user, ¬ recipient user → bursts.flatten.count user = 0) :
    Broadcasts recipient (bursts.flatMap burst) where
  once user hRecipient := by
    rw [sentTo_bursts]
    exact hOnce user hRecipient
  nobodyElse user hOther := by
    rw [sentTo_bursts]
    exact hNobody user hOther
  refs := by rw [refsTaken_bursts, sentTo_bursts]
  before _ _ _ hSplit := bursts_before hSplit

end Events

namespace SectorManager

variable {User State : Type} {m : SectorManager User} {pos cell : Int2}

section Loop

variable {body : State → List User → State}

/-- The index of a cell is computed in `int`, and the lookup is defined as long as it does not
overflow. -/
theorem getSectorUsersInSector_iff (h : m.Inside cell) :
    (∃ users, m.getSectorUsersInSector cell = some users) ↔ cell.Y * m.mWidth + cell.X < 2 ^ 31 := by
  rw [← h.sectorIndex_iff]
  simp [getSectorUsersInSector]

/-- Without overflow it is the list of the cell. -/
theorem getSectorUsersInSector_eq (h : m.Inside cell) (hIndex : cell.Y * m.mWidth + cell.X < 2 ^ 31) :
    m.getSectorUsersInSector cell = some (m.listAt cell) := by
  obtain ⟨i, hSome⟩ := h.sectorIndex_iff.mpr hIndex
  rw [getSectorUsersInSector, hSome]
  rw [sectorIndex, Option.ite_none_right_eq_some, Option.some.injEq] at hSome
  rw [← hSome.2]
  rfl

/-- Cells whose lists are found are folded over as lists. -/
theorem foldlM_lists (cells : List Int2) (s : State)
    (hCells : ∀ cell ∈ cells, m.getSectorUsersInSector cell = some (m.listAt cell)) :
    cells.foldlM (fun s cell => (m.getSectorUsersInSector cell).map (body s)) s =
      some ((cells.map m.listAt).foldl body s) := by
  induction cells generalizing s with
  | nil => rfl
  | cons cell cells ih =>
      rw [List.foldlM_cons, hCells cell List.mem_cons_self]
      exact ih _ fun other hMem => hCells other (List.mem_cons_of_mem _ hMem)

/-- A loop that ends has looked every list up. -/
theorem lists_of_foldlM {cells : List Int2} {s s' : State}
    (h : cells.foldlM (fun s cell => (m.getSectorUsersInSector cell).map (body s)) s = some s') :
    ∀ cell ∈ cells, ∃ users, m.getSectorUsersInSector cell = some users := by
  induction cells generalizing s with
  | nil => simp
  | cons cell cells ih =>
      rw [List.foldlM_cons] at h
      obtain ⟨next, hNext, hLater⟩ := Option.bind_eq_some_iff.mp h
      obtain ⟨users, hUsers, _⟩ := Option.map_eq_some_iff.mp hNext
      rw [List.forall_mem_cons]
      exact ⟨⟨users, hUsers⟩, ih hLater⟩

/-- All three traversals go over the lists around the position, row by row. -/
theorem Indexable.forSectorUsers (h : m.Indexable pos) (s : State) :
    m.forSectorUsers pos body s = some ((m.listsAround pos).foldl body s) := by
  obtain ⟨sectorAround, hAround, hCells⟩ := m.getSectorAround_of_clear h.clear
  rw [SectorManager.forSectorUsers, hAround, Option.bind_eq_bind, Option.bind_some, hCells]
  apply foldlM_lists
  intro cell hMem
  have hNear := mem_neighbourhood.mp hMem
  exact getSectorUsersInSector_eq hNear.1 (h.index cell hNear)

/-- Conversely, a traversal that comes through has not overflowed at any cell. -/
theorem indexable_of_forSectorUsers (hInside : m.Inside pos) {s s' : State}
    (h : m.forSectorUsers pos body s = some s') : m.Indexable pos := by
  obtain ⟨sectorAround, hAround, hLoop⟩ := Option.bind_eq_some_iff.mp h
  refine ⟨hInside.getSectorAround_iff.mp ⟨_, hAround⟩, ?_⟩
  intro cell hNear
  rw [cells_of_getSectorAround hAround] at hLoop
  exact (getSectorUsersInSector_iff hNear.1).mp
    (lists_of_foldlM hLoop cell (mem_neighbourhood.mpr hNear))

end Loop

variable [DecidableEq User] {home : User → Option Int2} {user : User}

/-- A user is as often in the lists around as its home is one of them. -/
theorem Population.count_lists (h : m.Population home) (user : User) (cells : List Int2) (hNodup : cells.Nodup)
    (hInside : ∀ cell ∈ cells, m.Inside cell) :
    ((cells.map m.listAt).flatten).count user = if ∃ cell ∈ cells, home user = some cell then 1 else 0 := by
  induction cells with
  | nil => simp
  | cons cell cells ih =>
      obtain ⟨hNew, hNodup⟩ := List.nodup_cons.mp hNodup
      rw [List.forall_mem_cons] at hInside
      rw [List.map_cons, List.flatten_cons, List.count_append, h.count user cell hInside.1,
        ih hNodup hInside.2]
      by_cases hHome : home user = some cell
      · have hOnly : ¬ ∃ other ∈ cells, home user = some other := by
          rintro ⟨other, hMem, hOther⟩
          cases hHome.symm.trans hOther
          exact hNew hMem
        simpa [hHome] using hOnly
      · simp [hHome]

/-- The user's home is among the cells around. -/
def HomeNear (m : SectorManager User) (home : User → Option Int2) (pos : Int2) (user : User) : Prop :=
  ∃ cell, home user = some cell ∧ m.Near pos cell

/-- A user stands in the lists around a position once if its cell is near, and not at all otherwise. -/
theorem Population.count_around (h : m.Population home) (pos : Int2) (user : User) :
    ((m.listsAround pos).flatten).count user =
      if ∃ cell ∈ m.neighbourhood pos, home user = some cell then 1 else 0 :=
  h.count_lists user _ (m.nodup_neighbourhood pos) fun _ hMem => (mem_neighbourhood.mp hMem).1

/-- In particular once for everybody near. -/
theorem Population.count_of_homeNear (h : m.Population home) (hNear : m.HomeNear home pos user) :
    ((m.listsAround pos).flatten).count user = 1 := by
  obtain ⟨cell, hHome, hCell⟩ := hNear
  rw [h.count_around, if_pos ⟨cell, mem_neighbourhood.mpr hCell, hHome⟩]

/-- And not at all for everybody else. -/
theorem Population.count_of_not_homeNear (h : m.Population home) (hFar : ¬ m.HomeNear home pos user) :
    ((m.listsAround pos).flatten).count user = 0 := by
  rw [h.count_around, if_neg]
  rintro ⟨cell, hMem, hHome⟩
  exact hFar ⟨cell, hHome, mem_neighbourhood.mp hMem⟩

/-- Who stands in the lists around a position lives near it. -/
theorem Population.mem_around (h : m.Population home) :
    user ∈ (m.listsAround pos).flatten ↔ m.HomeNear home pos user := by
  rw [← List.count_pos_iff]
  by_cases hNear : m.HomeNear home pos user
  · simp [h.count_of_homeNear hNear, hNear]
  · simp [h.count_of_not_homeNear hNear, hNear]

omit [DecidableEq User] in
/-- `SendAround` is one burst for each list around the position. -/
theorem sendAround_eq (h : m.Indexable pos) :
    m.sendAround pos = some ((m.listsAround pos).flatMap burst) := by
  rw [sendAround, h.forSectorUsers]
  simp only [List.foldl_append_eq_append, List.append_assoc, List.nil_append, ← List.flatMap_def,
    ← List.map_eq_flatMap]
  rfl

/-- The loop that leaves one user out is a burst for each of the others. -/
theorem foldl_except (users : List User) (user : User) (events : List (SectorEvent User)) :
    users.foldl (fun events sectorUser =>
      if sectorUser = user then events else events ++ [.addRef 1, .send sectorUser]) events =
      events ++ ((users.filter (· ≠ user)).map ([·])).flatMap burst := by
  induction users generalizing events with
  | nil => simp
  | cons first users ih =>
      rw [List.foldl_cons, ih]
      by_cases hSame : first = user
      · simp [hSame]
      · simp [hSame, burst]

/-- `SendAroundExcept` is a burst for each user around but the one. -/
theorem sendAroundExcept_eq (h : m.Indexable (m.users user).curSectorPos) :
    m.sendAroundExcept user = some
      ((((m.listsAround (m.users user).curSectorPos).flatten.filter (· ≠ user)).map ([·])).flatMap burst) := by
  rw [sendAroundExcept, h.forSectorUsers, ← List.foldl_flatten, foldl_except, List.nil_append]

/-- What the loops over an `unordered_set` collect. -/
theorem mem_foldl_insert (users : List User) (ret : Finset User) (user : User) :
    user ∈ users.foldl (fun ret sectorUser => insert sectorUser ret) ret ↔ user ∈ ret ∨ user ∈ users := by
  induction users generalizing ret with
  | nil => simp
  | cons first users ih =>
      rw [List.foldl_cons, ih, Finset.mem_insert, List.mem_cons]
      tauto

/-- `GetAroundSectorUsers` collects the users around but the one. -/
theorem getAroundSectorUsers_mem (h : m.Indexable (m.users user).curSectorPos) :
    ∃ ret, m.getAroundSectorUsers user = some ret ∧
      ∀ other, other ∈ ret ↔ other ≠ user ∧ other ∈ (m.listsAround (m.users user).curSectorPos).flatten := by
  refine ⟨_, by rw [getAroundSectorUsers, h.forSectorUsers, ← List.foldl_flatten]; rfl, ?_⟩
  intro other
  rw [Finset.mem_erase, mem_foldl_insert]
  simp

/-- Around a cell of the grid all three functions end, and do what they should, exactly if the position
is indexable. -/
theorem broadcasts_iff (m : SectorManager User) {home : User → Option Int2} (h : m.Population home) :
    (∀ pos, m.Inside pos → ((∃ events, m.sendAround pos = some events ∧
      Broadcasts (m.HomeNear home pos) events) ↔ m.Indexable pos)) ∧
    ∀ user, m.Inside (m.users user).curSectorPos →
      ((∃ events, m.sendAroundExcept user = some events ∧
        Broadcasts (fun other => other ≠ user ∧ m.HomeNear home (m.users user).curSectorPos other) events) ↔
          m.Indexable (m.users user).curSectorPos) ∧
      ((∃ ret, m.getAroundSectorUsers user = some ret ∧ ∀ other, other ∈ ret ↔
        other ≠ user ∧ m.HomeNear home (m.users user).curSectorPos other) ↔
          m.Indexable (m.users user).curSectorPos) := by
  constructor
  · intro pos hInside
    constructor
    · rintro ⟨events, hEvents, _⟩
      exact indexable_of_forSectorUsers hInside hEvents
    · intro hIndexable
      exact ⟨_, sendAround_eq hIndexable,
        broadcasts_of_bursts (fun _ => h.count_of_homeNear) fun _ => h.count_of_not_homeNear⟩
  · intro user hInside
    constructor
    · constructor
      · rintro ⟨events, hEvents, _⟩
        exact indexable_of_forSectorUsers hInside hEvents
      · intro hIndexable
        refine ⟨_, sendAroundExcept_eq hIndexable, broadcasts_of_bursts ?_ ?_⟩
        · rintro other ⟨hOther, hNear⟩
          rw [← List.flatMap_def, List.flatMap_singleton', List.count_filter (by simpa using hOther)]
          exact h.count_of_homeNear hNear
        · intro other hFar
          rw [← List.flatMap_def, List.flatMap_singleton', List.count_eq_zero, List.mem_filter,
            h.mem_around]
          rintro ⟨hNear, hOther⟩
          exact hFar ⟨by simpa using hOther, hNear⟩
    · constructor
      · rintro ⟨ret, hRet, _⟩
        obtain ⟨_, hLoop, _⟩ := Option.bind_eq_some_iff.mp hRet
        exact indexable_of_forSectorUsers hInside hLoop
      · intro hIndexable
        obtain ⟨ret, hRet, hMem⟩ := getAroundSectorUsers_mem hIndexable
        exact ⟨ret, hRet, fun other => by rw [hMem, h.mem_around]⟩

/-- The lists of a manager in use are a population: everybody present is at its current position. -/
theorem Membership.population {present : User → Bool} (h : m.Membership present) :
    m.Population fun user => if present user then some (m.users user).curSectorPos else none where
  inside user cell hHome := by
    rw [Option.ite_none_right_eq_some, Option.some.injEq] at hHome
    rw [← hHome.2]
    exact h.inside user hHome.1
  count user cell hInside := by
    rw [listAt, h.count]
    by_cases hPresent : present user = true
    · obtain ⟨i, hIndex⟩ := h.placed user hPresent
      by_cases hHome : (m.users user).curSectorPos = cell
      · rw [← hHome, hIndex]
        rw [sectorIndex, Option.ite_none_right_eq_some, Option.some.injEq] at hIndex
        simp [hPresent, hIndex.2]
      · have hOther : m.sectorIndex (m.users user).curSectorPos ≠ some (cell.Y * m.mWidth + cell.X).toNat := by
          intro hSame
          have hCur := hSame
          rw [sectorIndex, Option.ite_none_right_eq_some, Option.some.injEq] at hCur
          have hNonneg := hInside.index.1
          have hX := hInside.1
          have hSmall : cell.Y * m.mWidth + cell.X < 2 ^ 31 := by
            have hFits := hCur.1.2.1.2
            omega
          obtain ⟨j, hCell⟩ := hInside.sectorIndex_iff.mpr hSmall
          have hBoth := hCell
          rw [sectorIndex, Option.ite_none_right_eq_some, Option.some.injEq] at hBoth
          rw [hBoth.2] at hSame
          exact hHome (sectorIndex_injective (h.inside user hPresent) hInside hSame hCell)
        simp [hPresent, hHome, hOther]
    · simp [hPresent]

omit [DecidableEq User] in
/-- The cells of a grid of at most `2^31` cells have indexes that fit. -/
theorem indexable_of_small (hArea : m.mWidth * m.mHeight ≤ 2 ^ 31) (hClear : ClearOfLimits pos) :
    m.Indexable pos :=
  ⟨hClear, fun _ hNear => Int.lt_of_lt_of_le hNear.1.index.2 hArea⟩

/-- Two users of a small grid, in opposite corners, are both sent to from the column between them. -/
theorem broadcasts_iff_corners : ∃ s : SectorRun Bool,
    exec (checked SectorRun.allowedTest SectorRun.step) (.new 3 2 fun _ => ⟨0, 0, ⟨0, 0⟩, ⟨0, 0⟩⟩)
      [.addSectorUser true, .place false 8 3, .addSectorUser false] = some s ∧
    ∃ events, s.manager.sendAround ⟨1, 0⟩ = some events ∧ Broadcasts (s.manager.HomeNear
      (fun user => if s.present user then some (s.manager.users user).curSectorPos else none) ⟨1, 0⟩) events := by
  obtain ⟨s, hRun, hInside, hArea⟩ : ∃ s : SectorRun Bool,
      exec (checked SectorRun.allowedTest SectorRun.step) (.new 3 2 fun _ => ⟨0, 0, ⟨0, 0⟩, ⟨0, 0⟩⟩)
        [.addSectorUser true, .place false 8 3, .addSectorUser false] = some s ∧
      s.manager.Inside ⟨1, 0⟩ ∧ s.manager.mWidth * s.manager.mHeight ≤ 2 ^ 31 := ⟨_, rfl, by decide, by decide⟩
  have hMembership := SectorRun.membership_of_reachable (reachable_of_checked SectorRun.allowed_of_test hRun)
  exact ⟨s, hRun, ((broadcasts_iff s.manager hMembership.population).1 ⟨1, 0⟩ hInside).mpr
    (indexable_of_small hArea (by decide))⟩

/-- In a grid of 46341 by 46341 cells the last cell has an index that does not fit. -/
theorem not_broadcasts_of_large : ¬ ∀ (m : SectorManager Unit) (home : Unit → Option Int2) (pos : Int2),
    FitsInt32 m.mWidth → FitsInt32 m.mHeight → m.Population home → m.Inside pos →
      ∃ events, m.sendAround pos = some events ∧ Broadcasts (m.HomeNear home pos) events := by
  intro hAll
  have hNobody : (⟨46341, 46341, fun _ => [], fun _ => ⟨0, 0, ⟨0, 0⟩, ⟨0, 0⟩⟩⟩ : SectorManager Unit).Population
      fun _ => none := ⟨nofun, fun _ _ _ => rfl⟩
  have hInside : (⟨46341, 46341, fun _ => [], fun _ => ⟨0, 0, ⟨0, 0⟩, ⟨0, 0⟩⟩⟩ : SectorManager Unit).Inside
      ⟨46340, 46340⟩ := by decide
  obtain ⟨events, hEvents, _⟩ := hAll _ _ ⟨46340, 46340⟩ (by decide) (by decide) hNobody hInside
  have hLast := (indexable_of_forSectorUsers hInside hEvents).index _ (near_self hInside)
  exact absurd hLast (by decide)

end SectorManager

end NfNetwork.Net
