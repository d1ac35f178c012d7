import Mathlib.Algebra.GroupWithZero.Nat
import Mathlib.Algebra.Order.Group.Multiset
import Mathlib.Tactic.Abel
import NfNetwork.Machinery.Crew
import NfNetwork.Machinery.Transition

/-! `UniqueHandle`: a handle that the operating system has opened is closed by the object that owns it. -/
namespace NfNetwork.Os

open Machinery

structure UniqueHandle (HANDLE : Type) where
  mHandle : HANDLE

variable {Owner HANDLE : Type} [DecidableEq HANDLE]

namespace UniqueHandle

/-- `operator bool`, and what `Reset` returns of its result. -/
def toBool (Invalid : HANDLE) (handle : UniqueHandle HANDLE) : Bool :=
  handle.mHandle ≠ Invalid

def release (Invalid : HANDLE) (handle : UniqueHandle HANDLE) : HANDLE × UniqueHandle HANDLE :=
  (handle.mHandle, ⟨Invalid⟩)

/-- What `Close` passes to `T::Exit`. -/
def close (Invalid : HANDLE) (handle : UniqueHandle HANDLE) : Option HANDLE :=
  if handle.toBool Invalid then some handle.mHandle else none

/-- What it closes, and the object after it. -/
def reset (Invalid : HANDLE) (handle : UniqueHandle HANDLE) (value : HANDLE) :
    Option HANDLE × UniqueHandle HANDLE :=
  if handle.mHandle ≠ value then (handle.close Invalid, ⟨value⟩) else (none, handle)

end UniqueHandle

/-- The objects that are alive, the handles that their user has in no object, and those that are open.
`failed` after `T::Exit` on a handle that is not open. -/
structure HandleSystem (Owner HANDLE : Type) where
  owners : Owner → Option (UniqueHandle HANDLE)
  loose : Multiset HANDLE
  opened : Multiset HANDLE
  failed : Bool

inductive HandleAction (Owner HANDLE : Type) where
  /-- `CreateEvent`, say. -/
  | create (value : HANDLE)
  | construct (o : Owner) (value : HANDLE)
  | moveConstruct (o other : Owner)
  | destroy (o : Owner)
  | moveAssign (o other : Owner)
  | release (o : Owner)
  | reset (o : Owner) (value : HANDLE)

namespace HandleSystem

variable [DecidableEq Owner]

def start : HandleSystem Owner HANDLE :=
  ⟨fun _ => none, 0, 0, false⟩

/-- `T::Exit` on what is closed. -/
def exit (s : HandleSystem Owner HANDLE) : Option HANDLE → HandleSystem Owner HANDLE
  | none => s
  | some value => { s with opened := s.opened.erase value, failed := s.failed || !decide (value ∈ s.opened) }

def set (s : HandleSystem Owner HANDLE) (o : Owner) (handle : Option (UniqueHandle HANDLE)) :
    HandleSystem Owner HANDLE :=
  { s with owners := Function.update s.owners o handle }

/-- The user gives an object only what it has itself. -/
def construct (Invalid : HANDLE) (s : HandleSystem Owner HANDLE) (o : Owner) (value : HANDLE) :
    Option (HandleSystem Owner HANDLE) :=
  match s.owners o with
  | some _ => none
  | none =>
    if value = Invalid ∨ value ∈ s.loose then some { s.set o (some ⟨value⟩) with loose := s.loose.erase value }
    else none

def release (Invalid : HANDLE) (s : HandleSystem Owner HANDLE) (o : Owner) :
    Option (HANDLE × HandleSystem Owner HANDLE) :=
  (s.owners o).map fun handle =>
    let (value, handle') := handle.release Invalid
    (value, { s.set o (some handle') with loose := if value = Invalid then s.loose else value ::ₘ s.loose })

def reset (Invalid : HANDLE) (s : HandleSystem Owner HANDLE) (o : Owner) (value : HANDLE) :
    Option (HandleSystem Owner HANDLE) :=
  match s.owners o with
  | none => none
  | some handle =>
    if value = Invalid ∨ value ∈ s.loose ∨ value = handle.mHandle then
      let (closed, handle') := handle.reset Invalid value
      some ({ s.set o (some handle') with loose := s.loose.erase value }.exit closed)
    else none

def step (Invalid : HANDLE) (s : HandleSystem Owner HANDLE) :
    HandleAction Owner HANDLE → Option (HandleSystem Owner HANDLE)
  | .create value =>
    if value ≠ Invalid ∧ value ∉ s.opened then
      some { s with loose := value ::ₘ s.loose, opened := value ::ₘ s.opened }
    else none
  | .construct o value => s.construct Invalid o value
  | .moveConstruct o other => (s.release Invalid other).bind fun (value, s') => s'.construct Invalid o value
  | .destroy o => (s.owners o).map fun handle => (s.set o none).exit (handle.close Invalid)
  | .moveAssign o other =>
    if o = other then (s.owners o).map fun _ => s
    else (s.release Invalid other).bind fun (value, s') => s'.reset Invalid o value
  | .release o => (s.release Invalid o).map Prod.snd
  | .reset o value => s.reset Invalid o value

/-- The handle that an object will close. -/
def owned (Invalid : HANDLE) : Option (UniqueHandle HANDLE) → Multiset HANDLE
  | none => 0
  | some handle => if handle.mHandle = Invalid then 0 else {handle.mHandle}

/-- Every open handle is in one place. -/
structure Sound [Fintype Owner] (Invalid : HANDLE) (s : HandleSystem Owner HANDLE) : Prop where
  kept : s.opened = crewTotal (owned Invalid) s.owners + s.loose
  nodup : s.opened.Nodup
  valid : Invalid ∉ s.opened
  failed : s.failed = false

variable [Fintype Owner] {Invalid : HANDLE} {s s' : HandleSystem Owner HANDLE} {o : Owner} {value : HANDLE}
  {handle : UniqueHandle HANDLE}

theorem Sound.split (h : s.Sound Invalid) (o : Owner) :
    s.opened = owned Invalid (s.owners o) + crewOthers (owned Invalid) s.owners o + s.loose := by
  rw [h.kept, crewTotal_split]

omit [DecidableEq Owner] in
theorem Sound.opened_of_loose (h : s.Sound Invalid) (hLoose : value ∈ s.loose) : value ∈ s.opened := by
  rw [h.kept]
  exact Multiset.mem_add.mpr (.inr hLoose)

omit [DecidableEq Owner] in
/-- What an object takes over leaves the hands of the user. -/
theorem Sound.passes (h : s.Sound Invalid) (hPass : value = Invalid ∨ value ∈ s.loose) :
    s.loose = owned Invalid (some ⟨value⟩) + s.loose.erase value := by
  rcases hPass with rfl | hLoose
  · rw [Multiset.erase_of_notMem fun hLoose => h.valid (h.opened_of_loose hLoose)]
    simp [owned]
  · have hValid : value ≠ Invalid := by
      rintro rfl
      exact h.valid (h.opened_of_loose hLoose)
    rw [owned, if_neg hValid, Multiset.singleton_add, Multiset.cons_erase hLoose]

/-- An object that has no handle takes one over. -/
theorem Sound.put (h : s.Sound Invalid) (hEmpty : owned Invalid (s.owners o) = 0)
    (hPass : value = Invalid ∨ value ∈ s.loose) :
    ({ s.set o (some ⟨value⟩) with loose := s.loose.erase value } : HandleSystem Owner HANDLE).Sound Invalid := by
  refine ⟨?_, h.nodup, h.valid, h.failed⟩
  refine (h.split o).trans ?_
  refine Eq.trans ?_ (congrArg (· + s.loose.erase value) (crewTotal_update (owned Invalid) s.owners o _).symm)
  rw [hEmpty, zero_add]
  nth_rewrite 1 [h.passes hPass]
  abel

/-- An object closes its handle. -/
theorem Sound.close {empty : Option (UniqueHandle HANDLE)} (h : s.Sound Invalid) (hOwner : s.owners o = some handle)
    (hEmpty : owned Invalid empty = 0) : ((s.set o empty).exit (handle.close Invalid)).Sound Invalid := by
  have hSplit := h.split o
  have hTotal := crewTotal_update (owned Invalid) s.owners o empty
  rw [hEmpty, zero_add] at hTotal
  rw [hOwner, owned] at hSplit
  rw [UniqueHandle.close, UniqueHandle.toBool]
  by_cases hInvalid : handle.mHandle = Invalid
  · rw [if_pos hInvalid, zero_add] at hSplit
    rw [if_neg (by simp [hInvalid])]
    exact ⟨hSplit.trans (congrArg (· + s.loose) hTotal.symm), h.nodup, h.valid, h.failed⟩
  · rw [if_neg hInvalid, add_assoc, Multiset.singleton_add] at hSplit
    rw [if_pos (by simp [hInvalid])]
    have hMem : handle.mHandle ∈ s.opened := by
      rw [hSplit]
      exact Multiset.mem_cons_self _ _
    refine ⟨?_, h.nodup.erase _, fun hMem => h.valid (Multiset.mem_of_mem_erase hMem), ?_⟩
    · refine (congrArg (Multiset.erase · handle.mHandle) hSplit).trans ?_
      rw [Multiset.erase_cons_head]
      exact congrArg (· + s.loose) hTotal.symm
    · simp [exit, set, h.failed, hMem]

theorem Sound.construct (h : s.Sound Invalid) (hStep : s.construct Invalid o value = some s') : s'.Sound Invalid := by
  rw [HandleSystem.construct] at hStep
  split at hStep
  · cases hStep
  · rename_i hDead
    obtain ⟨hPass, hNext⟩ := Option.ite_none_right_eq_some.mp hStep
    cases hNext
    exact h.put (by rw [hDead, owned]) hPass

/-- What is released is the user's. -/
theorem Sound.release (h : s.Sound Invalid) (hStep : s.release Invalid o = some (value, s')) :
    s'.Sound Invalid := by
  obtain ⟨handle, hOwner, hNext⟩ := Option.map_eq_some_iff.mp hStep
  cases hNext
  have hSplit := h.split o
  rw [hOwner, owned] at hSplit
  refine ⟨hSplit.trans ?_, h.nodup, h.valid, h.failed⟩
  refine Eq.trans ?_ (congrArg (· + _) (crewTotal_update (owned Invalid) s.owners o _).symm)
  by_cases hInvalid : handle.mHandle = Invalid
  · simp [hInvalid, owned]
  · simp only [if_neg hInvalid, owned, if_pos, zero_add, ← Multiset.singleton_add]
    abel

/-- What an object owns its user does not have. -/
theorem Sound.apart (h : s.Sound Invalid) (hOwner : s.owners o = some handle) : handle.mHandle ∉ s.loose := by
  intro hLoose
  have hOpened := h.opened_of_loose hLoose
  have hValid : handle.mHandle ≠ Invalid := fun hInvalid => h.valid (hInvalid ▸ hOpened)
  have hNodup := h.nodup
  rw [h.split o, hOwner, owned, if_neg hValid] at hNodup
  refine Multiset.disjoint_left.mp (Multiset.nodup_add.mp hNodup).2.2 ?_ hLoose
  exact Multiset.mem_add.mpr (.inl (Multiset.mem_singleton_self _))

theorem Sound.reset (h : s.Sound Invalid) (hStep : s.reset Invalid o value = some s') : s'.Sound Invalid := by
  rw [HandleSystem.reset] at hStep
  split at hStep
  · cases hStep
  · rename_i handle hOwner
    obtain ⟨hPass, hNext⟩ := Option.ite_none_right_eq_some.mp hStep
    rw [UniqueHandle.reset] at hNext
    by_cases hSame : handle.mHandle = value
    · -- `Reset` to its own handle does nothing
      have hNot : value ∉ s.loose := hSame ▸ h.apart hOwner
      rw [if_neg (not_not_intro hSame)] at hNext
      simp only [set, ← hOwner, Function.update_eq_self, Multiset.erase_of_notMem hNot] at hNext
      cases hNext
      exact h
    · rw [if_pos hSame] at hNext
      cases hNext
      have hPass' : value = Invalid ∨ value ∈ s.loose := by
        obtain hInvalid | hLoose | hOwn := hPass
        · exact .inl hInvalid
        · exact .inr hLoose
        · exact absurd hOwn.symm hSame
      have hClosed : ((s.set o (some ⟨Invalid⟩)).exit (handle.close Invalid)).Sound Invalid :=
        h.close hOwner (if_pos rfl)
      have hOwners : ((s.set o (some ⟨Invalid⟩)).exit (handle.close Invalid)).owners =
          Function.update s.owners o (some ⟨Invalid⟩) := by
        cases handle.close Invalid <;> rfl
      have hLoose : ((s.set o (some ⟨Invalid⟩)).exit (handle.close Invalid)).loose = s.loose := by
        cases handle.close Invalid <;> rfl
      have hEmpty : owned Invalid (((s.set o (some ⟨Invalid⟩)).exit (handle.close Invalid)).owners o) = 0 := by
        rw [hOwners, Function.update_self]
        exact if_pos rfl
      have hPut := hClosed.put hEmpty (hLoose.symm ▸ hPass')
      have hBoth : ({ s.set o (some ⟨value⟩) with loose := s.loose.erase value } : HandleSystem Owner HANDLE).exit
            (handle.close Invalid) =
          { ((s.set o (some ⟨Invalid⟩)).exit (handle.close Invalid)).set o (some ⟨value⟩) with
            loose := ((s.set o (some ⟨Invalid⟩)).exit (handle.close Invalid)).loose.erase value } := by
        cases handle.close Invalid with
        | none => simp [exit, set]
        | some closed =>
            simp only [exit, set, Function.update_idem]
            rfl
      exact hBoth ▸ hPut

/-- One step keeps every open handle in one place. -/
theorem Sound.step {a : HandleAction Owner HANDLE} (h : s.Sound Invalid) (hStep : s.step Invalid a = some s') :
    s'.Sound Invalid := by
  cases a with
  | create value =>
      obtain ⟨hNew, hNext⟩ := Option.ite_none_right_eq_some.mp hStep
      cases hNext
      refine ⟨?_, Multiset.nodup_cons.mpr ⟨hNew.2, h.nodup⟩, fun hMem => ?_, h.failed⟩
      · rw [h.kept, Multiset.add_cons]
      · rcases Multiset.mem_cons.mp hMem with hInvalid | hOld
        · exact hNew.1 hInvalid.symm
        · exact h.valid hOld
  | construct o value => exact h.construct hStep
  | moveConstruct o other =>
      obtain ⟨released, hRelease, hNext⟩ := Option.bind_eq_some_iff.mp hStep
      exact (h.release hRelease).construct hNext
  | destroy o =>
      obtain ⟨handle, hOwner, hNext⟩ := Option.map_eq_some_iff.mp hStep
      cases hNext
      exact h.close hOwner rfl
  | moveAssign o other =>
      rw [HandleSystem.step] at hStep
      split at hStep
      · obtain ⟨_, _, hNext⟩ := Option.map_eq_some_iff.mp hStep
        cases hNext
        exact h
      · obtain ⟨released, hRelease, hNext⟩ := Option.bind_eq_some_iff.mp hStep
        exact (h.release hRelease).reset hNext
  | release o =>
      obtain ⟨released, hRelease, hNext⟩ := Option.map_eq_some_iff.mp hStep
      cases hNext
      exact h.release hRelease
  | reset o value => exact h.reset hStep

omit [DecidableEq Owner] in
theorem start_sound : (start : HandleSystem Owner HANDLE).Sound Invalid := by
  have hNone : crewTotal (owned Invalid) (fun _ : Owner => none) = 0 := crewTotal_eq_zero fun _ => rfl
  refine ⟨?_, Multiset.nodup_zero, Multiset.notMem_zero Invalid, rfl⟩
  exact ((congrArg (· + 0) hNone).trans (add_zero 0)).symm

/-- Whatever is done to the objects, none closes a handle twice or one that it does not own, each open
handle is in one place, and with the last object the last handle that was given to one is closed. -/
theorem closed_once (h : Reachable (Takes (HandleSystem.step Invalid)) (fun _ _ => True) start s) :
    s.failed = false ∧ s.opened = crewTotal (owned Invalid) s.owners + s.loose ∧ s.opened.Nodup ∧
      ((∀ o, s.owners o = none) → s.opened = s.loose) := by
  have hSound : s.Sound Invalid := h.invariant start_sound fun _ hSound _ hStep => hSound.step hStep
  refine ⟨hSound.failed, hSound.kept, hSound.nodup, fun hDead => ?_⟩
  rw [hSound.kept, crewTotal_eq_zero fun o => by rw [hDead o, owned], zero_add]

/-- Handle 7 is moved from one object to another, which then takes 8. -/
private def twoOwners : List (HandleAction Bool Nat) :=
  [.create 7, .construct false 7, .construct true 0, .moveAssign true false, .create 8, .reset true 8,
    .moveAssign true true, .destroy false, .destroy true]

theorem closed_once_twoOwners : ∃ s : HandleSystem Bool Nat,
    s.failed = false ∧ s.opened = s.loose ∧ s.loose = 0 := by
  have hRun : (exec (HandleSystem.step 0) start twoOwners).map
      (fun s => decide ((∀ o, (s.owners o).isNone) ∧ s.loose = 0)) = some true := by
    decide +kernel
  obtain ⟨s, hExec, hEnd⟩ := Option.map_eq_some_iff.mp hRun
  obtain ⟨hDead, hLoose⟩ := of_decide_eq_true hEnd
  obtain ⟨hFailed, _, _, hClosed⟩ := closed_once (reachable_of_exec hExec)
  exact ⟨s, hFailed, hClosed fun o => Option.isNone_iff_eq_none.mp (hDead o), hLoose⟩

end HandleSystem

end NfNetwork.Os
