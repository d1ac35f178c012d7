import Mathlib.Data.List.Basic
import Mathlib.Tactic.Common

/-! A shelf with a fixed number of places. A new value takes the place of the first one that it
beats; if it beats none it takes the next free place, and is refused where there is none. -/
namespace NfNetwork.Machinery

universe u
variable {Value : Type u} (beats : Value → Value → Prop) [DecidableRel beats]

/-- What is on the shelf after a value was offered, if it was taken. -/
def offer (new : Value) : Nat → List Value → Option (List Value)
  | 0, _ => none
  | _ + 1, [] => some [new]
  | places + 1, x :: shelf => if beats new x then some (new :: shelf) else (offer new places shelf).map (x :: ·)

variable {beats} {new free : Value} {places : Nat} {shelf after : List Value}

/-- The value beats an earlier one and takes its place. -/
def Displaces (beats : Value → Value → Prop) (new : Value) (shelf after : List Value) (old : Value) : Prop :=
  ∃ front back, shelf = front ++ old :: back ∧ beats new old ∧ after = front ++ new :: back

/-- A value that is taken displaces one or is put behind all, none of which it beats. -/
theorem offer_cases (h : offer beats new places shelf = some after) :
    (∃ old, Displaces beats new shelf after old) ∨
      (after = shelf ++ [new] ∧ (∀ x ∈ shelf, ¬ beats new x) ∧ shelf.length < places) := by
  induction places, shelf using offer.induct beats new generalizing after with
  | case1 => cases h
  | case2 =>
      cases h
      exact .inr ⟨rfl, by simp, by simp⟩
  | case3 places x shelf hBeats =>
      rw [offer, if_pos hBeats] at h
      cases h
      exact .inl ⟨x, [], shelf, rfl, hBeats, rfl⟩
  | case4 places x shelf hSpares ih =>
      rw [offer, if_neg hSpares] at h
      obtain ⟨later, hLater, rfl⟩ := Option.map_eq_some_iff.mp h
      rcases ih hLater with ⟨old, front, back, rfl, hBeats, rfl⟩ | ⟨rfl, hAll, hRoom⟩
      · exact .inl ⟨old, x :: front, back, rfl, hBeats, rfl⟩
      · exact .inr ⟨rfl, List.forall_mem_cons.mpr ⟨hSpares, hAll⟩, Nat.succ_lt_succ hRoom⟩

/-- A value is refused if it beats none on a full shelf. -/
theorem offer_eq_none (hPlaces : shelf.length ≤ places) :
    offer beats new places shelf = none ↔ (∀ x ∈ shelf, ¬ beats new x) ∧ shelf.length = places := by
  induction places, shelf using offer.induct beats new with
  | case1 shelf =>
      cases List.length_eq_zero_iff.mp (Nat.le_zero.mp hPlaces)
      simp [offer]
  | case2 => simp [offer]
  | case3 places x shelf hBeats => simp [offer, hBeats]
  | case4 places x shelf hSpares ih =>
      rw [offer, if_neg hSpares, Option.map_eq_none_iff, ih (Nat.le_of_succ_le_succ hPlaces),
        List.forall_mem_cons, List.length_cons]
      simp [hSpares]

/-- The shelf as an array whose free places hold a value that every offered one beats. -/
def padded (free : Value) (places : Nat) (shelf : List Value) : List Value :=
  shelf ++ List.replicate (places - shelf.length) free

/-- A loop over the array that replaces the first entry that the value beats puts it on the shelf. -/
theorem replaceF_padded (hFree : beats new free) (hPlaces : shelf.length ≤ places) :
    (padded free places shelf).replaceF (fun x => if beats new x then some new else none) =
      padded free places ((offer beats new places shelf).getD shelf) := by
  induction places, shelf using offer.induct beats new with
  | case1 shelf =>
      cases List.length_eq_zero_iff.mp (Nat.le_zero.mp hPlaces)
      rfl
  | case2 places => simp [padded, offer, List.replicate_succ, hFree]
  | case3 places x shelf hBeats => simp [padded, offer, hBeats]
  | case4 places x shelf hSpares ih =>
      have hLater := ih (Nat.le_of_succ_le_succ hPlaces)
      cases hOffer : offer beats new places shelf <;> simp_all [padded, offer]

theorem padded_any (hFree : beats new free) (hPlaces : shelf.length ≤ places) :
    (padded free places shelf).any (fun x => beats new x) = (offer beats new places shelf).isSome := by
  cases hOffer : offer beats new places shelf with
  | none =>
      obtain ⟨hSpares, hFull⟩ := (offer_eq_none hPlaces).mp hOffer
      simpa [padded, hFull] using hSpares
  | some after =>
      rcases offer_cases hOffer with ⟨old, front, back, rfl, hBeats, _⟩ | ⟨_, _, hRoom⟩
      · simp [padded, hBeats]
      · have hSome : places - shelf.length ≠ 0 := by omega
        simp [padded, hFree, hSome]

theorem padded_filter [DecidableEq Value] (hTaken : ∀ x ∈ shelf, x ≠ free) :
    (padded free places shelf).filter (· ≠ free) = shelf := by
  rw [padded, List.filter_append, List.filter_eq_self.mpr (by simpa using hTaken)]
  simp

end NfNetwork.Machinery
