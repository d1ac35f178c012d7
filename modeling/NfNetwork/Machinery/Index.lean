import Mathlib.Data.List.AList
import Mathlib.Tactic.Common

/-! Items that are found in several ways: by a key through a map, by a place through a
family of lists. Each structure is said to hold exactly the items it should. -/
namespace NfNetwork.Machinery

universe u v w
variable {Key : Type u} {Item : Type v} {Place : Type w}

/-- The map finds exactly the live items, each under its own key. -/
def Indexed [DecidableEq Key] (map : AList fun _ : Key => Item) (key : Item → Key)
    (live : Item → Prop) : Prop :=
  ∀ k i, map.lookup k = some i ↔ live i ∧ key i = k

namespace Indexed

variable [DecidableEq Key] {map : AList fun _ : Key => Item} {key key' : Item → Key}
  {live live' : Item → Prop}

theorem empty (key : Item → Key) : Indexed (∅ : AList fun _ : Key => Item) key fun _ => False := by
  simp [Indexed]

theorem lookup_key (h : Indexed map key live) {i : Item} (hLive : live i) :
    map.lookup (key i) = some i := (h _ _).mpr ⟨hLive, rfl⟩

theorem exists_lookup_iff (h : Indexed map key live) {i : Item} :
    (∃ k, map.lookup k = some i) ↔ live i := by
  constructor
  · rintro ⟨k, hFound⟩
    exact ((h k i).mp hFound).1
  · intro hLive
    exact ⟨key i, h.lookup_key hLive⟩

/-- Keys are unique among live items. -/
theorem key_injective (h : Indexed map key live) {i j : Item} (hi : live i) (hj : live j)
    (hKey : key i = key j) : i = j := by
  have hFound := h.lookup_key hi
  rw [hKey, h.lookup_key hj] at hFound
  exact (Option.some.inj hFound).symm

theorem not_mem_iff (h : Indexed map key live) {k : Key} :
    map.lookup k = none ↔ ∀ i, live i → key i ≠ k := by
  rw [Option.eq_none_iff_forall_ne_some]
  exact forall_congr' fun i => by
    rw [Ne, h]
    tauto

/-- Only the keys of live items matter. -/
theorem congr (h : Indexed map key live) (hLive : ∀ i, live' i ↔ live i)
    (hKey : ∀ i, live i → key' i = key i) : Indexed map key' live' := by
  intro k i
  rw [h, hLive]
  constructor
  · rintro ⟨hi, hk⟩
    exact ⟨hi, (hKey i hi).trans hk⟩
  · rintro ⟨hi, hk⟩
    exact ⟨hi, (hKey i hi).symm.trans hk⟩

/-- A new item under a new key. -/
theorem insert (h : Indexed map key live) {i : Item} {new : Key} (hNew : ¬ live i)
    (hKey : key i = new) (hFree : new ∉ map) :
    Indexed (map.insert new i) key fun j => live j ∨ j = i := by
  subst hKey
  rw [← AList.lookup_eq_none] at hFree
  intro k j
  by_cases hk : k = key i
  · rw [hk, AList.lookup_insert]
    constructor
    · rintro ⟨⟩
      exact ⟨.inr rfl, rfl⟩
    · rintro ⟨hj | rfl, hSame⟩
      · exact absurd hSame (h.not_mem_iff.mp hFree j hj)
      · rfl
  · rw [AList.lookup_insert_ne hk, h]
    constructor
    · rintro ⟨hj, hSame⟩
      exact ⟨.inl hj, hSame⟩
    · rintro ⟨hj | rfl, hSame⟩
      · exact ⟨hj, hSame⟩
      · exact absurd hSame.symm hk

theorem erase (h : Indexed map key live) {i : Item} {old : Key} (hLive : live i)
    (hKey : key i = old) : Indexed (map.erase old) key fun j => live j ∧ j ≠ i := by
  subst hKey
  intro k j
  by_cases hk : k = key i
  · rw [hk, AList.lookup_erase]
    constructor
    · intro hNone
      cases hNone
    · rintro ⟨⟨hj, hne⟩, hSame⟩
      exact absurd (h.key_injective hj hLive hSame) hne
  · rw [AList.lookup_erase_ne hk, h]
    constructor
    · rintro ⟨hj, hSame⟩
      exact ⟨⟨hj, fun hEq => hk (hEq ▸ hSame.symm)⟩, hSame⟩
    · rintro ⟨⟨hj, _⟩, hSame⟩
      exact ⟨hj, hSame⟩

end Indexed

/-- An item is once in the list of its place and in no other list. -/
structure Filed [DecidableEq Item] (lists : Place → List Item) (placed : Item → Place → Prop) :
    Prop where
  once : ∀ {i p}, placed i p → (lists p).count i = 1
  nowhere : ∀ {i p}, ¬ placed i p → i ∉ lists p

namespace Filed

variable [DecidableEq Item] [DecidableEq Place] {lists : Place → List Item}
  {placed placed' : Item → Place → Prop} {i : Item} {p : Place}

omit [DecidableEq Place] in
theorem mem_iff (h : Filed lists placed) : i ∈ lists p ↔ placed i p := by
  constructor
  · intro hMem
    by_contra hAway
    exact h.nowhere hAway hMem
  · intro hAt
    exact List.count_pos_iff.mp (by rw [h.once hAt]; exact Nat.one_pos)

omit [DecidableEq Place] in
theorem congr (h : Filed lists placed) (hSame : ∀ i p, placed' i p ↔ placed i p) : Filed lists placed' where
  once hAt := h.once ((hSame _ _).mp hAt)
  nowhere hAway := h.nowhere fun hAt => hAway ((hSame _ _).mpr hAt)

/-- An item that was nowhere is appended to a list. -/
theorem push (h : Filed lists placed) (hNew : ∀ q, ¬ placed i q) :
    Filed (Function.update lists p (lists p ++ [i])) fun j q => placed j q ∨ j = i ∧ q = p := by
  constructor
  · intro j q hAt
    by_cases hq : q = p
    · subst hq
      rw [Function.update_self, List.count_append]
      cases hAt with
      | inl hOld =>
          have hne : j ≠ i := fun hEq => hNew q (hEq ▸ hOld)
          rw [h.once hOld, List.count_singleton, if_neg (by simpa using hne.symm)]
      | inr hSame =>
          rw [hSame.1, List.count_eq_zero.mpr (h.nowhere (hNew q)), List.count_singleton_self]
    · rw [Function.update_of_ne hq]
      exact h.once (hAt.resolve_right fun hSame => hq hSame.2)
  · intro j q hAway
    by_cases hq : q = p
    · subst hq
      rw [Function.update_self, List.mem_append, List.mem_singleton]
      exact fun hMem => hMem.elim (h.nowhere fun hOld => hAway (.inl hOld))
        fun hEq => hAway (.inr ⟨hEq, rfl⟩)
    · rw [Function.update_of_ne hq]
      exact h.nowhere fun hOld => hAway (.inl hOld)

/-- An item is taken out of the only list it is in. -/
theorem erase (h : Filed lists placed) (hOnly : ∀ q, placed i q → q = p) :
    Filed (Function.update lists p ((lists p).erase i)) fun j q => placed j q ∧ j ≠ i := by
  constructor
  · rintro j q ⟨hAt, hne⟩
    by_cases hq : q = p
    · subst hq
      rw [Function.update_self, List.count_erase_of_ne hne, h.once hAt]
    · rw [Function.update_of_ne hq, h.once hAt]
  · intro j q hAway
    by_cases hq : q = p
    · subst hq
      rw [Function.update_self]
      by_cases hEq : j = i
      · subst hEq
        rw [← List.count_eq_zero, List.count_erase_self]
        by_cases hAt : placed j q
        · rw [h.once hAt]
        · rw [List.count_eq_zero.mpr (h.nowhere hAt)]
      · rw [List.mem_erase_of_ne hEq]
        exact h.nowhere fun hAt => hAway ⟨hAt, hEq⟩
    · rw [Function.update_of_ne hq]
      by_cases hEq : j = i
      · exact h.nowhere fun hAt => hq (hOnly q (hEq ▸ hAt))
      · exact h.nowhere fun hAt => hAway ⟨hAt, hEq⟩

end Filed

end NfNetwork.Machinery
