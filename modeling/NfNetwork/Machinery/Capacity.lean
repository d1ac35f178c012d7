import NfNetwork.Machinery.Transition

/-! A machine that stores something, one more in certain steps and never more in the others. A run keeps
to a capacity exactly if none of its adding steps finds the store full. -/
namespace NfNetwork.Machinery

universe u v
variable {State : Type u} {Action : Type v}

variable (step : State → Action → Option State) (size : State → Int) (Adds : State → Action → Prop)
  (capacity : Int)

/-- The steps that add make the store larger by one, no other step makes it larger. -/
structure Grows : Prop where
  adds : ∀ {s s' a}, step s a = some s' → Adds s a → size s' = size s + 1
  others : ∀ {s s' a}, step s a = some s' → ¬Adds s a → size s' ≤ size s

/-- No state of the run has stored more than the capacity. -/
def StaysWithin (start : State) (actions : List Action) : Prop :=
  EachState step (fun s => size s ≤ capacity) start actions

/-- No step of the run adds to a full store. -/
def AddsBelow (start : State) (actions : List Action) : Prop :=
  EachStep step (fun s a => Adds s a → size s < capacity) start actions

section Runs

variable {step size Adds capacity} {start next s : State} {a : Action}

/-- A step keeps a store within its capacity unless it adds to a full one. -/
theorem Grows.le_iff (h : Grows step size Adds) (hStart : size start ≤ capacity)
    (hStep : step start a = some next) :
    size next ≤ capacity ↔ (Adds start a → size start < capacity) := by
  by_cases hAdds : Adds start a
  · rw [h.adds hStep hAdds]
    constructor
    · intro hNext _
      omega
    · intro hBelow
      have hRoom := hBelow hAdds
      omega
  · exact iff_of_true (Int.le_trans (h.others hStep hAdds) hStart) fun hIs => absurd hIs hAdds

theorem Grows.staysWithin_iff (h : Grows step size Adds) {actions : List Action}
    (hStart : size start ≤ capacity) (hRun : exec step start actions = some s) :
    StaysWithin step size capacity start actions ↔ AddsBelow step size Adds capacity start actions :=
  eachState_iff_eachStep (fun _ => True) (fun _ _ => trivial)
    (fun _ hWithin hStep => h.le_iff hWithin hStep) trivial hStart hRun

end Runs

end NfNetwork.Machinery
