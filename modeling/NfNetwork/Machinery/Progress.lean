import NfNetwork.Machinery.Transition

/-! What a machine can still get to. -/
namespace NfNetwork.Machinery

universe u v
variable {State : Type u} {Action : Type v} {step : State → Action → Option State}

/-- A machine that can always come nearer to what is wanted can get there. -/
theorem exists_exec_of_nears (Inv Done : State → Prop) (rank : State → Nat)
    (hNears : ∀ s, Inv s → ¬ Done s → ∃ a s', step s a = some s' ∧ Inv s' ∧ rank s' < rank s)
    {s : State} (h : Inv s) : ∃ actions s', exec step s actions = some s' ∧ Done s' := by
  induction hRank : rank s using Nat.strongRecOn generalizing s with
  | _ n ih =>
      by_cases hDone : Done s
      · exact ⟨[], s, rfl, hDone⟩
      · obtain ⟨a, next, hStep, hInv, hLess⟩ := hNears s h hDone
        obtain ⟨actions, s', hRun, hThere⟩ := ih (rank next) (hRank ▸ hLess) hInv rfl
        exact ⟨a :: actions, s', by rw [exec, hStep]; exact hRun, hThere⟩

/-- What every step keeps, the actions keep. -/
theorem exec_keeps {Inv : State → Prop} (hStep : ∀ {s a s'}, Inv s → step s a = some s' → Inv s')
    {s s' : State} {actions : List Action} (hInv : Inv s) (hRun : exec step s actions = some s') :
    Inv s' := by
  induction actions generalizing s with
  | nil =>
      cases hRun
      exact hInv
  | cons a later ih =>
      rw [exec] at hRun
      split at hRun
      · rename_i next hNext
        exact ih (hStep hInv hNext) hRun
      · cases hRun

end NfNetwork.Machinery
