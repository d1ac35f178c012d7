import Mathlib.Tactic.Common

/-! Actions that change a state and then return or throw. `Ends` is the weakest
precondition of such an action for one condition on each ending. -/
namespace NfNetwork.Machinery

universe u
variable {ε σ α β : Type u}

/-- The action ends well from `s`: what it returns meets `returns`, what it throws `throws`. -/
def Ends (action : EStateM ε σ α) (s : σ) (returns : α → σ → Prop) (throws : ε → σ → Prop) : Prop :=
  match action s with
  | .ok a s => returns a s
  | .error e s => throws e s

variable {s : σ} {returns returns' : α → σ → Prop} {throws throws' : ε → σ → Prop}

/-- The rule of consequence. -/
theorem Ends.mono {action : EStateM ε σ α} (h : Ends action s returns throws)
    (hReturns : ∀ a s, returns a s → returns' a s) (hThrows : ∀ e s, throws e s → throws' e s) :
    Ends action s returns' throws' := by
  unfold Ends at h ⊢
  split at h
  · exact hReturns _ _ h
  · exact hThrows _ _ h

theorem Ends.of_ok {action : EStateM ε σ α} {a : α} {s' : σ} (h : Ends action s returns throws)
    (hAction : action s = .ok a s') : returns a s' := by
  rwa [Ends, hAction] at h

theorem Ends.of_error {action : EStateM ε σ α} {e : ε} {s' : σ} (h : Ends action s returns throws)
    (hAction : action s = .error e s') : throws e s' := by
  rwa [Ends, hAction] at h

@[simp] theorem ends_pure {a : α} :
    Ends (pure a : EStateM ε σ α) s returns throws ↔ returns a s := Iff.rfl

@[simp] theorem ends_throw {e : ε} :
    Ends (throw e : EStateM ε σ α) s returns throws ↔ throws e s := Iff.rfl

@[simp] theorem ends_bind {action : EStateM ε σ α} {next : α → EStateM ε σ β}
    {returns : β → σ → Prop} :
    Ends (action >>= next) s returns throws ↔
      Ends action s (fun a s => Ends (next a) s returns throws) throws := by
  change Ends (EStateM.bind action next) s returns throws ↔ _
  simp only [Ends, EStateM.bind]
  cases action s <;> rfl

@[simp] theorem ends_get {returns : σ → σ → Prop} :
    Ends (get : EStateM ε σ σ) s returns throws ↔ returns s s := Iff.rfl

@[simp] theorem ends_set {s' : σ} {returns : PUnit → σ → Prop} :
    Ends (set s' : EStateM ε σ PUnit) s returns throws ↔ returns ⟨⟩ s' := Iff.rfl

@[simp] theorem ends_modify {change : σ → σ} {returns : PUnit → σ → Prop} :
    Ends (modify change : EStateM ε σ PUnit) s returns throws ↔ returns ⟨⟩ (change s) := Iff.rfl

@[simp] theorem ends_modifyGet {change : σ → α × σ} :
    Ends (modifyGet change : EStateM ε σ α) s returns throws ↔
      returns (change s).1 (change s).2 := Iff.rfl

/-- The loop rule: what the body keeps at every element, the loop keeps. -/
theorem ends_forM {body : β → EStateM ε σ PUnit} {Inv : σ → Prop} {list : List β}
    (hBody : ∀ b ∈ list, ∀ s, Inv s → Ends (body b) s (fun _ s => Inv s) throws)
    (hStart : Inv s) : Ends (list.forM body) s (fun _ s => Inv s) throws := by
  induction list generalizing s with
  | nil => exact hStart
  | cons b list ih =>
      change Ends (body b >>= fun _ => list.forM body) s _ throws
      rw [ends_bind]
      exact (hBody b (List.mem_cons_self ..) s hStart).mono
        (fun _ s hInv => ih (fun c hMem => hBody c (List.mem_cons_of_mem b hMem)) hInv)
        fun _ _ h => h

/-- The loop rule with the elements that are done. -/
theorem ends_forM_done {body : β → EStateM ε σ PUnit} (Inv : List β → σ → Prop) {list : List β}
    (hBody : ∀ done b later, list = done ++ b :: later → ∀ s, Inv done s →
      Ends (body b) s (fun _ s => Inv (done ++ [b]) s) throws)
    (hStart : Inv [] s) : Ends (list.forM body) s (fun _ s => Inv list s) throws := by
  induction list generalizing s Inv with
  | nil => exact hStart
  | cons b list ih =>
      change Ends (body b >>= fun _ => list.forM body) s _ throws
      rw [ends_bind]
      refine (hBody [] b list rfl s hStart).mono (fun _ s hInv => ?_) fun _ _ h => h
      refine ih (fun done => Inv (b :: done)) (fun done c later hSplit => ?_) hInv
      exact hBody (b :: done) c later (by rw [hSplit]; rfl)

/-- What is known of an action in two ways. -/
theorem Ends.and {action : EStateM ε σ α} (h : Ends action s returns throws)
    (h' : Ends action s returns' throws') :
    Ends action s (fun a s => returns a s ∧ returns' a s) fun e s => throws e s ∧ throws' e s := by
  unfold Ends at *
  split at h
  · rename_i hAction
    rw [hAction] at h'
    exact ⟨h, h'⟩
  · rename_i hAction
    rw [hAction] at h'
    exact ⟨h, h'⟩

end NfNetwork.Machinery
