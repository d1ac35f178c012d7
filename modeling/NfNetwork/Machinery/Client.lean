import NfNetwork.Machinery.Transition
import Mathlib.Data.List.Induction

/-! A container that one client uses. An operation has an outcome and leaves a new state,
or it fails and there is nothing more to see. -/
namespace NfNetwork.Machinery

universe u v w x
variable {State : Type u} {Op : Type v} {Outcome : Type w} {Failure : Type x}
  (step : State → Op → Except Failure (Outcome × State))

/-- What the client sees. -/
def outcomes : State → List Op → List (Except Failure Outcome)
  | _, [] => []
  | s, op :: later => match step s op with
    | .error failure => [.error failure]
    | .ok (outcome, s') => .ok outcome :: outcomes s' later

/-- Every outcome, and the state that is left. -/
def answers : State → List Op → Except Failure (List Outcome × State)
  | s, [] => .ok ([], s)
  | s, op :: later => match step s op with
    | .error failure => .error failure
    | .ok (outcome, s') => (answers s' later).map fun r => (outcome :: r.1, r.2)

/-- The step relation of the operations that do not fail. -/
def Serves (s : State) (op : Op) (s' : State) : Prop := ∃ outcome, step s op = .ok (outcome, s')

/-- Every operation meets the guard in the state that it finds. -/
def Heeds (guard : State → Op → Prop) (s : State) (ops : List Op) : Prop :=
  ∀ before op later outcomes s', ops = before ++ op :: later →
    answers step s before = .ok (outcomes, s') → guard s' op

variable {step} {s s' : State} {op : Op} {outcome : Outcome} {failure : Failure} {later : List Op}

theorem outcomes_ok (h : step s op = .ok (outcome, s')) :
    outcomes step s (op :: later) = .ok outcome :: outcomes step s' later := by
  rw [outcomes, h]

theorem outcomes_error (h : step s op = .error failure) :
    outcomes step s (op :: later) = [.error failure] := by
  rw [outcomes, h]

theorem answers_ok (h : step s op = .ok (outcome, s')) :
    answers step s (op :: later) = (answers step s' later).map fun r => (outcome :: r.1, r.2) := by
  rw [answers, h]

theorem heeds_nil {guard : State → Op → Prop} : Heeds step guard s [] := by
  intro before op later outcomes s' hSplit
  simp at hSplit

/-- The guard of a sequence is that of its first operation and that of the rest. -/
theorem heeds_cons {guard : State → Op → Prop} (h : step s op = .ok (outcome, s')) :
    Heeds step guard s (op :: later) ↔ guard s op ∧ Heeds step guard s' later := by
  constructor
  · intro hHeeds
    refine ⟨hHeeds [] op later [] s rfl rfl, fun before op' rest outcomes last hSplit hBefore => ?_⟩
    refine hHeeds (op :: before) op' rest (outcome :: outcomes) last (by rw [hSplit]; rfl) ?_
    rw [answers_ok h, hBefore]
    rfl
  · rintro ⟨hFirst, hLater⟩ before op' rest outcomes last hSplit hBefore
    cases before with
    | nil =>
        cases hBefore
        cases hSplit
        exact hFirst
    | cons first before =>
        cases hSplit
        rw [answers_ok h] at hBefore
        cases hRest : answers step s' before with
        | error failure =>
            rw [hRest] at hBefore
            cases hBefore
        | ok r =>
            rw [hRest] at hBefore
            cases hBefore
            exact hLater before op' rest r.1 r.2 rfl hRest

/-- Two containers that a relation connects look the same to their clients. -/
theorem outcomes_eq_of_simulation {State' : Type u} {step' : State' → Op → Except Failure (Outcome × State')}
    {Related : State → State' → Prop} {allowed : Op → Prop}
    (hStep : ∀ {s r op}, Related s r → allowed op →
      ∃ outcome s' r', step s op = .ok (outcome, s') ∧ step' r op = .ok (outcome, r') ∧ Related s' r')
    {r : State'} (h : Related s r) {ops : List Op} (hAllowed : ∀ op ∈ ops, allowed op) :
    outcomes step s ops = outcomes step' r ops := by
  induction ops generalizing s r with
  | nil => rfl
  | cons op later ih =>
      obtain ⟨outcome, s', r', hOk, hOk', hRelated⟩ := hStep h (hAllowed op List.mem_cons_self)
      rw [outcomes_ok hOk, outcomes_ok hOk',
        ih hRelated fun op hMem => hAllowed op (List.mem_cons_of_mem _ hMem)]

/-- The same for every outcome and the last states. -/
theorem answers_of_simulation {State' : Type u} {step' : State' → Op → Except Failure (Outcome × State')}
    {Related : State → State' → Prop}
    (hStep : ∀ {s r} op, Related s r →
      ∃ outcome s' r', step s op = .ok (outcome, s') ∧ step' r op = .ok (outcome, r') ∧ Related s' r')
    {r : State'} (h : Related s r) (ops : List Op) :
    ∃ outcomes s' r', answers step s ops = .ok (outcomes, s') ∧
      answers step' r ops = .ok (outcomes, r') ∧ Related s' r' := by
  induction ops generalizing s r with
  | nil => exact ⟨[], s, r, rfl, rfl, h⟩
  | cons op later ih =>
      obtain ⟨outcome, s₁, r₁, hOk, hOk', hRelated⟩ := hStep op h
      obtain ⟨outcomes, s', r', hLater, hLater', hLast⟩ := ih hRelated
      refine ⟨outcome :: outcomes, s', r', ?_, ?_, hLast⟩
      · rw [answers_ok hOk, hLater]
        rfl
      · rw [answers_ok hOk', hLater']
        rfl

/-- One more operation after the others. -/
theorem answers_concat {before : List Op} {outcomes : List Outcome} {s'' : State}
    (h : answers step s before = .ok (outcomes, s')) (hLast : step s' op = .ok (outcome, s'')) :
    answers step s (before ++ [op]) = .ok (outcomes ++ [outcome], s'') := by
  induction before generalizing s outcomes with
  | nil =>
      cases h
      rw [List.nil_append, answers_ok hLast]
      rfl
  | cons first before ih =>
      rw [answers] at h
      split at h
      · cases h
      · rename_i next hNext
        obtain ⟨⟨rest, last⟩, hRest, hSame⟩ : ∃ r, answers step next before = .ok r ∧
            ((_ :: r.1, r.2) : List Outcome × State) = (outcomes, s') := by
          cases hRest : answers step next before with
          | error failure =>
              rw [hRest] at h
              cases h
          | ok r =>
              rw [hRest] at h
              exact ⟨r, rfl, Except.ok.inj h⟩
        cases hSame
        rw [List.cons_append, answers_ok hNext, ih hRest]
        rfl

/-- A simulation that needs the guard, for operations that meet it. -/
theorem answers_of_heeded {State' : Type u} {step' : State' → Op → Except Failure (Outcome × State')}
    {Related : State → State' → Prop} {guard : State' → Op → Prop}
    (hStep : ∀ {s r op}, Related s r → guard r op →
      ∃ outcome s' r', step s op = .ok (outcome, s') ∧ step' r op = .ok (outcome, r') ∧ Related s' r')
    {r : State'} (h : Related s r) {before later : List Op}
    (hHeeds : Heeds step' guard r (before ++ later)) :
    ∃ outcomes s' r', answers step s before = .ok (outcomes, s') ∧
      answers step' r before = .ok (outcomes, r') ∧ Related s' r' := by
  induction before using List.reverseRecOn generalizing later with
  | nil => exact ⟨[], s, r, rfl, rfl, h⟩
  | append_singleton before op ih =>
      rw [List.append_assoc, List.singleton_append] at hHeeds
      obtain ⟨outcomes, s', r', hAnswers, hAnswers', hRelated⟩ := ih hHeeds
      obtain ⟨outcome, s'', r'', hOk, hOk', hLast⟩ :=
        hStep hRelated (hHeeds before op later outcomes r' rfl hAnswers')
      exact ⟨outcomes ++ [outcome], s'', r'', answers_concat hAnswers hOk, answers_concat hAnswers' hOk',
        hLast⟩

/-- Operations that keep an invariant and never fail under it. -/
theorem outcomes_ne_error {Inv : State → Prop} {allowed : Op → Prop}
    (hStep : ∀ {s op}, Inv s → allowed op → ∃ outcome s', step s op = .ok (outcome, s') ∧ Inv s')
    (h : Inv s) {ops : List Op} (hAllowed : ∀ op ∈ ops, allowed op) (failure : Failure) :
    .error failure ∉ outcomes step s ops := by
  induction ops generalizing s with
  | nil => exact List.not_mem_nil
  | cons op later ih =>
      obtain ⟨outcome, s', hOk, hInv⟩ := hStep h (hAllowed op List.mem_cons_self)
      rw [outcomes_ok hOk]
      intro hMem
      cases List.mem_cons.mp hMem with
      | inl hSame => cases hSame
      | inr hLater => exact ih hInv (fun op hMem => hAllowed op (List.mem_cons_of_mem _ hMem)) hLater

end NfNetwork.Machinery
