import Mathlib.Algebra.GroupWithZero.Nat
import Mathlib.Data.List.Basic
import Mathlib.Tactic.Common

/-! Runs of a machine. `Reachable` carries a guard that every step of the run
has met, so a property that only holds while certain steps are avoided is stated
about the runs that avoid them. -/
namespace NfNetwork.Machinery

universe u v w x
variable {State : Type u} {Action : Type v}

/-- Perform the actions in order; a disabled action gives no result. -/
def exec (step : State → Action → Option State) : State → List Action → Option State
  | s, [] => some s
  | s, a :: later => match step s a with
    | some s' => exec step s' later
    | none => none

/-! The numerals of a run on fixed inputs: its threads and slots are few. -/
instance (priority := 2000) neZero_one : NeZero (1 : Nat) := ⟨by decide⟩

instance (priority := 2000) neZero_two : NeZero (2 : Nat) := ⟨by decide⟩

instance (priority := 2000) neZero_three : NeZero (3 : Nat) := ⟨by decide⟩

/-- The step relation of a partial step function. -/
def Takes (step : State → Action → Option State) (s : State) (a : Action) (s' : State) : Prop :=
  step s a = some s'

/-- Reached from `start` by steps that all met the guard. -/
inductive Reachable (Step : State → Action → State → Prop) (Guard : State → Action → Prop)
    (start : State) : State → Prop where
  | refl : Reachable Step Guard start start
  | tail {s s' : State} {a : Action} (hPrior : Reachable Step Guard start s) (hGuard : Guard s a)
      (hStep : Step s a s') : Reachable Step Guard start s'

section Rules

variable {Step : State → Action → State → Prop} {Guard Guard' : State → Action → Prop}
  {start : State}

/-- The invariant rule. The step case may use that its state is reachable. -/
theorem Reachable.invariant {Inv : State → Prop} (hStart : Inv start)
    (hStep : ∀ {s s' a}, Reachable Step Guard start s → Inv s → Guard s a →
      Step s a s' → Inv s') {s : State} (h : Reachable Step Guard start s) : Inv s := by
  induction h with
  | refl => exact hStart
  | tail hPrior hGuard hLast ih => exact hStep hPrior ih hGuard hLast

/-- A run that met a guard met every weaker one. -/
theorem Reachable.mono (hWeaker : ∀ {s a}, Guard s a → Guard' s a) {s : State}
    (h : Reachable Step Guard start s) : Reachable Step Guard' start s := by
  induction h with
  | refl => exact .refl
  | tail _ hGuard hLast ih => exact .tail ih (hWeaker hGuard) hLast

theorem Reachable.trans {middle s : State} (h : Reachable Step Guard start middle)
    (h' : Reachable Step Guard middle s) : Reachable Step Guard start s := by
  induction h' with
  | refl => exact h
  | tail _ hGuard hLast ih => exact .tail ih hGuard hLast

/-- The simulation rule: what every guarded step is in the view of another
machine, a run is. -/
theorem Reachable.simulate {State' : Type w} {Action' : Type x}
    {Step' : State' → Action' → State' → Prop} {Guard' : State' → Action' → Prop}
    (view : State → State')
    (hStep : ∀ {s s' a}, Reachable Step Guard start s → Guard s a → Step s a s' →
      ∃ b, Guard' (view s) b ∧ Step' (view s) b (view s'))
    {s : State} (h : Reachable Step Guard start s) :
    Reachable Step' Guard' (view start) (view s) := by
  induction h with
  | refl => exact .refl
  | tail hPrior hGuard hLast ih =>
      obtain ⟨b, hGuard', hStep'⟩ := hStep hPrior hGuard hLast
      exact .tail ih hGuard' hStep'

end Rules

/-- The machine that also keeps, in order, what its steps put out. -/
def recorded {Item : Type w} (step : State → Action → Option State) (emits : State → State → List Item)
    (s : State × List Item) (a : Action) : Option (State × List Item) :=
  (step s.1 a).map fun s' => (s', s.2 ++ emits s.1 s')

theorem reachable_of_recorded {Item : Type w} {step : State → Action → Option State}
    {emits : State → State → List Item} {Guard : State → Action → Prop} {start s : State}
    {record : List Item}
    (h : Reachable (Takes (recorded step emits)) (fun s => Guard s.1) (start, []) (s, record)) :
    Reachable (Takes step) Guard start s := by
  refine h.simulate Prod.fst fun {s s' a} _ hGuard hStep => ⟨a, hGuard, ?_⟩
  obtain ⟨next, hNext, rfl⟩ := Option.map_eq_some_iff.mp hStep
  exact hNext

/-- The machine that also sums up what its steps weigh. -/
def tallied (step : State → Action → Option State) (weight : State → Action → State → Int)
    (c : State × Int) (a : Action) : Option (State × Int) :=
  (step c.1 a).map fun s' => (s', c.2 + weight c.1 a s')

/-- What a list of actions performs is a run, unguarded. -/
theorem reachable_of_exec {step : State → Action → Option State} {start s : State}
    {actions : List Action} (h : exec step start actions = some s) :
    Reachable (Takes step) (fun _ _ => True) start s := by
  induction actions generalizing start with
  | nil =>
      cases h
      exact .refl
  | cons a later ih =>
      rw [exec] at h
      split at h
      · rename_i next hNext
        exact (Reachable.tail .refl trivial hNext).trans (ih h)
      · cases h

theorem exec_append {step : State → Action → Option State} {start middle : State} {first : List Action}
    (h : exec step start first = some middle) (second : List Action) :
    exec step start (first ++ second) = exec step middle second := by
  induction first generalizing start with
  | nil =>
      cases h
      rfl
  | cons a later ih =>
      rw [exec] at h
      rw [List.cons_append, exec]
      split at h
      · exact ih h
      · cases h

/-- The actions of a run. -/
theorem exec_of_reachable {step : State → Action → Option State} {Guard : State → Action → Prop}
    {start s : State} (h : Reachable (Takes step) Guard start s) :
    ∃ actions, exec step start actions = some s := by
  induction h with
  | refl => exact ⟨[], rfl⟩
  | @tail _ s' a _ _ hStep ih =>
      obtain ⟨actions, hRun⟩ := ih
      refine ⟨actions ++ [a], ?_⟩
      rw [Takes] at hStep
      rw [exec_append hRun, exec, hStep]
      rfl

/-- The guard holds wherever one of the actions is taken. -/
def EachStep (step : State → Action → Option State) (Guard : State → Action → Prop) (start : State)
    (actions : List Action) : Prop :=
  ∀ before a later s, actions = before ++ a :: later → exec step start before = some s → Guard s a

theorem eachStep_nil {step : State → Action → Option State} {Guard : State → Action → Prop}
    {start : State} : EachStep step Guard start [] := by
  intro before a later _ hSplit
  simp at hSplit

theorem eachStep_cons {step : State → Action → Option State} {Guard : State → Action → Prop}
    {start next : State} {a : Action} {later : List Action} (hStep : step start a = some next) :
    EachStep step Guard start (a :: later) ↔ Guard start a ∧ EachStep step Guard next later := by
  constructor
  · intro h
    refine ⟨h [] a later start rfl rfl, ?_⟩
    intro before b rest s hSplit hBefore
    refine h (a :: before) b rest s (by rw [hSplit]; rfl) ?_
    rw [exec, hStep]
    exact hBefore
  · rintro ⟨hStart, hLater⟩ before b rest s hSplit hBefore
    cases before with
    | nil =>
        cases hSplit
        cases hBefore
        exact hStart
    | cons first before =>
        cases hSplit
        rw [exec, hStep] at hBefore
        exact hLater before b rest s rfl hBefore

/-- The property holds in every state of the run. -/
def EachState (step : State → Action → Option State) (Good : State → Prop) (start : State)
    (actions : List Action) : Prop :=
  ∀ before later s, actions = before ++ later → exec step start before = some s → Good s

theorem eachState_nil {step : State → Action → Option State} {Good : State → Prop} {start : State}
    (hStart : Good start) : EachState step Good start [] := by
  intro before later s hSplit hBefore
  obtain ⟨rfl, _⟩ := List.append_eq_nil_iff.mp hSplit.symm
  cases hBefore
  exact hStart

theorem eachState_cons {step : State → Action → Option State} {Good : State → Prop}
    {start next : State} {a : Action} {later : List Action} (hStep : step start a = some next) :
    EachState step Good start (a :: later) ↔ Good start ∧ EachState step Good next later := by
  constructor
  · intro h
    refine ⟨h [] (a :: later) start rfl rfl, ?_⟩
    intro before rest s hSplit hBefore
    refine h (a :: before) rest s (by rw [hSplit]; rfl) ?_
    rw [exec, hStep]
    exact hBefore
  · rintro ⟨hStart, hLater⟩ before rest s hSplit hBefore
    cases before with
    | nil =>
        cases hBefore
        exact hStart
    | cons first before =>
        cases hSplit
        rw [exec, hStep] at hBefore
        exact hLater before rest s rfl hBefore

/-- A property that a step keeps exactly if it meets the guard holds throughout exactly the guarded
runs. -/
theorem eachState_iff_eachStep {step : State → Action → Option State} (Inv : State → Prop) {Good : State → Prop}
    {Guard : State → Action → Prop} (hKeep : ∀ {s s' a}, Inv s → step s a = some s' → Inv s')
    (hStep : ∀ {s s' a}, Inv s → Good s → step s a = some s' → (Good s' ↔ Guard s a))
    {start s : State} {actions : List Action} (hInv : Inv start) (hGood : Good start)
    (hRun : exec step start actions = some s) :
    EachState step Good start actions ↔ EachStep step Guard start actions := by
  induction actions generalizing start with
  | nil => exact iff_of_true (eachState_nil hGood) eachStep_nil
  | cons a later ih =>
      rw [exec] at hRun
      split at hRun
      · rename_i next hNext
        rw [eachState_cons hNext, eachStep_cons hNext, ← hStep hInv hGood hNext]
        constructor
        · rintro ⟨_, hLater⟩
          have hGood' := hLater [] later next rfl rfl
          exact ⟨hGood', (ih (hKeep hInv hNext) hGood' hRun).mp hLater⟩
        · rintro ⟨hGood', hLater⟩
          exact ⟨hGood, (ih (hKeep hInv hNext) hGood' hRun).mpr hLater⟩
      · cases hRun

/-- Only the steps that pass a test. -/
def checked (check : State → Action → Bool) (step : State → Action → Option State) (s : State)
    (a : Action) : Option State :=
  if check s a then step s a else none

/-- What a list of actions performs is a guarded run if every step passes a test
that implies the guard. -/
theorem reachable_of_checked {step : State → Action → Option State} {check : State → Action → Bool}
    {Guard : State → Action → Prop} (hCheck : ∀ {s a}, check s a = true → Guard s a)
    {start s : State} {actions : List Action} (h : exec (checked check step) start actions = some s) :
    Reachable (Takes step) Guard start s := by
  refine (reachable_of_exec h).simulate id ?_
  intro s s' a _ _ hStep
  rw [Takes, checked] at hStep
  split at hStep
  · rename_i hPass
    exact ⟨a, hCheck hPass, hStep⟩
  · cases hStep

/-- What a list of actions performs is a guarded run if the guard holds of them wherever they are
taken. -/
theorem reachable_of_forall {step : State → Action → Option State} {Guard : State → Action → Prop}
    {start s : State} {actions : List Action} (hActions : ∀ a ∈ actions, ∀ s, Guard s a)
    (h : exec step start actions = some s) : Reachable (Takes step) Guard start s := by
  induction actions generalizing start with
  | nil =>
      cases h
      exact .refl
  | cons a later ih =>
      rw [exec] at h
      split at h
      · rename_i next hNext
        exact (Reachable.tail .refl (hActions a (List.mem_cons_self ..) start) hNext).trans
          (ih (fun b hMem => hActions b (List.mem_cons_of_mem a hMem)) h)
      · cases h

/-- Reached from `start` at this total cost. -/
inductive Spends (Step : State → Action → State → Prop) (cost : State → State → Nat)
    (start : State) : Nat → State → Prop where
  | refl : Spends Step cost start 0 start
  | tail {n : Nat} {s s' : State} {a : Action} (hPrior : Spends Step cost start n s)
      (hStep : Step s a s') : Spends Step cost start (n + cost s s') s'

/-- The invariant rule for runs that stay within a budget. -/
theorem Spends.invariant {Step : State → Action → State → Prop} {cost : State → State → Nat}
    {start : State} {budget : Nat} {Inv : Nat → State → Prop} (hStart : Inv 0 start)
    (hStep : ∀ {n s s' a}, Inv n s → Step s a s' → n + cost s s' < budget →
      Inv (n + cost s s') s')
    {n : Nat} {s : State} (h : Spends Step cost start n s) (hBudget : n < budget) : Inv n s := by
  induction h with
  | refl => exact hStart
  | tail hPrior hLast ih => exact hStep (ih (by omega)) hLast hBudget

theorem Spends.trans {Step : State → Action → State → Prop} {cost : State → State → Nat}
    {start middle s : State} {n m : Nat} (h : Spends Step cost start n middle)
    (h' : Spends Step cost middle m s) : Spends Step cost start (n + m) s := by
  induction h' with
  | refl => exact h
  | tail _ hLast ih =>
      rw [← Nat.add_assoc]
      exact ih.tail hLast

/-- What a list of actions performs is a run that pays for each action. -/
theorem spends_of_exec {step : State → Action → Option State} {cost : State → State → Nat}
    (hCost : ∀ s s', cost s s' ≤ 1) {start s : State} {actions : List Action}
    (h : exec step start actions = some s) :
    ∃ n, n ≤ actions.length ∧ Spends (Takes step) cost start n s := by
  induction actions generalizing start with
  | nil =>
      cases h
      exact ⟨0, Nat.le_refl _, .refl⟩
  | cons a later ih =>
      rw [exec] at h
      split at h
      · rename_i next hNext
        obtain ⟨n, hLength, hLater⟩ := ih h
        have hOne := hCost start next
        refine ⟨0 + cost start next + n, ?_, (Spends.refl.tail hNext).trans hLater⟩
        rw [List.length_cons]
        omega
      · cases h

end NfNetwork.Machinery
