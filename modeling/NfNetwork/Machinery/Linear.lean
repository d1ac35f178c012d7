import Mathlib.Data.List.Basic
import Mathlib.Tactic.Abel
import NfNetwork.Machinery.Crew

/-! Objects that many threads call at once. A history of calls and returns is linearizable if every
call can be given a point between itself and its return at which it takes effect, so that the effects,
in their order, are what the object does by itself. -/
namespace NfNetwork.Machinery

universe u v w x
variable {Thread : Type u} {Op : Type v} {Result : Type w} {State : Type x}

/-- A thread calls the object, the call takes effect, and it returns. -/
inductive Point (Op : Type v) (Result : Type w) where
  | call (op : Op)
  | effect (op : Op) (result : Result)
  | ret (result : Result)

/-- What a thread has done of its call. -/
inductive Phase (Op : Type v) (Result : Type w) where
  | idle
  | called (op : Op)
  | effected (result : Result)

inductive Phase.Next : Phase Op Result → Point Op Result → Phase Op Result → Prop where
  | call (op : Op) : Next .idle (.call op) (.called op)
  | effect (op : Op) (result : Result) : Next (.called op) (.effect op result) (.effected result)
  | ret (result : Result) : Next (.effected result) (.ret result) .idle

/-- The calls and the returns. -/
def Point.observed : Thread × Point Op Result → Option (Thread × (Op ⊕ Result))
  | (t, .call op) => some (t, .inl op)
  | (_, .effect _ _) => none
  | (t, .ret result) => some (t, .inr result)

def observed (points : List (Thread × Point Op Result)) : List (Thread × (Op ⊕ Result)) :=
  points.filterMap Point.observed

/-- The operations that are called. -/
def calledOps (history : List (Thread × (Op ⊕ Result))) : List Op :=
  history.filterMap fun entry => entry.2.getLeft?

/-- The operations that take effect. -/
def effectedOps (points : List (Thread × Point Op Result)) : List Op :=
  points.filterMap fun point => match point.2 with
    | .effect op _ => some op
    | _ => none

/-- The operation that has been called and has not taken effect. -/
def Phase.pending : Phase Op Result → Multiset Op
  | .called op => {op}
  | _ => 0

@[simp] theorem Phase.pending_idle : (.idle : Phase Op Result).pending = 0 := rfl

@[simp] theorem Phase.pending_called (op : Op) : (.called op : Phase Op Result).pending = {op} := rfl

@[simp] theorem Phase.pending_effected (result : Result) :
    (.effected result : Phase Op Result).pending = 0 := rfl

section Points

variable (Apply : State → Op → Result → State → Prop)

/-- What a point does to the object. -/
inductive Affects : State → Point Op Result → State → Prop where
  | call (s : State) (op : Op) : Affects s (.call op) s
  | effect {s s' : State} {op : Op} {result : Result} (h : Apply s op result s') :
      Affects s (.effect op result) s'
  | ret (s : State) (result : Result) : Affects s (.ret result) s

variable [DecidableEq Thread]

/-- The points of a run, from the phases of the threads and the object at the start to those at the
end. -/
inductive Points : (Thread → Phase Op Result) → State → List (Thread × Point Op Result) →
    (Thread → Phase Op Result) → State → Prop where
  | nil (phases : Thread → Phase Op Result) (s : State) : Points phases s [] phases s
  | cons {phases phases' : Thread → Phase Op Result} {s s' s'' : State} {t : Thread}
      {point : Point Op Result} {phase : Phase Op Result} {later : List (Thread × Point Op Result)}
      (hPhase : (phases t).Next point phase) (hAffects : Affects Apply s point s')
      (hLater : Points (Function.update phases t phase) s' later phases' s'') :
      Points phases s ((t, point) :: later) phases' s''

/-- A history that effects can be put into. -/
def Linearizable (start : State) (history : List (Thread × (Op ⊕ Result))) : Prop :=
  ∃ points phases s, Points Apply (fun _ => .idle) start points phases s ∧ observed points = history

end Points

section Facts

/-- What is seen of a history comes in its order. -/
theorem observed_append {points later : List (Thread × Point Op Result)} :
    observed (points ++ later) = observed points ++ observed later :=
  List.filterMap_append

/-- What is observed of a run, as points of it. -/
def Point.ofObserved : Thread × (Op ⊕ Result) → Thread × Point Op Result
  | (t, .inl op) => (t, .call op)
  | (t, .inr result) => (t, .ret result)

/-- It is the history without the effects. -/
theorem observed_sublist (points : List (Thread × Point Op Result)) :
    ((observed points).map Point.ofObserved).Sublist points := by
  induction points with
  | nil => exact .slnil
  | cons point points ih =>
      obtain ⟨t, point⟩ := point
      cases point with
      | call op => exact ih.cons_cons (t, .call op)
      | effect op result => exact ih.cons (t, .effect op result)
      | ret result => exact ih.cons_cons (t, .ret result)

/-- Every call can be seen. -/
theorem calledOps_observed (points : List (Thread × Point Op Result)) :
    calledOps (observed points) = points.filterMap fun point => match point.2 with
      | .call op => some op
      | _ => none := by
  rw [calledOps, observed, List.filterMap_filterMap]
  congr 1
  funext ⟨t, point⟩
  cases point <;> rfl

/-- Calls come in the order of the history. -/
theorem calledOps_append {history later : List (Thread × (Op ⊕ Result))} :
    calledOps (history ++ later) = calledOps history ++ calledOps later :=
  List.filterMap_append

/-- A call that is made can be seen. -/
theorem mem_calledOps {points : List (Thread × Point Op Result)} {t : Thread} {op : Op}
    (h : (t, .call op) ∈ points) : op ∈ calledOps (observed points) := by
  rw [calledOps_observed]
  exact List.mem_filterMap.mpr ⟨_, h, rfl⟩

variable [DecidableEq Thread] {Apply : State → Op → Result → State → Prop}
  {phases phases' : Thread → Phase Op Result} {s s' : State}
  {points later : List (Thread × Point Op Result)} {t : Thread} {op : Op} {result : Result}

/-- One point is a history. -/
theorem Points.single {point : Point Op Result} {phase : Phase Op Result}
    (hPhase : (phases t).Next point phase) (hAffects : Affects Apply s point s') :
    Points Apply phases s [(t, point)] (Function.update phases t phase) s' :=
  .cons hPhase hAffects (.nil _ _)

/-- Histories may be cut anywhere. -/
theorem points_append {phases'' : Thread → Phase Op Result} {s'' : State} :
    Points Apply phases s (points ++ later) phases'' s'' ↔ ∃ phases' s',
      Points Apply phases s points phases' s' ∧ Points Apply phases' s' later phases'' s'' := by
  constructor
  · intro h
    induction points generalizing phases s with
    | nil => exact ⟨phases, s, .nil _ _, h⟩
    | cons point points ih =>
        cases h with
        | cons hPhase hAffects hLater =>
            obtain ⟨phases', s', hFirst, hRest⟩ := ih hLater
            exact ⟨phases', s', .cons hPhase hAffects hFirst, hRest⟩
  · rintro ⟨phases', s', hFirst, hRest⟩
    induction hFirst with
    | nil => exact hRest
    | cons hPhase hAffects _ ih => exact .cons hPhase hAffects (ih hRest)

/-- An effect is one that the object allows. -/
theorem Points.applies (h : Points Apply phases s points phases' s')
    (hMem : (t, .effect op result) ∈ points) : ∃ s s', Apply s op result s' := by
  induction h with
  | nil => cases hMem
  | cons _ hAffects _ ih =>
      cases hMem with
      | head =>
          cases hAffects with
          | effect hApply => exact ⟨_, _, hApply⟩
      | tail _ hLater => exact ih hLater

/-- A call that returns has taken effect. -/
theorem Points.effect_of_ret (h : Points Apply phases s points phases' s')
    (hMem : (t, .ret result) ∈ points) :
    phases t = .effected result ∨ ∃ op, (t, .effect op result) ∈ points := by
  induction h with
  | nil => cases hMem
  | @cons phases phases' s s' s'' t' point phase later hPhase hAffects hLater ih =>
      generalize hOld : phases t' = old at hPhase
      cases hMem with
      | head =>
          cases hPhase
          exact .inl hOld
      | tail _ hMem =>
          rcases ih hMem with hNow | ⟨op, hEffect⟩
          · by_cases hSame : t = t'
            · subst hSame
              rw [Function.update_self] at hNow
              subst hNow
              cases hPhase
              exact .inr ⟨_, List.mem_cons_self⟩
            · rw [Function.update_of_ne hSame] at hNow
              exact .inl hNow
          · exact .inr ⟨op, List.mem_cons_of_mem _ hEffect⟩

/-- Every call takes effect once, or is pending. -/
theorem Points.calledOps_eq [Fintype Thread] (h : Points Apply phases s points phases' s') :
    (calledOps (observed points) : Multiset Op) + crewTotal Phase.pending phases =
      effectedOps points + crewTotal Phase.pending phases' := by
  rw [calledOps_observed]
  induction h with
  | nil => rfl
  | @cons phases phases' s s' s'' t point phase later hPhase hAffects hLater ih =>
      rw [crewTotal_update] at ih
      rw [crewTotal_split _ phases t]
      generalize hOld : phases t = old at hPhase
      rw [effectedOps] at ih ⊢
      cases hPhase with
      | call op =>
          simp only [Phase.pending_called, Phase.pending_idle, List.filterMap_cons] at ih ⊢
          rw [← ih, ← Multiset.cons_coe, ← Multiset.singleton_add]
          abel
      | effect op result =>
          simp only [Phase.pending_called, Phase.pending_effected, List.filterMap_cons] at ih ⊢
          rw [← Multiset.cons_coe, ← Multiset.singleton_add, add_assoc, ← ih]
          abel
      | ret result => exact ih

/-- Nothing takes effect that was not called. -/
theorem Points.effectedOps_le [Fintype Thread] (h : Points Apply (fun _ => .idle) s points phases' s') :
    (effectedOps points : Multiset Op) ≤ calledOps (observed points) := by
  have hCalls := h.calledOps_eq
  have hNone : crewTotal Phase.pending (fun _ : Thread => (.idle : Phase Op Result)) = 0 :=
    crewTotal_eq_zero fun _ => rfl
  rw [hNone, add_zero] at hCalls
  rw [hCalls]
  exact Multiset.le_add_right _ _

/-- An effect whose call has returned is before every effect of a call that is made afterwards. -/
theorem Points.effect_before_call {t' : Thread} {op' : Op}
    (h : Points Apply (fun _ => .idle) s points phases' s')
    (hOrder : [(t, .inr result), (t', .inl op')].Sublist (observed points)) :
    ∃ before after, points = before ++ after ∧ (∃ op, (t, .effect op result) ∈ before) ∧
      (t', .call op') ∈ after := by
  have hPoints := (hOrder.map Point.ofObserved).trans (observed_sublist points)
  obtain ⟨before, after, rfl, hRet, hCall⟩ := List.cons_sublist_iff.mp hPoints
  obtain ⟨phases, s, hBefore, _⟩ := points_append.mp h
  refine ⟨before, after, rfl, ?_, List.singleton_sublist.mp hCall⟩
  exact (hBefore.effect_of_ret hRet).resolve_left nofun

/-- The same for two calls that have both returned. -/
theorem Points.effect_before_effect {t' : Thread} {op' : Op} {result' : Result}
    (h : Points Apply (fun _ => .idle) s points phases' s')
    (hOrder : [(t, .inr result), (t', .inl op'), (t', .inr result')].Sublist (observed points)) :
    ∃ before after, points = before ++ after ∧ (∃ op, (t, .effect op result) ∈ before) ∧
      ∃ op, (t', .effect op result') ∈ after := by
  have hPoints := (hOrder.map Point.ofObserved).trans (observed_sublist points)
  obtain ⟨before, rest, rfl, hRet, hLater⟩ := List.cons_sublist_iff.mp hPoints
  obtain ⟨first, last, rfl, hCall, hRet'⟩ := List.cons_sublist_iff.mp hLater
  obtain ⟨early, late, rfl⟩ := List.append_of_mem hCall
  rw [List.append_assoc, List.cons_append, ← List.append_assoc] at h
  obtain ⟨phases, s, hBefore, hAfter⟩ := points_append.mp h
  refine ⟨before ++ early, (t', .call op') :: (late ++ last), by simp [Point.ofObserved], ?_, ?_⟩
  · obtain ⟨op, hEffect⟩ := (hBefore.effect_of_ret (List.mem_append_left early hRet)).resolve_left nofun
    exact ⟨op, hEffect⟩
  · cases hAfter with
    | cons hPhase hAffects hRest =>
        generalize phases t' = old at hPhase
        cases hPhase
        have hMem : (t', .ret result') ∈ late ++ last :=
          List.mem_append_right late (List.singleton_sublist.mp hRet')
        rcases hRest.effect_of_ret hMem with hNow | ⟨op, hEffect⟩
        · rw [Function.update_self] at hNow
          cases hNow
        · exact ⟨op, List.mem_cons_of_mem _ hEffect⟩

end Facts

section Fifo

variable {Value : Type v}

inductive FifoOp (Value : Type v) where
  | enqueue (v : Value)
  | tryDequeue
  deriving DecidableEq

/-- What a queue answers. An enqueue may fail for want of memory. -/
inductive FifoResult (Value : Type v) where
  | enqueued (v : Value)
  | threw (v : Value)
  | dequeued (v : Value)
  | empty

/-- The queue by itself. `mayRefuse` says of which contents it may say that it is empty. -/
inductive FifoApply (mayRefuse : List Value → Prop) :
    List Value → FifoOp Value → FifoResult Value → List Value → Prop where
  | enqueue (values : List Value) (v : Value) :
      FifoApply mayRefuse values (.enqueue v) (.enqueued v) (values ++ [v])
  | throw (values : List Value) (v : Value) : FifoApply mayRefuse values (.enqueue v) (.threw v) values
  | dequeue (v : Value) (values : List Value) :
      FifoApply mayRefuse (v :: values) .tryDequeue (.dequeued v) values
  | refuse {values : List Value} (h : mayRefuse values) :
      FifoApply mayRefuse values .tryDequeue .empty values

/-- The values that have come into the queue. -/
def entered (points : List (Thread × Point (FifoOp Value) (FifoResult Value))) : List Value :=
  points.filterMap fun point => match point.2 with
    | .effect _ (.enqueued v) => some v
    | _ => none

/-- The values that have left it. -/
def left (points : List (Thread × Point (FifoOp Value) (FifoResult Value))) : List Value :=
  points.filterMap fun point => match point.2 with
    | .effect _ (.dequeued v) => some v
    | _ => none

/-- Values enter in the order of the effects. -/
theorem entered_append {points later : List (Thread × Point (FifoOp Value) (FifoResult Value))} :
    entered (points ++ later) = entered points ++ entered later :=
  List.filterMap_append

/-- And leave in that order. -/
theorem left_append {points later : List (Thread × Point (FifoOp Value) (FifoResult Value))} :
    left (points ++ later) = left points ++ left later :=
  List.filterMap_append

/-- A value has entered if some `Enqueue` of it took effect. -/
theorem mem_entered {points : List (Thread × Point (FifoOp Value) (FifoResult Value))} {v : Value} :
    v ∈ entered points ↔ ∃ t op, (t, .effect op (.enqueued v)) ∈ points := by
  rw [entered, List.mem_filterMap]
  constructor
  · rintro ⟨⟨t, point⟩, hMem, hValue⟩
    dsimp only at hValue
    split at hValue <;> cases hValue
    exact ⟨t, _, hMem⟩
  · rintro ⟨t, op, hMem⟩
    exact ⟨_, hMem, rfl⟩

/-- A value has left if some dequeue took effect with it. -/
theorem mem_left {points : List (Thread × Point (FifoOp Value) (FifoResult Value))} {v : Value} :
    v ∈ left points ↔ ∃ t op, (t, .effect op (.dequeued v)) ∈ points := by
  rw [left, List.mem_filterMap]
  constructor
  · rintro ⟨⟨t, point⟩, hMem, hValue⟩
    dsimp only at hValue
    split at hValue <;> cases hValue
    exact ⟨t, _, hMem⟩
  · rintro ⟨t, op, hMem⟩
    exact ⟨_, hMem, rfl⟩

variable [DecidableEq Thread] {mayRefuse : List Value → Prop}
  {phases phases' : Thread → Phase (FifoOp Value) (FifoResult Value)} {values values' : List Value}
  {points : List (Thread × Point (FifoOp Value) (FifoResult Value))} {t : Thread}

/-- Values leave in the order in which they came. -/
theorem Points.entered_eq (h : Points (FifoApply mayRefuse) phases values points phases' values') :
    values ++ entered points = left points ++ values' := by
  induction h with
  | nil => simp [entered, left]
  | @cons phases phases' values next values' t point phase later hPhase hAffects hLater ih =>
      cases hAffects with
      | call | ret => exact ih
      | effect hApply =>
          cases hApply with
          | enqueue values v =>
              rw [List.append_assoc] at ih
              exact ih
          | throw | refuse => exact ih
          | dequeue v values => exact congrArg (v :: ·) ih

/-- A value enters by the call that passes it. -/
theorem Points.entered_sublist (h : Points (FifoApply mayRefuse) phases values points phases' values') :
    ((entered points).map FifoOp.enqueue).Sublist (effectedOps points) := by
  induction h with
  | nil => exact .slnil
  | @cons phases phases' values next values' t point phase later hPhase hAffects hLater ih =>
      cases hAffects with
      | call | ret => exact ih
      | effect hApply =>
          cases hApply with
          | enqueue values v => exact ih.cons_cons (.enqueue v)
          | throw values v => exact ih.cons (.enqueue v)
          | dequeue v values => exact ih.cons .tryDequeue
          | refuse hMay => exact ih.cons .tryDequeue

/-- No value enters more often than it was passed in. -/
theorem Points.count_entered_le [Fintype Thread] [DecidableEq Value] (v : Value)
    (h : Points (FifoApply mayRefuse) (fun _ => .idle) values points phases' values') :
    (entered points).count v ≤ (calledOps (observed points)).count (.enqueue v) := by
  have hInjective : Function.Injective (FifoOp.enqueue : Value → FifoOp Value) := by
    intro v v' hSame
    cases hSame
    rfl
  have hEffects := Multiset.count_le_of_le (.enqueue v) h.effectedOps_le
  rw [Multiset.coe_count, Multiset.coe_count] at hEffects
  rw [← List.count_map_of_injective _ _ hInjective]
  exact (h.entered_sublist.count_le _).trans hEffects

/-- Of two values that are enqueued once each, one after the other, the second does not leave in a call
that returns before the call in which the first leaves is made. -/
theorem Linearizable.in_order [Fintype Thread] [DecidableEq Value]
    {history : List (Thread × (FifoOp Value ⊕ FifoResult Value))}
    (h : Linearizable (FifoApply mayRefuse) [] history) {a b : Value} {t₁ t₂ t₃ t₄ : Thread}
    (hOnceA : (calledOps history).count (.enqueue a) ≤ 1)
    (hOnceB : (calledOps history).count (.enqueue b) ≤ 1)
    (hIn : [(t₁, .inr (.enqueued a)), (t₂, .inl (.enqueue b))].Sublist history) :
    ¬ [(t₃, .inr (.dequeued b)), (t₄, .inl .tryDequeue), (t₄, .inr (.dequeued a))].Sublist
      history := by
  intro hOut
  obtain ⟨points, phases, values, hPoints, rfl⟩ := h
  obtain ⟨before, after, hSplit, ⟨op, hInA⟩, hCallB⟩ := hPoints.effect_before_call hIn
  obtain ⟨early, late, hSplit', ⟨opB, hOutB⟩, opA, hOutA⟩ := hPoints.effect_before_effect hOut
  have hEnteredA : a ∈ entered before := mem_entered.mpr ⟨t₁, op, hInA⟩
  have hLeftB : b ∈ left early := mem_left.mpr ⟨t₃, opB, hOutB⟩
  have hLeftA : a ∈ left late := mem_left.mpr ⟨t₄, opA, hOutA⟩
  have hCount := (hPoints.count_entered_le a).trans hOnceA
  have hEntered : entered before ++ entered after = left early ++ (left late ++ values) := by
    rw [← entered_append, ← hSplit, ← List.append_assoc, ← left_append, ← hSplit']
    exact hPoints.entered_eq
  -- The one call that passes `b` comes later.
  have hNotB : b ∉ entered before := by
    intro hEnteredB
    rw [hSplit] at hPoints hOnceB
    obtain ⟨_, _, hBefore, _⟩ := points_append.mp hPoints
    have hPassed := hBefore.count_entered_le b
    have hEarlier := List.count_pos_iff.mpr hEnteredB
    have hLater := List.count_pos_iff.mpr (mem_calledOps hCallB)
    rw [observed_append, calledOps_append, List.count_append] at hOnceB
    omega
  rw [hSplit, entered_append, hEntered] at hCount
  rcases List.append_eq_append_iff.mp hEntered with ⟨middle, hEarly, _⟩ | ⟨middle, hBefore, _⟩
  · have hTwice : a ∈ left early := by
      rw [hEarly]
      exact List.mem_append_left middle hEnteredA
    have hFirst := List.count_pos_iff.mpr hTwice
    have hSecond := List.count_pos_iff.mpr hLeftA
    rw [List.count_append, List.count_append] at hCount
    omega
  · apply hNotB
    rw [hBefore]
    exact List.mem_append_left middle hLeftB

end Fifo

end NfNetwork.Machinery
