import Mathlib.Tactic.Common

/-! A partial automaton that reads a log. It refuses a log that is out of order;
`replay` is the state that the log leads to, if it is not refused. -/
namespace NfNetwork.Machinery

universe u v w
variable {State : Type u} {Event : Type v} (next : State → Event → Option State)

def replay : State → List Event → Option State
  | s, [] => some s
  | s, e :: later => match next s e with
    | some s' => replay s' later
    | none => none

variable {next} {s s' : State}

theorem replay_append (log later : List Event) :
    replay next s (log ++ later) = (replay next s log).bind fun s' => replay next s' later := by
  induction log generalizing s with
  | nil => rfl
  | cons e log ih =>
      simp only [List.cons_append, replay]
      cases next s e with
      | none => rfl
      | some s' => exact ih

theorem replay_singleton (e : Event) : replay next s [e] = next s e := by
  rw [replay]
  cases next s e <;> rfl

/-- One more event, read in the state that the log leads to. -/
theorem replay_concat {log : List Event} (h : replay next s log = some s') (e : Event) :
    replay next s (log ++ [e]) = next s' e := by
  rw [replay_append, h, Option.bind_some, replay_singleton]

/-- Entries that leave every state alone may be left out. -/
theorem replay_map_filter {Entry : Type w} (read : Entry → Event) (keep : Entry → Bool)
    {log : List Entry} (hSkip : ∀ x ∈ log, keep x = false → ∀ s, next s (read x) = some s) :
    replay next s ((log.filter keep).map read) = replay next s (log.map read) := by
  induction log generalizing s with
  | nil => rfl
  | cons x log ih =>
      have hLater := fun y hy => hSkip y (List.mem_cons_of_mem x hy)
      cases hKeep : keep x with
      | true =>
          simp only [List.filter_cons_of_pos hKeep, List.map_cons, replay]
          cases next s (read x) with
          | none => rfl
          | some s' => exact ih hLater
      | false =>
          rw [List.filter_cons_of_neg (by simp [hKeep]), List.map_cons, replay,
            hSkip x List.mem_cons_self hKeep]
          exact ih hLater

end NfNetwork.Machinery
