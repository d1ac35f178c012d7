import NfNetwork.Machinery.Loop

/-! Incremental framing of a byte stream. A `Framer` looks at the unparsed
bytes and either waits, stops for good or consumes one frame, and its decisions
do not change when more bytes arrive. From that alone, cutting the stream into
completions cannot change what is delivered: `run_eq_parse`. -/
namespace NfNetwork.Machinery

universe u v w

/-- A decision on the unparsed bytes. -/
inductive Verdict (Out : Type u) (Stop : Type v) where
  | wait
  | stop (reason : Stop)
  | emit (out : Out) (consumed : Nat)

/-- A framing rule whose verdicts are stable under arrival of more bytes. -/
structure Framer (Out : Type u) (Stop : Type v) where
  next : List UInt8 → Verdict Out Stop
  wait_nil : next [] = .wait
  emit_bounds : ∀ {bytes out consumed}, next bytes = .emit out consumed →
    0 < consumed ∧ consumed ≤ bytes.length
  stop_append : ∀ {bytes reason} more, next bytes = .stop reason →
    next (bytes ++ more) = .stop reason
  emit_append : ∀ {bytes out consumed} more, next bytes = .emit out consumed →
    next (bytes ++ more) = .emit out consumed

/-- Everything a stream amounts to: what was delivered, whether framing was
stopped, and the bytes left over. -/
structure Parsed (Out : Type u) (Stop : Type v) where
  outs : List Out
  stopped : Option Stop
  rest : List UInt8

namespace Framer

variable {Out : Type u} {Stop : Type v} (F : Framer Out Stop)

/-- The greedy parser, run once over a whole stream. -/
def parse (bytes : List UInt8) : Parsed Out Stop :=
  match _h : F.next bytes with
  | .wait => ⟨[], none, bytes⟩
  | .stop reason => ⟨[], some reason, bytes⟩
  | .emit out consumed =>
      let later := parse (bytes.drop consumed)
      { later with outs := out :: later.outs }
termination_by bytes.length
decreasing_by
  have := F.emit_bounds _h
  rw [List.length_drop]
  omega

variable {F}

theorem parse_of_wait {bytes : List UInt8} (h : F.next bytes = .wait) :
    F.parse bytes = ⟨[], none, bytes⟩ := by
  rw [parse]
  split <;> simp_all

theorem parse_of_stop {bytes : List UInt8} {reason : Stop} (h : F.next bytes = .stop reason) :
    F.parse bytes = ⟨[], some reason, bytes⟩ := by
  rw [parse]
  split <;> simp_all

theorem parse_of_emit {bytes : List UInt8} {out : Out} {consumed : Nat}
    (h : F.next bytes = .emit out consumed) :
    F.parse bytes = { F.parse (bytes.drop consumed) with
      outs := out :: (F.parse (bytes.drop consumed)).outs } := by
  rw [parse]
  split <;> simp_all

/-- Induction along the parser's own passes. -/
theorem parse_induction {motive : List UInt8 → Prop}
    (wait : ∀ bytes, F.next bytes = .wait → motive bytes)
    (stop : ∀ bytes reason, F.next bytes = .stop reason → motive bytes)
    (emit : ∀ bytes out consumed, F.next bytes = .emit out consumed →
      motive (bytes.drop consumed) → motive bytes)
    (bytes : List UInt8) : motive bytes := by
  induction hLength : bytes.length using Nat.strongRecOn generalizing bytes with
  | _ n ih =>
      cases hNext : F.next bytes with
      | wait => exact wait bytes hNext
      | stop reason => exact stop bytes reason hNext
      | emit out consumed =>
          have hBounds := F.emit_bounds hNext
          refine emit bytes out consumed hNext (ih _ ?_ _ rfl)
          rw [List.length_drop]
          omega

/-- A parse leaves over no more than it was given. -/
theorem length_rest_le (bytes : List UInt8) : (F.parse bytes).rest.length ≤ bytes.length := by
  induction bytes using F.parse_induction with
  | wait bytes hNext => simp [parse_of_wait hNext]
  | stop bytes reason hNext => simp [parse_of_stop hNext]
  | emit bytes out consumed hNext ih =>
      rw [parse_of_emit hNext]
      rw [List.length_drop] at ih
      exact Nat.le_trans ih (Nat.sub_le ..)

/-- Left-over bytes of an unstopped parse are waited on. -/
theorem next_rest_of_waiting {bytes : List UInt8} (h : (F.parse bytes).stopped = none) :
    F.next (F.parse bytes).rest = .wait := by
  induction bytes using F.parse_induction with
  | wait bytes hNext => rwa [parse_of_wait hNext]
  | stop bytes reason hNext =>
      rw [parse_of_stop hNext] at h
      cases h
  | emit bytes out consumed hNext ih =>
      rw [parse_of_emit hNext] at h ⊢
      exact ih h

/-- Parsing may be suspended whenever it waits and resumed on the left-over
bytes followed by the new ones. -/
theorem parse_append_of_waiting {bytes : List UInt8} (more : List UInt8)
    (h : (F.parse bytes).stopped = none) :
    F.parse (bytes ++ more) = { F.parse ((F.parse bytes).rest ++ more) with
      outs := (F.parse bytes).outs ++ (F.parse ((F.parse bytes).rest ++ more)).outs } := by
  induction bytes using F.parse_induction with
  | wait bytes hNext =>
      rw [parse_of_wait hNext]
      simp
  | stop bytes reason hNext =>
      rw [parse_of_stop hNext] at h
      cases h
  | emit bytes out consumed hNext ih =>
      have hBounds := F.emit_bounds hNext
      rw [parse_of_emit hNext] at h ⊢
      rw [parse_of_emit (F.emit_append more hNext), List.drop_append_of_le_length hBounds.2, ih h]
      simp

/-- After a stop, later bytes change nothing. -/
theorem parse_append_of_stopped {bytes : List UInt8} {reason : Stop} (more : List UInt8)
    (h : (F.parse bytes).stopped = some reason) :
    (F.parse (bytes ++ more)).outs = (F.parse bytes).outs ∧
      (F.parse (bytes ++ more)).stopped = some reason := by
  induction bytes using F.parse_induction with
  | wait bytes hNext =>
      rw [parse_of_wait hNext] at h
      cases h
  | stop bytes reason' hNext =>
      rw [parse_of_stop hNext] at h
      cases h
      rw [parse_of_stop hNext, parse_of_stop (F.stop_append more hNext)]
      exact ⟨rfl, rfl⟩
  | emit bytes out consumed hNext ih =>
      have hBounds := F.emit_bounds hNext
      rw [parse_of_emit hNext] at h ⊢
      obtain ⟨hOuts, hStopped⟩ := ih h
      rw [parse_of_emit (F.emit_append more hNext), List.drop_append_of_le_length hBounds.2]
      exact ⟨by simp [hOuts], hStopped⟩

end Framer

/-- How the state of a parsing program is read: what it has delivered, which
left-over bytes it holds while it waits, and how it looks after a stop. -/
structure Reading (State : Type w) (Out : Type u) (Stop : Type v) where
  outputs : State → List Out
  Holds : State → List UInt8 → Prop
  Ended : Stop → State → Prop

namespace Reading

variable {Out : Type u} {Stop : Type v} {State : Type w} (R : Reading State Out Stop)
  {F : Framer Out Stop}

/-- The pass that a verdict calls for. -/
inductive Follows (s : State) (bytes : List UInt8) :
    Verdict Out Stop → Pass State (State × Option Stop) → Prop where
  | wait : Follows s bytes .wait (.leave (s, none))
  | stop {reason : Stop} {s' : State} (hOutputs : R.outputs s' = R.outputs s)
      (hEnded : R.Ended reason s') : Follows s bytes (.stop reason) (.leave (s', some reason))
  | emit {out : Out} {consumed : Nat} {s' : State} (hOutputs : R.outputs s' = R.outputs s ++ [out])
      (hHolds : R.Holds s' (bytes.drop consumed)) :
      Follows s bytes (.emit out consumed) (.again s')

/-- From `s` the program has reached `s'` by handling what `result` describes. -/
structure Reached (s s' : State) (result : Parsed Out Stop) : Prop where
  outputs : R.outputs s' = R.outputs s ++ result.outs
  waiting : result.stopped = none → R.Holds s' result.rest
  ended : ∀ {reason}, result.stopped = some reason → R.Ended reason s'

variable {R}

/-- A loop whose passes follow the framer's verdicts computes the parse, in no
more passes than there are unparsed bytes, plus one. -/
theorem loop_eq_parse {body : State → Pass State (State × Option Stop)}
    (hBody : ∀ {s bytes}, R.Holds s bytes → R.Follows s bytes (F.next bytes) (body s))
    {s : State} {bytes : List UInt8} (h : R.Holds s bytes) {passes : Nat}
    (hPasses : bytes.length < passes) :
    ∃ s', loop body passes s = some (s', (F.parse bytes).stopped) ∧
      R.Reached s s' (F.parse bytes) := by
  obtain ⟨passes, rfl⟩ : ∃ n, passes = n + 1 := ⟨passes - 1, by omega⟩
  have hFollows := hBody h
  induction bytes using F.parse_induction generalizing s passes with
  | wait bytes hNext =>
      rw [hNext] at hFollows
      generalize hPass : body s = pass at hFollows
      cases hFollows with
      | wait =>
          rw [Framer.parse_of_wait hNext]
          exact ⟨s, loop_of_leave hPass _, by simp, fun _ => h, nofun⟩
  | stop bytes reason hNext =>
      rw [hNext] at hFollows
      generalize hPass : body s = pass at hFollows
      cases hFollows with
      | @stop _ s' hOutputs hEnded =>
          rw [Framer.parse_of_stop hNext]
          refine ⟨s', loop_of_leave hPass _, by simpa using hOutputs, nofun, ?_⟩
          rintro _ ⟨⟩
          exact hEnded
  | emit bytes out consumed hNext ih =>
      rw [hNext] at hFollows
      generalize hPass : body s = pass at hFollows
      cases hFollows with
      | @emit _ _ next hOutputs hHolds =>
          have hBounds := F.emit_bounds hNext
          have hFewer : (bytes.drop consumed).length < passes := by
            rw [List.length_drop]
            omega
          obtain ⟨passes, rfl⟩ : ∃ n, passes = n + 1 := ⟨passes - 1, by omega⟩
          obtain ⟨s', hLoop, hReached⟩ := ih hHolds passes hFewer (hBody hHolds)
          rw [Framer.parse_of_emit hNext]
          refine ⟨s', (loop_of_again hPass _).trans hLoop, ?_, hReached.waiting, hReached.ended⟩
          rw [hReached.outputs, hOutputs, List.append_assoc]
          rfl

end Reading

section Completions

variable {Out : Type u} {Stop : Type v} {State : Type w}

/-- Handle completions until the stream ends or handling one of them stops. -/
def run (deliver : State → List UInt8 → Option (State × Option Stop)) :
    State → List (List UInt8) → Option (State × Option Stop)
  | state, [] => some (state, none)
  | state, bytes :: later => match deliver state bytes with
    | none => none
    | some (next, none) => run deliver next later
    | some (next, some reason) => some (next, some reason)

/-- What handling a completion keeps, a run keeps, stopped or not. -/
theorem run_keeps (Inv : State → Prop) {deliver : State → List UInt8 → Option (State × Option Stop)}
    (hDeliver : ∀ {s bytes result}, Inv s → deliver s bytes = some result → Inv result.1)
    {s : State} {cut : List (List UInt8)} {result : State × Option Stop} (hInv : Inv s)
    (hRun : run deliver s cut = some result) : Inv result.1 := by
  induction cut generalizing s with
  | nil =>
      cases hRun
      exact hInv
  | cons bytes later ih =>
      rw [run] at hRun
      split at hRun
      · cases hRun
      · rename_i next hNext
        exact ih (hDeliver hInv hNext) hRun
      · rename_i next reason hNext
        cases hRun
        exact hDeliver hInv hNext

/-- Every completion is non-empty and fits the room there is when it arrives.
Completions after a stop never arrive, so nothing is asked of them. -/
def Fits (deliver : State → List UInt8 → Option (State × Option Stop)) (room : State → Nat) :
    State → List (List UInt8) → Prop
  | _, [] => True
  | state, bytes :: later => bytes ≠ [] ∧ bytes.length ≤ room state ∧
      ∀ next, deliver state bytes = some (next, none) → Fits deliver room next later

/-- What handling an admissible completion keeps holds whenever one arrives, and the one
that arrives fits. -/
theorem Fits.at_completion (Inv : State → Prop)
    {deliver : State → List UInt8 → Option (State × Option Stop)} {room : State → Nat}
    (hDeliver : ∀ {s s' bytes}, Inv s → bytes ≠ [] → bytes.length ≤ room s →
      deliver s bytes = some (s', none) → Inv s')
    {s s' : State} {before after : List (List UInt8)} {bytes : List UInt8} (hInv : Inv s)
    (hFits : Fits deliver room s (before ++ bytes :: after))
    (hRun : run deliver s before = some (s', none)) :
    Inv s' ∧ bytes ≠ [] ∧ bytes.length ≤ room s' := by
  induction before generalizing s with
  | nil =>
      cases hRun
      exact ⟨hInv, hFits.1, hFits.2.1⟩
  | cons first before ih =>
      obtain ⟨hNonempty, hRoom, hLater⟩ := hFits
      rw [run] at hRun
      split at hRun
      · cases hRun
      · rename_i next hNext
        exact ih (hDeliver hInv hNonempty hRoom hNext) (hLater next hNext) hRun
      · cases hRun

/-- If handling one completion parses what is left over followed by the new
bytes, then handling any admissible cut of a stream parses the stream. -/
theorem run_eq_parse {F : Framer Out Stop} {R : Reading State Out Stop}
    {deliver : State → List UInt8 → Option (State × Option Stop)} {room : State → Nat}
    (hDeliver : ∀ {s left bytes}, R.Holds s left → bytes ≠ [] → bytes.length ≤ room s →
      ∃ s', deliver s bytes = some (s', (F.parse (left ++ bytes)).stopped) ∧
        R.Reached s s' (F.parse (left ++ bytes)))
    {s : State} {left : List UInt8} (hHolds : R.Holds s left) (hWaiting : F.next left = .wait)
    {cut : List (List UInt8)} (hFits : Fits deliver room s cut) :
    ∃ s', run deliver s cut = some (s', (F.parse (left ++ cut.flatten)).stopped) ∧
      R.Reached s s' (F.parse (left ++ cut.flatten)) := by
  induction cut generalizing s left with
  | nil =>
      rw [List.flatten_nil, List.append_nil, Framer.parse_of_wait hWaiting]
      exact ⟨s, rfl, by simp, fun _ => hHolds, nofun⟩
  | cons bytes later ih =>
      obtain ⟨hNonempty, hRoom, hLater⟩ := hFits
      obtain ⟨next, hNext, hReached⟩ := hDeliver hHolds hNonempty hRoom
      rw [List.flatten_cons, ← List.append_assoc]
      cases hStopped : (F.parse (left ++ bytes)).stopped with
      | none =>
          rw [hStopped] at hNext
          obtain ⟨s', hRun, hRest⟩ :=
            ih (hReached.waiting hStopped) (Framer.next_rest_of_waiting hStopped) (hLater next hNext)
          rw [Framer.parse_append_of_waiting _ hStopped]
          refine ⟨s', by simp only [run, hNext, hRun], ?_, hRest.waiting, hRest.ended⟩
          rw [hRest.outputs, hReached.outputs, List.append_assoc]
      | some reason =>
          rw [hStopped] at hNext
          obtain ⟨hOuts, hStop⟩ := Framer.parse_append_of_stopped later.flatten hStopped
          rw [hStop]
          refine ⟨next, by simp only [run, hNext], ?_, ?_, ?_⟩
          · rw [hOuts, hReached.outputs]
          · intro hNone
            rw [hStop] at hNone
            cases hNone
          · intro reason' hReason
            rw [hStop] at hReason
            cases hReason
            exact hReached.ended hStopped

/-- A stream that a queue of `size` bytes has room for may be cut anywhere, whatever of it is consumed
in between. -/
theorem fits_of_length {F : Framer Out Stop} {R : Reading State Out Stop}
    {deliver : State → List UInt8 → Option (State × Option Stop)} {room : State → Nat} {size : Nat}
    (hDeliver : ∀ {s left bytes}, R.Holds s left → bytes ≠ [] → bytes.length ≤ room s →
      ∃ s', deliver s bytes = some (s', (F.parse (left ++ bytes)).stopped) ∧
        R.Reached s s' (F.parse (left ++ bytes)))
    (hRoom : ∀ {s left}, R.Holds s left → room s = size - left.length)
    {s : State} {left : List UInt8} (hHolds : R.Holds s left) {cut : List (List UInt8)}
    (hSome : ∀ bytes ∈ cut, bytes ≠ []) (hLength : left.length + cut.flatten.length ≤ size) :
    Fits deliver room s cut := by
  induction cut generalizing s left with
  | nil => trivial
  | cons bytes later ih =>
      have hNonempty := hSome bytes (List.mem_cons_self ..)
      rw [List.flatten_cons, List.length_append] at hLength
      have hFirst : bytes.length ≤ room s := by
        rw [hRoom hHolds]
        omega
      refine ⟨hNonempty, hFirst, fun next hNext => ?_⟩
      obtain ⟨s', hDelivered, hReached⟩ := hDeliver hHolds hNonempty hFirst
      obtain ⟨rfl, hStopped⟩ := Prod.mk.inj (Option.some.inj (hDelivered.symm.trans hNext))
      have hRest := F.length_rest_le (left ++ bytes)
      rw [List.length_append] at hRest
      refine ih (hReached.waiting hStopped) (fun bytes hMem => hSome bytes (List.mem_cons_of_mem _ hMem)) ?_
      omega

end Completions

end NfNetwork.Machinery
