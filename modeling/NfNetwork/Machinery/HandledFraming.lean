import NfNetwork.Machinery.Framing

/-! A parser whose outputs are handled one by one, by a handler that may fail and end the run, and a
program that may be interrupted right after it has delivered an output. -/
namespace NfNetwork.Machinery

universe u v w x
variable {Out : Type u} {Stop : Type v} {Out' : Type w} {Stop' : Type x}

section HandleAll

end HandleAll

/-- The verdict with its output handled. -/
def Verdict.handled (handle : Out → Except Stop' Out') (lift : Stop → Stop') :
    Verdict Out Stop → Verdict Out' Stop'
  | .wait => .wait
  | .stop reason => .stop (lift reason)
  | .emit out consumed => match handle out with
    | .error reason => .stop reason
    | .ok out' => .emit out' consumed

namespace Framer

variable {F : Framer Out Stop} {handle : Out → Except Stop' Out'} {lift : Stop → Stop'}
  {bytes : List UInt8}

theorem handled_emit_bounds {out' : Out'} {consumed : Nat}
    (h : (F.next bytes).handled handle lift = .emit out' consumed) :
    0 < consumed ∧ consumed ≤ bytes.length := by
  cases hNext : F.next bytes with
  | wait | stop =>
      rw [hNext] at h
      cases h
  | emit out consumed' =>
      rw [hNext, Verdict.handled] at h
      split at h
      · cases h
      · cases h
        exact F.emit_bounds hNext

theorem handled_append {verdict : Verdict Out' Stop'} (more : List UInt8) (hWait : verdict ≠ .wait)
    (h : (F.next bytes).handled handle lift = verdict) :
    (F.next (bytes ++ more)).handled handle lift = verdict := by
  cases hNext : F.next bytes with
  | wait =>
      rw [hNext] at h
      exact absurd h.symm hWait
  | stop reason => rwa [F.stop_append more hNext, ← hNext]
  | emit out consumed => rwa [F.emit_append more hNext, ← hNext]

theorem handled_stop_append {reason : Stop'} (more : List UInt8)
    (h : (F.next bytes).handled handle lift = .stop reason) :
    (F.next (bytes ++ more)).handled handle lift = .stop reason :=
  handled_append more (by simp) h

theorem handled_emit_append {out' : Out'} {consumed : Nat} (more : List UInt8)
    (h : (F.next bytes).handled handle lift = .emit out' consumed) :
    (F.next (bytes ++ more)).handled handle lift = .emit out' consumed :=
  handled_append more (by simp) h

/-- The parser of the handled outputs. -/
def handled (F : Framer Out Stop) (handle : Out → Except Stop' Out') (lift : Stop → Stop') :
    Framer Out' Stop' where
  next bytes := (F.next bytes).handled handle lift
  wait_nil := congrArg (Verdict.handled handle lift) F.wait_nil
  emit_bounds := handled_emit_bounds
  stop_append := handled_stop_append
  emit_append := handled_emit_append

end Framer

section InterruptAll

variable {interrupts : Nat → Bool} {reason : Stop} {n : Nat}

end InterruptAll

section Interrupt

variable {State : Type w} {R : Reading State Out Stop} {F : Framer Out Stop} {interrupts : Nat → Bool}
  {reason : Stop} {s : State}

end Interrupt

end NfNetwork.Machinery
