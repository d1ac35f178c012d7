import NfNetwork.Machinery.Framing

/-! Framing by a fixed-size header that announces the size of the body. The rule
rejects a header outright or judges the complete frame; its verdicts are stable,
so it is a `Framer`. -/
namespace NfNetwork.Machinery

universe u v w

/-- A framing rule that looks at one header and then at one complete frame. -/
structure HeaderRule (Header : Type w) (Out : Type u) (Stop : Type v) where
  headerSize : Nat
  headerSize_pos : 0 < headerSize
  read : List UInt8 → Header
  read_append : ∀ {bytes} more, headerSize ≤ bytes.length → read (bytes ++ more) = read bytes
  bodySize : Header → Nat
  reject : Header → Option Stop
  judge : Header → List UInt8 → Except Stop Out

namespace HeaderRule

variable {Header : Type w} {Out : Type u} {Stop : Type v} (R : HeaderRule Header Out Stop)

/-- The size of the frame that the first header announces. -/
def frameSize (bytes : List UInt8) : Nat := R.headerSize + R.bodySize (R.read bytes)

/-- The verdict on the unparsed bytes. -/
def next (bytes : List UInt8) : Verdict Out Stop :=
  if bytes.length < R.headerSize then .wait
  else
    match R.reject (R.read bytes) with
    | some reason => .stop reason
    | none =>
      if bytes.length < R.frameSize bytes then .wait
      else
        match R.judge (R.read bytes) (bytes.take (R.frameSize bytes)) with
        | .error reason => .stop reason
        | .ok out => .emit out (R.frameSize bytes)

/-- The bytes begin with a complete frame under a header that is not rejected. -/
structure CompleteFrame (bytes : List UInt8) : Prop where
  header : R.headerSize ≤ bytes.length
  accepted : R.reject (R.read bytes) = none
  whole : R.frameSize bytes ≤ bytes.length

/-- The stages at which a verdict falls, with what is known there. -/
inductive Stage (bytes : List UInt8) : Verdict Out Stop → Prop where
  | short (h : bytes.length < R.headerSize) : Stage bytes .wait
  | rejected {reason : Stop} (hHeader : R.headerSize ≤ bytes.length)
      (h : R.reject (R.read bytes) = some reason) : Stage bytes (.stop reason)
  | incomplete (hHeader : R.headerSize ≤ bytes.length) (hAccepted : R.reject (R.read bytes) = none)
      (h : bytes.length < R.frameSize bytes) : Stage bytes .wait
  | failed {reason : Stop} (hFrame : R.CompleteFrame bytes)
      (h : R.judge (R.read bytes) (bytes.take (R.frameSize bytes)) = .error reason) :
      Stage bytes (.stop reason)
  | delivered {out : Out} (hFrame : R.CompleteFrame bytes)
      (h : R.judge (R.read bytes) (bytes.take (R.frameSize bytes)) = .ok out) :
      Stage bytes (.emit out (R.frameSize bytes))

theorem next_stage (bytes : List UInt8) : R.Stage bytes (R.next bytes) := by
  unfold next
  rcases Nat.lt_or_ge bytes.length R.headerSize with hShort | hHeader
  · rw [if_pos hShort]
    exact .short hShort
  rw [if_neg (Nat.not_lt.mpr hHeader)]
  cases hReject : R.reject (R.read bytes) with
  | some reason => exact .rejected hHeader hReject
  | none =>
      rcases Nat.lt_or_ge bytes.length (R.frameSize bytes) with hIncomplete | hWhole
      · simp only [if_pos hIncomplete]
        exact .incomplete hHeader hReject hIncomplete
      simp only [if_neg (Nat.not_lt.mpr hWhole)]
      have hFrame : R.CompleteFrame bytes := ⟨hHeader, hReject, hWhole⟩
      cases hJudge : R.judge (R.read bytes) (bytes.take (R.frameSize bytes)) with
      | error reason => exact .failed hFrame hJudge
      | ok out => exact .delivered hFrame hJudge

variable {R}

theorem Stage.next_eq {bytes : List UInt8} {verdict : Verdict Out Stop}
    (h : R.Stage bytes verdict) : R.next bytes = verdict := by
  unfold next
  cases h with
  | short h => exact if_pos h
  | rejected hHeader h => rw [if_neg (Nat.not_lt.mpr hHeader), h]
  | incomplete hHeader hAccepted h =>
      rw [if_neg (Nat.not_lt.mpr hHeader), hAccepted]
      exact if_pos h
  | failed hFrame h =>
      rw [if_neg (Nat.not_lt.mpr hFrame.header), hFrame.accepted, h]
      exact if_neg (Nat.not_lt.mpr hFrame.whole)
  | delivered hFrame h =>
      rw [if_neg (Nat.not_lt.mpr hFrame.header), hFrame.accepted, h]
      exact if_neg (Nat.not_lt.mpr hFrame.whole)

/-- A complete frame is judged. -/
theorem CompleteFrame.next_eq {bytes : List UInt8} (h : R.CompleteFrame bytes) :
    R.next bytes = match R.judge (R.read bytes) (bytes.take (R.frameSize bytes)) with
      | .error reason => .stop reason
      | .ok out => .emit out (R.frameSize bytes) := by
  cases hJudge : R.judge (R.read bytes) (bytes.take (R.frameSize bytes)) with
  | error reason => exact (Stage.failed h hJudge).next_eq
  | ok out => exact (Stage.delivered h hJudge).next_eq

/-- The verdict determines the stage. -/
theorem stage_of_next {bytes : List UInt8} {verdict : Verdict Out Stop}
    (h : R.next bytes = verdict) : R.Stage bytes verdict := h ▸ R.next_stage bytes

section Append

variable {bytes : List UInt8} (more : List UInt8)

theorem le_append_length {n : Nat} (h : n ≤ bytes.length) : n ≤ (bytes ++ more).length := by
  rw [List.length_append]
  exact Nat.le_trans h (Nat.le_add_right _ _)

theorem frameSize_append (h : R.headerSize ≤ bytes.length) :
    R.frameSize (bytes ++ more) = R.frameSize bytes := by
  rw [frameSize, frameSize, R.read_append more h]

theorem CompleteFrame.append (h : R.CompleteFrame bytes) : R.CompleteFrame (bytes ++ more) where
  header := le_append_length more h.header
  accepted := by rw [R.read_append more h.header, h.accepted]
  whole := by
    rw [frameSize_append more h.header]
    exact le_append_length more h.whole

theorem CompleteFrame.judge_append (h : R.CompleteFrame bytes) :
    R.judge (R.read (bytes ++ more)) ((bytes ++ more).take (R.frameSize (bytes ++ more))) =
      R.judge (R.read bytes) (bytes.take (R.frameSize bytes)) := by
  rw [R.read_append more h.header, frameSize_append more h.header,
    List.take_append_of_le_length h.whole]

end Append

variable (R)

/-- The rule as a framer: a verdict other than waiting is final. -/
def toFramer : Framer Out Stop where
  next := R.next
  wait_nil := if_pos R.headerSize_pos
  emit_bounds := by
    intro bytes out consumed h
    cases stage_of_next h with
    | delivered hFrame _ =>
        exact ⟨Nat.lt_of_lt_of_le R.headerSize_pos (Nat.le_add_right _ _), hFrame.whole⟩
  stop_append := by
    intro bytes reason more h
    apply Stage.next_eq
    cases stage_of_next h with
    | rejected hHeader h =>
        exact .rejected (le_append_length more hHeader) (by rw [R.read_append more hHeader, h])
    | failed hFrame h => exact .failed (hFrame.append more) ((hFrame.judge_append more).trans h)
  emit_append := by
    intro bytes out consumed more h
    apply Stage.next_eq
    cases stage_of_next h with
    | delivered hFrame hOut =>
        rw [← frameSize_append more hFrame.header]
        exact .delivered (hFrame.append more) ((hFrame.judge_append more).trans hOut)

end HeaderRule

end NfNetwork.Machinery
