import Mathlib.Algebra.GroupWithZero.Nat
import Mathlib.Algebra.Ring.Int.Defs
import Mathlib.Data.List.Perm.Subperm
import Mathlib.Logic.Function.Basic
import NfNetwork.Machinery.Transition

/-! `Logger`: threads take a number each and then write their texts one at a time, under an SRW lock. -/
namespace NfNetwork.Logging

open Machinery

inductive eLogLevel where
  | Trace
  | Debug
  | Info
  | Warn
  | Error
  | System
deriving DecidableEq

def eLogLevel.value : eLogLevel → Int
  | .Trace => 0
  | .Debug => 1
  | .Info => 2
  | .Warn => 3
  | .Error => 4
  | .System => 5

def getLogName : eLogLevel → List Char
  | .Trace => ['[', 'T', 'r', 'a', 'c', 'e', ' ', ']']
  | .Debug => ['[', 'D', 'e', 'b', 'u', 'g', ' ', ']']
  | .Info => ['[', 'I', 'n', 'f', 'o', ' ', ' ', ']']
  | .Warn => ['[', 'W', 'a', 'r', 'n', ' ', ' ', ']']
  | .Error => ['[', 'E', 'r', 'r', 'o', 'r', ' ', ']']
  | .System => ['[', 'S', 'y', 's', 't', 'e', 'm', ']']

/-- Into a buffer of `length` characters, the last of them for the terminator: the `HRESULT`, which is
`STRSAFE_E_INSUFFICIENT_BUFFER` for a text that is cut, and the buffer. -/
def stringCchVPrintf (length : Nat) (text : List Char) : Int × List Char :=
  if text.length < length then (0, text) else (-2147024774, text.take (length - 1))

/-- The loop of `Format`, for `rounds` rounds at most. -/
def formatLoop (text : List Char) : Nat → Nat → Option (List Char)
  | 0, _ => none
  | rounds + 1, length =>
    let (result, buffer) := stringCchVPrintf length text
    if result = -1 then formatLoop text rounds (length * 2) else some buffer

/-- No failure of `StringCchVPrintf` is -1, so the buffer never grows. -/
theorem formatLoop_eq (text : List Char) (rounds : Nat) {length : Nat} (hLength : 0 < length) :
    formatLoop text (rounds + 1) length = some (text.take (length - 1)) := by
  rw [formatLoop, stringCchVPrintf]
  split
  · rename_i result buffer hPrint
    split at hPrint
    · cases hPrint
      rw [List.take_of_length_le (by omega)]
      rfl
    · cases hPrint
      rfl

/-- `text` is what the format and its arguments stand for, `none` if the format is null. One round is
enough (`formatLoop_eq`). -/
def format (text : Option (List Char)) : List Char :=
  match text with
  | none => []
  | some text => (formatLoop text 1 512).getD []

/-- The buffer has 512 characters, the last for the terminator. -/
theorem format_some (text : List Char) : format (some text) = text.take 511 := by
  rw [format, formatLoop_eq text 0 (by decide), Option.getD_some]

/-- `LogHex` from the byte at index `i` on. -/
def hexText : Nat → List UInt8 → List Char
  | _, [] => []
  | i, byte :: later =>
    (if i % 8 = 0 then ['\n'] else []) ++
      ['0', 'x', Nat.digitChar (byte.toNat / 16), Nat.digitChar (byte.toNat % 16), ' '] ++ hexText (i + 1) later

inductive LogCall where
  | log (logLevel : eLogLevel) (tag : List Char) (text : Option (List Char))
  | logHex (logLevel : eLogLevel) (tag : List Char) (bytes : List UInt8)
deriving DecidableEq

namespace LogCall

def logLevel : LogCall → eLogLevel
  | log logLevel _ _ | logHex logLevel _ _ => logLevel

def tag : LogCall → List Char
  | log _ tag _ | logHex _ tag _ => tag

/-- `LogHex` does not look at `mLogLevel`. -/
def passes (mLogLevel : eLogLevel) : LogCall → Bool
  | log logLevel _ _ => !(logLevel.value < mLogLevel.value)
  | logHex _ _ _ => true

def body : LogCall → List Char
  | log _ _ text => format text
  | logHex _ _ bytes => hexText 0 bytes

end LogCall

structure UtcTime where
  Year : Int
  Month : Int
  Day : Int
  Hour : Int
  Minute : Int
  Second : Int
deriving DecidableEq

def decimal (n : Int) : List Char :=
  (if n < 0 then ['-'] else []) ++ Nat.toDigits 10 n.natAbs

/-- What `ForwardStream` is given. -/
structure Line (Thread : Type) where
  seqNumber : Int
  utcTime : UtcTime
  threadId : Thread
  call : LogCall

variable {Thread : Type}

namespace Line

def baseInfo (showId : Thread → List Char) (line : Line Thread) : List Char :=
  getLogName line.call.logLevel ++ ['|'] ++ line.call.tag ++ ['|'] ++
    decimal line.utcTime.Year ++ ['.'] ++ decimal line.utcTime.Month ++ ['.'] ++ decimal line.utcTime.Day ++ ['|'] ++
    decimal line.utcTime.Hour ++ decimal line.utcTime.Minute ++ decimal line.utcTime.Second ++ ['|'] ++
    ['<'] ++ showId line.threadId ++ ['>', '|'] ++ decimal line.seqNumber ++ ['|']

def text (showId : Thread → List Char) (line : Line Thread) : List Char :=
  line.baseInfo showId ++ line.call.body

end Line

/-- The next thing that a thread does in `Log` or `LogHex`. `good` says whether the stream that it has
opened takes the text. -/
inductive LogPc (Thread : Type) where
  | idle
  | baseInfo (call : LogCall)
  | acquire (line : Line Thread)
  | write (line : Line Thread)
  | endl (line : Line Thread) (good : Bool)
  | release

namespace LogPc

/-- Where a call begins. -/
def enter (mLogLevel : eLogLevel) (call : LogCall) : LogPc Thread :=
  if call.passes mLogLevel then .baseInfo call else .idle

def locks : LogPc Thread → Bool
  | write _ | endl _ _ | release => true
  | _ => false

/-- The call that has no number yet. -/
def unnumbered : LogPc Thread → List LogCall
  | baseInfo call => [call]
  | _ => []

/-- The line that is not written yet. -/
def inHand : LogPc Thread → List (Line Thread)
  | acquire line | write line | endl line _ => [line]
  | _ => []

/-- The text whose end of line is not written yet. -/
def unended (showId : Thread → List Char) : LogPc Thread → List Char
  | endl line true => line.text showId
  | _ => []

/-- A call does not begin with the lock. -/
theorem enter_locks (mLogLevel : eLogLevel) (call : LogCall) :
    (enter mLogLevel call : LogPc Thread).locks = false := by
  unfold enter
  split <;> rfl

/-- Nor with a line. -/
theorem enter_inHand (mLogLevel : eLogLevel) (call : LogCall) :
    (enter mLogLevel call : LogPc Thread).inHand = [] := by
  unfold enter
  split <;> rfl

/-- A call that passes the level has a number to come. -/
theorem enter_unnumbered (mLogLevel : eLogLevel) (call : LogCall) :
    (enter mLogLevel call : LogPc Thread).unnumbered = [call].filter (·.passes mLogLevel) := by
  unfold enter
  cases hPasses : call.passes mLogLevel <;> simp [hPasses, unnumbered]

end LogPc

/-- A `Logger` that has its file and its level, the threads in it, and as a record the calls, the lines
in the order of their numbers and the lines that were forwarded, each with whether the stream took it. -/
structure Logger (Thread : Type) where
  mSequenceNumber : Int
  mLock : Option Thread
  output : List Char
  threads : Thread → LogPc Thread
  called : List (Thread × LogCall)
  numbered : List (Line Thread)
  forwarded : List (Line Thread × Bool)

inductive LogAction (Thread : Type) where
  | call (t : Thread) (call : LogCall)
  | run (t : Thread) (utcTime : UtcTime) (good : Bool)

def interlockedIncrement64 (n : Int) : Int :=
  (n + 1).bmod (2 ^ 64)

namespace Logger

def start : Logger Thread :=
  ⟨0, none, [], fun _ => .idle, [], [], []⟩

variable [DecidableEq Thread]

def goto (s : Logger Thread) (t : Thread) (pc : LogPc Thread) : Logger Thread :=
  { s with threads := Function.update s.threads t pc }

def run (showId : Thread → List Char) (s : Logger Thread) (t : Thread) (utcTime : UtcTime) (good : Bool) :
    Option (Logger Thread) :=
  match s.threads t with
  | .idle => none
  | .baseInfo call =>
    let seqNumber := interlockedIncrement64 s.mSequenceNumber
    let line : Line Thread := ⟨seqNumber, utcTime, t, call⟩
    some { s.goto t (.acquire line) with mSequenceNumber := seqNumber, numbered := s.numbered ++ [line] }
  | .acquire line => if s.mLock.isNone then some { s.goto t (.write line) with mLock := some t } else none
  | .write line =>
    some { s.goto t (.endl line good) with output := s.output ++ if good then line.text showId else [] }
  | .endl line good =>
    some { s.goto t .release with
      output := s.output ++ if good then ['\n'] else []
      forwarded := s.forwarded ++ [(line, good)] }
  | .release => some { s.goto t .idle with mLock := none }

def step (mLogLevel : eLogLevel) (showId : Thread → List Char) (s : Logger Thread) :
    LogAction Thread → Option (Logger Thread)
  | .call t call => match s.threads t with
    | .idle => some { s.goto t (.enter mLogLevel call) with called := s.called ++ [(t, call)] }
    | _ => none
  | .run t utcTime good => s.run showId t utcTime good

end Logger

variable {mLogLevel : eLogLevel} {showId : Thread → List Char} {s s' : Logger Thread}

/-- What the output holds of a line. -/
def Line.written (showId : Thread → List Char) (line : Line Thread × Bool) : List Char :=
  if line.2 then line.1.text showId ++ ['\n'] else []

namespace Logger

/-- The calls of a thread that get past the level. -/
def passing [DecidableEq Thread] (mLogLevel : eLogLevel) (s : Logger Thread) (t : Thread) : List LogCall :=
  (s.called.filter fun called => called.1 = t ∧ called.2.passes mLogLevel).map Prod.snd

def numberedBy [DecidableEq Thread] (s : Logger Thread) (t : Thread) : List (Line Thread) :=
  s.numbered.filter (·.threadId = t)

def forwardedBy [DecidableEq Thread] (s : Logger Thread) (t : Thread) : List (Line Thread) :=
  (s.forwarded.map Prod.fst).filter (·.threadId = t)

/-- How the shared values, the threads and the record fit together. -/
structure Sound [DecidableEq Thread] (mLogLevel : eLogLevel) (showId : Thread → List Char) (s : Logger Thread) :
    Prop where
  sequence : s.mSequenceNumber = (s.numbered.length : Int).bmod (2 ^ 64)
  numbers : s.numbered.map Line.seqNumber =
    (List.range s.numbered.length).map fun k : Nat => ((k : Int) + 1).bmod (2 ^ 64)
  lock : ∀ t, (s.threads t).locks = true ↔ s.mLock = some t
  lines : ∀ t, s.numberedBy t = s.forwardedBy t ++ (s.threads t).inHand
  calls : ∀ t, s.passing mLogLevel t = (s.numberedBy t).map Line.call ++ (s.threads t).unnumbered
  output : s.output = (s.forwarded.map (Line.written showId)).flatten ++
    s.mLock.elim [] fun t => (s.threads t).unended showId

variable [DecidableEq Thread] {t : Thread} {pc : LogPc Thread} {line : Line Thread}

theorem goto_self (s : Logger Thread) (t : Thread) (pc : LogPc Thread) : (s.goto t pc).threads t = pc :=
  Function.update_self ..

theorem goto_other {t' : Thread} (hOther : t' ≠ t) : (s.goto t pc).threads t' = s.threads t' :=
  Function.update_of_ne hOther _ _

/-- The output ends with what the holder of the lock has written. -/
theorem goto_unended (hNot : s.mLock ≠ some t) :
    (s.mLock.elim [] fun t' => ((s.goto t pc).threads t').unended showId) =
      s.mLock.elim [] fun t' => (s.threads t').unended showId := by
  cases hLock : s.mLock with
  | none => rfl
  | some t' =>
      have hOther : t' ≠ t := by
        rintro rfl
        exact hNot hLock
      simp only [Option.elim_some, goto_other hOther]

/-- The lock after a step that leaves it as it is. -/
theorem Sound.goto_lock (h : s.Sound mLogLevel showId) (hLocks : pc.locks = (s.threads t).locks) (t' : Thread) :
    ((s.goto t pc).threads t').locks = true ↔ s.mLock = some t' := by
  by_cases hSame : t' = t
  · rw [hSame, goto_self, hLocks]
    exact h.lock t
  · rw [goto_other hSame]
    exact h.lock t'

/-- A thread outside the locked part does not have the lock. -/
theorem Sound.notHolder (h : s.Sound mLogLevel showId) (hLocks : (s.threads t).locks = false) :
    s.mLock ≠ some t := by
  intro hLock
  rw [(h.lock t).mpr hLock] at hLocks
  cases hLocks

/-- A line in hand carries its thread. -/
theorem Sound.threadId (h : s.Sound mLogLevel showId) (hHand : line ∈ (s.threads t).inHand) : line.threadId = t := by
  have hMem : line ∈ s.numberedBy t := by
    rw [h.lines t]
    exact List.mem_append_right _ hHand
  exact of_decide_eq_true (List.mem_filter.mp hMem).2

/-- A call below the level returns at once, any other one gets in line for its number. -/
theorem Sound.call (h : s.Sound mLogLevel showId) (hIdle : s.threads t = .idle) (call : LogCall) :
    ({ s.goto t (.enter mLogLevel call) with called := s.called ++ [(t, call)] } : Logger Thread).Sound
      mLogLevel showId := by
  have hLocks : (s.threads t).locks = false := by
    rw [hIdle]
    rfl
  refine ⟨h.sequence, h.numbers, h.goto_lock ((LogPc.enter_locks mLogLevel call).trans hLocks.symm), fun t' => ?_,
    fun t' => ?_, h.output.trans (congrArg (_ ++ ·) (goto_unended (h.notHolder hLocks)).symm)⟩
  · refine (h.lines t').trans ?_
    by_cases hSame : t' = t
    · simp only [hSame, hIdle, goto_self, LogPc.enter_inHand]
      rfl
    · simp only [goto_other hSame]
      rfl
  · have hCalls := h.calls t'
    simp only [passing] at hCalls
    simp only [passing, List.filter_append, List.map_append, hCalls, List.append_assoc]
    refine congrArg (List.map Line.call (s.numberedBy t') ++ ·) ?_
    by_cases hSame : t' = t
    · subst hSame
      simp only [hIdle, goto_self, LogPc.enter_unnumbered]
      cases hPasses : call.passes mLogLevel <;> simp [LogPc.unnumbered, hPasses]
    · simp [goto_other hSame, Ne.symm hSame]

/-- Numbers are given in the order of the increments. -/
theorem Sound.baseInfo {call : LogCall} {utcTime : UtcTime} (h : s.Sound mLogLevel showId)
    (hPc : s.threads t = .baseInfo call)
    (hLine : line = ⟨interlockedIncrement64 s.mSequenceNumber, utcTime, t, call⟩) :
    ({ s.goto t (.acquire line) with
      mSequenceNumber := line.seqNumber, numbered := s.numbered ++ [line] } : Logger Thread).Sound
        mLogLevel showId := by
  have hLocks : (s.threads t).locks = false := by
    rw [hPc]
    rfl
  have hNumber : line.seqNumber = ((s.numbered.length : Int) + 1).bmod (2 ^ 64) := by
    rw [hLine, interlockedIncrement64, h.sequence, Int.bmod_add_bmod]
  refine ⟨?_, ?_, h.goto_lock hLocks.symm, fun t' => ?_, fun t' => ?_,
    h.output.trans (congrArg (_ ++ ·) (goto_unended (h.notHolder hLocks)).symm)⟩
  · simp only [hNumber, List.length_append, List.length_singleton, Nat.cast_add, Nat.cast_one]
  · simp only [List.map_append, h.numbers, List.length_append, List.length_singleton, List.range_succ, List.map_cons,
      List.map_nil, hNumber]
  · have hLines := h.lines t'
    by_cases hSame : t' = t
    · subst hSame
      have hOne : [line].filter (·.threadId = t') = [line] := by simp [hLine]
      rw [hPc] at hLines
      simp only [numberedBy, List.filter_append, hOne, goto_self]
      exact congrArg (· ++ [line]) (hLines.trans (List.append_nil _))
    · have hNone : [line].filter (·.threadId = t') = [] := by simp [hLine, Ne.symm hSame]
      simp only [goto_other hSame]
      refine Eq.trans ?_ hLines
      simp only [numberedBy, List.filter_append, hNone, List.append_nil]
  · have hCalls := h.calls t'
    refine hCalls.trans ?_
    by_cases hSame : t' = t
    · subst hSame
      simp only [numberedBy, List.filter_append, List.map_append, goto_self, hPc]
      simp [hLine, LogPc.unnumbered]
    · have hNone : [line].filter (·.threadId = t') = [] := by simp [hLine, Ne.symm hSame]
      simp only [goto_other hSame, numberedBy, List.filter_append, hNone, List.append_nil]

/-- The lock is taken where nobody has it. -/
theorem Sound.acquire (h : s.Sound mLogLevel showId) (hPc : s.threads t = .acquire line) (hFree : s.mLock = none) :
    ({ s.goto t (.write line) with mLock := some t } : Logger Thread).Sound mLogLevel showId := by
  refine ⟨h.sequence, h.numbers, fun t' => ?_, fun t' => ?_, fun t' => ?_, ?_⟩
  · have hLock := h.lock t'
    by_cases hSame : t' = t
    · subst hSame
      simp only [goto_self]
      simp [LogPc.locks]
    · simp only [goto_other hSame, hLock, hFree]
      simp [Ne.symm hSame]
  · refine (h.lines t').trans ?_
    by_cases hSame : t' = t
    · simp only [hSame, hPc, goto_self]
      rfl
    · simp only [goto_other hSame]
      rfl
  · refine (h.calls t').trans ?_
    by_cases hSame : t' = t
    · simp only [hSame, hPc, goto_self]
      rfl
    · simp only [goto_other hSame]
      rfl
  · refine h.output.trans ?_
    simp only [hFree, Option.elim_some, goto_self]
    rfl

/-- The first write begins a line that nobody else can break. -/
theorem Sound.write {good : Bool} (h : s.Sound mLogLevel showId) (hPc : s.threads t = .write line) :
    ({ s.goto t (.endl line good) with output := s.output ++ if good then line.text showId else [] } :
      Logger Thread).Sound mLogLevel showId := by
  have hLock : s.mLock = some t := (h.lock t).mp (by rw [hPc]; rfl)
  refine ⟨h.sequence, h.numbers, h.goto_lock (by rw [hPc]; rfl), fun t' => ?_, fun t' => ?_, ?_⟩
  · refine (h.lines t').trans ?_
    by_cases hSame : t' = t
    · simp only [hSame, hPc, goto_self]
      rfl
    · simp only [goto_other hSame]
      rfl
  · refine (h.calls t').trans ?_
    by_cases hSame : t' = t
    · simp only [hSame, hPc, goto_self]
      rfl
    · simp only [goto_other hSame]
      rfl
  · have hOutput := h.output
    simp only [hLock, Option.elim_some, hPc, LogPc.unended, List.append_nil] at hOutput
    rw [hOutput]
    refine congrArg (_ ++ ·) ?_
    refine Eq.trans ?_ (congrArg (Option.elim · _ _) hLock.symm)
    rw [Option.elim_some, goto_self]
    cases good <;> rfl

/-- The second one ends it. -/
theorem Sound.endl {good : Bool} (h : s.Sound mLogLevel showId) (hPc : s.threads t = .endl line good) :
    ({ s.goto t .release with
      output := s.output ++ if good then ['\n'] else []
      forwarded := s.forwarded ++ [(line, good)] } : Logger Thread).Sound mLogLevel showId := by
  have hLock : s.mLock = some t := (h.lock t).mp (by rw [hPc]; rfl)
  have hThread : line.threadId = t := h.threadId (by rw [hPc]; exact List.mem_singleton_self line)
  refine ⟨h.sequence, h.numbers, h.goto_lock (by rw [hPc]; rfl), fun t' => ?_, fun t' => ?_, ?_⟩
  · refine (h.lines t').trans ?_
    simp only [forwardedBy, List.map_append, List.filter_append, List.append_assoc]
    refine congrArg ((s.forwarded.map Prod.fst).filter (·.threadId = t') ++ ·) ?_
    by_cases hSame : t' = t
    · simp [hSame, hPc, goto_self, LogPc.inHand, hThread]
    · simp [goto_other hSame, hThread, Ne.symm hSame]
  · refine (h.calls t').trans ?_
    by_cases hSame : t' = t
    · simp only [hSame, hPc, goto_self]
      rfl
    · simp only [goto_other hSame]
      rfl
  · have hOutput := h.output
    simp only [hLock, Option.elim_some, hPc] at hOutput
    rw [hOutput, List.map_append, List.flatten_append, List.append_assoc, List.append_assoc]
    refine congrArg ((s.forwarded.map (Line.written showId)).flatten ++ ·) ?_
    refine Eq.trans ?_ (congrArg (fun holder => _ ++ Option.elim holder _ _) hLock.symm)
    rw [Option.elim_some, goto_self]
    cases good <;> simp [Line.written, LogPc.unended]

/-- With the lock given back the call is over, its line complete. -/
theorem Sound.release (h : s.Sound mLogLevel showId) (hPc : s.threads t = .release) :
    ({ s.goto t .idle with mLock := none } : Logger Thread).Sound mLogLevel showId := by
  have hLock : s.mLock = some t := (h.lock t).mp (by rw [hPc]; rfl)
  refine ⟨h.sequence, h.numbers, fun t' => ?_, fun t' => ?_, fun t' => ?_, ?_⟩
  · have hOld := h.lock t'
    by_cases hSame : t' = t
    · simp [hSame, goto_self, LogPc.locks]
    · rw [hLock] at hOld
      simp only [goto_other hSame, hOld]
      simp [Ne.symm hSame]
  · refine (h.lines t').trans ?_
    by_cases hSame : t' = t
    · simp only [hSame, hPc, goto_self]
      rfl
    · simp only [goto_other hSame]
      rfl
  · refine (h.calls t').trans ?_
    by_cases hSame : t' = t
    · simp only [hSame, hPc, goto_self]
      rfl
    · simp only [goto_other hSame]
      rfl
  · refine h.output.trans ?_
    rw [hLock, Option.elim_some, hPc]
    rfl

/-- Nothing is logged to begin with. -/
theorem start_sound : (start : Logger Thread).Sound mLogLevel showId := by
  refine ⟨by simp [start], rfl, fun t => ?_, fun t => rfl, fun t => rfl, rfl⟩
  simp [start, LogPc.locks]

/-- One step keeps it. -/
theorem Sound.step {a : LogAction Thread} (h : s.Sound mLogLevel showId)
    (hStep : s.step mLogLevel showId a = some s') : s'.Sound mLogLevel showId := by
  cases a with
  | call t call =>
      rw [Logger.step] at hStep
      split at hStep
      · rename_i hIdle
        cases hStep
        exact h.call hIdle call
      · cases hStep
  | run t utcTime good =>
      rw [Logger.step, Logger.run] at hStep
      split at hStep
      · cases hStep
      · rename_i hPc
        cases hStep
        exact h.baseInfo hPc rfl
      · rename_i hPc
        obtain ⟨hFree, hNext⟩ := Option.ite_none_right_eq_some.mp hStep
        cases hNext
        exact h.acquire hPc (Option.isNone_iff_eq_none.mp hFree)
      · rename_i hPc
        cases hStep
        exact h.write hPc
      · rename_i hPc
        cases hStep
        exact h.endl hPc
      · rename_i hPc
        cases hStep
        exact h.release hPc

/-- While a thread is inside, one that is inside can go on: nobody waits for a lock that is not let go. -/
theorem Sound.goesOn (h : s.Sound mLogLevel showId) (hInside : s.threads t ≠ .idle) :
    ∃ t', s.threads t' ≠ .idle ∧ ∀ utcTime good, (s.run showId t' utcTime good).isSome := by
  cases hLock : s.mLock with
  | none =>
      refine ⟨t, hInside, fun utcTime good => ?_⟩
      cases hPc : s.threads t with
      | idle => exact absurd hPc hInside
      | baseInfo | acquire | write | endl | release => simp [run, hPc, hLock]
  | some holder =>
      have hHolds := (h.lock holder).mpr hLock
      refine ⟨holder, fun hIdle => ?_, fun utcTime good => ?_⟩
      · rw [hIdle] at hHolds
        cases hHolds
      · cases hPc : s.threads holder with
        | idle | baseInfo | acquire =>
            rw [hPc] at hHolds
            cases hHolds
        | write | endl | release => simp [run, hPc]

/-- The numbers given out are 1, 2, 3 and so on, below the wrap of 64 bits. -/
theorem Sound.numbers_eq (h : s.Sound mLogLevel showId) (hCount : s.numbered.length < 2 ^ 63) :
    s.numbered.map Line.seqNumber = (List.range s.numbered.length).map fun k : Nat => (k : Int) + 1 := by
  rw [h.numbers]
  refine List.map_congr_left fun k hMem => ?_
  have hLess := List.mem_range.mp hMem
  exact Int.bmod_eq_of_le_mul_two (by omega) (by omega)

/-- So each is above those before it. -/
theorem Sound.increasing (h : s.Sound mLogLevel showId) (hCount : s.numbered.length < 2 ^ 63) :
    (s.numbered.map Line.seqNumber).Pairwise (· < ·) := by
  rw [h.numbers_eq hCount]
  exact List.Pairwise.map _ (fun k k' hLess => by omega) List.pairwise_lt_range

/-- A thread forwards its lines in the order of their numbers. -/
theorem Sound.forwardedBy_sublist (h : s.Sound mLogLevel showId) (t : Thread) :
    (s.forwardedBy t).Sublist (s.numberedBy t) := by
  rw [h.lines t]
  exact List.sublist_append_left _ _

/-- Of one thread's lines and of all there are as many copies of a line of that thread. -/
theorem count_own [DecidableEq (Line Thread)] (lines : List (Line Thread)) (line : Line Thread) :
    (lines.filter (·.threadId = line.threadId)).count line = lines.count line :=
  List.count_filter (decide_eq_true (Eq.refl line.threadId))

/-- The lines that are forwarded are among those with a number. -/
theorem Sound.forwarded_subperm (h : s.Sound mLogLevel showId) : (s.forwarded.map Prod.fst).Subperm s.numbered := by
  classical
  refine List.subperm_ext_iff.mpr fun line _ => ?_
  calc (s.forwarded.map Prod.fst).count line
      = (s.forwardedBy line.threadId).count line := (count_own _ line).symm
    _ ≤ (s.numberedBy line.threadId).count line := (h.forwardedBy_sublist line.threadId).count_le line
    _ = s.numbered.count line := count_own _ line

/-- With no thread inside every line is forwarded. -/
theorem Sound.forwarded_perm (h : s.Sound mLogLevel showId) (hIdle : ∀ t, s.threads t = .idle) :
    (s.forwarded.map Prod.fst).Perm s.numbered := by
  classical
  refine List.perm_iff_count.mpr fun line => ?_
  have hLines := h.lines line.threadId
  rw [hIdle] at hLines
  calc (s.forwarded.map Prod.fst).count line
      = (s.forwardedBy line.threadId).count line := (count_own _ line).symm
    _ = (s.numberedBy line.threadId).count line := by rw [hLines.trans (List.append_nil _)]
    _ = s.numbered.count line := count_own _ line

/-- Every `LogHex` is forwarded, also one below the level. -/
theorem Sound.logHex_forwarded {logLevel : eLogLevel} {tag : List Char} {bytes : List UInt8}
    (h : s.Sound mLogLevel showId) (hIdle : s.threads t = .idle)
    (hCalled : (t, .logHex logLevel tag bytes) ∈ s.called) :
    ∃ line ∈ s.forwardedBy t, line.call = .logHex logLevel tag bytes := by
  have hPassing : LogCall.logHex logLevel tag bytes ∈ s.passing mLogLevel t :=
    List.mem_map.mpr ⟨_, List.mem_filter.mpr ⟨hCalled, decide_eq_true ⟨rfl, rfl⟩⟩, rfl⟩
  have hCalls := h.calls t
  rw [h.lines t, hIdle] at hCalls
  rw [hCalls, List.mem_append, List.mem_map] at hPassing
  obtain ⟨line, hMem, hCall⟩ | hNone := hPassing
  · exact ⟨line, by simpa [LogPc.inHand] using hMem, hCall⟩
  · cases hNone

/-- However threads interleave, the output is whole lines, each thread's in the order of its calls, and
no two lines have one number. -/
theorem lines_whole (h : Reachable (Takes (Logger.step mLogLevel showId)) (fun _ _ => True) start s)
    (hCount : s.numbered.length < 2 ^ 63) :
    (s.mLock = none → s.output = (s.forwarded.map (Line.written showId)).flatten) ∧
      (∀ t, s.passing mLogLevel t =
          (s.forwardedBy t ++ (s.threads t).inHand).map Line.call ++ (s.threads t).unnumbered ∧
        ((s.forwardedBy t).map Line.seqNumber).Pairwise (· < ·)) ∧
      (s.forwarded.map (·.1.seqNumber)).Nodup ∧
      ((∀ t, s.threads t = .idle) → (s.forwarded.map (·.1.seqNumber)).Perm
        ((List.range s.numbered.length).map fun k : Nat => (k : Int) + 1)) ∧
      (∀ t, s.threads t ≠ .idle →
        ∃ t', s.threads t' ≠ .idle ∧ ∀ utcTime good, (s.run showId t' utcTime good).isSome) := by
  have hSound : s.Sound mLogLevel showId :=
    h.invariant start_sound fun _ hSound _ hStep => hSound.step hStep
  have hIncreasing := hSound.increasing hCount
  have hMap : s.forwarded.map (·.1.seqNumber) = (s.forwarded.map Prod.fst).map Line.seqNumber := by
    rw [List.map_map]
    rfl
  refine ⟨fun hFree => ?_, fun t => ⟨?_, ?_⟩, ?_, fun hIdle => ?_, fun t => hSound.goesOn⟩
  · rw [hSound.output, hFree]
    exact List.append_nil _
  · rw [hSound.calls t, hSound.lines t]
  · have hSublist := (hSound.forwardedBy_sublist t).trans List.filter_sublist
    exact hIncreasing.sublist (hSublist.map Line.seqNumber)
  · rw [hMap]
    obtain ⟨lines, hPerm, hSublist⟩ := hSound.forwarded_subperm
    have hNodup : (lines.map Line.seqNumber).Nodup :=
      (hIncreasing.imp fun hLess => Int.ne_of_lt hLess).sublist (hSublist.map Line.seqNumber)
    exact (hPerm.map Line.seqNumber).nodup_iff.mp hNodup
  · rw [hMap, ← hSound.numbers_eq hCount]
    exact (hSound.forwarded_perm hIdle).map Line.seqNumber

/-- The second number is written first, and the file is not there for the first one. -/
private def twoLoggers : List (LogAction Bool) :=
  let utcTime : UtcTime := ⟨2021, 5, 1, 12, 0, 0⟩
  .call false (.log .Info ['a'] (some ['x'])) :: .call true (.logHex .Trace ['b'] [1, 255]) ::
    .run false utcTime true :: .run true utcTime true ::
    List.replicate 4 (.run true utcTime true) ++ List.replicate 4 (.run false utcTime false)

/-- Two threads, whose lines come out in the other order than their numbers. -/
theorem lines_whole_twoLoggers : ∃ s : Logger Bool,
    s.output = (s.forwarded.map (Line.written fun t => if t then ['1'] else ['0'])).flatten ∧
      s.forwarded.map (fun line => (line.1.seqNumber, line.2)) = [(2, true), (1, false)] := by
  have hRun : (exec (Logger.step .Info fun t => if t then ['1'] else ['0']) start twoLoggers).map
      (fun s => decide (s.mLock = none ∧ s.numbered.length = 2 ∧
        s.forwarded.map (fun line => (line.1.seqNumber, line.2)) = [(2, true), (1, false)])) = some true := by
    decide +kernel
  obtain ⟨s, hExec, hEnd⟩ := Option.map_eq_some_iff.mp hRun
  obtain ⟨hFree, hLength, hLines⟩ := of_decide_eq_true hEnd
  exact ⟨s, (lines_whole (reachable_of_exec hExec) (by omega)).1 hFree, hLines⟩

/-- The record only grows. -/
theorem step_grows {a : LogAction Thread} (hStep : s.step mLogLevel showId a = some s') :
    s.numbered <+: s'.numbered ∧ s.forwarded <+: s'.forwarded := by
  have hSame {lines : List (Line Thread)} : lines <+: lines := List.prefix_rfl
  cases a with
  | call t call =>
      rw [Logger.step] at hStep
      split at hStep
      · cases hStep
        exact ⟨hSame, List.prefix_rfl⟩
      · cases hStep
  | run t utcTime good =>
      rw [Logger.step, Logger.run] at hStep
      split at hStep
      · cases hStep
      · cases hStep
        exact ⟨List.prefix_append _ _, List.prefix_rfl⟩
      · obtain ⟨_, hNext⟩ := Option.ite_none_right_eq_some.mp hStep
        cases hNext
        exact ⟨hSame, List.prefix_rfl⟩
      · cases hStep
        exact ⟨hSame, List.prefix_rfl⟩
      · cases hStep
        exact ⟨hSame, List.prefix_append _ _⟩
      · cases hStep
        exact ⟨hSame, List.prefix_rfl⟩

/-- What has been numbered and written stays so, in its order. -/
theorem grows {earlier : Logger Thread}
    (h : Reachable (Takes (Logger.step mLogLevel showId)) (fun _ _ => True) earlier s) :
    earlier.numbered <+: s.numbered ∧ earlier.forwarded <+: s.forwarded := by
  induction h with
  | refl => exact ⟨List.prefix_rfl, List.prefix_rfl⟩
  | tail _ _ hStep ih =>
      have hNext := step_grows hStep
      exact ⟨ih.1.trans hNext.1, ih.2.trans hNext.2⟩

/-- A line that is written before another call takes its number has the smaller number and stands
before it. -/
theorem numbers_inRealTime {earlier : Logger Thread}
    (hEarlier : Reachable (Takes (Logger.step mLogLevel showId)) (fun _ _ => True) start earlier)
    (h : Reachable (Takes (Logger.step mLogLevel showId)) (fun _ _ => True) earlier s)
    (hCount : s.numbered.length < 2 ^ 63) :
    ∃ numbered forwarded,
      s.numbered = earlier.numbered ++ numbered ∧ s.forwarded = earlier.forwarded ++ forwarded ∧
      ∀ before ∈ earlier.forwarded, ∀ after ∈ numbered, before.1.seqNumber < after.seqNumber := by
  obtain ⟨⟨numbered, hNumbered⟩, ⟨forwarded, hForwarded⟩⟩ := grows h
  have hOld : earlier.Sound mLogLevel showId :=
    hEarlier.invariant start_sound fun _ hSound _ hStep => hSound.step hStep
  have hSound : s.Sound mLogLevel showId :=
    (hEarlier.trans h).invariant start_sound fun _ hSound _ hStep => hSound.step hStep
  refine ⟨numbered, forwarded, hNumbered.symm, hForwarded.symm, fun before hBefore after hAfter => ?_⟩
  have hIncreasing := hSound.increasing hCount
  rw [← hNumbered, List.map_append] at hIncreasing
  have hMem : before.1 ∈ earlier.numbered := hOld.forwarded_subperm.subset (List.mem_map_of_mem hBefore)
  exact (List.pairwise_append.mp hIncreasing).2.2 _ (List.mem_map_of_mem hMem) _ (List.mem_map_of_mem hAfter)

/-- The other thread calls when the line of the first one is written. -/
private def oneThenOther : List (LogAction Bool) × List (LogAction Bool) :=
  let utcTime : UtcTime := ⟨2021, 5, 1, 12, 0, 0⟩
  (.call false (.log .Info ['a'] (some ['x'])) :: List.replicate 5 (.run false utcTime true),
    [.call true (.log .Error ['b'] none), .run true utcTime true])

/-- One line is out before the other call begins. -/
theorem numbers_inRealTime_oneThenOther : ∃ (earlier s : Logger Bool) (numbered : List (Line Bool)),
    earlier.forwarded.map (·.1.seqNumber) = [1] ∧ s.numbered = earlier.numbered ++ numbered ∧
      numbered.length = 1 ∧ ∀ after ∈ numbered, 1 < after.seqNumber := by
  have hRun : ((exec (Logger.step .Info fun t => if t then ['1'] else ['0']) start oneThenOther.1).bind fun earlier =>
      (exec (Logger.step .Info fun t => if t then ['1'] else ['0']) earlier oneThenOther.2).map fun s =>
        decide (earlier.forwarded.map (·.1.seqNumber) = [1] ∧ earlier.numbered.length = 1 ∧
          s.numbered.length = 2)) = some true := by
    decide +kernel
  obtain ⟨earlier, hFirst, hRest⟩ := Option.bind_eq_some_iff.mp hRun
  obtain ⟨s, hSecond, hEnd⟩ := Option.map_eq_some_iff.mp hRest
  obtain ⟨hForwarded, hOne, hTwo⟩ := of_decide_eq_true hEnd
  obtain ⟨numbered, forwarded, hNumbered, _, hLess⟩ :=
    numbers_inRealTime (reachable_of_exec hFirst) (reachable_of_exec hSecond) (by omega)
  obtain ⟨before, hMem, hBefore⟩ := List.mem_map.mp (hForwarded.symm ▸ List.mem_singleton_self (1 : Int))
  refine ⟨earlier, s, numbered, hForwarded, hNumbered, ?_, fun after hAfter => ?_⟩
  · rw [hNumbered, List.length_append] at hTwo
    omega
  · rw [← hBefore]
    exact hLess before hMem after hAfter

end Logger

end NfNetwork.Logging
