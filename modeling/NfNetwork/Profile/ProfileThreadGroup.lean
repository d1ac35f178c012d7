import Mathlib.Algebra.GroupWithZero.Nat
import Mathlib.Logic.Equiv.Fin.Basic
import Mathlib.Logic.Function.Basic
import NfNetwork.Profile.KeptSamples

/-! `ProfileSample` and `ProfileThreadGroup`: the measurements that one thread makes, a sample for each
tag. The counter of `QueryPerformanceCounter` is handed to each call, and an `int64_t` operation that
overflows is undefined. -/
namespace NfNetwork.Profile

open Machinery

/-- `INT64_MAX`. -/
def int64Max : Int := 2 ^ 63 - 1

def FitsInt64 (value : Int) : Prop := -2 ^ 63 ≤ value ∧ value ≤ int64Max

instance (value : Int) : Decidable (FitsInt64 value) := inferInstanceAs (Decidable (_ ∧ _))

structure ProfileSample (Thread : Type) where
  isActivated : Bool
  /-- A default `thread::id` is that of no thread. -/
  threadID : Option Thread
  name : String
  callCount : UInt64
  startPerformanceCount : Int
  sumOfElapsed : Int
  minElapseds : List Int
  maxElapseds : List Int
deriving DecidableEq

namespace ProfileSample

variable {Thread : Type}

/-- The thread stays. -/
def clear (sample : ProfileSample Thread) : ProfileSample Thread :=
  { sample with
    isActivated := false
    name := ""
    callCount := 0
    startPerformanceCount := 0
    sumOfElapsed := 0
    minElapseds := List.replicate skipMinmax int64Max
    maxElapseds := List.replicate skipMinmax 0 }

def new : ProfileSample Thread := clear ⟨false, none, "", 0, 0, 0, [], []⟩

/-- The loops of `StopRecord`: a time below one of the smallest or above one of the largest takes the
place of the first such; any other is the sum. -/
def record (sample : ProfileSample Thread) (elapsed : Int) : ProfileSample Thread :=
  let recorded :=
    if sample.minElapseds.any (fun least => min least elapsed ≠ least) then
      { sample with
        minElapseds := sample.minElapseds.replaceF fun least =>
          if min least elapsed ≠ least then some elapsed else none }
    else if sample.maxElapseds.any (fun most => max most elapsed ≠ most) then
      { sample with
        maxElapseds := sample.maxElapseds.replaceF fun most =>
          if max most elapsed ≠ most then some elapsed else none }
    else { sample with sumOfElapsed := elapsed }
  { recorded with callCount := sample.callCount + 1, isActivated := false }

@[simp] theorem record_callCount (sample : ProfileSample Thread) (elapsed : Int) :
    (sample.record elapsed).callCount = sample.callCount + 1 := rfl

@[simp] theorem record_isActivated (sample : ProfileSample Thread) (elapsed : Int) :
    (sample.record elapsed).isActivated = false := rfl

@[simp] theorem record_name (sample : ProfileSample Thread) (elapsed : Int) :
    (sample.record elapsed).name = sample.name := by
  unfold record
  dsimp only
  split_ifs <;> rfl

@[simp] theorem record_threadID (sample : ProfileSample Thread) (elapsed : Int) :
    (sample.record elapsed).threadID = sample.threadID := by
  unfold record
  dsimp only
  split_ifs <;> rfl

end ProfileSample

/-- `MAX_SUPPORT_PROFILESAMPLE`. -/
def maxSupportProfileSample : Nat := 30

instance : NeZero maxSupportProfileSample := ⟨by decide⟩

structure ProfileThreadGroup (Thread : Type) where
  mFrequency : Int
  mProfileSamples : Fin maxSupportProfileSample → ProfileSample Thread

/-- Why a call has no result. -/
inductive ProfileStop where
  | invalidArgument (what : String)
  | logicError (what : String)
  | undefined
deriving DecidableEq

/-- The elapsed time between two values of the counter. -/
def elapsedOf (frequency start stop : Int) : Option Int :=
  let diff := stop - start
  if FitsInt64 diff ∧ FitsInt64 (diff * 10) ∧ frequency ≠ 0 ∧ FitsInt64 ((diff * 10).tdiv frequency) then
    some ((diff * 10).tdiv frequency)
  else none

namespace ProfileThreadGroup

variable {Thread : Type}

/-- A group as constructed, with the frequency that is set. -/
def new (frequency : Int) : ProfileThreadGroup Thread := ⟨frequency, fun _ => .new⟩

def set (g : ProfileThreadGroup Thread) (i : Fin maxSupportProfileSample) (sample : ProfileSample Thread) :
    ProfileThreadGroup Thread :=
  { g with mProfileSamples := Function.update g.mProfileSamples i sample }

@[simp] theorem set_self (g : ProfileThreadGroup Thread) (i : Fin maxSupportProfileSample)
    (sample : ProfileSample Thread) : (g.set i sample).mProfileSamples i = sample := Function.update_self ..

@[simp] theorem set_frequency (g : ProfileThreadGroup Thread) (i : Fin maxSupportProfileSample)
    (sample : ProfileSample Thread) : (g.set i sample).mFrequency = g.mFrequency := rfl

/-- The sample at which the loop of `StartRecord` stops. -/
@[irreducible] def sampleToStart (g : ProfileThreadGroup Thread) (tag : String) : Option (Fin maxSupportProfileSample) :=
  Fin.find? fun i => (g.mProfileSamples i).name = "" ∨ (g.mProfileSamples i).name = tag

def startRecord (g : ProfileThreadGroup Thread) (thread : Thread) (tag : String) (now : Int) :
    Except ProfileStop (ProfileThreadGroup Thread) :=
  match g.sampleToStart tag with
  | none => .error (.logicError "Lack of ProfileSample space")
  | some i =>
    let sample := g.mProfileSamples i
    if sample.isActivated then .error (.invalidArgument "Already activated tag")
    else if sample.name = "" then
      .ok (g.set i { sample with
        name := tag, threadID := some thread, isActivated := true, startPerformanceCount := now })
    else .ok (g.set i { sample with isActivated := true, startPerformanceCount := now })

variable [DecidableEq Thread]

/-- The sample at which the loop of `StopRecord` stops. -/
@[irreducible] def sampleToStop (g : ProfileThreadGroup Thread) (thread : Thread) (tag : String) :
    Option (Fin maxSupportProfileSample) :=
  Fin.find? fun i => (g.mProfileSamples i).threadID = some thread ∧ (g.mProfileSamples i).name = tag

def stopRecord (g : ProfileThreadGroup Thread) (thread : Thread) (tag : String) (now : Int) :
    Except ProfileStop (ProfileThreadGroup Thread) :=
  match g.sampleToStop thread tag with
  | none => .error (.logicError "Could not found tag name")
  | some i => match elapsedOf g.mFrequency (g.mProfileSamples i).startPerformanceCount now with
    | none => .error .undefined
    | some elapsed => .ok (g.set i ((g.mProfileSamples i).record elapsed))

/-- A `StartRecord` and a `StopRecord` for each pair of values of the counter. -/
def recordPairs (g : ProfileThreadGroup Thread) (thread : Thread) (tag : String) :
    List (Int × Int) → Except ProfileStop (ProfileThreadGroup Thread)
  | [] => .ok g
  | (start, stop) :: pairs => do
    let g ← g.startRecord thread tag start
    let g ← g.stopRecord thread tag stop
    g.recordPairs thread tag pairs

end ProfileThreadGroup

end NfNetwork.Profile
