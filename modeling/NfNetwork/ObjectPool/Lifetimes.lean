import NfNetwork.ObjectPool.ObjectPoolTLS
import Mathlib.Data.List.Range

/-! The constructor and destructor calls that a run makes on the objects of the blocks. A chunk constructs
its hundred objects when the chunk pool constructs the chunk, and `Rent` constructs the one that it
returns once more. -/
namespace NfNetwork.ObjectPool

open Machinery

/-- A call on the object of a block. -/
structure LifetimeCall (Chunk : Type) where
  block : Chunk × Nat
  constructs : Bool

/-- The calls come in turns, and this kind is next. -/
def TakesTurns : Bool → List Bool → Prop
  | _, [] => True
  | next, kind :: later => kind = next ∧ TakesTurns (!next) later

instance decidableTakesTurns : (next : Bool) → (kinds : List Bool) → Decidable (TakesTurns next kinds)
  | _, [] => isTrue trivial
  | next, _ :: later => @instDecidableAnd _ _ _ (decidableTakesTurns (!next) later)

/-- All objects of a chunk, by its constructor or its destructor. -/
def chunkCalls {Chunk : Type} (chunk : Chunk) (constructs : Bool) : List (LifetimeCall Chunk) :=
  (List.range MAX_BLOCK_BUFFER_SIZE).map fun i => ⟨(chunk, i), constructs⟩

variable {Thread Chunk : Type} [DecidableEq Thread] [DecidableEq Chunk]

/-- The kinds of the calls on one block, in order. -/
def callsOn (block : Chunk × Nat) (log : List (LifetimeCall Chunk)) : List Bool :=
  (log.filter fun call => call.block = block).map LifetimeCall.constructs

/-- On every block the calls alternate, and a constructor comes first. -/
def Alternates (log : List (LifetimeCall Chunk)) : Prop := ∀ block, TakesTurns true (callsOn block log)

theorem callsOn_append (block : Chunk × Nat) (first second : List (LifetimeCall Chunk)) :
    callsOn block (first ++ second) = callsOn block first ++ callsOn block second := by
  rw [callsOn, callsOn, callsOn, List.filter_append, List.map_append]

theorem callsOn_singleton (block owner : Chunk × Nat) (constructs : Bool) :
    callsOn block [⟨owner, constructs⟩] = if owner = block then [constructs] else [] := by
  by_cases hSame : owner = block
  · simp [callsOn, hSame]
  · simp [callsOn, hSame]

/-- A chunk calls once on each of its objects. -/
theorem callsOn_range (owner chunk : Chunk) (index count : Nat) (constructs : Bool) :
    callsOn (owner, index) ((List.range count).map fun i => (⟨(chunk, i), constructs⟩ : LifetimeCall Chunk)) =
      if chunk = owner ∧ index < count then [constructs] else [] := by
  induction count with
  | zero => simp [callsOn]
  | succ count ih =>
      rw [List.range_succ, List.map_append, callsOn_append, ih, List.map_singleton, callsOn_singleton]
      simp only [Prod.mk.injEq]
      by_cases hOwner : chunk = owner
      · rcases Nat.lt_trichotomy index count with hLt | hEq | hGt
        · rw [if_pos ⟨hOwner, hLt⟩, if_neg (by omega), if_pos ⟨hOwner, by omega⟩, List.append_nil]
        · rw [if_neg (by omega), if_pos ⟨hOwner, hEq.symm⟩, if_pos ⟨hOwner, by omega⟩, List.nil_append]
        · rw [if_neg (by omega), if_neg (by omega), if_neg (by omega), List.nil_append]
      · simp [hOwner]

theorem callsOn_chunkCalls (block : Chunk × Nat) (chunk : Chunk) (constructs : Bool) :
    callsOn block (chunkCalls chunk constructs) =
      if chunk = block.1 ∧ block.2 < MAX_BLOCK_BUFFER_SIZE then [constructs] else [] :=
  callsOn_range block.1 chunk block.2 MAX_BLOCK_BUFFER_SIZE constructs

namespace TLSSystem

/-- The calls that a thread makes with its next step. The chunk pool constructs and destroys with
its chunks. -/
def callsAt (policy : eAllocationPolicy) (rentable : Option Chunk) : TLSPc Chunk → List (LifetimeCall Chunk)
  | .rent .rentChunk | .rent (.rentNextChunk _ _) => rentable.elim [] (chunkCalls · true)
  | .rent (.construct chunk index) =>
      if policy = .CallConstructorDestructor then [⟨(chunk, index), true⟩] else []
  | .giveBack (.destroy block _) => if policy = .CallConstructorDestructor then [⟨block, false⟩] else []
  | .giveBack (.returnChunk chunk) => chunkCalls chunk false
  | _ => []

def lifetimeCalls (s : TLSSystem Thread Chunk) : TLSAction Thread Chunk → List (LifetimeCall Chunk)
  | .run t rentable => callsAt s.pool.mPolicy rentable (s.threads t).pc
  | .callRent _ | .callReturn _ _ => []

/-- The calls of a run. -/
def lifetimes (s : TLSSystem Thread Chunk) : List (TLSAction Thread Chunk) → List (LifetimeCall Chunk)
  | [] => []
  | a :: later => s.lifetimeCalls a ++ match s.step a with
    | some s' => lifetimes s' later
    | none => []

/-- The step is the placement new of a `Rent`. -/
def Constructs (s : TLSSystem Thread Chunk) : TLSAction Thread Chunk → Prop
  | .run t _ => ∃ chunk index, (s.threads t).pc = .rent (.construct chunk index)
  | _ => False

/-- Where a thread is while no `Rent` has constructed: the chunks that it knows are handed out. -/
def Waits (pool : ObjectPoolTLS Chunk) : TLSPc Chunk → Prop
  | .idle | .crashed => True
  | .giveBack _ => False
  | .rent pc => match pc with
    | .tlsGetValue | .rentChunk => True
    | .incrementAllocatedSize _ _ => False
    | .construct chunk index => pool.mChunkPool chunk = true ∧ index < MAX_BLOCK_BUFFER_SIZE
    | .tlsSetValue chunk | .loadIndex chunk | .storeIndex chunk _ | .testIndex chunk _
    | .rentNextChunk chunk _ | .readIndex chunk _ => pool.mChunkPool chunk = true
    | .tlsSetNextValue chunk _ nextChunk =>
        pool.mChunkPool chunk = true ∧ pool.mChunkPool nextChunk = true

/-- While no `Rent` has constructed, the objects of the chunks handed out are constructed once, by
their chunks. -/
structure Unrented (s : TLSSystem Thread Chunk) (log : List (LifetimeCall Chunk)) : Prop where
  policy : s.pool.mPolicy = .CallConstructorDestructor
  rented : s.rented = 0
  slots : ∀ t chunk, (s.threads t).mTlsIndexForChunk = some chunk → s.pool.mChunkPool chunk = true
  threads : ∀ t, Waits s.pool (s.threads t).pc
  calls : ∀ block, callsOn block log =
    if s.pool.mChunkPool block.1 = true ∧ block.2 < MAX_BLOCK_BUFFER_SIZE then [true] else []

section Invariant

omit [DecidableEq Thread] [DecidableEq Chunk] in
theorem Waits.mono {pool pool' : ObjectPoolTLS Chunk} {pc : TLSPc Chunk} (h : Waits pool pc)
    (hMore : ∀ chunk, pool.mChunkPool chunk = true → pool'.mChunkPool chunk = true) : Waits pool' pc := by
  cases pc with
  | idle | crashed => trivial
  | giveBack => exact h
  | rent pc =>
      cases pc with
      | tlsGetValue | rentChunk => trivial
      | incrementAllocatedSize => exact h
      | construct => exact ⟨hMore _ h.1, h.2⟩
      | tlsSetNextValue => exact ⟨hMore _ h.1, hMore _ h.2⟩
      | tlsSetValue | loadIndex | storeIndex | testIndex | rentNextChunk | readIndex => exact hMore _ h

variable {s s' : TLSSystem Thread Chunk} {log : List (LifetimeCall Chunk)} {a : TLSAction Thread Chunk}

omit [DecidableEq Thread] in
theorem Unrented.alternates (h : s.Unrented log) : Alternates log := by
  intro block
  rw [h.calls]
  split
  · exact ⟨rfl, trivial⟩
  · trivial

omit [DecidableEq Thread] in
/-- A `Rent` constructs an object that its chunk has constructed. -/
theorem Unrented.not_alternates (h : s.Unrented log) (hConstructs : s.Constructs a)
    (later : List (LifetimeCall Chunk)) : ¬Alternates (log ++ (s.lifetimeCalls a ++ later)) := by
  intro hAlternates
  cases a with
  | callRent | callReturn => exact hConstructs
  | run t rentable =>
      obtain ⟨chunk, index, hPc⟩ := hConstructs
      have hWaits := h.threads t
      rw [hPc] at hWaits
      have hTurns := hAlternates (chunk, index)
      have hCall : s.lifetimeCalls (.run t rentable) = [⟨(chunk, index), true⟩] := by
        rw [lifetimeCalls, hPc, callsAt, if_pos h.policy]
      have hFirst : callsOn (chunk, index) log = [true] := by
        rw [h.calls]
        exact if_pos hWaits
      rw [hCall, callsOn_append, callsOn_append, hFirst, callsOn_singleton, if_pos rfl] at hTurns
      exact absurd hTurns.2.1 (by decide)

/-- One thread goes on, and goes on waiting. -/
theorem Unrented.goOn {t : Thread} {thread : TLSThread Chunk} {calls : List (LifetimeCall Chunk)}
    (h : s.Unrented log) (hThreads : s'.threads = Function.update s.threads t thread)
    (hPolicy : s'.pool.mPolicy = s.pool.mPolicy) (hRented : s'.rented = 0)
    (hMore : ∀ chunk, s.pool.mChunkPool chunk = true → s'.pool.mChunkPool chunk = true)
    (hSlot : ∀ chunk, thread.mTlsIndexForChunk = some chunk → s'.pool.mChunkPool chunk = true)
    (hWaits : Waits s'.pool thread.pc)
    (hCalls : ∀ block, callsOn block (log ++ calls) =
      if s'.pool.mChunkPool block.1 = true ∧ block.2 < MAX_BLOCK_BUFFER_SIZE then [true] else []) :
    s'.Unrented (log ++ calls) where
  policy := hPolicy.trans h.policy
  rented := hRented
  slots u chunk hKnown := by
    rw [hThreads] at hKnown
    by_cases hSame : u = t
    · subst hSame
      rw [Function.update_self] at hKnown
      exact hSlot chunk hKnown
    · rw [Function.update_of_ne hSame] at hKnown
      exact hMore chunk (h.slots u chunk hKnown)
  threads u := by
    rw [hThreads]
    by_cases hSame : u = t
    · subst hSame
      rwa [Function.update_self]
    · rw [Function.update_of_ne hSame]
      exact (h.threads u).mono hMore
  calls := hCalls

/-- A thread that hands out no chunk and calls nothing. -/
theorem Unrented.quiet {t : Thread} {thread : TLSThread Chunk} (h : s.Unrented log)
    (hThreads : s'.threads = Function.update s.threads t thread)
    (hPolicy : s'.pool.mPolicy = s.pool.mPolicy) (hRented : s'.rented = 0)
    (hSame : s'.pool.mChunkPool = s.pool.mChunkPool)
    (hSlot : ∀ chunk, thread.mTlsIndexForChunk = some chunk → s.pool.mChunkPool chunk = true)
    (hWaits : Waits s.pool thread.pc) : s'.Unrented (log ++ []) := by
  apply h.goOn hThreads hPolicy hRented
  · intro chunk hOut
    rwa [hSame]
  · intro chunk hKnown
    rw [hSame]
    exact hSlot chunk hKnown
  · apply hWaits.mono
    intro chunk hOut
    rwa [hSame]
  · intro block
    rw [List.append_nil, h.calls, hSame]

omit [DecidableEq Thread] in
theorem rentChunk_mChunkPool (pool : ObjectPoolTLS Chunk) (chunk other : Chunk) :
    (pool.rentChunk chunk).mChunkPool other = true ↔ other = chunk ∨ pool.mChunkPool other = true := by
  show Function.update pool.mChunkPool chunk true other = true ↔ _
  by_cases hSame : other = chunk
  · simp [hSame]
  · simp [hSame]

/-- A thread that gets a chunk from the chunk pool, which constructs it. -/
theorem Unrented.lease {t : Thread} {pc : TLSPc Chunk} {chunk : Chunk} (h : s.Unrented log)
    (hFree : s.pool.mChunkPool chunk = false)
    (hThreads : s'.threads = Function.update s.threads t ⟨(s.threads t).mTlsIndexForChunk, pc⟩)
    (hPool : s'.pool = s.pool.rentChunk chunk) (hRented : s'.rented = 0)
    (hWaits : Waits (s.pool.rentChunk chunk) pc) : s'.Unrented (log ++ chunkCalls chunk true) := by
  have hMore : ∀ other, s.pool.mChunkPool other = true → s'.pool.mChunkPool other = true := by
    intro other hOut
    rw [hPool, rentChunk_mChunkPool]
    exact .inr hOut
  apply h.goOn hThreads (by rw [hPool]; rfl) hRented hMore
  · intro other hKnown
    exact hMore other (h.slots t other hKnown)
  · rwa [hPool]
  · intro block
    rw [callsOn_append, h.calls, callsOn_chunkCalls, hPool]
    simp only [rentChunk_mChunkPool]
    by_cases hSame : block.1 = chunk
    · simp [hSame, hFree]
    · simp [hSame, Ne.symm hSame]

/-- Until a `Rent` constructs, every step keeps this up. -/
theorem Unrented.step (h : s.Unrented log) (hQuiet : ¬s.Constructs a) (hStep : s.step a = some s') :
    s'.Unrented (log ++ s.lifetimeCalls a) := by
  cases a with
  | callRent t =>
      rw [TLSSystem.step] at hStep
      split at hStep
      · cases hStep
        exact h.quiet rfl rfl h.rented rfl (h.slots t) trivial
      · cases hStep
  | callReturn t block =>
      rw [TLSSystem.step] at hStep
      split at hStep
      · rw [h.rented, if_neg (Multiset.notMem_zero block)] at hStep
        cases hStep
      · cases hStep
  | run t rentable =>
      obtain ⟨next, hNext, rfl⟩ := Option.map_eq_some_iff.mp hStep
      have hWaits := h.threads t
      have hSlots := h.slots t
      have hNone : 0 + s.rented = 0 := by rw [h.rented]; rfl
      rw [lifetimeCalls]
      rw [TLSThread.step] at hNext
      cases hPc : (s.threads t).pc with
      | idle | crashed =>
          rw [hPc] at hNext
          cases hNext
      | giveBack pc =>
          rw [hPc] at hWaits
          cases hWaits
      | rent pc =>
          rw [hPc] at hNext hWaits
          cases pc with
          | tlsGetValue =>
              cases hNext
              refine h.quiet rfl rfl hNone rfl hSlots ?_
              cases hSlot : (s.threads t).mTlsIndexForChunk with
              | none => trivial
              | some chunk => exact hSlots chunk hSlot
          | rentChunk =>
              cases rentable with
              | none =>
                  cases hNext
                  exact h.quiet rfl rfl hNone rfl hSlots trivial
              | some chunk =>
                  obtain ⟨hFree, hNext⟩ := Option.ite_none_left_eq_some.mp hNext
                  cases hNext
                  refine h.lease (Bool.eq_false_iff.mpr hFree) rfl rfl hNone ?_
                  exact (rentChunk_mChunkPool s.pool chunk chunk).mpr (.inl rfl)
          | tlsSetValue chunk =>
              cases hNext
              refine h.quiet rfl rfl hNone rfl ?_ hWaits
              intro known hKnown
              cases hKnown
              exact hWaits
          | loadIndex chunk | storeIndex chunk loaded =>
              cases hNext
              exact h.quiet rfl rfl hNone rfl hSlots hWaits
          | testIndex chunk stored =>
              cases hNext
              refine h.quiet rfl rfl hNone rfl hSlots ?_
              dsimp only
              split <;> exact hWaits
          | rentNextChunk chunk stored =>
              cases rentable with
              | none =>
                  cases hNext
                  exact h.quiet rfl rfl hNone rfl hSlots trivial
              | some nextChunk =>
                  obtain ⟨hFree, hNext⟩ := Option.ite_none_left_eq_some.mp hNext
                  cases hNext
                  refine h.lease (Bool.eq_false_iff.mpr hFree) rfl rfl hNone ⟨?_, ?_⟩
                  · exact (rentChunk_mChunkPool s.pool nextChunk chunk).mpr (.inr hWaits)
                  · exact (rentChunk_mChunkPool s.pool nextChunk nextChunk).mpr (.inl rfl)
          | tlsSetNextValue chunk stored nextChunk =>
              cases hNext
              refine h.quiet rfl rfl hNone rfl ?_ hWaits.1
              intro known hKnown
              cases hKnown
              exact hWaits.2
          | readIndex chunk stored =>
              cases hNext
              refine h.quiet rfl rfl hNone rfl hSlots ?_
              dsimp only
              split
              · rename_i hIndex
                refine ⟨hWaits, ?_⟩
                omega
              · trivial
          | construct chunk index => exact absurd ⟨chunk, index, hPc⟩ hQuiet
          | incrementAllocatedSize => cases hWaits

/-- The calls of a run alternate exactly if none of its steps is the placement new of a `Rent`. -/
theorem Unrented.alternates_iff {actions : List (TLSAction Thread Chunk)} (h : s.Unrented log)
    (hRun : exec TLSSystem.step s actions = some s') :
    Alternates (log ++ s.lifetimes actions) ↔
      EachStep TLSSystem.step (fun s₁ a => ¬s₁.Constructs a) s actions := by
  induction actions generalizing s log with
  | nil =>
      rw [lifetimes, List.append_nil]
      exact iff_of_true h.alternates eachStep_nil
  | cons a later ih =>
      rw [exec] at hRun
      split at hRun
      · rename_i next hStep
        rw [lifetimes, hStep, eachStep_cons hStep]
        by_cases hConstructs : s.Constructs a
        · exact iff_of_false (h.not_alternates hConstructs _) fun hNone => hNone.1 hConstructs
        · rw [← List.append_assoc, ih (h.step hConstructs hStep) hRun]
          exact (and_iff_right hConstructs).symm
      · cases hRun

end Invariant

omit [DecidableEq Thread] in
theorem start_unrented (chunks : Chunk → ObjectPoolTLSChunk Chunk) :
    (start .CallConstructorDestructor chunks : TLSSystem Thread Chunk).Unrented [] where
  policy := rfl
  rented := rfl
  slots _ _ hKnown := by cases hKnown
  threads _ := trivial
  calls _ := rfl

/-- With `CallConstructorDestructor` the calls alternate on every block exactly if no `Rent` gets to
its constructor. -/
theorem lifetimes_alternate (chunks : Chunk → ObjectPoolTLSChunk Chunk)
    (actions : List (TLSAction Thread Chunk)) (s : TLSSystem Thread Chunk)
    (h : exec step (start .CallConstructorDestructor chunks) actions = some s) :
    Alternates ((start .CallConstructorDestructor chunks : TLSSystem Thread Chunk).lifetimes actions) ↔
      EachStep step (fun s₁ a => ¬s₁.Constructs a) (start .CallConstructorDestructor chunks) actions :=
  (start_unrented chunks).alternates_iff h

section Runs

/-- One `Rent`, from a pool without chunks. -/
private def oneRent : List (TLSAction Unit Nat) :=
  .callRent () :: List.replicate 9 (.run () (some 0))

private def noChunks : TLSSystem Unit Nat :=
  start .CallConstructorDestructor fun chunk => .new chunk

private theorem oneRent_ends : ∃ s, exec step noChunks oneRent = some s := ⟨_, rfl⟩

/-- The `Rent` constructs in its eighth step, so the calls do not alternate. -/
theorem lifetimes_alternate_oneRent : ¬Alternates (noChunks.lifetimes oneRent) := by
  obtain ⟨s, hRun⟩ := oneRent_ends
  rw [noChunks, lifetimes_alternate _ oneRent s hRun]
  intro hNone
  exact hNone (oneRent.take 8) (.run () (some 0)) (oneRent.drop 9) _ rfl rfl ⟨0, 99, rfl⟩

/-- The last object of the chunk is constructed twice. -/
theorem not_lifetimes_alternate : ¬ ∀ (chunks : Nat → ObjectPoolTLSChunk Nat)
    (actions : List (TLSAction Unit Nat)) (s : TLSSystem Unit Nat),
    exec step (start .CallConstructorDestructor chunks) actions = some s →
    Alternates ((start .CallConstructorDestructor chunks : TLSSystem Unit Nat).lifetimes actions) := by
  intro h
  obtain ⟨s, hRun⟩ := oneRent_ends
  have hTwice : callsOn (0, 99) (noChunks.lifetimes oneRent) = [true, true] := by decide
  have hTurns := h _ oneRent s hRun (0, 99)
  change TakesTurns true (callsOn (0, 99) (noChunks.lifetimes oneRent)) at hTurns
  rw [hTwice] at hTurns
  exact absurd hTurns (by decide)

end Runs

end TLSSystem

end NfNetwork.ObjectPool
