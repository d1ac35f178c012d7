import NfNetwork.Machinery.Replay
import NfNetwork.Net.SessionLife

/-! The order of the callbacks of one connection, in the abstract machine. The
threads read the id of a session at different moments; the callbacks come in
order as long as the session is not released and no completion is taken up
before `OnConnected`, whoever releases a session knows its id, and the id is
new. -/
namespace NfNetwork.Net

open Machinery

/-- The id that a callback passes to the handler. -/
def Event.callbackId : Event → Option Nat
  | .onConnected id | .onReceived id | .onSent id | .onDisconnected id => some id
  | _ => none

/-- How far the handler has followed a connection. -/
inductive Phase where
  | before
  | connected
  | disconnected
  deriving DecidableEq, Repr

namespace Phase

/-- The callbacks of one id in order: connected once, then received and sent,
then disconnected, and nothing more. What is about another id is skipped. -/
def next (id : Nat) (phase : Phase) (e : Event) : Option Phase :=
  if e.callbackId ≠ some id then some phase
  else match phase, e with
    | .before, .onConnected _ => some .connected
    | .connected, .onReceived _ | .connected, .onSent _ => some .connected
    | .connected, .onDisconnected _ => some .disconnected
    | _, _ => none

/-- The phase that a log leads to, if the callbacks of the id came in order. -/
def after (id : Nat) (log : List Event) : Option Phase := replay (next id) .before log

variable {id : Nat} {log : List Event} {e : Event}

/-- An event about another session does not move the phase. -/
theorem next_skip (h : e.callbackId ≠ some id) (phase : Phase) : phase.next id e = some phase :=
  if_pos h

/-- The same for the phase after a whole log. -/
theorem after_skip (h : e.callbackId ≠ some id) : after id (log ++ [e]) = after id log := by
  rw [after, replay_append, ← after]
  cases after id log with
  | none => rfl
  | some phase => rw [Option.bind_some, replay_singleton, next_skip h]

/-- The phase after one more event. -/
theorem after_concat {phase : Phase} (h : after id log = some phase) (e : Event) :
    after id (log ++ [e]) = phase.next id e :=
  replay_concat h e

/-- A session is before its first callback only if it was. -/
theorem next_eq_before {phase : Phase} (h : phase.next id e = some .before) :
    phase = .before ∧ e.callbackId ≠ some id := by
  unfold next at h
  split at h
  · rename_i hOther
    cases h
    exact ⟨rfl, hOther⟩
  · split at h <;> cases h

/-- Before the connection there was no callback. -/
theorem callbackId_ne_of_before (h : after id log = some .before) (hMem : e ∈ log) :
    e.callbackId ≠ some id := by
  induction log using List.reverseRecOn with
  | nil => cases hMem
  | append_singleton log last ih =>
      rw [after, replay_append, ← after, Option.bind_eq_some_iff] at h
      obtain ⟨phase, hPhase, hLast⟩ := h
      obtain ⟨rfl, hOther⟩ := next_eq_before ((replay_singleton last).symm.trans hLast)
      rcases List.mem_append.mp hMem with hMem | hMem
      · exact ih hPhase hMem
      · rw [List.mem_singleton.mp hMem]
        exact hOther

end Phase

namespace Act

/-- The acts before `OnConnected` is called. -/
def unconnected : Act → Nat
  | fresh | bound _ => 1
  | _ => 0

/-- The acts that may call `OnReceived` or `OnSent`. -/
def serves : Act → Nat
  | serving _ => 1
  | _ => 0

/-- The acts that end in `OnDisconnected` for the given id. -/
def ends (id : Nat) : Act → Nat
  | releasing (some id') | notifying id' => if id' = id then 1 else 0
  | _ => 0

/-- Between its publication and `OnConnected` a session is with the accept thread. -/
theorem unconnected_le_accepts (a : Act) : a.unconnected ≤ a.accepts := by
  cases a <;> simp [unconnected, accepts]

/-- A thread that is about to call back has the session acquired. -/
theorem serves_le_uses (a : Act) : a.serves ≤ a.uses := by
  cases a <;> simp [serves, uses]

/-- A plain reference is neither an accept in progress nor a release. -/
theorem measures_of_holds {a : Act} (h : a.holds = 1) (id : Nat) :
    a.unconnected = 0 ∧ a.ends id = 0 := by
  cases a <;> first | exact ⟨rfl, rfl⟩ | cases h

end Act

namespace Life

/-- What the runs avoid: before `OnConnected` a release and a completion taken
up, a release under an id that is not the session's, and an id issued before. -/
structure KeepsOrder (v : Life) (label : Label) : Prop where
  release : ∀ o, label = .release o →
    v.total Act.unconnected = 0 ∧ ∀ id, o = some id → id = v.core.id
  serve : label = .serve → v.total Act.unconnected = 0
  publish : label = .publish → .published v.core.id ∉ v.core.log

/-- Before `OnConnected` the session is live and no completion is handled. -/
def Quiet (v : Life) : Prop :=
  v.total Act.unconnected = 0 ∨ v.core.released = false ∧ v.total Act.serves = 0

variable {v v' : Life} {label : Label}

section Quiet

attribute [local simp] Population.total

/-- While the session is released nobody serves it, and this lasts as long as the steps keep the
order. -/
theorem Quiet.step (h : v.Quiet) (hSound : v.Sound) (hKeeps : v.KeepsOrder label)
    (hStep : LifeStep v label v') : v'.Quiet := by
  unfold Quiet at h ⊢
  cases hStep with
  | row hActs hRow =>
      cases hRow
      case publish =>
        right
        have hReleased := hSound.released_of_displaces (a := .popped true) (by simp [hActs]) rfl
        have hServes : v.total Act.serves ≤ v.total Act.uses := total_mono Act.serves_le_uses
        rw [hSound.live hReleased] at hServes
        simpa [hActs, Act.serves] using hServes
      case win o hLive hZero =>
        left
        simpa [hActs, Act.unconnected] using (hKeeps.release o rfl).1
      case serve hLive =>
        left
        simpa [hActs, Act.unconnected] using hKeeps.serve rfl
      case forget a hHolds =>
        have hNone : ∀ {b : Act}, b.holds = 1 → b.unconnected = 0 :=
          fun hb => (Act.measures_of_holds hb 0).1
        have hCounted : Act.counted.serves = 0 := rfl
        simp [hActs, hNone hHolds, hNone (b := .counted) rfl, hCounted] at h ⊢
        exact h.imp_right fun hLive => ⟨hLive.1, hLive.2.2⟩
      case bindFail =>
        simp [hActs, Act.unconnected, Act.serves] at h ⊢
        exact .inr h
      case connect =>
        simp [hActs, Act.unconnected, Act.serves] at h ⊢
        exact .inr h
      all_goals simpa [hActs, Act.unconnected, Act.serves] using h
  | pop hUnused hAlone => simpa [Act.unconnected, Act.serves] using h

end Quiet

/-- A session that has not been connected yet has not been released. -/
theorem Quiet.live_of_unconnected (h : v.Quiet) {a : Act} (hMem : a ∈ v.acts)
    (hUnconnected : a.unconnected = 1) : v.core.released = false := by
  have hLe : a.unconnected ≤ v.total Act.unconnected := le_total_of_mem hMem
  rcases h with hNone | ⟨hLive, _⟩
  · omega
  · exact hLive

/-- Whose id the acts carry: the session's own, as long as it is live. -/
structure Identified (v : Life) : Prop where
  named : .popped true ∈ v.acts → v.core.id ≠ 0
  live : v.core.released = false → v.core.id ≠ 0 ∧ .published v.core.id ∈ v.core.log
  valid : .published 0 ∉ v.core.log
  serving : ∀ id, .serving (some id) ∈ v.acts → id = v.core.id
  bound : ∀ id, .bound (some id) ∈ v.acts → id = v.core.id

section Identified

attribute [local simp] Population.total

/-- The id changes only while the session is displaced; then nobody carries it. -/
theorem Identified.of_displaced (h : v.Identified) (hSound : v.Sound) (hQuiet : v.Quiet) {a : Act}
    (hMem : a ∈ v.acts) (hDisplaces : a.displaces = 1)
    (hReleased : v'.core.released = v.core.released) (hLog : v'.core.log = v.core.log)
    (hActs : ∀ a : Act, a ∈ v'.acts → a.uses = 1 ∨ a.unconnected = 1 → a ∈ v.acts)
    (hNamed : .popped true ∈ v'.acts → v'.core.id ≠ 0) : v'.Identified := by
  have hTrue := hSound.released_of_displaces hMem hDisplaces
  refine ⟨hNamed, ?_, hLog ▸ h.valid, ?_, ?_⟩
  · intro hLive
    rw [hReleased, hTrue] at hLive
    cases hLive
  · intro id hId
    rw [hSound.live_of_uses (hActs _ hId (.inl rfl)) rfl] at hTrue
    cases hTrue
  · intro id hId
    rw [hQuiet.live_of_unconnected (hActs _ hId (.inr rfl)) rfl] at hTrue
    cases hTrue

/-- Whoever is about to call back has read the id under which the session lives. -/
theorem Identified.step (h : v.Identified) (hSound : v.Sound) (hQuiet : v.Quiet)
    (hStep : LifeStep v label v') : v'.Identified := by
  have hAgain := h
  have hPlace := hSound.place
  obtain ⟨hNamed, hLive, hValid, hServing, hBound⟩ := h
  cases hStep with
  | row hActs hRow =>
      cases hRow
      case clearId id =>
        refine hAgain.of_displaced hSound hQuiet (a := .releasing id) (by simp [hActs]) rfl rfl rfl
          ?_ ?_
        · intro a hMem _
          simpa [hActs] using hMem
        · intro hPopped
          simp at hPopped
          have hLe : Act.displaces (.popped true) ≤ _ := le_sum_map hPopped
          simp [hActs, Act.displaces] at hPlace hLe
          omega
      case name id hId =>
        refine hAgain.of_displaced hSound hQuiet (a := .popped false) (by simp [hActs]) rfl rfl rfl
          ?_ ?_
        · intro a hMem hKind
          simp [hActs] at hMem ⊢
          rcases hMem with rfl | hMem
          · simp [Act.uses, Act.unconnected] at hKind
          · exact .inr hMem
        · exact fun _ => hId
      case publish =>
        simp [hActs] at hNamed hServing hBound
        constructor
        · simpa using fun _ => hNamed
        · simpa using hNamed
        · simpa using ⟨hValid, Ne.symm hNamed⟩
        · simpa using hServing
        · simpa using hBound
      case forget a hHolds =>
        simp [hActs] at hNamed hServing hBound
        constructor
        · simpa using fun hPopped => hNamed (.inr hPopped)
        · simpa using hLive
        · exact hValid
        · simpa using fun id hId => hServing id (.inr hId)
        · simpa using fun id hId => hBound id (.inr hId)
      case callback id e hEvent =>
        simp [hActs] at hNamed hServing hBound
        constructor
        · simpa using hNamed
        · simpa using fun hReleased => ⟨(hLive hReleased).1, .inl (hLive hReleased).2⟩
        · rcases hEvent with rfl | rfl <;> simpa using hValid
        · simpa using hServing.2
        · simpa using hBound
      case connect id =>
        simp [hActs] at hNamed hServing hBound
        constructor
        · simpa using hNamed
        · simpa using hLive
        · simpa using hValid
        · simpa using hServing
        · simpa using hBound.2
      all_goals
        simp [hActs] at hNamed hLive hServing hBound
        constructor
        all_goals simp
        all_goals assumption
  | pop hUnused hAlone =>
      constructor
      all_goals simp
      all_goals assumption

end Identified

/-- Who may still make the callbacks of an id: the live session, or the one
thread that released it. -/
def owners (v : Life) (id : Nat) : Nat :=
  v.total (Act.ends id) + if v.core.released = false ∧ v.core.id = id then 1 else 0

/-- The phase in which a bound id is. -/
def expected (v : Life) (id : Nat) : Phase :=
  if v.core.released = false ∧ v.core.id = id ∧ v.total Act.unconnected ≠ 0 then .before
  else if v.owners id = 0 then .disconnected
  else .connected

/-- What the callbacks of one id have been so far, issued, bound or not. -/
structure Follows (v : Life) (id : Nat) : Prop where
  unissued : .published id ∉ v.core.log →
    Phase.after id v.core.log = some .before ∧ .bound id ∉ v.core.log ∧ v.total (Act.ends id) = 0
  issued : .bound id ∈ v.core.log →
    Phase.after id v.core.log = some (v.expected id) ∧ v.owners id ≤ 1

/-- The callbacks of every id, and what the accept thread knows of its own. -/
structure Phases (v : Life) : Prop where
  follows : ∀ id, v.Follows id
  fresh : .fresh ∈ v.acts → .bound v.core.id ∉ v.core.log ∧
    Phase.after v.core.id v.core.log = some .before ∧ v.total (Act.ends v.core.id) = 0
  bound : ∀ o, .bound o ∈ v.acts → .bound v.core.id ∈ v.core.log
  failed : .deciding none ∈ v.acts → v.core.released = true ∨ .bound v.core.id ∉ v.core.log

/-- Two logs that are the same for one id. -/
structure SameFor (id : Nat) (log' log : List Event) : Prop where
  phase : Phase.after id log' = Phase.after id log
  published : .published id ∈ log' ↔ .published id ∈ log
  bound : .bound id ∈ log' ↔ .bound id ∈ log

/-- A log looks like itself. -/
theorem SameFor.refl (id : Nat) (log : List Event) : SameFor id log log := ⟨rfl, .rfl, .rfl⟩

/-- An event that is not about the id changes nothing for it. -/
theorem SameFor.append {id : Nat} {e : Event} (log : List Event) (hCallback : e.callbackId ≠ some id)
    (hPublished : e ≠ .published id) (hBound : e ≠ .bound id) : SameFor id (log ++ [e]) log := by
  constructor
  · exact Phase.after_skip hCallback
  · simp [hPublished.symm]
  · simp [hBound.symm]

/-- The accept thread is at one session only. -/
theorem Sound.accepts_others (h : v.Sound) {a b : Act} {others : Multiset Act}
    (hActs : v.acts = ([a] : List Act) + others) (hAccepts : a.accepts = 1) (hMem : b ∈ others) :
    b.accepts = 0 := by
  have hAlone := h.alone
  have hLe : b.accepts ≤ (others.map Act.accepts).sum := le_sum_map hMem
  simp [Population.total, hActs, hAccepts] at hAlone
  omega

/-- A released session has no accept in progress. -/
theorem Quiet.total_eq_zero (h : v.Quiet) (hReleased : v.core.released = true) :
    v.total Act.unconnected = 0 := by
  rcases h with hNone | ⟨hLive, _⟩
  · exact hNone
  · rw [hLive] at hReleased
    cases hReleased

section Follows

variable {id : Nat}

/-- A step that is not about the id. -/
theorem Follows.stay (h : v.Follows id) (hLog : SameFor id v'.core.log v.core.log)
    (hOwn : v'.core.released = false ∧ v'.core.id = id ↔ v.core.released = false ∧ v.core.id = id)
    (hUnconnected : v'.core.id = id → v'.total Act.unconnected = v.total Act.unconnected)
    (hEnds : v'.total (Act.ends id) = v.total (Act.ends id)) : v'.Follows id := by
  have hOwners : v'.owners id = v.owners id := by simp only [owners, hEnds, hOwn]
  have hExpected : v'.expected id = v.expected id := by
    have hBefore : (v'.core.released = false ∧ v'.core.id = id ∧ v'.total Act.unconnected ≠ 0) ↔
        v.core.released = false ∧ v.core.id = id ∧ v.total Act.unconnected ≠ 0 := by
      rw [← and_assoc, ← and_assoc, hOwn]
      constructor
      all_goals
        rintro ⟨hLive, hSome⟩
        have hSame := hUnconnected (hOwn.mpr hLive).2
        exact ⟨hLive, by omega⟩
    simp only [expected, hOwners, hBefore]
  constructor
  · intro hNot
    rw [hLog.phase, hEnds, hLog.bound]
    exact h.unissued (fun hIn => hNot (hLog.published.mpr hIn))
  · intro hIn
    rw [hLog.phase, hExpected, hOwners]
    exact h.issued (hLog.bound.mp hIn)

end Follows

section Phases

attribute [local simp] Population.total

/-- A step that is not about any id's callbacks. -/
theorem Phases.stay (h : v.Phases) (hLog : ∀ id, SameFor id v'.core.log v.core.log)
    (hReleased : v'.core.released = v.core.released) (hId : v'.core.id = v.core.id)
    (hUnconnected : v'.total Act.unconnected = v.total Act.unconnected)
    (hEnds : ∀ id, v'.total (Act.ends id) = v.total (Act.ends id))
    (hFresh : .fresh ∈ v'.acts → .fresh ∈ v.acts)
    (hBound : (∃ o, .bound o ∈ v'.acts) → ∃ o, .bound o ∈ v.acts)
    (hFailed : .deciding none ∈ v'.acts → .deciding none ∈ v.acts) : v'.Phases := by
  constructor
  · intro id
    exact (h.follows id).stay (hLog id) (by rw [hReleased, hId]) (fun _ => hUnconnected) (hEnds id)
  · intro hMem
    rw [(hLog _).bound, (hLog _).phase, hEnds, hId]
    exact h.fresh (hFresh hMem)
  · intro o hMem
    obtain ⟨o', hMem'⟩ := hBound ⟨o, hMem⟩
    rw [(hLog _).bound, hId]
    exact h.bound o' hMem'
  · intro hMem
    rw [(hLog _).bound, hReleased, hId]
    exact h.failed (hFailed hMem)

/-- A released session gets or loses its id. -/
theorem Phases.rename (h : v.Phases) (hReleased : v.core.released = true)
    (hCore : v'.core = { v.core with id := v'.core.id })
    (hNone : v'.total Act.unconnected = 0)
    (hEnds : ∀ id, v'.total (Act.ends id) = v.total (Act.ends id)) : v'.Phases := by
  have hLog : v'.core.log = v.core.log := by rw [hCore]
  have hStill : v'.core.released = true := by rw [hCore, hReleased]
  constructor
  · intro id
    have hFollows := h.follows id
    constructor
    · rw [hLog, hEnds]
      exact hFollows.unissued
    · have hIssued := hFollows.issued
      simp only [expected, owners, hReleased] at hIssued
      simp only [expected, owners, hStill, hEnds, hLog]
      simpa using hIssued
  · intro hMem
    exact absurd (eq_zero_of_total hNone hMem) (by decide)
  · intro o hMem
    exact absurd (eq_zero_of_total hNone hMem) (Nat.succ_ne_zero 0)
  · exact fun _ => .inl hStill

variable {others : Multiset Act}

/-- A published session is before its first callback, under an id that is new. -/
theorem Phases.publish (h : v.Phases) (hSound : v.Sound)
    (hNew : .published v.core.id ∉ v.core.log)
    (hActs : v.acts = ([.popped true] : List Act) + others) :
    Phases ⟨{ v.core with released := false, log := v.core.log ++ [.published v.core.id] },
      ([.fresh] : List Act) + others⟩ := by
  have hPopped : .popped true ∈ v.acts := by simp [hActs]
  have hReleased := hSound.released_of_displaces hPopped rfl
  obtain ⟨hBefore, hNotBound, hNoEnds⟩ := (h.follows _).unissued hNew
  have hOthers : ∀ {a : Act}, a ∈ others → a.accepts = 0 := hSound.accepts_others hActs rfl
  have hPhase : Phase.after v.core.id (v.core.log ++ [.published v.core.id]) = some .before := by
    rw [Phase.after_skip (by simp [Event.callbackId]), hBefore]
  constructor
  · intro id
    by_cases hId : v.core.id = id
    · subst hId
      constructor
      · intro hNot
        exact absurd (by simp) hNot
      · intro hIn
        exact absurd (by simpa using hIn) hNotBound
    · refine (h.follows id).stay (.append _ ?_ ?_ ?_) ?_ ?_ ?_
      · simp [Event.callbackId]
      · simpa using hId
      · simp
      · simp [hId]
      · exact fun hSame => absurd hSame hId
      · simp [hActs, Act.ends]
  · intro _
    refine ⟨by simpa using hNotBound, hPhase, ?_⟩
    simpa [hActs, Act.ends] using hNoEnds
  · intro o hMem
    simp at hMem
    exact absurd (hOthers hMem) (by simp [Act.accepts])
  · intro hMem
    simp at hMem
    exact absurd (hOthers hMem) (by decide)

/-- The release that wins knows that `OnConnected` has been called, and owes `OnDisconnected`. -/
theorem Phases.win (h : v.Phases) (hIdentified : v.Identified) {o : Option Nat}
    (hKeeps : v.KeepsOrder (.release o)) (hLive : v.core.released = false)
    (hActs : v.acts = ([.deciding o] : List Act) + others) :
    Phases ⟨{ v.core with released := true, log := v.core.log ++ [.released] },
      ([.releasing o] : List Act) + others⟩ := by
  have hMem : .deciding o ∈ v.acts := by simp [hActs]
  obtain ⟨hUnconnected, hOwn⟩ := hKeeps.release o rfl
  have hPublished := (hIdentified.live hLive).2
  have hNone : ∀ {a : Act}, a ∈ others → a.unconnected = 0 :=
    fun hOthers => eq_zero_of_total hUnconnected (by simp [hActs, hOthers])
  constructor
  · intro id
    by_cases hId : v.core.id = id
    · subst hId
      constructor
      · intro hNot
        exact absurd (by simpa using hPublished) hNot
      · intro hIn
        simp at hIn
        obtain ⟨hPhase, hOwners⟩ := (h.follows _).issued hIn
        cases o with
        | none =>
            rcases h.failed hMem with hReleased | hNotBound
            · rw [hLive] at hReleased
              cases hReleased
            · exact absurd hIn hNotBound
        | some id =>
            -- Now the callbacks of the id are up to the thread that releases.
            have hSame := hOwn id rfl
            simp [owners, expected, hActs, hLive, Act.ends, Act.unconnected]
              at hOwners hPhase hUnconnected
            rw [hUnconnected] at hPhase
            simp [owners, expected, Act.ends, hSame, hOwners]
            rw [Phase.after_skip (by simp [Event.callbackId]), hPhase]
            simp
    · refine (h.follows id).stay (.append _ ?_ ?_ ?_) ?_ ?_ ?_
      · simp [Event.callbackId]
      · simp
      · simp
      · simp [hId]
      · exact fun hSame => absurd hSame hId
      · cases o with
        | none => simp [hActs, Act.ends]
        | some id' =>
            have hSame := hOwn id' rfl
            simp [hActs, Act.ends, hSame, hId]
  · intro hFresh
    simp at hFresh
    exact absurd (hNone hFresh) (by decide)
  · intro o' hBound
    simp at hBound
    exact absurd (hNone hBound) (by simp [Act.unconnected])
  · exact fun _ => .inl rfl

/-- Binding the socket to the port calls nobody. -/
theorem Phases.bindSucceeds (h : v.Phases) (hSound : v.Sound) (hQuiet : v.Quiet)
    (hIdentified : v.Identified) (hActs : v.acts = ([.fresh] : List Act) + others) :
    Phases ⟨{ v.core with log := v.core.log ++ [.bound v.core.id] },
      ([.bound none] : List Act) + others⟩ := by
  have hMem : .fresh ∈ v.acts := by simp [hActs]
  have hLive := hQuiet.live_of_unconnected hMem rfl
  obtain ⟨hNotBound, hBefore, hNoEnds⟩ := h.fresh hMem
  have hOthers : ∀ {a : Act}, a ∈ others → a.accepts = 0 := hSound.accepts_others hActs rfl
  constructor
  · intro id
    by_cases hId : v.core.id = id
    · subst hId
      constructor
      · intro hNot
        exact absurd (by simpa using (hIdentified.live hLive).2) hNot
      · intro _
        simp [hActs, Act.ends] at hNoEnds
        rw [Phase.after_skip (by simp [Event.callbackId]), hBefore]
        simp [expected, owners, hLive, Act.ends, Act.unconnected, hNoEnds]
    · refine (h.follows id).stay (.append _ ?_ ?_ ?_) .rfl ?_ ?_
      · simp [Event.callbackId]
      · simp
      · simpa using hId
      · exact fun hSame => absurd hSame hId
      · simp [hActs, Act.ends]
  · intro hFresh
    simp at hFresh
    exact absurd (hOthers hFresh) (by decide)
  · intro o hBound
    simp
  · intro hFailed
    simp at hFailed
    exact absurd (hOthers hFailed) (by decide)

/-- A session whose socket cannot be bound goes without any callback. -/
theorem Phases.bindFails (h : v.Phases) (hSound : v.Sound)
    (hActs : v.acts = ([.fresh] : List Act) + others) :
    Phases ⟨v.core, ([.deciding none] : List Act) + others⟩ := by
  obtain ⟨hNotBound, hBefore, hNoEnds⟩ := h.fresh (by simp [hActs])
  have hOthers : ∀ {a : Act}, a ∈ others → a.accepts = 0 := hSound.accepts_others hActs rfl
  constructor
  · intro id
    have hEnds : (⟨v.core, ([.deciding none] : List Act) + others⟩ : Life).total (Act.ends id) =
        v.total (Act.ends id) := by
      simp [hActs, Act.ends]
    by_cases hId : v.core.id = id
    · subst hId
      constructor
      · rw [hEnds]
        exact (h.follows _).unissued
      · exact fun hIn => absurd hIn hNotBound
    · exact (h.follows id).stay (.refl _ _) .rfl (fun hSame => absurd hSame hId) hEnds
  · intro hFresh
    simp at hFresh
    exact absurd (hOthers hFresh) (by decide)
  · intro o hBound
    simp at hBound
    exact absurd (hOthers hBound) (by simp [Act.accepts])
  · exact fun _ => .inr hNotBound

/-- `OnConnected` is the first callback of its session. -/
theorem Phases.connect (h : v.Phases) (hSound : v.Sound) (hQuiet : v.Quiet)
    (hIdentified : v.Identified) {x : Nat}
    (hActs : v.acts = ([.bound (some x)] : List Act) + others) :
    Phases ⟨{ v.core with log := v.core.log ++ [.onConnected x] },
      ([.connected] : List Act) + others⟩ := by
  have hMem : .bound (some x) ∈ v.acts := by simp [hActs]
  have hLive := hQuiet.live_of_unconnected hMem rfl
  have hBound := h.bound _ hMem
  have hX := hIdentified.bound x hMem
  have hOthers : ∀ {a : Act}, a ∈ others → a.accepts = 0 := hSound.accepts_others hActs rfl
  have hNone : (others.map Act.unconnected).sum = 0 := by
    apply sum_map_eq_zero
    intro a hOther
    have hLe := Act.unconnected_le_accepts a
    rw [hOthers hOther] at hLe
    exact Nat.le_zero.mp hLe
  subst hX
  constructor
  · intro id
    by_cases hId : v.core.id = id
    · subst hId
      constructor
      · intro hNot
        exact absurd (by simpa using (hIdentified.live hLive).2) hNot
      · intro _
        obtain ⟨hPhase, hOwners⟩ := (h.follows _).issued hBound
        simp [expected, owners, hActs, hLive, Act.ends, Act.unconnected] at hPhase hOwners
        rw [Phase.after_concat hPhase]
        simp [Phase.next, Event.callbackId, expected, owners, hLive, Act.ends, Act.unconnected,
          hNone, hOwners]
    · refine (h.follows id).stay (.append _ ?_ ?_ ?_) .rfl ?_ ?_
      · simpa [Event.callbackId] using hId
      · simp
      · simp
      · exact fun hSame => absurd hSame hId
      · simp [hActs, Act.ends]
  · intro hFresh
    simp at hFresh
    exact absurd (hOthers hFresh) (by decide)
  · intro o _
    simpa using hBound
  · intro hFailed
    simp at hFailed
    exact absurd (hOthers hFailed) (by decide)

/-- `OnReceived` and `OnSent` come after `OnConnected` and before `OnDisconnected`. -/
theorem Phases.callback (h : v.Phases) (hSound : v.Sound) (hQuiet : v.Quiet)
    (hIdentified : v.Identified) {x : Nat} {e : Event} (hEvent : e = .onReceived x ∨ e = .onSent x)
    (hActs : v.acts = ([.serving (some x)] : List Act) + others) :
    Phases ⟨{ v.core with log := v.core.log ++ [e] }, ([.serving none] : List Act) + others⟩ := by
  have hMem : .serving (some x) ∈ v.acts := by simp [hActs]
  have hLive := hSound.live_of_uses hMem rfl
  have hX := hIdentified.serving x hMem
  subst hX
  have hId : e.callbackId = some v.core.id := by rcases hEvent with rfl | rfl <;> rfl
  have hTurning : ∀ id, e ≠ .published id ∧ e ≠ .bound id := by
    rcases hEvent with rfl | rfl <;> simp
  have hUnconnected : (others.map Act.unconnected).sum = 0 := by
    have hServes : Act.serves (.serving (some v.core.id)) ≤ v.total Act.serves := le_total_of_mem hMem
    rcases hQuiet with hNone | ⟨_, hNone⟩
    · simpa [hActs, Act.unconnected] using hNone
    · rw [hNone] at hServes
      exact absurd hServes (Nat.not_succ_le_zero 0)
  constructor
  · intro id
    by_cases hSame : v.core.id = id
    · subst hSame
      constructor
      · intro hNot
        exact absurd (by simp [(hIdentified.live hLive).2]) hNot
      · intro hIn
        rw [List.mem_append, List.mem_singleton, or_iff_left (hTurning _).2.symm] at hIn
        obtain ⟨hPhase, hOwners⟩ := (h.follows _).issued hIn
        simp [expected, owners, hActs, hLive, Act.ends, Act.unconnected, hUnconnected]
          at hPhase hOwners
        rw [Phase.after_concat hPhase]
        rcases hEvent with rfl | rfl
        all_goals
          simp [Phase.next, Event.callbackId, expected, owners, hLive, Act.ends, Act.unconnected,
            hUnconnected, hOwners]
    · refine (h.follows id).stay (.append _ ?_ (hTurning id).1 (hTurning id).2) .rfl ?_ ?_
      · simpa [hId] using hSame
      · exact fun hEq => absurd hEq hSame
      · simp [hActs, Act.ends]
  · intro hFresh
    simp at hFresh
    have hLe : Act.unconnected .fresh ≤ _ := le_sum_map hFresh
    rw [hUnconnected] at hLe
    exact absurd hLe (by decide)
  · intro o hBound
    simp at hBound
    simp [h.bound o (by simp [hActs, hBound])]
  · intro hFailed
    simp at hFailed
    have hEarlier := h.failed (by simp [hActs, hFailed])
    simpa [(hTurning _).2.symm] using hEarlier

/-- `OnDisconnected` is the last. -/
theorem Phases.notify (h : v.Phases) {x : Nat}
    (hActs : v.acts = ([.notifying x] : List Act) + others) :
    Phases ⟨{ v.core with log := v.core.log ++ [.onDisconnected x] }, ([] : List Act) + others⟩ := by
  constructor
  · intro id
    by_cases hId : x = id
    · subst hId
      constructor
      · intro hNot
        have hUnissued := (h.follows x).unissued (by simpa using hNot)
        simp [hActs, Act.ends] at hUnissued
      · intro hIn
        obtain ⟨hPhase, hOwners⟩ := (h.follows x).issued (by simpa using hIn)
        -- Only the one that notifies owns the id, so the session is past it.
        have hGone : ¬ (v.core.released = false ∧ v.core.id = x) := by
          intro hLive
          simp [owners, hActs, Act.ends, hLive] at hOwners
        have hExpected : v.expected x = .connected := by
          rw [expected, if_neg (fun hBefore => hGone ⟨hBefore.1, hBefore.2.1⟩), if_neg]
          simp [owners, hActs, Act.ends]
        rw [owners, if_neg hGone] at hOwners
        simp [hActs, Act.ends] at hOwners
        rw [hExpected] at hPhase
        rw [Phase.after_concat hPhase, expected, owners, if_neg hGone,
          if_neg (fun hBefore => hGone ⟨hBefore.1, hBefore.2.1⟩)]
        simp [Phase.next, Event.callbackId, hOwners]
    · refine (h.follows id).stay (.append _ ?_ ?_ ?_) .rfl ?_ ?_
      · simpa [Event.callbackId] using hId
      · simp
      · simp
      · intro _
        simp [hActs, Act.unconnected]
      · simp [hActs, Act.ends, hId]
  · intro hFresh
    simp at hFresh
    obtain ⟨hNotBound, hBefore, hNoEnds⟩ := h.fresh (by simp [hActs, hFresh])
    simp [hActs, Act.ends] at hNoEnds
    refine ⟨by simpa using hNotBound, ?_, by simpa using hNoEnds.2⟩
    rw [Phase.after_skip (by simpa [Event.callbackId] using hNoEnds.1), hBefore]
  · intro o hBound
    simp at hBound
    simpa using h.bound o (by simp [hActs, hBound])
  · intro hFailed
    simp at hFailed
    simpa using h.failed (by simp [hActs, hFailed])

/-- One case for each row of the life table. -/
theorem Phases.step (h : v.Phases) (hSound : v.Sound) (hQuiet : v.Quiet)
    (hIdentified : v.Identified) (hKeeps : v.KeepsOrder label) (hStep : LifeStep v label v') :
    v'.Phases := by
  cases hStep with
  | row hActs hRow =>
      cases hRow
      case publish => exact h.publish hSound (hKeeps.publish rfl) hActs
      case win id hLive hZero => exact h.win hIdentified hKeeps hLive hActs
      case bind => exact h.bindSucceeds hSound hQuiet hIdentified hActs
      case bindFail => exact h.bindFails hSound hActs
      case connect x => exact h.connect hSound hQuiet hIdentified hActs
      case callback x e hEvent => exact h.callback hSound hQuiet hIdentified hEvent hActs
      case notify x => exact h.notify hActs
      case clearId o =>
        have hReleased := hSound.released_of_displaces (a := .releasing o) (by simp [hActs]) rfl
        refine h.rename hReleased rfl ?_ ?_
        · simpa [hActs] using hQuiet.total_eq_zero hReleased
        · intro id
          simp [hActs]
      case name id hId =>
        have hReleased := hSound.released_of_displaces (a := .popped false) (by simp [hActs]) rfl
        refine h.rename hReleased rfl ?_ ?_
        · simpa [hActs, Act.unconnected] using hQuiet.total_eq_zero hReleased
        · intro id
          simp [hActs, Act.ends]
      case forget a hHolds =>
        have hCounted := Act.measures_of_holds (a := .counted) rfl
        have hSame := Act.measures_of_holds hHolds
        refine h.stay (.refl · _) rfl rfl ?_ ?_ ?_ ?_ ?_
        · simp [hActs, (hSame 0).1, (hCounted 0).1]
        · intro id
          simp [hActs, (hSame id).2, (hCounted id).2]
        · simpa [hActs] using Or.inr
        · simpa [hActs] using fun o ho => ⟨o, .inr ho⟩
        · simpa [hActs] using Or.inr
      case push | pushSilent =>
        refine h.stay (fun id => .append _ ?_ ?_ ?_) rfl rfl ?_ ?_ ?_ ?_ ?_
        all_goals simp [hActs, Act.unconnected, Act.ends, Event.callbackId]
      case giveUp id =>
        refine h.stay (.refl · _) rfl rfl ?_ ?_ ?_ ?_ ?_
        all_goals simp [hActs, Act.unconnected, Act.ends]
        exact Or.inr
      all_goals
        refine h.stay (.refl · _) rfl rfl ?_ ?_ ?_ ?_ ?_
        all_goals simp [hActs, Act.unconnected, Act.ends]
  | pop hUnused hAlone =>
      refine h.stay (fun id => .append _ ?_ ?_ ?_) rfl rfl ?_ ?_ ?_ ?_ ?_
      all_goals simp [Act.unconnected, Act.ends, Event.callbackId]

/-- The invariants together hold in every run that keeps the order. -/
theorem phases_of_reachable (h : Reachable LifeStep KeepsOrder Life.start v) :
    v.Identified ∧ v.Phases := by
  have hAll : v.Quiet ∧ v.Identified ∧ v.Phases := by
    apply h.invariant
    · refine ⟨.inl rfl, ?_, ?_⟩
      · constructor <;> simp [start]
      · constructor
        · intro id
          constructor <;> simp [start, Phase.after, replay]
        all_goals simp [start]
    · intro v v' label hReached hInv hKeeps hStep
      obtain ⟨hQuiet, hIdentified, hPhases⟩ := hInv
      have hSound := sound_of_reachable hReached
      exact ⟨hQuiet.step hSound hKeeps hStep, hIdentified.step hSound hQuiet hStep,
        hPhases.step hSound hQuiet hIdentified hKeeps hStep⟩
  exact hAll.2

/-- A bound id has its callbacks in order; before `OnConnected` the accept thread
is about to call it. -/
theorem Phases.of_bound (h : v.Phases) {id : Nat} (hBound : .bound id ∈ v.core.log) :
    ∃ phase, Phase.after id v.core.log = some phase ∧
      (phase = .before → ∃ o, .bound o ∈ v.acts) := by
  refine ⟨v.expected id, ((h.follows id).issued hBound).1, ?_⟩
  intro hBefore
  have hWaits : v.core.id = id ∧ v.total Act.unconnected ≠ 0 := by
    unfold expected at hBefore
    split at hBefore
    · rename_i hAll
      exact hAll.2
    · split at hBefore <;> cases hBefore
  obtain ⟨a, hMem, hSome⟩ := exists_of_total hWaits.2
  cases a
  case fresh => exact absurd (hWaits.1 ▸ hBound) (h.fresh hMem).1
  case bound o => exact ⟨o, hMem⟩
  all_goals exact absurd rfl hSome

end Phases

end Life

end NfNetwork.Net
