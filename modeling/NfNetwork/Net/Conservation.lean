import NfNetwork.Machinery.Replay
import NfNetwork.Net.ServerView

/-! Where a session of the pool is. In every run, whatever the threads do, each
session is in exactly one of four places, and it goes round them in one order. -/
namespace NfNetwork.Net

open Machinery

/-- In the stack of unused sessions, in the hands of the accept thread, live, or
in the hands of the thread whose `TryRelease` won. -/
inductive Place where
  | unused
  | popped
  | live
  | releasing
  deriving DecidableEq, Repr

namespace Place

/-- The places follow one another; a turning point out of order is refused. What
the handler sees is no turning point. -/
def next : Place → Event → Option Place
  | .unused, .popped => some .popped
  | .popped, .published _ => some .live
  | .live, .released => some .releasing
  | .releasing, .pushed => some .unused
  | _, .popped | _, .published _ | _, .released | _, .pushed => none
  | place, _ => some place

/-- The place after the given events of one session. -/
def after (log : List Event) : Option Place := replay next .unused log

end Place

/-- The acts between the pop and the end of `Init`. -/
def Act.pops : Act → Nat
  | .popped _ => 1
  | _ => 0

/-- The acts between the winning `TryRelease` and its push. -/
def Act.releases : Act → Nat
  | .releasing _ => 1
  | _ => 0

namespace Life

/-- How often a session is in a place. -/
def copies (v : Life) : Place → Nat
  | .unused => v.core.unused
  | .popped => v.total Act.pops
  | .live => v.core.live
  | .releasing => v.total Act.releases

/-- Once in the place that its events lead to, and in no other. -/
def InOnePlace (v : Life) : Prop :=
  ∃ place, Place.after v.core.log = some place ∧ ∀ p, v.copies p = if p = place then 1 else 0

variable {v v' : Life}

theorem InOnePlace.stay (h : v.InOnePlace) (hLog : Place.after v'.core.log = Place.after v.core.log)
    (hCopies : ∀ p, v'.copies p = v.copies p) : v'.InOnePlace := by
  obtain ⟨place, hPlace, hOne⟩ := h
  refine ⟨place, hLog.trans hPlace, ?_⟩
  intro p
  rw [hCopies, hOne]

theorem InOnePlace.eq_place {place p : Place}
    (hOne : ∀ p, v.copies p = if p = place then 1 else 0) (hHere : v.copies p ≠ 0) :
    p = place := by
  by_contra hOther
  rw [hOne, if_neg hOther] at hHere
  exact hHere rfl

/-- What is in one place is in no other. -/
theorem InOnePlace.elsewhere (h : v.InOnePlace) {p q : Place} (hHere : v.copies p ≠ 0)
    (hOther : q ≠ p) : v.copies q = 0 := by
  obtain ⟨place, _, hOne⟩ := h
  rw [hOne, ← InOnePlace.eq_place hOne hHere, if_neg hOther]

/-- Moving on from the place where the session is. -/
theorem InOnePlace.move (h : v.InOnePlace) {p q : Place} {e : Event} (hHere : v.copies p ≠ 0)
    (hNext : p.next e = some q) (hLog : v'.core.log = v.core.log ++ [e])
    (hCopies : ∀ r, v'.copies r + (if r = p then 1 else 0) =
      v.copies r + if r = q then 1 else 0) : v'.InOnePlace := by
  obtain ⟨place, hPlace, hOne⟩ := h
  obtain rfl := InOnePlace.eq_place hOne hHere
  refine ⟨q, ?_, ?_⟩
  · rw [hLog, Place.after, replay_concat hPlace, hNext]
  · intro r
    have hr := hCopies r
    rw [hOne] at hr
    omega

/-- Callbacks and the binding are no turning points. -/
theorem InOnePlace.report (h : v.InOnePlace) {e : Event} (hNext : ∀ p : Place, p.next e = some p)
    (hLog : v'.core.log = v.core.log ++ [e]) (hCopies : ∀ p, v'.copies p = v.copies p) :
    v'.InOnePlace := by
  obtain ⟨place, hPlace, hOne⟩ := h
  refine ⟨place, ?_, fun p => (hCopies p).trans (hOne p)⟩
  rw [hLog, Place.after, replay_concat hPlace, hNext]

end Life

section Steps

attribute [local simp] Population.total Life.copies Core.live Act.pops Act.releases

theorem Act.pops_releases_of_holds {a : Act} (h : a.holds = 1) : a.pops = 0 ∧ a.releases = 0 := by
  cases a <;> first | exact ⟨rfl, rfl⟩ | cases h

theorem LifeStep.inOnePlace {v v' : Life} {label : Label} (h : LifeStep v label v')
    (hPlace : v.InOnePlace) : v'.InOnePlace := by
  cases h with
  | row hActs hRow =>
      cases hRow
      case forget a hHolds =>
        obtain ⟨hPops, hReleases⟩ := Act.pops_releases_of_holds hHolds
        refine hPlace.stay rfl ?_
        intro p
        cases p <;> simp [hActs] at hPops hReleases ⊢
        all_goals assumption
      case publish =>
        have hHere : v.copies .popped ≠ 0 := by simp [hActs]
        have hLive := hPlace.elsewhere (q := .live) hHere nofun
        refine hPlace.move hHere (q := .live) rfl rfl ?_
        intro r
        cases r <;> simp [hActs] at hLive ⊢
        all_goals omega
      case win hLive _ =>
        have hHere : v.copies .live ≠ 0 := by simp [hLive]
        refine hPlace.move hHere (q := .releasing) rfl rfl ?_
        intro r
        cases r <;> simp [hActs, hLive]
        omega
      case push | pushSilent =>
        have hHere : v.copies .releasing ≠ 0 := by simp [hActs]
        refine hPlace.move hHere (q := .unused) rfl rfl ?_
        intro r
        cases r <;> simp [hActs]
        omega
      case abandon hLive =>
        have hHere : v.copies .popped ≠ 0 := by simp [hActs]
        have hNone := hPlace.elsewhere (q := .live) hHere nofun
        simp [hLive] at hNone
      case callback id e hCallback =>
        have hNext : ∀ p : Place, p.next e = some p := by
          rcases hCallback with rfl | rfl
          all_goals
            intro p
            cases p <;> rfl
        refine hPlace.report hNext rfl ?_
        intro p
        cases p <;> simp [hActs]
      case notify | bind | connect =>
        refine hPlace.report (fun p => by cases p <;> rfl) rfl ?_
        intro p
        cases p <;> simp [hActs]
      all_goals
        refine hPlace.stay rfl ?_
        intro p
        cases p <;> simp [hActs]
  | pop hUnused hAlone =>
      have hHere : v.copies .unused ≠ 0 := by simp [hUnused]
      refine hPlace.move hHere (q := .popped) rfl rfl ?_
      intro r
      cases r <;> simp [hUnused]
      omega

theorem Life.inOnePlace_of_reachable {Allowed : Life → Label → Prop} {v : Life}
    (h : Reachable LifeStep Allowed Life.start v) : v.InOnePlace := by
  apply h.invariant
  · refine ⟨.unused, rfl, ?_⟩
    intro p
    cases p <;> rfl
  · intro v v' label _ hPlace _ hStep
    exact hStep.inOnePlace hPlace

end Steps

/-- Between the pop and the end of `Init`. -/
def SlotPc.initialises : SlotPc → Bool
  | .init _ => true
  | _ => false

/-- Between the winning `TryRelease` and the push. -/
def SlotPc.releases : SlotPc → Bool
  | .release _ .countDisconnected => false
  | .release _ _ | .finishSending (.release _) _ => true
  | _ => false

theorem SlotPc.acts_pops (pc : SlotPc) :
    (pc.acts.map Act.pops).sum = if pc.initialises then 1 else 0 := by
  cases pc
  case sendPost caller pc =>
    cases caller <;> cases h : pc.armed <;> simp [acts, h, SendCaller.act, initialises, Act.pops]
  case recvPost caller pc =>
    cases caller <;> cases h : pc.armed <;> simp [acts, h, initialises, Act.pops]
  case release id pc => cases id <;> cases pc <;> rfl
  case finishSending caller pc => cases caller <;> rfl
  case returned caller => cases caller <;> rfl
  all_goals rfl

theorem SlotPc.acts_releases (pc : SlotPc) :
    (pc.acts.map Act.releases).sum = if pc.releases then 1 else 0 := by
  cases pc
  case sendPost caller pc =>
    cases caller <;> cases h : pc.armed <;> simp [acts, h, SendCaller.act, releases, Act.releases]
  case recvPost caller pc =>
    cases caller <;> cases h : pc.armed <;> simp [acts, h, releases, Act.releases]
  case release id pc => cases id <;> cases pc <;> rfl
  case finishSending caller pc => cases caller <;> rfl
  case returned caller => cases caller <;> rfl
  all_goals rfl

namespace Server

variable {ioThreads callers poolSize : Nat} {s : Server ioThreads callers poolSize}

/-- How often the session `k` is in a place: its occurrences in `mUnusedSession`,
the frames that initialise or release it, its released flag. -/
def copies (s : Server ioThreads callers poolSize) (k : Fin poolSize) : Place → Nat
  | .unused => s.unusedSession.count k
  | .popped => (s.view k).pcs.countP fun pc => pc.initialises
  | .live => if (s.slots k).session.isReleased then 0 else 1
  | .releasing => (s.view k).pcs.countP fun pc => pc.releases

theorem copies_eq (k : Fin poolSize) (p : Place) : s.copies k p = (s.view k).life.copies p := by
  cases p with
  | unused | live => rfl
  | popped =>
      rw [copies, Life.copies, countP_eq_sum]
      exact ((s.view k).total_eq SlotPc.acts_pops).symm
  | releasing =>
      rw [copies, Life.copies, countP_eq_sum]
      exact ((s.view k).total_eq SlotPc.acts_releases).symm

/-- In every run each session of the pool is in one place, once, and its turning
points have come in order: it is released and pushed once for each time it was
initialised, and never popped while it is anywhere but in the stack. -/
theorem conservation (h : Reached (fun _ _ => True) s) (k : Fin poolSize) :
    ∃ place, Place.after (eventsOf k s.history) = some place ∧
      ∀ p, s.copies k p = if p = place then 1 else 0 := by
  have hReached := Reached.life k (fun _ _ => True) (fun _ => trivial) (fun _ _ _ => trivial) h
  obtain ⟨place, hPlace, hOne⟩ := Life.inOnePlace_of_reachable hReached
  refine ⟨place, hPlace, ?_⟩
  intro p
  rw [copies_eq, hOne]

/-- A pool of two sessions, one of them just popped. -/
def popRun : List (Thread 1 2 × Choice 2) := goes .accept 4

theorem conservation_popped :
    ∃ s : Server 1 2 2, s.copies 1 .popped = 1 ∧ s.unusedSession = [0] ∧
      ∃ place, Place.after (eventsOf 1 s.history) = some place ∧
        ∀ p, s.copies 1 p = if p = place then 1 else 0 := by
  have hRun : (exec step (start 1 2 2) popRun).map
      (fun s => decide (s.copies 1 .popped = 1 ∧ s.unusedSession = [0])) = some true := by
    decide +kernel
  obtain ⟨s, hExec, hPopped⟩ := Option.map_eq_some_iff.mp hRun
  obtain ⟨hHere, hUnused⟩ := of_decide_eq_true hPopped
  exact ⟨s, hHere, hUnused, conservation (reachable_of_exec hExec) 1⟩

end Server

end NfNetwork.Net
