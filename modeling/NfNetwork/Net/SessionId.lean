import NfNetwork.Net.SlotView

/-! The ids that `Init` gives to a session. The uid is a running counter that
skips 0 and the uid before it, so that it goes round the numbers from 1 on; the
uid before it is what `Release` saved. `Init` and `Release` exclude each other,
and so the ids that a slot issues are a fixed sequence. -/
namespace NfNetwork.Net

open Machinery

/-- What a thread is doing to the id: `Release` before it saves the uid, then
before and after it clears the id; `Init` before and in its loop, and after it. -/
inductive IdAct where
  | keeps
  | saved
  | cleared
  | begins
  | counts (oldSessionUid : Nat)
  | named
  deriving DecidableEq, Repr

/-- The fields behind the id, and the ids issued so far. -/
structure IdCore where
  released : Bool
  index : Nat
  id : Nat
  prevUid : Nat
  sessionUidAcc : Nat
  issued : List Nat

/-- One move: the acts it takes and the acts it leaves. -/
inductive IdRow : IdCore → List IdAct → Unit → IdCore → List IdAct → Prop where
  | quiet (c : IdCore) (acts : List IdAct) : IdRow c acts () c acts
  | win (c : IdCore) (hLive : c.released = false) :
      IdRow c [] () { c with released := true } [.keeps]
  | save (c : IdCore) :
      IdRow c [.keeps] () { c with prevUid := NetSession.sessionUidOf c.id } [.saved]
  | clear (c : IdCore) : IdRow c [.saved] () { c with id := 0 } [.cleared]
  | push (c : IdCore) : IdRow c [.cleared] () c []
  | pop (c : IdCore) : IdRow c [] () c [.begins]
  | abandon (c : IdCore) (hLive : c.released = false) : IdRow c [.begins] () c []
  | read (c : IdCore) : IdRow c [.begins] () c [.counts c.prevUid]
  | skip (c : IdCore) (oldSessionUid : Nat)
      (h : (c.sessionUidAcc + 1) % 2 ^ 48 = 0 ∨ (c.sessionUidAcc + 1) % 2 ^ 48 = oldSessionUid) :
      IdRow c [.counts oldSessionUid] () { c with sessionUidAcc := c.sessionUidAcc + 1 }
        [.counts oldSessionUid]
  | name (c : IdCore) (oldSessionUid : Nat) (hZero : (c.sessionUidAcc + 1) % 2 ^ 48 ≠ 0)
      (hOld : (c.sessionUidAcc + 1) % 2 ^ 48 ≠ oldSessionUid) :
      IdRow c [.counts oldSessionUid] ()
        { c with
          sessionUidAcc := c.sessionUidAcc + 1
          id := NetSession.genSessionId c.index ((c.sessionUidAcc + 1) % 2 ^ 48) } [.named]
  | publish (c : IdCore) :
      IdRow c [.named] () { c with released := false, issued := c.issued ++ [c.id] } []

abbrev Naming := Population IdCore IdAct

abbrev NamingStep : Naming → Unit → Naming → Prop := Applies IdRow

/-- The uid of the session's `n`th client, from 0 on. -/
def uidAt (n : Nat) : Nat := n % (2 ^ 48 - 1) + 1

/-- The id of the session's `n`th client. -/
def idAt (index n : Nat) : Nat := NetSession.genSessionId index (uidAt n)

/-- The uid of the last of `n` clients, 0 if there was none. -/
def lastUid : Nat → Nat
  | 0 => 0
  | n + 1 => uidAt n

section Uids

/-- No issued uid is 0. -/
theorem uidAt_pos (n : Nat) : 0 < uidAt n := Nat.succ_pos _

/-- Every issued uid has 48 bits. -/
theorem uidAt_lt (n : Nat) : uidAt n < 2 ^ 48 := by
  have hLt : n % (2 ^ 48 - 1) < 2 ^ 48 - 1 := Nat.mod_lt _ (by decide)
  rw [uidAt]
  omega

/-- The counter goes on to the next number, or round to 1. -/
theorem uidAt_eq (n : Nat) :
    uidAt n = lastUid n + 1 ∨ uidAt n = 1 ∧ lastUid n = 2 ^ 48 - 1 := by
  cases n with
  | zero => exact .inl rfl
  | succ n =>
      rw [lastUid, uidAt, uidAt]
      omega

/-- So has the last one. -/
theorem lastUid_lt (n : Nat) : lastUid n < 2 ^ 48 := by
  cases n with
  | zero => decide
  | succ n => exact uidAt_lt n

/-- The only number that the counter skips is 0. -/
theorem skipped_zero {sessionUidAcc oldSessionUid n : Nat}
    (hSkip : (sessionUidAcc + 1) % 2 ^ 48 = 0 ∨ (sessionUidAcc + 1) % 2 ^ 48 = oldSessionUid)
    (hOld : oldSessionUid = lastUid n) (hAcc : sessionUidAcc % 2 ^ 48 = lastUid n ∨
      sessionUidAcc % 2 ^ 48 = 0 ∧ lastUid n = 2 ^ 48 - 1) :
    (sessionUidAcc + 1) % 2 ^ 48 = 0 ∧ lastUid n = 2 ^ 48 - 1 := by
  have hLt := lastUid_lt n
  rcases hAcc with hAcc | ⟨hAcc, hLast⟩
  · omega
  · omega

/-- The accumulator after the next increment shows the next uid, the skipped 0 included. -/
theorem counted_uid {sessionUidAcc n : Nat} (hZero : (sessionUidAcc + 1) % 2 ^ 48 ≠ 0)
    (hAcc : sessionUidAcc % 2 ^ 48 = lastUid n ∨
      sessionUidAcc % 2 ^ 48 = 0 ∧ lastUid n = 2 ^ 48 - 1) :
    (sessionUidAcc + 1) % 2 ^ 48 = uidAt n := by
  have hLt := uidAt_lt n
  have hNext := uidAt_eq n
  rcases hAcc with hAcc | ⟨hAcc, hLast⟩
  · omega
  · omega

/-- An id gives its uid back. -/
theorem sessionUidOf_idAt (index n : Nat) : NetSession.sessionUidOf (idAt index n) = uidAt n := by
  have hLt := uidAt_lt n
  rw [NetSession.sessionUidOf, idAt, NetSession.genSessionId]
  omega

/-- And 16 bits of its index. -/
theorem sessionIndexOf_idAt (index n : Nat) :
    NetSession.sessionIndexOf (idAt index n) = index % 2 ^ 16 := by
  rw [NetSession.sessionIndexOf, idAt, NetSession.genSessionId]
  omega

/-- No id is 0, which is what a cleared session shows. -/
theorem idAt_ne_zero (index n : Nat) : idAt index n ≠ 0 := by
  intro hZero
  have hUid := sessionUidOf_idAt index n
  have hPos := uidAt_pos n
  rw [hZero, NetSession.sessionUidOf] at hUid
  omega

/-- Two clients of a session that got the same id are a whole round apart. -/
theorem le_of_idAt_eq {index i j : Nat} (h : idAt index i = idAt index j) (hLt : i < j) :
    2 ^ 48 - 1 ≤ j - i := by
  have hUid := congrArg NetSession.sessionUidOf h
  rw [sessionUidOf_idAt, sessionUidOf_idAt, uidAt, uidAt] at hUid
  omega

end Uids

namespace IdAct

/-- What a thread that works on the id relies on, after `n` clients. -/
def promise (c : IdCore) : IdAct → Prop
  | keeps => 0 < c.issued.length ∧ c.id = idAt c.index (c.issued.length - 1) ∧
      c.sessionUidAcc % 2 ^ 48 = lastUid c.issued.length
  | saved => 0 < c.issued.length ∧ c.id = idAt c.index (c.issued.length - 1) ∧
      c.prevUid = lastUid c.issued.length ∧ c.sessionUidAcc % 2 ^ 48 = lastUid c.issued.length
  | cleared | begins => c.id = 0 ∧ c.prevUid = lastUid c.issued.length ∧
      c.sessionUidAcc % 2 ^ 48 = lastUid c.issued.length
  | counts oldSessionUid => c.id = 0 ∧ oldSessionUid = lastUid c.issued.length ∧
      (c.sessionUidAcc % 2 ^ 48 = lastUid c.issued.length ∨
        c.sessionUidAcc % 2 ^ 48 = 0 ∧ lastUid c.issued.length = 2 ^ 48 - 1)
  | named => c.id = idAt c.index c.issued.length ∧
      c.sessionUidAcc % 2 ^ 48 = uidAt c.issued.length

end IdAct

namespace Naming

/-- The session is released or initialised by one thread, and only while it is
not live. -/
structure Excludes (v : Naming) : Prop where
  live : v.core.released = false → v.acts = 0
  alone : v.acts.card ≤ 1

/-- The ids issued are the fixed sequence; a live session has the last of them,
and a session at rest remembers its uid. -/
structure Named (v : Naming) : Prop where
  issued : v.core.issued = (List.range v.core.issued.length).map (idAt v.core.index)
  live : v.core.released = false → IdAct.keeps.promise v.core
  rest : v.core.released = true → v.acts = 0 → IdAct.begins.promise v.core
  promised : ∀ a ∈ v.acts, a.promise v.core

variable {v v' : Naming}

/-- Who names the session is alone with it. -/
theorem Excludes.eq_singleton (h : v.Excludes) {a : IdAct} {others : Multiset IdAct}
    (hActs : v.acts = ([a] : List IdAct) + others) : others = 0 := by
  have hAlone := h.alone
  rw [hActs] at hAlone
  simpa using hAlone

/-- And the session is released meanwhile. -/
theorem Excludes.released_of_mem (h : v.Excludes) {a : IdAct} (hMem : a ∈ v.acts) :
    v.core.released = true := by
  by_contra hLive
  rw [h.live (by simpa using hLive)] at hMem
  cases hMem

/-- What `Init` and `Release` leave when nobody else works on the id. -/
theorem Named.of_singleton {c : IdCore} {a : IdAct}
    (hIssued : c.issued = (List.range c.issued.length).map (idAt c.index))
    (hReleased : c.released = true) (hPromise : a.promise c) :
    Named ⟨c, ([a] : List IdAct) + 0⟩ := by
  constructor
  · exact hIssued
  · intro hLive
    rw [hReleased] at hLive
    cases hLive
  · intro _ hNone
    simp at hNone
  · intro b hMem
    have hEq : b = a := by simpa using hMem
    rw [hEq]
    exact hPromise

/-- No step changes the index of a slot. -/
theorem index_eq (hStep : NamingStep v () v') : v'.core.index = v.core.index := by
  cases hStep with
  | row hActs hRow => cases hRow <;> rfl

/-- Each step keeps the id that the slot shows, the uid it counts from, and the list of the ids
issued so far in agreement. -/
theorem Named.step (h : v.Named) (hExcludes : v.Excludes) (hExcludes' : v'.Excludes)
    (hStep : NamingStep v () v') : v'.Named := by
  cases hStep with
  | row hActs hRow =>
      rename_i others
      have hIssued := h.issued
      have hMem : ∀ {a : IdAct} {pre : List IdAct}, v.acts = pre + others → a ∈ pre →
          a.promise v.core ∧ v.core.released = true := by
        intro a pre hActs hIn
        have hMem : a ∈ v.acts := by simp [hActs, hIn]
        exact ⟨h.promised a hMem, hExcludes.released_of_mem hMem⟩
      cases hRow
      case quiet =>
        rw [← hActs]
        exact h
      case win hLive =>
        have hNone : others = 0 := by simpa [hActs] using hExcludes.live hLive
        rw [hNone]
        exact .of_singleton (a := .keeps) hIssued rfl (h.live hLive)
      case pop =>
        obtain rfl := hExcludes'.eq_singleton rfl
        have hReleased := hExcludes'.released_of_mem (a := .begins) (by simp)
        exact .of_singleton (a := .begins) hIssued hReleased (h.rest hReleased hActs)
      all_goals obtain rfl := hExcludes.eq_singleton hActs
      case save =>
        obtain ⟨⟨hPos, hId, hAcc⟩, hReleased⟩ := hMem (a := .keeps) hActs (List.mem_singleton_self _)
        refine .of_singleton (a := .saved) hIssued hReleased ⟨hPos, hId, ?_, hAcc⟩
        obtain ⟨n, hn⟩ := Nat.exists_eq_add_of_lt hPos
        simp [hId, hn, sessionUidOf_idAt, lastUid]
      case clear =>
        obtain ⟨hPromise, hReleased⟩ := hMem (a := .saved) hActs (List.mem_singleton_self _)
        exact .of_singleton (a := .cleared) hIssued hReleased ⟨rfl, hPromise.2.2⟩
      case push =>
        obtain ⟨hPromise, hReleased⟩ := hMem (a := .cleared) hActs (List.mem_singleton_self _)
        refine ⟨hIssued, ?_, fun _ _ => hPromise, nofun⟩
        intro hLive
        cases hReleased.symm.trans hLive
      case abandon hLive =>
        obtain ⟨_, hReleased⟩ := hMem (a := .begins) hActs (List.mem_singleton_self _)
        cases hReleased.symm.trans hLive
      case read =>
        obtain ⟨⟨hId, hPrev, hAcc⟩, hReleased⟩ := hMem (a := .begins) hActs (List.mem_singleton_self _)
        exact .of_singleton (a := .counts v.core.prevUid) hIssued hReleased ⟨hId, hPrev, .inl hAcc⟩
      case skip oldSessionUid hSkip =>
        obtain ⟨⟨hId, hOld, hAcc⟩, hReleased⟩ := hMem (a := .counts oldSessionUid) hActs (List.mem_singleton_self _)
        exact .of_singleton (a := .counts oldSessionUid) hIssued hReleased
          ⟨hId, hOld, .inr (skipped_zero hSkip hOld hAcc)⟩
      case name oldSessionUid hZero hOldNe =>
        obtain ⟨⟨hId, hOld, hAcc⟩, hReleased⟩ := hMem (a := .counts oldSessionUid) hActs (List.mem_singleton_self _)
        have hUid := counted_uid hZero hAcc
        refine .of_singleton (a := .named) hIssued hReleased ⟨?_, hUid⟩
        simp only [hUid, idAt]
      case publish =>
        obtain ⟨⟨hId, hAcc⟩, _⟩ := hMem (a := .named) hActs (List.mem_singleton_self _)
        constructor
        · simp only [List.length_append, List.length_singleton, List.range_succ, List.map_append,
            List.map_singleton, ← hIssued, hId]
        · intro _
          simpa [IdAct.promise, lastUid] using ⟨hId, hAcc⟩
        · nofun
        · nofun

/-- The id is invalid, or the last that was issued, or about to be issued. -/
theorem Named.current (h : v.Named) :
    v.core.id = 0 ∨
      0 < v.core.issued.length ∧ v.core.id = idAt v.core.index (v.core.issued.length - 1) ∨
        v.core.id = idAt v.core.index v.core.issued.length := by
  cases hReleased : v.core.released with
  | false =>
      obtain ⟨hPos, hId, _⟩ := h.live hReleased
      exact .inr (.inl ⟨hPos, hId⟩)
  | true =>
      by_cases hNone : v.acts = 0
      · exact .inl (h.rest hReleased hNone).1
      · obtain ⟨a, hMem⟩ := Multiset.exists_mem_of_ne_zero hNone
        have hPromise := h.promised a hMem
        cases a with
        | keeps | saved => exact .inr (.inl ⟨hPromise.1, hPromise.2.1⟩)
        | cleared | begins | counts => exact .inl hPromise.1
        | named => exact .inr (.inr hPromise.1)

end Naming

section Refinement

def ReleasePc.idActs : ReleasePc → List IdAct
  | .close | .closeSocket | .prevUid => [.keeps]
  | .clearId => [.saved]
  | .drainCheck | .drainDequeue | .push => [.cleared]
  | .countDisconnected => []

def InitPc.idAct : InitPc → IdAct
  | .checkReleased | .readPrevUid => .begins
  | .nextUid oldSessionUid => .counts oldSessionUid
  | _ => .named

/-- What a place in the code stands for. -/
def SlotPc.idActs : SlotPc → List IdAct
  | .release _ pc => pc.idActs
  | .finishSending (.release _) _ => [.cleared]
  | .init pc => [pc.idAct]
  | _ => []

/-- The ids that `Init` issued. -/
def publishedIds (log : List Event) : List Nat :=
  log.filterMap fun e => match e with
    | .published id => some id
    | _ => none

def Slot.idCore (slot : Slot) (log : List Event) : IdCore where
  released := slot.session.isReleased
  index := slot.session.sessionIndex
  id := slot.session.netSessionId
  prevUid := slot.session.prevUid
  sessionUidAcc := slot.session.sessionUidAcc
  issued := publishedIds log

/-- The effect of a step on the id. -/
def Effect.idCore (e : Effect) (log : List Event) : IdCore :=
  e.slot.idCore (log ++ e.event.toList)

def Effect.idActs (e : Effect) : List IdAct := e.next.flatMap SlotPc.idActs

/-- A row applied among further acts of the same frames. -/
abbrev Names (c : IdCore) (acts : List IdAct) (c' : IdCore) (acts' : List IdAct) : Prop :=
  Within IdRow c acts () c' acts'

variable {slot : Slot} {env : Env} {e : Effect}

attribute [local simp] ReleasePc.idActs InitPc.idAct SlotPc.idActs Effect.idActs Effect.idCore
  Slot.idCore publishedIds

/-- A step that leaves the id and its parts alone. -/
theorem Names.quiet {c c' : IdCore} {acts acts' : List IdAct} (hCore : c' = c)
    (hActs : acts' = acts) : Names c acts c' acts' := by
  rw [hCore, hActs]
  exact .of_rule (.quiet c acts)

/-- `Init` stores the index, counts the uid and stores the id, in this order. -/
theorem InitPc.step_names (log : List Event) {pc : InitPc} (h : pc.step slot = some e) :
    Names (slot.idCore log) [pc.idAct] (e.idCore log) e.idActs := by
  cases pc
  case checkReleased =>
    simp only [InitPc.step, goto] at h
    split at h <;> cases h
    · exact .quiet (by simp) (by simp)
    · rename_i hLive
      simpa using Within.of_rule (IdRow.abandon (slot.idCore log) (by simpa using hLive))
  case readPrevUid =>
    cases h
    simpa using Within.of_rule (IdRow.read (slot.idCore log))
  case nextUid oldSessionUid =>
    simp only [InitPc.step, update] at h
    split at h <;> cases h
    · rename_i hFresh
      simpa using Within.of_rule (IdRow.name (slot.idCore log) oldSessionUid hFresh.1 hFresh.2)
    · rename_i hTaken
      have hTaken : (slot.session.sessionUidAcc + 1) % 2 ^ 48 = 0 ∨
          (slot.session.sessionUidAcc + 1) % 2 ^ 48 = oldSessionUid := by
        by_contra hNot
        push Not at hNot
        exact hTaken hNot
      simpa using Within.of_rule (IdRow.skip (slot.idCore log) oldSessionUid hTaken)
  case publish =>
    cases h
    simpa using Within.of_rule (IdRow.publish (slot.idCore log))
  all_goals
    cases h
    exact .quiet (by simp) (by simp)

/-- `Release` clears the id. -/
theorem ReleasePc.step_names (log : List Event) {id : Option Nat} {pc : ReleasePc}
    (h : pc.step slot id = some e) :
    Names (slot.idCore log) pc.idActs (e.idCore log) e.idActs := by
  cases pc
  case prevUid =>
    cases h
    simpa using Within.of_rule (IdRow.save (slot.idCore log))
  case clearId =>
    cases h
    simpa using Within.of_rule (IdRow.clear (slot.idCore log))
  case push =>
    cases h
    simpa using Within.of_rule (IdRow.push (slot.idCore log))
  case countDisconnected =>
    cases h
    cases id <;> exact .quiet (by simp) (by simp)
  all_goals simp only [ReleasePc.step, goto, update] at h
  all_goals repeat' split at h
  all_goals cases h
  all_goals exact .quiet (by simp) (by simp)

/-- `FinishSending` does not touch it. -/
theorem FinishPc.step_names (log : List Event) {caller : FinishCaller} {pc : FinishPc}
    (h : pc.step slot caller = some e) :
    Names (slot.idCore log) (SlotPc.finishSending caller pc).idActs (e.idCore log) e.idActs := by
  cases pc
  case clearFlag =>
    cases h
    cases caller <;> refine .quiet ?_ (by simp)
    all_goals simp [NetSession.exchangeSending]
    all_goals split <;> simp
  all_goals simp only [FinishPc.step, goto, update] at h
  all_goals repeat' split at h
  all_goals cases h
  all_goals cases caller <;> exact .quiet (by simp) (by simp)

/-- Nor does `SendPost`. -/
theorem SendPostPc.step_names (log : List Event) {caller : SendCaller} {pc : SendPostPc}
    (h : pc.step slot env caller = some e) : Names (slot.idCore log) [] (e.idCore log) e.idActs := by
  cases pc
  case clearFlag | markPosted =>
    cases h
    refine .quiet ?_ (by simp)
    simp [NetSession.exchangeSending]
    split <;> simp
  all_goals simp only [SendPostPc.step, goto, update] at h
  all_goals repeat' split at h
  all_goals cases h
  all_goals exact .quiet (by simp) (by simp)

/-- Every step of the code at a session is a move of its id. -/
theorem SlotPc.step_names (log : List Event) {pc : SlotPc} (h : pc.step slot env = some e) :
    Names (slot.idCore log) pc.idActs (e.idCore log) e.idActs := by
  cases pc
  case init pc => exact InitPc.step_names log h
  case release id pc => exact ReleasePc.step_names log h
  case finishSending caller pc => exact FinishPc.step_names log h
  case sendPost caller pc => exact SendPostPc.step_names log h
  case recvPost caller pc =>
    cases pc <;> simp only [SlotPc.step, RecvPostPc.step, goto, update] at h
    all_goals repeat' split at h
    all_goals cases h
    all_goals cases caller <;> exact .quiet (by simp) (by simp [RecvCaller.returned])
  case tryRelease id =>
    simp only [SlotPc.step, goto] at h
    split at h <;> cases h
    · rename_i hWin
      simpa using Within.of_rule (IdRow.win (slot.idCore log) hWin.1)
    · exact .quiet (by simp) (by simp)
  case acquireCheckReleased id purpose =>
    cases purpose <;> simp only [SlotPc.step, goto] at h
    all_goals
      cases h
      refine .quiet (by simp) ?_
      simp only [Effect.idActs, Purpose.acquired]
      split <;> simp
  case completed kind outcome =>
    cases outcome <;> simp only [SlotPc.step, goto] at h
    all_goals
      cases h
      refine .quiet (by simp) ?_
      simp only [Effect.idActs]
      repeat' split
      all_goals simp
  case checkClosed kind =>
    cases kind <;> simp only [SlotPc.step, goto] at h
    all_goals
      cases h
      refine .quiet (by simp) ?_
      simp only [Effect.idActs]
      split <;> simp
  case decrement =>
    cases h
    refine .quiet (by simp) ?_
    simp only [Effect.idActs]
    repeat' split
    all_goals simp
  case recvLoop | bind => cases env <;> cases h <;> exact .quiet (by simp) (by simp)
  all_goals simp only [SlotPc.step, goto, update] at h
  all_goals cases h
  all_goals refine .quiet (by simp) ?_
  all_goals simp only [Effect.idActs]
  all_goals repeat' split
  all_goals simp

end Refinement

/-- What the id of a session is doing. -/
def SlotView.naming (v : SlotView) : Naming where
  core := v.slot.idCore v.log
  acts := v.pcs.bind fun pc => pc.idActs

/-- What one more thread is about to do to the id comes on top of the others. -/
theorem SlotView.naming_cons (slot : Slot) (unused : Nat) (log : List Event) (pc : SlotPc)
    (pcs : Multiset SlotPc) :
    (SlotView.mk slot unused log (pc ::ₘ pcs)).naming =
      ⟨slot.idCore log, pc.idActs + (SlotView.mk slot unused log pcs).naming.acts⟩ := by
  rw [SlotView.naming, Multiset.cons_bind]
  rfl

/-- Every step of one session's view is a step of its id. -/
theorem SlotStep.naming {v v' : SlotView} {a : SlotAction} (h : SlotStep v a v') :
    NamingStep v.naming () v'.naming := by
  have hNone : v.naming.acts = ([] : List IdAct) + v.naming.acts := (zero_add _).symm
  have hQuiet := IdRow.quiet v.naming.core []
  cases h with
  | stay =>
      have hStep := Applies.row hNone hQuiet
      rwa [← hNone] at hStep
  | find =>
      rw [SlotView.naming_cons]
      exact .row hNone hQuiet
  | pop hUnused hAlone =>
      rw [SlotView.naming_cons]
      have hCore : v.slot.idCore (v.log ++ [.popped]) = v.naming.core := by
        simp [SlotView.naming, Slot.idCore, publishedIds]
      rw [hCore]
      exact .row hNone (.pop v.naming.core)
  | complete hTake =>
      rename_i kind outcome slot
      have hCore : slot.idCore v.log = v.naming.core := by
        cases kind <;> simp only [Slot.takeCompletion] at hTake <;> split at hTake <;> cases hTake
        all_goals rfl
      rw [SlotView.naming_cons, hCore]
      exact .row hNone hQuiet
  | run hPcs hStep =>
      rename_i pc env e others
      have hNames := SlotPc.step_names v.log hStep
      have hActs : v.naming.acts =
          pc.idActs + others.bind fun pc => (pc.idActs : Multiset IdAct) := by
        rw [SlotView.naming, hPcs, Multiset.cons_bind]
      have hApplies := Within.applies (p := v.naming) hNames hActs
      rwa [Effect.idActs, ← Multiset.coe_bind, ← Multiset.add_bind] at hApplies

section Runs

variable {index : Nat} {v : SlotView} {Allowed : SlotView → SlotPc → Env → Prop}

/-- Only a thread that has the session to itself writes its id. -/
theorem SlotPc.idActs_le (pc : SlotPc) : pc.idActs.length ≤ (pc.acts.map Act.displaces).sum := by
  cases pc
  case release id pc => cases pc <;> simp [idActs, ReleasePc.idActs, acts, ReleasePc.acts, Act.displaces]
  case finishSending caller pc => cases caller <;> simp [idActs, acts, Act.displaces]
  case init pc => cases pc <;> simp [idActs, acts, Act.displaces]
  all_goals simp [idActs]

/-- So two threads never do at once, and never to a live session. -/
theorem SlotView.naming_excludes (h : v.life.Sound) : v.naming.Excludes := by
  have hLe : v.naming.acts.card ≤ v.life.total Act.displaces := by
    rw [v.total_eq fun _ => rfl, SlotView.naming, Multiset.card_bind]
    exact Multiset.sum_map_le_sum_map _ _ fun pc _ => pc.idActs_le
  have hPlace := h.place
  constructor
  · intro hLive
    have hOne : v.life.core.live = 1 :=
      if_neg (by rw [show v.life.core.released = false from hLive]; simp)
    exact Multiset.card_eq_zero.mp (by omega)
  · omega

/-- In every run the ids of a session are the fixed sequence. -/
theorem SlotView.named_of_reachable
    (h : Reachable SlotStep (SlotAction.Meets Allowed) (SlotView.start index) v) :
    v.naming.Named ∧ v.naming.core.index = index := by
  apply h.invariant
  · refine ⟨⟨?_, nofun, fun _ _ => ⟨rfl, rfl, rfl⟩, nofun⟩, rfl⟩
    rfl
  · intro v v' a hReached ⟨hNamed, hIndex⟩ hMeets hStep
    have hExcludes := SlotView.naming_excludes (SlotView.sound_of_reachable hReached)
    have hExcludes' := SlotView.naming_excludes (SlotView.sound_of_reachable
      (.tail hReached hMeets hStep))
    exact ⟨hNamed.step hExcludes hExcludes' hStep.naming, (Naming.index_eq hStep.naming).trans hIndex⟩

end Runs

end NfNetwork.Net
