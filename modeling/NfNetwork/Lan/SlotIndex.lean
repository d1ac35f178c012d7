import NfNetwork.Lan.ServerSteps

/-! The indexes of the LAN session pool: each is on the stack of unused indexes, in the hands of
one thread, or in use by a session that is not released. -/
namespace NfNetwork.Lan

open Machinery

variable {ioThreads callers poolSize : Nat} {slot : Slot} {env : Env} {e : Effect} {pc : SlotPc}

/-- A packed id gives back an index of 16 bits. -/
theorem sessionIndex_genSessionId {index : Nat} (uid : Nat) (h : index < 2 ^ 16) :
    LanSession.sessionIndex (LanSession.genSessionId index uid) = index := by
  simp only [LanSession.sessionIndex, LanSession.genSessionId]
  omega

namespace SlotPc

/-- The thread holds the slot's index. -/
def owns : SlotPc → Nat
  | .init .resetReleased | .push _ => 1
  | _ => 0

/-- The indexes that a place remembers belong to slot `k`, or were read off a cleared id. -/
def names (k : Nat) : SlotPc → Prop
  | .init (.setId id) => LanSession.sessionIndex id = k
  | .tryRelease _ index => index = 0 ∨ index = k
  | .push index => index = k
  | _ => True

end SlotPc

/-- A session in use keeps its slot's index off the stack. -/
def Slot.uses (slot : Slot) : Nat := if slot.session.isReleased then 0 else 1

/-- The session's id, unless cleared, is of slot `k`. -/
def Slot.idOf (slot : Slot) (k : Nat) : Prop :=
  LanSession.sessionIndex slot.session.lanSessionId = 0 ∨
    LanSession.sessionIndex slot.session.lanSessionId = k

/-- The places that write the id or the release flag, or read or give back an index. -/
def SlotPc.turns : SlotPc → Bool
  | .init (.setId _) | .init .resetReleased | .readIndex _ | .tryRelease _ _ | .clearId | .push _ =>
      true
  | _ => false

/-- What a step anywhere else leaves alone. -/
structure Effect.Quiet (slot : Slot) (e : Effect) : Prop where
  lanSessionId : e.slot.session.lanSessionId = slot.session.lanSessionId
  isReleased : e.slot.session.isReleased = slot.session.isReleased
  pushed : e.pushed = none
  event : ∀ index, e.event ≠ some (.pushed index)
  owns : (e.next.map SlotPc.owns).sum = 0
  names : ∀ k, ∀ pc ∈ e.next, pc.names k

/-- `SendPost` does not touch the id. -/
theorem SendPostPc.step_quiet {pc : SendPostPc} (h : pc.step slot env = some e) : e.Quiet slot := by
  cases pc
  case wsaSend =>
    cases env <;> cases h <;> constructor <;> simp [Slot.post, SlotPc.owns, SlotPc.names]
  all_goals simp only [SendPostPc.step, goto, update] at h
  all_goals repeat' split at h
  all_goals cases h
  all_goals constructor
  all_goals simp [SlotPc.owns, SlotPc.names]

/-- Nor does `RecvPost`. -/
theorem RecvPostPc.step_quiet {pc : RecvPostPc} (h : pc.step slot env = some e) : e.Quiet slot := by
  cases pc with
  | increment =>
      cases h
      constructor <;> simp [SlotPc.owns, SlotPc.names]
  | readSocket =>
      cases h
      cases slot.session.hasSocket <;> constructor <;> simp [SlotPc.owns, SlotPc.names]
  | wsaRecv =>
      cases env <;> cases h <;> constructor <;> simp [Slot.post, SlotPc.owns, SlotPc.names]

/-- Nor does any place that neither opens nor releases the session. -/
theorem SlotPc.step_quiet (h : pc.step slot env = some e) (hTurns : pc.turns = false) :
    e.Quiet slot := by
  cases pc
  case sendPost pc => exact pc.step_quiet h
  case recvPost pc => exact pc.step_quiet h
  case init pc =>
    cases pc
    case setId | resetReleased => cases hTurns
    all_goals cases h
    all_goals constructor
    all_goals simp
  case finishSending pc =>
    cases pc <;> simp only [step, FinishPc.step, goto, update] at h
    all_goals repeat' split at h
    all_goals cases h
    all_goals constructor
    all_goals simp [owns, names]
  case completed kind outcome =>
    cases outcome <;> simp only [step, goto] at h
    all_goals repeat' split at h
    all_goals cases h
    all_goals constructor
    all_goals simp [owns, names]
  case readIndex | tryRelease | clearId | push => cases hTurns
  all_goals simp only [step, goto, update] at h
  all_goals repeat' split at h
  all_goals cases h
  all_goals constructor
  all_goals simp [owns, names]

/-- Such a place has no index to give back. -/
theorem SlotPc.owns_of_turns (h : pc.turns = false) : pc.owns = 0 := by
  cases pc
  case init pc => cases pc <;> first | rfl | cases h
  case push => cases h
  all_goals rfl

/-- The index moves from the thread to the session, back, and to the stack. -/
theorem SlotPc.step_owns (h : pc.step slot env = some e)
    (hReleased : pc = .init .resetReleased → slot.session.isReleased = true) :
    (e.next.map SlotPc.owns).sum + e.slot.uses + e.pushed.toList.length = pc.owns + slot.uses := by
  cases hTurns : pc.turns with
  | false =>
      have hQuiet := step_quiet h hTurns
      simp [Slot.uses, hQuiet.isReleased, hQuiet.pushed, hQuiet.owns, owns_of_turns hTurns]
  | true =>
      cases pc
      case init pc =>
        cases pc
        case setId =>
          cases h
          rfl
        case resetReleased =>
          cases h
          simp [owns, Slot.uses, hReleased]
        all_goals cases hTurns
      case tryRelease =>
        simp only [step] at h
        split at h
        · rename_i hReleasable
          cases h
          simp only [LanSession.releasable, Bool.and_eq_true, Bool.not_eq_true'] at hReleasable
          simp [owns, Slot.uses, releaseSteps, hReleasable.1]
        · cases h
          rfl
      case readIndex | clearId =>
        cases h
        rfl
      case push =>
        cases h
        simp [owns, Slot.uses]
        omega
      all_goals cases hTurns

/-- The id of a slot is cleared or names its slot, and so does the id in a releasing thread's hand,
unless a released session is taken for a live one. -/
theorem SlotPc.step_names {k : Nat} (h : pc.step slot env = some e) (hId : slot.idOf k)
    (hNames : pc.names k)
    (hCleared : ∀ id, pc = .tryRelease id 0 → k ≠ 0 → slot.session.releasable = false) :
    e.slot.idOf k ∧ ∀ pc' ∈ e.next, pc'.names k := by
  cases hTurns : pc.turns with
  | false =>
      have hQuiet := step_quiet h hTurns
      rw [Slot.idOf, hQuiet.lanSessionId]
      exact ⟨hId, hQuiet.names k⟩
  | true =>
      cases pc
      case init pc =>
        cases pc
        case setId id =>
          cases h
          exact ⟨.inr hNames, nofun⟩
        case resetReleased =>
          cases h
          exact ⟨hId, nofun⟩
        all_goals cases hTurns
      case readIndex =>
        cases h
        simpa [names] using ⟨hId, hId⟩
      case tryRelease id index =>
        simp only [step] at h
        split at h
        · rename_i hReleasable
          cases h
          have hIndex : index = k := by
            rcases hNames with rfl | hOwn
            · by_contra hZero
              rw [hCleared id rfl (Ne.symm hZero)] at hReleasable
              cases hReleasable
            · exact hOwn
          exact ⟨hId, by simpa [releaseSteps, names] using hIndex⟩
        · cases h
          exact ⟨hId, nofun⟩
      case clearId =>
        cases h
        simp [Slot.idOf, LanSession.sessionIndex, names]
      case push =>
        cases h
        exact ⟨hId, nofun⟩
      all_goals cases hTurns

/-- What a step gives back is the slot's own index. -/
theorem SlotPc.step_pushed {k : Nat} (h : pc.step slot env = some e) (hNames : pc.names k)
    {index : Nat} (hPushed : e.pushed = some index ∨ e.event = some (.pushed index)) : index = k := by
  cases hTurns : pc.turns with
  | false =>
      have hQuiet := step_quiet h hTurns
      rcases hPushed with hPushed | hEvent
      · rw [hQuiet.pushed] at hPushed
        cases hPushed
      · exact absurd hEvent (hQuiet.event index)
  | true =>
      cases pc
      case init pc => cases pc <;> cases h <;> simp at hPushed
      case tryRelease =>
        simp only [step] at h
        split at h <;> cases h <;> simp at hPushed
      case readIndex | clearId =>
        cases h
        simp at hPushed
      case push own =>
        cases h
        have hOwn : own = index := by simpa using hPushed
        exact hOwn ▸ hNames
      all_goals cases hTurns

namespace Server

variable {s s' : Server ioThreads callers poolSize} {t : Thread ioThreads callers}

/-- The index `k` is in the hands of a thread at this frame. -/
def ownsIndex (k : Fin poolSize) : Frame poolSize → Nat
  | .nextUid index | .checkUid index _ => if index = k then 1 else 0
  | f => f.weighs k SlotPc.owns

def inHand (s : Server ioThreads callers poolSize) (k : Fin poolSize) : Nat :=
  weight (ownsIndex k) s.threads

/-- What a frame remembers about indexes is about its own slot. -/
def namesIndex : Frame poolSize → Prop
  | .on k pc => pc.names k
  | _ => True

/-- Every index is in exactly one place, and every id and every remembered index is of the slot
it is found at. -/
structure Indexed (s : Server ioThreads callers poolSize) : Prop where
  once : ∀ k, s.unusedSessionIndexes.count k.val + s.inHand k + (s.slots k).uses = 1
  inPool : ∀ index ∈ s.unusedSessionIndexes, index < poolSize
  ids : ∀ k, (s.slots k).idOf k
  names : ∀ t, ∀ f ∈ s.threads t, namesIndex f
  pushed : ∀ (k : Fin poolSize) (index : Nat), (k, .pushed index) ∈ s.history → index = k

/-- A frame outside the session's code owns no index. -/
theorem ownsIndex_of_plain {k : Fin poolSize} {f : Frame poolSize} (h : f.plain = true) :
    ownsIndex k f = 0 := by
  cases f with
  | on | nextUid | checkUid => cases h
  | _ => rfl

/-- Nor does it name one. -/
theorem namesIndex_of_plain {f : Frame poolSize} (h : f.plain = true) : namesIndex f := by
  cases f with
  | on => cases h
  | _ => trivial

/-- What the frames at a slot own is the index of that slot. -/
theorem sum_ownsIndex_on (k k' : Fin poolSize) (pcs : List SlotPc) :
    ((pcs.map (Frame.on k')).map (ownsIndex k)).sum = if k' = k then (pcs.map SlotPc.owns).sum else 0 := by
  rw [← Frame.sum_weighs_on, List.map_map, List.map_map]
  rfl

/-- The same for the frames that an effect leaves. -/
theorem sum_ownsIndex_effectFrames (k k' : Fin poolSize) (e : Effect) :
    ((effectFrames k' e).map (ownsIndex k)).sum = if k' = k then (e.next.map SlotPc.owns).sum else 0 := by
  have hHandler : ((if e.callsHandler then [Frame.handler] else []).map (ownsIndex k)).sum = 0 := by
    split <;> rfl
  rw [effectFrames, List.map_append, List.sum_append, hHandler, Nat.zero_add, sum_ownsIndex_on]

/-- An index moves: what one place loses another gains. -/
theorem Indexed.moved (h : s.Indexed) (top next : List (Frame poolSize))
    {rest : List (Frame poolSize)} (hTop : s.threads t = top ++ rest)
    (hThreads : s'.threads = Function.update s.threads t (next ++ rest))
    (hMoves : ∀ k, s'.unusedSessionIndexes.count k.val + (next.map (ownsIndex k)).sum +
        (s'.slots k).uses =
      s.unusedSessionIndexes.count k.val + (top.map (ownsIndex k)).sum + (s.slots k).uses)
    (hInPool : ∀ index ∈ s'.unusedSessionIndexes, index < poolSize)
    (hIds : ∀ k, (s'.slots k).idOf k) (hNames : ∀ f ∈ next, namesIndex f)
    (hPushed : ∀ (k : Fin poolSize) (index : Nat), (k, .pushed index) ∈ s'.history → index = k) : s'.Indexed where
  once k := by
    have hHand := weight_update (ownsIndex k) hTop next
    rw [← hThreads] at hHand
    have hOnce := h.once k
    have hMove := hMoves k
    simp only [inHand] at *
    omega
  inPool := hInPool
  ids := hIds
  names := by
    rw [hThreads]
    exact forall_frames_update h.names hTop hNames
  pushed := hPushed

/-- A step that only replaces frames. -/
theorem Indexed.turned (h : s.Indexed) (top next : List (Frame poolSize))
    {rest : List (Frame poolSize)} (hTop : s.threads t = top ++ rest)
    (hThreads : s'.threads = Function.update s.threads t (next ++ rest)) (hSlots : s'.slots = s.slots)
    (hUnused : s'.unusedSessionIndexes = s.unusedSessionIndexes) (hHistory : s'.history = s.history)
    (hOwns : ∀ k, (next.map (ownsIndex k)).sum = (top.map (ownsIndex k)).sum)
    (hNames : ∀ f ∈ next, namesIndex f) : s'.Indexed := by
  refine h.moved top next hTop hThreads ?_ (hUnused ▸ h.inPool) (hSlots ▸ h.ids) hNames
    (hHistory ▸ h.pushed)
  intro k
  rw [hUnused, hSlots, hOwns]

/-- The accept thread takes the index off the stack and owns it until the session is open. -/
theorem Indexed.pop {rest : List (Frame poolSize)} (h : s.Indexed)
    (hTop : s.threads t = .tryPop :: rest) (hIndex : s.popIndex < poolSize)
    (hSome : s.unusedSessionIndexes ≠ []) :
    Indexed { s.setThread t (.nextUid ⟨_, hIndex⟩ :: rest) with
      unusedSessionIndexes := s.unusedSessionIndexes.tail
      history := s.history ++ [(⟨_, hIndex⟩, .popped)] } := by
  refine h.moved [.tryPop] [.nextUid ⟨_, hIndex⟩] hTop rfl ?_ ?_ h.ids (by simp [namesIndex]) ?_
  · obtain ⟨index, unused, hUnused⟩ := List.exists_cons_of_ne_nil hSome
    have hPop : s.popIndex = index := by rw [popIndex, hUnused, List.headD_cons]
    intro k
    simp [hUnused, hPop, ownsIndex, Frame.weighs, List.count_cons, Fin.ext_iff, setThread]
  · intro index hMem
    exact h.inPool index (List.mem_of_mem_tail hMem)
  · intro k index hMem
    exact h.pushed k index (by simpa using hMem)

/-- A step at a slot hands its index on to the session or back to the stack. -/
theorem Indexed.ran {k : Fin poolSize} {pc : SlotPc} {rest : List (Frame poolSize)} {env : Env}
    {e : Effect} (h : s.Indexed) (hTop : s.threads t = .on k pc :: rest)
    (hStep : pc.step (s.slots k) env = some e)
    (hCleared : ∀ id, pc = .tryRelease id 0 → k.val ≠ 0 → (s.slots k).session.releasable = false) :
    (s.apply t rest k e).Indexed := by
  have hNames : pc.names k := h.names t (.on k pc) (by simp [hTop])
  have hPushed : ∀ {index}, e.pushed = some index ∨ e.event = some (.pushed index) →
      index = k.val := SlotPc.step_pushed hStep hNames
  obtain ⟨hId, hNext⟩ := SlotPc.step_names hStep (h.ids k) hNames hCleared
  have hReleased : pc = .init .resetReleased → (s.slots k).session.isReleased = true := by
    rintro rfl
    have hHeld : ownsIndex k (.on k (.init .resetReleased)) ≤ s.inHand k :=
      le_weight (t := t) (by simp [hTop])
    simp only [ownsIndex, Frame.weighs, if_true, SlotPc.owns] at hHeld
    have hOnce := h.once k
    by_contra hLive
    rw [Slot.uses, if_neg hLive] at hOnce
    omega
  have hOwns := SlotPc.step_owns hStep hReleased
  refine h.moved [.on k pc] (effectFrames k e) hTop rfl ?_ ?_ ?_ ?_ ?_
  · intro k'
    rw [sum_ownsIndex_effectFrames]
    by_cases hk : k' = k
    · subst hk
      have hCount : e.pushed.toList.count k'.val = e.pushed.toList.length := by
        rw [List.count_eq_length]
        intro index hMem
        exact (hPushed (.inl (Option.mem_toList.mp hMem))).symm
      simp [apply, ownsIndex, Frame.weighs, List.count_append, hCount]
      omega
    · have hCount : e.pushed.toList.count k'.val = 0 := by
        rw [List.count_eq_zero]
        intro hMem
        exact hk (Fin.ext (hPushed (.inl (Option.mem_toList.mp hMem))))
      simp [apply, ownsIndex, Frame.weighs, List.count_append, hCount, hk, Ne.symm hk]
  · intro index hMem
    rcases List.mem_append.mp hMem with hNew | hOld
    · exact hPushed (.inl (Option.mem_toList.mp hNew)) ▸ k.isLt
    · exact h.inPool index hOld
  · intro k'
    by_cases hk : k' = k
    · subst hk
      simpa [apply] using hId
    · simpa [apply, hk] using h.ids k'
  · intro f hMem
    simp only [effectFrames, List.mem_append, List.mem_map] at hMem
    rcases hMem with hHandler | ⟨pc', hMem, rfl⟩
    · split at hHandler
      · obtain rfl := List.mem_singleton.mp hHandler
        trivial
      · cases hHandler
    · exact hNext pc' hMem
  · intro k' index hMem
    rcases List.mem_append.mp hMem with hOld | hNew
    · exact h.pushed k' index hOld
    · obtain ⟨event, hEvent, hEq⟩ := List.mem_map.mp hNew
      cases hEq
      exact hPushed (.inr (Option.mem_toList.mp hEvent))

/-- The pool is not exhausted: `TryPop` finds an index. -/
def PopsIndex (s : Server ioThreads callers poolSize)
    (a : Thread ioThreads callers × Choice poolSize) : Prop :=
  ∀ rest, s.threads a.1 = .tryPop :: rest → s.unusedSessionIndexes ≠ []

/-- Moreover an index fits the upper 16 bits of an id, and no `TryRelease` succeeds on a slot
other than 0 for a caller that read its index off an id that `Release` had cleared. -/
structure FreshIndex (s : Server ioThreads callers poolSize)
    (a : Thread ioThreads callers × Choice poolSize) : Prop where
  pops : PopsIndex s a
  fits : ∀ index uid rest, s.threads a.1 = .checkUid index uid :: rest → index.val < 2 ^ 16
  fresh : ∀ k id rest, s.threads a.1 = .on k (.tryRelease id 0) :: rest → k.val ≠ 0 →
    (s.slots k).session.releasable = false

/-- Each step keeps every index at one place: on the stack, with a thread, or in a live session. -/
theorem Indexed.step {choice : Choice poolSize} (h : s.Indexed) (hGuard : FreshIndex s (t, choice))
    (hStep : s.Advance t s') : s'.Indexed := by
  cases hStep with
  | plain top next hTop hPlain =>
      refine h.turned top next hTop rfl rfl rfl rfl ?_ ?_
      · intro k
        rw [sum_map_zero fun f hf => ownsIndex_of_plain (hPlain f (List.mem_append_left _ hf)),
          sum_map_zero fun f hf => ownsIndex_of_plain (hPlain f (List.mem_append_right _ hf))]
      · intro f hf
        exact namesIndex_of_plain (hPlain f (List.mem_append_right _ hf))
  | @called id purpose hIndex =>
      refine h.turned [] [.on _ (purpose.entry id)] rfl rfl rfl rfl rfl ?_ ?_
      · intro k
        cases purpose <;> simp [ownsIndex, Frame.weighs, Purpose.entry, SlotPc.owns]
      · cases purpose <;> simp [namesIndex, Purpose.entry, SlotPc.names]
  | @completed k op outcome hIdle hMem =>
      have hSession : ∀ k', (Function.update s.slots k
          { s.slots k with pending := (s.slots k).pending.erase op } k').session =
            (s.slots k').session := by
        intro k'
        by_cases hk : k' = k
        · subst hk
          rw [Function.update_self]
        · rw [Function.update_of_ne hk]
      refine h.moved [] [.on k (.completed op.1 outcome)] hIdle rfl ?_ h.inPool ?_
        (by simp [namesIndex, SlotPc.names]) h.pushed
      · intro k'
        simp [ownsIndex, Frame.weighs, SlotPc.owns, Slot.uses, hSession, setThread]
      · intro k'
        simpa only [Slot.idOf, hSession] using h.ids k'
  | popped hTop hIndex => exact h.pop hTop hIndex (hGuard.pops _ hTop)
  | counted hTop =>
      exact h.turned [.nextUid _] [.checkUid _ _] hTop rfl rfl rfl rfl (fun _ => rfl)
        (by simp [namesIndex])
  | refused hTop =>
      exact h.turned [.checkUid _ _] [.nextUid _] hTop rfl rfl rfl rfl (fun _ => rfl)
        (by simp [namesIndex])
  | @chosen index uid rest hTop hIndex =>
      have hSame := sessionIndex_genSessionId uid (hGuard.fits index uid rest hTop)
      refine h.turned [.checkUid index uid] _ hTop rfl rfl rfl rfl ?_ ?_
      · intro k
        rw [sum_ownsIndex_on]
        simp [ownsIndex, initSteps, SlotPc.owns, hSame]
      · intro f hMem
        obtain ⟨pc, hMem, rfl⟩ := List.mem_map.mp hMem
        revert pc
        simp [initSteps, namesIndex, SlotPc.names]
  | ran hTop hStep =>
      refine h.ran hTop hStep ?_
      rintro id rfl
      exact hGuard.fresh _ id _ hTop

/-- Every index that a release pushed is its slot's own, no index is on the stack twice, none is
lost, and none on the stack is of a live session. -/
structure ConservesIndexes (s : Server ioThreads callers poolSize) : Prop where
  pushed : ∀ (k : Fin poolSize) (index : Nat), (k, .pushed index) ∈ s.history → index = k
  nodup : s.unusedSessionIndexes.Nodup
  kept : ∀ k : Fin poolSize, k.val ∈ s.unusedSessionIndexes ∨
    (s.slots k).session.isReleased = false ∨ ∃ t, ∃ f ∈ s.threads t, ownsIndex k f ≠ 0
  unused : ∀ k : Fin poolSize, k.val ∈ s.unusedSessionIndexes →
    (s.slots k).session.isReleased = true

/-- What this says of the stack: no index twice, none of a live session. -/
theorem Indexed.conserves (h : s.Indexed) : s.ConservesIndexes where
  pushed := h.pushed
  nodup := by
    rw [List.nodup_iff_count_le_one]
    intro index
    by_cases hMem : index ∈ s.unusedSessionIndexes
    · have hOnce := h.once ⟨index, h.inPool index hMem⟩
      dsimp only at hOnce
      omega
    · rw [List.count_eq_zero.mpr hMem]
      exact Nat.zero_le _
  kept := by
    intro k
    by_cases hMem : k.val ∈ s.unusedSessionIndexes
    · exact .inl hMem
    · refine .inr ?_
      have hOnce := h.once k
      rw [List.count_eq_zero.mpr hMem] at hOnce
      by_cases hHand : s.inHand k = 0
      · refine .inl ?_
        rw [hHand, Slot.uses] at hOnce
        split at hOnce
        · cases hOnce
        · rename_i hLive
          exact Bool.eq_false_iff.mpr hLive
      · exact .inr (exists_of_weight hHand)
  unused := by
    intro k hMem
    have hOnce := h.once k
    have hPos := List.count_pos_iff.mpr hMem
    by_contra hLive
    rw [Slot.uses, if_neg hLive] at hOnce
    omega

/-- To begin with all indexes are on the stack. -/
theorem indexed_start : (start ioThreads callers poolSize).Indexed where
  once k := by
    have hCount : (List.range poolSize).reverse.count k.val = 1 := by
      rw [List.count_reverse, List.count_eq_one_of_mem List.nodup_range (List.mem_range.mpr k.isLt)]
    simp [start, inHand, weight_nil, Slot.uses, LanSession.new, hCount]
  inPool := by simp [start]
  ids := by simp [start, LanSession.new, Slot.idOf, LanSession.sessionIndex]
  names := by simp [start]
  pushed := by simp [start]

/-- The run lemma. -/
theorem indexed_of_freshIndex (h : Reached FreshIndex s) : s.Indexed := by
  apply h.invariant
  · exact indexed_start
  · intro s s' a _ hIndexed hGuard hStep
    exact hIndexed.step hGuard (step_advance hStep)

/-- The indexes are conserved in every run that meets the conditions. -/
theorem conservesIndexes_of_freshIndex (h : Reached FreshIndex s) : s.ConservesIndexes :=
  (indexed_of_freshIndex h).conserves

/-- A test for the first condition on a pool of two. -/
def popsSome (s : Server 1 1 2) (a : Thread 1 1 × Choice 2) : Bool :=
  match s.threads a.1 with
  | .tryPop :: _ => !s.unusedSessionIndexes.isEmpty
  | _ => true

/-- The test that runs evaluate implies the guard. -/
theorem popsIndex_of_popsSome {s : Server 1 1 2} {a : Thread 1 1 × Choice 2}
    (h : popsSome s a = true) : PopsIndex s a := by
  intro rest hTop
  rw [popsSome, hTop] at h
  simpa using h

/-- A test for the others. -/
def releasesFresh (s : Server 1 1 2) (a : Thread 1 1 × Choice 2) : Bool :=
  popsSome s a && match s.threads a.1 with
  | .on k (.tryRelease _ 0) :: _ => k.val == 0 || !(s.slots k).session.releasable
  | _ => true

/-- The same for the guard on releases. -/
theorem freshIndex_of_releasesFresh {s : Server 1 1 2} {a : Thread 1 1 × Choice 2}
    (h : releasesFresh s a = true) : FreshIndex s a := by
  rw [releasesFresh, Bool.and_eq_true] at h
  refine ⟨popsIndex_of_popsSome h.1, ?_, ?_⟩
  · intro index uid rest _
    exact index.isLt.trans (by decide)
  · intro k id rest hTop hk
    have hFresh := h.2
    rw [hTop] at hFresh
    simpa [hk] using hFresh

/-- A client of slot 1 leaves, and the next one takes the slot. -/
theorem conservesIndexes_of_freshIndex_reused :
    ∃ s : Server 1 1 2, (1, .pushed 1) ∈ s.history ∧ s.unusedSessionIndexes = [0] ∧
      (s.slots 1).session.isReleased = false ∧ s.ConservesIndexes := by
  have hRun : (exec (checked releasesFresh step) (start 1 1 2)
      (goes .accept 21 ++ (.io 0, .completion 1 (.recv, 1) (.succeeded 0)) :: goes (.io 0) 17 ++
        goes .accept 21)).map (fun s => decide ((1, .pushed 1) ∈ s.history ∧
          s.unusedSessionIndexes = [0] ∧ (s.slots 1).session.isReleased = false)) = some true := by
    decide +kernel
  obtain ⟨s, hExec, hReused⟩ := Option.map_eq_some_iff.mp hRun
  obtain ⟨hPushed, hUnused, hLive⟩ := of_decide_eq_true hReused
  exact ⟨s, hPushed, hUnused, hLive,
    conservesIndexes_of_freshIndex (reachable_of_checked freshIndex_of_releasesFresh hExec)⟩

/-- A caller of `Disconnect` finds its id, the session is released under it, it reads the index 0
off the cleared id, and releases the next client of slot 1 before that is counted. -/
def staleReleaseRun : List (Thread 1 1 × Choice 2) :=
  goes .accept 21 ++ (.caller 0, .call (2 ^ 48 + 1) .disconnect) :: goes (.caller 0) 1 ++
    (.io 0, .completion 1 (.recv, 1) (.succeeded 0)) :: goes (.io 0) 17 ++
    goes (.caller 0) 2 ++ goes .accept 11 ++ goes (.caller 0) 10

/-- Without it index 0 comes back twice, read off an id that was cleared. -/
theorem conservesIndexes_fails :
    ¬ ∀ s : Server 1 1 2, Reached PopsIndex s → s.ConservesIndexes := by
  intro h
  have hRun : (exec (checked popsSome step) (start 1 1 2) staleReleaseRun).map
      (fun s => decide ((1, .pushed 0) ∈ s.history)) = some true := by
    decide +kernel
  obtain ⟨s, hExec, hBad⟩ := Option.map_eq_some_iff.mp hRun
  have hConserves := h s (reachable_of_checked popsIndex_of_popsSome hExec)
  exact absurd (hConserves.pushed 1 0 (of_decide_eq_true hBad)) (by decide)

end Server

end NfNetwork.Lan
