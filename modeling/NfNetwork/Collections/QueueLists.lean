import NfNetwork.Collections.QueueShape
import Mathlib.Tactic.Abel

/-! The lists that the nodes of a queue form, step by step. -/
namespace NfNetwork.Collections

open Machinery

variable {Thread Node Value : Type}

/-- The main list, what hangs behind the node of each enqueuer, and when each node
left the main list. -/
structure QueueLists (Thread Node : Type) where
  main : List Node
  limbo : Thread → List Node
  stamp : Node → Nat

/-- The nodes of all lists. -/
def QueueLists.published [Fintype Thread] (lists : QueueLists Thread Node) : Multiset Node :=
  lists.main + crewTotal (fun cells : List Node => (cells : Multiset Node)) lists.limbo

section Put

variable [DecidableEq Thread] (lists : QueueLists Thread Node) (t : Thread) (cells : List Node)

def QueueLists.put : QueueLists Thread Node :=
  { lists with limbo := Function.update lists.limbo t cells }

@[simp] theorem QueueLists.put_main : (lists.put t cells).main = lists.main := rfl

@[simp] theorem QueueLists.put_stamp : (lists.put t cells).stamp = lists.stamp := rfl

@[simp] theorem QueueLists.put_self : (lists.put t cells).limbo t = cells :=
  Function.update_self ..

theorem QueueLists.put_other {t' : Thread} (h : t' ≠ t) :
    (lists.put t cells).limbo t' = lists.limbo t' := Function.update_of_ne h ..

/-- What a thread's private list loses or gains, the nodes of all lists do. -/
theorem QueueLists.put_published [Fintype Thread] :
    (lists.put t cells).published + lists.limbo t = lists.published + cells := by
  rw [QueueLists.published, QueueLists.published, QueueLists.put, crewTotal_update,
    crewTotal_split _ lists.limbo t]
  abel

/-- The main list goes on with these nodes. -/
def QueueLists.append : QueueLists Thread Node := { lists with main := lists.main ++ cells }

omit [DecidableEq Thread] in
/-- The same for the main list. -/
theorem QueueLists.append_published [Fintype Thread] :
    (lists.append cells).published = lists.published + cells := by
  rw [QueueLists.published, QueueLists.published, QueueLists.append, ← Multiset.coe_add]
  abel

end Put

/-- The list that starts with an enqueuer's node. -/
def LockFreeQueue.Limbo (queue : LockFreeQueue Node Value) (stamp : Node → Nat) :
    Option Node → List Node → Prop
  | none, cells => cells = []
  | some n, cells => Chain queue.next (some n) cells none ∧
      cells.Pairwise fun a b => stamp b < stamp a

def QueueSystem.hands [Fintype Thread] (s : QueueSystem Thread Node Value) : Multiset Node :=
  crewTotal QueuePc.hand s.threads

/-- Every rented node is in one place. -/
structure QueueSystem.Shaped [Fintype Thread] (s : QueueSystem Thread Node Value)
    (lists : QueueLists Thread Node) : Prop where
  list : Chain s.queue.next s.queue.mHead.DummyNode lists.main none
  tail : ∃ n ∈ lists.main, s.queue.mTail.DummyNode = some n
  nodup : s.queue.rented.Nodup
  places : s.queue.rented = lists.published + s.hands
  limbo : ∀ t, s.queue.Limbo lists.stamp (s.threads t).published (lists.limbo t)
  stamps : ∀ n, lists.stamp n ≤ s.queue.mHead.UID.toNat
  sound : ∀ t, (s.threads t).Sound s.queue lists.main lists.published lists.stamp

section Facts

variable [Fintype Thread] {s : QueueSystem Thread Node Value} {lists : QueueLists Thread Node}
  {t : Thread} {n m : Node}

theorem QueueLists.published_of_main (h : n ∈ lists.main) : n ∈ lists.published :=
  Multiset.mem_add.mpr (.inl (Multiset.mem_coe.mpr h))

theorem QueueLists.published_of_limbo (h : n ∈ lists.limbo t) : n ∈ lists.published :=
  Multiset.mem_add.mpr (.inr (Multiset.mem_sum.mpr ⟨t, Finset.mem_univ t, Multiset.mem_coe.mpr h⟩))

/-- A published node is in the main list or in a private one. -/
theorem QueueLists.mem_published :
    n ∈ lists.published ↔ n ∈ lists.main ∨ ∃ t, n ∈ lists.limbo t := by
  simp [QueueLists.published, crewTotal, Multiset.mem_sum]

namespace QueueSystem.Shaped

/-- No node is in two lists, or twice in one. -/
theorem published_nodup (h : s.Shaped lists) : lists.published.Nodup := by
  have hNodup := h.nodup
  rw [h.places] at hNodup
  exact (Multiset.nodup_add.mp hNodup).1

/-- In particular not twice in the main list. -/
theorem main_nodup (h : s.Shaped lists) : lists.main.Nodup :=
  Multiset.coe_nodup.mp (Multiset.nodup_add.mp h.published_nodup).1

/-- The main list starts with the dummy node. -/
theorem main_eq (h : s.Shaped lists) :
    ∃ n later, lists.main = n :: later ∧ s.queue.mHead.DummyNode = some n := by
  have hList := h.list
  obtain ⟨m, hm, _⟩ := h.tail
  cases hMain : lists.main with
  | nil =>
      rw [hMain] at hm
      cases hm
  | cons n later =>
      rw [hMain] at hList
      exact ⟨n, later, rfl, hList.1⟩

/-- The head is in the main list. -/
theorem head_mem (h : s.Shaped lists) (hHead : s.queue.mHead.DummyNode = some n) :
    n ∈ lists.main := by
  obtain ⟨m, later, hMain, hm⟩ := h.main_eq
  cases hm.symm.trans hHead
  rw [hMain]
  exact List.mem_cons_self

/-- And so is the tail. -/
theorem tail_mem (h : s.Shaped lists) (hTail : s.queue.mTail.DummyNode = some n) :
    n ∈ lists.main := by
  obtain ⟨m, hMem, hm⟩ := h.tail
  cases hm.symm.trans hTail
  exact hMem

/-- A successor in the main list is in it, and is not the dummy node. -/
theorem next_mem (h : s.Shaped lists) (hMain : n ∈ lists.main) (hNext : s.queue.next n = some m) :
    m ∈ lists.main ∧ s.queue.mHead.DummyNode ≠ some m := by
  have hLater := h.list.next_mem_tail hMain hNext
  have hNodup := h.main_nodup
  obtain ⟨d, later, hEq, hHead⟩ := h.main_eq
  rw [hEq] at hLater hNodup ⊢
  refine ⟨List.mem_of_mem_tail hLater, fun hSame => ?_⟩
  cases hHead.symm.trans hSame
  exact (List.nodup_cons.mp hNodup).1 hLater

/-- A node in a thread's hands is in no list and in no other hands. -/
theorem hand_apart [DecidableEq Thread] (h : s.Shaped lists) (hHand : n ∈ (s.threads t).hand) :
    n ∉ lists.published ∧ ∀ t', t' ≠ t → n ∉ (s.threads t').hand := by
  have hNodup := h.nodup
  rw [h.places, QueueSystem.hands, crewTotal_split _ _ t] at hNodup
  obtain ⟨_, hHands, hDisjoint⟩ := Multiset.nodup_add.mp hNodup
  refine ⟨fun hMem => ?_, fun t' hOther hMem => ?_⟩
  · exact Multiset.disjoint_left.mp hDisjoint hMem (Multiset.mem_add.mpr (.inl hHand))
  · exact Multiset.disjoint_left.mp (Multiset.nodup_add.mp hHands).2.2 hHand
      (mem_crewOthers hOther hMem)

/-- A node in a thread's hand has been rented from the pool. -/
theorem rented_of_hand (h : s.Shaped lists) (hHand : n ∈ (s.threads t).hand) :
    n ∈ s.queue.rented := by
  rw [h.places]
  exact Multiset.mem_add.mpr (.inr (Multiset.mem_sum.mpr ⟨t, Finset.mem_univ t, hHand⟩))

/-- A private list has nothing in common with the main one or with another thread's. -/
theorem limbo_apart [DecidableEq Thread] (h : s.Shaped lists) (hLimbo : n ∈ lists.limbo t) :
    n ∉ lists.main ∧ ∀ t', t' ≠ t → n ∉ lists.limbo t' := by
  have hNodup := h.published_nodup
  rw [QueueLists.published, crewTotal_split _ _ t] at hNodup
  obtain ⟨_, hAll, hDisjoint⟩ := Multiset.nodup_add.mp hNodup
  refine ⟨fun hMem => ?_, fun t' hOther hMem => ?_⟩
  · exact Multiset.disjoint_left.mp hDisjoint (Multiset.mem_coe.mpr hMem)
      (Multiset.mem_add.mpr (.inl (Multiset.mem_coe.mpr hLimbo)))
  · exact Multiset.disjoint_left.mp (Multiset.nodup_add.mp hAll).2.2 (Multiset.mem_coe.mpr hLimbo)
      (mem_crewOthers hOther (Multiset.mem_coe.mpr hMem))

/-- And no node twice. -/
theorem limbo_nodup (h : s.Shaped lists) : (lists.limbo t).Nodup := by
  classical
  have hNodup := h.published_nodup
  rw [QueueLists.published, crewTotal_split _ _ t] at hNodup
  exact Multiset.coe_nodup.mp
    (Multiset.nodup_add.mp (Multiset.nodup_add.mp hNodup).2.1).1

end QueueSystem.Shaped

end Facts

section Moving

variable [Fintype Thread] [DecidableEq Thread] {s : QueueSystem Thread Node Value}
  {lists lists' : QueueLists Thread Node} {t : Thread} {n m : Node} {a : QueueAdvance Node Value}

/-- A private list depends on the links and stamps of its own nodes only. -/
theorem LockFreeQueue.Limbo.congr {queue queue' : LockFreeQueue Node Value} {stamp stamp' : Node → Nat}
    {start : Option Node} {cells : List Node} (h : queue.Limbo stamp start cells)
    (hNext : ∀ n ∈ cells, queue'.next n = queue.next n) (hStamp : ∀ n ∈ cells, stamp' n = stamp n) :
    queue'.Limbo stamp' start cells := by
  cases start with
  | none => exact h
  | some n =>
      refine ⟨h.1.congr hNext, h.2.imp_of_mem ?_⟩
      intro a b ha hb hLt
      rwa [hStamp a ha, hStamp b hb]

/-- A list behind an enqueuer's node starts with the latest stamp. -/
theorem LockFreeQueue.Limbo.stamp_le {queue : LockFreeQueue Node Value} {stamp : Node → Nat}
    {cells : List Node} (h : queue.Limbo stamp (some n) cells) (hMem : m ∈ cells) :
    stamp m ≤ stamp n := by
  obtain ⟨later, rfl, _⟩ := h.1.eq_cons
  cases List.mem_cons.mp hMem with
  | inl hSame => rw [hSame]
  | inr hLater => exact Nat.le_of_lt (List.rel_of_pairwise_cons h.2 hLater)

namespace QueueSystem.Shaped

/-- The moving thread and the others still know what they rely on. -/
theorem sound_advance (h : s.Shaped lists)
    (hEvolves : Evolves s.queue a.queue lists.main lists'.main lists.published lists'.published
      lists.stamp lists'.stamp)
    (hSelf : a.pc.Sound a.queue lists'.main lists'.published lists'.stamp)
    (hStays : ∀ t', t' ≠ t → ∀ n ∈ lists.limbo t', lists'.stamp n = lists.stamp n)
    (hData : ∀ t', t' ≠ t → ∀ n ∈ (s.threads t').hand, a.queue.data n = s.queue.data n) (t' : Thread) :
    ((s.advance t a).threads t').Sound (s.advance t a).queue lists'.main lists'.published
      lists'.stamp := by
  by_cases hSame : t' = t
  · subst hSame
    rw [s.advance_self]
    exact hSelf
  · rw [s.advance_other a hSame]
    refine (h.sound t').frame hEvolves (fun n hn => ?_) (hData t' hSame)
    have hLimbo := h.limbo t'
    rw [hn] at hLimbo
    obtain ⟨later, hCells, _⟩ := hLimbo.1.eq_cons
    exact hStays t' hSame n (hCells ▸ List.mem_cons_self)

/-- A step that leaves the lists as they are. -/
theorem keep (h : s.Shaped lists) (hHead : a.queue.mHead = s.queue.mHead)
    (hNext : a.queue.next = s.queue.next)
    (hTail : a.queue.mTail = s.queue.mTail ∨ s.queue.mTail.UID < a.queue.mTail.UID ∧
      ∃ n ∈ lists.main, a.queue.mTail.DummyNode = some n ∧ s.queue.mHead.DummyNode ≠ some n)
    (hNodup : a.queue.rented.Nodup)
    (hPlaces : a.queue.rented + (s.threads t).hand = s.queue.rented + a.pc.hand)
    (hPublished : a.pc.published = (s.threads t).published)
    (hData : ∀ n, n ∉ (s.threads t).hand → a.queue.data n = s.queue.data n)
    (hSelf : a.pc.Sound a.queue lists.main lists.published lists.stamp) :
    (s.advance t a).Shaped lists where
  list := by
    rw [QueueSystem.advance, hHead, hNext]
    exact h.list
  tail := by
    cases hTail with
    | inl hSame =>
        rw [QueueSystem.advance, hSame]
        exact h.tail
    | inr hMoved =>
        obtain ⟨_, n, hMain, hn, _⟩ := hMoved
        exact ⟨n, hMain, hn⟩
  nodup := hNodup
  places := by
    have hBefore := h.places
    rw [QueueSystem.hands, crewTotal_split _ _ t] at hBefore
    rw [QueueSystem.hands, QueueSystem.advance, crewTotal_update]
    apply add_right_cancel (b := (s.threads t).hand)
    rw [hPlaces, hBefore]
    abel
  limbo t' := by
    have hLimbo := (h.limbo t').congr (fun n _ => congrFun hNext n) fun _ _ => rfl
    by_cases hSame : t' = t
    · subst hSame
      rw [s.advance_self, hPublished]
      exact hLimbo
    · rw [s.advance_other a hSame]
      exact hLimbo
  stamps := by
    rw [QueueSystem.advance, hHead]
    exact h.stamps
  sound := by
    have hOther : ∀ n m, s.queue.mHead.DummyNode = some n → s.queue.next n = some m →
        a.queue.data m = s.queue.data m := by
      intro n m hn hm
      refine hData m fun hHand => (h.hand_apart hHand).1 ?_
      exact QueueLists.published_of_main (h.next_mem (h.head_mem hn) hm).1
    refine h.sound_advance ⟨.inl hHead, ?_, ?_, hOther, ?_, ?_, ?_, fun _ _ => rfl⟩ hSelf
      (fun _ _ _ _ => rfl) ?_
    · exact hTail.imp_right And.left
    · intro n _ m hm
      rw [hNext]
      exact hm
    · intro _ hApart
      cases hTail with
      | inl hSame => rwa [hSame]
      | inr hMoved =>
          obtain ⟨_, n, _, hn, hOutside⟩ := hMoved
          rw [hn]
          exact Ne.symm hOutside
    · intro n hEnd hMem
      rw [hNext] at hEnd
      exact hMem hEnd
    · exact fun n hn => .inl hn
    · intro t' hOtherThread n hHand
      exact hData n fun hMine => (h.hand_apart hMine).2 t' hOtherThread hHand

variable [DecidableEq Node]

/-- An enqueuer's node has no successor any more: a list of its own. -/
theorem storeNext {v : Value} (h : s.Shaped lists) (hPc : s.threads t = .enqueue v (.storeNext n)) :
    (s.advance t ⟨s.queue.storeNext n none, .enqueue v (.loadTailNode n), none⟩).Shaped
        (lists.put t [n]) ∧ (lists.put t [n]).published = n ::ₘ lists.published := by
  have hHand : n ∈ (s.threads t).hand := by
    rw [hPc]
    exact Multiset.mem_singleton_self n
  have hOutside := (h.hand_apart hHand).1
  have hEmpty : lists.limbo t = [] := by
    have hLimbo := h.limbo t
    rw [hPc] at hLimbo
    exact hLimbo
  have hPublished : (lists.put t [n]).published = n ::ₘ lists.published := by
    have hPut := lists.put_published t [n]
    rw [hEmpty, Multiset.coe_nil, add_zero] at hPut
    rw [hPut, Multiset.coe_singleton, add_comm, Multiset.singleton_add]
  have hOther : ∀ m ∈ lists.published, (s.queue.storeNext n none).next m = s.queue.next m := by
    intro m hm
    rw [s.queue.storeNext_next]
    apply Function.update_of_ne
    rintro rfl
    exact hOutside hm
  refine ⟨⟨?_, h.tail, h.nodup, ?_, ?_, h.stamps, ?_⟩, hPublished⟩
  · exact h.list.congr fun m hm => hOther m (QueueLists.published_of_main hm)
  · have hPlaces := h.places
    rw [QueueSystem.hands, crewTotal_split _ _ t, hPc] at hPlaces
    rw [hPublished, QueueSystem.hands, QueueSystem.advance, crewTotal_update,
      ← Multiset.singleton_add]
    refine hPlaces.trans ?_
    simp only [QueuePc.hand]
    abel
  · intro t'
    by_cases hSame : t' = t
    · subst hSame
      rw [advance_self, lists.put_self]
      refine ⟨⟨rfl, ?_⟩, List.pairwise_singleton _ _⟩
      exact (congrFun (s.queue.storeNext_next n none) n).trans (Function.update_self ..)
    · rw [s.advance_other _ hSame, lists.put_other _ _ hSame]
      exact (h.limbo t').congr (fun m hm => hOther m (QueueLists.published_of_limbo hm))
        fun _ _ => rfl
  · refine h.sound_advance ⟨.inl rfl, .inl rfl, ?_, ?_, fun _ hApart => hApart, ?_, ?_, fun _ _ => rfl⟩
      True.intro (fun _ _ _ _ => rfl) ?_
    · rintro m (hm | hm) k hk
      · rw [hOther m (QueueLists.published_of_main (h.head_mem hm))]
        exact hk
      · rw [hOther m (QueueLists.published_of_main (h.tail_mem hm))]
        exact hk
    · exact fun _ m _ _ => congrFun (s.queue.storeNext_data n none) m
    · intro m hEnd hMem
      rw [hPublished, Multiset.mem_cons]
      by_cases hSame : m = n
      · exact .inl hSame
      · rw [s.queue.storeNext_next, Function.update_of_ne hSame] at hEnd
        exact .inr (hMem hEnd)
    · exact fun m hm => .inl hm
    · exact fun _ _ m _ => congrFun (s.queue.storeNext_data n none) m

/-- An enqueuer's list has gone behind a node without successor, into another list. -/
theorem link_into {v : Value} {snapshotTail : Indexer Node} (h : s.Shaped lists)
    (hPc : s.threads t = .enqueue v (.link n snapshotTail (some m))) (hEnd : s.queue.next m = none)
    (hSelf : (QueuePc.enqueue v (.swingTail n snapshotTail) : QueuePc Node Value).Sound
      (s.queue.storeNext m (some n)) lists'.main lists'.published lists'.stamp)
    (hList : Chain (s.queue.storeNext m (some n)).next s.queue.mHead.DummyNode lists'.main none)
    (hMain : ∀ k ∈ lists.main, k ∈ lists'.main) (hStamp : lists'.stamp = lists.stamp)
    (hPublished : lists'.published = lists.published) (hEmpty : lists'.limbo t = [])
    (hLimbo : ∀ t', t' ≠ t → (s.queue.storeNext m (some n)).Limbo lists.stamp
      (s.threads t').published (lists'.limbo t')) :
    (s.advance t ⟨s.queue.storeNext m (some n), .enqueue v (.swingTail n snapshotTail),
      none⟩).Shaped lists' := by
  have hOther : ∀ k x, s.queue.next k = some x → (s.queue.storeNext m (some n)).next k = some x := by
    intro k x hk
    rw [s.queue.storeNext_next, Function.update_of_ne, hk]
    rintro rfl
    cases hEnd.symm.trans hk
  refine ⟨hList, ?_, h.nodup, ?_, ?_, ?_, ?_⟩
  · obtain ⟨k, hk, hTail⟩ := h.tail
    exact ⟨k, hMain k hk, hTail⟩
  · have hPlaces := h.places
    rw [QueueSystem.hands, crewTotal_split _ _ t, hPc] at hPlaces
    rw [hPublished, QueueSystem.hands, QueueSystem.advance, crewTotal_update]
    exact hPlaces
  · intro t'
    rw [hStamp]
    by_cases hSame : t' = t
    · subst hSame
      rw [advance_self]
      exact hEmpty
    · rw [s.advance_other _ hSame]
      exact hLimbo t' hSame
  · rw [hStamp]
    exact h.stamps
  · refine h.sound_advance ⟨.inl rfl, .inl rfl, fun k _ x => hOther k x, ?_, fun _ hApart => hApart,
      ?_, fun k hk => .inl (hMain k hk), fun k _ => congrFun hStamp k⟩ hSelf
      (fun _ _ k _ => congrFun hStamp k) ?_
    · exact fun _ k _ _ => congrFun (s.queue.storeNext_data m (some n)) k
    · intro k hk hMem
      rw [hPublished]
      apply hMem
      by_contra hNext
      obtain ⟨x, hx⟩ := Option.ne_none_iff_exists'.mp hNext
      cases (hOther k x hx).symm.trans hk
    · exact fun _ _ k _ => congrFun (s.queue.storeNext_data m (some n)) k

/-- An enqueuer links its node, with all that is behind it, to the end of another
list. -/
theorem link {v : Value} {snapshotTail : Indexer Node} (h : s.Shaped lists)
    (hPc : s.threads t = .enqueue v (.link n snapshotTail (some m))) (hEnd : s.queue.next m = none)
    (hSelf : ∀ lists' : QueueLists Thread Node,
      (QueuePc.enqueue v (.swingTail n snapshotTail) : QueuePc Node Value).Sound
        (s.queue.storeNext m (some n)) lists'.main lists'.published lists'.stamp) :
    ∃ lists', (s.advance t ⟨s.queue.storeNext m (some n), .enqueue v (.swingTail n snapshotTail),
      none⟩).Shaped lists' ∧ lists'.published = lists.published := by
  have hSound := h.sound t
  have hMine := h.limbo t
  rw [hPc] at hSound hMine
  obtain ⟨_, m', hm', hTarget, _⟩ := hSound
  cases hm'
  obtain ⟨hChain, hFalls⟩ := hMine
  obtain ⟨behind, hBehind, _⟩ := hChain.eq_cons
  have hFirst : n ∈ lists.limbo t := hBehind ▸ List.mem_cons_self
  have hApart : m ∉ lists.limbo t := by
    intro hMem
    have hLe := LockFreeQueue.Limbo.stamp_le ⟨hChain, hFalls⟩ hMem
    cases hTarget.later with
    | inl hMain => exact (h.limbo_apart hMem).1 hMain
    | inr hLt => omega
  have hNotNext : ∀ cells : List Node, m ∉ cells →
      ∀ k ∈ cells, (s.queue.storeNext m (some n)).next k = s.queue.next k := by
    intro cells hOutside k hk
    rw [s.queue.storeNext_next]
    apply Function.update_of_ne
    rintro rfl
    exact hOutside hk
  have hNotBefore : ∀ before : List Node, (before ++ [m]).Nodup → m ∉ before :=
    fun before hNodup hMem => List.disjoint_of_nodup_append hNodup hMem List.mem_cons_self
  cases QueueLists.mem_published.mp (hTarget.ends hEnd) with
  | inl hMain =>
      obtain ⟨before, hBefore⟩ := h.list.eq_concat hMain hEnd
      have hNodup := h.main_nodup
      have hList := h.list
      rw [hBefore] at hNodup hList
      have hPublished : ((lists.append (lists.limbo t)).put t []).published = lists.published := by
        apply add_right_cancel (b := (lists.limbo t : Multiset Node))
        refine ((lists.append (lists.limbo t)).put_published t []).trans ?_
        rw [lists.append_published, Multiset.coe_nil, add_zero]
      refine ⟨(lists.append (lists.limbo t)).put t [], h.link_into hPc hEnd (hSelf _) ?_
        (fun k hk => List.mem_append_left _ hk) rfl hPublished (QueueLists.put_self ..) ?_, hPublished⟩
      · rw [s.queue.storeNext_next, QueueLists.put_main, QueueLists.append, hBefore]
        exact hList.link hChain (hNotBefore before hNodup) hApart
      · intro t' hOther
        rw [QueueLists.put_other _ _ _ hOther]
        exact (h.limbo t').congr
          (hNotNext _ fun hMem => (h.limbo_apart hMem).1 hMain) fun _ _ => rfl
  | inr hLimbo =>
      obtain ⟨k, hMem⟩ := hLimbo
      have hOtherList : k ≠ t := by
        rintro rfl
        exact hApart hMem
      have hTheirs := h.limbo k
      cases hFront : (s.threads k).published with
      | none =>
          rw [hFront] at hTheirs
          rw [hTheirs] at hMem
          cases hMem
      | some front =>
          rw [hFront] at hTheirs
          obtain ⟨hTheirChain, hTheirFalls⟩ := hTheirs
          obtain ⟨before, hBefore⟩ := hTheirChain.eq_concat hMem hEnd
          have hNodup := h.limbo_nodup (t := k)
          have hList := hTheirChain
          rw [hBefore] at hNodup hList
          have hPublished : ((lists.put k (lists.limbo k ++ lists.limbo t)).put t []).published =
              lists.published := by
            have hTheirPut := lists.put_published k (lists.limbo k ++ lists.limbo t)
            have hPut := (lists.put k (lists.limbo k ++ lists.limbo t)).put_published t []
            rw [QueueLists.put_other _ _ _ hOtherList.symm, Multiset.coe_nil, add_zero] at hPut
            rw [← hPut, ← Multiset.coe_add] at hTheirPut
            apply add_right_cancel (b := (lists.limbo k : Multiset Node) + lists.limbo t)
            rw [← hTheirPut]
            abel
          refine ⟨(lists.put k (lists.limbo k ++ lists.limbo t)).put t [], h.link_into hPc hEnd
            (hSelf _) ?_ (fun _ hx => hx) rfl hPublished (QueueLists.put_self ..) ?_, hPublished⟩
          · exact h.list.congr (hNotNext _ (h.limbo_apart hMem).1)
          · intro t' hOther
            rw [QueueLists.put_other _ _ _ hOther]
            by_cases hSame : t' = k
            · subst hSame
              rw [hFront, QueueLists.put_self]
              refine ⟨?_, List.pairwise_append.mpr ⟨hTheirFalls, hFalls, fun x hx y hy => ?_⟩⟩
              · rw [s.queue.storeNext_next, hBefore]
                exact hList.link hChain (hNotBefore before hNodup) hApart
              · have hBehindMine := LockFreeQueue.Limbo.stamp_le ⟨hChain, hFalls⟩ hy
                have hLast : lists.stamp m ≤ lists.stamp x := by
                  rw [hBefore] at hx hTheirFalls
                  obtain ⟨_, _, hAll⟩ := List.pairwise_append.mp hTheirFalls
                  cases List.mem_append.mp hx with
                  | inl hEarlier => exact Nat.le_of_lt (hAll x hEarlier m List.mem_cons_self)
                  | inr hEqual => rw [List.mem_singleton.mp hEqual]
                have hLt := hTarget.later.resolve_left (h.limbo_apart hMem).1
                omega
            · rw [QueueLists.put_other _ _ _ hSame]
              exact (h.limbo t').congr
                (hNotNext _ ((h.limbo_apart hMem).2 t' hSame)) fun _ _ => rfl

/-- The dummy node leaves the main list; its successor is the dummy node now. -/
theorem take {v : Value} {next : Node} (h : s.Shaped lists)
    (hPc : s.threads t = .tryDequeue (.moveHead s.queue.mHead next v))
    (hHead : s.queue.mHead.DummyNode = some n)
    (hWrap : s.queue.mHead.UID < s.queue.mHead.UID + 1) :
    s.queue.next n = some next ∧ s.queue.data next = v ∧ ∃ lists', (s.advance t
      ⟨{ s.queue with mHead := ⟨s.queue.mHead.UID + 1, some next⟩ }, .tryDequeue (.giveBack n v),
        none⟩).Shaped lists' ∧ lists.published = n ::ₘ lists'.published := by
  have hSound := h.sound t
  have hMine := h.limbo t
  rw [hPc] at hSound hMine
  obtain ⟨_, hFollows, hApart, hRead⟩ := hSound
  have hNext := hFollows rfl n hHead
  obtain ⟨d, later, hMain, hd⟩ := h.main_eq
  cases hd.symm.trans hHead
  have hNodup := h.main_nodup
  have hList := h.list
  rw [hMain] at hNodup hList
  have hOutside := (List.nodup_cons.mp hNodup).1
  have hLast : ∀ m, s.queue.mHead.UID.toNat < (s.queue.mHead.UID + 1).toNat ∧
      lists.stamp m < (s.queue.mHead.UID + 1).toNat := fun m =>
    have hLt := UInt64.lt_iff_toNat_lt.mp hWrap
    ⟨hLt, Nat.lt_of_le_of_lt (h.stamps m) hLt⟩
  let lists' : QueueLists Thread Node :=
    ⟨later, lists.limbo, Function.update lists.stamp n (s.queue.mHead.UID + 1).toNat⟩
  have hPublished : lists.published = n ::ₘ lists'.published := by
    rw [QueueLists.published, QueueLists.published, hMain, ← Multiset.cons_coe,
      Multiset.cons_add]
  have hLimboStamp : ∀ t', ∀ m ∈ lists.limbo t', lists'.stamp m = lists.stamp m := by
    intro t' m hm
    apply Function.update_of_ne
    rintro rfl
    exact (h.limbo_apart hm).1 (hMain ▸ List.mem_cons_self)
  refine ⟨hNext, hRead rfl, lists', ⟨?_, ?_, h.nodup, ?_, ?_, ?_, ?_⟩, hPublished⟩
  · have hLater := hList.2
    rw [hNext] at hLater
    exact hLater
  · obtain ⟨m, hm, hTail⟩ := h.tail
    rw [hMain] at hm
    cases List.mem_cons.mp hm with
    | inl hSame =>
        rw [hSame] at hTail
        exact absurd (hTail.trans hHead.symm) (hApart rfl)
    | inr hLater => exact ⟨m, hLater, hTail⟩
  · have hPlaces := h.places
    rw [QueueSystem.hands, crewTotal_split _ _ t, hPc, hPublished, ← Multiset.singleton_add] at hPlaces
    rw [QueueSystem.hands, QueueSystem.advance, crewTotal_update]
    refine hPlaces.trans ?_
    simp only [QueuePc.hand]
    abel
  · intro t'
    have hLimbo := (h.limbo t').congr (fun _ _ => rfl) (hLimboStamp t')
    by_cases hSame : t' = t
    · subst hSame
      rw [hPc] at hLimbo
      rw [advance_self]
      exact hLimbo
    · rw [s.advance_other _ hSame]
      exact hLimbo
  · intro m
    by_cases hSame : m = n
    · subst hSame
      exact Nat.le_of_eq (Function.update_self ..)
    · rw [show lists'.stamp m = lists.stamp m from Function.update_of_ne hSame ..]
      exact Nat.le_of_lt (hLast m).2
  · refine h.sound_advance ⟨.inr hWrap, .inl rfl, fun _ _ _ hm => hm, fun _ _ _ _ => rfl,
      fun _ hStays => hStays, ?_, ?_, ?_⟩ True.intro (fun t' _ => hLimboStamp t') fun _ _ _ _ => rfl
    · intro m hEnd hMem
      have hIn := hMem hEnd
      rw [hPublished, Multiset.mem_cons] at hIn
      refine hIn.resolve_left ?_
      rintro rfl
      cases hEnd.symm.trans hNext
    · intro m hm
      rw [hMain] at hm
      cases List.mem_cons.mp hm with
      | inl hSame =>
          refine .inr fun k => ?_
          rw [hSame, show lists'.stamp n = _ from Function.update_self ..]
          exact (hLast k).2
      | inr hLater => exact .inl hLater
    · intro m hm
      apply Function.update_of_ne
      rintro rfl
      exact hm (hMain ▸ List.mem_cons_self)

end QueueSystem.Shaped

/-- A call has no node yet. -/
theorem QueueSystem.Shaped.call (h : s.Shaped lists) (hIdle : s.threads t = .idle)
    (hQueue : a.queue = s.queue) (hPublished : a.pc.published = none) (hHand : a.pc.hand = 0)
    (hSelf : a.pc.Sound s.queue lists.main lists.published lists.stamp) :
    (s.advance t a).Shaped lists :=
  h.keep (t := t) (a := a) (by rw [hQueue]) (by rw [hQueue]) (.inl (by rw [hQueue]))
    (by rw [hQueue]; exact h.nodup) (by rw [hQueue, hHand, hIdle]; rfl)
    (by rw [hPublished, hIdle]; rfl) (fun _ _ => by rw [hQueue]) (by rw [hQueue]; exact hSelf)

variable [DecidableEq Node]

omit [DecidableEq Thread] in
/-- The fresh queue is its dummy node. -/
theorem QueueSystem.start_shaped (dummyNode : Node) (nodes : Node → QueueNode Node Value) :
    (QueueSystem.start dummyNode nodes : QueueSystem Thread Node Value).Shaped
      ⟨[dummyNode], fun _ => [], fun _ => 0⟩ := by
  have hLimbo : crewTotal (fun cells : List Node => (cells : Multiset Node))
      (fun _ : Thread => ([] : List Node)) = 0 := crewTotal_eq_zero fun _ => rfl
  have hHands : (QueueSystem.start dummyNode nodes : QueueSystem Thread Node Value).hands = 0 :=
    crewTotal_eq_zero fun _ => rfl
  refine ⟨⟨rfl, ?_⟩, ⟨dummyNode, List.mem_cons_self, rfl⟩, Multiset.nodup_singleton _, ?_,
    fun _ => rfl, fun _ => Nat.zero_le _, fun _ => True.intro⟩
  · exact (congrFun (LockFreeQueue.storeNext_next _ dummyNode none) dummyNode).trans
      (Function.update_self ..)
  · rw [hHands, QueueLists.published, hLimbo]
    rfl

/-- A tag that did not wrap has grown. -/
theorem tag_lt {tag : UInt64} (h : tag ≤ tag + 1) : tag < tag + 1 := by
  refine UInt64.lt_of_le_of_ne h ?_
  intro hSame
  simp at hSame

omit [DecidableEq Thread] in
/-- What the thread relies on after its step, and what the step was. -/
theorem QueueSystem.Shaped.moves {fresh : Option Node} (h : s.Shaped lists)
    (hStep : (s.threads t).step s.queue fresh = some a) :
    a.pc.Sound a.queue lists.main lists.published lists.stamp ∧ (s.threads t).Moves s.queue a := by
  obtain ⟨d, later, _, hDummy⟩ := h.main_eq
  have hSound := h.sound t
  cases hPc : s.threads t with
  | idle | crashed =>
      rw [hPc] at hStep
      cases hStep
  | enqueue v pc =>
      rw [hPc] at hStep hSound
      exact ⟨EnqueuePc.step_sound hSound h.tail (fun m => QueueLists.published_of_main) hStep,
        EnqueuePc.moves hSound hStep⟩
  | tryDequeue pc =>
      rw [hPc] at hStep hSound
      cases hStep
      obtain ⟨m, hm, hTailNode⟩ := h.tail
      refine ⟨DequeuePc.step_sound hSound ⟨d, hDummy⟩ ⟨m, hTailNode⟩ ?_, DequeuePc.moves hSound⟩
      exact fun n k hn hk => (h.next_mem (h.tail_mem hn) hk).2

/-- One step keeps every rented node in one place. -/
theorem QueueSystem.Shaped.run {fresh : Option Node} (h : s.Shaped lists)
    (hStep : (s.threads t).step s.queue fresh = some a)
    (hHead : s.queue.mHead.UID ≤ a.queue.mHead.UID) (hTail : s.queue.mTail.UID ≤ a.queue.mTail.UID) :
    ∃ lists', (s.advance t a).Shaped lists' ∧
      lists'.published + (s.threads t).takes s.queue =
        lists.published + (s.threads t).publishes ∧
      ∀ n ∈ lists.published, a.queue.data n = s.queue.data n := by
  obtain ⟨hSelf, hMoves⟩ := h.moves hStep
  generalize hPc : s.threads t = pc at hMoves
  cases hMoves with
  | quiet used hQueue hPublished hHand hPublishes hTakes =>
      have hShaped := h.keep (t := t) (a := a) (by rw [hQueue]) (by rw [hQueue]; rfl)
        (.inl (by rw [hQueue])) (by rw [hQueue]; exact h.nodup) (by rw [hQueue, hHand, hPc])
        (by rw [hPublished, hPc]) (fun _ _ => by rw [hQueue]; rfl) hSelf
      exact ⟨lists, hShaped, by rw [hPublishes, hTakes], fun _ _ => by rw [hQueue]; rfl⟩
  | moveTail next hQueue hNext hPublished hHand hPublishes hTakes =>
      obtain ⟨m, hm, hTailNode⟩ := h.tail
      have hLater := h.next_mem hm (hNext m hTailNode)
      have hMoved : s.queue.mTail.UID < a.queue.mTail.UID := by
        rw [hQueue] at hTail ⊢
        exact tag_lt hTail
      have hShaped := h.keep (t := t) (a := a) (by rw [hQueue]; rfl) (by rw [hQueue]; rfl)
        (.inr ⟨hMoved, next, hLater.1, by rw [hQueue]; rfl, hLater.2⟩)
        (by rw [hQueue]; exact h.nodup) (by rw [hQueue, hHand, hPc]; rfl)
        (by rw [hPublished, hPc]) (fun _ _ => by rw [hQueue]; rfl) hSelf
      exact ⟨lists, hShaped, by rw [hPublishes, hTakes], fun _ _ => by rw [hQueue]; rfl⟩
  | rent hFresh =>
      have hShaped := h.keep (t := t) rfl rfl (.inl rfl) (Multiset.nodup_cons.mpr ⟨hFresh, h.nodup⟩)
        (by
          rw [hPc]
          simp only [QueuePc.hand]
          rw [add_zero, ← Multiset.singleton_add, add_comm])
        (by rw [hPc]; rfl) (fun _ _ => rfl) hSelf
      exact ⟨lists, hShaped, rfl, fun _ _ => rfl⟩
  | @storeData v n =>
      have hHand : n ∈ (s.threads t).hand := by
        rw [hPc]
        exact Multiset.mem_singleton_self n
      have hData : ∀ m, m ≠ n → (s.queue.storeData n v).data m = s.queue.data m := by
        intro m hm
        rw [s.queue.storeData_data, Function.update_of_ne hm]
      have hShaped := h.keep (t := t) rfl (s.queue.storeData_next n v) (.inl rfl) h.nodup
        (by rw [hPc]; rfl) (by rw [hPc]; rfl)
        (fun m hm => hData m fun hSame => hm (hSame ▸ hHand)) hSelf
      refine ⟨lists, hShaped, rfl, fun m hm => hData m ?_⟩
      rintro rfl
      exact (h.hand_apart hHand).1 hm
  | @storeNext v n =>
      obtain ⟨hShaped, hPublished⟩ := h.storeNext hPc
      refine ⟨_, hShaped, ?_, fun m _ => congrFun (s.queue.storeNext_data n none) m⟩
      rw [hPublished, ← Multiset.singleton_add, add_comm ({n} : Multiset Node)]
      exact add_zero _
  | @link v n m snapshotTail hEnd =>
      obtain ⟨lists', hShaped, hPublished⟩ := h.link hPc hEnd fun _ => hSelf
      refine ⟨lists', hShaped, ?_, fun k _ => congrFun (s.queue.storeNext_data m (some n)) k⟩
      rw [hPublished]
      rfl
  | @take v n next hHeadNode =>
      obtain ⟨_, _, lists', hShaped, hPublished⟩ := h.take hPc hHeadNode (tag_lt hHead)
      refine ⟨lists', hShaped, ?_, fun _ _ => rfl⟩
      rw [hPublished, ← Multiset.singleton_add, add_comm ({n} : Multiset Node)]
      simp [QueuePc.takes, QueuePc.publishes, hHeadNode]
  | @giveBack v n =>
      have hHand : n ∈ s.queue.rented := h.rented_of_hand (t := t) (by
        rw [hPc]
        exact Multiset.mem_singleton_self n)
      have hShaped := h.keep (t := t) rfl rfl (.inl rfl) (h.nodup.erase n)
        (by
          rw [hPc]
          simp only [QueuePc.hand]
          rw [add_zero, add_comm, Multiset.singleton_add, Multiset.cons_erase hHand])
        (by rw [hPc]; rfl) (fun _ _ => rfl) hSelf
      exact ⟨lists, hShaped, rfl, fun _ _ => rfl⟩

end Moving

end NfNetwork.Collections
