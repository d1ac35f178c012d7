import NfNetwork.Machinery.Retry
import NfNetwork.ObjectPool.ObjectPoolLockFree
import Mathlib.Data.Fintype.Card

/-! `ObjectPoolLockFree` makes progress. A `Rent` or `Return` goes round its loop again only if
another thread has replaced `mHead`, so all threads together take a bounded number of steps for
each call, whatever the schedule. -/
namespace NfNetwork.ObjectPool

open Machinery

variable {Thread Node : Type} [DecidableEq Node]

/-- The steps left of a `Rent` that nobody interferes with. -/
def RentPc.left : RentPc Node → Nat
  | .decrementCachedSize => 7
  | .incrementCachedSize => 5
  | .allocateFreeBlockNodes => 4
  | .incrementMaxCapacity _ => 3
  | .loadNode => 6
  | .loadUID _ => 5
  | .loadNext _ => 4
  | .compareExchange _ _ => 3
  | .construct _ => 2
  | .incrementUsedSize _ => 1

def ReturnPc.left : ReturnPc Node → Nat
  | .destroy _ => 7
  | .loadNode _ => 6
  | .loadUID _ _ => 5
  | .storeNext _ _ => 4
  | .compareExchange _ _ => 3
  | .incrementCachedSize => 2
  | .decrementUsedSize => 1

/-- The places from which the compare-exchange may still come. -/
def RentPc.replaces : RentPc Node → Bool
  | .decrementCachedSize | .loadNode | .loadUID _ | .loadNext _ | .compareExchange _ _ => true
  | _ => false

def ReturnPc.replaces : ReturnPc Node → Bool
  | .incrementCachedSize | .decrementUsedSize => false
  | _ => true

/-- The part of the snapshot that has been loaded is not in `mHead` any more. -/
def RentPc.stale (head : Indexer Node) : RentPc Node → Bool
  | .loadUID node => node ≠ head.Node
  | .loadNext headSnapshot | .compareExchange headSnapshot _ => headSnapshot ≠ head
  | _ => false

def ReturnPc.stale (head : Indexer Node) : ReturnPc Node → Bool
  | .loadUID _ node => node ≠ head.Node
  | .storeNext _ headSnapshot | .compareExchange _ headSnapshot => headSnapshot ≠ head
  | _ => false

/-- `Rent` and `Return` as operations that retry on `mHead`. -/
def poolRetrying : Retrying (Indexer Node) (PoolPc Node) where
  left
    | .rent pc => pc.left
    | .giveBack pc => pc.left
    | .idle | .crashed => 0
  replaces
    | .rent pc => pc.replaces
    | .giveBack pc => pc.replaces
    | .idle | .crashed => false
  stale head
    | .rent pc => pc.stale head
    | .giveBack pc => pc.stale head
    | .idle | .crashed => false

section Steps

variable {pool : ObjectPoolLockFree Node} {others : Nat}

omit [DecidableEq Node] in
/-- A snapshot whose `UID` is current is stale through its node. -/
theorem Indexer.mk_eq_iff {head : Indexer Node} {node : Option Node} :
    (⟨head.UID, node⟩ : Indexer Node) = head ↔ node = head.Node := by
  cases head
  simp

attribute [local simp] poolRetrying RentPc.left RentPc.replaces RentPc.stale ReturnPc.left
  ReturnPc.replaces ReturnPc.stale Indexer.mk_eq_iff

/-- A failed compare-exchange had a stale snapshot and takes a fresh one, a successful one pays
for what it makes stale, and every other step leaves `mHead` alone. -/
theorem RentPc.step_pays {pc : RentPc Node} {block : Option Node} {a : PoolAdvance Node}
    (h : pc.step pool block = some a) :
    poolRetrying.Pays 2 others pool.mHead (.rent pc) a.pool.mHead a.pc := by
  cases pc with
  | decrementCachedSize =>
      cases h
      split
      · exact .goesOn (by simp) id (fun _ => rfl)
      · exact .goesOn (by simp) id id
  | allocateFreeBlockNodes =>
      simp only [RentPc.step] at h
      repeat' split at h
      all_goals cases h
      all_goals exact .goesOn (by simp) id id
  | loadNode =>
      cases h
      exact .goesOn (by simp) (by simp) id
  | loadUID node =>
      cases h
      exact .goesOn (by simp) (by simp) id
  | loadNext headSnapshot =>
      simp only [RentPc.step] at h
      split at h <;> cases h
      · exact .goesOn (by simp) (by simp) (fun _ => rfl)
      · exact .goesOn (by simp) id id
  | compareExchange headSnapshot next =>
      simp only [RentPc.step] at h
      cases hExchange : pool.compareExchangeHead next headSnapshot with
      | error head =>
          obtain ⟨hStale, rfl⟩ := ObjectPoolLockFree.compareExchangeHead_eq_error.mp hExchange
          simp only [hExchange] at h
          cases h
          exact .goesRound (by simp) (by simp [Ne.symm hStale]) (by simp) rfl
      | ok pool' =>
          obtain ⟨hHead, rfl⟩ := ObjectPoolLockFree.compareExchangeHead_eq_ok.mp hExchange
          simp only [hExchange] at h
          split at h <;> cases h
          · exact .replacesCell (by simp) rfl rfl rfl
          · exact .replacesCell (by simp) rfl rfl rfl
  | construct allocBlockNode =>
      simp only [RentPc.step] at h
      split at h <;> cases h
      · split
        · exact .goesOn (by simp) id id
        · exact .goesOn (by simp) id id
      · exact .goesOn (by simp) id id
  | incrementCachedSize | incrementMaxCapacity _ | incrementUsedSize _ =>
      cases h
      exact .goesOn (by simp) id id

theorem ReturnPc.step_pays (pc : ReturnPc Node) :
    poolRetrying.Pays 2 others pool.mHead (.giveBack pc) (pc.step pool).pool.mHead
      (pc.step pool).pc := by
  cases pc with
  | destroy curNode =>
      simp only [ReturnPc.step]
      repeat' split
      all_goals exact .goesOn (by simp) id (fun _ => rfl)
  | loadNode curNode => exact .goesOn (by simp [ReturnPc.step]) (by simp [ReturnPc.step]) id
  | loadUID curNode node => exact .goesOn (by simp [ReturnPc.step]) (by simp [ReturnPc.step]) id
  | compareExchange curNode headSnapshot =>
      simp only [ReturnPc.step]
      cases hExchange : pool.compareExchangeHead (some curNode) headSnapshot with
      | error head =>
          obtain ⟨hStale, rfl⟩ := ObjectPoolLockFree.compareExchangeHead_eq_error.mp hExchange
          exact .goesRound (by simp) (by simp [Ne.symm hStale]) (by simp) rfl
      | ok pool' =>
          obtain ⟨hHead, rfl⟩ := ObjectPoolLockFree.compareExchangeHead_eq_ok.mp hExchange
          exact .replacesCell (by simp) rfl rfl rfl
  | storeNext _ _ | incrementCachedSize | decrementUsedSize =>
      exact .goesOn (by simp [ReturnPc.step]) id id

theorem PoolPc.step_pays {pc : PoolPc Node} {block : Option Node} {a : PoolAdvance Node}
    (h : pc.step pool block = some a) :
    poolRetrying.Pays 2 others pool.mHead pc a.pool.mHead a.pc := by
  cases pc with
  | idle => cases h
  | rent pc => exact pc.step_pays h
  | giveBack pc =>
      cases h
      exact pc.step_pays
  | crashed => cases h

end Steps

def PoolAction.calls : PoolAction Thread Node → Bool
  | .callRent _ | .callReturn _ _ => true
  | .run _ _ => false

namespace PoolSystem

variable [DecidableEq Thread] [Fintype Thread] {s s' : PoolSystem Thread Node}

/-- What all calls in progress may still cost. -/
def potential (s : PoolSystem Thread Node) : Nat := poolRetrying.potential 2 s.pool.mHead s.threads

theorem call_pays {t : Thread} {pc : PoolPc Node} (hIdle : s.threads t = .idle)
    (hCost : poolRetrying.cost 2 (Fintype.card Thread - 1) s.pool.mHead pc =
      2 * (Fintype.card Thread - 1) + 7) :
    poolRetrying.potential 2 s.pool.mHead (Function.update s.threads t pc) + 1 ≤
      s.potential + (2 * Fintype.card Thread + 6) := by
  have hCard : 0 < Fintype.card Thread := Fintype.card_pos_iff.mpr ⟨t⟩
  rw [Retrying.potential_calls s.pool.mHead (by simp [hIdle, Retrying.cost, poolRetrying]), hCost,
    potential]
  omega

theorem step_pays {a : PoolAction Thread Node} (h : s.step a = some s') :
    s'.potential + 1 ≤ s.potential + if a.calls then 2 * Fintype.card Thread + 6 else 0 := by
  cases a with
  | callRent t =>
      simp only [step] at h
      split at h
      · rename_i hIdle
        cases h
        refine call_pays hIdle ?_
        rw [Retrying.cost_of_calls rfl rfl]
        exact Nat.add_comm 7 _
      · cases h
  | callReturn t ptrT =>
      simp only [step] at h
      split at h
      · cases h
        simp [PoolAction.calls]
      · rename_i n hIdle
        split at h
        · cases h
          refine call_pays hIdle ?_
          rw [Retrying.cost_of_calls rfl rfl]
          exact Nat.add_comm 7 _
        · cases h
      · cases h
  | run t block =>
      obtain ⟨a, hStep, rfl⟩ := Option.map_eq_some_iff.mp h
      exact Retrying.potential_pays (PoolPc.step_pays hStep)

omit [DecidableEq Thread] in
theorem potential_idle (hIdle : ∀ t, s.threads t = .idle) : s.potential = 0 :=
  crewTotal_eq_zero fun t => by simp [hIdle t, Retrying.cost, poolRetrying]

/-- However the threads are scheduled, `n` of them take at most `2 n + 6` steps for each call,
its own included. -/
theorem length_le_of_idle {actions : List (PoolAction Thread Node)} (hIdle : ∀ t, s.threads t = .idle)
    (hRun : exec step s actions = some s') :
    actions.length ≤ (2 * Fintype.card Thread + 6) * actions.countP PoolAction.calls := by
  have hLength := length_le_of_pays potential step_pays hRun
  rw [potential_idle hIdle] at hLength
  omega

/-- `n` steps of one thread. -/
def goes (t : Thread) (n : Nat) (block : Option Node) : List (PoolAction Thread Node) :=
  List.replicate n (.run t block)

/-- Two threads rent a new block each. One is about to give its block back when the other does, and
has to go round again. -/
def contendedRun : List (PoolAction Bool (Fin 2)) :=
  ([.callRent false] : List (PoolAction Bool (Fin 2))) ++ goes false 6 (some 0) ++
    ([.callRent true] : List (PoolAction Bool (Fin 2))) ++ goes true 6 (some 1) ++
    ([.callReturn false (some 0)] : List (PoolAction Bool (Fin 2))) ++ goes false 4 none ++
    ([.callReturn true (some 1)] : List (PoolAction Bool (Fin 2))) ++ goes true 7 none ++
    goes false 5 none

theorem length_le_of_idle_contended :
    contendedRun.length ≤
      (2 * Fintype.card Bool + 6) * contendedRun.countP PoolAction.calls ∧
    contendedRun.length = 32 ∧ contendedRun.countP PoolAction.calls = 4 := by
  have hRuns : (exec step (start 0 .None fun _ => ⟨none, 0, false, 0⟩ : PoolSystem Bool (Fin 2))
      contendedRun).isSome = true := by
    decide +kernel
  obtain ⟨s, hRun⟩ := Option.isSome_iff_exists.mp hRuns
  exact ⟨length_le_of_idle (fun _ => rfl) hRun, rfl, rfl⟩

end PoolSystem

end NfNetwork.ObjectPool
