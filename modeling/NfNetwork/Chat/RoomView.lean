import NfNetwork.Chat.Wire

/-! The room that the chat's maps, user objects and sector lists stand for, and who hears a
broadcast. -/
namespace NfNetwork.Chat

open Machinery Handler

/-- A listener in the grid, at most one cell away in each direction. A user that has not moved yet
speaks from `(-1, -1)`, which is next to the first cell, and hears nobody. -/
def hears (speaker listener : Int2) : Prop :=
  InGrid listener ∧ -1 ≤ listener.x - speaker.x ∧ listener.x - speaker.x ≤ 1 ∧
    -1 ≤ listener.y - speaker.y ∧ listener.y - speaker.y ≤ 1

def ChatUser.member (user : ChatUser) : Member Int64 (List UInt8) Int2 where
  accountNo := user.accountNo
  id := textOf user.id.val
  nickname := textOf user.nickname.val
  sectorPos := user.curSectorPos

abbrev ChatRoom : Type := Room Nat Int64 (List UInt8) Int2

variable {Node : Type}

/-- Who is logged in. -/
def EventHandler.room (s : EventHandler Node) : ChatRoom := fun k =>
  (s.userManager.sessionUserMap.lookup k).map fun user => (s.users user).member

/-- The sessions in the list of a position. -/
def EventHandler.standing (s : EventHandler Node) (around : Int2) : List Nat :=
  ((cellOf around).elim [] s.sectorManager.sector).map fun user => (s.users user).sessionId

/-- The sessions that a broadcast from a position goes to, in order. -/
def EventHandler.receivers (s : EventHandler Node) (sectorPos : Int2) : List Nat :=
  (getSectorAround sectorPos).flatMap s.standing

/-- What a client of a session has found in the packets that were sent to it, in order. -/
def EventHandler.heard (s : EventHandler Node) (k : Nat) : List (Option ChatReply) :=
  (s.sent.filter fun call => call.1 = k).map fun call => Reply.parse call.2.body

/-- No call of `mSender.SendPacket` so far has let an exception out. -/
def EventHandler.SendsReturned (env : Env Node) (s : EventHandler Node) : Prop :=
  ∀ n < s.sent.length, env.sendThrows n = false

section Grid

theorem mem_getSectorAround {sectorPos around : Int2} :
    around ∈ getSectorAround sectorPos ↔ hears sectorPos around := by
  obtain ⟨x, y⟩ := around
  simp only [getSectorAround, List.mem_flatMap, List.mem_map, List.mem_filter, decide_eq_true_eq,
    List.mem_cons, List.not_mem_nil, or_false, hears, InGrid, Int2.mk.injEq]
  constructor
  · rintro ⟨y', ⟨hRow, hHeight⟩, x', ⟨hColumn, hWidth⟩, rfl, rfl⟩
    omega
  · rintro ⟨⟨hx, hWidth, hy, hHeight⟩, hLeft, hRight, hUp, hDown⟩
    exact ⟨y, ⟨by omega, hy, hHeight⟩, x, ⟨by omega, hx, hWidth⟩, rfl, rfl⟩

theorem getSectorAround_nodup (sectorPos : Int2) : (getSectorAround sectorPos).Nodup := by
  have hThree (n : Int) : [n - 1, n, n + 1].Nodup := by
    simp
    omega
  have hRows := (hThree sectorPos.y).filter fun y => decide (0 ≤ y ∧ y < (dfSECTOR_Y_MAX : Int))
  have hColumns := (hThree sectorPos.x).filter fun x => decide (0 ≤ x ∧ x < (dfSECTOR_X_MAX : Int))
  refine List.nodup_flatMap.mpr ⟨fun y _ => ?_, hRows.imp fun {y y'} hne => ?_⟩
  · exact hColumns.map fun x x' hSame => congrArg Int2.x hSame
  · intro pos hPos hPos'
    obtain ⟨x, _, rfl⟩ := List.mem_map.mp hPos
    obtain ⟨x', _, hSame⟩ := List.mem_map.mp hPos'
    exact hne (congrArg Int2.y hSame).symm

theorem cellOf_injective {pos pos' : Int2} {cell : Cell} (h : InGrid pos) (h' : InGrid pos')
    (hCell : cellOf pos = some cell) (hCell' : cellOf pos' = some cell) : pos = pos' := by
  obtain ⟨x, y⟩ := pos
  obtain ⟨x', y'⟩ := pos'
  obtain ⟨hx, hWidth, hy, hHeight⟩ := h
  obtain ⟨hx', hWidth', hy', hHeight'⟩ := h'
  obtain ⟨_, hIndex⟩ := Option.dite_none_right_eq_some.mp hCell
  obtain ⟨_, hIndex'⟩ := Option.dite_none_right_eq_some.mp hCell'
  have hSame := congrArg Fin.val (Option.some.inj (hIndex.trans hIndex'.symm))
  simp only [dfSECTOR_X_MAX, dfSECTOR_Y_MAX] at *
  rw [Int2.mk.injEq]
  omega

end Grid

variable [DecidableEq Node] {s s' : EventHandler Node}

omit [DecidableEq Node] in
theorem not_sendsReturned_of_throws {env : Env Node} {call : Nat × Packet netLayout}
    (hThrows : env.sendThrows s.sent.length = true) (hSent : s'.sent = s.sent ++ [call]) :
    ¬ s'.SendsReturned env := by
  intro hReturned
  have hLast := hReturned s.sent.length (by rw [hSent, List.length_append]; exact Nat.lt_succ_self _)
  rw [hThrows] at hLast
  cases hLast

omit [DecidableEq Node] in
/-- What a broadcast sends, to whom and in which order. -/
theorem sendAround_sends (env : Env Node) {sectorPos : Int2} {packet : Packet netLayout} :
    Ends (sendAround env sectorPos packet) s
      (fun _ s' => s' = { s with sent := s.sent ++ (s.receivers sectorPos).map (fun k => (k, packet)) })
      fun stop s' => stop = .thrown .invalidArgument ∧ ¬ s'.SendsReturned env ∧
        ∃ told : List Nat, s' = { s with sent := s.sent ++ told.map (fun k => (k, packet)) } := by
  refine ends_forM_done (fun done s' => s' = { s with
    sent := s.sent ++ (done.flatMap s.standing).map (fun k => (k, packet)) }) ?_
    (show s = _ by simp)
  rintro done around later hSplit _ rfl
  obtain ⟨cell, hCell⟩ := cellOf_isSome (inGrid_of_mem_getSectorAround
    (hSplit ▸ List.mem_append_right done (List.mem_cons_self ..)))
  simp only [getSectorUsersInSector, hCell, ends_bind, ends_pure, ends_get]
  refine (ends_forM_done (fun told s' => s' = { s with
    sent := s.sent ++ (done.flatMap s.standing).map (fun k => (k, packet)) ++
      told.map (fun user => ((s.users user).sessionId, packet)) }) ?_ (by simp)).mono ?_ fun _ _ h => h
  · rintro told user _ _ _ rfl
    refine ends_sendPacket (fun _ => by simp) fun hThrows =>
      ⟨rfl, not_sendsReturned_of_throws hThrows rfl, done.flatMap s.standing ++
        told.map (fun user => (s.users user).sessionId) ++ [(s.users user).sessionId], ?_⟩
    simp
  · rintro _ _ rfl
    simp [EventHandler.standing, hCell]

/-- A user of a list has its position there. -/
theorem EventHandler.Consistent.standsIn (h : s.Consistent) (hBounds : s.InBounds) {user : Node}
    {around : Int2} (hAround : InGrid around)
    (hMem : user ∈ (cellOf around).elim [] s.sectorManager.sector) :
    s.Live user ∧ (s.users user).curSectorPos = around := by
  obtain ⟨cell, hCell⟩ := cellOf_isSome hAround
  rw [hCell] at hMem
  obtain ⟨hLive, hStands⟩ := h.sectors.mem_iff.mp hMem
  refine ⟨hLive, ?_⟩
  rcases hBounds user hLive with hNowhere | hIn
  · rw [hNowhere, cellOf_invalidSectorPos] at hStands
    cases hStands
  · exact cellOf_injective hIn hAround hStands hCell

theorem EventHandler.Consistent.mem_receivers (h : s.Consistent) (hBounds : s.InBounds) {sectorPos : Int2}
    {k : Nat} : k ∈ s.receivers sectorPos ↔
      ∃ listener, s.room k = some listener ∧ hears sectorPos listener.sectorPos := by
  simp only [receivers, standing, List.mem_flatMap, List.mem_map, mem_getSectorAround, room,
    Option.map_eq_some_iff]
  constructor
  · rintro ⟨around, hHears, user, hMem, rfl⟩
    obtain ⟨hLive, rfl⟩ := h.standsIn hBounds hHears.1 hMem
    exact ⟨_, ⟨user, h.sessions.lookup_key hLive, rfl⟩, hHears⟩
  · rintro ⟨_, ⟨user, hFound, rfl⟩, hHears⟩
    obtain ⟨hLive, hKey⟩ := (h.sessions k user).mp hFound
    obtain ⟨cell, hCell⟩ := cellOf_isSome hHears.1
    refine ⟨_, hHears, user, ?_, hKey⟩
    change user ∈ (cellOf (s.users user).curSectorPos).elim [] s.sectorManager.sector
    change cellOf (s.users user).curSectorPos = some cell at hCell
    rw [hCell]
    exact h.sectors.mem_iff.mpr ⟨hLive, hCell⟩

/-- Nobody is sent a broadcast twice. -/
theorem EventHandler.Consistent.receivers_nodup (h : s.Consistent) (hBounds : s.InBounds)
    (sectorPos : Int2) : (s.receivers sectorPos).Nodup := by
  refine List.nodup_flatMap.mpr ⟨fun around hAround => ?_,
    (getSectorAround_nodup sectorPos).imp_of_mem fun {around around'} hAround hAround' hne => ?_⟩
  · have hIn := (mem_getSectorAround.mp hAround).1
    obtain ⟨cell, hCell⟩ := cellOf_isSome hIn
    refine List.Nodup.map_on (fun user hUser user' hUser' hSame => ?_) ?_
    · exact h.sessions.key_injective (h.standsIn hBounds hIn hUser).1
        (h.standsIn hBounds hIn hUser').1 hSame
    · rw [hCell]
      refine List.nodup_iff_count_le_one.mpr fun user => ?_
      change List.count user (s.sectorManager.sector cell) ≤ 1
      by_cases hStands : s.StandsIn user cell
      · exact Nat.le_of_eq (h.sectors.once hStands)
      · rw [List.count_eq_zero.mpr (h.sectors.nowhere hStands)]
        exact Nat.zero_le _
  · intro k hMem hMem'
    obtain ⟨user, hUser, rfl⟩ := List.mem_map.mp hMem
    obtain ⟨user', hUser', hSame⟩ := List.mem_map.mp hMem'
    obtain ⟨hLive, hPos⟩ := h.standsIn hBounds (mem_getSectorAround.mp hAround).1 hUser
    obtain ⟨hLive', hPos'⟩ := h.standsIn hBounds (mem_getSectorAround.mp hAround').1 hUser'
    obtain rfl := h.sessions.key_injective hLive hLive' hSame.symm
    exact hne (hPos.symm.trans hPos')

end NfNetwork.Chat
