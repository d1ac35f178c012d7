import NfNetwork.Chat.EventHandler
import NfNetwork.Machinery.Index

/-! The four structures of the chat that have to agree: the two maps, the sector lists and the
user pool. Each operation keeps them in agreement, whatever the client sent. -/
namespace NfNetwork.Chat

open Machinery ObjectPool

variable {Node : Type}

/-- A cell of the grid. -/
def InGrid (pos : Int2) : Prop :=
  0 ≤ pos.x ∧ pos.x < dfSECTOR_X_MAX ∧ 0 ≤ pos.y ∧ pos.y < dfSECTOR_Y_MAX

instance (pos : Int2) : Decidable (InGrid pos) := inferInstanceAs (Decidable (_ ∧ _ ∧ _ ∧ _))

/-- A position of the grid has its cell. -/
theorem cellOf_isSome {pos : Int2} (h : InGrid pos) : ∃ cell, cellOf pos = some cell := by
  obtain ⟨hx, hWidth, hy, hHeight⟩ := h
  refine ⟨_, dif_pos ?_⟩
  simp only [dfSECTOR_X_MAX, dfSECTOR_Y_MAX] at *
  omega

/-- The invalid position has none. -/
theorem cellOf_invalidSectorPos : cellOf invalidSectorPos = none := by decide

namespace EventHandler

/-- The users that are logged in. -/
def Live (s : EventHandler Node) (user : Node) : Prop :=
  ∃ sessionId, s.userManager.sessionUserMap.lookup sessionId = some user

/-- Where the sector lists should have a user. -/
def StandsIn (s : EventHandler Node) (user : Node) (cell : Cell) : Prop :=
  s.Live user ∧ cellOf (s.users user).curSectorPos = some cell

structure Consistent [DecidableEq Node] (s : EventHandler Node) : Prop where
  sessions : Indexed s.userManager.sessionUserMap (fun user => (s.users user).sessionId) s.Live
  accounts : Indexed s.userManager.accountUserMap (fun user => (s.users user).accountNo) s.Live
  sectors : Filed s.sectorManager.sector s.StandsIn
  pool : s.userManager.userPool.Lends s.Live

/-- Every position is none yet or a cell. -/
def InBounds (s : EventHandler Node) : Prop :=
  ∀ user, s.Live user → (s.users user).curSectorPos = invalidSectorPos ∨
    InGrid (s.users user).curSectorPos

/-- The job only talked: the chat's own structures are as they were. -/
structure SameUsers (s s' : EventHandler Node) : Prop where
  userManager : s'.userManager = s.userManager
  sectorManager : s'.sectorManager = s.sectorManager
  users : s'.users = s.users

variable {s s' s'' : EventHandler Node}

theorem SameUsers.refl (s : EventHandler Node) : s.SameUsers s := ⟨rfl, rfl, rfl⟩

theorem SameUsers.trans (h : s.SameUsers s') (h' : s'.SameUsers s'') : s.SameUsers s'' :=
  ⟨h'.userManager.trans h.userManager, h'.sectorManager.trans h.sectorManager,
    h'.users.trans h.users⟩

/-- Who lives is up to the users. -/
theorem SameUsers.live_iff (h : s.SameUsers s') {user : Node} : s'.Live user ↔ s.Live user := by
  rw [Live, Live, h.userManager]

/-- And so is whether the maps and sectors agree. -/
theorem SameUsers.consistent [DecidableEq Node] (h : s.SameUsers s') (hs : s.Consistent) :
    s'.Consistent := by
  obtain ⟨_, ⟨_, _, _⟩, ⟨_⟩, _, _, _, _⟩ := s
  obtain ⟨_, ⟨_, _, _⟩, ⟨_⟩, _, _, _, _⟩ := s'
  obtain ⟨⟨⟩, ⟨⟩, ⟨⟩⟩ := h
  exact ⟨hs.sessions, hs.accounts, hs.sectors, hs.pool⟩

/-- And whether everybody stands in the grid. -/
theorem SameUsers.inBounds (h : s.SameUsers s') (hs : s.InBounds) : s'.InBounds := by
  intro user hLive
  rw [h.users]
  exact hs user (h.live_iff.mp hLive)

end EventHandler

variable [DecidableEq Node] {env : Env Node} {s s' : EventHandler Node} {user : Node}

/-- What a login leaves when it succeeds. -/
structure LoggedIn (s s' : EventHandler Node) (user : Node) (sessionId : Nat) (accountNo : Int64) :
    Prop where
  new : ¬ s.Live user
  live : ∀ {u}, s'.Live u ↔ s.Live u ∨ u = user
  sessionId : (s'.users user).sessionId = sessionId
  accountNo : (s'.users user).accountNo = accountNo
  curSectorPos : (s'.users user).curSectorPos = invalidSectorPos
  others : ∀ {u}, u ≠ user → s'.users u = s.users u

/-- A new user stands nowhere. -/
theorem LoggedIn.inBounds {sessionId : Nat} {accountNo : Int64}
    (h : LoggedIn s s' user sessionId accountNo) (hs : s.InBounds) : s'.InBounds := by
  intro u hLive
  by_cases hEq : u = user
  · rw [hEq]
    exact .inl h.curSectorPos
  · rw [h.others hEq]
    exact hs u ((h.live.mp hLive).resolve_right hEq)

/-- `AddUser` fails, changing nothing, exactly when one of the two keys is taken. -/
theorem addUser_ends {sessionId : Nat} {q : CsChatReqLogin} (h : s.Consistent) :
    Ends (addUser env sessionId q) s
      (fun found s' =>
        (found = none ∧ s' = s ∧ (sessionId ∈ s.userManager.sessionUserMap ∨
          q.accountNo ∈ s.userManager.accountUserMap)) ∨
        ∃ user, found = some user ∧ sessionId ∉ s.userManager.sessionUserMap ∧
          q.accountNo ∉ s.userManager.accountUserMap ∧ s'.Consistent ∧
          LoggedIn s s' user sessionId q.accountNo ∧ s'.sent = s.sent)
      fun stop _ => stop = .ended .invalidParameter := by
  simp only [addUser, ends_bind, ends_get]
  by_cases hSession : sessionId ∈ s.userManager.sessionUserMap
  · simp [hSession]
  by_cases hAccount : q.accountNo ∈ s.userManager.accountUserMap
  · simp [hSession, hAccount]
  rw [if_neg hSession, if_neg hAccount]
  obtain ⟨hNew, hPool⟩ := h.pool.rent (A := env.allocator)
  generalize hRent : s.userManager.userPool.rent env.allocator = rented at hNew hPool
  obtain ⟨user, userPool⟩ := rented
  change ¬ s.Live user at hNew
  cases hObject : (s.users user).construct sessionId q with
  | none => simp
  | some object =>
      obtain ⟨hAccountNo, hSessionId, hPos⟩ := ChatUser.construct_keys hObject
      simp only [ends_bind, ends_set, ends_pure]
      have hOthers {u : Node} (hLive : s.Live u) :
          Function.update s.users user object u = s.users u := by
        apply Function.update_of_ne
        rintro rfl
        exact hNew hLive
      have hSelf : Function.update s.users user object user = object := Function.update_self ..
      have hSessions : Indexed (insertNew s.userManager.sessionUserMap sessionId user)
          (fun u => (Function.update s.users user object u).sessionId)
          fun u => s.Live u ∨ u = user := by
        rw [insertNew, if_neg hSession]
        exact (h.sessions.congr (fun _ => Iff.rfl) fun u hLive => by rw [hOthers hLive]).insert hNew
          (by rw [hSelf, hSessionId]) hSession
      have hAccounts : Indexed (insertNew s.userManager.accountUserMap object.accountNo user)
          (fun u => (Function.update s.users user object u).accountNo)
          fun u => s.Live u ∨ u = user := by
        rw [insertNew, hAccountNo, if_neg hAccount]
        exact (h.accounts.congr (fun _ => Iff.rfl) fun u hLive => by rw [hOthers hLive]).insert hNew
          (by rw [hSelf, hAccountNo]) hAccount
      have hLive {u : Node} : (∃ k, (insertNew s.userManager.sessionUserMap sessionId user).lookup k =
          some u) ↔ s.Live u ∨ u = user := hSessions.exists_lookup_iff
      refine .inr ⟨user, rfl, hSession, hAccount, ⟨?_, ?_, ?_, ?_⟩, ?_, trivial⟩
      · exact hSessions.congr (fun _ => hLive) fun _ _ => rfl
      · exact hAccounts.congr (fun _ => hLive) fun _ _ => rfl
      · refine h.sectors.congr fun u cell => ?_
        rw [EventHandler.StandsIn, EventHandler.StandsIn, EventHandler.Live, hLive]
        constructor
        · rintro ⟨hu | rfl, hStands⟩
          · exact ⟨hu, by rwa [← hOthers hu]⟩
          · change cellOf (Function.update s.users u object u).curSectorPos = some cell at hStands
            rw [hSelf, hPos, cellOf_invalidSectorPos] at hStands
            cases hStands
        · rintro ⟨hu, hStands⟩
          exact ⟨.inl hu, by rwa [← hOthers hu] at hStands⟩
      · exact hPool.congr fun _ => hLive
      · exact {
          new := hNew
          live := hLive
          sessionId := (congrArg ChatUser.sessionId hSelf).trans hSessionId
          accountNo := (congrArg ChatUser.accountNo hSelf).trans hAccountNo
          curSectorPos := (congrArg ChatUser.curSectorPos hSelf).trans hPos
          others := fun hne => Function.update_of_ne hne .. }

omit [DecidableEq Node] in
/-- Who stands somewhere stands in a cell. -/
theorem EventHandler.InBounds.cell (h : s.InBounds) (hLive : s.Live user)
    (hPos : (s.users user).curSectorPos ≠ invalidSectorPos) :
    ∃ cell, cellOf (s.users user).curSectorPos = some cell :=
  cellOf_isSome ((h user hLive).resolve_left hPos)

/-- A user that has not moved yet is in no list. -/
theorem EventHandler.Consistent.nowhere (h : s.Consistent)
    (hPos : (s.users user).curSectorPos = invalidSectorPos) :
    Filed s.sectorManager.sector fun u cell => s.StandsIn u cell ∧ u ≠ user := by
  refine h.sectors.congr fun u cell => and_iff_left_of_imp ?_
  rintro ⟨_, hStands⟩ rfl
  rw [hPos, cellOf_invalidSectorPos] at hStands
  cases hStands

/-- The user leaves the list it is in; the `erase` finds it there. -/
theorem removeSectorUser_ends (h : s.Consistent) (hBounds : s.InBounds) (hLive : s.Live user) :
    Ends (removeSectorUser user) s
      (fun _ s' => ∃ sector, s' = { s with sectorManager := ⟨sector⟩ } ∧
        Filed sector fun u cell => s.StandsIn u cell ∧ u ≠ user)
      fun _ _ => False := by
  simp only [removeSectorUser, ends_bind, ends_get]
  by_cases hPos : (s.users user).curSectorPos = invalidSectorPos
  · rw [if_pos hPos, ends_pure]
    exact ⟨_, rfl, h.nowhere hPos⟩
  · obtain ⟨cell, hCell⟩ := hBounds.cell hLive hPos
    have hMem : user ∈ s.sectorManager.sector cell := h.sectors.mem_iff.mpr ⟨hLive, hCell⟩
    simp only [if_neg hPos, getSectorUsersInSector, hCell, ends_bind, ends_pure, if_pos hMem,
      ends_set]
    refine ⟨_, rfl, h.sectors.erase fun other hStands => ?_⟩
    exact Option.some.inj (hStands.2.symm.trans hCell)

/-- Where a move has left its user. -/
structure Moved (s s' : EventHandler Node) (user : Node) (destSectorPos : Int2) : Prop where
  live : ∀ {u}, s'.Live u ↔ s.Live u
  curSectorPos : (s'.users user).curSectorPos = destSectorPos
  others : ∀ {u}, u ≠ user → s'.users u = s.users u
  userManager : s'.userManager = s.userManager

/-- A move within the grid stays there. -/
theorem Moved.inBounds {destSectorPos : Int2} (h : Moved s s' user destSectorPos)
    (hs : s.InBounds) (hDest : InGrid destSectorPos) : s'.InBounds := by
  intro u hLive
  by_cases hEq : u = user
  · rw [hEq, h.curSectorPos]
    exact .inr hDest
  · rw [h.others hEq]
    exact hs u (h.live.mp hLive)

/-- `InsertSectorUser` for a user that is in no list. -/
theorem insertSectorUser_ends {sector : Cell → List Node} {destSectorPos : Int2} {cell : Cell}
    (h : s.Consistent) (hLive : s.Live user)
    (hSector : Filed sector fun u cell => s.StandsIn u cell ∧ u ≠ user)
    (hCell : cellOf destSectorPos = some cell) :
    Ends (insertSectorUser user destSectorPos) { s with sectorManager := ⟨sector⟩ }
      (fun _ s' => s'.Consistent ∧ Moved s s' user destSectorPos) fun _ _ => False := by
  simp only [insertSectorUser, getSectorUsersInSector, hCell, ends_bind, ends_pure, ends_modify]
  have hOthers {u : Node} (hne : u ≠ user) :
      Function.update s.users user { s.users user with curSectorPos := destSectorPos } u =
        s.users u := Function.update_of_ne hne ..
  have hSelf : Function.update s.users user { s.users user with curSectorPos := destSectorPos } user =
      { s.users user with curSectorPos := destSectorPos } := Function.update_self ..
  have hKeys (u : Node) :
      (Function.update s.users user { s.users user with curSectorPos := destSectorPos } u).sessionId =
        (s.users u).sessionId ∧
      (Function.update s.users user { s.users user with curSectorPos := destSectorPos } u).accountNo =
        (s.users u).accountNo := by
    by_cases hEq : u = user
    · rw [hEq, hSelf]
      exact ⟨rfl, rfl⟩
    · rw [hOthers hEq]
      exact ⟨rfl, rfl⟩
  refine ⟨⟨?_, ?_, ?_, ?_⟩, ?_⟩
  · exact h.sessions.congr (fun _ => Iff.rfl) fun u _ => (hKeys u).1
  · exact h.accounts.congr (fun _ => Iff.rfl) fun u _ => (hKeys u).2
  · refine (hSector.push fun other hStands => hStands.2 rfl).congr fun u other => ?_
    by_cases hEq : u = user
    · subst hEq
      constructor
      · rintro ⟨_, hStands⟩
        change cellOf (Function.update s.users u _ u).curSectorPos = some other at hStands
        rw [hSelf, hCell] at hStands
        exact .inr ⟨rfl, (Option.some.inj hStands).symm⟩
      · rintro (hStands | ⟨_, rfl⟩)
        · exact absurd rfl hStands.2
        · refine ⟨hLive, ?_⟩
          change cellOf (Function.update s.users u _ u).curSectorPos = _
          rw [hSelf, hCell]
    · constructor
      · rintro ⟨hu, hStands⟩
        exact .inl ⟨⟨hu, by rwa [← hOthers hEq]⟩, hEq⟩
      · rintro (⟨⟨hu, hStands⟩, _⟩ | ⟨hSame, _⟩)
        · exact ⟨hu, by rwa [← hOthers hEq] at hStands⟩
        · exact absurd hSame hEq
  · exact h.pool
  · exact ⟨Iff.rfl, congrArg ChatUser.curSectorPos hSelf, fun hne => hOthers hne, rfl⟩

/-- `TryMove` to an element of `mSector` keeps everything in agreement, even if the element
belongs to another cell. To any other place it leaves the array. -/
theorem tryMove_ends {destSectorPos : Int2} (h : s.Consistent) (hBounds : s.InBounds)
    (hLive : s.Live user) :
    Ends (tryMove user destSectorPos) s
      (fun _ s' => s'.Consistent ∧ Moved s s' user destSectorPos)
      fun stop _ => stop = .ended .sectorOutOfBounds ∧ cellOf destSectorPos = none ∧
        (s.users user).curSectorPos ≠ destSectorPos := by
  simp only [tryMove, ends_bind, ends_get]
  by_cases hPos : (s.users user).curSectorPos = destSectorPos
  · rw [if_pos hPos, ends_pure]
    exact ⟨h, Iff.rfl, hPos, fun _ => rfl, rfl⟩
  have hInsert {sector : Cell → List Node}
      (hSector : Filed sector fun u cell => s.StandsIn u cell ∧ u ≠ user) :
      Ends (do insertSectorUser user destSectorPos; pure true)
        { s with sectorManager := ⟨sector⟩ }
        (fun _ s' => s'.Consistent ∧ Moved s s' user destSectorPos)
        fun stop _ => stop = .ended .sectorOutOfBounds ∧ cellOf destSectorPos = none ∧
          (s.users user).curSectorPos ≠ destSectorPos := by
    rw [ends_bind]
    cases hCell : cellOf destSectorPos with
    | none => simp [insertSectorUser, getSectorUsersInSector, hCell, hPos]
    | some cell =>
        exact (insertSectorUser_ends h hLive hSector hCell).mono (fun _ _ hMoved => hMoved)
          fun _ _ hFalse => hFalse.elim
  rw [if_neg hPos]
  split
  · rw [ends_bind]
    refine (removeSectorUser_ends h hBounds hLive).mono ?_ fun _ _ hFalse => hFalse.elim
    rintro _ _ ⟨sector, rfl, hSector⟩
    exact hInsert hSector
  · rename_i hNowhere
    exact hInsert (h.nowhere (not_not.mp hNowhere))

/-- The cells around a position are in the grid. -/
theorem inGrid_of_mem_getSectorAround {sectorPos around : Int2}
    (h : around ∈ getSectorAround sectorPos) : InGrid around := by
  simp only [getSectorAround, List.mem_flatMap, List.mem_map, List.mem_filter,
    decide_eq_true_eq] at h
  obtain ⟨y, ⟨_, hRow⟩, x, ⟨_, hColumn⟩, rfl⟩ := h
  exact ⟨hColumn.1, hColumn.2, hRow.1, hRow.2⟩

/-- Nothing but this packet was sent, and the chat's own structures are as they were. -/
structure Broadcasts (s s' : EventHandler Node) (packet : Packet netLayout) : Prop where
  sameUsers : s.SameUsers s'
  sent : ∀ call ∈ s'.sent, call ∈ s.sent ∨ call.2 = packet

omit [DecidableEq Node] in
/-- One more packet of a broadcast. -/
theorem Broadcasts.send {packet : Packet netLayout} (h : Broadcasts s s' packet) (sessionId : Nat) :
    Broadcasts s { s' with sent := s'.sent ++ [(sessionId, packet)] } packet := by
  refine ⟨h.sameUsers.trans ⟨rfl, rfl, rfl⟩, fun call hCall => ?_⟩
  cases List.mem_append.mp hCall with
  | inl hOld => exact h.sent call hOld
  | inr hNew =>
      rw [List.mem_singleton.mp hNew]
      exact .inr rfl

omit [DecidableEq Node] in
/-- A broadcast reads cells of the grid only, and sends nothing else, also when one of its calls of
`SendPacket` throws. -/
theorem sendAround_ends (env : Env Node) {sectorPos : Int2} {packet : Packet netLayout} :
    Ends (sendAround env sectorPos packet) s (fun _ s' => Broadcasts s s' packet)
      fun stop s' => stop = .thrown .invalidArgument ∧ Broadcasts s s' packet := by
  refine ends_forM (fun around hAround next hNext => ?_)
    ⟨.refl s, fun _ hSent => .inl hSent⟩
  obtain ⟨cell, hCell⟩ := cellOf_isSome (inGrid_of_mem_getSectorAround hAround)
  simp only [getSectorUsersInSector, hCell, ends_bind, ends_pure, ends_get]
  refine ends_forM (fun user _ later hLater => ?_) hNext
  exact Handler.ends_sendPacket (fun _ => hLater.send _) fun _ => ⟨rfl, hLater.send _⟩

/-- What a disconnect leaves when its session was logged in. -/
structure LoggedOut (s s' : EventHandler Node) (user : Node) : Prop where
  live : ∀ {u}, s'.Live u ↔ s.Live u ∧ u ≠ user
  returned : s'.userManager.userPool = s.userManager.userPool.giveBack user
  users : s'.users = s.users

omit [DecidableEq Node] in
/-- A user less. -/
theorem LoggedOut.inBounds (h : LoggedOut s s' user) (hs : s.InBounds) : s'.InBounds := by
  intro u hLive
  rw [h.users]
  exact hs u (h.live.mp hLive).1

/-- Neither `logic_error` of `RemoveUser` is thrown. -/
theorem jobSystemDisconnectUser_ends (job : Job) (h : s.Consistent) (hBounds : s.InBounds) :
    Ends (jobSystemDisconnectUser job) s
      (fun _ s' => (s.userManager.sessionUserMap.lookup job.sessionId = none ∧ s' = s) ∨
        ∃ user, s.userManager.sessionUserMap.lookup job.sessionId = some user ∧ s'.Consistent ∧
          LoggedOut s s' user)
      fun _ _ => False := by
  simp only [jobSystemDisconnectUser, findUserOrNull, ends_bind, ends_get, ends_pure]
  cases hFound : s.userManager.sessionUserMap.lookup job.sessionId with
  | none => exact .inl ⟨rfl, rfl⟩
  | some user =>
      have hLive : s.Live user := ⟨_, hFound⟩
      rw [ends_bind]
      refine (removeSectorUser_ends h hBounds hLive).mono ?_ fun _ _ hFalse => hFalse.elim
      rintro _ _ ⟨sector, rfl, hSector⟩
      have hAccount := h.accounts.lookup_key hLive
      have hSessions := h.sessions.erase hLive ((h.sessions _ _).mp hFound).2
      have hAccounts := h.accounts.erase hLive rfl
      have hLive' {u : Node} :
          (∃ k, (s.userManager.sessionUserMap.erase job.sessionId).lookup k = some u) ↔
            s.Live u ∧ u ≠ user := hSessions.exists_lookup_iff
      simp only [removeUser, ends_bind, ends_get, hFound, hAccount, ends_set]
      refine .inr ⟨user, rfl, ⟨?_, ?_, ?_, ?_⟩, ⟨hLive', rfl, rfl⟩⟩
      · exact hSessions.congr (fun _ => hLive') fun _ _ => rfl
      · exact hAccounts.congr (fun _ => hLive') fun _ _ => rfl
      · refine hSector.congr fun u cell => ?_
        rw [EventHandler.StandsIn, EventHandler.StandsIn, EventHandler.Live, hLive']
        tauto
      · exact (h.pool.giveBack hLive).congr fun _ => hLive'

end NfNetwork.Chat
