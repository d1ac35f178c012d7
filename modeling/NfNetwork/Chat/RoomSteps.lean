import NfNetwork.Chat.RoomView

/-! The chat refines the room: whatever jobs it handles, its members are those of the room, each
session finds in its packets what the room tells it, and the same sessions are sent away. -/
namespace NfNetwork.Chat

open Machinery Handler

section Names

/-- The characters that count are those before the terminator. -/
theorem wideLength_take {bytes : List UInt8} {length : Nat} (h : wideLength bytes = some length)
    (rest : List UInt8) :
    wideLength (bytes.take (2 * (length + 1)) ++ rest) = some length ∧ 2 * (length + 1) ≤ bytes.length := by
  induction bytes using wideLength.induct generalizing length with
  | case1 low high wide hZero =>
      rw [wideLength, if_pos hZero] at h
      obtain rfl := Option.some.inj h
      simp [wideLength, hZero]
  | case2 low high wide hZero ih =>
      rw [wideLength, if_neg hZero] at h
      obtain ⟨rest', hRest, rfl⟩ := Option.map_eq_some_iff.mp h
      obtain ⟨hTaken, hLength⟩ := ih hRest
      rw [show 2 * (rest' + 1 + 1) = 2 * (rest' + 1) + 1 + 1 by omega, List.take_succ_cons,
        List.take_succ_cons, List.cons_append, List.cons_append, wideLength, if_neg hZero, hTaken]
      exact ⟨rfl, by simpa using hLength⟩
  | case3 bytes hShort =>
      rw [wideLength] at h
      · cases h
      · exact hShort

/-- What `wcsncpy_s` copies reads the same up to the terminator. -/
theorem textOf_wcsncpy_s {dst src name : Name} (h : wcsncpy_s dst src = some name) :
    textOf name.val = textOf src.val := by
  obtain ⟨length, hLength, rfl⟩ := Option.map_eq_some_iff.mp h
  obtain ⟨hStored, _⟩ := wideLength_take hLength (dst.val.drop (2 * (length + 1)))
  rw [textOf, textOf, hStored, hLength, Option.getD_some, List.take_append, List.take_take,
    List.length_take]
  simp
  omega

/-- A new user is the member that the request names, in no sector yet. -/
theorem ChatUser.construct_member {block user : ChatUser} {sessionId : Nat} {q : CsChatReqLogin}
    (h : block.construct sessionId q = some user) :
    user.member = ⟨q.accountNo, textOf q.id.val, textOf q.nickname.val, invalidSectorPos⟩ := by
  simp only [construct, Option.bind_eq_bind, Option.bind_eq_some_iff] at h
  obtain ⟨id, hId, nickname, hNickname, h⟩ := h
  cases h
  rw [ChatUser.member, textOf_wcsncpy_s hId, textOf_wcsncpy_s hNickname]

/-- The terminator of a name is among its bytes. -/
def Terminated (name : List UInt8) : Prop := wideLength name ≠ none

/-- The constructor comes through only where both names have a terminator within their 20
characters. -/
theorem ChatUser.terminated_of_construct {block user : ChatUser} {sessionId : Nat} {q : CsChatReqLogin}
    (h : block.construct sessionId q = some user) :
    Terminated q.id.val ∧ Terminated q.nickname.val := by
  simp only [construct, Option.bind_eq_bind, Option.bind_eq_some_iff] at h
  obtain ⟨id, hId, nickname, hNickname, _⟩ := h
  obtain ⟨_, hId, _⟩ := Option.map_eq_some_iff.mp hId
  obtain ⟨_, hNickname, _⟩ := Option.map_eq_some_iff.mp hNickname
  exact ⟨Option.ne_none_iff_exists'.mpr ⟨_, hId⟩, Option.ne_none_iff_exists'.mpr ⟨_, hNickname⟩⟩

end Names

abbrev ChatOutcome : Type := Outcome Nat Int64 (List UInt8) Int2 (List UInt8)

variable {Node : Type} {env : Env Node} {s s' : EventHandler Node} {job : Job}

/-- A job has added this to what had come of the jobs before it. Who is in does not depend on how
the calls of `SendPacket` end; who is told and who is sent away does, after one that throws. -/
structure Shows (env : Env Node) (s s' : EventHandler Node) (new : ChatOutcome) : Prop where
  room : s'.room = new.room
  sent : s.sent <+: s'.sent
  heard : s'.SendsReturned env → ∀ k, s'.heard k = s.heard k ++ (new.heard k).map some
  disconnected : s'.SendsReturned env → s'.disconnected = s.disconnected ++ new.disconnected

/-- If all sends so far have returned, the earlier ones had. -/
theorem EventHandler.SendsReturned.of_prefix (h : s'.SendsReturned env) (hSent : s.sent <+: s'.sent) :
    s.SendsReturned env :=
  fun n hBefore => h n (hBefore.trans_le hSent.length_le)

section Heard

/-- A broadcast is heard once by each of the sessions it goes to. -/
theorem heard_of_broadcast {keys : List Nat} {packet : Packet netLayout} (hKeys : keys.Nodup)
    (h : s'.sent = s.sent ++ keys.map (fun k => (k, packet))) (k : Nat) :
    s'.heard k = s.heard k ++ if k ∈ keys then [Reply.parse packet.body] else [] := by
  have hOnce : keys.filter (fun k' => decide (k' = k)) = if k ∈ keys then [k] else [] := by
    rw [List.filter_eq, hKeys.count]
    split <;> rfl
  rw [EventHandler.heard, h, List.filter_append, List.map_append, List.filter_map]
  change _ ++ ((keys.filter fun k' => decide (k' = k)).map _).map _ = _
  rw [hOnce]
  split <;> rfl

/-- A single packet is heard by its session. -/
theorem heard_of_sent {session : Nat} {packet : Packet netLayout}
    (h : s'.sent = s.sent ++ [(session, packet)]) (k : Nat) :
    s'.heard k = s.heard k ++ if k = session then [Reply.parse packet.body] else [] := by
  simpa using heard_of_broadcast (List.nodup_singleton session) h k

/-- And where nothing is sent nobody hears anything. -/
theorem heard_of_silence (h : s'.sent = s.sent) (k : Nat) : s'.heard k = s.heard k := by
  rw [EventHandler.heard, h, EventHandler.heard]

end Heard

section Rooms

variable [DecidableEq Node]

omit [DecidableEq Node] in
/-- The room has who the session map has. -/
theorem room_eq_none {k : Nat} : s.room k = none ↔ k ∉ s.userManager.sessionUserMap := by
  rw [EventHandler.room, Option.map_eq_none_iff, AList.lookup_eq_none]

/-- The accounts of the room are the keys of the account map. -/
theorem EventHandler.Consistent.room_has (h : s.Consistent) {accountNo : Int64} :
    s.room.Has accountNo ↔ accountNo ∈ s.userManager.accountUserMap := by
  rw [← AList.lookup_isSome, Option.isSome_iff_exists]
  constructor
  · rintro ⟨k, member, hMember, rfl⟩
    obtain ⟨user, hFound, rfl⟩ := Option.map_eq_some_iff.mp hMember
    exact ⟨user, h.accounts.lookup_key ⟨k, hFound⟩⟩
  · rintro ⟨user, hFound⟩
    obtain ⟨⟨k, hSession⟩, hAccount⟩ := (h.accounts _ _).mp hFound
    exact ⟨k, _, by rw [EventHandler.room, hSession]; rfl, hAccount⟩

/-- What `AddUser` leaves of the maps and the blocks. -/
structure Adds (s s' : EventHandler Node) (sessionId : Nat) (q : CsChatReqLogin) (user : Node)
    (object : ChatUser) : Prop where
  construct : (s.users user).construct sessionId q = some object
  users : s'.users = Function.update s.users user object
  sessionUserMap : s'.userManager.sessionUserMap = insertNew s.userManager.sessionUserMap sessionId user
  sent : s'.sent = s.sent
  disconnected : s'.disconnected = s.disconnected

/-- `AddUser` adds the user of the request, or finds one of the two keys taken, or stops in the
constructor. -/
theorem addUser_adds (env : Env Node) (sessionId : Nat) (q : CsChatReqLogin) :
    Ends (addUser env sessionId q) s
      (fun found s' => ∀ user, found = some user → ∃ object, Adds s s' sessionId q user object)
      fun _ s' => s' = s ∧ sessionId ∉ s.userManager.sessionUserMap ∧
        q.accountNo ∉ s.userManager.accountUserMap ∧
        (wideLength q.id.val = none ∨ wideLength q.nickname.val = none) := by
  simp only [addUser, ends_bind, ends_get]
  by_cases hSession : sessionId ∈ s.userManager.sessionUserMap
  · simp [hSession]
  by_cases hAccount : q.accountNo ∈ s.userManager.accountUserMap
  · simp [hSession, hAccount]
  rw [if_neg hSession, if_neg hAccount]
  generalize s.userManager.userPool.rent env.allocator = rented
  obtain ⟨user, userPool⟩ := rented
  cases hObject : (s.users user).construct sessionId q with
  | none =>
      refine ⟨rfl, hSession, hAccount, ?_⟩
      by_contra hNames
      obtain ⟨hId, hNickname⟩ := not_or.mp hNames
      obtain ⟨idLength, hId⟩ := Option.ne_none_iff_exists'.mp hId
      obtain ⟨nicknameLength, hNickname⟩ := Option.ne_none_iff_exists'.mp hNickname
      simp [ChatUser.construct, wcsncpy_s, hId, hNickname] at hObject
  | some object =>
      simp only [ends_bind, ends_set, ends_pure]
      rintro _ ⟨rfl⟩
      exact ⟨object, hObject, rfl, rfl, rfl, rfl⟩

/-- A login puts one member into the room, without a sector. -/
theorem LoggedIn.room {sessionId : Nat} {q : CsChatReqLogin} {user : Node} {object : ChatUser}
    (h : LoggedIn s s' user sessionId q.accountNo) (hFree : sessionId ∉ s.userManager.sessionUserMap)
    (hAdds : Adds s s' sessionId q user object) :
    s'.room = Function.update s.room sessionId
      (some ⟨q.accountNo, textOf q.id.val, textOf q.nickname.val, invalidSectorPos⟩) := by
  funext k
  rw [EventHandler.room, hAdds.sessionUserMap, insertNew, if_neg hFree]
  by_cases hk : k = sessionId
  · subst hk
    rw [AList.lookup_insert, Function.update_self, ← ChatUser.construct_member hAdds.construct,
      hAdds.users, Option.map_some, Function.update_self]
  · rw [AList.lookup_insert_ne hk, Function.update_of_ne hk, EventHandler.room]
    refine Option.map_congr fun other hOther => ?_
    rw [h.others]
    rintro rfl
    exact h.new ⟨k, hOther⟩

omit [DecidableEq Node] in
/-- Looking a sector up changes nothing; outside the grid it is undefined behaviour. -/
theorem getSectorUsersInSector_ends (pos : Int2) :
    Ends (getSectorUsersInSector pos) s (fun _ s' => s' = s) fun stop _ => stop = .ended .sectorOutOfBounds := by
  rw [getSectorUsersInSector]
  split <;> exact rfl

/-- Only the sector lists and the user's own cell change, and the cell becomes the invalid one. -/
theorem removeSectorUser_moves (user : Node) :
    Ends (removeSectorUser user) s
      (fun _ s' => ∃ sectorManager, s' = { s with sectorManager := sectorManager })
      fun stop _ => ∃ undefined, stop = .ended undefined := by
  simp only [removeSectorUser, ends_bind, ends_get]
  split
  · exact ⟨_, rfl⟩
  · rw [ends_bind]
    refine (getSectorUsersInSector_ends _).mono ?_ fun _ _ h => ⟨_, h⟩
    rintro cell _ rfl
    split
    · exact ⟨_, rfl⟩
    · exact ⟨_, rfl⟩

/-- The same with the destination as the cell. -/
theorem insertSectorUser_moves (user : Node) (destSectorPos : Int2) :
    Ends (insertSectorUser user destSectorPos) s
      (fun _ s' => ∃ sectorManager, s' = { s with
        sectorManager := sectorManager
        users := Function.update s.users user { s.users user with curSectorPos := destSectorPos } })
      fun stop _ => ∃ undefined, stop = .ended undefined := by
  rw [insertSectorUser, ends_bind]
  refine (getSectorUsersInSector_ends _).mono ?_ fun _ _ h => ⟨_, h⟩
  rintro cell _ rfl
  exact ⟨_, rfl⟩

/-- `TryMove` changes the sector lists, and the position of its user. -/
theorem tryMove_moves (user : Node) (destSectorPos : Int2) :
    Ends (tryMove user destSectorPos) s
      (fun _ s' => ∃ sectorManager, s' = { s with
        sectorManager := sectorManager
        users := Function.update s.users user { s.users user with curSectorPos := destSectorPos } })
      fun stop _ => ∃ undefined, stop = .ended undefined := by
  simp only [tryMove, ends_bind, ends_get]
  split
  · rename_i hPos
    refine ⟨s.sectorManager, ?_⟩
    rw [← hPos, Function.update_eq_self]
  · split
    · rw [ends_bind]
      refine (removeSectorUser_moves user).mono ?_ fun _ _ h => h
      rintro _ _ ⟨sectorManager, rfl⟩
      rw [ends_bind]
      exact (insertSectorUser_moves user destSectorPos).mono (fun _ _ h => h) fun _ _ h => h
    · rw [ends_bind]
      exact (insertSectorUser_moves user destSectorPos).mono (fun _ _ h => h) fun _ _ h => h

/-- To the room a move is the new cell of one member. -/
theorem room_of_move {k : Nat} {user : Node} {destSectorPos : Int2} (h : s.Consistent)
    (hFound : s.userManager.sessionUserMap.lookup k = some user)
    (hManager : s'.userManager = s.userManager)
    (hUsers : s'.users = Function.update s.users user { s.users user with curSectorPos := destSectorPos }) :
    s'.room = Function.update s.room k (some { (s.users user).member with sectorPos := destSectorPos }) := by
  funext k'
  rw [EventHandler.room, hManager, hUsers]
  by_cases hk : k' = k
  · rw [hk, Function.update_self, hFound, Option.map_some, Function.update_self]
    rfl
  · rw [Function.update_of_ne hk, EventHandler.room]
    refine Option.map_congr fun other hOther => ?_
    rw [Function.update_of_ne]
    rintro rfl
    exact hk (((h.sessions _ _).mp hOther).2.symm.trans ((h.sessions _ _).mp hFound).2)

/-- A disconnect takes the member out and sends nothing. -/
theorem jobSystemDisconnectUser_leaves (job : Job) :
    Ends (jobSystemDisconnectUser job) s
      (fun _ s' => s'.room = Function.update s.room job.sessionId none ∧ s'.sent = s.sent ∧
        s'.disconnected = s.disconnected)
      fun _ _ => True := by
  simp only [jobSystemDisconnectUser, findUserOrNull, ends_bind, ends_get, ends_pure]
  cases hFound : s.userManager.sessionUserMap.lookup job.sessionId with
  | none =>
      refine ⟨?_, rfl, rfl⟩
      have hNone : s.room job.sessionId = none := by rw [EventHandler.room, hFound, Option.map_none]
      rw [← hNone, Function.update_eq_self]
  | some user =>
      rw [ends_bind]
      refine (removeSectorUser_moves user).mono ?_ fun _ _ _ => trivial
      rintro _ _ ⟨sectorManager, rfl⟩
      simp only [removeUser, ends_bind, ends_get, hFound]
      split
      · trivial
      · refine ⟨?_, rfl, rfl⟩
        funext k
        by_cases hk : k = job.sessionId
        · rw [hk, EventHandler.room, AList.lookup_erase, Function.update_self, Option.map_none]
        · rw [EventHandler.room, AList.lookup_erase_ne hk, Function.update_of_ne hk, EventHandler.room]

end Rooms

/-- The handler of this job leaves its memory: it needs a packet and has none, or it copies a message
that is longer than its buffer. -/
def LeavesMemory (job : Job) : Prop :=
  match job.jobType, job.recvPacket with
  | .UserMessage, some packet => Overruns packet.body
  | .UserLogin, none | .UserSectorMove, none | .UserMessage, none => True
  | _, _ => False

/-- The handler of this job is undefined: it needs a packet and has none, it copies a name without
a terminator, or a message that is longer than its buffer. -/
def Breaks (room : ChatRoom) (job : Job) : Prop :=
  match job.jobType, job.recvPacket with
  | .UserLogin, some packet => 154 ≤ packet.body.length ∧ room job.sessionId = none ∧
      ¬ room.Has (accountOf (fieldOf packet.body 2 8)) ∧
      ¬ (Terminated (fieldOf packet.body 10 40) ∧ Terminated (fieldOf packet.body 50 40))
  | .UserMessage, some packet => Overruns packet.body
  | .UserLogin, none | .UserSectorMove, none | .UserMessage, none => True
  | _, _ => False

/-- A job that leaves the memory is one that breaks the room's rules. -/
theorem LeavesMemory.breaks (h : LeavesMemory job) (room : ChatRoom) : Breaks room job := by
  unfold LeavesMemory at h
  unfold Breaks
  split at h
  · next hType hPacket => rwa [hType, hPacket]
  all_goals simp_all

/-- What the receiver promises of the packets that it hands over. -/
def Job.Readable (job : Job) : Prop :=
  ∀ packet, job.recvPacket = some packet → packet.Unread [] packet.body

/-- What the room makes of a job. -/
noncomputable def EventHandler.expected (s : EventHandler Node) (job : Job) : ChatOutcome :=
  Room.step hears invalidSectorPos s.room job.sessionId job.request

/-- The handler of a job returned. -/
def Returned (env : Env Node) (s : EventHandler Node) (job : Job) (s' : EventHandler Node) : Prop :=
  ¬ Breaks s.room job ∧ Shows env s s' (s.expected job)

/-- The handler of a job stopped. After a call of `SendPacket` that throws it has nothing left to do
but to send; one that throws otherwise could not read what it was asked, and has changed nothing. -/
def Stopped (env : Env Node) (s : EventHandler Node) (job : Job) (stop : Stop) (s' : EventHandler Node) :
    Prop :=
  match stop with
  | .thrown .invalidArgument => Returned env s job s' ∧ ¬ s'.SendsReturned env
  | .thrown _ => ¬ Breaks s.room job ∧ s' = s ∧ job.request = .malformed
  | .ended undefined => Breaks s.room job ∧ (undefined = .invalidParameter ↔ ¬ LeavesMemory job)

section Handlers

variable [DecidableEq Node]

omit [DecidableEq Node] in
/-- The one call of a handler is its reply. -/
theorem shows_of_reply {new : ChatOutcome} {reply : ChatReply} {response : Packet netLayout}
    (hRoom : s'.room = new.room) (hHeard : new.heard = Room.tell job.sessionId reply)
    (hNobody : new.disconnected = []) (hSent : s'.sent = s.sent ++ [(job.sessionId, response)])
    (hParse : Reply.parse response.body = some reply) (hDisconnected : s'.disconnected = s.disconnected) :
    Shows env s s' new := by
  refine ⟨hRoom, hSent ▸ List.prefix_append .., fun _ k => ?_, fun _ => ?_⟩
  · rw [heard_of_sent hSent, hParse, hHeard, Room.tell]
    split <;> rfl
  · rw [hNobody, hDisconnected, List.append_nil]

omit [DecidableEq Node] in
/-- A handler that is silent or disconnects its own session. -/
theorem shows_of_silence {new : ChatOutcome} (hRoom : s'.room = new.room)
    (hHeard : new.heard = fun _ => []) (hSent : s'.sent = s.sent)
    (hDisconnected : s'.disconnected = s.disconnected ++ new.disconnected) : Shows env s s' new := by
  refine ⟨hRoom, hSent ▸ List.prefix_refl _, fun _ k => ?_, fun _ => hDisconnected⟩
  rw [heard_of_silence hSent, hHeard, List.map_nil, List.append_nil]

omit [DecidableEq Node] in
/-- Once a call of `SendPacket` has thrown, only the room is promised. -/
theorem shows_of_throw {new : ChatOutcome} (hRoom : s'.room = new.room) (hSent : s.sent <+: s'.sent)
    (hThrown : ¬ s'.SendsReturned env) : Shows env s s' new :=
  ⟨hRoom, hSent, fun hReturned => absurd hReturned hThrown, fun hReturned => absurd hReturned hThrown⟩

omit [DecidableEq Node] in
/-- A handler that ends with one `SendPacket` follows the room in both outcomes: it returns, or the
packet is lost and the speaker sent away. -/
theorem ends_reply {before : EventHandler Node} {response : Packet netLayout}
    (hBreaks : ¬ Breaks s.room job)
    (hShows : Shows env s { before with sent := before.sent ++ [(job.sessionId, response)] }
      (s.expected job)) :
    Ends (sendPacket env job.sessionId response) before (fun _ s' => Returned env s job s')
      (Stopped env s job) :=
  ends_sendPacket (fun _ => ⟨hBreaks, hShows⟩) fun hThrows =>
    ⟨⟨hBreaks, hShows⟩, not_sendsReturned_of_throws hThrows rfl⟩

/-- The login handler against the room: the member is added and answered, or the session is sent
away. -/
theorem jobUserLogin_follows (env : Env Node) (h : s.Consistent) (hType : job.jobType = .UserLogin)
    (hRead : job.Readable) :
    Ends (jobUserLogin env job) s (fun _ s' => Returned env s job s') (Stopped env s job) := by
  simp only [jobUserLogin, ends_bind, recvPacket]
  cases hPacket : job.recvPacket with
  | none => simp [Stopped, Breaks, LeavesMemory, hType, hPacket]
  | some packet =>
      have hRequest : job.request = requestOf .UserLogin packet.body := by
        rw [Job.request, hType, hPacket]
        rfl
      simp only [ends_pure]
      rcases Nat.lt_or_ge packet.body.length 154 with hShort | hLong
      · rw [CsChatReqLogin.reads.throws (hRead packet hPacket) hShort]
        refine ⟨?_, rfl, by rw [hRequest, requestOf, if_pos hShort]⟩
        simp only [Breaks, hType, hPacket]
        omega
      obtain ⟨q, rest, hFields, ⟨hAccount, hId, hNickname⟩, _⟩ :=
        CsChatReqLogin.reads.returns (hRead packet hPacket) hLong
      rw [fieldOf_take _ (by omega)] at hAccount hId hNickname
      have hLogin : job.request = .login q.accountNo (textOf q.id.val) (textOf q.nickname.val) := by
        rw [hRequest, requestOf, if_neg (by omega), hAccount, hId, hNickname]
      have hBreaks : Breaks s.room job ↔ s.room job.sessionId = none ∧ ¬ s.room.Has q.accountNo ∧
          ¬ (Terminated q.id.val ∧ Terminated q.nickname.val) := by
        simp [Breaks, hType, hPacket, hLong, hAccount, hId, hNickname]
      simp only [hFields, ends_ofRead_ok]
      refine ((addUser_ends h).and (addUser_adds env job.sessionId q)).mono ?_ ?_
      · rintro found added ⟨⟨rfl, rfl, hTaken⟩ | ⟨user, rfl, hSession, hFree, _, hLoggedIn, _⟩, hAdds⟩
        · obtain ⟨response, hResponse, hParse⟩ :=
            chatResLogin_parses (env.sendMemory added.allocated) false q.accountNo
          change chatResLogin 0 q.accountNo _ = some response at hResponse
          have hRefused : (added.room job.sessionId).isSome ∨ added.room.Has q.accountNo := by
            rw [← Option.ne_none_iff_isSome, Ne, room_eq_none, not_not, h.room_has]
            exact hTaken
          simp only [ends_allocSend, ends_get, hResponse, ends_ofWrite_some]
          refine ends_reply (fun hBad => ?_) ?_
          · obtain ⟨hNone, hNobody, _⟩ := hBreaks.mp hBad
            rw [hNone] at hRefused
            exact hRefused.elim (by simp) hNobody
          · rw [EventHandler.expected, hLogin, Room.step, if_pos hRefused]
            exact shows_of_reply rfl rfl rfl rfl hParse rfl
        · obtain ⟨object, hAdded⟩ := hAdds user rfl
          obtain ⟨response, hResponse, hParse⟩ :=
            chatResLogin_parses (env.sendMemory added.allocated) true q.accountNo
          change chatResLogin 1 q.accountNo _ = some response at hResponse
          have hAccepted : ¬ ((s.room job.sessionId).isSome ∨ s.room.Has q.accountNo) := by
            rw [← Option.ne_none_iff_isSome, Ne, room_eq_none, not_not, h.room_has]
            exact not_or.mpr ⟨hSession, hFree⟩
          simp only [ends_allocSend, ends_get, hLoggedIn.accountNo, hResponse, ends_ofWrite_some]
          refine ends_reply (fun hBad => (hBreaks.mp hBad).2.2 ?_) ?_
          · exact ChatUser.terminated_of_construct hAdded.construct
          · rw [EventHandler.expected, hLogin, Room.step, if_neg hAccepted]
            exact shows_of_reply (hLoggedIn.room hSession hAdded) rfl rfl
              (congrArg (· ++ [(job.sessionId, response)]) hAdded.sent) hParse hAdded.disconnected
      · rintro stop _ ⟨rfl, rfl, hSession, hFree, hNames⟩
        refine ⟨hBreaks.mpr ⟨room_eq_none.mpr hSession, fun hHas => hFree (h.room_has.mp hHas), ?_⟩, ?_⟩
        · simp only [Terminated]
          tauto
        · simp [LeavesMemory, hType, hPacket]

/-- The move handler against the room, for a destination in the grid. -/
theorem jobUserSectorMove_follows (env : Env Node) (h : Sound s) (hType : job.jobType = .UserSectorMove)
    (hRead : job.Readable) (hMove : MoveInGrid s job) :
    Ends (jobUserSectorMove env job) s (fun _ s' => Returned env s job s') (Stopped env s job) := by
  simp only [jobUserSectorMove, ends_bind, recvPacket]
  cases hPacket : job.recvPacket with
  | none => simp [Stopped, Breaks, LeavesMemory, hType, hPacket]
  | some packet =>
      have hRequest : job.request = requestOf .UserSectorMove packet.body := by
        rw [Job.request, hType, hPacket]
        rfl
      have hBreaks : ¬ Breaks s.room job := by simp [Breaks, hType, hPacket]
      simp only [ends_pure]
      rcases Nat.lt_or_ge packet.body.length 14 with hShort | hLong
      · rw [CsChatReqSectorMove.reads.throws (hRead packet hPacket) hShort]
        exact ⟨hBreaks, rfl, by rw [hRequest, requestOf, if_pos hShort]⟩
      obtain ⟨q, rest, hFields, ⟨hAccount, hX, hY⟩, _⟩ :=
        CsChatReqSectorMove.reads.returns (hRead packet hPacket) hLong
      rw [fieldOf_take _ (by omega)] at hAccount hX hY
      have hAsked : job.request = .sectorMove q.accountNo ⟨q.sectorX, q.sectorY⟩ := by
        rw [hRequest, requestOf, if_neg (by omega), hAccount, hX, hY]
      simp only [hFields, ends_ofRead_ok, findUserOrNull, ends_bind, ends_get, ends_pure]
      cases hFound : s.userManager.sessionUserMap.lookup job.sessionId with
      | none =>
          refine ⟨hBreaks, ?_⟩
          rw [EventHandler.expected, hAsked, Room.step, EventHandler.room, hFound]
          exact shows_of_silence rfl rfl rfl (List.append_nil _).symm
      | some user =>
          have hMember : s.room job.sessionId = some (s.users user).member := by
            rw [EventHandler.room, hFound, Option.map_some]
          simp only [ends_bind, ends_get]
          by_cases hSame : (s.users user).accountNo = q.accountNo
          · have hDest : InGrid ⟨q.sectorX, q.sectorY⟩ :=
              hMove user _ ⟨hType, hFound, packet, q, rest, hPacket, hFields, hSame, rfl⟩
            have hSmall {n offset : Nat} (hn : n = scalarOf (fieldOf packet.body offset 2)) : n < 2 ^ 16 := by
              rw [hn]
              exact (scalarOf_lt _).trans_le (Nat.pow_le_pow_right (by decide) (List.length_take_le ..))
            obtain ⟨response, hResponse, hParse⟩ := chatResSectorMove_parses (env.sendMemory s.allocated)
              q.accountNo (hSmall hX) (hSmall hY)
            rw [← hSame] at hResponse
            simp only [if_neg (not_not.mpr hSame), ends_bind, ends_allocSend, hResponse,
              ends_ofWrite_some]
            have hAllocated : Sound { s with allocated := s.allocated + 1 } :=
              h.of_sameUsers ⟨rfl, rfl, rfl⟩
            refine ((tryMove_ends hAllocated.consistent hAllocated.inBounds ⟨_, hFound⟩).and
              (tryMove_moves user _)).mono ?_ ?_
            · rintro _ _ ⟨_, sectorManager, rfl⟩
              refine ends_reply hBreaks ?_
              rw [EventHandler.expected, hAsked, Room.step_sectorMove _ hMember hSame]
              refine shows_of_reply ?_ rfl rfl rfl hParse rfl
              refine room_of_move h.consistent hFound ?_ ?_
              all_goals rfl
            · rintro _ _ ⟨⟨_, hNone, _⟩, _⟩
              obtain ⟨cell, hCell⟩ := cellOf_isSome hDest
              rw [hCell] at hNone
              cases hNone
          · rw [if_pos hSame, ends_disconnect]
            refine ⟨hBreaks, ?_⟩
            rw [EventHandler.expected, hAsked, Room.step_other hMember hSame (.inl ⟨_, rfl⟩)]
            exact shows_of_silence rfl rfl rfl rfl

/-- The message handler against the room: everybody around hears it once, up to a `SendPacket` that
throws. -/
theorem jobUserMessage_follows (env : Env Node) (h : Sound s) (hType : job.jobType = .UserMessage)
    (hRead : job.Readable) :
    Ends (jobUserMessage env job) s (fun _ s' => Returned env s job s') (Stopped env s job) := by
  simp only [jobUserMessage, ends_bind, recvPacket]
  cases hPacket : job.recvPacket with
  | none => simp [Stopped, Breaks, LeavesMemory, hType, hPacket]
  | some packet =>
      have hRequest : job.request = requestOf .UserMessage packet.body := by
        rw [Job.request, hType, hPacket]
        rfl
      have hBreaks : Breaks s.room job ↔ Overruns packet.body := by simp [Breaks, hType, hPacket]
      simp only [ends_pure]
      rcases Nat.lt_or_ge packet.body.length 12 with hShort | hFields
      · rw [CsChatReqMessage.reads.throws (hRead packet hPacket) hShort]
        refine ⟨fun hBad => ?_, rfl, by rw [hRequest, requestOf, if_pos (by omega)]⟩
        have hWhole := (hBreaks.mp hBad).1
        omega
      obtain ⟨q, rest, hFieldsRead, ⟨hAccount, _⟩, _⟩ :=
        CsChatReqMessage.reads.returns (hRead packet hPacket) hFields
      obtain ⟨_, _, hSameRead, hLen, hLeft⟩ := CsChatReqMessage.read_ok (hRead packet hPacket) hFields
      cases hFieldsRead.symm.trans hSameRead
      rw [fieldOf_take _ (by omega)] at hAccount
      simp only [hFieldsRead, ends_ofRead_ok, ends_get]
      rcases Nat.lt_or_ge (packet.body.drop 12).length q.messageLen with hCut | hWhole
      · rw [hLeft.getBody_throws _ hCut]
        rw [List.length_drop, hLen] at hCut
        refine ⟨fun hBad => ?_, rfl, by rw [hRequest, requestOf, if_pos (by omega)]⟩
        have hWhole := (hBreaks.mp hBad).1
        omega
      have hLong : 12 + messageLenOf packet.body ≤ packet.body.length := by
        rw [List.length_drop, hLen] at hWhole
        omega
      rcases Nat.lt_or_ge messageBufferSize q.messageLen with hOver | hFits
      · rw [hLeft.getBody_overruns hWhole (Nat.lt_trans (by decide) hOver) hOver]
        have hOverruns : Overruns packet.body := ⟨hLong, hLen ▸ hOver⟩
        exact ⟨hBreaks.mpr hOverruns, by simp [LeavesMemory, hType, hPacket, hOverruns]⟩
      have hSafe : ¬ Breaks s.room job := by
        rw [hBreaks, Overruns, ← hLen]
        omega
      obtain ⟨message, hGet, hMessage⟩ := hLeft.getBody_eq s.messageBuffer hWhole hFits
      have hText : message.val.take q.messageLen = fieldOf packet.body 12 (messageLenOf packet.body) := by
        rw [hMessage, fieldOf, hLen, List.take_left']
        rw [List.length_take, ← hLen]
        exact Nat.min_eq_left hWhole
      have hAsked : job.request = .message q.accountNo (message.val.take q.messageLen) := by
        rw [hRequest, requestOf, if_neg (by omega), hAccount, hText]
      simp only [hGet, ends_ofRead_ok, findUserOrNull, ends_bind, ends_set, ends_get, ends_pure]
      cases hFound : s.userManager.sessionUserMap.lookup job.sessionId with
      | none =>
          refine ⟨hSafe, ?_⟩
          rw [EventHandler.expected, hAsked, Room.step, EventHandler.room, hFound]
          exact shows_of_silence rfl rfl rfl rfl
      | some user =>
          have hMember : s.room job.sessionId = some (s.users user).member := by
            rw [EventHandler.room, hFound, Option.map_some]
          simp only [ends_bind, ends_get]
          by_cases hSame : (s.users user).accountNo = q.accountNo
          · obtain ⟨response, hResponse, hParse⟩ := chatResMessage_parses (env.sendMemory s.allocated)
              q.accountNo (s.users user) message hFits
            simp only [if_neg (not_not.mpr hSame), ends_bind, ends_allocSend, hResponse,
              ends_ofWrite_some]
            refine (sendAround_sends env).mono ?_ ?_
            rotate_left
            · rintro _ _ ⟨rfl, hThrown, told, rfl⟩
              refine ⟨⟨hSafe, shows_of_throw ?_ (List.prefix_append ..) hThrown⟩, hThrown⟩
              rw [EventHandler.expected, hAsked, Room.step_message _ hMember hSame]
              rfl
            rintro _ _ rfl
            refine ⟨hSafe, ?_⟩
            rw [EventHandler.expected, hAsked, Room.step_message _ hMember hSame]
            refine ⟨rfl, List.prefix_append .., fun _ k => ?_, fun _ => (List.append_nil _).symm⟩
            rw [heard_of_broadcast (h.consistent.receivers_nodup h.inBounds _) rfl, hParse]
            have hReceives : k ∈ s.receivers (s.users user).curSectorPos ↔ ∃ listener,
                s.room k = some listener ∧ hears (s.users user).member.sectorPos listener.sectorPos :=
              h.consistent.mem_receivers h.inBounds
            dsimp only
            by_cases hHears : ∃ listener, s.room k = some listener ∧
                hears (s.users user).member.sectorPos listener.sectorPos
            · rw [if_pos hHears]
              exact congrArg (s.heard k ++ ·) (if_pos (hReceives.mpr hHears))
            · rw [if_neg hHears]
              exact congrArg (s.heard k ++ ·) (if_neg (mt hReceives.mp hHears))
          · rw [if_pos hSame, ends_disconnect]
            refine ⟨hSafe, ?_⟩
            rw [EventHandler.expected, hAsked, Room.step_other hMember hSame (.inr ⟨_, rfl⟩)]
            exact shows_of_silence rfl rfl rfl rfl

/-- Whatever the job, the handler does what the room does. -/
theorem handleJob_follows (env : Env Node) (h : Sound s) (hRead : job.Readable) (hMove : MoveInGrid s job) :
    Ends (handleJob env job) s (fun _ s' => Returned env s job s') (Stopped env s job) := by
  unfold handleJob
  cases hType : job.jobType with
  | UserLogin => exact jobUserLogin_follows env h.consistent hType hRead
  | UserSectorMove => exact jobUserSectorMove_follows env h hType hRead hMove
  | UserMessage => exact jobUserMessage_follows env h hType hRead
  | UserHeartBeat =>
      refine jobUserHeartBeat_ends.mono ?_ fun _ _ hFalse => hFalse.elim
      rintro _ _ rfl
      refine ⟨by simp [Breaks, hType], ?_⟩
      rw [EventHandler.expected, Job.request, hType]
      exact shows_of_silence rfl rfl rfl (List.append_nil _).symm
  | SystemDisconnectUser =>
      refine ((jobSystemDisconnectUser_ends job h.consistent h.inBounds).and
        (jobSystemDisconnectUser_leaves job)).mono ?_ fun _ _ hFalse => hFalse.1.elim
      rintro _ s' ⟨_, hRoom, hSent, hDisconnected⟩
      refine ⟨by simp [Breaks, hType], ?_⟩
      rw [EventHandler.expected, Job.request, hType]
      exact shows_of_silence hRoom rfl hSent (hDisconnected.trans (List.append_nil _).symm)
  | SystemHeartBeat =>
      refine jobSystemHeartBeat_ends.mono ?_ fun _ _ hFalse => hFalse.elim
      rintro _ _ rfl
      refine ⟨by simp [Breaks, hType], ?_⟩
      rw [EventHandler.expected, Job.request, hType]
      exact shows_of_silence rfl rfl rfl (List.append_nil _).symm
  | INVALID => exact ⟨by simp [Breaks, hType], rfl, by rw [Job.request, hType]; rfl⟩

/-- One job is one step of the room, and undefined exactly when the job breaks the thread. -/
theorem processJob_follows (env : Env Node) (h : Sound s) (hRead : job.Readable)
    (hMove : MoveInGrid s job) :
    match processJob env s job with
    | .ok s' => Returned env s job s'
    | .error undefined => Breaks s.room job ∧ (undefined = .invalidParameter ↔ ¬ LeavesMemory job) := by
  have hEnds := handleJob_follows env h hRead hMove
  unfold processJob
  cases hHandle : handleJob env job s with
  | ok _ s' => exact hEnds.of_ok hHandle
  | error stop s' =>
      have hStopped := hEnds.of_error hHandle
      match stop with
      | .ended undefined => exact hStopped
      | .thrown .invalidArgument =>
          obtain ⟨⟨hBreaks, hShows⟩, hThrown⟩ := hStopped
          exact ⟨hBreaks, shows_of_throw hShows.room hShows.sent hThrown⟩
      | .thrown .packetReaderException | .thrown .logicError =>
          obtain ⟨hBreaks, rfl, hMalformed⟩ := hStopped
          refine ⟨hBreaks, ?_⟩
          rw [EventHandler.expected, hMalformed, Room.step]
          exact shows_of_silence rfl rfl rfl rfl

end Handlers

end NfNetwork.Chat
