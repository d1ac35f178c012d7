import NfNetwork.Chat.Consistency

/-! What one job and a run of jobs keep. The only guard is on where sector moves go. -/
namespace NfNetwork.Chat

open Machinery Handler

variable {Node : Type} [DecidableEq Node] {env : Env Node} {s s' : EventHandler Node} {job : Job}

section Reads

variable {α : Type} {throws : Stop → EventHandler Node → Prop}

omit [DecidableEq Node] in
/-- A handler that needs a packet goes on with the job's, or has followed a null pointer. -/
theorem ends_recvPacket {returns : Packet netLayout → EventHandler Node → Prop}
    (hSome : ∀ packet, job.recvPacket = some packet → returns packet s)
    (hNull : throws (.ended .nullPointer) s) : Ends (recvPacket job) s returns throws := by
  rw [recvPacket]
  cases hPacket : job.recvPacket with
  | none => exact hNull
  | some packet => exact hSome packet hPacket

variable {returns : α → EventHandler Node → Prop}

omit [DecidableEq Node] in
/-- A read goes on with what it read, throws if the packet is short, or leaves the memory. -/
theorem ends_ofRead {read : Except ReadStop α} (hOk : ∀ a, read = .ok a → returns a s)
    (hShort : read = .error .packetReaderException → throws (.thrown .packetReaderException) s)
    (hOver : throws (.ended .outOfBounds) s) : Ends (ofRead read) s returns throws := by
  cases hRead : read with
  | ok a => exact hOk a hRead
  | error stop =>
      cases stop with
      | packetReaderException => exact hShort hRead
      | outOfBounds => exact hOver

omit [DecidableEq Node] in
/-- A write goes on with what it wrote, or leaves the memory. -/
theorem ends_ofWrite {write : Option α} (hSome : ∀ a, write = some a → returns a s)
    (hOver : throws (.ended .outOfBounds) s) : Ends (ofWrite write) s returns throws := by
  cases hWrite : write with
  | none => exact hOver
  | some a => exact hSome a hWrite

end Reads

/-- The user and the place of a move that `JobUserSectorMove` will make. -/
structure Moves (s : EventHandler Node) (job : Job) (user : Node) (destSectorPos : Int2) : Prop where
  jobType : job.jobType = .UserSectorMove
  found : s.userManager.sessionUserMap.lookup job.sessionId = some user
  read : ∃ packet q rest, job.recvPacket = some packet ∧
    CsChatReqSectorMove.read packet = .ok (q, rest) ∧ (s.users user).accountNo = q.accountNo ∧
    destSectorPos = ⟨q.sectorX, q.sectorY⟩

def MoveInGrid (s : EventHandler Node) (job : Job) : Prop :=
  ∀ user destSectorPos, Moves s job user destSectorPos → InGrid destSectorPos

/-- What holds between two jobs. -/
structure Sound (s : EventHandler Node) : Prop where
  consistent : s.Consistent
  inBounds : s.InBounds

/-- Soundness is about users, maps and sectors only. -/
theorem Sound.of_sameUsers (h : Sound s) (hSame : s.SameUsers s') : Sound s' :=
  ⟨hSame.consistent h.consistent, hSame.inBounds h.inBounds⟩

/-- How a handler may stop that kept everything in agreement. -/
def Tolerable (stop : Stop) (s' : EventHandler Node) : Prop :=
  match stop with
  | .thrown _ => Sound s'
  | .ended undefined => undefined ≠ .sectorOutOfBounds ∧ undefined ≠ .eraseEnd

/-- Either key of the login is taken. -/
def Taken (s : EventHandler Node) (sessionId : Nat) (accountNo : Int64) : Prop :=
  sessionId ∈ s.userManager.sessionUserMap ∨ accountNo ∈ s.userManager.accountUserMap

/-- The one call a login makes answers it with this status. -/
def Answers (s s' : EventHandler Node) (job : Job) (status : Nat) (accountNo : Int64) : Prop :=
  ∃ memory response, chatResLogin status accountNo (.initial memory) = some response ∧
    s'.sent = s.sent ++ [(job.sessionId, response)]

omit [DecidableEq Node] in
/-- A login stays one when more is sent. -/
theorem LoggedIn.of_sameUsers {s'' : EventHandler Node} {user : Node} {sessionId : Nat}
    {accountNo : Int64} (h : LoggedIn s s' user sessionId accountNo) (hSame : s'.SameUsers s'') :
    LoggedIn s s'' user sessionId accountNo where
  new := h.new
  live := hSame.live_iff.trans h.live
  sessionId := by rw [hSame.users, h.sessionId]
  accountNo := by rw [hSame.users, h.accountNo]
  curSectorPos := by rw [hSame.users, h.curSectorPos]
  others hne := by rw [hSame.users, h.others hne]

/-- A login whose fields are read fails, and changes nothing, exactly when a key is taken. -/
def LoginAnswered (s s' : EventHandler Node) (job : Job) : Prop :=
  ∃ packet q rest, job.recvPacket = some packet ∧ CsChatReqLogin.read packet = .ok (q, rest) ∧
    ((Taken s job.sessionId q.accountNo ∧ s.SameUsers s' ∧ Answers s s' job 0 q.accountNo) ∨
      ¬ Taken s job.sessionId q.accountNo ∧ s'.Consistent ∧
        (∃ user, LoggedIn s s' user job.sessionId q.accountNo) ∧ Answers s s' job 1 q.accountNo)

/-- Whichever way a login was answered, the server is sound after it. -/
theorem LoginAnswered.sound (hAnswered : LoginAnswered s s' job) (h : Sound s) : Sound s' := by
  obtain ⟨_, _, _, _, _, ⟨_, hSame, _⟩ | ⟨_, hConsistent, ⟨_, hLoggedIn⟩, _⟩⟩ := hAnswered
  · exact h.of_sameUsers hSame
  · exact ⟨hConsistent, hLoggedIn.inBounds h.inBounds⟩

omit [DecidableEq Node] in
/-- What was answered is read off the packets sent. -/
theorem Answers.congr {s'' : EventHandler Node} {status : Nat} {accountNo : Int64}
    (h : Answers s s' job status accountNo) (hSent : s''.sent = s'.sent) :
    Answers s s'' job status accountNo := by
  obtain ⟨memory, response, hResponse, hCall⟩ := h
  exact ⟨memory, response, hResponse, hSent.trans hCall⟩

/-- The same for a login with its answer. -/
theorem LoginAnswered.of_sameUsers {s'' : EventHandler Node} (h : LoginAnswered s s' job)
    (hSame : s'.SameUsers s'') (hSent : s''.sent = s'.sent) : LoginAnswered s s'' job := by
  obtain ⟨packet, q, rest, hPacket, hRead, hCase⟩ := h
  refine ⟨packet, q, rest, hPacket, hRead, ?_⟩
  rcases hCase with ⟨hTaken, hUsers, hAnswers⟩ | ⟨hFree, hConsistent, ⟨user, hLoggedIn⟩, hAnswers⟩
  · exact .inl ⟨hTaken, hUsers.trans hSame, hAnswers.congr hSent⟩
  · exact .inr ⟨hFree, hSame.consistent hConsistent, ⟨user, hLoggedIn.of_sameUsers hSame⟩,
      hAnswers.congr hSent⟩

/-- The answer is the last thing a login does, so one whose `SendPacket` throws has done all of it. -/
theorem jobUserLogin_ends (env : Env Node) (job : Job) (h : Sound s) :
    Ends (jobUserLogin env job) s (fun _ s' => LoginAnswered s s' job)
      fun stop s' => Tolerable stop s' ∧ ∀ exn, stop = .thrown exn → LoginAnswered s s' job ∨
        ∀ packet, job.recvPacket = some packet →
          CsChatReqLogin.read packet = .error .packetReaderException := by
  simp only [jobUserLogin, ends_bind]
  refine ends_recvPacket (fun packet hPacket => ?_) (by simp [Tolerable])
  refine ends_ofRead (fun read hRead => ?_) (fun hShort => ⟨h, fun _ _ => .inr fun packet' hPacket' => ?_⟩)
    (by simp [Tolerable])
  rotate_left
  · cases hPacket.symm.trans hPacket'
    exact hShort
  obtain ⟨q, rest⟩ := read
  have hSend {s' : EventHandler Node} {response : Packet netLayout}
      (hAnswered : LoginAnswered s { s' with sent := s'.sent ++ [(job.sessionId, response)] } job) :
      Ends (sendPacket env job.sessionId response) s' (fun _ s' => LoginAnswered s s' job)
        fun stop s' => Tolerable stop s' ∧ ∀ exn, stop = .thrown exn → LoginAnswered s s' job ∨
          ∀ packet, job.recvPacket = some packet →
            CsChatReqLogin.read packet = .error .packetReaderException :=
    ends_sendPacket (fun _ => hAnswered) fun _ => ⟨hAnswered.sound h, fun _ _ => .inl hAnswered⟩
  refine (addUser_ends h.consistent).mono ?_ ?_
  · rintro found added (⟨rfl, rfl, hTaken⟩ | ⟨user, rfl, hSession, hAccount, hAdded, hLoggedIn, hSent⟩)
    · simp only [ends_allocSend, ends_get]
      refine ends_ofWrite (fun response hResponse => hSend ?_) (by simp [Tolerable])
      exact ⟨packet, q, rest, hPacket, hRead, .inl ⟨hTaken, ⟨rfl, rfl, rfl⟩, _, response,
        hResponse, rfl⟩⟩
    · simp only [ends_allocSend, ends_get]
      refine ends_ofWrite (fun response hResponse => hSend ?_) (by simp [Tolerable])
      rw [hLoggedIn.accountNo] at hResponse
      have hSame : added.SameUsers { added with
          allocated := added.allocated + 1, sent := added.sent ++ [(job.sessionId, response)] } :=
        ⟨rfl, rfl, rfl⟩
      exact ⟨packet, q, rest, hPacket, hRead, .inr ⟨by simp [Taken, hSession, hAccount],
        hSame.consistent hAdded, ⟨user, hLoggedIn.of_sameUsers hSame⟩, _, response, hResponse,
        by rw [hSent]⟩⟩
  · rintro _ s' rfl
    simp [Tolerable]

/-- The move handler keeps the server sound, for a destination in the grid. -/
theorem jobUserSectorMove_ends (h : Sound s) (hType : job.jobType = .UserSectorMove)
    (hMove : MoveInGrid s job) :
    Ends (jobUserSectorMove env job) s (fun _ s' => Sound s') Tolerable := by
  simp only [jobUserSectorMove, ends_bind]
  refine ends_recvPacket (fun packet hPacket => ?_) (by simp [Tolerable])
  refine ends_ofRead (fun read hRead => ?_) (fun _ => h) (by simp [Tolerable])
  obtain ⟨q, rest⟩ := read
  simp only [findUserOrNull, ends_bind, ends_get, ends_pure]
  cases hFound : s.userManager.sessionUserMap.lookup job.sessionId with
  | none => exact h
  | some user =>
      simp only [ends_bind, ends_get]
      by_cases hAccount : (s.users user).accountNo = q.accountNo
      · have hDest : InGrid ⟨q.sectorX, q.sectorY⟩ :=
          hMove user _ ⟨hType, hFound, packet, q, rest, hPacket, hRead, hAccount, rfl⟩
        simp only [if_neg (not_not.mpr hAccount), ends_bind, ends_allocSend]
        refine ends_ofWrite (fun response _ => ?_) (by simp [Tolerable])
        have hAllocated : Sound { s with allocated := s.allocated + 1 } :=
          h.of_sameUsers ⟨rfl, rfl, rfl⟩
        refine (tryMove_ends hAllocated.consistent hAllocated.inBounds ⟨_, hFound⟩).mono ?_ ?_
        · rintro _ moved ⟨hConsistent, hMoved⟩
          have hSent : Sound { moved with sent := moved.sent ++ [(job.sessionId, response)] } :=
            Sound.of_sameUsers ⟨hConsistent, hMoved.inBounds hAllocated.inBounds hDest⟩ ⟨rfl, rfl, rfl⟩
          exact ends_sendPacket (fun _ => hSent) fun _ => hSent
        · rintro _ _ ⟨_, hNone, _⟩
          obtain ⟨cell, hCell⟩ := cellOf_isSome hDest
          rw [hCell] at hNone
          cases hNone
      · rw [if_pos hAccount, ends_disconnect]
        exact h.of_sameUsers ⟨rfl, rfl, rfl⟩

/-- The message handler moves nobody. -/
theorem jobUserMessage_ends (h : Sound s) :
    Ends (jobUserMessage env job) s (fun _ s' => s.SameUsers s') Tolerable := by
  simp only [jobUserMessage, ends_bind]
  refine ends_recvPacket (fun packet _ => ?_) (by simp [Tolerable])
  refine ends_ofRead (fun read _ => ?_) (fun _ => h) (by simp [Tolerable])
  obtain ⟨q, rest⟩ := read
  simp only [ends_get]
  refine ends_ofRead (fun read _ => ?_) (fun _ => h) (by simp [Tolerable])
  obtain ⟨message, _⟩ := read
  simp only [findUserOrNull, ends_bind, ends_set, ends_get, ends_pure]
  cases s.userManager.sessionUserMap.lookup job.sessionId with
  | none => exact ⟨rfl, rfl, rfl⟩
  | some user =>
      simp only [ends_bind, ends_get]
      split
      · exact ⟨rfl, rfl, rfl⟩
      · simp only [ends_bind, ends_allocSend]
        refine ends_ofWrite (fun response _ => ?_) (by simp [Tolerable])
        refine (sendAround_ends env).mono (fun _ s' hSent => ?_) ?_
        · exact ⟨hSent.sameUsers.userManager, hSent.sameUsers.sectorManager, hSent.sameUsers.users⟩
        · rintro _ s' ⟨rfl, hSent⟩
          exact h.of_sameUsers
            ⟨hSent.sameUsers.userManager, hSent.sameUsers.sectorManager, hSent.sameUsers.users⟩

omit [DecidableEq Node] in
/-- The heartbeat handler does nothing. -/
theorem jobUserHeartBeat_ends :
    Ends (jobUserHeartBeat job) s (fun _ s' => s' = s) fun _ _ => False := by
  simp [jobUserHeartBeat, findUserOrNull]

omit [DecidableEq Node] in
/-- No user is ever found without a heart beat. -/
theorem jobSystemHeartBeat_ends :
    Ends jobSystemHeartBeat s (fun _ s' => s' = s) fun _ _ => False := by
  simp only [jobSystemHeartBeat, ends_bind, ends_get]
  refine ends_forM (fun entry _ next hNext => ?_) rfl
  simpa [ChatUser.isHeartBeating] using hNext

/-- A job whose move, if it makes one, stays in the grid. -/
theorem handleJob_ends (env : Env Node) (h : Sound s) (hMove : MoveInGrid s job) :
    Ends (handleJob env job) s (fun _ s' => Sound s') Tolerable := by
  unfold handleJob
  cases hType : job.jobType with
  | UserLogin =>
      exact (jobUserLogin_ends env job h).mono (fun _ _ hAnswered => hAnswered.sound h)
        fun _ _ hStop => hStop.1
  | UserSectorMove => exact jobUserSectorMove_ends h hType hMove
  | UserMessage =>
      exact (jobUserMessage_ends h).mono (fun _ _ hSame => h.of_sameUsers hSame)
        fun _ _ hStop => hStop
  | UserHeartBeat =>
      exact jobUserHeartBeat_ends.mono (fun _ _ hSame => hSame ▸ h) fun _ _ hFalse => hFalse.elim
  | SystemDisconnectUser =>
      refine (jobSystemDisconnectUser_ends job h.consistent h.inBounds).mono ?_
        fun _ _ hFalse => hFalse.elim
      rintro _ s' (⟨_, rfl⟩ | ⟨user, _, hConsistent, hLoggedOut⟩)
      · exact h
      · exact ⟨hConsistent, hLoggedOut.inBounds h.inBounds⟩
  | SystemHeartBeat =>
      exact jobSystemHeartBeat_ends.mono (fun _ _ hSame => hSame ▸ h) fun _ _ hFalse => hFalse.elim
  | INVALID => exact h

/-- The step lemma for one job. -/
theorem processJob_keeps (env : Env Node) (h : Sound s) (hMove : MoveInGrid s job) :
    match processJob env s job with
    | .ok s' => Sound s'
    | .error undefined => undefined ≠ .sectorOutOfBounds ∧ undefined ≠ .eraseEnd := by
  have hEnds := handleJob_ends env h hMove
  unfold processJob
  cases hHandle : handleJob env job s with
  | ok _ s' => exact hEnds.of_ok hHandle
  | error stop s' =>
      have hStop := hEnds.of_error hHandle
      cases stop with
      | thrown exn => exact hStop.of_sameUsers ⟨rfl, rfl, rfl⟩
      | ended undefined => exact hStop

/-- Every move that is made in the run stays in the grid. -/
def MovesInGrid (env : Env Node) (start : EventHandler Node) (jobs : List Job) : Prop :=
  ∀ done job s, done ++ [job] <+: jobs → processJobs env start done = .ok s → MoveInGrid s job

section Runs

variable {start : EventHandler Node} {jobs done : List Job}

/-- One more job after the others. -/
theorem processJobs_append_singleton :
    processJobs env start (jobs ++ [job]) =
      (processJobs env start jobs).bind fun s => processJob env s job := by
  rw [processJobs, List.foldlM_append]
  simp only [List.foldlM_cons, List.foldlM_nil]
  change (processJobs env start jobs).bind (fun s => (processJob env s job).bind .ok) = _
  congr 1
  funext s
  cases processJob env s job <;> rfl

/-- A condition on all jobs is one on those before any of them. -/
theorem MovesInGrid.of_prefix (h : MovesInGrid env start jobs) (hPrefix : done <+: jobs) :
    MovesInGrid env start done :=
  fun earlier job s hEarlier => h earlier job s (hEarlier.trans hPrefix)

/-- The run lemma. -/
theorem processJobs_keeps (hStart : Sound start) (h : MovesInGrid env start jobs) :
    match processJobs env start jobs with
    | .ok s => Sound s
    | .error undefined => undefined ≠ .sectorOutOfBounds ∧ undefined ≠ .eraseEnd := by
  induction jobs using List.reverseRecOn with
  | nil => exact hStart
  | append_singleton jobs job ih =>
      have hDone := ih (h.of_prefix (List.prefix_append jobs [job]))
      rw [processJobs_append_singleton]
      cases hRun : processJobs env start jobs with
      | error undefined =>
          rw [hRun] at hDone
          exact hDone
      | ok s =>
          rw [hRun] at hDone
          exact processJob_keeps env hDone (h jobs job s (List.prefix_refl _) hRun)

/-- Soundness after any run of jobs. -/
theorem sound_of_processJobs (hStart : Sound start) (h : MovesInGrid env start jobs)
    (hRun : processJobs env start jobs = .ok s) : Sound s := by
  have hKeeps := processJobs_keeps hStart h
  rwa [hRun] at hKeeps

end Runs

/-- A server without users is sound. -/
theorem sound_of_empty (hSessions : s.userManager.sessionUserMap = ∅)
    (hAccounts : s.userManager.accountUserMap = ∅) (hSectors : ∀ cell, s.sectorManager.sector cell = [])
    (hPool : s.userManager.userPool.Lends fun _ => False) : Sound s := by
  have hLive {user : Node} : s.Live user ↔ False := by simp [EventHandler.Live, hSessions]
  refine ⟨⟨?_, ?_, ?_, ?_⟩, fun user hUser => (hLive.mp hUser).elim⟩
  · rw [hSessions]
    exact (Indexed.empty _).congr (fun _ => hLive) fun _ _ => rfl
  · rw [hAccounts]
    exact (Indexed.empty _).congr (fun _ => hLive) fun _ _ => rfl
  · refine ⟨fun hStands => (hLive.mp hStands.1).elim, fun {user cell} _ => ?_⟩
    rw [hSectors]
    exact List.not_mem_nil
  · exact hPool.congr fun _ => hLive

/-- The new server is. -/
theorem new_sound (env : Env Node) (users : Node → ChatUser) : Sound (.new env users) := by
  have hPool := ObjectPool.new_lends (A := env.allocator) 1024
  unfold EventHandler.new
  generalize ObjectPool.new env.allocator 1024 = pool at hPool ⊢
  exact sound_of_empty rfl rfl (fun _ => rfl) hPool

section Zero

/-- An allocator that counts up. -/
def aboveAll : ObjectPool.Allocator Nat where
  malloc allocated := allocated.foldr max 0 + 1
  fresh allocated := by
    have hLe : ∀ n ∈ allocated, n ≤ allocated.foldr max 0 := by
      induction allocated with
      | nil => simp
      | cons m allocated ih =>
          intro n hMem
          rw [List.foldr_cons]
          cases List.mem_cons.mp hMem with
          | inl hEq => omega
          | inr hIn => exact Nat.le_trans (ih n hIn) (Nat.le_max_right ..)
    exact fun hMem => Nat.not_succ_le_self _ (hLe _ hMem)

/-- Fresh memory is zero, and no `SendPacket` throws. -/
def zeroEnv : Env Nat where
  allocator := aboveAll
  sendMemory _ := ⟨List.replicate 4101 0, List.length_replicate⟩
  sendThrows _ := false

def zeroUser : ChatUser where
  accountNo := 0
  id := ⟨List.replicate 40 0, List.length_replicate⟩
  nickname := ⟨List.replicate 40 0, List.length_replicate⟩
  sessionId := 0
  curSectorPos := ⟨0, 0⟩

/-- What the receiver hands over for this body. -/
def clientPacket (body : List UInt8) : Packet netLayout where
  buffer := List.replicate 5 0 ++ body ++ List.replicate (4096 - body.length) 0
  readPos := 5
  writePos := 5 + body.length
  bodyBegin := 5
  bodyEnd := 4096
  encodeBegin := 4
  isEncoded := 0

def undefinedOf : Except Undefined (EventHandler Nat) → Option Undefined
  | .ok _ => none
  | .error undefined => some undefined

end Zero

end NfNetwork.Chat
