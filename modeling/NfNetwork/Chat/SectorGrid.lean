import NfNetwork.Chat.RoomRuns

/-! A sector move is made wherever the client asks, and a message is copied however long it is. What
the grid promises holds in exactly the runs in which no client asks for a place outside it and no
message overwrites what is behind its buffer, `mSectorManager` among it. -/
namespace NfNetwork.Chat

open Machinery Handler

theorem chatResSectorMove_isSome (accountNo : Int64) (sectorX sectorY : Nat)
    (memory : netLayout.Memory) :
    ∃ response, chatResSectorMove accountNo sectorX sectorY (.initial memory) = some response := by
  obtain ⟨p1, h1, hHolds1, _⟩ := (Packet.initial_holds memory).putScalar 2
    ePacketType.CS_CHAT_RES_SECTOR_MOVE.value (by decide)
  obtain ⟨p2, h2, hHolds2, _⟩ := hHolds1.putScalar 8 accountNo.toUInt64.toNat (by simp; decide)
  obtain ⟨p3, h3, hHolds3, _⟩ := hHolds2.putScalar 2 sectorX (by simp; decide)
  obtain ⟨p4, h4, _, _⟩ := hHolds3.putScalar 2 sectorY (by simp; decide)
  exact ⟨p4, by simp [chatResSectorMove, h1, h2, h3, h4]⟩

variable {Node : Type} [DecidableEq Node] {env : Env Node} {s s' start : EventHandler Node}
  {job : Job} {jobs : List Job}

/-- A move out of the grid leaves `mSector` or leaves its user at no cell. -/
theorem processJob_leaves (env : Env Node) {user : Node} {destSectorPos : Int2} (h : Sound s)
    (hMove : Moves s job user destSectorPos) (hOut : ¬ InGrid destSectorPos) :
    match processJob env s job with
    | .ok s' => ¬ s'.InBounds
    | .error undefined => undefined = .sectorOutOfBounds := by
  obtain ⟨hType, hFound, packet, q, rest, hPacket, hRead, hAccount, rfl⟩ := hMove
  obtain ⟨response, hResponse⟩ := chatResSectorMove_isSome (s.users user).accountNo q.sectorX
    q.sectorY (env.sendMemory s.allocated)
  have hAllocated : Sound { s with allocated := s.allocated + 1 } := h.of_sameUsers ⟨rfl, rfl, rfl⟩
  have hLive : s.Live user := ⟨_, hFound⟩
  have hEnds : Ends (handleJob env job) s (fun _ s' => ¬ s'.InBounds) fun stop s' =>
      stop = .ended .sectorOutOfBounds ∨ stop = .thrown .invalidArgument ∧ ¬ s'.InBounds := by
    simp only [handleJob, hType, jobUserSectorMove, ends_bind, recvPacket, hPacket, ends_pure, hRead,
      ends_ofRead_ok, findUserOrNull, ends_get, hFound, if_neg (not_not.mpr hAccount),
      ends_allocSend, hResponse, ends_ofWrite_some]
    refine (tryMove_ends hAllocated.consistent hAllocated.inBounds hLive).mono ?_
      fun _ _ hStop => .inl hStop.1
    rintro _ moved ⟨_, hMoved⟩
    have hLost : ¬ EventHandler.InBounds { moved with sent := moved.sent ++ [(job.sessionId, response)] } := by
      intro hBounds
      have hUser := hBounds user (hMoved.live.mpr hLive)
      change (moved.users user).curSectorPos = _ ∨ InGrid (moved.users user).curSectorPos at hUser
      rw [hMoved.curSectorPos] at hUser
      cases hUser with
      | inl hInvalid =>
          have hx := congrArg Int2.x hInvalid
          simp only [invalidSectorPos] at hx
          omega
      | inr hIn => exact hOut hIn
    exact ends_sendPacket (fun _ => hLost) fun _ => .inr ⟨rfl, hLost⟩
  unfold processJob
  cases hHandle : handleJob env job s with
  | ok _ s' => exact hEnds.of_ok hHandle
  | error stop s' =>
      obtain rfl | ⟨rfl, hLost⟩ := hEnds.of_error hHandle
      · rfl
      · exact hLost

/-- In a run of jobs every index that is used is a cell's, every position is a cell, and nothing else
is overwritten: the run is cut short only where the copy of a name ends the process. -/
structure GridSafe (env : Env Node) (start : EventHandler Node) (jobs : List Job) : Prop where
  accesses : ∀ done undefined, done <+: jobs → processJobs env start done = .error undefined →
    undefined = .invalidParameter
  positions : ∀ done s, done <+: jobs → processJobs env start done = .ok s → s.InBounds

/-- Every request that is handled in the run has its packet, and every message fits its buffer. -/
def StaysInMemory (env : Env Node) (start : EventHandler Node) (jobs : List Job) : Prop :=
  ∀ done job s, done ++ [job] <+: jobs → processJobs env start done = .ok s → ¬ LeavesMemory job

/-- The run lemma. -/
theorem processJobs_stays (hStart : Sound start) (hRead : ∀ job ∈ jobs, job.Readable)
    (hMoves : MovesInGrid env start jobs) (hStays : StaysInMemory env start jobs) :
    match processJobs env start jobs with
    | .ok s => Sound s
    | .error undefined => undefined = .invalidParameter := by
  induction jobs using List.reverseRecOn with
  | nil => exact hStart
  | append_singleton jobs job ih =>
      have hPrefix : jobs <+: jobs ++ [job] := List.prefix_append ..
      have hDone := ih (fun job hMem => hRead job (List.mem_append_left _ hMem)) (hMoves.of_prefix hPrefix)
        fun earlier job s hEarlier => hStays earlier job s (hEarlier.trans hPrefix)
      rw [processJobs_append_singleton]
      cases hRun : processJobs env start jobs with
      | error undefined =>
          rw [hRun] at hDone
          exact hDone
      | ok s =>
          rw [hRun] at hDone
          have hMove := hMoves jobs job s (List.prefix_refl _) hRun
          have hKeeps := processJob_keeps env hDone hMove
          have hFollows := processJob_follows env hDone (hRead job (by simp)) hMove
          change match processJob env s job with
            | .ok s' => Sound s'
            | .error undefined => undefined = .invalidParameter
          cases hJob : processJob env s job with
          | ok s' =>
              rw [hJob] at hKeeps
              exact hKeeps
          | error undefined =>
              rw [hJob] at hFollows
              exact hFollows.2.mpr (hStays jobs job s (List.prefix_refl _) hRun)

/-- A safe run asks for cells only, and stays in its memory, at each of its jobs. -/
theorem GridSafe.stays (hSafe : GridSafe env start jobs) (hRead : ∀ job ∈ jobs, job.Readable) {done : List Job}
    (hPrefix : done ++ [job] <+: jobs) (hRun : processJobs env start done = .ok s) (h : Sound s) :
    MoveInGrid s job ∧ ¬ LeavesMemory job := by
  have hStep : processJobs env start (done ++ [job]) = processJob env s job := by
    rw [processJobs_append_singleton, hRun]
    rfl
  have hMove : MoveInGrid s job := by
    intro user destSectorPos hMove
    by_contra hOut
    have hLeaves := processJob_leaves env h hMove hOut
    cases hResult : processJob env s job with
    | ok s' =>
        rw [hResult] at hLeaves hStep
        exact hLeaves (hSafe.positions _ s' hPrefix hStep)
    | error undefined =>
        rw [hResult] at hLeaves hStep
        cases hLeaves.symm.trans (hSafe.accesses _ undefined hPrefix hStep)
  refine ⟨hMove, ?_⟩
  have hFollows := processJob_follows env h (hRead job (hPrefix.subset (by simp))) hMove
  cases hResult : processJob env s job with
  | ok s' =>
      rw [hResult] at hFollows
      exact fun hLeaves => hFollows.1 (hLeaves.breaks _)
  | error undefined =>
      rw [hResult] at hFollows hStep
      exact hFollows.2.mp (hSafe.accesses _ undefined hPrefix hStep)

/-- The grid is safe in exactly the runs whose moves stay in it and whose messages fit. -/
theorem gridSafe_iff (env : Env Node) (users : Node → ChatUser) (hRead : ∀ job ∈ jobs, job.Readable) :
    GridSafe env (.new env users) jobs ↔
      MovesInGrid env (.new env users) jobs ∧ StaysInMemory env (.new env users) jobs := by
  have hStart := new_sound env users
  generalize EventHandler.new env users = start at hStart
  constructor
  · intro hSafe
    have hSound : ∀ done, done <+: jobs → ∀ s, processJobs env start done = .ok s → Sound s := by
      intro done
      induction done using List.reverseRecOn with
      | nil =>
          rintro _ s ⟨⟩
          exact hStart
      | append_singleton done last ih =>
          intro hPrefix s' hRun
          rw [processJobs_append_singleton] at hRun
          cases hBefore : processJobs env start done with
          | error undefined =>
              rw [hBefore] at hRun
              cases hRun
          | ok s =>
              have h := ih ((List.prefix_append done [last]).trans hPrefix) s hBefore
              have hKeeps := processJob_keeps env h (hSafe.stays hRead hPrefix hBefore h).1
              rw [hBefore] at hRun
              change processJob env s last = .ok s' at hRun
              rwa [hRun] at hKeeps
    have hStays (done : List Job) (job : Job) (s : EventHandler Node) (hPrefix : done ++ [job] <+: jobs)
        (hRun : processJobs env start done = .ok s) : MoveInGrid s job ∧ ¬ LeavesMemory job :=
      hSafe.stays hRead hPrefix hRun (hSound done ((List.prefix_append done [job]).trans hPrefix) s hRun)
    exact ⟨fun done job s hPrefix hRun => (hStays done job s hPrefix hRun).1,
      fun done job s hPrefix hRun => (hStays done job s hPrefix hRun).2⟩
  · rintro ⟨hMoves, hStays⟩
    have hRuns (done : List Job) (hPrefix : done <+: jobs) := processJobs_stays hStart
      (fun job hMem => hRead job (hPrefix.subset hMem)) (hMoves.of_prefix hPrefix)
      fun earlier job s hEarlier => hStays earlier job s (hEarlier.trans hPrefix)
    constructor
    · intro done undefined hPrefix hEnd
      have hKeeps := hRuns done hPrefix
      rwa [hEnd] at hKeeps
    · intro done s hPrefix hRun
      have hKeeps := hRuns done hPrefix
      rw [hRun] at hKeeps
      exact hKeeps.inBounds

/-- A login, a move to a cell and a short message. -/
theorem gridSafe_iff_loginMoveTalk : GridSafe zeroEnv (.new zeroEnv fun _ => zeroUser) loginMoveTalk := by
  refine (gridSafe_iff zeroEnv (fun _ => zeroUser) loginMoveTalk_readable).mpr
    ⟨loginMoveTalk_movesInGrid _, fun done job s hPrefix _ => ?_⟩
  have hMem := hPrefix.subset (List.mem_append_right done (List.mem_singleton_self job))
  simp only [loginMoveTalk, List.mem_cons, List.not_mem_nil, or_false] at hMem
  obtain rfl | rfl | rfl := hMem
  · exact id
  · exact id
  · exact fun hOver => absurd hOver.2 (by decide +kernel)

private def loginAndLeave : List Job := [
  ⟨.UserLogin, 1, some (clientPacket loginBody)⟩,
  ⟨.UserSectorMove, 1, some (clientPacket ([3, 0] ++ List.replicate 8 0 ++ [0, 0, 255, 255]))⟩]

/-- After its login a client asks for row 65535. -/
theorem gridSafe_fails :
    ¬ ∀ (env : Env Nat) (users : Nat → ChatUser) (jobs : List Job), (∀ job ∈ jobs, job.Readable) →
      GridSafe env (.new env users) jobs := by
  have hEnd : undefinedOf (processJobs zeroEnv (.new zeroEnv fun _ => zeroUser) loginAndLeave) =
      some .sectorOutOfBounds := by decide +kernel
  have hRead : ∀ job ∈ loginAndLeave, job.Readable := by
    intro job hMem packet hPacket
    simp only [loginAndLeave, List.mem_cons, List.not_mem_nil, or_false] at hMem
    obtain rfl | rfl := hMem
    all_goals
      obtain rfl := Option.some.inj hPacket
      exact clientPacket_unread (by decide +kernel)
  intro hSafe
  have hAccesses := (hSafe zeroEnv (fun _ => zeroUser) loginAndLeave hRead).accesses loginAndLeave
  cases hRun : processJobs zeroEnv (.new zeroEnv fun _ => zeroUser) loginAndLeave with
  | ok s =>
      rw [hRun] at hEnd
      cases hEnd
  | error undefined =>
      rw [hRun] at hEnd
      cases (Option.some.inj hEnd).symm.trans (hAccesses undefined (List.prefix_refl _) hRun)

end NfNetwork.Chat
