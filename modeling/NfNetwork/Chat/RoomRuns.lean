import NfNetwork.Chat.JobOrder
import NfNetwork.Chat.RoomSteps

/-! The chat refines the room. A run of jobs is a run of the room's requests: its members are in,
each session finds in its packets what the room tells it, and the same sessions are sent away. The
job thread is undefined exactly when the room comes to a job that breaks it. -/
namespace NfNetwork.Chat

open Machinery

variable {Node : Type} [DecidableEq Node] {env : Env Node} {s s' : EventHandler Node} {job : Job}

/-- What comes of the requests of these jobs. -/
noncomputable def roomOf (jobs : List Job) : ChatOutcome :=
  Room.run hears invalidSectorPos (jobs.map fun job => (job.sessionId, job.request))

/-- The room after one more job. -/
theorem roomOf_append_singleton (jobs : List Job) :
    roomOf (jobs ++ [job]) =
      Room.next hears invalidSectorPos (roomOf jobs) (job.sessionId, job.request) := by
  simp [roomOf, Room.run]

omit [DecidableEq Node] in
/-- What the next job adds is added to what had come of the jobs before it. -/
theorem Shows.next {start : EventHandler Node} {outcome : ChatOutcome} (h : Shows env start s outcome)
    (hStep : Shows env s s' (s.expected job)) :
    Shows env start s' (Room.next hears invalidSectorPos outcome (job.sessionId, job.request)) := by
  rw [EventHandler.expected, h.room] at hStep
  refine ⟨hStep.room, h.sent.trans hStep.sent, fun hReturned k => ?_, fun hReturned => ?_⟩
  · rw [hStep.heard hReturned, h.heard (hReturned.of_prefix hStep.sent), List.append_assoc,
      ← List.map_append]
    rfl
  · rw [hStep.disconnected hReturned, h.disconnected (hReturned.of_prefix hStep.sent), List.append_assoc]
    rfl

/-- The room never comes to a job that breaks the job thread. -/
def NeverBreaks (jobs : List Job) : Prop :=
  ∀ done job, done ++ [job] <+: jobs → ¬ Breaks (roomOf done).room job

/-- One more job that does not break the rules. -/
theorem neverBreaks_append_singleton {jobs : List Job} :
    NeverBreaks (jobs ++ [job]) ↔ NeverBreaks jobs ∧ ¬ Breaks (roomOf jobs).room job := by
  constructor
  · intro h
    exact ⟨fun done job hDone => h done job (hDone.trans (List.prefix_append ..)),
      h jobs job (List.prefix_refl _)⟩
  · rintro ⟨hBefore, hLast⟩ done last hDone
    cases List.prefix_concat_iff.mp hDone with
    | inr hEarlier => exact hBefore done last hEarlier
    | inl hAll =>
        obtain ⟨rfl, hJob⟩ := List.append_inj' hAll rfl
        obtain rfl : last = job := by simpa using hJob
        exact hLast

/-- The run lemma. -/
theorem processJobs_follows {start : EventHandler Node} {jobs : List Job} (hStart : Sound start)
    (hEmpty : Shows env start start Room.empty) (hRead : ∀ job ∈ jobs, job.Readable)
    (hMoves : MovesInGrid env start jobs) :
    match processJobs env start jobs with
    | .ok s => NeverBreaks jobs ∧ Shows env start s (roomOf jobs)
    | .error _ => ¬ NeverBreaks jobs := by
  induction jobs using List.reverseRecOn with
  | nil =>
      refine ⟨fun done job hDone => ?_, hEmpty⟩
      simp at hDone
  | append_singleton jobs job ih =>
      have hDone := ih (fun job hMem => hRead job (List.mem_append_left _ hMem))
        (hMoves.of_prefix (List.prefix_append jobs [job]))
      rw [processJobs_append_singleton, neverBreaks_append_singleton]
      cases hRun : processJobs env start jobs with
      | error undefined =>
          rw [hRun] at hDone
          exact fun hNever => hDone hNever.1
      | ok s =>
          rw [hRun] at hDone
          obtain ⟨hNever, hShows⟩ := hDone
          have hSound := sound_of_processJobs hStart (hMoves.of_prefix (List.prefix_append jobs [job])) hRun
          have hStep := processJob_follows env hSound (hRead job (by simp))
            (hMoves jobs job s (List.prefix_refl _) hRun)
          change match processJob env s job with
            | .ok s' => _
            | .error _ => _
          simp only [Returned, hShows.room] at hStep
          cases hJob : processJob env s job with
          | error undefined =>
              rw [hJob] at hStep
              exact fun hBoth => hBoth.2 hStep.1
          | ok s' =>
              rw [hJob] at hStep
              rw [roomOf_append_singleton]
              exact ⟨⟨hNever, hStep.1⟩, hShows.next hStep.2⟩

omit [DecidableEq Node] in
/-- The new server shows the empty room. -/
theorem shows_new (env : Env Node) (users : Node → ChatUser) :
    Shows env (.new env users) (.new env users) Room.empty :=
  ⟨rfl, List.prefix_refl _, fun _ _ => rfl, fun _ => rfl⟩

/-- A run comes to its end exactly when no job of it breaks the thread. -/
theorem processJobs_returns_iff {start : EventHandler Node} {jobs : List Job} (hStart : Sound start)
    (hEmpty : Shows env start start Room.empty) (hRead : ∀ job ∈ jobs, job.Readable)
    (hMoves : MovesInGrid env start jobs) :
    (∃ s, processJobs env start jobs = .ok s) ↔ NeverBreaks jobs := by
  have hFollows := processJobs_follows hStart hEmpty hRead hMoves
  cases hRun : processJobs env start jobs with
  | ok s =>
      rw [hRun] at hFollows
      exact iff_of_true ⟨s, rfl⟩ hFollows.1
  | error undefined =>
      rw [hRun] at hFollows
      refine iff_of_false ?_ hFollows
      rintro ⟨s, hOk⟩
      cases hOk

/-- The job thread gets through its jobs, whatever clients sent, exactly when the room never comes to
one that breaks it. -/
theorem processJobs_ok_iff (env : Env Node) (users : Node → ChatUser) {jobs : List Job}
    (hRead : ∀ job ∈ jobs, job.Readable) (hMoves : MovesInGrid env (.new env users) jobs) :
    (∃ s, processJobs env (.new env users) jobs = .ok s) ↔ NeverBreaks jobs :=
  processJobs_returns_iff (new_sound env users) (shows_new env users) hRead hMoves

/-- The receiver hands over a body as it came. -/
theorem clientPacket_unread {body : List UInt8} (hLength : body.length ≤ 4096) :
    (clientPacket body).Unread [] (clientPacket body).body := by
  have hPlaced : (clientPacket body).Placed body.length := {
    total := by
      change (List.replicate 5 0 ++ body ++ List.replicate (4096 - body.length) 0).length = 5 + 4096
      simp
      omega
    bodyBegin := rfl
    encodeBegin := rfl
    bodyEnd := rfl
    readPos := rfl
    writePos := rfl }
  exact (hPlaced.unread hLength).1

/-- A login of account 0 without names, a move and a message of two bytes. -/
def loginBody : List UInt8 := [1, 0] ++ List.replicate 152 0

def moveBody : List UInt8 := [3, 0] ++ List.replicate 8 0 ++ [1, 0, 2, 0]

def greetingBody : List UInt8 := [5, 0] ++ List.replicate 8 0 ++ [2, 0, 104, 0]

def loginMoveTalk : List Job := [⟨.UserLogin, 1, some (clientPacket loginBody)⟩,
  ⟨.UserSectorMove, 1, some (clientPacket moveBody)⟩, ⟨.UserMessage, 1, some (clientPacket greetingBody)⟩]

/-- A login, a move and a message that can be read, -/
theorem loginMoveTalk_readable : ∀ job ∈ loginMoveTalk, job.Readable := by
  intro job hMem packet hPacket
  simp only [loginMoveTalk, List.mem_cons, List.not_mem_nil, or_false] at hMem
  obtain rfl | rfl | rfl := hMem
  all_goals
    obtain rfl := Option.some.inj hPacket
    exact clientPacket_unread (by decide +kernel)

/-- whose move goes to the cell (1, 2), -/
theorem moveBody_read {q : CsChatReqSectorMove} {rest : Packet netLayout}
    (hRead : CsChatReqSectorMove.read (clientPacket moveBody) = .ok (q, rest)) :
    q.sectorX = 1 ∧ q.sectorY = 2 := by
  have hFields : (CsChatReqSectorMove.read (clientPacket moveBody)).toOption.map
      (fun read => (read.1.sectorX, read.1.sectorY)) = some (1, 2) := by decide +kernel
  rw [hRead] at hFields
  exact Prod.mk.inj (Option.some.inj hFields)

/-- which is in the grid. -/
theorem loginMoveTalk_movesInGrid (start : EventHandler Nat) : MovesInGrid zeroEnv start loginMoveTalk := by
  rintro done job s hPrefix _ user _ ⟨hType, _, packet, q, rest, hPacket, hRead, _, hPos⟩
  have hMem := hPrefix.subset (List.mem_append_right done (List.mem_singleton_self job))
  simp only [loginMoveTalk, List.mem_cons, List.not_mem_nil, or_false] at hMem
  obtain rfl | rfl | rfl := hMem
  · cases hType
  · obtain rfl := Option.some.inj hPacket
    obtain ⟨hX, hY⟩ := moveBody_read hRead
    rw [hPos, hX, hY]
    decide
  · cases hType

/-- A login, a move to the second cell of the third row and a message, which its speaker hears. -/
theorem processJobs_ok_iff_loginMoveTalk :
    ∃ s, processJobs zeroEnv (.new zeroEnv fun _ => zeroUser) loginMoveTalk = .ok s ∧
      s.heard 1 = [some (.login true 0), some (.sectorMove 0 ⟨1, 2⟩), some (.message 0 [] [] [104, 0])] ∧
      NeverBreaks loginMoveTalk := by
  have hHeard : (processJobs zeroEnv (.new zeroEnv fun _ => zeroUser) loginMoveTalk).toOption.map
      (fun s => s.heard 1) =
        some [some (.login true 0), some (.sectorMove 0 ⟨1, 2⟩), some (.message 0 [] [] [104, 0])] := by
    decide +kernel
  obtain ⟨s, hSome, hHeard⟩ := Option.map_eq_some_iff.mp hHeard
  have hRun : processJobs zeroEnv (.new zeroEnv fun _ => zeroUser) loginMoveTalk = .ok s := by
    cases hEnd : processJobs zeroEnv (.new zeroEnv fun _ => zeroUser) loginMoveTalk with
    | ok s' =>
        rw [hEnd] at hSome
        exact congrArg _ (Option.some.inj hSome)
    | error undefined =>
        rw [hEnd] at hSome
        cases hSome
  exact ⟨s, hRun, hHeard, (processJobs_ok_iff zeroEnv (fun _ => zeroUser) loginMoveTalk_readable
    (loginMoveTalk_movesInGrid _)).mp ⟨s, hRun⟩⟩

/-- A body that the receiver hands over, of a client that moves about in the grid. -/
structure InBody (contents : Packet netLayout) : Prop where
  unread : contents.Unread [] contents.body
  inGrid : receivedJobType contents = .UserSectorMove → ∀ accountNo sectorPos,
    requestOf .UserSectorMove contents.body = .sectorMove accountNo sectorPos → InGrid sectorPos

/-- A job that `OnReceived` makes of bytes within the body can be read. -/
theorem Made.readable (h : Made (fun _ => InBody) job) : job.Readable := by
  intro packet hPacket
  rw [Made, hPacket] at h
  exact h.2.2.unread

omit [DecidableEq Node] in
/-- Such a job moves within the grid. -/
theorem Made.moveInGrid (h : Made (fun _ => InBody) job) (s : EventHandler Node) : MoveInGrid s job := by
  rintro user _ ⟨hType, _, packet, q, rest, hPacket, hFields, _, rfl⟩
  rw [Made, hPacket] at h
  obtain ⟨hSame, _, hBody⟩ := h
  have hLong : 14 ≤ packet.body.length := by
    by_contra hShort
    rw [CsChatReqSectorMove.reads.throws hBody.unread (Nat.lt_of_not_le hShort)] at hFields
    cases hFields
  obtain ⟨q', rest', hFields', ⟨hAccount, hX, hY⟩, _⟩ := CsChatReqSectorMove.reads.returns hBody.unread hLong
  cases hFields.symm.trans hFields'
  rw [fieldOf_take _ (by omega)] at hAccount hX hY
  refine hBody.inGrid (hSame.symm.trans hType) q.accountNo _ ?_
  rw [requestOf, if_neg (by omega), hAccount, hX, hY]

namespace JobSystem

variable {Io P : Type} [DecidableEq Io] [DecidableEq P] [Fintype Io] {users : Node → ChatUser}
  {contents : P → Packet netLayout}

omit [DecidableEq Io] [DecidableEq P] [DecidableEq Node] [Fintype Io] in
/-- Every job that was handled had been posted. -/
theorem InOrder.made_of_handled {Good : Nat → Packet netLayout → Prop} {s : JobSystem Io P Node}
    {posted : List Job} (h : InOrder Good s posted) : ∀ job ∈ s.shared.handled, Made Good job := by
  obtain ⟨before, after, hPosted, hHandled, _⟩ := h.order
  intro job hMem
  refine h.made job ?_
  rw [hHandled, List.mem_append, List.mem_filter] at hMem
  rw [hPosted, List.mem_append, List.mem_append]
  tauto

/-- What was handled, and what the chat shows of it. -/
theorem handled_follows {s : JobSystem Io P Node} {posted : List Job}
    (h : Reachable (Takes (recorded (step env) posts)) (fun s => Decodes (fun _ => InBody) s.1)
      (start env users contents, []) (s, posted)) :
    (∀ job ∈ s.shared.handled, job.Readable) ∧
      MovesInGrid env (.new env users) s.shared.handled ∧
      processJobs env (.new env users) s.shared.handled = .ok s.shared.chat ∧
      Shows env (.new env users) s.shared.chat (roomOf s.shared.handled) := by
  have hMade := (inOrder_of_recorded h).made_of_handled
  have hReplays : processJobs env (.new env users) s.shared.handled = .ok s.shared.chat :=
    Reached.replays (reachable_of_recorded h)
  have hMoves : MovesInGrid env (.new env users) s.shared.handled :=
    fun done job s hPrefix _ => (hMade job (hPrefix.subset (by simp))).moveInGrid s
  have hRead : ∀ job ∈ s.shared.handled, job.Readable := fun job hMem => (hMade job hMem).readable
  have hFollows := processJobs_follows (new_sound env users) (shows_new env users) hRead hMoves
  rw [hReplays] at hFollows
  exact ⟨hRead, hMoves, hReplays, hFollows.2⟩

end JobSystem

end NfNetwork.Chat
