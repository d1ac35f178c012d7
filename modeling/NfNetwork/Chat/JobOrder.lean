import NfNetwork.Chat.HandledJobs

/-! The jobs between the threads that make them and the one that handles them. None is lost, made
twice, overtaken or altered: a packet is not written again before its job is handled. `OnQuit`
handles only the disconnects of what is left. -/
namespace NfNetwork.Chat

open Machinery

variable {Io P Node : Type}

/-- What a step has put in the queue, as it was then. -/
def Shared.posts (g g' : Shared P Node) : List Job := (g'.jobQueue.drop g.jobQueue.length).map g.load

/-- A job that is taken out of the queue and whose handler has not run. -/
def JobPlace.hand : JobPlace P → List (QueuedJob P)
  | .handle job => [job]
  | _ => []

def QuitPlace.hand : QuitPlace P → List (QueuedJob P)
  | .handle job => [job]
  | _ => []

/-- `OnQuit` handles no other jobs. -/
def Job.disconnects (job : Job) : Bool := job.jobType = .SystemDisconnectUser

/-- The job is one of the server's own, or what `OnReceived` made of a packet as it was decoded. -/
def Made (Good : Nat → Packet netLayout → Prop) (job : Job) : Prop :=
  match job.recvPacket with
  | none => job.jobType = .SystemDisconnectUser ∨ job.jobType = .SystemHeartBeat
  | some contents => job.jobType = receivedJobType contents ∧ job.jobType ≠ .INVALID ∧
      Good job.sessionId contents

/-- What the thread has decoded is still in the packet. -/
def IoPlace.Carries (Good : Nat → Packet netLayout → Prop) (packets : P → RecvPacket) :
    IoPlace P → Prop
  | .onReceived d | .peekBody d => Good d.sessionId (packets d.packet).contents
  | .addRefReceived d jobType | .checkRefCount d jobType _ | .enqueue d jobType =>
    jobType = receivedJobType (packets d.packet).contents ∧ jobType ≠ .INVALID ∧
      Good d.sessionId (packets d.packet).contents
  | _ => True

/-- The packet whose contents matter to the thread. -/
def IoPlace.reads : IoPlace P → Option P
  | .onReceived d | .peekBody d | .addRefReceived d _ | .checkRefCount d _ _ | .enqueue d _ =>
    some d.packet
  | _ => none

section Contents

variable {g g' : Shared P Node} {Good : Nat → Packet netLayout → Prop}

/-- The contents of this packet are as they were. -/
def Shared.Keeps (g g' : Shared P Node) (p : P) : Prop :=
  (g'.packets p).contents = (g.packets p).contents

/-- What a thread carries depends on the packet that it is about to read only. -/
theorem IoPlace.Carries.congr {place : IoPlace P} (h : place.Carries Good g.packets)
    (hSame : ∀ p, place.reads = some p → g.Keeps g' p) : place.Carries Good g'.packets := by
  cases place with
  | onReceived d | peekBody d | addRefReceived d _ | checkRefCount d _ _ | enqueue d _ =>
      simp only [IoPlace.Carries, show (g'.packets d.packet).contents = _ from hSame d.packet rfl]
      exact h
  | idle | addRef | fill | disconnect | set | tryFreeRecv | giveBack | threw | ended => trivial

/-- The same for a job: it is what its packet says. -/
theorem Shared.load_congr {job : QueuedJob P} (hSame : ∀ p, job.recvPacket = some p → g.Keeps g' p) :
    g'.load job = g.load job := by
  rw [Shared.load, Shared.load]
  congr 1
  exact Option.map_congr hSame

end Contents

section Steps

variable [DecidableEq P] {g : Shared P Node} {Good : Nat → Packet netLayout → Prop}

/-- What a step of a producer does to the queue. -/
structure Posts (Good : Nat → Packet netLayout → Prop) (g g' : Shared P Node) : Prop where
  queue : ∃ new, g'.jobQueue = g.jobQueue ++ new ∧ ∀ job ∈ new, Made Good (g.load job)
  handled : g'.handled = g.handled

omit [DecidableEq P] in
/-- A step away from the queue posts nothing. -/
theorem Posts.nothing {g' : Shared P Node} (hQueue : g'.jobQueue = g.jobQueue)
    (hHandled : g'.handled = g.handled) : Posts Good g g' :=
  ⟨⟨[], by rw [hQueue, List.append_nil], fun _ hMem => absurd hMem List.not_mem_nil⟩, hHandled⟩

omit [DecidableEq P] in
/-- `Enqueue` posts the job as it can be read at that moment. -/
theorem Posts.one {job : QueuedJob P} (h : Made Good (g.load job)) : Posts Good g (g.enqueue job) :=
  ⟨⟨[job], rfl, by simpa using h⟩, rfl⟩

omit [DecidableEq P] in
/-- A report of a disconnected session posts a job without a packet. -/
theorem report_posts (Good : Nat → Packet netLayout → Prop) (g : Shared P Node) (r : Report) :
    Posts Good g (g.report r).1 := by
  cases r with
  | enqueue sessionId => exact .one (.inl rfl)
  | set => exact .nothing rfl rfl

/-- Only the packet that is decoded into gets other contents. -/
theorem keeps_update {g' : Shared P Node} {q : P} {r : RecvPacket}
    (h : g'.packets = Function.update g.packets q r) (hr : r.contents = (g.packets q).contents) (p : P) :
    g.Keeps g' p := by
  rw [Shared.Keeps, h]
  by_cases hSame : p = q
  · rw [hSame, Function.update_self, hr]
  · rw [Function.update_of_ne hSame]

/-- Reference counts are no part of what is read. -/
theorem keeps_addRef (q : P) (n : Int) (p : P) : g.Keeps (g.addRef q n) p :=
  keeps_update (r := { g.packets q with refCount := (g.packets q).refCount + n }) rfl rfl p

/-- Nor is a packet's place in the pool. -/
theorem keeps_rent (q p : P) : g.Keeps (g.rent q) p :=
  keeps_update (r := { g.packets q with refCount := 0, rented := true }) rfl rfl p

/-- The same for its return. -/
theorem keeps_giveBack (q p : P) : g.Keeps (g.giveBack q) p :=
  keeps_update (r := { g.packets q with rented := false }) rfl rfl p

omit [DecidableEq P] in
/-- The contents are as they were, but for those of a packet that is decoded into. -/
def Shared.Spares (g g' : Shared P Node) (place : IoPlace P) : Prop :=
  (∀ p, g.Keeps g' p) ∨
    ∃ d, place = .fill d ∧ g'.jobQueue = g.jobQueue ∧ ∀ p, p ≠ d.packet → g.Keeps g' p

/-- An IO thread posts what it decoded, and leaves the packets of others alone. -/
theorem IoPlace.step_posts {place : IoPlace P} {c : IoChoice P} {next : Shared P Node × IoPlace P}
    (h : place.step g c = some next) (hCarries : place.Carries Good g.packets)
    (hGood : ∀ d contents, place = .fill d → c = .decoded contents → Good d.sessionId contents) :
    Posts Good g next.1 ∧ next.2.Carries Good next.1.packets ∧ g.Spares next.1 place := by
  fun_cases IoPlace.step g place c
  all_goals simp only [IoPlace.step, *, if_true, if_false, reduceCtorEq, Option.some.injEq] at h
  all_goals subst h
  case case2 d _ => exact ⟨.nothing rfl rfl, trivial, .inl (keeps_rent d.packet)⟩
  case case4 d => exact ⟨.nothing rfl rfl, trivial, .inl (keeps_addRef d.packet 1)⟩
  case case5 d contents =>
    refine ⟨.nothing rfl rfl, ?_, .inr ⟨d, rfl, rfl, fun p hOther => ?_⟩⟩
    · change Good d.sessionId (Function.update g.packets d.packet _ d.packet).contents
      rw [Function.update_self]
      exact hGood d contents rfl rfl
    · change (Function.update g.packets d.packet _ p).contents = _
      rw [Function.update_of_ne hOther]
  case case7 d =>
    refine ⟨.nothing rfl rfl, ?_, .inl fun _ => rfl⟩
    dsimp only
    split
    · trivial
    · exact hCarries
  case case8 d =>
    refine ⟨.nothing rfl rfl, ?_, .inl fun _ => rfl⟩
    dsimp only
    split
    · trivial
    · rename_i hType
      exact ⟨rfl, hType, hCarries⟩
  case case10 d jobType =>
    have hCarried : (IoPlace.checkRefCount d jobType 0 : IoPlace P).Carries Good g.packets := hCarries
    exact ⟨.nothing rfl rfl, hCarried.congr fun p _ => keeps_addRef d.packet 1 p, .inl (keeps_addRef d.packet 1)⟩
  case case11 d jobType refCount =>
    refine ⟨.nothing rfl rfl, ?_, .inl fun _ => rfl⟩
    dsimp only
    split
    · trivial
    · exact hCarries
  case case12 d jobType => exact ⟨.one hCarries, trivial, .inl fun _ => rfl⟩
  case case14 d crash =>
    refine ⟨.nothing rfl rfl, ?_, .inl (keeps_addRef d.packet (-1))⟩
    dsimp only
    split
    · trivial
    · cases crash <;> trivial
  case case15 d crash =>
    refine ⟨.nothing rfl rfl, ?_, .inl (keeps_giveBack d.packet)⟩
    cases crash <;> trivial
  all_goals exact ⟨.nothing rfl rfl, trivial, .inl fun _ => rfl⟩

/-- The same with its report, if it has one. -/
theorem IoThread.step_posts {t : IoThread P} {c : IoChoice P} {next : Shared P Node × IoThread P}
    (h : t.step g c = some next) (hCarries : t.place.Carries Good g.packets)
    (hGood : ∀ d contents, t.place = .fill d → c = .decoded contents → Good d.sessionId contents) :
    Posts Good g next.1 ∧ next.2.place.Carries Good next.1.packets ∧ g.Spares next.1 t.place := by
  obtain ⟨r, -, rfl⟩ | ⟨sessionId, -, -, rfl⟩ | ⟨result, -, hStep, rfl⟩ := IoThread.step_cases h
  · have hKeeps (p : P) : g.Keeps (g.report r).1 p := by
      cases r with
      | enqueue | set => rfl
    exact ⟨report_posts Good g r, hCarries.congr fun p _ => hKeeps p, .inl hKeeps⟩
  · exact ⟨.nothing rfl rfl, hCarries, .inl fun _ => rfl⟩
  · exact IoPlace.step_posts hStep hCarries hGood

omit [DecidableEq P] in
/-- The heartbeat thread posts a job without a packet. -/
theorem HeartbeatPlace.step_posts (Good : Nat → Packet netLayout → Prop) {place : HeartbeatPlace} {next : Shared P Node × HeartbeatPlace}
    (h : place.step g = some next) : Posts Good g next.1 ∧ ∀ p, g.Keeps next.1 p := by
  cases place with
  | waitOne | set =>
      obtain rfl := Option.some.inj h
      exact ⟨.nothing rfl rfl, fun _ => rfl⟩
  | enqueue =>
      obtain rfl := Option.some.inj h
      exact ⟨.one (.inr rfl), fun _ => rfl⟩
  | ended => cases h

/-- The job thread handles what it takes. -/
theorem JobPlace.step_passes [DecidableEq Node] {env : Env Node} {place : JobPlace P}
    {next : Shared P Node × JobPlace P} (h : place.step env g = some next) :
    (∀ p, g.Keeps next.1 p) ∧ g.posts next.1 = [] ∧
      ∃ passed, place.hand ++ g.jobQueue = passed ++ next.2.hand ++ next.1.jobQueue ∧
        next.1.handled = g.handled ++ passed.map g.load := by
  have hNothing : g.posts g = [] := by rw [Shared.posts, List.drop_length, List.map_nil]
  fun_cases JobPlace.step env g place
  all_goals simp only [JobPlace.step, *, if_true, if_false, reduceCtorEq, Option.some.injEq] at h
  all_goals subst h
  case case3 | case4 =>
    refine ⟨fun _ => rfl, hNothing, [], ?_, (List.append_nil _).symm⟩
    dsimp only
    split <;> rfl
  case case6 job later hQueue =>
    refine ⟨fun _ => rfl, ?_, [], hQueue, (List.append_nil _).symm⟩
    simp [Shared.posts, hQueue]
  case case8 job chat hJob => exact ⟨fun _ => rfl, hNothing, [job], rfl, rfl⟩
  case case9 job =>
    refine ⟨fun _ => rfl, hNothing, [], ?_, (List.append_nil _).symm⟩
    dsimp only
    split <;> rfl
  case case10 p =>
    refine ⟨keeps_addRef p (-1), hNothing, [], ?_, (List.append_nil _).symm⟩
    dsimp only
    split <;> rfl
  case case11 p => exact ⟨keeps_giveBack p, hNothing, [], rfl, (List.append_nil _).symm⟩
  all_goals exact ⟨fun _ => rfl, hNothing, [], rfl, (List.append_nil _).symm⟩

/-- `OnQuit` handles the disconnects of what it takes. -/
theorem QuitPlace.step_passes [DecidableEq Node] {jobEnded heartbeatEnded : Bool} {place : QuitPlace P}
    {next : Shared P Node × QuitPlace P} (h : place.step g jobEnded heartbeatEnded = some next) :
    (∀ p, g.Keeps next.1 p) ∧ g.posts next.1 = [] ∧
      ∃ passed, place.hand ++ g.jobQueue = passed ++ next.2.hand ++ next.1.jobQueue ∧
        next.1.handled = g.handled ++
          (passed.map g.load).filter Job.disconnects ∧
        (next.2.drains = false → place.drains = false ∧ passed = []) := by
  have hNothing : g.posts g = [] := by rw [Shared.posts, List.drop_length, List.map_nil]
  fun_cases QuitPlace.step g jobEnded heartbeatEnded place
  all_goals simp only [QuitPlace.step, *, if_true, if_false, reduceCtorEq, Option.some.injEq] at h
  all_goals subst h
  case case9 | case15 =>
    refine ⟨fun _ => rfl, hNothing, [], ?_, (List.append_nil _).symm, ?_⟩
    all_goals
      dsimp only
      split
      all_goals simp [hand, drains]
  case case11 job later hQueue =>
    refine ⟨fun _ => rfl, ?_, [], hQueue, (List.append_nil _).symm, by simp [drains]⟩
    simp [Shared.posts, hQueue]
  case case12 job hType _ chat hJob =>
    refine ⟨fun _ => rfl, hNothing, [job], rfl, ?_, by simp [drains]⟩
    simp [Job.disconnects, Shared.load, hType]
  case case14 job hType =>
    refine ⟨fun _ => rfl, hNothing, [job], rfl, ?_, by simp [drains]⟩
    simp [Job.disconnects, Shared.load, hType]
  case case16 p =>
    refine ⟨keeps_addRef p (-1), hNothing, [], ?_, (List.append_nil _).symm, ?_⟩
    all_goals
      dsimp only
      split
      all_goals simp [hand, drains, Shared.addRef]
  case case17 p =>
    exact ⟨keeps_giveBack p, hNothing, [], rfl, (List.append_nil _).symm, by simp [drains]⟩
  all_goals exact ⟨fun _ => rfl, hNothing, [], rfl, (List.append_nil _).symm, by simp [drains]⟩

end Steps

/-- Until `OnQuit` drains the queue it has no job in its hand. -/
theorem QuitPlace.hand_of_not_drains {place : QuitPlace P} (h : place.drains = false) :
    place.hand = [] := by
  cases place with
  | handle => cases h
  | running | setIsQuit | setQuitEvent | setJobEvent | joinJob | joinHeartbeat | isEmpty | tryDequeue
  | handled | tryFreeRecv | giveBack | ended => rfl

namespace JobSystem

variable [DecidableEq Io] [DecidableEq P] [DecidableEq Node] {env : Env Node}
  {s s' : JobSystem Io P Node} {Good : Nat → Packet netLayout → Prop} {posted : List Job}

/-- The jobs that are taken out, and then the queue. -/
def hands (s : JobSystem Io P Node) : List (QueuedJob P) := s.job.place.hand ++ s.quit.hand

def pending (s : JobSystem Io P Node) : List Job := (s.hands ++ s.shared.jobQueue).map s.shared.load

def posts (s s' : JobSystem Io P Node) : List Job := s.shared.posts s'.shared

/-- What the receiver promises of what it decodes for a session. -/
def Decodes (Good : Nat → Packet netLayout → Prop) (s : JobSystem Io P Node) (a : JobAction Io P) : Prop :=
  ∀ i contents d, a = .io i (.decoded contents) → (s.io i).place = .fill d → Good d.sessionId contents

/-- The jobs that were posted: those that are handled, those that `OnQuit` has taken, and those
that are still to come. -/
structure InOrder (Good : Nat → Packet netLayout → Prop) (s : JobSystem Io P Node) (posted : List Job) :
    Prop where
  carries : ∀ i, (s.io i).place.Carries Good s.shared.packets
  made : ∀ job ∈ posted, Made Good job
  order : ∃ before after, posted = before ++ after ++ s.pending ∧
    s.shared.handled = before ++ after.filter Job.disconnects ∧ (s.quit.drains = false → after = [])

omit [DecidableEq Io] [DecidableEq P] [DecidableEq Node] in
/-- A step that posts `new` and passes `passed`. -/
theorem InOrder.turn (new passed : List (QueuedJob P)) (hInv : InOrder Good s posted)
    (hQueue : s.hands ++ s.shared.jobQueue ++ new = passed ++ s'.hands ++ s'.shared.jobQueue)
    (hPosts : s.posts s' = new.map s.shared.load)
    (hLoad : ∀ job ∈ s.hands ++ s.shared.jobQueue ++ new, s'.shared.load job = s.shared.load job)
    (hMade : ∀ job ∈ new, Made Good (s.shared.load job))
    (hCarries : ∀ i, (s'.io i).place.Carries Good s'.shared.packets)
    (hHandled : (s.quit.drains = false ∧ s'.quit.drains = false ∧
        s'.shared.handled = s.shared.handled ++ passed.map s.shared.load) ∨
      s'.shared.handled = s.shared.handled ++ (passed.map s.shared.load).filter Job.disconnects ∧
        (s'.quit.drains = false → s.quit.drains = false ∧ passed = [])) :
    InOrder Good s' (posted ++ s.posts s') := by
  obtain ⟨before, after, hPosted, hDone, hAfter⟩ := hInv.order
  have hPending : s.pending ++ s.posts s' = passed.map s.shared.load ++ s'.pending := by
    have hLater : s'.pending = (s'.hands ++ s'.shared.jobQueue).map s.shared.load := by
      refine List.map_congr_left fun job hMem => hLoad job ?_
      rw [hQueue, List.append_assoc]
      exact List.mem_append_right _ hMem
    rw [pending, hPosts, ← List.map_append, hQueue, hLater, ← List.map_append, List.append_assoc]
  refine ⟨hCarries, fun job hMem => ?_, ?_⟩
  · cases List.mem_append.mp hMem with
    | inl hOld => exact hInv.made job hOld
    | inr hNew =>
        rw [hPosts] at hNew
        obtain ⟨queued, hQueued, rfl⟩ := List.mem_map.mp hNew
        exact hMade queued hQueued
  · rw [hPosted, List.append_assoc, hPending]
    obtain ⟨hDrains, _, hAll⟩ | ⟨hSome, hDrains⟩ := hHandled
    · refine ⟨before ++ passed.map s.shared.load, [], ?_, ?_, fun _ => rfl⟩
      · rw [hAfter hDrains]
        simp
      · rw [hAll, hDone, hAfter hDrains]
        simp
    · refine ⟨before, after ++ passed.map s.shared.load, by simp, ?_, fun hNext => ?_⟩
      · rw [hSome, hDone, List.filter_append, List.append_assoc]
      · obtain ⟨hBefore, rfl⟩ := hDrains hNext
        rw [hAfter hBefore]
        rfl

omit [DecidableEq Io] [DecidableEq P] [DecidableEq Node] in
/-- A waiting job holds its packet. -/
theorem mem_queueHolds {g : Shared P Node} {job : QueuedJob P} {p : P} (h : job ∈ g.jobQueue)
    (hPacket : job.recvPacket = some p) : (p, .job) ∈ g.queueHolds := by
  obtain ⟨front, rest, hSplit⟩ := List.append_of_mem h
  simp [Shared.queueHolds, hSplit, QueuedJob.holds, hPacket]

variable [Fintype Io]

omit [DecidableEq Io] [DecidableEq P] [DecidableEq Node] in
/-- So does a job in somebody's hand. This is why nobody else can rent its packet and write into it. -/
theorem mem_holds_of_pending {job : QueuedJob P} {p : P} (h : job ∈ s.hands ++ s.shared.jobQueue)
    (hPacket : job.recvPacket = some p) : (p, .job) ∈ s.holds := by
  have hJob : (p, Hold.job) ∈ job.holds := by simp [QueuedJob.holds, hPacket]
  rw [holds, Multiset.mem_add, Multiset.mem_add, Multiset.mem_add]
  obtain (hTaken | hDrained) | hQueued := (List.mem_append.mp h).imp_left List.mem_append.mp
  · refine .inl (.inl (.inr ?_))
    cases hPlace : s.job.place with
    | handle job' =>
        rw [hPlace, JobPlace.hand, List.mem_singleton] at hTaken
        rwa [JobPlace.holds, ← hTaken]
    | waitOne | checkIsQuit | isEmpty | tryDequeue | handled | tryFreeRecv | giveBack | threw | ended =>
        simp [hPlace, JobPlace.hand] at hTaken
  · refine .inl (.inr ?_)
    cases hPlace : s.quit with
    | handle job' =>
        rw [hPlace, QuitPlace.hand, List.mem_singleton] at hDrained
        rwa [QuitPlace.holds, ← hDrained]
    | running | setIsQuit | setQuitEvent | setJobEvent | joinJob | joinHeartbeat | isEmpty | tryDequeue
    | handled | tryFreeRecv | giveBack | ended =>
        simp [hPlace, QuitPlace.hand] at hDrained
  · exact .inr (mem_queueHolds hQueued hPacket)

omit [DecidableEq Node] in
/-- A packet that is decoded into is in no job, and no other thread reads it. -/
theorem Kept.fill_alone {i : Io} {d : Delivery P} (h : s.Kept) (hPlace : (s.io i).place = .fill d) :
    (∀ job ∈ s.hands ++ s.shared.jobQueue, job.recvPacket ≠ some d.packet) ∧
      ∀ i', i' ≠ i → (s.io i').place.reads ≠ some d.packet := by
  obtain ⟨hAlone, hShared, _, _, _, _⟩ := h.balanced d.packet
  have hUnshared : s.holds.count (d.packet, .unshared) =
      1 + (s.shared.queueHolds + (crewOthers (fun t => t.place.holds) s.io i + s.job.place.holds +
        s.quit.holds)).count (d.packet, .unshared) := by
    rw [holds_split i, hPlace, IoPlace.holds, add_assoc, Multiset.count_add, Multiset.count_singleton_self]
  constructor
  · intro job hMem hPacket
    have hCount := Multiset.count_pos.mpr (mem_holds_of_pending hMem hPacket)
    omega
  · intro i' hOther hReads
    have hHeld : (d.packet, Hold.unshared) ∈ (s.io i').place.holds ∨
        (d.packet, Hold.own) ∈ (s.io i').place.holds := by
      cases hPlace' : (s.io i').place with
      | onReceived d' | peekBody d' | addRefReceived d' _ | checkRefCount d' _ _ | enqueue d' _ =>
          rw [hPlace', IoPlace.reads, Option.some.injEq] at hReads
          simp [IoPlace.holds, hReads]
      | idle | addRef | fill | disconnect | set | tryFreeRecv | giveBack | threw | ended =>
          rw [hPlace'] at hReads
          cases hReads
    obtain hAgain | hOwn := hHeld
    · have hMem := mem_crewOthers (f := fun t : IoThread P => t.place.holds) hOther hAgain
      have hCount := Multiset.count_pos.mpr hMem
      simp only [Multiset.count_add] at hUnshared
      omega
    · have hMem : (d.packet, Hold.own) ∈ s.holds := by
        rw [holds_split i']
        simp [hOwn]
      have hCount := Multiset.count_pos.mpr hMem
      omega

/-- The order is kept when an IO thread posts, at the end of the queue. -/
theorem InOrder.io {i : Io} {c : IoChoice P} (hInv : InOrder Good s posted) (hKept : s.Kept)
    (hGood : Decodes Good s (.io i c)) (h : s.step env (.io i c) = some s') :
    InOrder Good s' (posted ++ s.posts s') := by
  obtain ⟨next, hStep, rfl⟩ := Option.map_eq_some_iff.mp h
  obtain ⟨⟨⟨new, hQueue, hMade⟩, hHandled⟩, hCarries, hSpares⟩ :=
    IoThread.step_posts hStep (hInv.carries i) fun d contents hPlace hDecoded =>
      hGood i contents d (by rw [hDecoded]) hPlace
  refine hInv.turn new [] ?_ ?_ (fun job hMem => Shared.load_congr fun p hPacket => ?_)
    hMade (fun i' => ?_) (.inr ⟨?_, fun hDrains => ⟨hDrains, rfl⟩⟩)
  · simp [hands, hQueue]
  · simp [posts, Shared.posts, hQueue]
  · obtain hAll | ⟨d, hPlace, hSame, hOthers⟩ := hSpares
    · exact hAll p
    · refine hOthers p ?_
      rintro rfl
      obtain rfl : new = [] := by simpa [hSame] using hQueue
      rw [List.append_nil] at hMem
      exact (hKept.fill_alone hPlace).1 job hMem hPacket
  · change (Function.update s.io i next.2 i').place.Carries Good next.1.packets
    by_cases hOther : i' = i
    · rw [hOther, Function.update_self]
      exact hCarries
    · rw [Function.update_of_ne hOther]
      refine (hInv.carries i').congr fun p hReads => ?_
      obtain hAll | ⟨d, hPlace, _, hOthers⟩ := hSpares
      · exact hAll p
      · refine hOthers p ?_
        rintro rfl
        exact (hKept.fill_alone hPlace).2 i' hOther hReads
  · simp [hHandled]

omit [Fintype Io] in
/-- The same for the heartbeat thread. -/
theorem InOrder.heartbeat (hInv : InOrder Good s posted) (h : s.step env .heartbeat = some s') :
    InOrder Good s' (posted ++ s.posts s') := by
  obtain ⟨next, hStep, rfl⟩ := Option.map_eq_some_iff.mp h
  obtain ⟨⟨⟨new, hQueue, hMade⟩, hHandled⟩, hKeeps⟩ := HeartbeatPlace.step_posts Good hStep
  refine hInv.turn new [] ?_ ?_ (fun job _ => Shared.load_congr fun p _ => hKeeps p)
    hMade (fun i => (hInv.carries i).congr fun p _ => hKeeps p) (.inr ⟨?_, fun hDrains => ⟨hDrains, rfl⟩⟩)
  · simp [hands, hQueue]
  · simp [posts, Shared.posts, hQueue]
  · simp [hHandled]

omit [Fintype Io] in
/-- The job thread takes from the front, one job at a time. -/
theorem InOrder.job {reports : Option Nat} (hInv : InOrder Good s posted) (hWakeful : s.Wakeful)
    (h : s.step env (.job reports) = some s') : InOrder Good s' (posted ++ s.posts s') := by
  obtain ⟨next, hStep, rfl⟩ := Option.map_eq_some_iff.mp h
  have hDrains : s.quit.drains = false := by
    by_contra hDrains
    rw [hWakeful.job_stuck (hWakeful.drains (Bool.eq_true_of_not_eq_false hDrains))] at hStep
    cases hStep
  obtain ⟨r, -, rfl⟩ | ⟨sessionId, -, -, rfl⟩ | ⟨result, -, hPlace, rfl⟩ := JobThread.step_cases env hStep
  · obtain ⟨⟨new, hQueue, hMade⟩, hHandled⟩ := report_posts Good s.shared r
    have hKeeps (p : P) : s.shared.Keeps (s.shared.report r).1 p := by
      cases r with
      | enqueue | set => rfl
    refine hInv.turn new [] ?_ ?_ (fun job _ => Shared.load_congr fun p _ => hKeeps p)
      hMade (fun i => (hInv.carries i).congr fun p _ => hKeeps p) (.inl ⟨hDrains, hDrains, ?_⟩)
    · simp [hands, hQueue]
    · simp [posts, Shared.posts, hQueue]
    · simp [hHandled]
  · exact hInv.turn [] [] (by simp [hands]) (by simp [posts, Shared.posts])
      (fun _ _ => rfl) (fun _ hMem => absurd hMem List.not_mem_nil) hInv.carries
      (.inl ⟨hDrains, hDrains, by simp⟩)
  · obtain ⟨hKeeps, hPosts, passed, hQueue, hHandled⟩ := JobPlace.step_passes hPlace
    have hQuit : s.quit.hand = [] := QuitPlace.hand_of_not_drains hDrains
    refine hInv.turn [] passed ?_ hPosts
      (fun job _ => Shared.load_congr fun p _ => hKeeps p) (fun _ hMem => absurd hMem List.not_mem_nil)
      (fun i => (hInv.carries i).congr fun p _ => hKeeps p) (.inl ⟨hDrains, hDrains, hHandled⟩)
    simpa [hands, hQuit] using hQueue

omit [Fintype Io] in
/-- `OnQuit` goes on from there, with the job thread gone. -/
theorem InOrder.quit (hInv : InOrder Good s posted) (hWakeful : s.Wakeful)
    (h : s.step env .quit = some s') : InOrder Good s' (posted ++ s.posts s') := by
  obtain ⟨next, hStep, rfl⟩ := Option.map_eq_some_iff.mp h
  obtain ⟨hKeeps, hPosts, passed, hQueue, hHandled, hDrains⟩ := QuitPlace.step_passes hStep
  refine hInv.turn [] passed ?_ hPosts
    (fun job _ => Shared.load_congr fun p _ => hKeeps p) (fun _ hMem => absurd hMem List.not_mem_nil)
    (fun i => (hInv.carries i).congr fun p _ => hKeeps p) (.inr ⟨hHandled, hDrains⟩)
  cases hNext : next.2.drains with
  | true =>
      have hEnded : s.job.place = .ended :=
        (QuitPlace.drains_step hStep hNext).elim hWakeful.drains of_jobEnded
      simpa [hands, hEnded, JobPlace.hand] using hQueue
  | false =>
      obtain ⟨hBefore, rfl⟩ := hDrains hNext
      rw [QuitPlace.hand_of_not_drains hBefore, QuitPlace.hand_of_not_drains hNext] at hQueue
      simpa [hands, QuitPlace.hand_of_not_drains hBefore, QuitPlace.hand_of_not_drains hNext] using hQueue

omit [DecidableEq Io] [DecidableEq P] [DecidableEq Node] [Fintype Io] in
/-- Nothing has been posted to begin with. -/
theorem inOrder_start (users : Node → ChatUser) (contents : P → Packet netLayout) :
    InOrder Good (start env users contents : JobSystem Io P Node) [] where
  carries _ := trivial
  made _ hMem := absurd hMem List.not_mem_nil
  order := ⟨[], [], rfl, rfl, fun _ => rfl⟩

/-- The order holds in every run, with the jobs recorded as they are posted. -/
theorem inOrder_of_recorded {users : Node → ChatUser} {contents : P → Packet netLayout}
    (h : Reachable (Takes (recorded (step env) posts)) (fun s => Decodes Good s.1)
      (start env users contents, []) (s, posted)) : InOrder Good s posted := by
  suffices hAll : ∀ r, Reachable (Takes (recorded (step env) posts)) (fun s => Decodes Good s.1)
      (start env users contents, []) r → InOrder Good r.1 r.2 from hAll _ h
  intro r hRun
  apply hRun.invariant
  · exact inOrder_start users contents
  rintro ⟨s, posted⟩ ⟨s', posted'⟩ a hReached hInv hGuard hStep
  obtain ⟨next, hNext, hSame⟩ := Option.map_eq_some_iff.mp hStep
  cases hSame
  have hRun := reachable_of_recorded hReached
  cases a with
  | io i c => exact hInv.io (Reached.kept hRun) hGuard hNext
  | heartbeat => exact hInv.heartbeat hNext
  | job reports => exact hInv.job (Reached.wakeful hRun) hNext
  | quit => exact hInv.quit (Reached.wakeful hRun) hNext

/-- However the threads interleave, every job that is posted is a disconnect, a heartbeat or what one
received packet says, and the jobs are handled in that order, each once, as they were posted. Only
`OnQuit` passes jobs by: of what is left it handles the disconnects. -/
theorem jobs_inOrder {users : Node → ChatUser} {contents : P → Packet netLayout}
    (h : Reachable (Takes (recorded (step env) posts)) (fun s => Decodes Good s.1)
      (start env users contents, []) (s, posted)) :
    (∀ job ∈ posted, Made Good job) ∧
      ∃ before after, posted = before ++ after ++ s.pending ∧
        s.shared.handled = before ++ after.filter Job.disconnects ∧
        (s.quit.drains = false → after = []) := by
  have hInv := inOrder_of_recorded h
  exact ⟨hInv.made, hInv.order⟩

/-- A heartbeat is handled. A second one and the disconnect of its session are left to `OnQuit`. -/
private def leftToQuit : List (JobAction (Fin 1) (Fin 2)) :=
  let deliver (p : Fin 2) : List (JobAction (Fin 1) (Fin 2)) :=
    .io 0 (.allocRecv ⟨p, 1⟩) :: .io 0 .go :: .io 0 (.decoded (clientPacket [7, 0])) ::
      List.replicate 7 (.io 0 .go)
  List.flatten [deliver 0, List.replicate 9 (.job none), deliver 1,
    [.io 0 (.report 1), .io 0 .go, .io 0 .go, .io 0 .close], List.replicate 4 .quit,
    [.job none, .job none, .heartbeat], List.replicate 12 .quit]

private def typesOf (jobs : List Job) : List eJobType := jobs.map Job.jobType

/-- A run in which `OnQuit` finds jobs of several kinds in the queue. -/
theorem jobs_inOrder_leftToQuit :
    ∃ (s : JobSystem (Fin 1) (Fin 2) Nat) (posted : List Job),
      ((∀ job ∈ posted, Made (fun _ _ => True) job) ∧
        ∃ before after, posted = before ++ after ++ s.pending ∧
          s.shared.handled = before ++ after.filter Job.disconnects ∧
          (s.quit.drains = false → after = [])) ∧
      typesOf posted = [.UserHeartBeat, .UserHeartBeat, .SystemDisconnectUser] ∧
      typesOf s.shared.handled = [.UserHeartBeat, .SystemDisconnectUser] := by
  have hRun : (exec (recorded (step zeroEnv) posts)
      (start zeroEnv (fun _ => zeroUser) (fun _ => clientPacket []), []) leftToQuit).map
        (fun s => (typesOf s.2, typesOf s.1.shared.handled)) =
      some ([.UserHeartBeat, .UserHeartBeat, .SystemDisconnectUser],
        [.UserHeartBeat, .SystemDisconnectUser]) := by decide +kernel
  obtain ⟨⟨s, posted⟩, hSome, hTypes⟩ := Option.map_eq_some_iff.mp hRun
  obtain ⟨hPosted, hHandled⟩ := Prod.mk.inj hTypes
  exact ⟨s, posted, jobs_inOrder (Reachable.mono (fun _ _ _ _ _ _ => trivial) (reachable_of_exec hSome)),
    hPosted, hHandled⟩

end JobSystem

end NfNetwork.Chat
