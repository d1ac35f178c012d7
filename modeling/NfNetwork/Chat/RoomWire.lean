import NfNetwork.Chat.RoomRuns
import NfNetwork.Net.Delivered

/-! From the bytes of clients to the bytes of clients. The requests are read from packets that NET
has received, however the streams were cut; what the chat sends comes out at a client as the replies
of the room, however that stream is cut. -/
namespace NfNetwork.Chat

open Machinery Handler

/-- What goes to `WSASend` for a packet. `SendPacket` encodes one that is broadcast for the first
session only, and hands out the same bytes for the others. -/
def wireImage (option : ServerComponentOption) (rand : Nat) (packet : Packet netLayout) :
    Option (List UInt8) := do
  let (_, packet) ← packet.encodeOnce option.packetCode option.packetEncodeKey rand
  some packet.wireBytes

/-- A response as `AllocSend` and the puts left it, of no more bytes than a message and its head. -/
structure Fresh (packet : Packet netLayout) : Prop where
  written : packet.Written
  encoded : packet.isEncoded = 0
  size : packet.body.length ≤ 92 + messageBufferSize

def EventHandler.SendsFresh {Node : Type} (s : EventHandler Node) : Prop := ∀ call ∈ s.sent, Fresh call.2

/-- The packets sent to a session, in order. -/
def EventHandler.sentTo {Node : Type} (s : EventHandler Node) (k : Nat) : List (Packet netLayout) :=
  (s.sent.filter fun call => call.1 = k).map Prod.snd

section Puts

open Packet (Put)

variable {memory : netLayout.Memory} {response : Packet netLayout}

/-- A response is filled once, from an initialised packet, and nothing of it has been read or
encoded. -/
theorem fresh_of_fill {puts : List Put} (hFits : (puts.flatMap Put.bytes).length ≤ 92 + messageBufferSize)
    (h : (Packet.initial memory).fill puts = some response) : Fresh response := by
  have hRoom : ([] : List UInt8).length + (puts.flatMap Put.bytes).length ≤ netLayout.room := by
    rw [List.length_nil, Nat.zero_add]
    exact hFits.trans (by decide)
  obtain ⟨filled, tail, hFill, hHolds, hEncoded⟩ := (Packet.initial_holds memory).fill hRoom
  cases hFill.symm.trans h
  exact ⟨⟨_, _, _, hHolds⟩, hEncoded, hHolds.body_eq.symm ▸ hFits⟩

/-- So is the answer to a login. -/
theorem chatResLogin_fresh {status : Nat} {accountNo : Int64}
    (h : chatResLogin status accountNo (.initial memory) = some response) : Fresh response := by
  refine fresh_of_fill ?_ ((chatResLogin_eq ..).symm.trans h)
  simp [loginPuts, Put.bytes]
  decide

/-- And the answer to a move. -/
theorem chatResSectorMove_fresh {accountNo : Int64} {sectorX sectorY : Nat}
    (h : chatResSectorMove accountNo sectorX sectorY (.initial memory) = some response) : Fresh response := by
  refine fresh_of_fill ?_ ((chatResSectorMove_eq ..).symm.trans h)
  simp [sectorMovePuts, Put.bytes]
  decide

/-- And a message, which fits the body up to the size of the buffer. -/
theorem chatResMessage_fresh {accountNo : Int64} {user : ChatUser} {message : Bytes messageBufferSize}
    {messageLen : Nat} (hLen : messageLen ≤ messageBufferSize)
    (h : chatResMessage accountNo user messageLen message.val (.initial memory) = some response) :
    Fresh response := by
  refine fresh_of_fill ?_ ((chatResMessage_eq accountNo user message.val ?_).symm.trans h)
  · simp [messagePuts, Put.bytes, user.id.property, user.nickname.property, message.property]
    omega
  · rwa [message.property]

end Puts

variable {Node : Type} [DecidableEq Node] {env : Env Node} {s s' : EventHandler Node} {job : Job}

section Jobs

omit [DecidableEq Node] in
/-- A fresh response may go to many sessions. -/
theorem EventHandler.SendsFresh.broadcast (keys : List Nat) {packet : Packet netLayout} (h : s.SendsFresh)
    (hPacket : Fresh packet) (hSent : s'.sent = s.sent ++ keys.map (fun k => (k, packet))) :
    s'.SendsFresh := by
  intro call hMem
  rw [hSent, List.mem_append, List.mem_map] at hMem
  rcases hMem with hOld | ⟨k, _, rfl⟩
  · exact h call hOld
  · exact hPacket

omit [DecidableEq Node] in
/-- Nothing new was sent. -/
theorem EventHandler.SendsFresh.of_sent (h : s.SendsFresh) (hSent : s'.sent = s.sent) : s'.SendsFresh :=
  fun call hMem => h call (hSent ▸ hMem)

/-- The packets sent so far are fresh, unless the handler was undefined. -/
def StopsFresh (stop : Stop) (s' : EventHandler Node) : Prop :=
  match stop with
  | .thrown _ => s'.SendsFresh
  | .ended _ => True

/-- A handler that returns or throws has sent fresh packets. -/
abbrev KeepsFresh (s : EventHandler Node) (action : Handler Node PUnit) : Prop :=
  Ends action s (fun _ s' => s'.SendsFresh) StopsFresh

omit [DecidableEq Node] in
/-- A response that could be written goes on, any other one is undefined behaviour. -/
theorem ends_ofWrite_fresh {write : Option (Packet netLayout)}
    {returns : Packet netLayout → EventHandler Node → Prop}
    (h : ∀ response, write = some response → returns response s) :
    Ends (ofWrite write) s returns StopsFresh := by
  cases write with
  | none => trivial
  | some response => exact h response rfl

omit [DecidableEq Node] in
/-- Sending a fresh response keeps all that was sent fresh, whether `SendPacket` throws or not. -/
theorem keepsFresh_reply (env : Env Node) {response : Packet netLayout} (k : Nat) (hFresh : s.SendsFresh)
    (hResponse : Fresh response) : KeepsFresh s (sendPacket env k response) :=
  have hSent := hFresh.broadcast [k] hResponse rfl
  ends_sendPacket (fun _ => hSent) fun _ => hSent

/-- The login handler sends fresh responses only. -/
theorem jobUserLogin_fresh (env : Env Node) (h : s.Consistent) (hFresh : s.SendsFresh) :
    KeepsFresh s (jobUserLogin env job) := by
  simp only [KeepsFresh, jobUserLogin, ends_bind, recvPacket]
  cases job.recvPacket with
  | none => trivial
  | some packet =>
      simp only [ends_pure]
      cases CsChatReqLogin.read packet with
      | error stop =>
          cases stop with
          | packetReaderException => exact hFresh
          | outOfBounds => trivial
      | ok request =>
          obtain ⟨q, rest⟩ := request
          simp only [ends_ofRead_ok]
          refine (addUser_ends h).mono ?_ fun _ _ hStop => hStop ▸ trivial
          intro found added hAdded
          have hSent : added.sent = s.sent := by
            rcases hAdded with ⟨_, rfl, _⟩ | ⟨_, _, _, _, _, _, hSame⟩
            · rfl
            · exact hSame
          simp only [ends_allocSend, ends_get]
          refine ends_ofWrite_fresh fun response hResponse => ?_
          refine keepsFresh_reply env _ (hFresh.of_sent hSent) ?_
          split at hResponse
          · exact chatResLogin_fresh hResponse
          · exact chatResLogin_fresh hResponse

/-- So does the move handler. -/
theorem jobUserSectorMove_fresh (env : Env Node) (hFresh : s.SendsFresh) :
    KeepsFresh s (jobUserSectorMove env job) := by
  simp only [KeepsFresh, jobUserSectorMove, ends_bind, recvPacket]
  cases job.recvPacket with
  | none => trivial
  | some packet =>
      simp only [ends_pure]
      cases CsChatReqSectorMove.read packet with
      | error stop =>
          cases stop with
          | packetReaderException => exact hFresh
          | outOfBounds => trivial
      | ok request =>
          obtain ⟨q, rest⟩ := request
          simp only [ends_ofRead_ok, findUserOrNull, ends_bind, ends_get, ends_pure]
          cases s.userManager.sessionUserMap.lookup job.sessionId with
          | none => exact hFresh
          | some user =>
              simp only [ends_bind, ends_get]
              split
              · exact hFresh
              · rw [ends_bind, ends_allocSend, ends_bind]
                refine ends_ofWrite_fresh fun response hResponse => ?_
                rw [ends_bind]
                refine (tryMove_moves user _).mono ?_ ?_
                · rintro _ _ ⟨sectorManager, rfl⟩
                  exact keepsFresh_reply env _ hFresh (chatResSectorMove_fresh hResponse)
                · rintro _ _ ⟨undefined, rfl⟩
                  trivial

omit [DecidableEq Node] in
/-- A message that was copied is no longer than its buffer. -/
theorem jobUserMessage_fresh (env : Env Node) (hRead : job.Readable) (hFresh : s.SendsFresh) :
    KeepsFresh s (jobUserMessage env job) := by
  simp only [KeepsFresh, jobUserMessage, ends_bind, recvPacket]
  cases hPacket : job.recvPacket with
  | none => trivial
  | some packet =>
      have hUnread := hRead packet hPacket
      simp only [ends_pure]
      rcases Nat.lt_or_ge packet.body.length 12 with hShort | hFields
      · rw [CsChatReqMessage.reads.throws hUnread hShort]
        exact hFresh
      obtain ⟨q, rest, hFieldsRead, hLen, hLeft⟩ := CsChatReqMessage.read_ok hUnread hFields
      simp only [hFieldsRead, ends_ofRead_ok, ends_get]
      rcases Nat.lt_or_ge (packet.body.drop 12).length q.messageLen with hCut | hWhole
      · rw [hLeft.getBody_throws _ hCut]
        exact hFresh
      rcases Nat.lt_or_ge messageBufferSize q.messageLen with hOver | hFits
      · rw [hLeft.getBody_overruns hWhole (Nat.lt_trans (by decide) hOver) hOver]
        trivial
      obtain ⟨message, hGet, _⟩ := hLeft.getBody_eq s.messageBuffer hWhole hFits
      simp only [hGet, ends_ofRead_ok, findUserOrNull, ends_bind, ends_set, ends_get, ends_pure]
      cases s.userManager.sessionUserMap.lookup job.sessionId with
      | none => exact hFresh
      | some user =>
          simp only [ends_bind, ends_get]
          split
          · exact hFresh
          · rw [ends_bind, ends_allocSend, ends_bind]
            refine ends_ofWrite_fresh fun response hResponse => ?_
            have hResponseFresh := chatResMessage_fresh hFits hResponse
            refine (sendAround_sends env).mono ?_ ?_
            · rintro _ _ rfl
              exact hFresh.broadcast _ hResponseFresh rfl
            · rintro _ _ ⟨rfl, -, told, rfl⟩
              exact hFresh.broadcast told hResponseFresh rfl

/-- And every handler. -/
theorem handleJob_fresh (env : Env Node) (h : Sound s) (hRead : job.Readable) (hFresh : s.SendsFresh) :
    KeepsFresh s (handleJob env job) := by
  unfold handleJob
  split
  · exact jobUserLogin_fresh env h.consistent hFresh
  · exact jobUserSectorMove_fresh env hFresh
  · exact jobUserMessage_fresh env hRead hFresh
  · refine jobUserHeartBeat_ends.mono ?_ fun _ _ hFalse => hFalse.elim
    rintro _ _ rfl
    exact hFresh
  · refine ((jobSystemDisconnectUser_ends job h.consistent h.inBounds).and
      (jobSystemDisconnectUser_leaves job)).mono ?_ fun _ _ hFalse => hFalse.1.elim
    rintro _ _ ⟨_, _, hSent, _⟩
    exact hFresh.of_sent hSent
  · refine jobSystemHeartBeat_ends.mono ?_ fun _ _ hFalse => hFalse.elim
    rintro _ _ rfl
    exact hFresh
  · exact hFresh

/-- A handler that throws has sent fresh ones up to there. -/
theorem processJob_fresh (env : Env Node) (h : Sound s) (hRead : job.Readable) (hFresh : s.SendsFresh)
    (hJob : processJob env s job = .ok s') : s'.SendsFresh := by
  have hEnds := handleJob_fresh env h hRead hFresh
  unfold processJob at hJob
  cases hHandle : handleJob env job s with
  | ok _ after =>
      rw [hHandle] at hJob
      cases hJob
      exact hEnds.of_ok hHandle
  | error stop after =>
      rw [hHandle] at hJob
      cases stop with
      | ended undefined => cases hJob
      | thrown exn =>
          cases hJob
          exact hEnds.of_error hHandle

/-- The run lemma. -/
theorem processJobs_fresh (env : Env Node) {start : EventHandler Node} {jobs : List Job} (hStart : Sound start)
    (hFresh : start.SendsFresh) (hRead : ∀ job ∈ jobs, job.Readable) (hMoves : MovesInGrid env start jobs)
    (hRun : processJobs env start jobs = .ok s) : s.SendsFresh := by
  induction jobs using List.reverseRecOn generalizing s with
  | nil =>
      cases hRun
      exact hFresh
  | append_singleton jobs job ih =>
      rw [processJobs_append_singleton] at hRun
      cases hBefore : processJobs env start jobs with
      | error undefined =>
          rw [hBefore] at hRun
          cases hRun
      | ok before =>
          rw [hBefore] at hRun
          have hEarlier : MovesInGrid env start jobs := hMoves.of_prefix (List.prefix_append jobs [job])
          exact processJob_fresh env (sound_of_processJobs hStart hEarlier hBefore) (hRead job (by simp))
            (ih (fun job hMem => hRead job (List.mem_append_left _ hMem)) hEarlier hBefore) hRun

end Jobs

section Peer

variable {option : ServerComponentOption}

/-- A fresh packet goes out as the frame of its body. -/
theorem wireImage_eq {packet : Packet netLayout} (h : Fresh packet) (rand : Nat) :
    wireImage option rand packet = some (Packet.frame option.packetCode option.packetEncodeKey
      (UInt8.ofNat (rand % 255)) packet.body) := by
  obtain ⟨header, body, tail, hHolds⟩ := h.written
  obtain ⟨encoded, hEncode, hWire⟩ :=
    hHolds.encodeOnce rfl h.encoded option.packetCode option.packetEncodeKey rand
  rw [hHolds.body_eq, ← hWire, wireImage, hEncode]
  rfl

/-- A peer parses the images of fresh packets to their bodies, and nothing is left. -/
theorem parse_images (hBound : 92 + messageBufferSize ≤ option.maxPacketBodyLength)
    {packets : List (Packet netLayout)} {images : List (List UInt8)} (hFresh : ∀ p ∈ packets, Fresh p)
    (hImages : List.Forall₂ (fun p image => ∃ rand, wireImage option rand p = some image) packets images) :
    (Net.framing option).parse images.flatten = ⟨packets.map Packet.body, none, []⟩ := by
  induction hImages with
  | nil => exact Framer.parse_of_wait rfl
  | @cons p image packets images hImage _ ih =>
      obtain ⟨rand, hImage⟩ := hImage
      have hFirst := hFresh p (List.mem_cons_self ..)
      rw [wireImage_eq hFirst] at hImage
      obtain rfl := Option.some.inj hImage
      have hRoom : 92 + messageBufferSize ≤ netLayout.room := by decide
      have hNext := Net.next_frame (UInt8.ofNat (rand % 255))
        (Nat.le_min.mpr ⟨hFirst.size.trans hBound, hFirst.size.trans hRoom⟩)
      have hSize : netLayout.headerSize + p.body.length = (Packet.frame option.packetCode
          option.packetEncodeKey (UInt8.ofNat (rand % 255)) p.body).length := (Packet.frame_length ..).symm
      rw [List.flatten_cons, Framer.parse_of_emit ((Net.framing option).emit_append _ hNext), hSize,
        List.drop_left, ih fun q hMem => hFresh q (List.mem_cons_of_mem _ hMem)]
      rfl

/-- A packet that NET gave `OnReceived` for some client's stream, however it was cut, and a client that
moves about in the grid. -/
structure FromClient (option : ServerComponentOption) (contents : Packet netLayout) : Prop where
  received : ∃ pool passes queue cut result,
    Net.receiveRun option pool passes queue cut = some result ∧ contents ∈ result.1.received
  inGrid : receivedJobType contents = .UserSectorMove → ∀ accountNo sectorPos,
    requestOf .UserSectorMove contents.body = .sectorMove accountNo sectorPos → InGrid sectorPos

/-- What a client sent is read within its body. -/
theorem FromClient.inBody {contents : Packet netLayout} (h : FromClient option contents) : InBody contents := by
  obtain ⟨pool, passes, queue, cut, result, hRun, hMem⟩ := h.received
  exact ⟨(Net.unread_of_delivered (Net.receiveRun_delivers hRun) hMem).1, h.inGrid⟩

end Peer

namespace JobSystem

variable {Io P : Type} [DecidableEq Io] [DecidableEq P] [Fintype Io] {users : Node → ChatUser}
  {contents : P → Packet netLayout} {option : ServerComponentOption}

/-- Whatever bytes the clients send, in whichever pieces they arrive and however the threads
interleave: a peer that receives the packets sent to a session, in whichever pieces, has every one
delivered, and finds in them what the room told it as long as no call of `SendPacket` has thrown. -/
theorem chat_onTheWire (hBound : 92 + messageBufferSize ≤ option.maxPacketBodyLength)
    {s : JobSystem Io P Node} {posted : List Job}
    (h : Reachable (Takes (recorded (step env) posts)) (fun s => Decodes (fun _ => FromClient option) s.1)
      (start env users contents, []) (s, posted)) (k : Nat) :
    (∀ packet ∈ s.shared.chat.sentTo k, ∀ rand, (wireImage option rand packet).isSome) ∧
      ∀ images, List.Forall₂ (fun p image => ∃ rand, wireImage option rand p = some image)
          (s.shared.chat.sentTo k) images →
        ∀ pool passes queue cut, netSessionRecvQueueSize < passes → cut.flatten = images.flatten →
          Net.Admissible option pool passes queue cut →
          ∃ session, Net.receiveRun option pool passes queue cut = some (session, none) ∧
            session.bodies.map Reply.parse = s.shared.chat.heard k ∧
            (s.shared.chat.SendsReturned env →
              session.bodies.map Reply.parse = ((roomOf s.shared.handled).heard k).map some) := by
  have hDecodes : Reachable (Takes (recorded (step env) posts)) (fun s => Decodes (fun _ => InBody) s.1)
      (start env users contents, []) (s, posted) :=
    h.mono fun hGuard i contents d hDecoded hPlace => (hGuard i contents d hDecoded hPlace).inBody
  obtain ⟨hRead, hMoves, hRun, hShows⟩ := handled_follows hDecodes
  have hFresh : s.shared.chat.SendsFresh :=
    processJobs_fresh env (new_sound env users) (fun _ hMem => absurd hMem List.not_mem_nil) hRead hMoves hRun
  have hSentTo : ∀ packet ∈ s.shared.chat.sentTo k, Fresh packet := by
    intro packet hMem
    obtain ⟨call, hCall, rfl⟩ := List.mem_map.mp hMem
    exact hFresh call (List.mem_filter.mp hCall).1
  refine ⟨fun packet hMem rand => ?_, fun images hImages pool passes queue cut hPasses hStream hCut => ?_⟩
  · rw [wireImage_eq (hSentTo packet hMem)]
    rfl
  · obtain ⟨session, hReceives, hBodies, -, -⟩ := Net.receiveRun_eq_parse hPasses hCut
    rw [hStream, parse_images hBound hSentTo hImages] at hReceives hBodies
    have hParsed : session.bodies.map Reply.parse = s.shared.chat.heard k := by
      rw [hBodies, EventHandler.heard, EventHandler.sentTo, List.map_map, List.map_map]
      rfl
    exact ⟨session, hReceives, hParsed, fun hReturned => hParsed.trans (hShows.heard hReturned k)⟩

/-- What the server receives of a client that logs in as account 0. -/
private def loginReceived : List (Packet netLayout) :=
  ((Net.receiveRun chatOption zeroEnv.sendMemory 8193 .new
    [Packet.frame chatOption.packetCode chatOption.packetEncodeKey 7 ([1, 0] ++ List.replicate 152 0)]).map
      fun result => result.1.received).getD []

private def loginRun : List (JobAction (Fin 1) (Fin 1)) :=
  .io 0 (.allocRecv ⟨0, 1⟩) :: .io 0 .go :: .io 0 (.decoded (loginReceived.headD (clientPacket []))) ::
    List.replicate 7 (.io 0 .go) ++ List.replicate 9 (.job none)

private theorem loginReceived_fromClient : FromClient chatOption (loginReceived.headD (clientPacket [])) := by
  refine ⟨?_, fun hType => absurd hType (by decide +kernel)⟩
  have hSome : ((Net.receiveRun chatOption zeroEnv.sendMemory 8193 .new [Packet.frame chatOption.packetCode
      chatOption.packetEncodeKey 7 ([1, 0] ++ List.replicate 152 0)]).map
        fun result => result.1.received.length) = some 1 := by decide +kernel
  obtain ⟨result, hRun, hLength⟩ := Option.map_eq_some_iff.mp hSome
  obtain ⟨packet, hReceived⟩ := List.length_eq_one_iff.mp hLength
  refine ⟨_, _, _, _, result, hRun, ?_⟩
  rw [loginReceived, hRun, Option.map_some, Option.getD_some, hReceived]
  exact List.mem_singleton_self _

private theorem loginRun_decodes : ∀ a ∈ loginRun, ∀ s : JobSystem (Fin 1) (Fin 1) Nat × List Job,
    Decodes (fun _ => FromClient chatOption) s.1 a := by
  rintro a hMem s i contents d rfl _
  have hSame : i = 0 ∧ contents = loginReceived.headD (clientPacket []) := by simpa [loginRun] using hMem
  rw [hSame.2]
  exact loginReceived_fromClient

/-- The login is answered on the wire. -/
theorem chat_onTheWire_login :
    ∃ s : JobSystem (Fin 1) (Fin 1) Nat, s.shared.chat.heard 1 = [some (.login true 0)] ∧
      (∀ packet ∈ s.shared.chat.sentTo 1, ∀ rand, (wireImage chatOption rand packet).isSome) ∧
      ∀ images, List.Forall₂ (fun p image => ∃ rand, wireImage chatOption rand p = some image)
          (s.shared.chat.sentTo 1) images →
        ∀ pool passes queue cut, netSessionRecvQueueSize < passes → cut.flatten = images.flatten →
          Net.Admissible chatOption pool passes queue cut →
          ∃ session, Net.receiveRun chatOption pool passes queue cut = some (session, none) ∧
            session.bodies.map Reply.parse = ((roomOf s.shared.handled).heard 1).map some := by
  have hRun : (exec (recorded (step zeroEnv) posts)
      (start zeroEnv (fun _ => zeroUser) (fun _ => clientPacket []), []) loginRun).map
        (fun s => s.1.shared.chat.heard 1) = some [some (.login true 0)] := by decide +kernel
  obtain ⟨⟨s, posted⟩, hSome, hHeard⟩ := Option.map_eq_some_iff.mp hRun
  obtain ⟨hEncodes, hPeer⟩ := chat_onTheWire (by decide) (reachable_of_forall loginRun_decodes hSome) 1
  refine ⟨s, hHeard, hEncodes, fun images hImages pool passes queue cut hPasses hStream hCut => ?_⟩
  obtain ⟨session, hReceives, -, hTold⟩ := hPeer images hImages pool passes queue cut hPasses hStream hCut
  exact ⟨session, hReceives, hTold fun _ _ => rfl⟩

end JobSystem

end NfNetwork.Chat
