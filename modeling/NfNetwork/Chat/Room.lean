import Mathlib.Logic.Function.Basic
import Mathlib.Tactic.Common

/-! What a chat server is for, without its packets, maps, pools and sector lists: a room that
members enter under an account, move about in, and talk in to whoever can hear them. Nothing in
here depends on how names, accounts, places and texts are represented. -/
namespace NfNetwork.Chat

variable {Session Account Name Place Text : Type}

structure Member (Account Name Place : Type) where
  accountNo : Account
  id : Name
  nickname : Name
  sectorPos : Place

/-- Who is in, by session. -/
abbrev Room (Session Account Name Place : Type) : Type := Session → Option (Member Account Name Place)

/-- What a session asks for. `malformed` is anything that cannot be read. -/
inductive Request (Account Name Place Text : Type) where
  | login (accountNo : Account) (id nickname : Name)
  | sectorMove (accountNo : Account) (sectorPos : Place)
  | message (accountNo : Account) (text : Text)
  | heartBeat
  | leave
  | malformed

/-- What a session is told. -/
inductive Reply (Account Name Place Text : Type) where
  | login (accepted : Bool) (accountNo : Account)
  | sectorMove (accountNo : Account) (sectorPos : Place)
  | message (accountNo : Account) (id nickname : Name) (text : Text)
  deriving DecidableEq

/-- The room, what each session has been told, and who has been sent away, in order. -/
structure Outcome (Session Account Name Place Text : Type) where
  room : Room Session Account Name Place
  heard : Session → List (Reply Account Name Place Text)
  disconnected : List Session

namespace Room

/-- An account is in. -/
def Has (room : Room Session Account Name Place) (accountNo : Account) : Prop :=
  ∃ session member, room session = some member ∧ member.accountNo = accountNo

variable [DecidableEq Session]

/-- A reply to one session. -/
def tell (session : Session) (reply : Reply Account Name Place Text) (k : Session) :
    List (Reply Account Name Place Text) :=
  if k = session then [reply] else []

/-- Nobody is in. -/
def empty : Outcome Session Account Name Place Text := ⟨fun _ => none, fun _ => [], []⟩

open Classical in
/-- One request. A message is heard by the members that stand where the speaker `hears` them, the
speaker included if it hears itself. -/
noncomputable def step (hears : Place → Place → Prop) (nowhere : Place)
    (room : Room Session Account Name Place) (session : Session) :
    Request Account Name Place Text → Outcome Session Account Name Place Text
  | .login accountNo id nickname =>
      if (room session).isSome ∨ room.Has accountNo then ⟨room, tell session (.login false accountNo), []⟩
      else ⟨Function.update room session (some ⟨accountNo, id, nickname, nowhere⟩),
        tell session (.login true accountNo), []⟩
  | .sectorMove accountNo sectorPos => match room session with
      | none => ⟨room, fun _ => [], []⟩
      | some member =>
        if member.accountNo = accountNo then
          ⟨Function.update room session (some { member with sectorPos := sectorPos }),
            tell session (.sectorMove accountNo sectorPos), []⟩
        else ⟨room, fun _ => [], [session]⟩
  | .message accountNo text => match room session with
      | none => ⟨room, fun _ => [], [session]⟩
      | some member =>
        if member.accountNo = accountNo then
          ⟨room, fun k =>
            if ∃ listener, room k = some listener ∧ hears member.sectorPos listener.sectorPos then
              [.message accountNo member.id member.nickname text] else [], []⟩
        else ⟨room, fun _ => [], [session]⟩
  | .heartBeat => ⟨room, fun _ => [], []⟩
  | .leave => ⟨Function.update room session none, fun _ => [], []⟩
  | .malformed => ⟨room, fun _ => [], [session]⟩

section Members

variable {hears : Place → Place → Prop} {nowhere : Place} {room : Room Session Account Name Place}
  {session : Session} {member : Member Account Name Place} {accountNo : Account}

theorem step_sectorMove (sectorPos : Place) (hMember : room session = some member)
    (hAccount : member.accountNo = accountNo) :
    step hears nowhere room session (.sectorMove accountNo sectorPos : Request Account Name Place Text) =
      ⟨Function.update room session (some { member with sectorPos := sectorPos }),
        tell session (.sectorMove accountNo sectorPos), []⟩ := by
  simp only [step, hMember]
  rw [if_pos hAccount]

open Classical in
theorem step_message (text : Text) (hMember : room session = some member)
    (hAccount : member.accountNo = accountNo) :
    step hears nowhere room session (.message accountNo text) =
      ⟨room, fun k =>
        if ∃ listener, room k = some listener ∧ hears member.sectorPos listener.sectorPos then
          [.message accountNo member.id member.nickname text] else [], []⟩ := by
  simp only [step, hMember]
  rw [if_pos hAccount]

/-- A member speaks for its own account only. -/
theorem step_other {request : Request Account Name Place Text} (hMember : room session = some member)
    (hAccount : member.accountNo ≠ accountNo)
    (hRequest : (∃ sectorPos, request = .sectorMove accountNo sectorPos) ∨
      ∃ text, request = .message accountNo text) :
    step hears nowhere room session request = ⟨room, fun _ => [], [session]⟩ := by
  obtain ⟨sectorPos, rfl⟩ | ⟨text, rfl⟩ := hRequest
  all_goals
    simp only [step, hMember]
    rw [if_neg hAccount]

end Members

/-- What has come of the requests so far, and of one more. -/
noncomputable def next (hears : Place → Place → Prop) (nowhere : Place)
    (outcome : Outcome Session Account Name Place Text)
    (request : Session × Request Account Name Place Text) : Outcome Session Account Name Place Text :=
  let new := step hears nowhere outcome.room request.1 request.2
  ⟨new.room, fun k => outcome.heard k ++ new.heard k, outcome.disconnected ++ new.disconnected⟩

noncomputable def run (hears : Place → Place → Prop) (nowhere : Place)
    (requests : List (Session × Request Account Name Place Text)) :
    Outcome Session Account Name Place Text :=
  requests.foldl (next hears nowhere) empty

end Room

end NfNetwork.Chat
