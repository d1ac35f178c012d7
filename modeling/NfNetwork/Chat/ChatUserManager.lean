import NfNetwork.Chat.Handler

/-! `ChatUserManager`: the users by session and by account, and the pool they come from. -/
namespace NfNetwork.Chat

open Machinery

variable {Node : Type}

/-- `unordered_map::insert`, which leaves a key that is there. -/
def insertNew {Key : Type} [DecidableEq Key] (map : AList fun _ : Key => Node) (key : Key)
    (user : Node) : AList fun _ : Key => Node :=
  if key ∈ map then map else map.insert key user

section Operations

variable [DecidableEq Node] (env : Env Node) (sessionId : Nat)

def addUser (q : CsChatReqLogin) : Handler Node (Option Node) := do
  let s ← get
  if sessionId ∈ s.userManager.sessionUserMap then pure none
  else if q.accountNo ∈ s.userManager.accountUserMap then pure none
  else
    let (user, userPool) := s.userManager.userPool.rent env.allocator
    match (s.users user).construct sessionId q with
    | none => throw (.ended .invalidParameter)
    | some object =>
      set { s with
        users := Function.update s.users user object
        userManager := {
          sessionUserMap := insertNew s.userManager.sessionUserMap sessionId user
          accountUserMap := insertNew s.userManager.accountUserMap object.accountNo user
          userPool := userPool } }
      pure (some user)

def removeUser : Handler Node PUnit := do
  let s ← get
  match s.userManager.sessionUserMap.lookup sessionId with
  | none => throw (.thrown .logicError)
  | some user =>
    let accountId := (s.users user).accountNo
    match s.userManager.accountUserMap.lookup accountId with
    | none => throw (.thrown .logicError)
    | some _ =>
      set { s with
        userManager := {
          sessionUserMap := s.userManager.sessionUserMap.erase sessionId
          accountUserMap := s.userManager.accountUserMap.erase accountId
          userPool := s.userManager.userPool.giveBack user } }

def findUserOrNull : Handler Node (Option Node) := do
  let s ← get
  pure (s.userManager.sessionUserMap.lookup sessionId)

end Operations

end NfNetwork.Chat
