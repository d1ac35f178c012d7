import NfNetwork.Chat.Handler

/-! `SectorManager`: who stands in which cell of the grid. -/
namespace NfNetwork.Chat

open Machinery

variable {Node : Type} [DecidableEq Node]

/-- The element of `mSector` at `pos.Y * mWidth + pos.X`, if the array has one there. -/
def cellOf (pos : Int2) : Option Cell :=
  let index := pos.y * dfSECTOR_X_MAX + pos.x
  if h : 0 ≤ index ∧ index.toNat < dfSECTOR_X_MAX * dfSECTOR_Y_MAX then some ⟨index.toNat, h.2⟩
  else none

def getSectorUsersInSector (pos : Int2) : Handler Node Cell :=
  match cellOf pos with
  | some cell => pure cell
  | none => throw (.ended .sectorOutOfBounds)

def insertSectorUser (user : Node) (nowSectorPos : Int2) : Handler Node PUnit := do
  let cell ← getSectorUsersInSector nowSectorPos
  modify fun s => { s with
    sectorManager := ⟨Function.update s.sectorManager.sector cell
      (s.sectorManager.sector cell ++ [user])⟩
    users := Function.update s.users user { s.users user with curSectorPos := nowSectorPos } }

/-- The user keeps its position. An `erase` of `end()` is undefined. -/
def removeSectorUser (user : Node) : Handler Node PUnit := do
  let s ← get
  let curSectorPos := (s.users user).curSectorPos
  if curSectorPos = invalidSectorPos then pure ⟨⟩
  else
    let cell ← getSectorUsersInSector curSectorPos
    if user ∈ s.sectorManager.sector cell then
      set { s with
        sectorManager := ⟨Function.update s.sectorManager.sector cell
          ((s.sectorManager.sector cell).erase user)⟩ }
    else throw (.ended .eraseEnd)

/-- The cells of the grid around a position, row by row. -/
def getSectorAround (sectorPos : Int2) : List Int2 :=
  let rows := [sectorPos.y - 1, sectorPos.y, sectorPos.y + 1].filter fun y : Int =>
    0 ≤ y ∧ y < dfSECTOR_Y_MAX
  let columns := [sectorPos.x - 1, sectorPos.x, sectorPos.x + 1].filter fun x : Int =>
    0 ≤ x ∧ x < dfSECTOR_X_MAX
  rows.flatMap fun y => columns.map fun x => ⟨x, y⟩

/-- A `Send` that throws leaves the others out. -/
def sendAround (env : Env Node) (sectorPos : Int2) (sendPacket : Packet netLayout) :
    Handler Node PUnit :=
  (getSectorAround sectorPos).forM fun around => do
    let cell ← getSectorUsersInSector around
    let s ← get
    (s.sectorManager.sector cell).forM fun user =>
      Handler.sendPacket env (s.users user).sessionId sendPacket

def tryMove (user : Node) (destSectorPos : Int2) : Handler Node Bool := do
  let s ← get
  let curSectorPos := (s.users user).curSectorPos
  if curSectorPos = destSectorPos then pure false
  else do
    if curSectorPos ≠ invalidSectorPos then removeSectorUser user
    insertSectorUser user destSectorPos
    pure true

end NfNetwork.Chat
