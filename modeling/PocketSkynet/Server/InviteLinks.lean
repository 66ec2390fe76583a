import PocketSkynet.Server.Requests

/-!
# Invite Links, Statement by Statement

A link is minted, revoked and redeemed while people leave, are kicked, or come in otherwise.
A redemption looks the link up, asks whether its caller is a member, spends a use by a
conditional update, reads the row once more to phrase a refusal, and seats the caller. Each
of these is a statement of its own, and any other request may run its statements between
two of them. The update restates every condition, so what was read before it decides
nothing; the membership is not among them.

Beside the tables there is a log of what has happened to the links, which no request reads.

## Main definitions

* `LinkEvent`: A use is spent, somebody is seated, or a link is revoked.
* `LinkCall`, `LinkProc`: A request, and the statement it runs next.
* `LinkProc.advance`: The next statement of a request.
* `Links`: The tables with the requests on them.
-/

namespace PocketSkynet

/-- What has happened to the link with a hash. -/
inductive LinkEvent where
  | spent (tokenHash : String) (now : Nat)
  | joined (tokenHash : String) (who : WalletAddress)
  | revoked (tokenHash : String)
deriving DecidableEq, Repr

namespace LinkEvent

/-- The link it has happened to. -/
def tokenHash : LinkEvent → String
  | spent hash _ => hash
  | joined hash _ => hash
  | revoked hash => hash

def isSpent : LinkEvent → Bool
  | spent .. => true
  | _ => false

def isJoined : LinkEvent → Bool
  | joined .. => true
  | _ => false

end LinkEvent

/-- The uses of a link that have been spent. -/
def spends (hash : String) (log : List LinkEvent) : Nat :=
  log.countP fun e => e.isSpent && e.tokenHash == hash

/-- How often a redemption of a link has made a member of somebody who was none. -/
def joins (hash : String) (log : List LinkEvent) : Nat :=
  log.countP fun e => e.isJoined && e.tokenHash == hash

/-- The tables, and what has happened to the links. -/
structure LinkState where
  shared : Shared
  log : List LinkEvent

namespace LinkState

def rows (s : LinkState) : List Invite := s.shared.server.roomInvites

/-- Write the table of links. -/
def write (s : LinkState) (rows : List Invite) (events : List LinkEvent) : LinkState where
  shared := { s.shared with server := { s.shared.server with roomInvites := rows } }
  log := s.log ++ events

end LinkState

/-- What a link is minted from. Its id and its hash are drawn by the server. -/
structure Minting where
  caller : WalletAddress
  room : RoomId
  expiresInHours : Option Int
  maxUses : Option Int
  id : String
  tokenHash : String
deriving DecidableEq, Repr

/-- A request as it arrives. -/
inductive LinkCall where
  | request (call : Call)
  | mint (minting : Minting)
  | revoke (caller : WalletAddress) (room : RoomId) (inviteId : String)
deriving DecidableEq, Repr

/-- A request under way: the statement it runs next, with what it has read. -/
inductive LinkProc where
  | request (p : Proc)
  | replied (reply : Except ApiError String)
  -- `POST /rooms/{roomId}/invites`
  | mintAdmin (m : Minting)
  | mintChannel (m : Minting)
  | mintInsert (m : Minting) (expiresAt : Nat)
  -- `DELETE /rooms/{roomId}/invites/{inviteId}`
  | revokeExists (caller : WalletAddress) (room : RoomId) (inviteId : String)
  | revokeAdmin (caller : WalletAddress) (room : RoomId) (inviteId : String)
  | revokeUpdate (room : RoomId) (inviteId : String)
  -- `POST /invites/{token}/redeem`
  | redeemFind (caller : WalletAddress) (hash : String)
  | redeemRoom (caller : WalletAddress) (hash : String) (invite : Invite)
  | redeemMember (caller : WalletAddress) (hash : String) (invite : Invite)
  | redeemConsume (caller : WalletAddress) (hash : String) (invite : Invite)
  | redeemPhrase (caller : WalletAddress) (hash : String) (invite : Invite) (read : Nat)
      (changed : Bool)
  | redeemSeat (caller : WalletAddress) (hash : String) (room : RoomId)
  | redeemKeyed (room : RoomId)
  | redeemFlag (room : RoomId)

/-- Spend one use of the rows the conditional update matches. -/
def spendRows (hash : String) (now : Nat) (rows : List Invite) : List Invite :=
  rows.map fun i => if i.spendable hash now then { i with useCount := i.useCount + 1 } else i

/-- Revoke the rows the update matches. -/
def revokeRows (room : RoomId) (inviteId : String) (now : Nat) (rows : List Invite) :
    List Invite :=
  rows.map fun i => if i.revocable room inviteId then { i with revokedAt := some now } else i

/-- The row that is inserted. -/
def Minting.invite (m : Minting) (expiresAt now : Nat) : Invite :=
  { id := m.id, roomId := m.room, tokenHash := m.tokenHash, createdBy := m.caller,
    createdAt := now, expiresAt := expiresAt, maxUses := m.maxUses.map Int.toNat,
    useCount := 0, revokedAt := none }

/-- The limits that are checked on the request, and when the link expires. -/
def Minting.checkLimits (m : Minting) (now : Nat) : Except ApiError Nat := do
  let hours := m.expiresInHours.getD defaultExpiryHours
  ensure (1 ≤ hours && hours ≤ maxExpiryHours)
    (.field "expiresInHours" "must be between 1 and 720")
  ensure (m.maxUses.all fun n => 1 ≤ n && n ≤ maxUseLimit)
    (.field "maxUses" "must be between 1 and 1000")
  return now + hours.toNat * 60 * 60 * 1000

namespace LinkProc

def refuse (e : ApiError) : LinkProc := replied (.error e)

def answer (text : String) : LinkProc := replied (.ok text)

/-- Go on if a check passes. -/
def check (c : Bool) (e : ApiError) (p : LinkProc) : LinkProc := if c then p else refuse e

/-- Go on if a sequence of checks passes. -/
def after {α : Type} (x : Except ApiError α) (p : α → LinkProc) : LinkProc :=
  match x with
  | .ok a => p a
  | .error e => refuse e

def enter : LinkCall → LinkProc
  | .request (.redeem caller hash) => redeemFind caller hash
  | .request call => request (Proc.enter call)
  | .mint m => mintAdmin m
  | .revoke caller room inviteId => revokeExists caller room inviteId

/-- What the next statement does to the tables, and to the log. -/
def effect (now : Nat) (s : LinkState) : LinkProc → LinkState
  | request p => { s with shared := p.effect now s.shared }
  | mintInsert m expiresAt =>
      if s.rows.all fun i => i.id ≠ m.id && i.tokenHash ≠ m.tokenHash then
        s.write (s.rows ++ [m.invite expiresAt now]) []
      else s
  | revokeUpdate room inviteId =>
      s.write (revokeRows room inviteId now s.rows)
        ((s.rows.filter (Invite.revocable room inviteId)).map fun i => .revoked i.tokenHash)
  | redeemConsume _ hash _ =>
      if s.rows.any (Invite.spendable hash now) then
        s.write (spendRows hash now s.rows) [.spent hash now]
      else s
  | redeemSeat caller hash room =>
      { shared := s.shared.updateRoom room (·.addMember caller)
        log := if s.shared.server.isMember room caller then s.log
          else s.log ++ [.joined hash caller] }
  | redeemFlag room =>
      { s with shared := s.shared.updateRoom room (·.setKeyRotationPending true) }
  | _ => s

/-- Where a request goes on from what its next statement reads. -/
def next (now : Nat) (s : LinkState) : LinkProc → LinkProc
  | request p => request (p.next now s.shared)
  | replied reply => replied reply
  | mintAdmin m =>
      after (s.shared.server.requireAdmin m.room m.caller
        "Only room admins can create invite links") fun _ => mintChannel m
  | mintChannel m =>
      after (s.shared.server.requireChannel m.room "create an invite link for") fun _ =>
        after (m.checkLimits now) fun expiresAt => mintInsert m expiresAt
  | mintInsert m _ =>
      check (s.rows.all fun i => i.id ≠ m.id && i.tokenHash ≠ m.tokenHash)
        (.internal "UNIQUE constraint failed: room_invites") (answer "Invite link created")
  | revokeExists caller room inviteId =>
      check (s.shared.server.getRoom room).isSome (.notFound "Room not found")
        (revokeAdmin caller room inviteId)
  | revokeAdmin caller room inviteId =>
      after (s.shared.server.requireAdmin room caller
        "Only room admins can revoke invite links") fun _ => revokeUpdate room inviteId
  | revokeUpdate room inviteId =>
      check (s.rows.any (Invite.revocable room inviteId)) (.notFound "Invite link not found")
        (answer "Invite link revoked")
  | redeemFind caller hash =>
      match s.shared.server.findByHash hash with
      | none => refuse (.notFound "Invite link not found")
      | some invite => redeemRoom caller hash invite
  | redeemRoom caller hash invite =>
      check (s.shared.server.getRoom invite.roomId).isSome (.notFound "Room no longer exists")
        (redeemMember caller hash invite)
  | redeemMember caller hash invite =>
      if s.shared.server.isMember invite.roomId caller then answer "Already a member"
      else match invite.refusal now with
        | some refusal => refuse (refusalError refusal)
        | none => redeemConsume caller hash invite
  | redeemConsume caller hash invite =>
      redeemPhrase caller hash invite now (s.rows.any (Invite.spendable hash now))
  | redeemPhrase caller hash invite read changed =>
      match s.shared.server.findByHash hash with
      | none => refuse (.notFound "Invite link not found")
      | some row =>
          if changed then redeemSeat caller hash invite.roomId
          -- A row that looks live on the second reading means the clock went back.
          else refuse (refusalError ((row.refusal read).getD .expired))
  | redeemSeat _ _ room => redeemKeyed room
  | redeemKeyed room =>
      if s.shared.server.hasEncryption room then redeemFlag room else answer "Joined room"
  | redeemFlag _ => answer "Joined room"

/-- The next statement of a request. -/
def advance (now : Nat) (s : LinkState) (c : LinkProc) : LinkState × LinkProc :=
  (effect now s c, next now s c)

/-- The link of which the request has spent a use and has not seated its caller yet. -/
def holding : LinkProc → Option String
  | redeemPhrase _ hash _ _ true => some hash
  | redeemSeat _ hash _ => some hash
  | _ => none

end LinkProc

/-- The tables with the requests on them. -/
abbrev Links := Pool LinkState LinkProc

namespace Links

/-- The state after a turn. -/
abbrev step : Links → Turn LinkCall Nat → Links := Pool.step LinkProc.enter LinkProc.advance

/-- Tables without a link, and nobody at work on them. -/
def start (s : Shared) : Links :=
  Pool.idle ⟨{ s with server := { s.server with roomInvites := [] } }, []⟩

/-- The uses of a link that are spent and have seated nobody yet. -/
def pending (hash : String) (p : Links) : Nat :=
  p.total fun c => if c.holding = some hash then 1 else 0

end Links

end PocketSkynet
