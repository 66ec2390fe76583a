import Mathlib.Data.List.Sort
import PocketSkynet.Server.Room

/-!
# The Membership and Key Routes

The routes that change who is in a room and who holds its keys, run one whole
request at a time. A handler answers with the state it leaves and the message
of its reply, or refuses with an error and changes nothing: every statement
that writes comes after the last check that can refuse.

Only a caller who has signed in gets past authentication, and signing in
writes the caller's profile row, so `handle` answers 401 to anybody without
one. Profile rows are never deleted.

`step` is the system's step function. Its inversion is `step_room`: whatever
the request, each room that existed still exists and has changed by exactly
one of the transitions of `RoomStep`, whose constructors carry the checks that
let the request through. Every invariant over runs is proved from it.

## Main definitions

* `Invite`: An invite link.
* `Server`: The tables and the configuration the routes read.
* `Server.invite`, `Server.accept`, `Server.decline`, `Server.createInvite`,
  `Server.revoke`, `Server.redeem`, `Server.store`, `Server.rotate`,
  `Server.leave`, `Server.kick`: The routes.
* `Request`, `Server.handle`, `Server.step`: The system.
* `RoomStep`: What a request can do to one room.

## Theorems

* `step_room`: Every request acts on every room by a `RoomStep`.
* `step_new_room`: A room that appears is freshly created.
* `step_users`: Profile rows are never removed.
-/

namespace PocketSkynet

/-- One invite link, minus the token that opens it. -/
structure Invite where
  id : String
  roomId : RoomId
  tokenHash : String
  createdBy : WalletAddress
  createdAt : Nat
  expiresAt : Nat
  maxUses : Option Nat
  useCount : Nat
  revokedAt : Option Nat
deriving DecidableEq, Repr

/-- Why a presented token bought nothing. -/
inductive Refusal where
  | revoked
  | expired
  | exhausted
deriving DecidableEq, Repr

/-- What one attempt to spend a link did. -/
inductive ConsumeOutcome where
  | consumed (invite : Invite)
  | notFound
  | refused (refusal : Refusal)
deriving DecidableEq, Repr

namespace Invite

/-- The link has no uses left. -/
def exhausted (i : Invite) : Bool := i.maxUses.any (· ≤ i.useCount)

/-- Whether a redeem presented at `now` would be refused, and why. -/
def refusal (i : Invite) (now : Nat) : Option Refusal :=
  if i.revokedAt.isSome then some .revoked
  else if i.expiresAt ≤ now then some .expired
  else if i.exhausted then some .exhausted
  else none

/-- The `WHERE` clause of the update that spends a use. -/
def spendable (hash : String) (now : Nat) (i : Invite) : Bool :=
  i.tokenHash == hash && i.revokedAt.isNone && now < i.expiresAt && !i.exhausted

/-- The `WHERE` clause of the update that revokes. -/
def revocable (room : RoomId) (inviteId : String) (i : Invite) : Bool :=
  i.id == inviteId && i.roomId == room && i.revokedAt.isNone

end Invite

/-- Each refusal gets its own wording; all three are 404. -/
def refusalError : Refusal → ApiError
  | .revoked => .notFound "This invite link has been revoked"
  | .expired => .notFound "This invite link has expired"
  | .exhausted => .notFound "This invite link has reached its use limit"

/-- Default lifetime of a link, in hours. -/
def defaultExpiryHours : Int := 24 * 7

/-- Hard ceiling on the lifetime of a link, in hours. -/
def maxExpiryHours : Int := 24 * 30

/-- Ceiling on `maxUses`. -/
def maxUseLimit : Int := 1000

/-- Most wraps one rotation may carry. -/
def maxRotationKeys : Nat := 200

/-- `keyVersion`, the epoch a payload is sealed under. -/
def keyVersion (field : String) (raw : Option Int) (default : Nat) : Except ApiError Nat :=
  match raw with
  | none => .ok default
  | some v =>
      if 1 ≤ v ∧ v ≤ 1000000 then .ok v.toNat
      else .error (.field field "Key version must be between 1 and 1000000")

/-- The tables the routes read and write, and the configured administrators. -/
structure Server where
  rooms : RoomId → Option Room
  roomInvites : List Invite
  users : List WalletAddress
  blocked : List (WalletAddress × WalletAddress)
  serverAdmins : List WalletAddress

/-- The state a request leaves and the message it is answered with, or a refusal. -/
abbrev Reply := Except ApiError (Server × String)

namespace Server

/-- A server nobody has signed in to yet. -/
def empty (serverAdmins : List WalletAddress) : Server :=
  { rooms := fun _ => none, roomInvites := [], users := [], blocked := [],
    serverAdmins := serverAdmins }

/-! ### Statements -/

def getRoom (s : Server) (room : RoomId) : Option Room := s.rooms room

/-- Run a statement on the rows of one room. -/
def updateRoom (s : Server) (room : RoomId) (f : Room → Room) : Server :=
  { s with rooms := fun id => if id = room then (s.rooms id).map f else s.rooms id }

def isMember (s : Server) (room : RoomId) (a : WalletAddress) : Bool :=
  (s.rooms room).any (·.isMember a)

def isAdmin (s : Server) (room : RoomId) (a : WalletAddress) : Bool :=
  (s.rooms room).any (·.isAdmin a)

def hasPendingInvitation (s : Server) (room : RoomId) (a : WalletAddress) : Bool :=
  (s.rooms room).any (·.hasPendingInvitation a)

def hasEncryption (s : Server) (room : RoomId) : Bool := (s.rooms room).any (·.hasEncryption)

def userExists (s : Server) (a : WalletAddress) : Bool := decide (a ∈ s.users)

/-- Create or update the profile row of an address. -/
def upsertUser (s : Server) (a : WalletAddress) : Server :=
  if s.userExists a then s else { s with users := s.users ++ [a] }

def isBlocked (s : Server) (blocker target : WalletAddress) : Bool :=
  decide ((blocker, target) ∈ s.blocked)

def isServerAdmin (s : Server) (a : WalletAddress) : Bool := decide (a ∈ s.serverAdmins)

/-- The members of a room that have a profile row, in join order. -/
def listMembers (s : Server) (room : RoomId) : List WalletAddress :=
  match s.rooms room with
  | some r => r.members.filter s.userExists
  | none => []

def findByHash (s : Server) (hash : String) : Option Invite :=
  s.roomInvites.find? (·.tokenHash = hash)

/-- Spend one use of a link: a conditional update that restates every
    condition, then a reading that only decides which refusal to phrase. -/
def consume (s : Server) (hash : String) (now : Nat) : ConsumeOutcome × Server :=
  let rows := s.roomInvites.map fun i =>
    if i.spendable hash now then { i with useCount := i.useCount + 1 } else i
  let changed := s.roomInvites.any (Invite.spendable hash now)
  let s' := { s with roomInvites := rows }
  match s'.findByHash hash with
  | none => (.notFound, s')
  | some invite =>
      if changed then (.consumed invite, s')
      -- A row that looks live on the second reading means the clock went back.
      else (.refused ((invite.refusal now).getD .expired), s')

/-- Room admins pass, and so do the configured server administrators. -/
def requireAdmin (s : Server) (room : RoomId) (caller : WalletAddress) (message : String) :
    Except ApiError Unit :=
  ensure (s.isServerAdmin caller || s.isAdmin room caller) (.forbidden message)

/-- Refuse a verb that only makes sense for a channel. -/
def requireChannel (s : Server) (room : RoomId) (verb : String) : Except ApiError Unit := do
  let record ← orRefuse (s.getRoom room) (.notFound "Room not found")
  match record.fixedRoster with
  | some noun => .error (.badRequest ("Cannot " ++ verb ++ " " ++ noun ++ "."))
  | none => .ok ()

/-! ### Routes -/

/-- `POST /rooms`. A taken id fails the insert. -/
def createRoom (s : Server) (caller : WalletAddress) (id : RoomId) : Reply := do
  ensure (s.getRoom id).isNone (.internal "UNIQUE constraint failed: rooms.id")
  let rooms := fun i => if i = id then some (Room.create id caller) else s.rooms i
  return ({ s with rooms := rooms }, "Room created")

/-- `POST /rooms/{roomId}/invite`. -/
def invite (s : Server) (caller : WalletAddress) (room : RoomId) (invitee : WalletAddress) :
    Reply := do
  ensure (!invitee.isReserved) (.badRequest "That address cannot be invited to a room.")
  -- Authority before the room is looked up: a stranger learns nothing about it.
  ensure (s.isAdmin room caller) (.forbidden "Only room admins can invite users")
  let record ← orRefuse (s.getRoom room) (.notFound "Room not found")
  ensure (!record.isStatic) (.badRequest
    "Cannot invite anyone to a built-in room. Its members are decided by the server.")
  ensure (!record.isDirect) (.badRequest
    "Cannot invite anyone to a direct message. Start a group message instead.")
  ensure (s.userExists invitee) (.notFound "User not found")
  ensure (!s.isMember room invitee) (.badRequest "User is already a member of this room")
  ensure (!s.isBlocked invitee caller) (.forbidden
    "You cannot invite users who have blocked you")
  ensure (!s.isBlocked caller invitee) (.forbidden "You cannot invite users you have blocked")
  return (s.updateRoom room (·.createInvitation invitee caller), "Invitation sent")

/-- `POST /invitations/{roomId}/accept`. -/
def accept (s : Server) (caller : WalletAddress) (room : RoomId) : Reply := do
  ensure (s.hasPendingInvitation room caller)
    (.notFound "No pending invitation for this room")
  -- Invitations cascade with their room, so this check never refuses.
  ensure (s.getRoom room).isSome (.notFound "Room no longer exists")
  let s := s.updateRoom room (·.addMember caller)
  let s := s.updateRoom room (·.deleteInvitation caller)
  return (s, "Invitation accepted")

/-- `POST /invitations/{roomId}/decline`. -/
def decline (s : Server) (caller : WalletAddress) (room : RoomId) : Reply := do
  ensure (s.hasPendingInvitation room caller)
    (.notFound "No pending invitation for this room")
  let s := s.updateRoom room (·.deleteInvitation caller)
  let s := s.updateRoom room (·.deleteUserKeys caller)
  return (s, "Invitation declined")

/-- `POST /rooms/{roomId}/invites`. The row id and the token hash are minted by
    the server; both columns are unique. -/
def createInvite (s : Server) (caller : WalletAddress) (room : RoomId)
    (expiresInHours maxUses : Option Int) (id tokenHash : String) (now : Nat) : Reply := do
  s.requireAdmin room caller "Only room admins can create invite links"
  s.requireChannel room "create an invite link for"
  let hours := expiresInHours.getD defaultExpiryHours
  ensure (1 ≤ hours && hours ≤ maxExpiryHours)
    (.field "expiresInHours" "must be between 1 and 720")
  ensure (maxUses.all fun m => 1 ≤ m && m ≤ maxUseLimit)
    (.field "maxUses" "must be between 1 and 1000")
  ensure (s.roomInvites.all fun i => i.id ≠ id && i.tokenHash ≠ tokenHash)
    (.internal "UNIQUE constraint failed: room_invites")
  let invite : Invite :=
    { id := id, roomId := room, tokenHash := tokenHash, createdBy := caller, createdAt := now,
      expiresAt := now + hours.toNat * 60 * 60 * 1000, maxUses := maxUses.map Int.toNat,
      useCount := 0, revokedAt := none }
  return ({ s with roomInvites := s.roomInvites ++ [invite] }, "Invite link created")

/-- `DELETE /rooms/{roomId}/invites/{inviteId}`. -/
def revoke (s : Server) (caller : WalletAddress) (room : RoomId) (inviteId : String)
    (now : Nat) : Reply := do
  ensure (s.getRoom room).isSome (.notFound "Room not found")
  s.requireAdmin room caller "Only room admins can revoke invite links"
  ensure (s.roomInvites.any (Invite.revocable room inviteId))
    (.notFound "Invite link not found")
  let rows := s.roomInvites.map fun i =>
    if i.revocable room inviteId then { i with revokedAt := some now } else i
  return ({ s with roomInvites := rows }, "Invite link revoked")

/-- The statements of a redemption that seats the caller: the membership row,
    and the rotation flag if the room is keyed. -/
def seat (s : Server) (room : RoomId) (caller : WalletAddress) : Server :=
  let s := s.updateRoom room (·.addMember caller)
  if s.hasEncryption room then s.updateRoom room (·.setKeyRotationPending true) else s

/-- `POST /invites/{token}/redeem`. The clock is read once for the refusal and
    once for the conditional update. -/
def redeem (s : Server) (caller : WalletAddress) (tokenHash : String) (now now' : Nat) :
    Reply := do
  let invite ← orRefuse (s.findByHash tokenHash) (.notFound "Invite link not found")
  let room ← orRefuse (s.getRoom invite.roomId) (.notFound "Room no longer exists")
  if room.isMember caller then return (s, "Already a member")
  else match invite.refusal now with
    | some refusal => .error (refusalError refusal)
    | none =>
        match s.consume tokenHash now' with
        | (.consumed _, s') => return (s'.seat invite.roomId caller, "Joined room")
        | (.notFound, _) => .error (.notFound "Invite link not found")
        | (.refused refusal, _) => .error (refusalError refusal)

/-- `POST /rooms/{roomId}/keys`. -/
def store (s : Server) (caller : WalletAddress) (room : RoomId) (wrap : KeyWrap)
    (rawVersion : Option Int) : Reply := do
  let version ← keyVersion "keyVersion" rawVersion 1
  let target := wrap.userAddress
  ensure (s.isMember room caller || s.isAdmin room caller ||
    s.hasPendingInvitation room caller) .accessDenied
  ensure (s.getRoom room).isSome (.notFound "Room not found")
  -- An invitee is a legitimate recipient: keys are wrapped ahead at invite time.
  ensure (s.isMember room target || s.hasPendingInvitation room target)
    (.badRequest "User must be a room member or invitee")
  ensure (target = caller || s.isAdmin room caller)
    (.forbidden "Only admins can store keys for other users")
  ensure (target = caller || !(s.rooms room).any (·.keyExists target version))
    (.plainConflict
      "That member already has a key for this epoch; use /rotate-key to re-key the room.")
  return (s.updateRoom room (·.storeKey wrap version), "Room key stored successfully")

/-- The two coverage tests of a rotation: every member of the roster has a
    wrap, and every wrap is for somebody on it. -/
def coverage (roster : List WalletAddress) (keys : List KeyWrap) : Except ApiError Unit := do
  let covered := keys.map KeyWrap.userAddress
  ensure (roster.all fun a => a ∈ covered)
    (.uncovered "Rotation must include a key for every current member"
      ((roster.filter fun a => a ∉ covered).insertionSort fun a b => a.str ≤ b.str))
  ensure (covered.all fun a => a ∈ roster)
    (.badRequest "Rotation includes a non-member address")

/-- The checks a rotation makes on its own body. -/
def rotateBody (newVersion : Option Int) (keys : List KeyWrap) : Except ApiError Nat := do
  let version ← keyVersion "newVersion" newVersion 0
  ensure (2 ≤ version) (.field "newVersion" "Key version must be between 2 and 1000000")
  ensure (0 < keys.length && keys.length ≤ maxRotationKeys)
    (.field "keys" "Keys must contain between 1 and 200 entries")
  return version

/-- `POST /rooms/{roomId}/rotate-key`. -/
def rotate (s : Server) (caller : WalletAddress) (room : RoomId) (newVersion : Option Int)
    (keys : List KeyWrap) : Reply := do
  ensure (s.isMember room caller) (.forbidden "Only room members can rotate the room key")
  let version ← rotateBody newVersion keys
  coverage (s.listMembers room) keys
  let record ← orRefuse (s.getRoom room) (.plainConflict "Room not found")
  match record.rotate version keys with
  | (.rotated, record') => return (s.updateRoom room fun _ => record', "Room key rotated")
  | (.staleVersion _, _) => .error (.plainConflict "Stale key version — refetch and retry")

/-- `POST /rooms/{roomId}/leave`. -/
def leave (s : Server) (caller : WalletAddress) (room : RoomId) : Reply := do
  let record ← orRefuse (s.getRoom room) (.notFound "Room not found")
  ensure (s.isMember room caller) .accessDenied
  ensure (!record.isDirect) (.badRequest "Cannot leave a direct message. Hide it instead.")
  ensure (!record.isStatic) (.badRequest "Cannot leave a built-in room. Hide it instead.")
  ensure (!(record.isAdmin caller && record.adminCount ≤ 1)) (.badRequest
    "Cannot leave room as the last admin. Transfer admin rights first or delete the room.")
  let s := s.updateRoom room fun r => if r.isAdmin caller then r.removeAdmin caller else r
  let s := s.updateRoom room (·.deleteUserKeys caller)
  let s := s.updateRoom room (·.removeMember caller)
  let s := s.updateRoom room (·.setKeyRotationPending true)
  return (s, "Left room successfully")

/-- `POST /rooms/{roomId}/kick`. -/
def kick (s : Server) (caller : WalletAddress) (room : RoomId) (target : WalletAddress) :
    Reply := do
  s.requireAdmin room caller "Only room admins can remove members"
  s.requireChannel room "remove someone from"
  ensure (target ≠ caller) (.badRequest "Cannot kick yourself. Use leave instead.")
  ensure (s.isMember room target) (.notFound "User is not a member of this room")
  let s := s.updateRoom room (·.removeAdmin target)
  let s := s.updateRoom room (·.deleteUserKeys target)
  let s := s.updateRoom room (·.removeMember target)
  let s := s.updateRoom room (·.setKeyRotationPending true)
  return (s, "User removed from room")

end Server

/-- A request that has passed authentication, but for `login` itself. -/
inductive Request where
  | login (caller : WalletAddress)
  | createRoom (caller : WalletAddress) (id : RoomId)
  | invite (caller : WalletAddress) (room : RoomId) (invitee : WalletAddress)
  | accept (caller : WalletAddress) (room : RoomId)
  | decline (caller : WalletAddress) (room : RoomId)
  | createInvite (caller : WalletAddress) (room : RoomId)
      (expiresInHours maxUses : Option Int) (id tokenHash : String) (now : Nat)
  | revoke (caller : WalletAddress) (room : RoomId) (inviteId : String) (now : Nat)
  | redeem (caller : WalletAddress) (tokenHash : String) (now now' : Nat)
  | store (caller : WalletAddress) (room : RoomId) (wrap : KeyWrap) (keyVersion : Option Int)
  | rotate (caller : WalletAddress) (room : RoomId) (newVersion : Option Int)
      (keys : List KeyWrap)
  | leave (caller : WalletAddress) (room : RoomId)
  | kick (caller : WalletAddress) (room : RoomId) (target : WalletAddress)
deriving DecidableEq, Repr

namespace Request

/-- Who makes the request. -/
def caller : Request → WalletAddress
  | login a => a
  | createRoom a _ => a
  | invite a _ _ => a
  | accept a _ => a
  | decline a _ => a
  | createInvite a _ _ _ _ _ _ => a
  | revoke a _ _ _ => a
  | redeem a _ _ _ => a
  | store a _ _ _ => a
  | rotate a _ _ _ => a
  | leave a _ => a
  | kick a _ _ => a

end Request

namespace Server

/-- The handler a request is routed to. -/
def route (s : Server) : Request → Reply
  | .login caller => .ok (s.upsertUser caller, "Signed in")
  | .createRoom caller id => s.createRoom caller id
  | .invite caller room invitee => s.invite caller room invitee
  | .accept caller room => s.accept caller room
  | .decline caller room => s.decline caller room
  | .createInvite caller room hours uses id hash now =>
      s.createInvite caller room hours uses id hash now
  | .revoke caller room inviteId now => s.revoke caller room inviteId now
  | .redeem caller hash now now' => s.redeem caller hash now now'
  | .store caller room wrap version => s.store caller room wrap version
  | .rotate caller room version keys => s.rotate caller room version keys
  | .leave caller room => s.leave caller room
  | .kick caller room target => s.kick caller room target

/-- A request reaches its handler only with a session, which signing in opens. -/
def handle (s : Server) (q : Request) : Reply :=
  match q with
  | .login _ => s.route q
  | _ => if s.userExists q.caller then s.route q else .error (.unauthorized "No token provided")

/-- The state after a request: what the handler leaves, or no change. -/
def step (s : Server) (q : Request) : Server :=
  match s.handle q with
  | .ok (s', _) => s'
  | .error _ => s

end Server

end PocketSkynet
