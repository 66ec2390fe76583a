import PocketSkynet.Lib.Interleave
import PocketSkynet.Server.Routes
import PocketSkynet.Server.Stream

/-!
# Requests as Processes

The same routes one statement at a time. A handler is a sequence of database
calls, and inside a call every statement and every explicit transaction commits
on its own, so a request is a process that takes one statement per step and
carries what it has read so far. Between two of its steps any other request may
take any number of theirs.

`Proc` names the statement a request runs next. `Proc.effect` is what that
statement does to the database and `Proc.next` is where the handler goes on from
what the statement returned: the next statement, or the reply. Checks that read
nothing but the request and its own variables belong to the step before them.

A leave and a kick end in the same four statements, told apart by `Departure`.
The roster that a rotation read in one call is still in the variable it was read
into when the transaction of the next call commits, and the process keeps it.

## Main definitions

* `Shared`: The tables, the streams included.
* `Call`: A request as it arrives.
* `Proc`: A request that is under way.
* `Proc.effect`, `Proc.next`, `Proc.advance`: The next statement of a request.
* `requests`: The interleaved system as a step function.
-/

namespace PocketSkynet

/-- What a request is answered with: a message, or the row it wrote. -/
inductive Answer where
  | message (text : String)
  | row (m : Message)
deriving DecidableEq, Repr

/-- The tables all requests share. A stream is kept under the id of its room. -/
structure Shared where
  server : Server
  streams : List (RoomId × Stream)

namespace Shared

def updateRoom (s : Shared) (room : RoomId) (f : Room → Room) : Shared :=
  { s with server := s.server.updateRoom room f }

/-- The stream of a room. -/
def stream (s : Shared) (room : RoomId) : Option Stream :=
  (Table.lookup Prod.fst room s.streams).map Prod.snd

/-- What a transaction on the stream of a room would leave, if it commits. -/
def transact (s : Shared) (room : RoomId) (tx : Stream → Option Stream) : Option Stream :=
  (s.stream room).bind tx

/-- Run a transaction on the stream of a room. One that fails is rolled back. -/
def writeStream (s : Shared) (room : RoomId) (tx : Stream → Option Stream) : Shared :=
  match s.transact room tx with
  | some st => { s with streams := Table.modify Prod.fst room (fun p => (p.1, st)) s.streams }
  | none => s

/-- A live message and the room it is in. -/
def getMessage (s : Shared) (id : MessageId) : Option (RoomId × Message) :=
  s.streams.findSome? fun p => (p.2.getMessage id).map fun m => (p.1, m)

end Shared

/-- A request as it arrives, authenticated and with its body parsed. -/
inductive Call where
  | send (room : RoomId) (new : NewMessage)
  | edit (caller : WalletAddress) (id : MessageId) (body : MessageEdit)
  | leave (caller : WalletAddress) (room : RoomId)
  | kick (caller : WalletAddress) (room : RoomId) (target : WalletAddress)
  | rotate (caller : WalletAddress) (room : RoomId) (newVersion : Option Int)
      (keys : List KeyWrap)
  | accept (caller : WalletAddress) (room : RoomId)
  | redeem (caller : WalletAddress) (tokenHash : String)
  | store (caller : WalletAddress) (room : RoomId) (wrap : KeyWrap) (keyVersion : Option Int)
deriving DecidableEq, Repr

/-- Which of the two routes out of a room is being taken. -/
inductive Departure where
  | left
  | kicked
deriving DecidableEq, Repr

/-- What each departure is answered with. -/
def Departure.text : Departure → String
  | left => "Left room successfully"
  | kicked => "User removed from room"

/-- A request under way: the statement it runs next, with what it has read. -/
inductive Proc where
  | replied (reply : Except ApiError Answer)
  -- `POST /rooms/{roomId}/messages`
  | sendMember (room : RoomId) (new : NewMessage)
  | sendEpoch (room : RoomId) (new : NewMessage)
  | sendCreate (room : RoomId) (new : NewMessage)
  -- `PUT /messages/{messageId}`
  | editGet (caller : WalletAddress) (id : MessageId) (body : MessageEdit)
  | editMember (caller : WalletAddress) (room : RoomId) (existing : Message) (body : MessageEdit)
  | editEpoch (room : RoomId) (id : MessageId) (body : MessageEdit)
  | editUpdate (room : RoomId) (id : MessageId) (body : MessageEdit)
  -- `POST /rooms/{roomId}/leave`
  | leaveExists (caller : WalletAddress) (room : RoomId)
  | leaveMember (caller : WalletAddress) (room : RoomId)
  | leaveDirect (caller : WalletAddress) (room : RoomId)
  | leaveStatic (caller : WalletAddress) (room : RoomId)
  | leaveAdmin (caller : WalletAddress) (room : RoomId)
  | leaveAdminCount (caller : WalletAddress) (room : RoomId)
  -- `POST /rooms/{roomId}/kick`
  | kickAdmin (caller : WalletAddress) (room : RoomId) (target : WalletAddress)
  | kickChannel (caller : WalletAddress) (room : RoomId) (target : WalletAddress)
  | kickMember (room : RoomId) (target : WalletAddress)
  -- the end of both
  | departAdmin (d : Departure) (room : RoomId) (a : WalletAddress)
  | departKeys (d : Departure) (room : RoomId) (a : WalletAddress)
  | departRow (d : Departure) (room : RoomId) (a : WalletAddress)
  | departFlag (d : Departure) (room : RoomId)
  -- `POST /rooms/{roomId}/rotate-key`
  | rotateMember (caller : WalletAddress) (room : RoomId) (newVersion : Option Int)
      (keys : List KeyWrap)
  | rotateRoster (room : RoomId) (version : Nat) (keys : List KeyWrap)
  | rotateCommit (room : RoomId) (version : Nat) (keys : List KeyWrap)
      (roster : List WalletAddress)
  -- `POST /invitations/{roomId}/accept`
  | acceptPending (caller : WalletAddress) (room : RoomId)
  | acceptRoom (caller : WalletAddress) (room : RoomId)
  | acceptGone (caller : WalletAddress) (room : RoomId)
  | acceptSeat (caller : WalletAddress) (room : RoomId)
  | acceptDone (caller : WalletAddress) (room : RoomId)
  -- `POST /invites/{token}/redeem`
  | redeemFind (caller : WalletAddress) (tokenHash : String)
  | redeemRoom (caller : WalletAddress) (tokenHash : String) (invite : Invite)
  | redeemMember (caller : WalletAddress) (tokenHash : String) (invite : Invite)
  | redeemConsume (caller : WalletAddress) (tokenHash : String) (invite : Invite)
  | redeemSeat (caller : WalletAddress) (room : RoomId)
  | redeemKeyed (room : RoomId)
  | redeemFlag (room : RoomId)
  -- `POST /rooms/{roomId}/keys`
  | storeCallerMember (caller : WalletAddress) (room : RoomId) (wrap : KeyWrap) (version : Nat)
  | storeCallerAdmin (caller : WalletAddress) (room : RoomId) (wrap : KeyWrap) (version : Nat)
  | storeCallerInvited (caller : WalletAddress) (room : RoomId) (wrap : KeyWrap)
      (version : Nat)
  | storeRoom (caller : WalletAddress) (room : RoomId) (wrap : KeyWrap) (version : Nat)
  | storeMember (caller : WalletAddress) (room : RoomId) (wrap : KeyWrap) (version : Nat)
  | storeInvited (caller : WalletAddress) (room : RoomId) (wrap : KeyWrap) (version : Nat)
  | storeAdmin (caller : WalletAddress) (room : RoomId) (wrap : KeyWrap) (version : Nat)
  | storeExists (room : RoomId) (wrap : KeyWrap) (version : Nat)
  | storeKey (room : RoomId) (wrap : KeyWrap) (version : Nat)

namespace Proc

/-- The handler returns early. -/
def refuse (e : ApiError) : Proc := replied (.error e)

/-- The handler answers. -/
def answer (text : String) : Proc := replied (.ok (.message text))

/-- Go on if a check passes. -/
def check (c : Bool) (e : ApiError) (p : Proc) : Proc := if c then p else refuse e

/-- Go on if a sequence of checks passes. -/
def after {α : Type} (x : Except ApiError α) (p : α → Proc) : Proc :=
  match x with
  | .ok a => p a
  | .error e => refuse e

/-- Where a request starts. The epoch of a stored wrap is validated before
    anything is read. -/
def enter : Call → Proc
  | .send room new => sendMember room new
  | .edit caller id body => editGet caller id body
  | .leave caller room => leaveExists caller room
  | .kick caller room target => kickAdmin caller room target
  | .rotate caller room newVersion keys => rotateMember caller room newVersion keys
  | .accept caller room => acceptPending caller room
  | .redeem caller tokenHash => redeemFind caller tokenHash
  | .store caller room wrap version =>
      after (PocketSkynet.keyVersion "keyVersion" version 1) fun v =>
        storeCallerMember caller room wrap v

/-- What a sender is told while a rotation is owed. -/
def rotationRequired : String :=
  "Room key rotation is pending — an admin must rotate the key before " ++
    "new encrypted messages can be sent."

/-- What a sender is told who sealed under another epoch. -/
def staleKeyVersion : String :=
  "Message key version does not match the room's current epoch — refetch keys and retry."

/-- What an edit is told that would have dropped the encryption. -/
def staysEncrypted : String :=
  "An encrypted message must be edited with iv and hmac; " ++
    "omitting them would store it as plaintext"

/-- The forward-secrecy gate on ciphertext sealed under `version`. -/
def checkEpoch (record : Option Room) (version : Nat) (p : Proc) : Proc :=
  match record with
  | none => refuse (.notFound "Room not found")
  | some r =>
      if r.keyRotationPending then
        refuse (.keyConflict .keyRotationRequired rotationRequired r.currentKeyVersion)
      else if version ≠ r.currentKeyVersion then
        refuse (.keyConflict .staleKeyVersion staleKeyVersion r.currentKeyVersion)
      else p

/-- A wrap for an eligible target: storing it for somebody else takes two more
    checks. -/
def storeEligible (caller : WalletAddress) (room : RoomId) (wrap : KeyWrap) (version : Nat) :
    Proc :=
  if wrap.userAddress = caller then storeKey room wrap version
  else storeAdmin caller room wrap version

/-- What the next statement of a request does to the tables. -/
def effect (now : Nat) (s : Shared) : Proc → Shared
  | sendCreate room new => s.writeStream room (·.createMessage now new)
  | editUpdate room id body => s.writeStream room (·.updateMessage now id body)
  | departAdmin _ room a => s.updateRoom room (·.removeAdmin a)
  | departKeys _ room a => s.updateRoom room (·.deleteUserKeys a)
  | departRow _ room a => s.updateRoom room (·.removeMember a)
  | departFlag _ room => s.updateRoom room (·.setKeyRotationPending true)
  | rotateCommit room version keys _ => s.updateRoom room fun r => (r.rotate version keys).2
  | acceptGone caller room => s.updateRoom room (·.deleteInvitation caller)
  | acceptSeat caller room => s.updateRoom room (·.addMember caller)
  | acceptDone caller room => s.updateRoom room (·.deleteInvitation caller)
  | redeemConsume _ tokenHash _ => { s with server := (s.server.consume tokenHash now).2 }
  | redeemSeat caller room => s.updateRoom room (·.addMember caller)
  | redeemFlag room => s.updateRoom room (·.setKeyRotationPending true)
  | storeKey room wrap version => s.updateRoom room (·.storeKey wrap version)
  | _ => s

/-- Where a request goes on from what its next statement reads. -/
def next (now : Nat) (s : Shared) : Proc → Proc
  | replied reply => replied reply
  | sendMember room new =>
      check (s.server.isMember room new.sender) .accessDenied
        (if new.isEncrypted then sendEpoch room new else sendCreate room new)
  | sendEpoch room new =>
      checkEpoch (s.server.getRoom room) new.keyVersion (sendCreate room new)
  | sendCreate room new =>
      match (s.transact room (·.createMessage now new)).bind (·.row? new.id) with
      | some m => replied (.ok (.row m))
      | none => refuse (.internal "database")
  | editGet caller id body =>
      match s.getMessage id with
      | none => refuse (.notFound "Message not found")
      | some (room, existing) => editMember caller room existing body
  | editMember caller room existing body =>
      check (s.server.isMember room caller) (.forbidden "Not a member of this room") <|
      check (existing.senderAddress = caller)
        (.forbidden "Only the message owner can edit this message") <|
      check (!existing.isEncrypted || body.encrypted) (.badRequest staysEncrypted) <|
      if body.encrypted then editEpoch room existing.id body
      else editUpdate room existing.id body
  | editEpoch room id body =>
      checkEpoch (s.server.getRoom room) body.keyVersion (editUpdate room id body)
  | editUpdate room id body =>
      match s.transact room (·.allocate now) with
      | none => refuse (.internal "database")
      | some _ =>
          match (s.transact room (·.updateMessage now id body)).bind (·.row? id) with
          | some m => replied (.ok (.row m))
          | none => refuse (.notFound "Message not found or unauthorized")
  | leaveExists caller room =>
      check (s.server.getRoom room).isSome (.notFound "Room not found") (leaveMember caller room)
  | leaveMember caller room =>
      check (s.server.isMember room caller) .accessDenied (leaveDirect caller room)
  | leaveDirect caller room =>
      after (orRefuse (s.server.getRoom room) (.notFound "Room not found")) fun r =>
        check (!r.isDirect) (.badRequest "Cannot leave a direct message. Hide it instead.")
          (leaveStatic caller room)
  | leaveStatic caller room =>
      after (orRefuse (s.server.getRoom room) (.notFound "Room not found")) fun r =>
        check (!r.isStatic) (.badRequest "Cannot leave a built-in room. Hide it instead.")
          (leaveAdmin caller room)
  | leaveAdmin caller room =>
      if s.server.isAdmin room caller then leaveAdminCount caller room
      else departKeys .left room caller
  | leaveAdminCount caller room =>
      check (1 < ((s.server.getRoom room).map Room.adminCount).getD 0) (.badRequest
        "Cannot leave room as the last admin. Transfer admin rights first or delete the room.")
        (departAdmin .left room caller)
  | kickAdmin caller room target =>
      after (s.server.requireAdmin room caller "Only room admins can remove members") fun _ =>
        kickChannel caller room target
  | kickChannel caller room target =>
      after (s.server.requireChannel room "remove someone from") fun _ =>
        check (target ≠ caller) (.badRequest "Cannot kick yourself. Use leave instead.")
          (kickMember room target)
  | kickMember room target =>
      check (s.server.isMember room target) (.notFound "User is not a member of this room")
        (departAdmin .kicked room target)
  | departAdmin d room a => departKeys d room a
  | departKeys d room a => departRow d room a
  | departRow d room _ => departFlag d room
  | departFlag d _ => answer d.text
  | rotateMember caller room newVersion keys =>
      check (s.server.isMember room caller)
        (.forbidden "Only room members can rotate the room key") <|
      after (Server.rotateBody newVersion keys) fun version => rotateRoster room version keys
  | rotateRoster room version keys =>
      after (Server.coverage (s.server.listMembers room) keys) fun _ =>
        rotateCommit room version keys (s.server.listMembers room)
  | rotateCommit room version keys _ =>
      after (orRefuse (s.server.getRoom room) (.plainConflict "Room not found")) fun r =>
        match (r.rotate version keys).1 with
        | .rotated => answer "Room key rotated"
        | .staleVersion _ => refuse (.plainConflict "Stale key version — refetch and retry")
  | acceptPending caller room =>
      check (s.server.hasPendingInvitation room caller)
        (.notFound "No pending invitation for this room") (acceptRoom caller room)
  | acceptRoom caller room =>
      if (s.server.getRoom room).isSome then acceptSeat caller room else acceptGone caller room
  | acceptGone _ _ => refuse (.notFound "Room no longer exists")
  | acceptSeat caller room => acceptDone caller room
  | acceptDone _ _ => answer "Invitation accepted"
  | redeemFind caller tokenHash =>
      match s.server.findByHash tokenHash with
      | none => refuse (.notFound "Invite link not found")
      | some invite => redeemRoom caller tokenHash invite
  | redeemRoom caller tokenHash invite =>
      check (s.server.getRoom invite.roomId).isSome (.notFound "Room no longer exists")
        (redeemMember caller tokenHash invite)
  | redeemMember caller tokenHash invite =>
      if s.server.isMember invite.roomId caller then answer "Already a member"
      else match invite.refusal now with
        | some refusal => refuse (refusalError refusal)
        | none => redeemConsume caller tokenHash invite
  | redeemConsume caller tokenHash invite =>
      match (s.server.consume tokenHash now).1 with
      | .consumed _ => redeemSeat caller invite.roomId
      | .notFound => refuse (.notFound "Invite link not found")
      | .refused refusal => refuse (refusalError refusal)
  | redeemSeat _ room => redeemKeyed room
  | redeemKeyed room =>
      if s.server.hasEncryption room then redeemFlag room else answer "Joined room"
  | redeemFlag _ => answer "Joined room"
  | storeCallerMember caller room wrap version =>
      if s.server.isMember room caller then storeRoom caller room wrap version
      else storeCallerAdmin caller room wrap version
  | storeCallerAdmin caller room wrap version =>
      if s.server.isAdmin room caller then storeRoom caller room wrap version
      else storeCallerInvited caller room wrap version
  | storeCallerInvited caller room wrap version =>
      check (s.server.hasPendingInvitation room caller) .accessDenied
        (storeRoom caller room wrap version)
  | storeRoom caller room wrap version =>
      check (s.server.getRoom room).isSome (.notFound "Room not found")
        (storeMember caller room wrap version)
  | storeMember caller room wrap version =>
      if s.server.isMember room wrap.userAddress then storeEligible caller room wrap version
      else storeInvited caller room wrap version
  | storeInvited caller room wrap version =>
      check (s.server.hasPendingInvitation room wrap.userAddress)
        (.badRequest "User must be a room member or invitee")
        (storeEligible caller room wrap version)
  | storeAdmin caller room wrap version =>
      check (s.server.isAdmin room caller)
        (.forbidden "Only admins can store keys for other users") (storeExists room wrap version)
  | storeExists room wrap version =>
      check (!(s.server.rooms room).any (·.keyExists wrap.userAddress version)) (.plainConflict
        "That member already has a key for this epoch; use /rotate-key to re-key the room.")
        (storeKey room wrap version)
  | storeKey _ _ _ => answer "Room key stored successfully"

/-- The next statement of a request. -/
def advance (now : Nat) (s : Shared) (p : Proc) : Shared × Proc := (effect now s p, next now s p)

end Proc

/-- The interleaved system: requests arrive, and whoever is scheduled runs one
    statement, reading the clock if the statement does. -/
def requests : Pool Shared Proc → Turn Call Nat → Pool Shared Proc :=
  Pool.step Proc.enter Proc.advance

end PocketSkynet
