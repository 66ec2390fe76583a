import PocketSkynet.Server.Requests
import PocketSkynet.Server.Validate

/-!
# Webhooks

A webhook is a row, and the token in it is the whole credential: whoever presents it posts into
the room of the row, without a wallet. It holds no key, so it may post into plaintext rooms
only. This is checked when it is created, and again at every post.

Each request is a process that takes one statement or one transaction per step. The members'
requests that store a key or rotate one are those of the other routes, step by step.

Beside the tables a state keeps what webhooks have posted, with whether the room was keyed at
that moment and the token revoked, and the tokens that have been revoked.

## Main definitions

* `Webhook`, `HookState`: The rows, and what has been posted.
* `HookState.destroyRoom`: The room goes, and everything that names it.
* `HookProc.advance`: The requests, step by step.
* `HookState.Sound`: What is claimed of every state.
-/

namespace PocketSkynet

/-- The credential of a webhook. -/
structure Webhook where
  id : String
  roomId : RoomId
  name : String
  token : String
  createdBy : WalletAddress
  createdAt : Nat
deriving DecidableEq, Repr

/-- Webhooks per room. -/
def maxWebhooksPerRoom : Nat := 20

/-- A message of a webhook, and how things stood when it was stored. -/
structure Posting where
  room : RoomId
  message : MessageId
  keyed : Bool
  revoked : Bool
deriving DecidableEq, Repr

/-- The tables, what webhooks have posted, and the tokens that have been revoked and not been
    issued again. -/
structure HookState where
  shared : Shared
  webhooks : List Webhook
  posted : List Posting
  revoked : List String

namespace HookState

def findByToken (s : HookState) (token : String) : Option Webhook :=
  Table.lookup Webhook.token token s.webhooks

def countForRoom (s : HookState) (room : RoomId) : Nat :=
  s.webhooks.countP fun w => w.roomId = room

/-- Create a webhook, and the profile its posts are attributed to. The room must be there, and
    neither the id nor the token may be taken. -/
def insert (s : HookState) (webhookSender : String → WalletAddress) (w : Webhook) :
    Option HookState :=
  if (s.shared.server.rooms w.roomId).isSome &&
      s.webhooks.all fun v => v.id ≠ w.id && v.token ≠ w.token then
    some { s with
      shared := { s.shared with server := s.shared.server.upsertUser (webhookSender w.id) }
      webhooks := s.webhooks ++ [w]
      revoked := s.revoked.filter (· ≠ w.token) }
  else none

/-- Delete the row of a webhook. -/
def revoke (s : HookState) (room : RoomId) (id : String) : HookState :=
  let gone := s.webhooks.filter fun w => w.roomId = room && w.id = id
  { s with
    webhooks := s.webhooks.filter fun w => !(w.roomId = room && w.id = id)
    revoked := s.revoked ++ gone.map Webhook.token }

/-- The room goes, and its stream, its links and its webhooks with it. -/
def destroyRoom (s : HookState) (room : RoomId) : HookState :=
  { s with
    shared := {
      server := { s.shared.server with
        rooms := fun id => if id = room then none else s.shared.server.rooms id
        roomInvites := s.shared.server.roomInvites.filter fun i => i.roomId ≠ room }
      streams := Table.erase Prod.fst room s.shared.streams }
    webhooks := s.webhooks.filter fun w => w.roomId ≠ room }

/-- No post was stored in a room with a key or by a revoked token; no room has too many
    webhooks; and each is of a channel that is there. -/
structure Sound (s : HookState) : Prop where
  posted : ∀ x ∈ s.posted, x.keyed = false ∧ x.revoked = false
  capped : ∀ room, s.countForRoom room ≤ maxWebhooksPerRoom
  placed : ∀ w ∈ s.webhooks, ∃ r, s.shared.server.rooms w.roomId = some r ∧
    r.isStatic = false ∧ r.isDirect = false

end HookState

/-- A request as it arrives. -/
inductive HookCall where
  | create (caller : WalletAddress) (room : RoomId) (name : Option String)
  | revoke (caller : WalletAddress) (room : RoomId) (id : String)
  | post (token : String) (text : Option String)
  | store (caller : WalletAddress) (room : RoomId) (wrap : KeyWrap) (keyVersion : Option Int)
  | rotate (caller : WalletAddress) (room : RoomId) (newVersion : Option Int)
      (keys : List KeyWrap)
  | destroy (caller : WalletAddress) (room : RoomId)
deriving DecidableEq, Repr

/-- What a request is answered with. -/
inductive HookAnswer where
  | webhook (w : Webhook)
  | row (m : Message)
  | message (text : String)
deriving DecidableEq, Repr

/-- A request under way: the statement it runs next, with what it has read. -/
inductive HookProc where
  | called (call : HookCall)
  | replied (reply : Except ApiError HookAnswer)
  -- `POST /rooms/{roomId}/webhooks`
  | createAdmin (new : Webhook)
  | createRoom (new : Webhook)
  | createKeyed (new : Webhook)
  | createCount (new : Webhook)
  | createInsert (new : Webhook)
  -- `DELETE /rooms/{roomId}/webhooks/{webhookId}`
  | revokeAdmin (caller : WalletAddress) (room : RoomId) (id : String)
  | revokeRoom (room : RoomId) (id : String)
  | revokeDelete (room : RoomId) (id : String)
  -- `POST /webhooks/{token}`
  | postLookup (token content : String) (id : MessageId)
  | postKeyed (w : Webhook) (content : String) (id : MessageId)
  | postCreate (w : Webhook) (content : String) (id : MessageId)
  -- `POST /rooms/{roomId}/keys` and `POST /rooms/{roomId}/rotate-key`
  | member (p : Proc)
  -- `DELETE /rooms/{roomId}`
  | destroyExists (caller : WalletAddress) (room : RoomId)
  | destroyAdmin (caller : WalletAddress) (room : RoomId)
  | destroyStatic (room : RoomId)
  | destroyDelete (room : RoomId)

/-- What a step draws: the time, and the id and the token of what is to be created. -/
structure HookInput where
  now : Nat
  id : String
  token : String
deriving DecidableEq, Repr

/-- A token as it appears in the URL. -/
def webhookToken (raw : String) : Bool :=
  "whk_".toList.isPrefixOf raw.toList && (raw.toList.drop 4).length == 64 &&
    (raw.toList.drop 4).all isLowerHex

namespace HookProc

variable (webhookSender : String → WalletAddress) (msgHash : String → String)

def refuse (e : ApiError) : HookProc := replied (.error e)

/-- Go on if a check passes. -/
def check (c : Bool) (e : ApiError) (p : HookProc) : HookProc := if c then p else refuse e

/-- The part of the admin gate that looks at the room. -/
def checkRoom (room : Option Room) (p : HookProc) : HookProc :=
  match room with
  | none => refuse (.notFound "Room not found")
  | some r =>
      check (!r.isStatic) (.badRequest "Webhooks cannot post into a built-in room.") <|
      check (!r.isDirect) (.badRequest
        "Webhooks cannot post into direct messages. Use a channel instead.") p

/-- Where a request goes once its body has been checked. -/
def enter (x : HookInput) : HookCall → HookProc
  | .create caller room name =>
      match Validate.webhookName name with
      | .ok name => createAdmin ⟨x.id, room, name, x.token, caller, x.now⟩
      | .error e => refuse e
  | .revoke caller room id => revokeAdmin caller room id
  | .post token text =>
      if webhookToken token then
        match Validate.messageContent text with
        | .ok content => postLookup token content ⟨x.id⟩
        | .error e => refuse e
      else refuse (.notFound "Unknown webhook")
  | .store caller room wrap version => member (Proc.enter (.store caller room wrap version))
  | .rotate caller room newVersion keys => member (Proc.enter (.rotate caller room newVersion keys))
  | .destroy caller room => destroyExists caller room

/-- The message of a webhook. -/
def newMessage (w : Webhook) (content : String) (id : MessageId) : NewMessage :=
  { id := id, sender := webhookSender w.id, content := content, msgHash := msgHash content,
    isEncrypted := false, iv := none, hmac := none, encVer := 1, keyVersion := 1,
    parentMessageId := none }

/-- The next statement of a request. -/
def advance (x : HookInput) (s : HookState) : HookProc → HookState × HookProc
  | called call => (s, enter x call)
  | replied reply => (s, replied reply)
  | createAdmin new =>
      (s, check (s.shared.server.isServerAdmin new.createdBy ||
          s.shared.server.isAdmin new.roomId new.createdBy)
        (.forbidden "Only room admins can manage webhooks") (createRoom new))
  | createRoom new => (s, checkRoom (s.shared.server.getRoom new.roomId) (createKeyed new))
  | createKeyed new =>
      (s, check (!s.shared.server.hasEncryption new.roomId) (.badRequest
        ("This room is end-to-end encrypted. Webhooks hold no room key, so they can only " ++
          "post into plaintext rooms.")) (createCount new))
  | createCount new =>
      (s, check (decide (s.countForRoom new.roomId < maxWebhooksPerRoom)) (.badRequest
        "This room already has the maximum number of webhooks. Revoke one first.")
        (createInsert new))
  | createInsert new =>
      match s.insert webhookSender { new with createdAt := x.now } with
      | some s' => (s', replied (.ok (.webhook { new with createdAt := x.now })))
      | none => (s, refuse (.internal "database"))
  | revokeAdmin caller room id =>
      (s, check (s.shared.server.isServerAdmin caller || s.shared.server.isAdmin room caller)
        (.forbidden "Only room admins can manage webhooks") (revokeRoom room id))
  | revokeRoom room id => (s, checkRoom (s.shared.server.getRoom room) (revokeDelete room id))
  | revokeDelete room id =>
      (s.revoke room id,
        check (s.webhooks.any fun w => w.roomId = room && w.id = id)
          (.notFound "Webhook not found") (replied (.ok (.message "Webhook revoked"))))
  | postLookup token content id =>
      (s, match s.findByToken token with
        | none => refuse (.notFound "Unknown webhook")
        | some w => postKeyed w content id)
  | postKeyed w content id =>
      (s, check (!s.shared.server.hasEncryption w.roomId) (.plainConflict
        "This room is now end-to-end encrypted; webhooks can no longer post into it")
        (postCreate w content id))
  | postCreate w content id =>
      let new := newMessage webhookSender msgHash w content id
      let tx := fun st : Stream => st.createMessage x.now new
      match (s.shared.transact w.roomId tx).bind (·.row? id) with
      | some m =>
          ({ s with
              shared := s.shared.writeStream w.roomId tx
              posted := s.posted ++ [⟨w.roomId, id, s.shared.server.hasEncryption w.roomId,
                s.revoked.contains w.token⟩] }, replied (.ok (.row m)))
      | none => (s, refuse (.internal "database"))
  | member p =>
      ({ s with shared := (p.advance x.now s.shared).1 }, member (p.advance x.now s.shared).2)
  | destroyExists caller room =>
      (s, check (s.shared.server.getRoom room).isSome (.notFound "Room not found")
        (destroyAdmin caller room))
  | destroyAdmin caller room =>
      (s, check (s.shared.server.isServerAdmin caller || s.shared.server.isAdmin room caller)
        (.forbidden "Only room admins can delete the room") (destroyStatic room))
  | destroyStatic room =>
      (s, match s.shared.server.getRoom room with
        | none => refuse (.notFound "Room not found")
        | some r => check (!r.isStatic) (.badRequest
            "Cannot delete a built-in room. Hide it instead.") (destroyDelete room))
  | destroyDelete room =>
      (s.destroyRoom room, replied (.ok (.message "Room deleted successfully")))

end HookProc

/-- The requests and the tables. -/
abbrev Hooks := Pool HookState HookProc

end PocketSkynet
