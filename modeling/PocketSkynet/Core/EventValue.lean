import PocketSkynet.Core.EventJson

/-!
# Events as JSON Values

The log keeps an event as a value and reads it back when a stream resumes. An event is read back
by its tag; a value that has no known tag, or lacks a field that goes with it, is no event.

## Main definitions

* `JsonValue`: A parsed JSON text.
* `ServerEvent.toValue`, `ServerEvent.ofValue`: An event written and read.

## Theorems

* `ofValue_toValue`: Every event is read back as it was written.
-/

namespace PocketSkynet

/-- A parsed JSON text. Numbers are whole. -/
inductive JsonValue where
  | null
  | bool (b : Bool)
  | num (n : Int)
  | str (s : String)
  | arr (items : List JsonValue)
  | obj (fields : List (String × JsonValue))

namespace JsonValue

/-- The field of a name. -/
def get (v : JsonValue) (name : String) : Option JsonValue :=
  match v with
  | obj fields => (fields.find? fun field => field.1 = name).map Prod.snd
  | _ => none

def asString : JsonValue → Option String
  | str s => some s
  | _ => none

def asInt : JsonValue → Option Int
  | num n => some n
  | _ => none

def asNat : JsonValue → Option Nat
  | num (.ofNat n) => some n
  | _ => none

def getString (v : JsonValue) (name : String) : Option String := (v.get name).bind asString

def getRoom (v : JsonValue) (name : String) : Option RoomId := (v.getString name).map RoomId.mk

/-- An address is read only if it has the shape of one. -/
def getWallet (v : JsonValue) (name : String) : Option WalletAddress :=
  (v.getString name).bind fun s =>
    if h : isWalletAddress s = true then some ⟨s, h⟩ else none

end JsonValue

/-- A status of a name. -/
def PresenceStatus.ofStr (s : String) : Option PresenceStatus :=
  [PresenceStatus.offline, .away, .online].find? fun status => status.str = s

/-- A reason of a name. -/
def ResyncReason.ofStr (s : String) : Option ResyncReason :=
  [ResyncReason.cursorTooOld, .lagged, .membershipChanged].find? fun reason => reason.str = s

theorem PresenceStatus.ofStr_str (status : PresenceStatus) : ofStr status.str = some status := by
  cases status <;> decide

theorem ResyncReason.ofStr_str (reason : ResyncReason) : ofStr reason.str = some reason := by
  cases reason <;> decide

namespace ServerEvent

/-- What an event says beside its tag. -/
def valueFields : ServerEvent → List (String × JsonValue)
  | newMessage roomId msgSerial => [("roomId", .str roomId.str), ("msgSerial", .num msgSerial)]
  | memberRemoved roomId | invitationReceived roomId => [("roomId", .str roomId.str)]
  | typing roomId sender => [("roomId", .str roomId.str), ("from", .str sender.str)]
  | presence wallet status => [("wallet", .str wallet.str), ("status", .str status.str)]
  | resyncRequired reason fromSeq toSeq =>
      [("reason", .str reason.str), ("fromSeq", .num fromSeq), ("toSeq", .num toSeq)]
  | sessionExpired reason => [("reason", .str reason)]
  | shout shoutId => [("shoutId", .str shoutId)]
  | roomsUpdated | pong => []

def toValue (e : ServerEvent) : JsonValue := .obj (("type", .str e.name) :: e.valueFields)

/-- What goes with a tag. -/
def ofTag (tag : String) (v : JsonValue) : Option ServerEvent :=
  if tag = "new_message" then do
    let roomId ← v.getRoom "roomId"
    let msgSerial ← (v.get "msgSerial").bind JsonValue.asInt
    return newMessage roomId msgSerial
  else if tag = "rooms_updated" then some roomsUpdated
  else if tag = "member_removed" then (v.getRoom "roomId").map memberRemoved
  else if tag = "invitation_received" then (v.getRoom "roomId").map invitationReceived
  else if tag = "typing" then do
    let roomId ← v.getRoom "roomId"
    let sender ← v.getWallet "from"
    return typing roomId sender
  else if tag = "presence" then do
    let wallet ← v.getWallet "wallet"
    let status ← (v.getString "status").bind PresenceStatus.ofStr
    return presence wallet status
  else if tag = "resync_required" then do
    let reason ← (v.getString "reason").bind ResyncReason.ofStr
    let fromSeq ← (v.get "fromSeq").bind JsonValue.asNat
    let toSeq ← (v.get "toSeq").bind JsonValue.asNat
    return resyncRequired reason fromSeq toSeq
  else if tag = "session_expired" then (v.getString "reason").map sessionExpired
  else if tag = "shout" then (v.getString "shoutId").map shout
  else if tag = "pong" then some pong
  else none

def ofValue (v : JsonValue) : Option ServerEvent := (v.getString "type").bind fun tag => ofTag tag v

-- What is read of an address that was written.
theorem getWallet_of_getString {v : JsonValue} {name : String} {wallet : WalletAddress}
    (h : v.getString name = some wallet.str) : v.getWallet name = some wallet := by
  rw [JsonValue.getWallet, h, Option.bind_some, dif_pos wallet.wellFormed]

/-- Every event is read back as it was written. -/
theorem ofValue_toValue (e : ServerEvent) : ofValue e.toValue = some e := by
  cases e with
  | newMessage roomId msgSerial => rfl
  | roomsUpdated => rfl
  | memberRemoved roomId => rfl
  | invitationReceived roomId => rfl
  | typing roomId sender =>
      have hsender : (typing roomId sender).toValue.getWallet "from" = some sender :=
        getWallet_of_getString rfl
      change ((typing roomId sender).toValue.getWallet "from").bind _ = _
      rw [hsender]
      rfl
  | presence wallet status =>
      have hwallet : (presence wallet status).toValue.getWallet "wallet" = some wallet :=
        getWallet_of_getString rfl
      change ((presence wallet status).toValue.getWallet "wallet").bind (fun wallet =>
        (PresenceStatus.ofStr status.str).bind fun status => some (presence wallet status)) = _
      rw [hwallet, PresenceStatus.ofStr_str]
      rfl
  | resyncRequired reason fromSeq toSeq =>
      change (ResyncReason.ofStr reason.str).bind (fun reason =>
        some (resyncRequired reason fromSeq toSeq)) = _
      rw [ResyncReason.ofStr_str]
      rfl
  | sessionExpired reason => rfl
  | shout shoutId => rfl
  | pong => rfl

end ServerEvent

end PocketSkynet
