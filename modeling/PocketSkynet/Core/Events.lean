import PocketSkynet.Core.Api

/-!
# Realtime Events

The events a server sends to its clients, and whom each is for. An event is a
wake-up and carries no content. Transient events are never replayed: they say
something about a moment that is over by the time a stream is resumed.

## Main definitions

* `ServerEvent`: What is sent.
* `ServerEvent.name`: The name it is framed under.
* `ServerEvent.isReplayable`: Whether a resumed stream is sent it again.
* `Target`: Whom it is for.
-/

namespace PocketSkynet

/-- Whether somebody is at their machine. -/
inductive PresenceStatus where
  | offline
  | away
  | online
deriving DecidableEq, Repr

/-- Why a resume could not be served exactly. -/
inductive ResyncReason where
  | cursorTooOld
  | lagged
  | membershipChanged
deriving DecidableEq, Repr

/-- Server to client. -/
inductive ServerEvent where
  | newMessage (roomId : RoomId) (msgSerial : Int)
  | roomsUpdated
  | memberRemoved (roomId : RoomId)
  | invitationReceived (roomId : RoomId)
  | typing (roomId : RoomId) (sender : WalletAddress)
  | presence (wallet : WalletAddress) (status : PresenceStatus)
  | resyncRequired (reason : ResyncReason) (fromSeq toSeq : Nat)
  | sessionExpired (reason : String)
  | shout (shoutId : String)
  | pong
deriving DecidableEq, Repr

namespace ServerEvent

/-- The name of the frame, which is also the tag of the encoded event. -/
def name : ServerEvent → String
  | newMessage _ _ => "new_message"
  | roomsUpdated => "rooms_updated"
  | memberRemoved _ => "member_removed"
  | invitationReceived _ => "invitation_received"
  | typing _ _ => "typing"
  | presence _ _ => "presence"
  | resyncRequired _ _ _ => "resync_required"
  | sessionExpired _ => "session_expired"
  | shout _ => "shout"
  | pong => "pong"

/-- Whether this event may be replayed to a resuming stream. -/
def isReplayable : ServerEvent → Bool
  | typing _ _ | presence _ _ | shout _ | pong => false
  | _ => true

end ServerEvent

/-- Who an event is for. -/
inductive Target where
  | room (roomId : RoomId)
  | user (wallet : WalletAddress)
  | roomExcept (roomId : RoomId) (except : WalletAddress)
  | rooms (roomIds : List RoomId)
  | all
deriving DecidableEq, Repr

end PocketSkynet
