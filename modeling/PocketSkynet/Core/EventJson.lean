import PocketSkynet.Core.Events

/-!
# The JSON Text of an Event

The payload of a frame is the same text on every transport: an object whose tag is the
name of the event.

## Main definitions

* `ServerEvent.toJson`: The text of an event.

## Theorems

* `printable_toJson`: It fits on one line.
-/

namespace PocketSkynet

namespace PresenceStatus

def str : PresenceStatus → String
  | offline => "offline"
  | away => "away"
  | online => "online"

end PresenceStatus

namespace ResyncReason

def str : ResyncReason → String
  | cursorTooOld => "cursor_too_old"
  | lagged => "lagged"
  | membershipChanged => "membership_changed"

end ResyncReason

namespace ServerEvent

/-- The names there are. -/
def names : List String :=
  ["new_message", "rooms_updated", "member_removed", "invitation_received", "typing", "presence",
    "resync_required", "session_expired", "shout", "pong"]

theorem name_mem_names (e : ServerEvent) : e.name ∈ names := by
  cases e <;> simp [name, names]

/-- What an event says beside its tag. -/
def fields : ServerEvent → List (String × List Char)
  | newMessage roomId msgSerial =>
      [("roomId", jsonString roomId.str), ("msgSerial", jsonInt msgSerial)]
  | memberRemoved roomId | invitationReceived roomId => [("roomId", jsonString roomId.str)]
  | typing roomId sender => [("roomId", jsonString roomId.str), ("from", jsonString sender.str)]
  | presence wallet status => [("wallet", jsonString wallet.str), ("status", jsonString status.str)]
  | resyncRequired reason fromSeq toSeq =>
      [("reason", jsonString reason.str), ("fromSeq", jsonNat fromSeq), ("toSeq", jsonNat toSeq)]
  | sessionExpired reason => [("reason", jsonString reason)]
  | shout shoutId => [("shoutId", jsonString shoutId)]
  | roomsUpdated | pong => []

/-- The JSON text of an event, which is the same on every transport. -/
def toJson (e : ServerEvent) : List Char := jsonObject (("type", jsonString e.name) :: e.fields)

theorem printable_fields (e : ServerEvent) : ∀ field ∈ e.fields, Printable field.2 := by
  cases e <;> simp [fields, printable_jsonString, printable_jsonInt, jsonNat, printable_digits]

/-- The text of an event has no control characters, so it fits on one line. -/
theorem printable_toJson (e : ServerEvent) : Printable e.toJson := by
  refine printable_append (by decide) (printable_append ?_ (by decide))
  refine printable_jsonFields fun field hfield => ?_
  rcases List.mem_cons.1 hfield with rfl | hfield
  · exact printable_jsonString e.name
  · exact printable_fields e field hfield

end ServerEvent

end PocketSkynet
