import Mathlib.Data.List.Dedup
import PocketSkynet.Server.Streams

/-!
# The Mention Inbox

Who a message names is resolved to addresses once, when it is written, and kept
as one row for each. A row carries a copy of the serial its message had then.
Whether a mention has been read is not stored: it is read off the read pointer
that the viewer has in the room.

Two queries do so. The badge counts the rows whose own serial lies past the
pointer. The inbox lists the messages and marks the ones whose serial does.

## Main definitions

* `Mention`, `Mail`: A mention row, and the tables around it.
* `Mail.record`, `Mail.forget`: The writes to the mention table.
* `Change`, `Mail.step`: The transactions as one step function.
* `Mail.unreadCounts`, `Mail.inbox`: The two queries.

## Theorems

* `mentionCount_eq`: The badge counts rows.
* `unreadEntries_eq`: A page that holds the whole inbox counts rows as well.
-/

namespace PocketSkynet

/-- A row of `message_mentions`. -/
structure Mention where
  messageId : MessageId
  roomId : RoomId
  mentionedAddress : WalletAddress
  msgSerial : Nat
deriving DecidableEq, Repr

/-- What a mention row is unique in. -/
def Mention.key (mm : Mention) : MessageId × WalletAddress := (mm.messageId, mm.mentionedAddress)

/-- How many people one message may name. -/
def maxMentions : Nat := 32

/-- The tables that the badge and the inbox read. -/
structure Mail where
  streams : Streams
  mentions : List Mention
  members : List (RoomId × WalletAddress)
  reads : List ((RoomId × WalletAddress) × Nat)
  blocked : List (WalletAddress × WalletAddress)

/-- One entry in the mentions inbox. -/
structure MentionView where
  roomId : RoomId
  isUnread : Bool
  message : Message
deriving DecidableEq, Repr

namespace Mail

/-- The tables of a new server. -/
def empty : Mail := ⟨[], [], [], [], []⟩

/-! ### Writes -/

/-- Insert a row. One that is there already only takes the new serial. -/
def recordOne (mm : Mention) (rows : List Mention) : List Mention :=
  if (Table.lookup Mention.key mm.key rows).isSome then
    Table.modify Mention.key mm.key (fun old => { old with msgSerial := mm.msgSerial }) rows
  else rows ++ [mm]

/-- Write the mention rows for a message. -/
def record (id : MessageId) (room : RoomId) (serial : Nat) (addresses : List WalletAddress)
    (rows : List Mention) : List Mention :=
  (addresses.take maxMentions).foldl (fun rows a => recordOne ⟨id, room, a, serial⟩ rows) rows

/-- Forget a message's mentions. -/
def forget (id : MessageId) (rows : List Mention) : List Mention :=
  rows.filter fun mm => mm.messageId ≠ id

/-- The row a mention points at, with its room. -/
def joined (s : Mail) (mm : Mention) : Option (RoomId × Message) := s.streams.row? mm.messageId

def isMember (s : Mail) (room : RoomId) (a : WalletAddress) : Bool :=
  s.members.contains (room, a)

/-- The viewer has blocked the sender. -/
def hides (s : Mail) (viewer sender : WalletAddress) : Bool :=
  s.blocked.contains (viewer, sender)

def lastReadSerial (s : Mail) (room : RoomId) (a : WalletAddress) : Nat :=
  ((Table.lookup Prod.fst (room, a) s.reads).map Prod.snd).getD 0

/-- The highest serial in a room, or zero. -/
def latestSerial (s : Mail) (room : RoomId) : Nat :=
  ((s.streams.stream room).map fun st => (st.rows.map Message.msgSerial).foldr max 0).getD 0

/-- Insert a message and the rows of everyone it names. -/
def createMessage (s : Mail) (room : RoomId) (now : Nat) (new : NewMessage)
    (mentions : List WalletAddress) : Option Mail := do
  let ss ← s.streams.transact room (.createMessage now new)
  let (_, m) ← ss.row? new.id
  return { s with
    streams := ss, mentions := record new.id room m.msgSerial mentions s.mentions }

/-- Edit a message and replace its mentions. -/
def updateMessage (s : Mail) (room : RoomId) (now : Nat) (id : MessageId) (edit : MessageEdit)
    (mentions : List WalletAddress) : Option Mail := do
  let ss ← s.streams.transact room (.updateMessage now id edit)
  let (_, m) ← ss.row? id
  return { s with
    streams := ss, mentions := record id room m.msgSerial mentions (forget id s.mentions) }

/-- Delete a message softly. Its mentions go if there was something to delete. -/
def softDeleteMessage (s : Mail) (room : RoomId) (now : Nat) (id : MessageId) :
    Option Mail := do
  let ss ← s.streams.transact room (.softDeleteMessage now id)
  let changed := ((s.streams.stream room).bind (·.getMessage id)).isSome
  return { s with
    streams := ss, mentions := if changed then forget id s.mentions else s.mentions }

/-- The message a mention points at is in the room, so that it goes with it. -/
def cascades (s : Mail) (room : RoomId) (mm : Mention) : Bool :=
  ((s.streams.stream room).bind (·.row? mm.messageId)).isSome

/-- Purge a room. The mentions of its messages go by the foreign key. -/
def deleteAllMessages (s : Mail) (room : RoomId) (now : Nat) (caller : WalletAddress)
    (markerId : MessageId) : Option Mail := do
  let ss ← s.streams.transact room (.deleteAllMessages now caller markerId)
  return { s with streams := ss, mentions := s.mentions.filter fun mm => !s.cascades room mm }

/-- Anchor a message. -/
def publishTxHash (s : Mail) (room : RoomId) (now : Nat) (id : MessageId) (txHash : String) :
    Option Mail := do
  let ss ← s.streams.transact room (.publishTxHash now id txHash)
  return { s with streams := ss }

/-- Append a reaction event. -/
def createEmoticonEvent (s : Mail) (room : RoomId) (now : Nat) (id : MessageId)
    (sender : WalletAddress) (target : MessageId) (code msgHash : String) (add : Bool) :
    Option Mail := do
  let ss ← s.streams.transact room
    (.createEmoticonEvent now id sender target code msgHash add)
  return { s with streams := ss }

/-- Advance the read pointer, never backwards. There is none in a room that is gone. -/
def markRead (s : Mail) (room : RoomId) (a : WalletAddress) (serial : Nat) : Mail :=
  if (s.streams.stream room).isNone then s
  else { s with
    reads := Table.upsert Prod.fst ((room, a), max (s.lastReadSerial room a) serial) s.reads }

def addMember (s : Mail) (room : RoomId) (a : WalletAddress) : Mail :=
  if (s.streams.stream room).isNone then s
  else { s with members := Table.insertNew id (room, a) s.members }

/-- Remove a member, along with their read pointer. -/
def removeMember (s : Mail) (room : RoomId) (a : WalletAddress) : Mail :=
  { s with
    members := Table.erase id (room, a) s.members
    reads := Table.erase Prod.fst (room, a) s.reads }

/-- Take an account out of every room. -/
def evict (s : Mail) (a : WalletAddress) : Mail :=
  { s with
    members := s.members.filter fun p => p.2 ≠ a
    reads := s.reads.filter fun p => p.1.2 ≠ a }

/-- Delete a room. Everything that names it goes by the foreign keys. -/
def deleteRoom (s : Mail) (room : RoomId) : Mail :=
  { s with
    streams := s.streams.deleteRoom room
    mentions := s.mentions.filter fun mm => !s.cascades room mm && mm.roomId ≠ room
    members := s.members.filter fun p => p.1 ≠ room
    reads := s.reads.filter fun p => p.1.1 ≠ room }

/-! ### Reads -/

/-- The mentions that the badge counts. -/
def badgeRows (s : Mail) (viewer : WalletAddress) : List Mention :=
  s.mentions.filter fun mm =>
    (s.joined mm).any fun p =>
      s.isMember mm.roomId viewer && mm.mentionedAddress == viewer && !p.2.isDeleted &&
        p.2.senderAddress != viewer && decide (s.lastReadSerial mm.roomId viewer < mm.msgSerial) &&
        !s.hides viewer p.2.senderAddress

/-- How many unread mentions the viewer has, for each room with any. -/
def unreadCounts (s : Mail) (viewer : WalletAddress) : List (RoomId × Nat) :=
  let rows := s.badgeRows viewer
  (rows.map Mention.roomId).dedup.map fun room => (room, rows.countP (·.roomId = room))

/-- The badge of a room, as the room list shows it. -/
def mentionCount (s : Mail) (viewer : WalletAddress) (room : RoomId) : Nat :=
  ((Table.lookup Prod.fst room (s.unreadCounts viewer)).map Prod.snd).getD 0

/-- The mention with its message, if the inbox lists it. -/
def inboxRow (s : Mail) (viewer : WalletAddress) (mm : Mention) :
    Option (Mention × RoomId × Message) :=
  ((s.joined mm).filter fun p =>
    (s.streams.stream mm.roomId).isSome && s.isMember mm.roomId viewer &&
      mm.mentionedAddress == viewer && !p.2.isDeleted && p.2.senderAddress != viewer &&
      !s.hides viewer p.2.senderAddress).map fun p => (mm, p)

/-- The rows of the inbox, newest first. -/
def inboxRows (s : Mail) (viewer : WalletAddress) : List (Mention × RoomId × Message) :=
  (s.mentions.filterMap (s.inboxRow viewer)).insertionSort fun a b =>
    b.1.msgSerial ≤ a.1.msgSerial

/-- An entry is unread if its message lies past the read pointer. -/
def view (s : Mail) (viewer : WalletAddress) (row : Mention × RoomId × Message) : MentionView :=
  { roomId := row.2.1
    isUnread := decide (s.lastReadSerial row.1.roomId viewer < row.2.2.msgSerial)
    message := row.2.2 }

/-- The first `limit` entries of the inbox. -/
def inbox (s : Mail) (viewer : WalletAddress) (limit : Nat) : List MentionView :=
  ((s.inboxRows viewer).take limit).map (s.view viewer)

end Mail

/-- The entries for one room that are marked unread. -/
def unreadEntries (entries : List MentionView) (room : RoomId) : Nat :=
  entries.countP fun v => v.roomId == room && v.isUnread

/-- A transaction on the tables. The addresses a message names are the members of
    its room that the route has resolved. -/
inductive Change where
  | createRoom (room : RoomId)
  | deleteRoom (room : RoomId)
  | send (room : RoomId) (now : Nat) (new : NewMessage) (mentions : List WalletAddress)
  | edit (room : RoomId) (now : Nat) (id : MessageId) (body : MessageEdit)
      (mentions : List WalletAddress)
  | remove (room : RoomId) (now : Nat) (id : MessageId)
  | purge (room : RoomId) (now : Nat) (caller : WalletAddress) (markerId : MessageId)
  | publish (room : RoomId) (now : Nat) (id : MessageId) (txHash : String)
  | react (room : RoomId) (now : Nat) (id : MessageId) (sender : WalletAddress)
      (target : MessageId) (code msgHash : String) (add : Bool)
  | markRead (room : RoomId) (a : WalletAddress) (serial : Nat)
  | addMember (room : RoomId) (a : WalletAddress)
  | removeMember (room : RoomId) (a : WalletAddress)
  | evict (a : WalletAddress)
  | block (blocker target : WalletAddress)
  | unblock (blocker target : WalletAddress)
deriving DecidableEq, Repr

namespace Mail

/-- One transaction. One that fails is rolled back. -/
def step (s : Mail) : Change → Mail
  | .createRoom room => { s with streams := s.streams.createRoom room }
  | .deleteRoom room => s.deleteRoom room
  | .send room now new mentions => (s.createMessage room now new mentions).getD s
  | .edit room now id body mentions => (s.updateMessage room now id body mentions).getD s
  | .remove room now id => (s.softDeleteMessage room now id).getD s
  | .purge room now caller markerId => (s.deleteAllMessages room now caller markerId).getD s
  | .publish room now id txHash => (s.publishTxHash room now id txHash).getD s
  | .react room now id sender target code hash add =>
      (s.createEmoticonEvent room now id sender target code hash add).getD s
  | .markRead room a serial => s.markRead room a serial
  | .addMember room a => s.addMember room a
  | .removeMember room a => s.removeMember room a
  | .evict a => s.evict a
  | .block blocker target => { s with blocked := Table.insertNew id (blocker, target) s.blocked }
  | .unblock blocker target => { s with blocked := Table.erase id (blocker, target) s.blocked }

/-! ### What the queries count -/

/-- The badge of a room is the number of its rows. -/
theorem mentionCount_eq (s : Mail) (viewer : WalletAddress) (room : RoomId) :
    s.mentionCount viewer room = (s.badgeRows viewer).countP (·.roomId = room) := by
  have hlookup : ∀ (f : RoomId → Nat) (rooms : List RoomId),
      Table.lookup Prod.fst room (rooms.map fun r => (r, f r)) =
        if room ∈ rooms then some (room, f room) else none := by
    intro f rooms
    induction rooms with
    | nil => rfl
    | cons r rooms ih =>
        rw [List.map_cons, Table.lookup_cons, ih]
        by_cases hr : r = room
        · simp [hr]
        · simp [hr, Ne.symm hr]
  simp only [mentionCount, unreadCounts]
  rw [hlookup]
  by_cases hroom : room ∈ ((s.badgeRows viewer).map Mention.roomId).dedup
  · rw [if_pos hroom]
    rfl
  · -- A room that is in no group has no row.
    rw [if_neg hroom, Option.map_none, Option.getD_none, eq_comm, List.countP_eq_zero]
    intro mm hmm he
    rw [List.mem_dedup] at hroom
    exact hroom (List.mem_map.2 ⟨mm, hmm, by simpa using he⟩)

/-- The unread entries of a whole inbox, counted off the mention rows. -/
theorem unreadEntries_eq (s : Mail) (viewer : WalletAddress) (room : RoomId) (limit : Nat)
    (h : (s.inboxRows viewer).length ≤ limit) :
    unreadEntries (s.inbox viewer limit) room =
      s.mentions.countP fun mm => (s.inboxRow viewer mm).any fun row =>
        row.2.1 == room &&
          decide (s.lastReadSerial row.1.roomId viewer < row.2.2.msgSerial) := by
  rw [unreadEntries, inbox, List.take_of_length_le h, List.countP_map, inboxRows,
    (List.perm_insertionSort _ _).countP_eq, List.countP_filterMap]
  refine List.countP_congr fun mm _ => ?_
  cases s.inboxRow viewer mm <;> simp [view]

end Mail

end PocketSkynet
