import PocketSkynet.Server.Display
import PocketSkynet.Server.Streams

/-!
# Threads

A reply names the message its thread starts with. A client may claim any message as the parent,
also another reply; the server looks the parent up and files the reply under the root of its
thread, so a thread is one flat list. The parent is looked up by a query of its own, and the
transaction that inserts the reply comes after it; whatever is written in between, a purge
included, is not looked at again.

A thread is read in two steps too: the root of what was asked for, deleted or not, and then the
root with its replies. Replies are listed by the time they were sent. An edit moves a row in the
serial order and leaves its time alone.

## Main definitions

* `Streams.threadRoot`, `Streams.resolveParent`: The thread that a message belongs to.
* `Streams.getThread`, `Streams.thread`: The thread of a message, as it is read.
* `ThreadCall`, `ThreadTask`: A write, and how far it has got.
* `Threads`: The streams with the writes on them.
-/

namespace PocketSkynet

namespace Message

/-- Oldest first by timestamp, the serial breaking ties. -/
def oldestFirst (a b : Message) : Prop := b.newestFirst a

instance : DecidableRel oldestFirst := fun a b => inferInstanceAs (Decidable (b.newestFirst a))

theorem oldestFirst_trans (a b c : Message) (hab : oldestFirst a b) (hbc : oldestFirst b c) :
    oldestFirst a c := newestFirst_trans c b a hbc hab

instance : IsTrans Message oldestFirst := ⟨oldestFirst_trans⟩

instance : Std.Total oldestFirst := ⟨fun a b => newestFirst_total b a⟩

end Message

namespace Streams

/-- All rows there are. -/
def rows (ss : Streams) : List Message := ss.flatMap fun p => p.2.rows

/-- The thread a reply to a message belongs in, and its room. -/
def threadRoot (ss : Streams) (id : MessageId) (includeDeleted : Bool) :
    Option (MessageId × RoomId) :=
  ((ss.row? id).filter fun p => includeDeleted || !p.2.isDeleted).map fun p =>
    (p.2.parentMessageId.getD p.2.id, p.1)

/-- The thread a reply belongs in, given the message the client replied to. -/
def resolveParent (ss : Streams) (parentId : MessageId) (room : RoomId) :
    Except ApiError MessageId := do
  let (root, parentRoom) ← orRefuse (ss.threadRoot parentId false)
    (.notFound "The message being replied to no longer exists")
  ensure (parentRoom == room) (.badRequest "Cannot reply to a message in another room")
  return root

/-- A reply of a thread that is shown. -/
def isReply (root : MessageId) (hides : WalletAddress → Bool) (m : Message) : Bool :=
  m.parentMessageId == some root && m.shown && !hides m.senderAddress

/-- The replies of a thread, oldest first. -/
def replies (ss : Streams) (root : MessageId) (hides : WalletAddress → Bool) : List Message :=
  (ss.rows.filter (isReply root hides)).insertionSort Message.oldestFirst

/-- Every reply in a thread with the root at the head, unless its sender is hidden. -/
def getThread (ss : Streams) (root : MessageId) (hides : WalletAddress → Bool) :
    Option (List Message) :=
  ((ss.row? root).filter fun p => !hides p.2.senderAddress).map fun p =>
    p.2 :: ss.replies root hides

/-- One thread, root first. The id may name the root or any reply in it. -/
def thread (ss : Streams) (isMember : RoomId → Bool) (hides : WalletAddress → Bool)
    (id : MessageId) : Except ApiError (List Message) := do
  let (root, room) ← orRefuse (ss.threadRoot id true) (.notFound "Message not found")
  ensure (isMember room) .accessDenied
  orRefuse (ss.getThread root hides) (.notFound "Message not found")

end Streams

/-- What is asked of the server. A new message may claim a parent. -/
inductive ThreadCall where
  | write (room : RoomId) (m : Mutation)
  | createRoom (room : RoomId)
  | deleteRoom (room : RoomId)
deriving DecidableEq, Repr

/-- How far it has got. -/
inductive ThreadTask where
  | resolving (room : RoomId) (now : Nat) (new : NewMessage)
  | writing (room : RoomId) (m : Mutation)
  | opening (room : RoomId)
  | destroying (room : RoomId)
  | answered (answer : Except ApiError Unit)

namespace ThreadTask

def enter : ThreadCall → ThreadTask
  | .write room (.createMessage now new) => resolving room now new
  | .write room m => writing room m
  | .createRoom room => opening room
  | .deleteRoom room => destroying room

/-- The next step. A write is one transaction. -/
def advance (_ : Unit) (ss : Streams) : ThreadTask → Streams × ThreadTask
  | resolving room now new =>
      match new.parentMessageId with
      | none => (ss, writing room (.createMessage now new))
      | some parent =>
          match ss.resolveParent parent room with
          | .error e => (ss, answered (.error e))
          | .ok root =>
              (ss, writing room (.createMessage now { new with parentMessageId := some root }))
  | writing room m =>
      match ss.transact room m with
      | none => (ss, answered (.error (.internal "write failed")))
      | some ss' => (ss', answered (.ok ()))
  | opening room => (ss.createRoom room, answered (.ok ()))
  | destroying room => (ss.deleteRoom room, answered (.ok ()))
  | answered answer => (ss, answered answer)

/-- The id of the row that a task is about to insert. -/
def newId : ThreadTask → Option MessageId
  | resolving _ _ new => some new.id
  | writing _ m => m.newId
  | _ => none

end ThreadTask

/-- The streams of all rooms, with the writes on them. -/
abbrev Threads := Pool Streams ThreadTask

namespace Threads

/-- The system after a turn. -/
abbrev step : Threads → Turn ThreadCall Unit → Threads :=
  Pool.step ThreadTask.enter ThreadTask.advance

/-- The system behind a run, from a server without rooms. -/
def after (turns : List (Turn ThreadCall Unit)) : Threads := Run.run step (Pool.idle []) turns

/-- The id that is drawn for the row of a write. -/
def drawn : Turn ThreadCall Unit → Option MessageId
  | .start (.write _ m) => m.newId
  | _ => none

/-- No id is drawn twice. -/
def Fresh (turns : List (Turn ThreadCall Unit)) : Prop := (turns.filterMap drawn).Nodup

instance (turns : List (Turn ThreadCall Unit)) : Decidable (Fresh turns) :=
  inferInstanceAs (Decidable (List.Nodup _))

/-- A row that has been in a room at some time. -/
def Ever (turns : List (Turn ThreadCall Unit)) (room : RoomId) (x : Message) : Prop :=
  ∃ pre, pre <+: turns ∧ (after pre).shared.Has room x

/-- A message that is or was in a room, and is no reply. -/
def WasRoot (turns : List (Turn ThreadCall Unit)) (room : RoomId) (id : MessageId) : Prop :=
  ∃ x, Ever turns room x ∧ x.id = id ∧ x.parentMessageId = none

end Threads

end PocketSkynet
