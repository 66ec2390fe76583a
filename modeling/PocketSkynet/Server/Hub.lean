import PocketSkynet.Core.Events

/-!
# The Hub

An event is published in two steps: it is appended to the log, which numbers it,
and then it is sent to everybody who is subscribed. The log is locked for the
first step only, so what is sent can be out of order. Every subscriber has a
buffer of its own; what overflows it is lost to that subscriber, who is told so
when it next reads.

A connection sees an event if its view accepts it. The view is a snapshot of the
rooms and blocks of its owner.

## Main definitions

* `Envelope`, `ConnView.accepts`: An event on its way, and who may see it.
* `LogRecord`, `EventLog`: The log.
* `EventLog.append`, `EventLog.replaySince`: What the hub asks of it.
* `Receiver`, `Receiver.push`: A subscription.
-/

namespace PocketSkynet

/-- Broadcast backlog. -/
def broadcastCapacity : Nat := 1024

/-- How many records a resuming stream is replayed at most. -/
def maxReplay : Nat := 1000

/-- Connections one wallet may hold. -/
def maxPerWallet : Nat := 8

/-- A published event, with what a connection needs to decide whether it is a
    recipient. -/
structure Envelope where
  seq : Nat
  target : Target
  origin : Option WalletAddress
  event : ServerEvent
deriving DecidableEq, Repr

/-- What a connection is subscribed to and whom it must not hear from. -/
structure ConnView where
  rooms : List RoomId
  blocks : List WalletAddress
deriving DecidableEq, Repr

/-- Whether this connection should receive the event. -/
def ConnView.accepts (v : ConnView) (env : Envelope) (me : WalletAddress) : Bool :=
  if env.origin.any (v.blocks.contains ·) then false
  else match env.target with
    | .room roomId => v.rooms.contains roomId
    | .user wallet => wallet == me
    | .roomExcept roomId except => v.rooms.contains roomId && except != me
    | .rooms roomIds => roomIds.any (v.rooms.contains ·)
    | .all => true

/-- A line of the log. The log's own records and audit records have no envelope. -/
structure LogRecord where
  seq : Nat
  envelope : Option Envelope
deriving DecidableEq, Repr

/-- The log as the hub sees it: the records in order, and the next number. -/
structure EventLog where
  records : List LogRecord
  nextSeq : Nat
deriving DecidableEq, Repr

namespace EventLog

/-- A log nothing has been written to. -/
def empty : EventLog := ⟨[], 1⟩

/-- Write a record. -/
def append (log : EventLog) (publication : Option (Target × Option WalletAddress × ServerEvent)) :
    EventLog :=
  { records := log.records ++ [⟨log.nextSeq,
      publication.map fun p => ⟨log.nextSeq, p.1, p.2.1, p.2.2⟩⟩]
    nextSeq := log.nextSeq + 1 }

/-- The newest number that was issued. -/
def laggedSeq (log : EventLog) : Nat := log.nextSeq - 1

/-- Replay retained events after the cursor that this connection may see. The log
    refuses to replay more records than `maxReplay`, or for reasons of its own. -/
def replaySince (log : EventLog) (refused : Bool) (cursor : Nat) (view : ConnView)
    (wallet : WalletAddress) : Option (List Envelope) :=
  let records := log.records.filter fun r => cursor < r.seq
  if refused || maxReplay < records.length then none
  else some (records.filterMap fun r =>
    r.envelope.filter fun e => e.event.isReplayable && view.accepts e wallet)

end EventLog

/-- A subscription: what is buffered, and how many events have been lost since
    the last read. -/
structure Receiver where
  buffer : List Envelope
  missed : Nat
deriving DecidableEq, Repr

/-- An event is sent to a subscriber. A full buffer loses its oldest event. -/
def Receiver.push (r : Receiver) (env : Envelope) : Receiver :=
  if r.buffer.length < broadcastCapacity then { r with buffer := r.buffer ++ [env] }
  else ⟨r.buffer.tail ++ [env], r.missed + 1⟩

end PocketSkynet
