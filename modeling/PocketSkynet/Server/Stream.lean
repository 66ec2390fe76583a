import Mathlib.Data.List.Sort
import PocketSkynet.Core.Message
import PocketSkynet.Lib.Table

/-!
# The Message Stream of a Room

The rows of one room and the counter that numbers them. Every write takes the
next serial inside its own transaction: an insert carries it, and an edit, a
deletion or an anchoring moves the row it touches to the top of the serial
order. A purge removes every row and leaves one marker. A write that finds no
row to change is rolled back, counter included, except for the deletion, which
commits the counter either way.

Two queries read the stream back. `getMessages` pages through the displayable
rows by timestamp, newest page first. `syncMessages` delivers every row past a
cursor in serial order, whatever its kind. `aggregateEmoticons` replays the
reaction events of one message.

## Main definitions

* `Stream`: The rows and the counter.
* `Stream.createMessage`, `Stream.createEmoticonEvent`, `Stream.updateMessage`,
  `Stream.softDeleteMessage`, `Stream.deleteAllMessages`,
  `Stream.publishTxHash`: The writes.
* `Mutation`, `Stream.apply`: The writes as one step function.
* `Stream.getMessages`, `Stream.syncMessages`, `Stream.aggregateEmoticons`: The
  reads.
-/

namespace PocketSkynet

/-- The largest integer a client can count to. -/
def maxSafeInt : Nat := 9007199254740991

/-- Most rows one sync response carries. -/
def syncLimit : Nat := 500

/-- Everything the caller controls about a new message. -/
structure NewMessage where
  id : MessageId
  sender : WalletAddress
  content : String
  msgHash : String
  isEncrypted : Bool
  iv : Option String
  hmac : Option String
  encVer : Nat
  keyVersion : Nat
  parentMessageId : Option MessageId
deriving DecidableEq, Repr

/-- The fields an edit may change. -/
structure MessageEdit where
  content : String
  msgHash : String
  iv : Option String
  hmac : Option String
  encVer : Nat
  keyVersion : Nat
deriving DecidableEq, Repr

/-- The edit carries ciphertext. -/
def MessageEdit.encrypted (e : MessageEdit) : Bool := e.iv.isSome && e.hmac.isSome

/-- The rows of one room and the serial it will hand out next. -/
structure Stream where
  rows : List Message
  nextSerial : Nat
deriving DecidableEq, Repr

namespace Stream

/-- The stream of a room created at `now`. -/
def create (now : Nat) : Stream := ⟨[], now⟩

/-- The serial a write at `now` is given. -/
def serialAt (s : Stream) (now : Nat) : Nat := max s.nextSerial now

/-- Take the next serial, unless clients could no longer count to it. -/
def allocate (s : Stream) (now : Nat) : Option Stream :=
  if s.serialAt now ≤ maxSafeInt then some { s with nextSerial := s.serialAt now + 1 } else none

/-- The row under an id, deleted or not. -/
def row? (s : Stream) (id : MessageId) : Option Message := Table.lookup Message.id id s.rows

/-- The row under an id, unless it is deleted. -/
def getMessage (s : Stream) (id : MessageId) : Option Message :=
  (s.row? id).filter fun m => !m.isDeleted

/-- A row as `create_message` writes it. -/
def newRow (new : NewMessage) (now serial : Nat) : Message :=
  { id := new.id, senderAddress := new.sender, content := new.content, msgHash := new.msgHash,
    messageTimestamp := now, kind := .add, msgSerial := serial, isDeleted := false,
    editedAt := none, isEncrypted := new.isEncrypted, iv := new.iv, hmac := new.hmac,
    encVer := new.encVer, keyVersion := new.keyVersion, txHash := none, targetMessageId := none,
    emoticonCode := none, parentMessageId := new.parentMessageId }

/-- A row with no content of its own, as events are written. -/
def eventRow (id : MessageId) (sender : WalletAddress) (msgHash : String) (now serial : Nat)
    (kind : MsgKind) (target : Option MessageId) (code : Option String) : Message :=
  { id := id, senderAddress := sender, content := "", msgHash := msgHash,
    messageTimestamp := now, kind := kind, msgSerial := serial, isDeleted := false,
    editedAt := none, isEncrypted := false, iv := none, hmac := none, encVer := 1,
    keyVersion := 1, txHash := none, targetMessageId := target, emoticonCode := code,
    parentMessageId := none }

/-- A row after an edit: its id, timestamp and thread stay. -/
def editRow (e : MessageEdit) (now serial : Nat) (m : Message) : Message :=
  { m with
    content := e.content, msgHash := e.msgHash, editedAt := some now, kind := .edit,
    msgSerial := serial, iv := if e.encrypted then e.iv else none,
    hmac := if e.encrypted then e.hmac else none, isEncrypted := e.encrypted,
    encVer := if e.encrypted then e.encVer else 1,
    keyVersion := if e.encrypted then e.keyVersion else 1 }

/-- A row after its deletion: a scrubbed tombstone that keeps its thread. -/
def deleteRow (serial : Nat) (m : Message) : Message :=
  { m with
    isDeleted := true, content := "", msgHash := "", kind := .delete, msgSerial := serial,
    iv := none, hmac := none }

/-- A row after it has been anchored. -/
def publishRow (txHash : String) (serial : Nat) (m : Message) : Message :=
  { m with txHash := some txHash, msgSerial := serial }

/-! ### Writes -/

/-- Insert a row; a taken id fails the insert and rolls the serial back. -/
def insert (s : Stream) (m : Message) : Option Stream :=
  if (s.row? m.id).isSome then none else some { s with rows := s.rows ++ [m] }

def createMessage (s : Stream) (now : Nat) (new : NewMessage) : Option Stream := do
  let s' ← s.allocate now
  s'.insert (newRow new now (s.serialAt now))

/-- The hash of an event is a digest of its fields, given by the caller here. -/
def createEmoticonEvent (s : Stream) (now : Nat) (id : MessageId) (sender : WalletAddress)
    (target : MessageId) (code msgHash : String) (add : Bool) : Option Stream := do
  let s' ← s.allocate now
  s'.insert (eventRow id sender msgHash now (s.serialAt now)
    (if add then .emoticonAdd else .emoticonRemove) (some target) (some code))

/-- Edit in place. A deleted row is not found, and nothing is committed then. -/
def updateMessage (s : Stream) (now : Nat) (id : MessageId) (e : MessageEdit) :
    Option Stream := do
  let s' ← s.allocate now
  if (s.getMessage id).isNone then none
  else some { s' with rows := Table.modify Message.id id (editRow e now (s.serialAt now)) s.rows }

/-- Delete softly. The serial is committed even if there was nothing to delete. -/
def softDeleteMessage (s : Stream) (now : Nat) (id : MessageId) : Option Stream := do
  let s' ← s.allocate now
  if (s.getMessage id).isNone then some s'
  else some { s' with rows := Table.modify Message.id id (deleteRow (s.serialAt now)) s.rows }

/-- Purge the room and leave one marker behind. -/
def deleteAllMessages (s : Stream) (now : Nat) (caller : WalletAddress) (markerId : MessageId) :
    Option Stream := do
  let s' ← s.allocate now
  return { s' with
    rows := [eventRow markerId caller "" now (s.serialAt now) .deleteAll none none] }

/-- Anchor a row, whatever it is and deleted or not; the route checks more. -/
def publishTxHash (s : Stream) (now : Nat) (id : MessageId) (txHash : String) :
    Option Stream := do
  let s' ← s.allocate now
  if (s.row? id).isNone then none
  else some { s' with
    rows := Table.modify Message.id id (publishRow txHash (s.serialAt now)) s.rows }

/-! ### Reads -/

/-- Rows in the order of their serials. -/
def bySerial (rows : List Message) : List Message :=
  rows.insertionSort fun a b => a.msgSerial ≤ b.msgSerial

/-- The displayable rows the history endpoint pages through: top-level, not
    blocked, and older than `before` unless it is zero. -/
def inHistory (hides : WalletAddress → Bool) (before : Nat) (m : Message) : Bool :=
  m.displayable && m.parentMessageId.isNone && (before == 0 || m.messageTimestamp < before) &&
    !hides m.senderAddress

/-- `GET /messages` as the client asks for it: the newest `limit` rows of the
    history, oldest first. -/
def getMessages (s : Stream) (hides : WalletAddress → Bool) (before limit : Nat) :
    List Message :=
  (((s.rows.filter (inHistory hides before)).insertionSort Message.newestFirst).take limit).reverse

/-- `GET /sync`: the rows past the cursor in serial order, and whether more are
    waiting. One row beyond the limit is fetched to decide that. -/
def syncMessages (s : Stream) (hides : WalletAddress → Bool) (since : Nat) :
    List Message × Bool :=
  let out := (bySerial (s.rows.filter fun m =>
    since < m.msgSerial && !hides m.senderAddress)).take (syncLimit + 1)
  (out.take syncLimit, decide (syncLimit < out.length))

/-- What the replay of reaction events has gathered: the codes in order of
    first appearance, and who is in the set of each. -/
structure Gathered where
  order : List String
  reactors : List (String × WalletAddress)
deriving DecidableEq, Repr

/-- Replay one row. A code stays in its place even when its set empties. -/
def Gathered.replay (g : Gathered) (m : Message) : Gathered :=
  match m.emoticonCode with
  | none => g
  | some code =>
      match m.kind with
      | .emoticonAdd =>
          { order := if code ∈ g.order then g.order else g.order ++ [code]
            reactors := if (code, m.senderAddress) ∈ g.reactors then g.reactors
              else g.reactors ++ [(code, m.senderAddress)] }
      | .emoticonRemove =>
          { g with reactors := g.reactors.filter (· ≠ (code, m.senderAddress)) }
      | _ => g

/-- The surviving reactors of one code. -/
structure EmoticonAggregation where
  emoticonCode : String
  count : Nat
  reactors : List WalletAddress
deriving DecidableEq, Repr

/-- The events about one message, replayed in serial order. -/
def gather (s : Stream) (hides : WalletAddress → Bool) (target : MessageId) : Gathered :=
  (bySerial (s.rows.filter fun m =>
    decide (m.targetMessageId = some target) && !hides m.senderAddress)).foldl
      Gathered.replay ⟨[], []⟩

/-- `GET /messages/{id}/emoticons`: the codes somebody still uses, each with its
    reactors in address order. -/
def aggregateEmoticons (s : Stream) (hides : WalletAddress → Bool) (target : MessageId) :
    List EmoticonAggregation :=
  let g := s.gather hides target
  g.order.filterMap fun code =>
    let reactors := ((g.reactors.filter (·.1 = code)).map Prod.snd).insertionSort
      fun a b => a.str ≤ b.str
    if reactors.isEmpty then none else some ⟨code, reactors.length, reactors⟩

end Stream

/-- A write to the stream, with the clock it reads. -/
inductive Mutation where
  | createMessage (now : Nat) (new : NewMessage)
  | createEmoticonEvent (now : Nat) (id : MessageId) (sender : WalletAddress)
      (target : MessageId) (code msgHash : String) (add : Bool)
  | updateMessage (now : Nat) (id : MessageId) (edit : MessageEdit)
  | softDeleteMessage (now : Nat) (id : MessageId)
  | deleteAllMessages (now : Nat) (caller : WalletAddress) (markerId : MessageId)
  | publishTxHash (now : Nat) (id : MessageId) (txHash : String)
deriving DecidableEq, Repr

/-- The transaction of a write, if it commits. -/
def Stream.transact (s : Stream) : Mutation → Option Stream
  | .createMessage now new => s.createMessage now new
  | .createEmoticonEvent now id sender target code hash add =>
      s.createEmoticonEvent now id sender target code hash add
  | .updateMessage now id edit => s.updateMessage now id edit
  | .softDeleteMessage now id => s.softDeleteMessage now id
  | .deleteAllMessages now caller markerId => s.deleteAllMessages now caller markerId
  | .publishTxHash now id txHash => s.publishTxHash now id txHash

/-- The stream after a write: what it committed, or no change. -/
def Stream.apply (s : Stream) (m : Mutation) : Stream := (s.transact m).getD s

end PocketSkynet
