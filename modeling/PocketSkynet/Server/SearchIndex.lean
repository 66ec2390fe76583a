import PocketSkynet.Server.Streams

/-!
# The Search Index

Plaintext messages are documents of a search index, beside the other kinds of
document. A document holds the text of its message and the hashtags in it, and
there is a row for each hashtag. The index is written by hand next to every write
to a message, in its transaction. A database from before the index is caught up once,
when it is opened.

Which characters are letters, and what their lower case is, is Unicode's to say and
a parameter here.

## Main definitions

* `hashtags`: The hashtags of a text.
* `SearchDoc`, `SearchDb`: A document, and the tables.
* `messageContent`: The check on the body of a message.
* `SearchDb.upsertDoc`, `SearchDb.unindex`: The writes to the index.
* `SearchDb.indexMessage`, `SearchDb.reindexMessage`: The index beside a write.
* `SearchDb.backfill`: The index of an older database.
* `SearchDb.Change`, `SearchDb.step`: The writes to the messages as one step function.
-/

namespace PocketSkynet

/-! ### Hashtags -/

/-- What Unicode says about characters. -/
structure CharClasses where
  isAlphanumeric : Char → Bool
  isAlphabetic : Char → Bool
  toLowercase : Char → List Char

def maxTagChars : Nat := 64

/-- The scan of a text: the character before, the tag that is being read and whether
    it has a letter, and the tags so far. -/
structure TagScan where
  prev : Option Char
  tag : Option (List Char × Bool)
  out : List String

/-- The tag that is being read has ended. -/
def TagScan.finish (s : TagScan) : TagScan :=
  match s.tag with
  | none => s
  | some (tag, hasLetter) =>
      { s with
        tag := none
        out := if hasLetter && !tag.isEmpty && decide (tag.length ≤ maxTagChars) &&
            !s.out.contains (String.ofList tag) then s.out ++ [String.ofList tag] else s.out }

/-- Read one character outside of a tag. A tag starts at a `#` with nothing or white
    space before it. -/
def TagScan.readOutside (s : TagScan) (ch : Char) : TagScan :=
  { s with
    prev := some ch
    tag := if ch == '#' && s.prev.all isSpace then some ([], false) else none }

def TagScan.read (u : CharClasses) (s : TagScan) (ch : Char) : TagScan :=
  match s.tag with
  | some (tag, hasLetter) =>
      if u.isAlphanumeric ch || ch == '_' || ch == '-' then
        { s with
          prev := some ch
          tag := some (tag ++ u.toLowercase ch, hasLetter || u.isAlphabetic ch) }
      else s.finish.readOutside ch
  | none => s.readOutside ch

/-- The hashtags of a text: lowercased, each once, in order of first appearance. -/
def hashtags (u : CharClasses) (text : String) : List String :=
  (text.toList.foldl (TagScan.read u) ⟨none, none, []⟩).finish.out

/-! ### Documents -/

inductive DocKind where
  | message
  | knowledge
  | file
  | site
deriving DecidableEq, Repr

/-- A row of `search_docs`. -/
structure SearchDoc where
  id : Nat
  kind : DocKind
  refId : String
  roomId : Option RoomId
  sender : Option WalletAddress
  ts : Nat
  text : String
  tags : String
deriving DecidableEq, Repr

/-- What a document is unique in. -/
def SearchDoc.key (d : SearchDoc) : DocKind × String := (d.kind, d.refId)

/-- The messages, the documents, the rows of `hashtags`, each for one tag of one document,
    and the id of the next document. -/
structure SearchDb where
  streams : Streams
  docs : List SearchDoc
  hashtagRows : List (String × Nat)
  nextDoc : Nat

/-- A message body that passes is 1 to 5000 characters long after trimming. -/
def messageContent (raw : Option String) : Except ApiError String := do
  let raw ← orRefuse raw (.field "content" "Message content is required")
  let content := trimmed raw
  ensure (content.length ≠ 0) (.field "content" "Message content is required")
  ensure (content.length ≤ 5000)
    (.field "content" "Message content must be at most 5000 characters")
  return content

namespace SearchDb

section Writes

variable (u : CharClasses)

/-- The document as it is written, under the id that it has or is to have. -/
def newDoc (s : SearchDb) (kind : DocKind) (refId : String) (roomId : Option RoomId)
    (sender : Option WalletAddress) (ts : Nat) (body : String) : SearchDoc :=
  { id := ((Table.lookup SearchDoc.key (kind, refId) s.docs).map SearchDoc.id).getD s.nextDoc
    kind := kind, refId := refId, roomId := roomId, sender := sender, ts := ts, text := body
    tags := " ".intercalate (hashtags u body) }

/-- Write a document, over the one under its key if there is one, and then the row of
    each of its tags anew. -/
def upsertDoc (s : SearchDb) (kind : DocKind) (refId : String) (roomId : Option RoomId)
    (sender : Option WalletAddress) (ts : Nat) (body : String) : SearchDb :=
  let d := s.newDoc u kind refId roomId sender ts body
  { s with
    docs := Table.upsert SearchDoc.key d s.docs
    nextDoc := max s.nextDoc (d.id + 1)
    hashtagRows := (hashtags u body).foldl
      (fun rows tag => Table.insertNew id (tag, d.id) rows)
      (s.hashtagRows.filter fun row => row.2 ≠ d.id) }

/-- Delete the documents of a kind. The rows of their tags go by the foreign key. -/
def deleteDocs (s : SearchDb) (p : SearchDoc → Bool) : SearchDb :=
  { s with
    docs := s.docs.filter fun d => !p d
    hashtagRows := s.hashtagRows.filter fun row => !s.docs.any fun d => p d && d.id = row.2 }

/-- Remove one document. -/
def unindex (s : SearchDb) (kind : DocKind) (refId : String) : SearchDb :=
  s.deleteDocs fun d => d.kind = kind && d.refId = refId

/-- Remove every message document of a room. -/
def unindexRoomMessages (s : SearchDb) (room : RoomId) : SearchDb :=
  s.deleteDocs fun d => d.kind = .message && d.roomId = some room

/-- Index a new message, unless it is not readable plaintext chat. -/
def indexMessage (s : SearchDb) (room : RoomId) (m : Message) : SearchDb :=
  if m.isEncrypted || isBlank m.content || m.kind ≠ .add then s
  else s.upsertDoc u .message m.id.str (some room) (some m.senderAddress) m.messageTimestamp
    m.content

/-- Index an edited message with its new content. -/
def reindexMessage (s : SearchDb) (id : MessageId) (room : RoomId) (sender : WalletAddress)
    (ts : Nat) (content : String) (isEncrypted : Bool) : SearchDb :=
  if isEncrypted || isBlank content then s.unindex .message id.str
  else s.upsertDoc u .message id.str (some room) (some sender) ts content

/-! ### The index beside a write -/

def createMessage (s : SearchDb) (room : RoomId) (now : Nat) (new : NewMessage) :
    Option SearchDb := do
  let ss ← s.streams.transact room (.createMessage now new)
  let (_, m) ← ss.row? new.id
  return { s with streams := ss }.indexMessage u room m

def updateMessage (s : SearchDb) (room : RoomId) (now : Nat) (id : MessageId)
    (edit : MessageEdit) : Option SearchDb := do
  let ss ← s.streams.transact room (.updateMessage now id edit)
  let (_, m) ← ss.row? id
  return { s with streams := ss }.reindexMessage u id room m.senderAddress m.messageTimestamp
    m.content m.isEncrypted

def softDeleteMessage (s : SearchDb) (room : RoomId) (now : Nat) (id : MessageId) :
    Option SearchDb := do
  let ss ← s.streams.transact room (.softDeleteMessage now id)
  let changed := ((s.streams.stream room).bind (·.getMessage id)).isSome
  let s' := { s with streams := ss }
  return if changed then s'.unindex .message id.str else s'

def deleteAllMessages (s : SearchDb) (room : RoomId) (now : Nat) (caller : WalletAddress)
    (markerId : MessageId) : Option SearchDb := do
  let ss ← s.streams.transact room (.deleteAllMessages now caller markerId)
  return { s with streams := ss }.unindexRoomMessages room

/-- Delete a room, and then what the index has of it. -/
def deleteRoom (s : SearchDb) (room : RoomId) : SearchDb :=
  { s with streams := s.streams.deleteRoom room }.unindexRoomMessages room

/-! ### An older database -/

/-- All messages, each with its room. -/
def messages (s : SearchDb) : List (RoomId × Message) :=
  s.streams.flatMap fun p => p.2.rows.map fun m => (p.1, m)

/-- The messages that `backfill` finds missing. -/
def missing (s : SearchDb) : List (RoomId × Message) :=
  s.messages.filter fun p =>
    p.2.kind == .add && !p.2.isEncrypted && !p.2.isDeleted && p.2.content != "" &&
      !s.docs.any fun d => d.kind == .message && d.refId == p.2.id.str

/-- Write the document of one of them. -/
def indexRow (s : SearchDb) (p : RoomId × Message) : SearchDb :=
  s.upsertDoc u .message p.2.id.str (some p.1) (some p.2.senderAddress) p.2.messageTimestamp
    p.2.content

/-- Index every message that the index does not know yet, and count them. -/
def backfill (s : SearchDb) : Nat × SearchDb :=
  (s.missing.length, s.missing.foldl (indexRow u) s)

/-- A write to the messages, as the routes make it: the body of a message or of an edit
    has been validated. The two last ones do not touch the index. -/
inductive Change where
  | createRoom (room : RoomId)
  | create (room : RoomId) (now : Nat) (new : NewMessage)
  | edit (room : RoomId) (now : Nat) (id : MessageId) (body : MessageEdit)
  | remove (room : RoomId) (now : Nat) (id : MessageId)
  | purge (room : RoomId) (now : Nat) (caller : WalletAddress) (markerId : MessageId)
  | destroy (room : RoomId)
  | publish (room : RoomId) (now : Nat) (id : MessageId) (txHash : String)
  | react (room : RoomId) (now : Nat) (id : MessageId) (sender : WalletAddress)
      (target : MessageId) (code msgHash : String) (add : Bool)
deriving DecidableEq, Repr

/-- Write to the messages alone. -/
def write (s : SearchDb) (room : RoomId) (m : Mutation) : Option SearchDb :=
  (s.streams.transact room m).map fun ss => { s with streams := ss }

/-- One write. One that is refused or fails changes nothing. -/
def step (s : SearchDb) : Change → SearchDb
  | .createRoom room => { s with streams := s.streams.createRoom room }
  | .create room now new =>
      match messageContent (some new.content) with
      | .error _ => s
      | .ok content => (s.createMessage u room now { new with content := content }).getD s
  | .edit room now id body =>
      match messageContent (some body.content) with
      | .error _ => s
      | .ok content => (s.updateMessage u room now id { body with content := content }).getD s
  | .remove room now id => (s.softDeleteMessage room now id).getD s
  | .purge room now caller markerId => (s.deleteAllMessages room now caller markerId).getD s
  | .destroy room => s.deleteRoom room
  | .publish room now id txHash => (s.write room (.publishTxHash now id txHash)).getD s
  | .react room now id sender target code msgHash add =>
      (s.write room (.createEmoticonEvent now id sender target code msgHash add)).getD s

end Writes

end SearchDb

end PocketSkynet
