import PocketSkynet.Lib.Keyset
import PocketSkynet.Server.RoomPurge

/-!
# The Gallery of a Room

A room shows pictures and videos in two ways. Attachments are files with a row of their own, and
hosted media are named by messages, whose rows in `message_media` are written with the message.
The gallery asks both tables for a page, merges the two by time and cuts the result to a page
again. The next page begins below the smallest time that has been received.

Whatever is done to a message is done to its rows in the same transaction: an edit replaces them,
a deletion drops them, and a purge takes them with their messages. A message names as many files
as it likes, and has rows for the first thirty-two of them.

## Main definitions

* `Db`: The three tables.
* `createMessage`, `updateMessage`, `softDeleteMessage`, `deleteAllMessages`: What is done to
    messages, `none` if it is refused.
* `mediaForRoom`, `shownForRoom`, `list`: The two queries, and a page.
* `loadAll`: Asking for pages until there are no more.
* `Wall`, `step`: The tables with what messages name, and what requests make of them.
-/

namespace PocketSkynet

namespace Gallery

/-! ### The tables -/

/-- The last number of the clock's type. -/
def i64Max : ℤ := 2 ^ 63 - 1

/-- What the clock says, in milliseconds. Its last number is three hundred million years away. -/
structure Instant where
  ms : ℤ
  lt_max : ms < i64Max
deriving DecidableEq

structure MessageRow where
  id : String
  room : RoomId
  sender : WalletAddress
  content : String
  isEncrypted : Bool
  isDeleted : Bool
deriving DecidableEq

/-- A row of `message_media`. -/
structure MediaRow where
  messageId : String
  room : RoomId
  imageName : String
  createdAt : Instant
deriving DecidableEq

/-- A row of `files`. -/
structure FileRow where
  id : String
  room : RoomId
  uploader : WalletAddress
  filename : String
  storedName : String
  caption : String
  createdAt : Instant
deriving DecidableEq

/-- The rows of each table, in the order of their rowids. -/
structure Db where
  messages : List MessageRow
  media : List MediaRow
  files : List FileRow

/-! ### References of messages -/

/-- A row for a name, unless the message has one. -/
def recordName (messageId : String) (room : RoomId) (now : Instant) (rows : List MediaRow)
    (name : String) : List MediaRow :=
  if rows.any fun r => r.messageId == messageId && r.imageName == name then rows
  else rows ++ [⟨messageId, room, name, now⟩]

/-- Rows for the first names. -/
def record (messageId : String) (room : RoomId) (names : List String) (now : Instant)
    (rows : List MediaRow) : List MediaRow :=
  (names.take maxMedia).foldl (recordName messageId room now) rows

def forget (messageId : String) (rows : List MediaRow) : List MediaRow :=
  rows.filter fun r => r.messageId != messageId

def replace (messageId : String) (room : RoomId) (names : List String) (now : Instant)
    (rows : List MediaRow) : List MediaRow :=
  record messageId room names now (forget messageId rows)

/-! ### Messages -/

structure NewMessage where
  id : String
  room : RoomId
  sender : WalletAddress
  content : String
  isEncrypted : Bool
  media : List String

def createMessage (db : Db) (new : NewMessage) (now : Instant) : Option Db :=
  if db.messages.any fun m => m.id == new.id then none
  else some { db with
    messages := db.messages ++
      [⟨new.id, new.room, new.sender, new.content, new.isEncrypted, false⟩]
    media := record new.id new.room new.media now db.media }

def updateMessage (db : Db) (id : String) (room : RoomId) (content : String) (isEncrypted : Bool)
    (media : List String) (now : Instant) : Option Db :=
  let changed := fun m : MessageRow => m.id == id && !m.isDeleted
  if db.messages.any changed then
    some { db with
      messages := db.messages.map fun m =>
        if changed m then { m with content := content, isEncrypted := isEncrypted } else m
      media := replace id room media now db.media }
  else none

/-- The row survives as a tombstone. -/
def softDeleteMessage (db : Db) (id : String) (room : RoomId) : Option Db :=
  let changed := fun m : MessageRow => m.id == id && decide (m.room = room) && !m.isDeleted
  if db.messages.any changed then
    some { db with
      messages := db.messages.map fun m =>
        if changed m then { m with content := "", isDeleted := true } else m
      media := forget id db.media }
  else none

/-- The messages of a room are deleted, their references with them, and a marker is left. -/
def deleteAllMessages (db : Db) (room : RoomId) (caller : WalletAddress) (marker : String) :
    Option Db :=
  let left := db.messages.filter fun m => !decide (m.room = room)
  if left.any fun m => m.id == marker then none
  else some { db with
    messages := left ++ [⟨marker, room, caller, "", false, false⟩]
    media := db.media.filter fun r =>
      !db.messages.any fun m => decide (m.room = room) && m.id == r.messageId }

/-! ### Attachments -/

/-- The digest of some bytes, as text. -/
structure HexDigest where
  text : String
  length_eq : text.length = 64

def createFile (db : Db) (row : FileRow) : Option Db :=
  if db.files.any fun f => f.id == row.id then none
  else some { db with files := db.files ++ [row] }

def deleteFile (db : Db) (id : String) : Db :=
  { db with files := db.files.filter fun f => f.id != id }

/-! ### A page of the gallery -/

inductive MediaKind where
  | image
  | video
deriving DecidableEq, Repr

inductive Source where
  | attachment (id filename caption : String)
  | hosted (name messageId : String)
deriving DecidableEq, Repr

structure Item where
  kind : MediaKind
  source : Source
  sender : WalletAddress
  createdAtMs : ℤ
deriving DecidableEq

structure Page where
  items : List Item
  hasMore : Bool

/-- A hosted file as the gallery reads it. -/
structure ShownMedia where
  name : String
  messageId : String
  sender : WalletAddress
  createdMs : ℤ

/-- Sorted by falling times, and the row that was inserted last before others of its time. -/
def newestFirst {α : Type*} (stamp : α → ℤ) (rows : List α) : List α :=
  rows.reverse.insertionSort fun a b => stamp b ≤ stamp a

/-- The extension of a stored name: what comes from its sixty-sixth character on. -/
def storedExt (storedName : String) : String := String.ofList (storedName.toList.drop 65)

def mediaForRoom (db : Db) (room : RoomId) (before : ℤ) (limit : ℕ) (exts : List String) :
    List FileRow :=
  (newestFirst (fun f => f.createdAt.ms) (db.files.filter fun f =>
    decide (f.room = room) && decide (f.createdAt.ms < before) &&
      exts.contains (storedExt f.storedName))).take limit

/-- A reference with the message it is of. -/
def shown (db : Db) (r : MediaRow) : Option ShownMedia :=
  (db.messages.find? fun m => m.id == r.messageId).map fun m =>
    ⟨r.imageName, r.messageId, m.sender, r.createdAt.ms⟩

def shownForRoom (db : Db) (room : RoomId) (before : ℤ) (limit : ℕ) : List ShownMedia :=
  (newestFirst ShownMedia.createdMs ((db.media.filter fun r =>
    decide (r.room = room) && decide (r.createdAt.ms < before)).filterMap (shown db))).take limit

def extOf (storedName : String) : String :=
  ((rsplitOnce '.' storedName.toList).map fun parts => String.ofList parts.2).getD ""

def kindOf (ext : String) : MediaKind := if isVideo ext then .video else .image

def attachmentItem (f : FileRow) : Item :=
  ⟨kindOf (extOf f.storedName), .attachment f.id f.filename f.caption, f.uploader,
    f.createdAt.ms⟩

def hostedItem (s : ShownMedia) : Item :=
  ⟨kindOf (extOf s.name), .hosted s.name s.messageId, s.sender, s.createdMs⟩

def inlineExts : List String := inlineMedia.map Prod.fst

/-- The size of a page, which is two hundred where nothing is asked for. -/
def pageSize (limit : Option ℤ) : ℕ := (max 1 (min 500 (limit.getD 200))).toNat

/-- A page for a member of the room. One item more than the page has is fetched from both tables,
    which tells whether there is more. -/
def list (db : Db) (room : RoomId) (limit before : Option ℤ) : Page :=
  let size := pageSize limit
  let attachments := mediaForRoom db room (before.getD i64Max) (size + 1) inlineExts
  let hosted := shownForRoom db room (before.getD i64Max) (size + 1)
  let items := (attachments.map attachmentItem ++ hosted.map hostedItem).insertionSort
    fun a b => b.createdAtMs ≤ a.createdAtMs
  ⟨items.take size, decide (size < items.length)⟩

/-! ### Asking for all of it -/

def received (pages : List Page) : List Item := pages.flatMap Page.items

/-- The smallest time of some items. -/
def smallest (items : List Item) : Option ℤ := (items.map Item.createdAtMs).min?

/-- The pages until there are no more, each below what has been received, if so many requests are
    enough. -/
def loadAll (db : Db) (room : RoomId) (limit : Option ℤ) :
    ℕ → List Page → Option (List Page)
  | 0, _ => none
  | requests + 1, pages =>
      let page := list db room limit (smallest (received pages))
      if page.hasMore then loadAll db room limit requests (pages ++ [page])
      else some (pages ++ [page])

/-! ### Runs -/

/-- What can be done in the rooms. The names that a client declares come with the text. Who may do
    it is checked before, so there are fewer runs than these. -/
inductive Call where
  | send (id : String) (room : RoomId) (sender : WalletAddress) (content : String)
      (isEncrypted : Bool) (declared : List String) (now : Instant)
  | edit (id : String) (content : String) (isEncrypted : Bool) (declared : List String)
      (now : Instant)
  | remove (id : String)
  | purge (room : RoomId) (caller : WalletAddress) (marker : String)
  | upload (id : String) (room : RoomId) (uploader : WalletAddress) (digest : HexDigest)
      (filename caption : String) (now : Instant)
  | deleteFile (id : String)

/-- The tables, and the names of files that each message was last written with. These are
    remembered to say what a message names; nothing is read from them. -/
structure Wall where
  db : Db
  names : String → List String

def Wall.empty : Wall := ⟨⟨[], [], []⟩, fun _ => []⟩

/-- What a refused request leaves as it is, and another one writes. -/
def Wall.write (w : Wall) (db : Option Db) (id : String) (names : List String) : Wall :=
  match db with
  | none => w
  | some db => ⟨db, Function.update w.names id names⟩

/-- An edit and a deletion look up the message, and with it the room. -/
def step (w : Wall) : Call → Wall
  | .send id room sender content isEncrypted declared now =>
      let media := Purge.resolveMedia content isEncrypted declared
      w.write (createMessage w.db ⟨id, room, sender, content, isEncrypted, media⟩ now) id media
  | .edit id content isEncrypted declared now =>
      let media := Purge.resolveMedia content isEncrypted declared
      w.write ((w.db.messages.find? fun m => m.id == id).bind fun existing =>
        updateMessage w.db id existing.room content isEncrypted media now) id media
  | .remove id =>
      w.write ((w.db.messages.find? fun m => m.id == id).bind fun existing =>
        softDeleteMessage w.db id existing.room) id []
  | .purge room caller marker =>
      w.write (deleteAllMessages w.db room caller marker) marker []
  | .upload id room uploader digest filename caption now =>
      { w with db := (createFile w.db ⟨id, room, uploader, filename,
          digest.text ++ "." ++ extensionOf filename, caption, now⟩).getD w.db }
  | .deleteFile id => { w with db := Gallery.deleteFile w.db id }

/-! ### What should be listed -/

/-- Something the gallery can list. -/
inductive Ref where
  | attachment (id : String)
  | hosted (messageId name : String)
deriving DecidableEq, Repr

def Item.ref (item : Item) : Ref :=
  match item.source with
  | .attachment id _ _ => .attachment id
  | .hosted name messageId => .hosted messageId name

/-- There is a message in the room, and it has not been deleted. -/
def Live (db : Db) (room : RoomId) (id : String) : Prop :=
  ∃ m ∈ db.messages, m.id = id ∧ m.room = room ∧ m.isDeleted = false

/-- An attachment of the room whose extension is one of media, or one of the first names of a
    message that is live. -/
def Wall.Shows (w : Wall) (room : RoomId) : Ref → Prop
  | .attachment id => ∃ f ∈ w.db.files, f.id = id ∧ f.room = room ∧
      extensionOf f.filename ∈ inlineExts
  | .hosted messageId name => Live w.db room messageId ∧
      name ∈ (w.names messageId).take maxMedia

/-- When a reference or an attachment was recorded. -/
def Stamped (db : Db) (t : ℤ) : Ref → Prop
  | .attachment id => ∃ f ∈ db.files, f.id = id ∧ f.createdAt.ms = t
  | .hosted messageId name => ∃ r ∈ db.media, r.messageId = messageId ∧ r.imageName = name ∧
      r.createdAt.ms = t

end Gallery

end PocketSkynet
