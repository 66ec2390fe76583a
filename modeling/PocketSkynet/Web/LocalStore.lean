import Mathlib.Data.List.Sort
import Mathlib.Logic.Function.Basic
import PocketSkynet.Client.Drain
import PocketSkynet.Server.MediaNames
import PocketSkynet.Web.LocalRequests

/-!
# The Local Store

Local mode keeps the messages of its two rooms in the browser. A row is stored under its room
and its serial, and the keys are texts, so a room and what comes after a serial in it are ranges
of keys. A row that is edited or deleted moves to a new serial, and a second store says where
each message is.

The transactions of the database are functions of the store. One of them takes the next serial
and makes the writes that are built for it. The rows are in the shape in which the server sends
them.

## Main definitions

* `StaticKind`, `StaticKind.roomId`, `checkRoom`: The two rooms.
* `Key`, `Key.text`: A key, and how it is written.
* `messageRow`, `reactionRow`, `purgeMarker`, `applyEdit`, `applyTombstone`: The rows.
* `Store`, `Store.commitWithSerial`, `Store.getRange`, `Store.deleteRange`: The store and its
  transactions.
* `syncPage`: A page of what is new.

## Theorems

* `inRange_after_iff`, `inRange_room_iff`: What a range of keys holds.
* `mem_syncPage`: A page has every row up to the last one in it, or up to the end.
-/

namespace PocketSkynet

namespace Local

open LocalRequests

/-- A note to oneself, and the room of the agent. -/
inductive StaticKind where
  | note
  | jarvis
deriving DecidableEq, Repr

/-- What local mode answers instead of a reply. -/
inductive LocalError where
  | notMember
  | notAvailable (what : String)
  | storage
deriving DecidableEq, Repr

def StaticKind.roomId (owner : WalletAddress) : StaticKind → RoomId
  | note => ⟨"room_note_" ++ owner.str⟩
  | jarvis => ⟨"room_jarvis_" ++ owner.str⟩

/-- The rooms that local mode has. -/
def checkRoom (owner : WalletAddress) (room : RoomId) : Except LocalError StaticKind :=
  if room = StaticKind.note.roomId owner then .ok .note
  else if room = StaticKind.jarvis.roomId owner then .ok .jarvis
  else .error .notMember

/-- The last serial of twelve digits. -/
def serialLimit : ℕ := 999999999999

/-- Where a row is stored. -/
structure Key where
  room : StaticKind
  serial : ℕ
deriving DecidableEq, Repr

def StaticKind.name (owner : WalletAddress) (room : StaticKind) : List Char :=
  (room.roomId owner).str.toList

/-- The key as it is written and compared. -/
def Key.text (owner : WalletAddress) (key : Key) : List Char :=
  messageKey (key.room.name owner) key.serial

/-! ### Rows -/

/-- What a client sends with a message, an agent reply or an edit. -/
structure Body where
  content : String
  msgHash : String
  isEncrypted : Bool
  iv : Option String
  hmac : Option String
  encVer : ℕ
  keyVersion : ℕ
  parentMessageId : Option MessageId
deriving DecidableEq, Repr

def messageRow (body : Body) (id : MessageId) (sender : WalletAddress) (serial now : ℕ) :
    Message where
  id := id
  senderAddress := sender
  content := body.content
  msgHash := body.msgHash
  messageTimestamp := now
  kind := .add
  msgSerial := serial
  isDeleted := false
  editedAt := none
  isEncrypted := body.isEncrypted
  iv := body.iv
  hmac := body.hmac
  encVer := body.encVer
  keyVersion := body.keyVersion
  txHash := none
  targetMessageId := none
  emoticonCode := none
  parentMessageId := body.parentMessageId

/-- An event row, which has no content of its own. -/
def eventRow (kind : MsgKind) (id : MessageId) (sender : WalletAddress)
    (target : Option MessageId) (code : Option String) (serial now : ℕ) : Message where
  id := id
  senderAddress := sender
  content := ""
  msgHash := ""
  messageTimestamp := now
  kind := kind
  msgSerial := serial
  isDeleted := false
  editedAt := none
  isEncrypted := false
  iv := none
  hmac := none
  encVer := 1
  keyVersion := 1
  txHash := none
  targetMessageId := target
  emoticonCode := code
  parentMessageId := none

def reactionRow (add : Bool) (id : MessageId) (sender : WalletAddress) (target : MessageId)
    (code : String) (serial now : ℕ) : Message :=
  eventRow (if add then .emoticonAdd else .emoticonRemove) id sender (some target) (some code)
    serial now

/-- The marker that a purge leaves. -/
def purgeMarker (id : MessageId) (sender : WalletAddress) (serial now : ℕ) : Message :=
  eventRow .deleteAll id sender none none serial now

/-- A row with new content and a new serial. Whether it is deleted stays as it is. -/
def applyEdit (row : Message) (body : Body) (serial now : ℕ) : Message :=
  { row with
    content := body.content
    msgHash := body.msgHash
    isEncrypted := body.isEncrypted
    iv := body.iv
    hmac := body.hmac
    encVer := body.encVer
    keyVersion := body.keyVersion
    kind := .edit
    msgSerial := serial
    editedAt := some now }

/-- A row that is deleted, with a new serial. -/
def applyTombstone (row : Message) (serial : ℕ) : Message :=
  { row with
    isDeleted := true
    kind := .delete
    msgSerial := serial
    content := ""
    iv := none
    hmac := none }

/-! ### Transactions -/

/-- The serial that was taken last, the rows, and where each message is. -/
structure Store where
  serial : ℕ
  messages : List (Key × Message)
  msgid : MessageId → Option Key

/-- A write of a transaction. -/
inductive Op where
  | put (key : Key) (row : Message)
  | delete (key : Key)
  | index (id : MessageId) (key : Key)
deriving DecidableEq, Repr

namespace Store

def empty : Store := ⟨0, [], fun _ => none⟩

def getMessage (s : Store) (key : Key) : Option Message :=
  (s.messages.find? fun e => e.1 = key).map Prod.snd

def apply (s : Store) : Op → Store
  | .put key row =>
      { s with messages := s.messages.filter (fun e => e.1 ≠ key) ++ [(key, row)] }
  | .delete key => { s with messages := s.messages.filter fun e => e.1 ≠ key }
  | .index id key => { s with msgid := Function.update s.msgid id (some key) }

/-- Take the next serial and make the writes that are built for it. -/
def commitWithSerial (s : Store) (build : ℕ → List Op) : Store :=
  (build (s.serial + 1)).foldl apply { s with serial := s.serial + 1 }

variable (owner : WalletAddress)

/-- The entry is in a range of keys. -/
def inRange (range : List Char × List Char) (e : Key × Message) : Bool :=
  decide (range.1 ≤ e.1.text owner) && decide (e.1.text owner ≤ range.2)

/-- The entries in a range, in the order of their keys. -/
def entries (s : Store) (range : List Char × List Char) : List (Key × Message) :=
  (s.messages.filter (inRange owner range)).insertionSort fun a b =>
    a.1.text owner ≤ b.1.text owner

def getRange (s : Store) (range : List Char × List Char) : List Message :=
  (s.entries owner range).map Prod.snd

def deleteRange (s : Store) (range : List Char × List Char) : Store :=
  { s with messages := s.messages.filter fun e => !inRange owner range e }

end Store

/-- The cap of a page. -/
def syncPageLimit : ℕ := 200

/-- A page of what is new, and whether there is more. -/
def syncPage (rows : List Message) : List Message × Bool :=
  (rows.take syncPageLimit, decide (syncPageLimit < rows.length))

/-! ### Ranges -/

variable {owner : WalletAddress}

theorem name_note : StaticKind.note.name owner = "room_note_".toList ++ owner.str.toList :=
  String.toList_append

theorem name_jarvis : StaticKind.jarvis.name owner = "room_jarvis_".toList ++ owner.str.toList :=
  String.toList_append

-- Room ids are in the grammar of room ids, so they have no separator of keys.
theorem isRoomId_name (room : StaticKind) : IsRoomId (room.name owner) := by
  rcases isWalletAddress_iff.1 owner.wellFormed with ⟨digits, hstr, hlength, hdigits⟩
  have hhex : ∀ c ∈ digits, allowed c = true := by
    intro c hc
    have hname := isNameChar_of_hex (isAsciiHexDigit_iff.2 (Or.inl (hdigits c hc)))
    rw [isNameChar, Bool.or_eq_true] at hname
    rw [allowed, Bool.or_eq_true, Bool.or_eq_true, Bool.or_eq_true]
    exact hname.imp (fun h => Or.inl (Or.inl h)) id
  have hallowed : owner.str.toList.all allowed = true := by
    rw [hstr, List.all_cons, List.all_cons, List.all_eq_true.2 hhex]
    rfl
  have hsize : owner.str.toList.length = 42 := by
    rw [hstr, List.length_cons, List.length_cons, hlength]
  cases room with
  | note =>
      rw [name_note, IsRoomId, List.length_append, List.all_append, hallowed, hsize]
      decide
  | jarvis =>
      rw [name_jarvis, IsRoomId, List.length_append, List.all_append, hallowed, hsize]
      decide

theorem name_inj {room other : StaticKind} (h : room.name owner = other.name owner) :
    room = other := by
  have hne : StaticKind.note.name owner ≠ StaticKind.jarvis.name owner := by
    intro heq
    rw [name_note, name_jarvis] at heq
    have hsixth : some 'n' = some 'j' := congrArg (fun cs : List Char => cs[5]?) heq
    exact absurd hsixth (by decide)
  cases room with
  | note =>
      cases other with
      | note => rfl
      | jarvis => exact absurd h hne
  | jarvis =>
      cases other with
      | note => exact absurd h.symm hne
      | jarvis => rfl

/-- The serials that stored rows may have. -/
def Key.Stored (key : Key) : Prop := 1 ≤ key.serial ∧ key.serial ≤ serialLimit

theorem Key.Stored.isSerial {key : Key} (h : key.Stored) : IsSerial (key.serial : ℤ) := by
  have hlow := h.1
  have hhigh : key.serial ≤ 999999999999 := h.2
  exact ⟨by omega, by omega⟩

theorem inRange_iff_inRange {range : List Char × List Char} {e : Key × Message} :
    Store.inRange owner range e = true ↔ InRange range (e.1.text owner) := by
  rw [Store.inRange, Bool.and_eq_true, decide_eq_true_eq, decide_eq_true_eq]
  exact Iff.rfl

/-- Behind a serial there are the rows of the room with greater serials. -/
theorem inRange_after_iff {room : StaticKind} {since : ℕ} {e : Key × Message}
    (hsince : since < serialLimit) (he : e.1.Stored) :
    Store.inRange owner (roomRangeAfter (room.name owner) since) e = true ↔
      e.1.room = room ∧ since < e.1.serial := by
  have hlimit : (since : ℤ) < 999999999999 := by
    have hlow : since < 999999999999 := hsince
    omega
  rw [inRange_iff_inRange, Key.text, mem_roomRangeAfter_iff (isRoomId_name room)
    (isRoomId_name e.1.room) hlimit he.isSerial]
  exact and_congr ⟨name_inj, fun h => by rw [h]⟩ Int.ofNat_lt

theorem inRange_room_iff {room : StaticKind} {e : Key × Message} (he : e.1.Stored) :
    Store.inRange owner (roomRange (room.name owner)) e = true ↔ e.1.room = room := by
  rw [inRange_iff_inRange, Key.text, mem_roomRange_iff (isRoomId_name room)
    (isRoomId_name e.1.room) he.isSerial]
  exact ⟨name_inj, fun h => by rw [h]⟩

/-- The keys of a room are ordered as their serials. -/
theorem text_le_iff {a b : Key} (hroom : a.room = b.room) (ha : a.Stored) (hb : b.Stored) :
    a.text owner ≤ b.text owner ↔ a.serial ≤ b.serial := by
  have hlimit : (b.serial : ℤ) ≤ 999999999999 := hb.isSerial.2
  rw [← not_lt, Key.text, Key.text, hroom, messageKey_lt_iff _ hlimit ha.isSerial]
  omega

/-! ### Pages -/

theorem mem_entries {s : Store} {range : List Char × List Char} {e : Key × Message} :
    e ∈ s.entries owner range ↔ e ∈ s.messages ∧ Store.inRange owner range e = true := by
  rw [Store.entries, List.mem_insertionSort, List.mem_filter]

theorem pairwise_entries (s : Store) (range : List Char × List Char) :
    (s.entries owner range).Pairwise fun a b => a.1.text owner ≤ b.1.text owner :=
  List.pairwise_insertionSort _ _

/-- A page of what is new behind a serial has every row up to the last one in it, or up to
    the end. -/
theorem mem_syncPage {s : Store} {room : StaticKind} {since : ℕ} {e : Key × Message}
    (hstored : ∀ e ∈ s.messages, e.1.Stored ∧ e.2.msgSerial = e.1.serial)
    (hdistinct : ∀ a ∈ s.messages, ∀ b ∈ s.messages, a.1.serial = b.1.serial → a = b)
    (he : e ∈ s.messages) (hroom : e.1.room = room) (hsince : since < e.1.serial) :
    e.2 ∈ (syncPage (s.getRange owner (roomRangeAfter (room.name owner) since))).1 ∨
      (syncPage (s.getRange owner (roomRangeAfter (room.name owner) since))).2 = true ∧
        highestSerial (syncPage (s.getRange owner (roomRangeAfter (room.name owner) since))).1 <
          e.1.serial := by
  have hlimit : since < serialLimit := lt_of_lt_of_le hsince (hstored e he).1.2
  have hrange : ∀ a ∈ s.messages,
      Store.inRange owner (roomRangeAfter (room.name owner) since) a = true → a.1.room = room :=
    fun a ha hin => ((inRange_after_iff hlimit (hstored a ha).1).1 hin).1
  have hmem : e ∈ s.entries owner (roomRangeAfter (room.name owner) since) :=
    mem_entries.2 ⟨he, (inRange_after_iff hlimit (hstored e he).1).2 ⟨hroom, hsince⟩⟩
  have hpairwise := @pairwise_entries owner s (roomRangeAfter (room.name owner) since)
  have hentries := @mem_entries owner s (roomRangeAfter (room.name owner) since)
  rw [syncPage, Store.getRange, ← List.map_take]
  generalize s.entries owner (roomRangeAfter (room.name owner) since) = l at *
  by_cases hpage : e ∈ l.take syncPageLimit
  · exact Or.inl (List.mem_map_of_mem hpage)
  -- The row comes behind the page, so the page is full.
  rw [← List.take_append_drop syncPageLimit l] at hmem hpairwise
  have hdrop := (List.mem_append.1 hmem).resolve_left hpage
  have hlength := List.length_pos_of_mem hdrop
  rw [List.length_drop] at hlength
  have hmore : syncPageLimit < l.length := by omega
  refine Or.inr ⟨by rw [List.length_map]; exact decide_eq_true hmore, ?_⟩
  have hne : (l.take syncPageLimit).map Prod.snd ≠ [] := by
    have htaken : (l.take syncPageLimit).length = syncPageLimit := by
      rw [List.length_take]
      omega
    intro hnil
    rw [List.map_eq_nil_iff.1 hnil] at htaken
    exact absurd htaken (by decide)
  rcases highestSerial_mem hne with ⟨m, hm, hhighest⟩
  rcases List.mem_map.1 hm with ⟨a, ha, rfl⟩
  have hain := hentries.1 (List.mem_of_mem_take ha)
  have hle := (List.pairwise_append.1 hpairwise).2.2 a ha e hdrop
  rw [text_le_iff ((hrange a hain.1 hain.2).trans hroom.symm) (hstored a hain.1).1
    (hstored e he).1] at hle
  rw [← hhighest, (hstored a hain.1).2]
  refine lt_of_le_of_ne hle fun heq => hpage ?_
  rw [← hdistinct a hain.1 e he heq]
  exact ha

end Local

end PocketSkynet
