import PocketSkynet.Lib.Paths
import PocketSkynet.Server.MediaNames

/-!
# Destroying a Room

Most rows of a room go with its row in `rooms`. The sessions of its uploads are deleted one by
one, and the search index forgets its messages. Then the files go that nothing names any more:
attachments that have no other row, pictures and videos that nothing else mentions, each with its
thumbnail, and what had arrived of the uploads.

What the room names is read before it is deleted, and what is still named after that. The names
of pictures come from the rows that messages have for them, and from the links in plaintext. To
edit, delete or purge messages replaces or drops their rows and their text, and leaves the files
where they are.

## Main definitions

* `Purge.Db`, `Purge.Disk`, `Purge.Store`: The database, the files, and what messages have named.
* `Purge.namesForRoom`, `Purge.isReferenced`: What a room shows, and what is shown at all.
* `Purge.destroyRoom`: Gather, delete, unlink.
* `Purge.step`: What becomes of messages before that.

## Theorems

* `Purge.mem_unlink`: What is not a name of something in a directory is never unlinked.
* `Purge.mem_purgeFiles`: The files that a list of names takes.
-/

namespace PocketSkynet

namespace Purge

open Paths

/-! ### The database -/

/-- The tables with rows of rooms that name no file. -/
inductive RoomTable where
  | serials
  | admins
  | members
  | invitations
  | invites
  | keys
  | hidden
  | mentions
  | reads
  | webhooks
deriving DecidableEq, Repr

/-- A message, with the rows of `message_media` that it has. -/
structure Message where
  id : String
  room : RoomId
  content : String
  isEncrypted : Bool
  isDeleted : Bool
  media : List String
deriving DecidableEq, Repr

/-- A row of `files`. -/
structure FileRow where
  id : String
  room : RoomId
  storedName : String
deriving DecidableEq, Repr

/-- A row of `upload_sessions`. -/
structure Session where
  id : String
  room : Option RoomId
deriving DecidableEq, Repr

/-- The file in which the bytes of an upload arrive. -/
def Session.tempName (s : Session) : String := s.id ++ ".part"

inductive DocKind where
  | message
  | knowledge
  | file
  | site
deriving DecidableEq, Repr

/-- A row of `search_docs`. -/
structure SearchDoc where
  kind : DocKind
  refId : String
  room : Option RoomId
deriving DecidableEq, Repr

structure Db where
  rooms : List RoomId
  messages : List Message
  files : List FileRow
  sessions : List Session
  docs : List SearchDoc
  others : List (RoomTable × RoomId)
  avatars : List String
  notes : List String
  keyed : (sessions.map Session.id).Nodup
deriving DecidableEq

def lower (s : String) : List Char := s.toList.map Char.toLower

/-- The text holds the name, in whatever case its letters are. A name of a file has no character
    that stands for others. -/
def like (text name : String) : Bool := decide (lower name <:+: lower text)

/-- The names that some lists have, each once. -/
def once (names : List String) : List String := keepUnseen id [] names

namespace Db

def storedNamesForRoom (db : Db) (room : RoomId) : List String :=
  once ((db.files.filter fun f => f.room = room).map FileRow.storedName)

def orphanCandidates (db : Db) (names : List String) : List String :=
  names.filter fun name => !db.files.any fun f => f.storedName == name

/-- What the messages of a room show: by their rows, and by the plaintext there is. -/
def namesForRoom (db : Db) (room : RoomId) : List String :=
  let messages := db.messages.filter fun m => m.room = room
  once ((messages.flatMap Message.media).filter isMediaName ++
    (messages.filter fun m => !m.isEncrypted).flatMap fun m => extract m.content)

/-- Does anything still point at this file? -/
def isReferenced (db : Db) (name : String) : Bool :=
  db.messages.any (fun m => m.media.contains name) ||
    db.messages.any (fun m => !m.isEncrypted && like m.content name) ||
    db.avatars.any (fun image => like image name) ||
    db.notes.any (fun content => like content name)

def unreferenced (db : Db) (names : List String) : List String :=
  names.filter fun name => !db.isReferenced name

def sessionsForRoom (db : Db) (room : RoomId) : List Session :=
  db.sessions.filter fun s => s.room = some room

def deleteSession (db : Db) (id : String) : Db :=
  { db with
    sessions := db.sessions.filter fun s => s.id ≠ id
    keyed := db.keyed.sublist (List.filter_sublist.map Session.id) }

/-- The rows of a room go with it, and the index forgets its messages. -/
def deleteRoom (db : Db) (room : RoomId) : Db :=
  { db with
    rooms := db.rooms.filter fun r => r ≠ room
    messages := db.messages.filter fun m => m.room ≠ room
    files := db.files.filter fun f => f.room ≠ room
    others := db.others.filter fun row => row.2 ≠ room
    docs := db.docs.filter fun d => ¬ (d.kind = .message ∧ d.room = some room) }

/-- What is left when the sessions of a room are deleted, and then the room. -/
def without (db : Db) (room : RoomId) : Db :=
  ((db.sessionsForRoom room).foldl (fun db s => db.deleteSession s.id) db).deleteRoom room

end Db

/-! ### The disk -/

abbrev Path := List (List Char)

/-- The files that are there, and those among them that the system does not let go. -/
structure Disk where
  paths : List Path
  stuck : List Path
  named : ∀ p ∈ paths, ∀ name ∈ p, IsEntry name

namespace Disk

def without (d : Disk) (path : Path) : Disk where
  paths := d.paths.filter fun p => p ≠ path
  stuck := d.stuck
  named := fun p hp => d.named p (List.mem_of_mem_filter hp)

/-- Remove a file. One that is not there counts as removed. -/
def removeFile (d : Disk) (dir : Path) (name : List Char) : Bool × Disk :=
  if resolve dir name ∉ d.paths then (true, d)
  else if endsOpen name || d.stuck.contains (resolve dir name) then (false, d)
  else (true, d.without (resolve dir name))

/-- Remove a file by a name that has to be plain. -/
def unlink (d : Disk) (dir : Path) (name : List Char) : Bool × Disk :=
  if isPlain name then d.removeFile dir name else (false, d)

end Disk

/-- The name of the thumbnail of a stored file, by the digest in its name. -/
def sidecarName (storedName : String) : Option String :=
  (rsplitOnce '.' storedName.toList).bind fun sides =>
    if sides.1.length ≠ 64 || !sides.1.all isAsciiHexDigit then none
    else some (String.ofList (sides.1 ++ ".thumb.jpg".toList))

def unlinkSidecar (d : Disk) (dir : Path) (storedName : String) : Bool × Disk :=
  match sidecarName storedName with
  | none => (true, d)
  | some sidecar => d.removeFile dir sidecar.toList

/-! ### The purge -/

/-- What a purge destroyed. -/
structure PurgeReport where
  attachments : Nat
  media : Nat
  uploads : Nat
  failed : Nat
deriving DecidableEq, Repr

namespace PurgeReport

def none : PurgeReport := ⟨0, 0, 0, 0⟩

def attachment (r : PurgeReport) : PurgeReport := { r with attachments := r.attachments + 1 }

def picture (r : PurgeReport) : PurgeReport := { r with media := r.media + 1 }

def upload (r : PurgeReport) : PurgeReport := { r with uploads := r.uploads + 1 }

def fail (r : PurgeReport) : PurgeReport := { r with failed := r.failed + 1 }

end PurgeReport

/-- Unlink a stored file and its thumbnail. -/
def purgeFile (dir : Path) (count : PurgeReport → PurgeReport) (acc : Disk × PurgeReport)
    (name : String) : Disk × PurgeReport :=
  let original := acc.1.unlink dir name.toList
  let report := if original.1 then count acc.2 else acc.2.fail
  let sidecar := unlinkSidecar original.2 dir name
  (sidecar.2, if sidecar.1 then report else report.fail)

/-- Unlink what has arrived of an upload. -/
def purgeTemp (dir : Path) (acc : Disk × PurgeReport) (name : String) : Disk × PurgeReport :=
  let gone := acc.1.unlink dir name.toList
  (gone.2, if gone.1 then acc.2.upload else acc.2.fail)

/-- The database and the disk, and the names that messages have had and have no more. -/
structure Store where
  dataDir : Path
  db : Db
  disk : Disk
  earlier : List (RoomId × String)

namespace Store

def filesDir (st : Store) : Path := st.dataDir ++ ["files".toList]

def imagesDir (st : Store) : Path := st.dataDir ++ ["images".toList]

def uploadsDir (st : Store) : Path := st.dataDir ++ ["uploads".toList]

/-- Destroy a room and everything it was holding on disk. -/
def destroyRoom (st : Store) (room : RoomId) : Store × PurgeReport :=
  -- gather
  let storedNames := st.db.storedNamesForRoom room
  let mediaNames := st.db.namesForRoom room
  let tempNames := (st.db.sessionsForRoom room).map Session.tempName
  -- delete
  let db := st.db.without room
  -- unlink
  let files := (db.orphanCandidates storedNames).foldl
    (purgeFile st.filesDir PurgeReport.attachment) (st.disk, PurgeReport.none)
  let images := (db.unreferenced mediaNames).foldl
    (purgeFile st.imagesDir PurgeReport.picture) files
  let uploads := tempNames.foldl (purgeTemp st.uploadsDir) images
  ({ st with
      db := db
      disk := uploads.1
      earlier := st.earlier.filter fun e => e.1 ≠ room }, uploads.2)

end Store

/-! ### What is deleted -/

/-- Deleting sessions touches nothing else. -/
theorem deleteSessions_spec (db : Db) (gone : List Session) :
    let db' := gone.foldl (fun db s => db.deleteSession s.id) db
    db'.rooms = db.rooms ∧ db'.messages = db.messages ∧ db'.files = db.files ∧
      db'.docs = db.docs ∧ db'.others = db.others ∧ db'.avatars = db.avatars ∧
      db'.notes = db.notes ∧
      ∀ s, s ∈ db'.sessions ↔ s ∈ db.sessions ∧ ∀ g ∈ gone, g.id ≠ s.id := by
  induction gone generalizing db with
  | nil => simp
  | cons g gone ih =>
      have hrest := ih (db.deleteSession g.id)
      simp only [List.foldl_cons]
      rcases hrest with ⟨hrooms, hmessages, hfiles, hdocs, hothers, havatars, hnotes, hsessions⟩
      refine ⟨hrooms, hmessages, hfiles, hdocs, hothers, havatars, hnotes, fun s => ?_⟩
      rw [hsessions, Db.deleteSession, List.mem_filter, List.forall_mem_cons, and_assoc]
      refine and_congr_right fun _ => and_congr ?_ Iff.rfl
      rw [decide_eq_true_eq]
      exact ne_comm

/-- What is left of a database without a room. -/
theorem without_spec (db : Db) (room : RoomId) :
    (∀ r, r ∈ (db.without room).rooms ↔ r ∈ db.rooms ∧ r ≠ room) ∧
    (∀ m, m ∈ (db.without room).messages ↔ m ∈ db.messages ∧ m.room ≠ room) ∧
    (∀ f, f ∈ (db.without room).files ↔ f ∈ db.files ∧ f.room ≠ room) ∧
    (∀ s, s ∈ (db.without room).sessions ↔ s ∈ db.sessions ∧ s.room ≠ some room) ∧
    (∀ d, d ∈ (db.without room).docs ↔
      d ∈ db.docs ∧ ¬ (d.kind = .message ∧ d.room = some room)) ∧
    ∀ row, row ∈ (db.without room).others ↔ row ∈ db.others ∧ row.2 ≠ room := by
  rcases deleteSessions_spec db (db.sessionsForRoom room) with
    ⟨hrooms, hmessages, hfiles, hdocs, hothers, -, -, hsessions⟩
  refine ⟨fun r => ?_, fun m => ?_, fun f => ?_, fun s => ?_, fun d => ?_, fun row => ?_⟩
  · simp [Db.without, Db.deleteRoom, hrooms]
  · simp [Db.without, Db.deleteRoom, hmessages]
  · simp [Db.without, Db.deleteRoom, hfiles]
  · -- A session with the id of one of the room's is that one.
    have hmem : s ∈ (db.without room).sessions ↔
        s ∈ db.sessions ∧ ∀ g ∈ db.sessionsForRoom room, g.id ≠ s.id := hsessions s
    rw [hmem]
    refine and_congr_right fun hs => ⟨fun h hroom => ?_, fun hroom g hg hid => ?_⟩
    · exact h s (List.mem_filter.2 ⟨hs, decide_eq_true hroom⟩) rfl
    · rw [Db.sessionsForRoom, List.mem_filter, decide_eq_true_eq] at hg
      rw [List.inj_on_of_nodup_map db.keyed hg.1 hs hid] at hg
      exact hroom hg.2
  · simp only [Db.without, Db.deleteRoom, List.mem_filter, hdocs, decide_eq_true_eq]
  · simp [Db.without, Db.deleteRoom, hothers]

/-! ### What is unlinked -/

section Unlink

variable {d : Disk} {dir : Path} {p : Path}

theorem stuck_removeFile (d : Disk) (dir : Path) (name : List Char) :
    (d.removeFile dir name).2.stuck = d.stuck := by
  unfold Disk.removeFile
  split
  · rfl
  · split
    · rfl
    · rfl

theorem mem_removeFile {name : List Char} : p ∈ (d.removeFile dir name).2.paths ↔
    p ∈ d.paths ∧ ¬ (p = resolve dir name ∧ endsOpen name = false ∧ p ∉ d.stuck) := by
  unfold Disk.removeFile
  by_cases hthere : resolve dir name ∉ d.paths
  · rw [if_pos hthere]
    exact ⟨fun hp => ⟨hp, fun h => hthere (h.1 ▸ hp)⟩, And.left⟩
  · rw [if_neg hthere]
    by_cases hkept : (endsOpen name || d.stuck.contains (resolve dir name)) = true
    · rw [if_pos hkept]
      rw [Bool.or_eq_true, List.contains_iff_mem] at hkept
      refine ⟨fun hp => ⟨hp, fun h => ?_⟩, And.left⟩
      rcases hkept with hopen | hstuck
      · exact Bool.false_ne_true (h.2.1.symm.trans hopen)
      · exact h.2.2 (h.1 ▸ hstuck)
    · rw [if_neg hkept]
      rw [Bool.or_eq_true, List.contains_iff_mem, not_or, Bool.not_eq_true] at hkept
      rw [Disk.without, List.mem_filter, decide_eq_true_eq]
      refine and_congr_right fun _ => ⟨fun hne h => hne h.1, fun h hp => h ⟨hp, hkept.1, ?_⟩⟩
      exact hp ▸ hkept.2

theorem stuck_unlink (d : Disk) (dir : Path) (name : List Char) :
    (d.unlink dir name).2.stuck = d.stuck := by
  unfold Disk.unlink
  split
  · exact stuck_removeFile d dir name
  · rfl

/-- What is not a name of something in a directory is never unlinked. -/
theorem mem_unlink {name : List Char} : p ∈ (d.unlink dir name).2.paths ↔
    p ∈ d.paths ∧ ¬ (IsEntry name ∧ p = dir ++ [name] ∧ p ∉ d.stuck) := by
  unfold Disk.unlink
  by_cases hplain : isPlain name = true
  · rw [if_pos hplain, mem_removeFile]
    refine and_congr_right fun _ => not_congr ⟨fun h => ?_, fun h => ?_⟩
    · have hentry := entry_of_plain hplain h.2.1
      exact ⟨hentry, h.1.trans (resolve_of_entry hentry dir), h.2.2⟩
    · exact ⟨h.2.1.trans (resolve_of_entry h.1 dir).symm, (components_of_entry h.1).2, h.2.2⟩
  · rw [if_neg hplain]
    exact ⟨fun hp => ⟨hp, fun h => hplain (isPlain_of_entry h.1)⟩, And.left⟩

-- A thumbnail has a name of letters, digits and full stops.
theorem isEntry_sidecarName {storedName sidecar : String}
    (h : sidecarName storedName = some sidecar) : IsEntry sidecar.toList := by
  rw [sidecarName, Option.bind_eq_some_iff] at h
  rcases h with ⟨⟨stem, ext⟩, -, h⟩
  split at h
  · cases h
  · next hhex =>
      rw [Option.some.injEq] at h
      rw [← h, String.toList_ofList]
      rw [Bool.or_eq_true, not_or, decide_eq_true_eq, not_not, Bool.not_eq_true,
        Bool.not_eq_false', List.all_eq_true] at hhex
      have hlength : (stem ++ ".thumb.jpg".toList).length = 74 := by
        rw [List.length_append, hhex.1]
        rfl
      have hne : ∀ short : List Char, short.length < 74 → stem ++ ".thumb.jpg".toList ≠ short := by
        intro short hshort heq
        rw [heq] at hlength
        omega
      refine ⟨hne [] (by decide), fun hslash => ?_, hne _ (by decide), hne _ (by decide)⟩
      rcases List.mem_append.1 hslash with hslash | hslash
      · exact absurd (hhex.2 '/' hslash) (by decide)
      · exact absurd hslash (by decide)

theorem stuck_unlinkSidecar (d : Disk) (dir : Path) (name : String) :
    (unlinkSidecar d dir name).2.stuck = d.stuck := by
  unfold unlinkSidecar
  split
  · rfl
  · exact stuck_removeFile d dir _

theorem mem_unlinkSidecar {name : String} : p ∈ (unlinkSidecar d dir name).2.paths ↔
    p ∈ d.paths ∧
      ¬ (∃ sidecar, sidecarName name = some sidecar ∧ p = dir ++ [sidecar.toList] ∧
        p ∉ d.stuck) := by
  unfold unlinkSidecar
  cases hname : sidecarName name with
  | none => simp
  | some sidecar =>
      have hentry := isEntry_sidecarName hname
      rw [mem_removeFile, resolve_of_entry hentry, (components_of_entry hentry).2]
      simp

/-- A name leads to a file, or to its thumbnail. -/
def Touches (name : String) (file : List Char) : Prop :=
  (IsEntry file ∧ name.toList = file) ∨
    ∃ sidecar, sidecarName name = some sidecar ∧ sidecar.toList = file

-- What each name of a list takes, the list takes.
theorem mem_foldl_takes {f : Disk × PurgeReport → String → Disk × PurgeReport}
    {takes : String → Path → Prop}
    (hone : ∀ acc name, (f acc name).1.stuck = acc.1.stuck ∧ ∀ p,
      p ∈ (f acc name).1.paths ↔ p ∈ acc.1.paths ∧ ¬ (p ∉ acc.1.stuck ∧ takes name p))
    (names : List String) (acc : Disk × PurgeReport) :
    (names.foldl f acc).1.stuck = acc.1.stuck ∧ ∀ p, p ∈ (names.foldl f acc).1.paths ↔
      p ∈ acc.1.paths ∧ ¬ (p ∉ acc.1.stuck ∧ ∃ name ∈ names, takes name p) := by
  induction names generalizing acc with
  | nil => simp
  | cons name names ih =>
      rcases ih (f acc name) with ⟨hstuck, hpaths⟩
      rw [List.foldl_cons, hstuck, (hone acc name).1]
      refine ⟨rfl, fun p => ?_⟩
      have hcons : (∃ other ∈ name :: names, takes other p) ↔
          takes name p ∨ ∃ other ∈ names, takes other p := by
        simp only [List.mem_cons, exists_eq_or_imp]
      rw [hpaths, (hone acc name).1, (hone acc name).2, and_assoc, ← not_or, ← and_or_left, hcons]

/-- The files that a list of names takes. -/
theorem mem_purgeFiles (dir : Path) (count : PurgeReport → PurgeReport) (names : List String)
    (acc : Disk × PurgeReport) :
    (names.foldl (purgeFile dir count) acc).1.stuck = acc.1.stuck ∧
    ∀ p, p ∈ (names.foldl (purgeFile dir count) acc).1.paths ↔ p ∈ acc.1.paths ∧
      ¬ (p ∉ acc.1.stuck ∧ ∃ name ∈ names, ∃ file, Touches name file ∧ p = dir ++ [file]) := by
  refine mem_foldl_takes (fun acc name => ?_) names acc
  refine ⟨(stuck_unlinkSidecar _ _ _).trans (stuck_unlink _ _ _), fun p => ?_⟩
  rw [purgeFile, mem_unlinkSidecar, mem_unlink, stuck_unlink, and_assoc, ← not_or]
  refine and_congr_right fun _ => not_congr ⟨?_, ?_⟩
  · rintro (⟨hentry, hp, hfree⟩ | ⟨sidecar, hsidecar, hp, hfree⟩)
    · exact ⟨hfree, _, .inl ⟨hentry, rfl⟩, hp⟩
    · exact ⟨hfree, _, .inr ⟨sidecar, hsidecar, rfl⟩, hp⟩
  · rintro ⟨hfree, file, ⟨hentry, rfl⟩ | ⟨sidecar, hsidecar, rfl⟩, hp⟩
    · exact .inl ⟨hentry, hp, hfree⟩
    · exact .inr ⟨sidecar, hsidecar, hp, hfree⟩

theorem mem_purgeTemps (dir : Path) (names : List String) (acc : Disk × PurgeReport) :
    (names.foldl (purgeTemp dir) acc).1.stuck = acc.1.stuck ∧
    ∀ p, p ∈ (names.foldl (purgeTemp dir) acc).1.paths ↔ p ∈ acc.1.paths ∧
      ¬ (p ∉ acc.1.stuck ∧ ∃ name ∈ names, IsEntry name.toList ∧ p = dir ++ [name.toList]) := by
  refine mem_foldl_takes (fun acc name => ⟨stuck_unlink _ _ _, fun p => ?_⟩) names acc
  rw [purgeTemp, mem_unlink]
  refine and_congr_right fun _ => not_congr ⟨?_, ?_⟩
  · rintro ⟨hentry, hp, hfree⟩
    exact ⟨hfree, hentry, hp⟩
  · rintro ⟨hfree, hentry, hp⟩
    exact ⟨hentry, hp, hfree⟩

end Unlink

/-! ### What becomes of messages -/

/-- The names that a message has rows for, and those that its plaintext links to. -/
def Message.names (m : Message) : List String :=
  m.media ++ if m.isEncrypted then [] else linkedNames m.content

/-- A message of the room shows the file. -/
def Shows (st : Store) (room : RoomId) (name : String) : Prop :=
  ∃ m ∈ st.db.messages, m.room = room ∧ name ∈ m.names

/-- A message of the room shows the file, or one has shown it. -/
def HasShown (st : Store) (room : RoomId) (name : String) : Prop :=
  Shows st room name ∨ (room, name) ∈ st.earlier

/-- What a client declares, and what the plaintext shows. -/
def resolveMedia (content : String) (isEncrypted : Bool) (declared : List String) : List String :=
  if isEncrypted then declared
  else (extract content).foldl
    (fun names name => if names.contains name then names else names ++ [name]) declared

/-- The rows that are written for some names. -/
def recorded (names : List String) : List String := once (names.take maxMedia)

def docKey (d : SearchDoc) : DocKind × String := (d.kind, d.refId)

/-- The index holds a message that can be read, and no other. -/
def indexed (id : String) (room : RoomId) (content : String) (isEncrypted : Bool)
    (docs : List SearchDoc) : List SearchDoc :=
  if isEncrypted || isBlank content then Table.erase docKey (.message, id) docs
  else Table.upsert docKey ⟨.message, id, some room⟩ docs

namespace Store

/-- Some messages become others or go, and others are added. What the former ones have named is
    remembered, to say what has become of it; nothing below reads it. -/
def rewrite (st : Store) (changed : Message → Bool) (becomes : Message → Option Message)
    (added : List Message) (docs : List SearchDoc) : Store :=
  { st with
    db := { st.db with
      messages := (st.db.messages.filterMap fun m => if changed m then becomes m else some m) ++
        added
      docs := docs }
    earlier := st.earlier ++
      (st.db.messages.filter changed).flatMap fun m => m.names.map fun name => (m.room, name) }

def createMessage (st : Store) (id : String) (room : RoomId) (content : String)
    (isEncrypted : Bool) (declared : List String) : Store :=
  if st.db.messages.any fun m => m.id == id then st
  else st.rewrite (fun _ => false) some
    [⟨id, room, content, isEncrypted, false,
      recorded (resolveMedia content isEncrypted declared)⟩]
    (if isEncrypted || isBlank content then st.db.docs
      else Table.upsert docKey ⟨.message, id, some room⟩ st.db.docs)

def editMessage (st : Store) (id : String) (room : RoomId) (content : String)
    (isEncrypted : Bool) (declared : List String) : Store :=
  let changed := fun m : Message => m.id == id && !m.isDeleted
  if !st.db.messages.any changed then st
  else st.rewrite changed
    (fun m => some { m with
      content := content
      isEncrypted := isEncrypted
      media := recorded (resolveMedia content isEncrypted declared) })
    [] (indexed id room content isEncrypted st.db.docs)

/-- The row survives as a tombstone that shows nothing. -/
def softDeleteMessage (st : Store) (id : String) (room : RoomId) : Store :=
  let changed := fun m : Message => m.id == id && decide (m.room = room) && !m.isDeleted
  if !st.db.messages.any changed then st
  else st.rewrite changed
    (fun m => some { m with
      content := ""
      isDeleted := true
      media := [] })
    [] (Table.erase docKey (.message, id) st.db.docs)

/-- The history of a room is replaced by a marker. -/
def deleteAllMessages (st : Store) (room : RoomId) (marker : String) : Store :=
  st.rewrite (fun m => decide (m.room = room)) (fun _ => Option.none)
    [⟨marker, room, "", false, false, []⟩]
    (st.db.docs.filter fun d => ¬ (d.kind = .message ∧ d.room = some room))

end Store

/-- A request about the messages of a room, or about the room. -/
inductive Call where
  | send (id : String) (room : RoomId) (content : String) (isEncrypted : Bool)
      (declared : List String)
  | edit (id : String) (room : RoomId) (content : String) (isEncrypted : Bool)
      (declared : List String)
  | delete (id : String) (room : RoomId)
  | purge (room : RoomId) (marker : String)
  | destroy (room : RoomId)
deriving DecidableEq, Repr

def step (st : Store) : Call → Store
  | .send id room content isEncrypted declared =>
      st.createMessage id room content isEncrypted declared
  | .edit id room content isEncrypted declared =>
      st.editMessage id room content isEncrypted declared
  | .delete id room => st.softDeleteMessage id room
  | .purge room marker => st.deleteAllMessages room marker
  | .destroy room => (st.destroyRoom room).1

/-- A rewriting that leaves messages in their rooms forgets nothing that was shown. -/
theorem hasShown_rewrite {st : Store} {changed : Message → Bool}
    {becomes : Message → Option Message} {added : List Message} {docs : List SearchDoc}
    {room : RoomId} {name : String} :
    HasShown (st.rewrite changed becomes added docs) room name ↔
      HasShown st room name ∨ Shows (st.rewrite changed becomes added docs) room name := by
  have hearlier : (room, name) ∈ (st.rewrite changed becomes added docs).earlier ↔
      (room, name) ∈ st.earlier ∨
        ∃ m ∈ st.db.messages, changed m = true ∧ m.room = room ∧ name ∈ m.names := by
    simp only [Store.rewrite, List.mem_append, List.mem_flatMap, List.mem_filter, List.mem_map,
      Prod.mk.injEq, and_assoc]
    refine or_congr Iff.rfl (exists_congr fun m => and_congr Iff.rfl (and_congr Iff.rfl ?_))
    exact ⟨fun ⟨n, hn, hroom, hname⟩ => ⟨hroom, hname ▸ hn⟩,
      fun ⟨hroom, hn⟩ => ⟨name, hn, hroom, rfl⟩⟩
  constructor
  · rintro (hnow | hold)
    · exact .inr hnow
    · rcases hearlier.1 hold with hold | ⟨m, hm, -, hroom, hname⟩
      · exact .inl (.inr hold)
      · exact .inl (.inl ⟨m, hm, hroom, hname⟩)
  · rintro ((⟨m, hm, hroom, hname⟩ | hold) | hnow)
    · -- A message that is changed leaves its names, and another one stays.
      by_cases hchanged : changed m = true
      · exact .inr (hearlier.2 (.inr ⟨m, hm, hchanged, hroom, hname⟩))
      · refine .inl ⟨m, ?_, hroom, hname⟩
        refine List.mem_append_left _ (List.mem_filterMap.2 ⟨m, hm, ?_⟩)
        rw [if_neg hchanged]
    · exact .inr (hearlier.2 (.inl hold))
    · exact .inl hnow

/-- After a step a room has shown what it had shown before, and what it shows now. -/
theorem hasShown_step {st : Store} {c : Call} {room : RoomId} {name : String}
    (hkeep : c ≠ .destroy room) : HasShown (step st c) room name ↔
      HasShown st room name ∨ Shows (step st c) room name := by
  have hidle : HasShown st room name ↔ HasShown st room name ∨ Shows st room name :=
    ⟨.inl, fun h => h.elim id .inl⟩
  cases c with
  | send id r content isEncrypted declared =>
      rw [step, Store.createMessage]
      split
      · exact hidle
      · exact hasShown_rewrite
  | edit id r content isEncrypted declared =>
      simp only [step, Store.editMessage]
      split
      · exact hidle
      · exact hasShown_rewrite
  | delete id r =>
      simp only [step, Store.softDeleteMessage]
      split
      · exact hidle
      · exact hasShown_rewrite
  | purge r marker => exact hasShown_rewrite
  | destroy r =>
      have hne : room ≠ r := fun h => hkeep (congrArg Call.destroy h.symm)
      have hmessages := (without_spec st.db r).2.1
      have hshows : Shows (st.destroyRoom r).1 room name ↔ Shows st room name := by
        refine exists_congr fun m => ?_
        rw [show (st.destroyRoom r).1.db = st.db.without r from rfl, hmessages, and_assoc]
        refine and_congr_right fun _ => ⟨And.right, fun h => ⟨fun hroom => ?_, h⟩⟩
        exact hne (h.1.symm.trans hroom)
      have hearlier : (room, name) ∈ (st.destroyRoom r).1.earlier ↔ (room, name) ∈ st.earlier := by
        simp [Store.destroyRoom, hne]
      rw [step, HasShown, HasShown, hshows, hearlier, or_right_comm, or_self_iff]

end Purge

end PocketSkynet
