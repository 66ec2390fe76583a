import PocketSkynet.Lib.Run
import PocketSkynet.Server.RoomPurge

/-!
# What Is Left of a Room

To destroy a room takes its records, and of the files those that its records name and that
nothing else keeps. A file goes with its name, and so does a thumbnail with the name of what it
was made from. What messages have named before they were edited, deleted or purged counts as
named.

Four things come in between. The index keeps what it holds of attachments. A name that no
message has any more leads nowhere, and neither does one that the scan has missed. And two names
with the same digest share a thumbnail, so one of them takes it from the other.

Nothing outside of the three directories is ever removed, whatever the names are.

## Main definitions

* `Purge.Record`, `Purge.Db.Holds`: The records, and the room of each.
* `Purge.Unlinks`: Those files go that are named and not kept.
* `Purge.Exact`: What should become of a store when a room is destroyed.
* `Purge.Purgeable`: The stores and rooms of which that becomes.

## Theorems

* `Purge.hasShown_run`: What a run of requests has shown.
* `Purge.mem_destroyed`: What is removed from the disk.
* `Purge.destroy_exact_iff`: These rooms are destroyed exactly, and no others.
-/

namespace PocketSkynet

namespace Purge

open Paths

/-! ### Records -/

/-- A row of some table. -/
inductive Record where
  | room (id : RoomId)
  | message (m : Message)
  | file (f : FileRow)
  | session (s : Session)
  | doc (d : SearchDoc)
  | other (row : RoomTable × RoomId)
deriving DecidableEq, Repr

/-- The room to which a record belongs. -/
def Record.ofRoom : Record → Option RoomId
  | .room id => some id
  | .message m => some m.room
  | .file f => some f.room
  | .session s => s.room
  | .doc d => d.room
  | .other row => some row.2

def Db.Holds (db : Db) : Record → Prop
  | .room id => id ∈ db.rooms
  | .message m => m ∈ db.messages
  | .file f => f ∈ db.files
  | .session s => s ∈ db.sessions
  | .doc d => d ∈ db.docs
  | .other row => row ∈ db.others

/-- An attachment has this name on the disk. -/
def Db.Attaches (db : Db) (name : String) : Prop := ∃ f ∈ db.files, f.storedName = name

/-- An upload arrives in a file with this name. -/
def Db.Receives (db : Db) (name : String) : Prop := ∃ s ∈ db.sessions, s.tempName = name

/-- A message, an avatar or a note refers to the picture. -/
def Db.Refers (db : Db) (name : String) : Prop :=
  isMediaName name = true ∧
    ((∃ m ∈ db.messages, name ∈ m.media) ∨
      (∃ m ∈ db.messages, m.isEncrypted = false ∧ like m.content name = true) ∨
      (∃ image ∈ db.avatars, like image name = true) ∨
      ∃ content ∈ db.notes, like content name = true)

/-! ### What should become of a room -/

/-- A name leads to a file, and to nothing else. -/
def Reaches (name : String) (file : List Char) : Prop := IsEntry file ∧ name.toList = file

/-- The file is in the directory, and can be removed. -/
def Removable (d : Disk) (dir : Path) (file : List Char) : Prop :=
  dir ++ [file] ∈ d.paths ∧ dir ++ [file] ∉ d.stuck

/-- Those files go that are named and not kept. -/
def Unlinks (before after : Disk) (dir : Path) (leads : String → List Char → Prop)
    (named kept : String → Prop) : Prop :=
  ∀ file, Removable before dir file →
    (dir ++ [file] ∉ after.paths ↔
      (∃ name, named name ∧ leads name file) ∧ ¬ ∃ name, kept name ∧ leads name file)

/-- To destroy a room takes all of it, and nothing else. -/
structure Exact (st : Store) (room : RoomId) : Prop where
  forgets : ∀ r : Record, r.ofRoom = some room → ¬ (st.destroyRoom room).1.db.Holds r
  spares : ∀ r : Record, r.ofRoom ≠ some room →
    ((st.destroyRoom room).1.db.Holds r ↔ st.db.Holds r)
  inside : ∀ p ∈ st.disk.paths, p ∉ (st.destroyRoom room).1.disk.paths →
    ∃ dir ∈ [st.filesDir, st.imagesDir, st.uploadsDir], ∃ file, IsEntry file ∧ p = dir ++ [file]
  attachments : Unlinks st.disk (st.destroyRoom room).1.disk st.filesDir Touches
    (fun name => ∃ f ∈ st.db.files, f.room = room ∧ f.storedName = name)
    (st.destroyRoom room).1.db.Attaches
  media : Unlinks st.disk (st.destroyRoom room).1.disk st.imagesDir Touches
    (HasShown st room) (st.destroyRoom room).1.db.Refers
  uploads : Unlinks st.disk (st.destroyRoom room).1.disk st.uploadsDir Reaches
    (fun name => ∃ s ∈ st.db.sessions, s.room = some room ∧ s.tempName = name)
    (st.destroyRoom room).1.db.Receives

/-- No file that goes with a name also goes with one that is kept. -/
def Apart (d : Disk) (dir : Path) (names : List String) (kept : String → Prop) : Prop :=
  ∀ name ∈ names, ¬ kept name → ∀ other, kept other → ∀ file, Removable d dir file →
    Touches name file → ¬ Touches other file

/-- The index holds no attachment of the room, no thumbnail is shared with what stays, and every
    file that messages have shown is kept, or is found by what they show now. -/
structure Purgeable (st : Store) (room : RoomId) : Prop where
  indexed : ∀ d ∈ st.db.docs, d.room = some room → d.kind = .message
  attachments : Apart st.disk st.filesDir (st.db.storedNamesForRoom room)
    (st.db.without room).Attaches
  media : Apart st.disk st.imagesDir (st.db.namesForRoom room) (st.db.without room).Refers
  found : ∀ name, HasShown st room name → ∀ file, Removable st.disk st.imagesDir file →
    Touches name file → (∃ other, (st.db.without room).Refers other ∧ Touches other file) ∨
      ∃ other ∈ st.db.namesForRoom room, Touches other file

/-! ### What a run has shown -/

/-- A run of requests has shown what was shown before it, and what it shows at some point. -/
theorem hasShown_run {st : Store} {calls : List Call} {room : RoomId} {name : String}
    (hkeep : .destroy room ∉ calls) : HasShown (Run.run step st calls) room name ↔
      HasShown st room name ∨
        ∃ front, front <+: calls ∧ Shows (Run.run step st front) room name := by
  induction calls generalizing st with
  | nil =>
      simp only [List.prefix_nil, exists_eq_left, Run.run_nil]
      exact ⟨.inl, fun h => h.elim id .inl⟩
  | cons c calls ih =>
      rw [List.mem_cons, not_or] at hkeep
      have hfronts : (∃ front, front <+: c :: calls ∧ Shows (Run.run step st front) room name) ↔
          Shows st room name ∨
            ∃ front, front <+: calls ∧ Shows (Run.run step (step st c) front) room name := by
        constructor
        · rintro ⟨front, hfront, hshows⟩
          rcases List.prefix_cons_iff.1 hfront with rfl | ⟨rest, rfl, hrest⟩
          · exact .inl hshows
          · exact .inr ⟨rest, hrest, hshows⟩
        · rintro (hshows | ⟨front, hfront, hshows⟩)
          · exact ⟨[], List.nil_prefix, hshows⟩
          · exact ⟨c :: front, (List.prefix_cons_inj c).2 hfront, hshows⟩
      rw [Run.run_cons, ih hkeep.2, hasShown_step (Ne.symm hkeep.1), hfronts]
      constructor
      · rintro ((hold | hnow) | hlater)
        · exact .inl hold
        · exact .inr (.inr ⟨[], List.nil_prefix, hnow⟩)
        · exact .inr (.inr hlater)
      · rintro (hold | hnow | hlater)
        · exact .inl (.inl hold)
        · exact .inl (.inl (.inl hnow))
        · exact .inr hlater

/-! ### What is removed -/

/-- What is found of the names and is not kept goes. That is exact if it takes nothing that is
    kept, and if what is named is kept or found. -/
theorem unlinks_iff {before after : Disk} {dir : Path} {leads : String → List Char → Prop}
    {found named kept : String → Prop} (hfound : ∀ name, found name → named name)
    (hgone : ∀ file, Removable before dir file → (dir ++ [file] ∉ after.paths ↔
      ∃ name, (found name ∧ ¬ kept name) ∧ leads name file)) :
    Unlinks before after dir leads named kept ↔
      (∀ name, found name → ¬ kept name → ∀ other, kept other → ∀ file,
        Removable before dir file → leads name file → ¬ leads other file) ∧
      ∀ name, named name → ∀ file, Removable before dir file → leads name file →
        (∃ other, kept other ∧ leads other file) ∨ ∃ other, found other ∧ leads other file := by
  constructor
  · intro h
    refine ⟨fun name hname hfree other hother file hfile hleads hshared => ?_,
      fun name hname file hfile hleads => ?_⟩
    · have hgoes := (hgone file hfile).2 ⟨name, ⟨hname, hfree⟩, hleads⟩
      exact ((h file hfile).1 hgoes).2 ⟨other, hother, hshared⟩
    · by_cases hkept : ∃ other, kept other ∧ leads other file
      · exact .inl hkept
      · have hgoes := (h file hfile).2 ⟨⟨name, hname, hleads⟩, hkept⟩
        rcases (hgone file hfile).1 hgoes with ⟨other, hother, hleads⟩
        exact .inr ⟨other, hother.1, hleads⟩
  · rintro ⟨hapart, hcovered⟩ file hfile
    rw [hgone file hfile]
    constructor
    · rintro ⟨name, ⟨hname, hfree⟩, hleads⟩
      refine ⟨⟨name, hfound name hname, hleads⟩, ?_⟩
      rintro ⟨other, hother, hshared⟩
      exact hapart name hname hfree other hother file hfile hleads hshared
    · rintro ⟨⟨name, hname, hleads⟩, hfree⟩
      have hfound := (hcovered name hname file hfile hleads).resolve_left hfree
      rcases hfound with ⟨other, hother, hleads⟩
      exact ⟨other, ⟨hother, fun hkept => hfree ⟨other, hkept, hleads⟩⟩, hleads⟩

/-- A path in the directory to which one of the names leads. -/
def Goes (dir : Path) (leads : String → List Char → Prop) (names : List String) (p : Path) : Prop :=
  ∃ name ∈ names, ∃ file, leads name file ∧ p = dir ++ [file]

theorem goes_append {dir dir' : Path} {leads : String → List Char → Prop} {names : List String}
    {file : List Char} : Goes dir leads names (dir' ++ [file]) ↔
      dir' = dir ∧ ∃ name ∈ names, leads name file := by
  constructor
  · rintro ⟨name, hname, other, hleads, hp⟩
    rcases List.append_inj' hp rfl with ⟨rfl, hfile⟩
    rw [List.singleton_inj] at hfile
    exact ⟨rfl, name, hname, hfile ▸ hleads⟩
  · rintro ⟨rfl, name, hname, hleads⟩
    exact ⟨name, hname, file, hleads, rfl⟩

/-- What is removed from the disk. -/
theorem mem_destroyed (st : Store) (room : RoomId) (p : Path) :
    p ∈ (st.destroyRoom room).1.disk.paths ↔ p ∈ st.disk.paths ∧ ¬ (p ∉ st.disk.stuck ∧
      (Goes st.filesDir Touches
          ((st.db.without room).orphanCandidates (st.db.storedNamesForRoom room)) p ∨
        Goes st.imagesDir Touches
          ((st.db.without room).unreferenced (st.db.namesForRoom room)) p ∨
        Goes st.uploadsDir Reaches ((st.db.sessionsForRoom room).map Session.tempName) p)) := by
  have hfiles := mem_purgeFiles st.filesDir PurgeReport.attachment
    ((st.db.without room).orphanCandidates (st.db.storedNamesForRoom room))
    (st.disk, PurgeReport.none)
  have himages := mem_purgeFiles st.imagesDir PurgeReport.picture
    ((st.db.without room).unreferenced (st.db.namesForRoom room))
    (((st.db.without room).orphanCandidates (st.db.storedNamesForRoom room)).foldl
      (purgeFile st.filesDir PurgeReport.attachment) (st.disk, PurgeReport.none))
  have hreaches : Goes st.uploadsDir Reaches ((st.db.sessionsForRoom room).map Session.tempName) p ↔
      ∃ name ∈ (st.db.sessionsForRoom room).map Session.tempName,
        IsEntry name.toList ∧ p = st.uploadsDir ++ [name.toList] := by
    refine exists_congr fun name => and_congr_right fun _ => ⟨?_, ?_⟩
    · rintro ⟨file, ⟨hentry, rfl⟩, hp⟩
      exact ⟨hentry, hp⟩
    · rintro ⟨hentry, hp⟩
      exact ⟨name.toList, ⟨hentry, rfl⟩, hp⟩
  rw [Store.destroyRoom, (mem_purgeTemps _ _ _).2, himages.2, himages.1, hfiles.2, hfiles.1,
    hreaches, and_assoc, and_assoc, ← not_or, ← not_or, ← and_or_left, ← and_or_left]
  rfl

section Destroy

variable {st : Store} {room : RoomId} {file : List Char}

theorem dirs_ne (st : Store) : st.filesDir ≠ st.imagesDir ∧ st.filesDir ≠ st.uploadsDir ∧
    st.imagesDir ≠ st.uploadsDir := by
  refine ⟨fun h => ?_, fun h => ?_, fun h => ?_⟩
  all_goals exact absurd (List.append_cancel_left h) (by decide)

/-- What goes from a directory goes by what was gathered for that directory. -/
theorem gone_iff {dir : Path} (hfile : Removable st.disk dir file) :
    dir ++ [file] ∉ (st.destroyRoom room).1.disk.paths ↔
      (dir = st.filesDir ∧ ∃ name ∈ (st.db.without room).orphanCandidates
        (st.db.storedNamesForRoom room), Touches name file) ∨
      (dir = st.imagesDir ∧ ∃ name ∈ (st.db.without room).unreferenced
        (st.db.namesForRoom room), Touches name file) ∨
      (dir = st.uploadsDir ∧ ∃ name ∈ (st.db.sessionsForRoom room).map Session.tempName,
        Reaches name file) := by
  rw [mem_destroyed, goes_append, goes_append, goes_append, not_and, not_not]
  exact ⟨fun h => (h hfile.1).2, fun h _ => ⟨hfile.2, h⟩⟩

theorem mem_storedNamesForRoom {name : String} : name ∈ st.db.storedNamesForRoom room ↔
    ∃ f ∈ st.db.files, f.room = room ∧ f.storedName = name := by
  rw [Db.storedNamesForRoom, once, mem_once, List.mem_map]
  simp only [List.mem_filter, decide_eq_true_eq, and_assoc]

theorem mem_orphanCandidates {db : Db} {names : List String} {name : String} :
    name ∈ db.orphanCandidates names ↔ name ∈ names ∧ ¬ db.Attaches name := by
  rw [Db.orphanCandidates, List.mem_filter, Bool.not_eq_true', ← Bool.not_eq_true, List.any_eq_true]
  simp only [beq_iff_eq]
  rfl

-- What a room shows are names of pictures, and its messages show them.
theorem of_mem_namesForRoom {name : String} (h : name ∈ st.db.namesForRoom room) :
    isMediaName name = true ∧ Shows st room name := by
  rw [Db.namesForRoom, once, mem_once, List.mem_append] at h
  rcases h with hrow | htext
  · rcases List.mem_filter.1 hrow with ⟨hrow, hname⟩
    rcases List.mem_flatMap.1 hrow with ⟨m, hm, hrow⟩
    rw [List.mem_filter, decide_eq_true_eq] at hm
    exact ⟨hname, m, hm.1, hm.2, List.mem_append_left _ hrow⟩
  · rcases List.mem_flatMap.1 htext with ⟨m, hm, htext⟩
    rw [List.mem_filter, List.mem_filter, decide_eq_true_eq, Bool.not_eq_true'] at hm
    have hname : isMediaName name = true := by
      rw [extract_eq, mem_once] at htext
      exact (List.mem_filter.1 htext).2
    refine ⟨hname, m, hm.1.1, hm.1.2, List.mem_append_right _ ?_⟩
    rw [hm.2]
    exact mem_linkedNames_of_extract htext

theorem isReferenced_iff {db : Db} {name : String} (hname : isMediaName name = true) :
    db.isReferenced name = true ↔ db.Refers name := by
  simp only [Db.isReferenced, Db.Refers, Bool.or_eq_true, List.any_eq_true, Bool.and_eq_true,
    Bool.not_eq_true', List.contains_iff_mem, hname, true_and, or_assoc]

theorem mem_unreferenced {name : String} : name ∈ (st.db.without room).unreferenced
      (st.db.namesForRoom room) ↔
    name ∈ st.db.namesForRoom room ∧ ¬ (st.db.without room).Refers name := by
  rw [Db.unreferenced, List.mem_filter, Bool.not_eq_true', ← Bool.not_eq_true]
  exact and_congr_right fun h => not_congr (isReferenced_iff (of_mem_namesForRoom h).1)

theorem mem_tempNames {name : String} : name ∈ (st.db.sessionsForRoom room).map Session.tempName ↔
    ∃ s ∈ st.db.sessions, s.room = some room ∧ s.tempName = name := by
  rw [Db.sessionsForRoom, List.mem_map]
  simp only [List.mem_filter, decide_eq_true_eq, and_assoc]

/-! ### What is exact -/

/-- The attachments that go are the right ones, unless they share thumbnails with others. -/
theorem attachments_iff : Unlinks st.disk (st.destroyRoom room).1.disk st.filesDir Touches
      (fun name => ∃ f ∈ st.db.files, f.room = room ∧ f.storedName = name)
      (st.destroyRoom room).1.db.Attaches ↔
    Apart st.disk st.filesDir (st.db.storedNamesForRoom room) (st.db.without room).Attaches := by
  have hdirs := dirs_ne st
  rw [unlinks_iff (fun name h => mem_storedNamesForRoom.1 h) fun file hfile => ?_]
  · refine and_iff_left fun name hname file hfile hleads => .inr ⟨name, ?_, hleads⟩
    exact mem_storedNamesForRoom.2 hname
  · rw [gone_iff hfile]
    simp only [true_and, hdirs.1, hdirs.2.1, false_and, or_false, mem_orphanCandidates]
    rfl

/-- The pictures that go are the right ones, unless they share thumbnails with others, or what
    has been shown is not found. -/
theorem media_iff : Unlinks st.disk (st.destroyRoom room).1.disk st.imagesDir Touches
      (HasShown st room) (st.destroyRoom room).1.db.Refers ↔
    Apart st.disk st.imagesDir (st.db.namesForRoom room) (st.db.without room).Refers ∧
      ∀ name, HasShown st room name → ∀ file, Removable st.disk st.imagesDir file →
        Touches name file → (∃ other, (st.db.without room).Refers other ∧ Touches other file) ∨
          ∃ other ∈ st.db.namesForRoom room, Touches other file := by
  have hdirs := dirs_ne st
  refine unlinks_iff (fun name h => .inl (of_mem_namesForRoom h).2) fun file hfile => ?_
  rw [gone_iff hfile]
  simp only [true_and, hdirs.1.symm, hdirs.2.2, false_and, false_or, or_false, mem_unreferenced]
  rfl

-- A session has a name of its own.
theorem tempName_inj {s s' : Session} (h : s.tempName = s'.tempName) : s.id = s'.id := by
  have hlist := congrArg String.toList h
  rw [Session.tempName, Session.tempName, String.toList_append, String.toList_append] at hlist
  exact String.toList_inj.1 (List.append_cancel_right hlist)

/-- What goes of the uploads is always right. -/
theorem uploads_exact (st : Store) (room : RoomId) :
    Unlinks st.disk (st.destroyRoom room).1.disk st.uploadsDir Reaches
      (fun name => ∃ s ∈ st.db.sessions, s.room = some room ∧ s.tempName = name)
      (st.destroyRoom room).1.db.Receives := by
  have hdirs := dirs_ne st
  -- No session that stays has the name of one that goes.
  have hown : ∀ name, (∃ s ∈ st.db.sessions, s.room = some room ∧ s.tempName = name) →
      ¬ (st.db.without room).Receives name := by
    rintro name ⟨s, hs, hroom, hname⟩ ⟨s', hs', hname'⟩
    rw [(without_spec st.db room).2.2.2.1] at hs'
    have hid : s'.id = s.id := tempName_inj (hname'.trans hname.symm)
    exact hs'.2 (List.inj_on_of_nodup_map st.db.keyed hs'.1 hs hid ▸ hroom)
  refine (unlinks_iff (fun name h => h) fun file hfile => ?_).2
    ⟨fun name hname hfree other hother file hfile hleads hshared => ?_,
      fun name hname file hfile hleads => .inr ⟨name, hname, hleads⟩⟩
  · rw [gone_iff hfile]
    simp only [true_and, hdirs.2.1.symm, hdirs.2.2.symm, false_and, false_or, mem_tempNames]
    exact exists_congr fun name => and_congr_left fun _ => (and_iff_left_of_imp (hown name)).symm
  · have heq : other = name := String.toList_inj.1 (hshared.2.trans hleads.2.symm)
    exact hfree (heq ▸ hother)

-- A name that leads to a file leads to something in the directory.
theorem isEntry_of_touches {name : String} (h : Touches name file) : IsEntry file := by
  rcases h with h | ⟨sidecar, hsidecar, rfl⟩
  · exact h.1
  · exact isEntry_sidecarName hsidecar

/-- Nothing outside of the three directories is removed. -/
theorem removed_inside {p : Path} (hp : p ∈ st.disk.paths)
    (hgone : p ∉ (st.destroyRoom room).1.disk.paths) :
    ∃ dir ∈ [st.filesDir, st.imagesDir, st.uploadsDir], ∃ file, IsEntry file ∧
      p = dir ++ [file] := by
  rw [mem_destroyed, not_and, not_not] at hgone
  rcases (hgone hp).2 with ⟨name, -, file, hleads, rfl⟩ | ⟨name, -, file, hleads, rfl⟩ |
    ⟨name, -, file, hleads, rfl⟩
  · exact ⟨st.filesDir, by simp, file, isEntry_of_touches hleads, rfl⟩
  · exact ⟨st.imagesDir, by simp, file, isEntry_of_touches hleads, rfl⟩
  · exact ⟨st.uploadsDir, by simp, file, hleads.1, rfl⟩

/-- The records that are left. Those of the index that are not of messages are left as well. -/
theorem holds_without (db : Db) (room : RoomId) (r : Record) : (db.without room).Holds r ↔
    db.Holds r ∧ (r.ofRoom = some room → ∃ d, r = .doc d ∧ d.kind ≠ .message) := by
  rcases without_spec db room with ⟨hrooms, hmessages, hfiles, hsessions, hdocs, hothers⟩
  cases r with
  | room id => simpa [Db.Holds, Record.ofRoom] using hrooms id
  | message m => simpa [Db.Holds, Record.ofRoom] using hmessages m
  | file f => simpa [Db.Holds, Record.ofRoom] using hfiles f
  | session s => simpa [Db.Holds, Record.ofRoom] using hsessions s
  | doc d => simpa [Db.Holds, Record.ofRoom, not_and, imp_not_comm] using hdocs d
  | other row => simpa [Db.Holds, Record.ofRoom] using hothers row

theorem forgets_iff : (∀ r : Record, r.ofRoom = some room →
      ¬ (st.destroyRoom room).1.db.Holds r) ↔
    ∀ d ∈ st.db.docs, d.room = some room → d.kind = .message := by
  constructor
  · intro h d hd hroom
    by_contra hkind
    exact h (.doc d) hroom ((holds_without st.db room (.doc d)).2 ⟨hd, fun _ => ⟨d, rfl, hkind⟩⟩)
  · intro h r hroom hholds
    rcases (holds_without st.db room r).1 hholds with ⟨hold, hdoc⟩
    rcases hdoc hroom with ⟨d, rfl, hkind⟩
    exact hkind (h d hold hroom)

end Destroy

def noRows : Db where
  rooms := [⟨"a"⟩, ⟨"b"⟩]
  messages := []
  files := []
  sessions := []
  docs := []
  others := []
  avatars := []
  notes := []
  keyed := List.nodup_nil

/-- A disk with one file. -/
def oneFile (dir name : List Char) (h : isPlain dir = true ∧ isPlain name = true)
    (hclosed : endsOpen dir = false ∧ endsOpen name = false) : Disk where
  paths := [[dir, name]]
  stuck := []
  named := fun p hp n hn => by
    rw [List.mem_singleton.1 hp] at hn
    rcases List.mem_cons.1 hn with rfl | hn
    · exact entry_of_plain h.1 hclosed.1
    · rw [List.mem_singleton.1 hn]
      exact entry_of_plain h.2 hclosed.2

def pictureName : String := digestName 'a' "png"

/-- A picture is shown under a seal, and the message is deleted. -/
def pictureDeleted : Store :=
  Run.run step
    ⟨[], noRows,
      oneFile "images".toList pictureName.toList (by decide +kernel) (by decide +kernel), []⟩
    [.send "m" ⟨"a"⟩ "sealed" true [pictureName], .delete "m" ⟨"a"⟩]

def attached : SearchDoc := ⟨.file, "f", some ⟨"a"⟩⟩

/-- A room with an attachment, and with its document in the index. -/
def attachmentIndexed : Store :=
  ⟨[], { noRows with files := [⟨"f", ⟨"a"⟩, "f.pdf"⟩], docs := [attached] },
    oneFile "files".toList "f.pdf".toList (by decide) (by decide), []⟩

/-- Two attachments with the same bytes, of which only the extensions differ. -/
def thumbnailShared : Store :=
  ⟨[], { noRows with
      files := [⟨"f", ⟨"a"⟩, pictureName⟩, ⟨"g", ⟨"b"⟩, digestName 'a' "jpg"⟩] },
    oneFile "files".toList (digestName 'a' "thumb.jpg").toList (by decide +kernel)
      (by decide +kernel), []⟩

end Purge

end PocketSkynet
