import PocketSkynet.Lib.Sources
import PocketSkynet.Server.Gallery

/-!
# The Gallery Lists What the Room Shows

A page is a page of one list: what both tables have of the room, sorted by falling times. That
each table was cut to a page before does not show. Asking until there are no more pages therefore
leads through the list, and passes over what has the time of the last item of a page and is not
on it.

What the list has is what the room shows. Every write to a message keeps its rows in step, so
that there is a row for each of the first thirty-two names of a live message, and no other. The
names from the thirty-third on are left out.

## Main definitions

* `listing`: All that the tables have of a room.
* `Reading`: What has been received so far, and what has been passed over.
* `Wall.Inv`: What is so of the tables.
* `Complete`: What the pages of a room are.

## Theorems

* `inv_step`: The rows of a message are kept in step.
* `gallery_lists`: The pages of a room, in every state that is reached.
* `thirty_third_unlisted`: A message that names one file too many.
-/

namespace PocketSkynet

namespace Gallery

/-! ### One list -/

/-- The order of the gallery. -/
abbrev Newer (a b : Item) : Prop := b.createdAtMs ≤ a.createdAtMs

/-- The attachments of a room that are media. -/
def fileRows (db : Db) (room : RoomId) : List FileRow :=
  newestFirst (fun f => f.createdAt.ms) (db.files.filter fun f =>
    decide (f.room = room) && inlineExts.contains (storedExt f.storedName))

/-- The references of a room. -/
def shownRows (db : Db) (room : RoomId) : List ShownMedia :=
  newestFirst ShownMedia.createdMs
    ((db.media.filter fun r => decide (r.room = room)).filterMap (shown db))

/-- All items of a room. -/
def listing (db : Db) (room : RoomId) : List Item :=
  ((fileRows db room).map attachmentItem ++ (shownRows db room).map hostedItem).insertionSort
    Newer

section Lists

variable {α : Type*} (stamp : α → ℤ)

theorem newestFirst_filter (p : α → Bool) (l : List α) :
    newestFirst stamp (l.filter p) = (newestFirst stamp l).filter p := by
  unfold newestFirst
  rw [← List.filter_reverse, Keyset.insertionSort_filter]

theorem falling_newestFirst (l : List α) : Keyset.Falling stamp (newestFirst stamp l) :=
  List.pairwise_insertionSort _ _

@[simp] theorem mem_newestFirst {l : List α} {a : α} : a ∈ newestFirst stamp l ↔ a ∈ l := by
  rw [newestFirst, List.mem_insertionSort, List.mem_reverse]

end Lists

variable {db : Db} {room : RoomId}

-- The time bound may be tried on what has been sorted.
theorem mediaForRoom_eq (before : ℤ) (limit : ℕ) :
    mediaForRoom db room before limit inlineExts =
      ((fileRows db room).filter fun f => decide (f.createdAt.ms < before)).take limit := by
  rw [mediaForRoom, fileRows, ← newestFirst_filter, List.filter_filter]
  refine congrArg (List.take limit) (congrArg _ (List.filter_congr fun f _ => ?_))
  rw [Bool.and_comm (decide (f.createdAt.ms < before)), Bool.and_right_comm]

theorem shownForRoom_eq (before : ℤ) (limit : ℕ) :
    shownForRoom db room before limit =
      ((shownRows db room).filter fun s => decide (s.createdMs < before)).take limit := by
  have hstamp : ∀ r : MediaRow, (shown db r).filter (fun s => decide (s.createdMs < before)) =
      if decide (r.createdAt.ms < before) then shown db r else none := by
    intro r
    unfold shown
    cases db.messages.find? fun m => m.id == r.messageId with
    | none => simp
    | some m => rw [Option.map_some, Option.filter_some]
  rw [shownForRoom, shownRows, ← newestFirst_filter, List.filter_filterMap]
  refine congrArg (List.take limit) (congrArg _ ?_)
  have hsplit : (db.media.filter fun r =>
      decide (r.room = room) && decide (r.createdAt.ms < before)) =
      (db.media.filter fun r => decide (r.room = room)).filter fun r =>
        decide (r.createdAt.ms < before) := by
    rw [List.filter_filter]
    exact List.filter_congr fun r _ => Bool.and_comm _ _
  rw [hsplit, List.filterMap_filter]
  exact List.filterMap_congr fun r _ => (hstamp r).symm

theorem falling_listing : Keyset.Falling Item.createdAtMs (listing db room) :=
  List.pairwise_insertionSort _ _

theorem mem_listing {item : Item} : item ∈ listing db room ↔
    (∃ f ∈ fileRows db room, attachmentItem f = item) ∨
      ∃ s ∈ shownRows db room, hostedItem s = item := by
  rw [listing, List.mem_insertionSort, List.mem_append, List.mem_map, List.mem_map]

theorem mem_fileRows {f : FileRow} : f ∈ fileRows db room ↔
    f ∈ db.files ∧ f.room = room ∧ storedExt f.storedName ∈ inlineExts := by
  rw [fileRows, mem_newestFirst, List.mem_filter, Bool.and_eq_true, decide_eq_true_iff,
    List.contains_iff_mem]

theorem mem_shownRows {s : ShownMedia} : s ∈ shownRows db room ↔
    ∃ r ∈ db.media, r.room = room ∧ shown db r = some s := by
  simp only [shownRows, mem_newestFirst, List.mem_filterMap, List.mem_filter, decide_eq_true_iff,
    and_assoc]

-- Nothing has the last time there is.
theorem stamp_lt_max {item : Item} (h : item ∈ listing db room) : item.createdAtMs < i64Max := by
  rcases mem_listing.1 h with ⟨f, -, rfl⟩ | ⟨s, hs, rfl⟩
  · exact f.createdAt.lt_max
  · rcases mem_shownRows.1 hs with ⟨r, -, -, hr⟩
    rcases Option.map_eq_some_iff.1 hr with ⟨m, -, rfl⟩
    exact r.createdAt.lt_max

theorem past_listing (before : Option ℤ) :
    Keyset.past Item.createdAtMs (listing db room) before =
      (listing db room).filter fun item => decide (item.createdAtMs < before.getD i64Max) := by
  cases before with
  | none => exact (List.filter_eq_self.2 fun item h => decide_eq_true (stamp_lt_max h)).symm
  | some before => rfl

theorem one_le_pageSize (limit : Option ℤ) : 1 ≤ pageSize limit := by
  unfold pageSize
  omega

/-- A page is a page of the listing, and there are more if it is not all that is left. -/
theorem list_eq (limit before : Option ℤ) : list db room limit before =
    ⟨Keyset.page Item.createdAtMs (listing db room) (pageSize limit) before,
      decide (pageSize limit <
        (Keyset.past Item.createdAtMs (listing db room) before).length)⟩ := by
  obtain ⟨bound, hbound⟩ : ∃ bound, before.getD i64Max = bound := ⟨_, rfl⟩
  obtain ⟨files, hfiles⟩ : ∃ files, ((fileRows db room).filter fun f =>
      decide (f.createdAt.ms < bound)).map attachmentItem = files := ⟨_, rfl⟩
  obtain ⟨hosted, hhosted⟩ : ∃ hosted, ((shownRows db room).filter fun s =>
      decide (s.createdMs < bound)).map hostedItem = hosted := ⟨_, rfl⟩
  have hsorted : files.Pairwise Newer ∧ hosted.Pairwise Newer := by
    rw [← hfiles, ← hhosted, List.pairwise_map, List.pairwise_map]
    exact ⟨(falling_newestFirst _ _).sublist List.filter_sublist,
      (falling_newestFirst _ _).sublist List.filter_sublist⟩
  have hpast : Keyset.past Item.createdAtMs (listing db room) before =
      (files ++ hosted).insertionSort Newer := by
    rw [past_listing, hbound, listing, ← Keyset.insertionSort_filter, List.filter_append,
      List.filter_map, List.filter_map, ← hfiles, ← hhosted]
    rfl
  have hitems : ∀ n, ((mediaForRoom db room bound n inlineExts).map attachmentItem ++
      (shownForRoom db room bound n).map hostedItem) = files.take n ++ hosted.take n := by
    intro n
    rw [mediaForRoom_eq, shownForRoom_eq, List.map_take, List.map_take, hfiles, hhosted]
  have hless := Nat.le_succ (pageSize limit)
  rw [list, hbound, hitems, Keyset.page, hpast]
  refine congrArg₂ Page.mk (Keyset.take_sources Newer hsorted.1 hsorted.2 hless) ?_
  refine decide_eq_decide.2 ?_
  rw [Keyset.lt_length_sources, List.length_insertionSort]

/-! ### Asking for pages -/

-- The smallest time of a sorted list is that of its last item.
theorem smallest_eq {items : List Item} (h : Keyset.Falling Item.createdAtMs items) :
    smallest items = items.getLast?.map Item.createdAtMs := by
  rcases List.eq_nil_or_concat items with rfl | ⟨front, last, rfl⟩
  · rfl
  · rw [List.concat_eq_append] at h ⊢
    rw [List.getLast?_concat, Option.map_some, smallest, List.min?_eq_some_iff]
    refine ⟨List.mem_map_of_mem (by simp), fun t ht => ?_⟩
    rcases List.mem_map.1 ht with ⟨item, hitem, rfl⟩
    rcases List.mem_append.1 hitem with hfront | hlast
    · exact (List.pairwise_append.1 h).2.2 item hfront last (List.mem_singleton_self _)
    · rw [List.mem_singleton.1 hlast]

/-- What has been received so far is in the order of the listing, and what has not is still to
    come or shares its time with the last item of a page. -/
structure Reading (items : List Item) (pages : List Page) : Prop where
  ordered : (received pages).Sublist items
  covered : ∀ item ∈ items, item ∈ received pages ∨
    (∃ page ∈ pages, ∃ last ∈ page.items.getLast?, last.createdAtMs = item.createdAtMs) ∨
      item ∈ Keyset.past Item.createdAtMs items
        ((received pages).getLast?.map Item.createdAtMs)

theorem received_concat (pages : List Page) (page : Page) :
    received (pages ++ [page]) = received pages ++ page.items := by
  rw [received, received, List.flatMap_append, List.flatMap_singleton]

-- One page more.
theorem reading_concat {items : List Item} {pages : List Page} {page : Page} {limit : ℕ}
    (hfalling : Keyset.Falling Item.createdAtMs items) (hlimit : 1 ≤ limit)
    (h : Reading items pages)
    (hpage : page.items = Keyset.page Item.createdAtMs items limit
      ((received pages).getLast?.map Item.createdAtMs)) : Reading items (pages ++ [page]) := by
  have hreceived := received_concat pages page
  refine ⟨?_, fun item hitem => ?_⟩
  · rw [hreceived, hpage]
    exact Keyset.fetch_sublist hfalling h.ordered
  · rcases h.covered item hitem with hold | ⟨p, hp, hlast⟩ | hpast
    · left
      rw [hreceived]
      exact List.mem_append_left _ hold
    · exact Or.inr (Or.inl ⟨p, List.mem_append_left _ hp, hlast⟩)
    · -- The item is on the page, or the last one of the page is not older.
      rcases Keyset.mem_page_or hfalling hlimit hpast with hon | ⟨last, hlast, hle⟩
      · left
        rw [hreceived, hpage]
        exact List.mem_append_right _ hon
      · right
        rw [← hpage] at hlast
        rcases hle.lt_or_eq with hlt | heq
        · right
          rw [hreceived, List.getLast?_append, hlast, Option.some_or, Option.map_some]
          exact List.mem_filter.2 ⟨hitem, decide_eq_true hlt⟩
        · exact Or.inl ⟨page, List.mem_append_right _ (List.mem_singleton_self _), last, hlast,
            heq.symm⟩

/-- Asking for pages ends, at the latest when all items have been received, and then nothing is
    still to come. -/
theorem loadAll_spec (limit : Option ℤ) (requests : ℕ) (pages : List Page)
    (h : Reading (listing db room) pages)
    (henough : (listing db room).length < (received pages).length + requests) :
    ∃ all, loadAll db room limit requests pages = some all ∧
      (received all).Sublist (listing db room) ∧
      ∀ item ∈ listing db room, item ∈ received all ∨
        ∃ page ∈ all, ∃ last ∈ page.items.getLast?, last.createdAtMs = item.createdAtMs := by
  induction requests generalizing pages with
  | zero =>
      have hle := h.ordered.length_le
      omega
  | succ requests ih =>
      have hcursor := smallest_eq (falling_listing.sublist h.ordered)
      obtain ⟨page, hpage⟩ : ∃ page,
          list db room limit (smallest (received pages)) = page := ⟨_, rfl⟩
      have hlist : list db room limit (smallest (received pages)) = _ := list_eq limit _
      rw [hpage, hcursor] at hlist
      have hitems := congrArg Page.items hlist
      have hmore := congrArg Page.hasMore hlist
      have hnext := reading_concat falling_listing (one_le_pageSize limit) h hitems
      rw [loadAll, hpage]
      by_cases hhas : page.hasMore = true
      · rw [if_pos hhas]
        refine ih (pages ++ [page]) hnext ?_
        have hlong := of_decide_eq_true (hmore.symm.trans hhas)
        have hsize := one_le_pageSize limit
        rw [received_concat, List.length_append, hitems, Keyset.page, List.length_take]
        omega
      · rw [if_neg hhas]
        refine ⟨_, rfl, hnext.ordered, fun item hitem => ?_⟩
        rw [hmore, decide_eq_true_iff, Nat.not_lt] at hhas
        have hall : page.items = Keyset.past Item.createdAtMs (listing db room)
            ((received pages).getLast?.map Item.createdAtMs) :=
          hitems.trans (List.take_of_length_le hhas)
        rcases h.covered item hitem with hold | ⟨p, hp, hlast⟩ | hpast
        · left
          rw [received_concat]
          exact List.mem_append_left _ hold
        · exact Or.inr ⟨p, List.mem_append_left _ hp, hlast⟩
        · left
          rw [received_concat, hall]
          exact List.mem_append_right _ hpast

/-! ### Rows and messages -/

/-- A message has a row for a name. -/
def Recorded (rows : List MediaRow) (room : RoomId) (id name : String) : Prop :=
  ∃ r ∈ rows, r.room = room ∧ r.messageId = id ∧ r.imageName = name

section Rows

variable {rows : List MediaRow} {id : String} {now : Instant}

/-- What a message has already is not added again. -/
def MediaRow.key (r : MediaRow) : String × String := (r.messageId, r.imageName)

theorem nodup_recordName (name : String) (h : (rows.map MediaRow.key).Nodup) :
    ((recordName id room now rows name).map MediaRow.key).Nodup := by
  unfold recordName
  split
  · exact h
  · rename_i hnew
    rw [List.map_append, List.map_singleton, List.nodup_append]
    refine ⟨h, List.nodup_singleton _, fun key hkey key' hkey' => ?_⟩
    rcases List.mem_map.1 hkey with ⟨r, hr, rfl⟩
    rw [List.mem_singleton.1 hkey']
    intro heq
    rw [MediaRow.key, MediaRow.key, Prod.mk.injEq] at heq
    exact hnew (List.any_eq_true.2 ⟨r, hr, by simp [heq.1, heq.2]⟩)

-- The message is in one room only.
theorem recorded_recordName {name : String} (hroom : ∀ r ∈ rows, r.messageId = id → r.room = room)
    {room' : RoomId} {id' name' : String} :
    Recorded (recordName id room now rows name) room' id' name' ↔
      Recorded rows room' id' name' ∨ (room = room' ∧ id = id' ∧ name = name') := by
  unfold recordName
  split
  · rename_i hany
    rcases List.any_eq_true.1 hany with ⟨r, hr, hkey⟩
    rw [Bool.and_eq_true, beq_iff_eq, beq_iff_eq] at hkey
    refine ⟨Or.inl, fun h => ?_⟩
    rcases h with h | ⟨rfl, rfl, rfl⟩
    · exact h
    · exact ⟨r, hr, hroom r hr hkey.1, hkey⟩
  · simp only [Recorded, List.mem_append, List.mem_singleton, or_and_right, exists_or,
      exists_eq_left]

theorem nodup_record (names : List String) (h : (rows.map MediaRow.key).Nodup) :
    ((record id room names now rows).map MediaRow.key).Nodup := by
  unfold record
  induction names.take maxMedia generalizing rows with
  | nil => exact h
  | cons name names ih => exact ih (nodup_recordName name h)

theorem recorded_record {names : List String}
    (hroom : ∀ r ∈ rows, r.messageId = id → r.room = room) {room' : RoomId} {id' name' : String} :
    Recorded (record id room names now rows) room' id' name' ↔
      Recorded rows room' id' name' ∨
        (room = room' ∧ id = id' ∧ name' ∈ names.take maxMedia) := by
  unfold record
  induction names.take maxMedia generalizing rows with
  | nil => simp
  | cons name names ih =>
      have hkept : ∀ r ∈ recordName id room now rows name, r.messageId = id → r.room = room := by
        intro r hr hid
        unfold recordName at hr
        split at hr
        · exact hroom r hr hid
        · rcases List.mem_append.1 hr with hr | hr
          · exact hroom r hr hid
          · rw [List.mem_singleton.1 hr]
      rw [List.foldl_cons, ih hkept, recorded_recordName hroom, List.mem_cons, or_assoc,
        ← and_or_left, ← and_or_left, @eq_comm _ name]

theorem recorded_forget {room' : RoomId} {id' name' : String} :
    Recorded (forget id rows) room' id' name' ↔ Recorded rows room' id' name' ∧ id' ≠ id := by
  constructor
  · rintro ⟨r, hr, hroom, rfl, hname⟩
    rw [forget, List.mem_filter, bne_iff_ne] at hr
    exact ⟨⟨r, hr.1, hroom, rfl, hname⟩, hr.2⟩
  · rintro ⟨⟨r, hr, hroom, rfl, hname⟩, hne⟩
    exact ⟨r, List.mem_filter.2 ⟨hr, bne_iff_ne.2 hne⟩, hroom, rfl, hname⟩

/-- A message that is written anew has a row for each of the first new names. -/
theorem recorded_replace {names : List String} {room' : RoomId} {id' name' : String} :
    Recorded (replace id room names now rows) room' id' name' ↔
      (Recorded rows room' id' name' ∧ id' ≠ id) ∨
        (room = room' ∧ id = id' ∧ name' ∈ names.take maxMedia) := by
  rw [replace, recorded_record, recorded_forget]
  intro r hr hid
  rw [forget, List.mem_filter, bne_iff_ne] at hr
  exact absurd hid hr.2

end Rows

/-! ### The tables in step -/

/-- There is a row for each of the first names of a live message, and no other; ids are taken
    once, and stored names have the extension of the file. -/
structure Wall.Inv (w : Wall) : Prop where
  ids : (w.db.messages.map MessageRow.id).Nodup
  once : (w.db.media.map MediaRow.key).Nodup
  backed : ∀ room id name, Recorded w.db.media room id name ↔
    Live w.db room id ∧ name ∈ (w.names id).take maxMedia
  fileIds : (w.db.files.map FileRow.id).Nodup
  stored : ∀ f ∈ w.db.files, storedExt f.storedName = extensionOf f.filename

section Steps

variable {w : Wall} {db' : Db}

theorem inv_createMessage {new : NewMessage} {now : Instant} (hi : w.Inv)
    (h : createMessage w.db new now = some db') :
    Wall.Inv ⟨db', Function.update w.names new.id new.media⟩ := by
  unfold createMessage at h
  split at h
  · cases h
  rename_i hnew
  cases h
  have hfresh : ∀ m ∈ w.db.messages, m.id ≠ new.id := fun m hm hid =>
    hnew (List.any_eq_true.2 ⟨m, hm, beq_iff_eq.2 hid⟩)
  have hnone : ∀ room, ¬ Live w.db room new.id := fun room ⟨m, hm, hid, _⟩ => hfresh m hm hid
  refine ⟨?_, nodup_record _ hi.once, fun room id name => ?_, hi.fileIds, hi.stored⟩
  · rw [List.map_append, List.map_singleton, List.nodup_append]
    refine ⟨hi.ids, List.nodup_singleton _, fun id hid id' hid' => ?_⟩
    rcases List.mem_map.1 hid with ⟨m, hm, rfl⟩
    rw [List.mem_singleton.1 hid']
    exact hfresh m hm
  · have hrows : ∀ r ∈ w.db.media, r.messageId = new.id → r.room = new.room := by
      rintro r hr hid
      have hlive := ((hi.backed r.room r.messageId r.imageName).1 ⟨r, hr, rfl, rfl, rfl⟩).1
      rw [hid] at hlive
      exact absurd hlive (hnone _)
    have hlive : Live { w.db with
        messages := w.db.messages ++
          [⟨new.id, new.room, new.sender, new.content, new.isEncrypted, false⟩]
        media := record new.id new.room new.media now w.db.media } room id ↔
        Live w.db room id ∨ (new.id = id ∧ new.room = room) := by
      simp [Live, or_and_right, exists_or]
    rw [recorded_record hrows, hi.backed, hlive]
    by_cases hid : id = new.id
    · subst hid
      simp [hnone, Function.update_self]
    · simp [hid, Ne.symm hid]

-- A rewriting that keeps ids and rooms deletes what it marks as deleted, and nothing else.
theorem live_map {ms : List MessageRow} {f : MessageRow → MessageRow}
    (hid : ∀ m, (f m).id = m.id) (hroom : ∀ m, (f m).room = m.room) {media : List MediaRow}
    {files : List FileRow} {room : RoomId} {id : String} :
    Live ⟨ms.map f, media, files⟩ room id ↔
      ∃ m ∈ ms, m.id = id ∧ m.room = room ∧ (f m).isDeleted = false := by
  simp only [Live, List.mem_map]
  constructor
  · rintro ⟨_, ⟨m, hm, rfl⟩, h⟩
    rw [hid, hroom] at h
    exact ⟨m, hm, h⟩
  · rintro ⟨m, hm, h⟩
    refine ⟨f m, ⟨m, hm, rfl⟩, ?_⟩
    rwa [hid, hroom]

-- An edit rewrites a message in its room, whichever room that is.
theorem inv_updateMessage {id content : String} {room : RoomId} {isEncrypted : Bool}
    {media : List String} {now : Instant} (hi : w.Inv)
    (hroom : ∀ m ∈ w.db.messages, m.id = id → m.room = room)
    (h : updateMessage w.db id room content isEncrypted media now = some db') :
    Wall.Inv ⟨db', Function.update w.names id media⟩ := by
  simp only [updateMessage] at h
  split at h
  swap
  · cases h
  rename_i hsome
  cases h
  rcases List.any_eq_true.1 hsome with ⟨old, hold, holdId⟩
  rw [Bool.and_eq_true, beq_iff_eq, Bool.not_eq_true'] at holdId
  obtain ⟨f, hf⟩ : ∃ f : MessageRow → MessageRow, (fun m : MessageRow =>
      if m.id == id && !m.isDeleted then
        { m with content := content, isEncrypted := isEncrypted } else m) = f := ⟨_, rfl⟩
  have hkeeps : ∀ m, (f m).id = m.id ∧ (f m).room = m.room ∧ (f m).isDeleted = m.isDeleted := by
    intro m
    rw [← hf]
    dsimp only
    split
    · exact ⟨rfl, rfl, rfl⟩
    · exact ⟨rfl, rfl, rfl⟩
  rw [hf]
  refine ⟨?_, nodup_record _ ((hi.once.sublist (List.filter_sublist.map _))),
    fun room' id' name => ?_, hi.fileIds, hi.stored⟩
  · have hids : (w.db.messages.map f).map MessageRow.id = w.db.messages.map MessageRow.id := by
      rw [List.map_map]
      exact List.map_congr_left fun m _ => (hkeeps m).1
    exact hids ▸ hi.ids
  · have hlive : Live ⟨w.db.messages.map f, replace id room media now w.db.media, w.db.files⟩
        room' id' ↔ Live w.db room' id' := by
      rw [live_map (fun m => (hkeeps m).1) fun m => (hkeeps m).2.1]
      exact exists_congr fun m => and_congr_right fun _ => by rw [(hkeeps m).2.2]
    rw [recorded_replace, hi.backed, hlive]
    by_cases hid : id' = id
    · subst hid
      have hown : Live w.db room' id' ↔ room = room' := by
        constructor
        · rintro ⟨m, hm, hid, rfl, -⟩
          exact (hroom m hm hid).symm
        · rintro rfl
          exact ⟨old, hold, holdId.1, hroom old hold holdId.1, holdId.2⟩
      simp [hown, Function.update_self]
    · simp [hid, Ne.symm hid]

-- A tombstone has no references.
theorem inv_softDeleteMessage {id : String} {room : RoomId} (hi : w.Inv)
    (hroom : ∀ m ∈ w.db.messages, m.id = id → m.room = room)
    (h : softDeleteMessage w.db id room = some db') :
    Wall.Inv ⟨db', Function.update w.names id []⟩ := by
  simp only [softDeleteMessage] at h
  split at h
  swap
  · cases h
  cases h
  obtain ⟨f, hf⟩ : ∃ f : MessageRow → MessageRow, (fun m : MessageRow =>
      if m.id == id && decide (m.room = room) && !m.isDeleted then
        { m with content := "", isDeleted := true } else m) = f := ⟨_, rfl⟩
  have hkeeps : ∀ m, (f m).id = m.id ∧ (f m).room = m.room := by
    intro m
    rw [← hf]
    dsimp only
    split
    · exact ⟨rfl, rfl⟩
    · exact ⟨rfl, rfl⟩
  have hdeleted : ∀ m ∈ w.db.messages,
      (f m).isDeleted = false ↔ m.isDeleted = false ∧ m.id ≠ id := by
    intro m hm
    rw [← hf]
    by_cases hid : m.id = id
    · have hr := hroom m hm hid
      cases hd : m.isDeleted with
      | true => simp [hid, hr, hd]
      | false => simp [hid, hr, hd]
    · simp [hid]
  rw [hf]
  refine ⟨?_, hi.once.sublist (List.filter_sublist.map _), fun room' id' name => ?_,
    hi.fileIds, hi.stored⟩
  · have hids : (w.db.messages.map f).map MessageRow.id = w.db.messages.map MessageRow.id := by
      rw [List.map_map]
      exact List.map_congr_left fun m _ => (hkeeps m).1
    exact hids ▸ hi.ids
  · have hlive : Live ⟨w.db.messages.map f, forget id w.db.media, w.db.files⟩ room' id' ↔
        Live w.db room' id' ∧ id' ≠ id := by
      rw [live_map (fun m => (hkeeps m).1) fun m => (hkeeps m).2]
      constructor
      · rintro ⟨m, hm, rfl, hr, hd⟩
        rw [hdeleted m hm] at hd
        exact ⟨⟨m, hm, rfl, hr, hd.1⟩, hd.2⟩
      · rintro ⟨⟨m, hm, rfl, hr, hd⟩, hne⟩
        exact ⟨m, hm, rfl, hr, (hdeleted m hm).2 ⟨hd, hne⟩⟩
    rw [recorded_forget, hi.backed, hlive]
    by_cases hid : id' = id
    · simp [hid]
    · simp [hid]

-- References go with their messages, and a marker has none.
theorem inv_deleteAllMessages {room : RoomId} {caller : WalletAddress} {marker : String}
    (hi : w.Inv) (h : deleteAllMessages w.db room caller marker = some db') :
    Wall.Inv ⟨db', Function.update w.names marker []⟩ := by
  simp only [deleteAllMessages] at h
  split at h
  · cases h
  rename_i hnew
  cases h
  have hfresh : ∀ m ∈ w.db.messages, m.room ≠ room → m.id ≠ marker := fun m hm hr hid =>
    hnew (List.any_eq_true.2 ⟨m, List.mem_filter.2 ⟨hm, by simpa using hr⟩, beq_iff_eq.2 hid⟩)
  refine ⟨?_, hi.once.sublist (List.filter_sublist.map _), fun room' id name => ?_,
    hi.fileIds, hi.stored⟩
  · rw [List.map_append, List.map_singleton, List.nodup_append]
    refine ⟨hi.ids.sublist (List.filter_sublist.map _), List.nodup_singleton _,
      fun id hid id' hid' => ?_⟩
    rcases List.mem_map.1 hid with ⟨m, hm, rfl⟩
    rw [List.mem_singleton.1 hid']
    rw [List.mem_filter, Bool.not_eq_true', decide_eq_false_iff_not] at hm
    exact hfresh m hm.1 hm.2
  · -- The message of a row is in the room of the row.
    have hrows : Recorded (w.db.media.filter fun r =>
        !w.db.messages.any fun m => decide (m.room = room) && m.id == r.messageId)
        room' id name ↔ Recorded w.db.media room' id name ∧ room' ≠ room := by
      constructor
      · rintro ⟨r, hr, rfl, rfl, rfl⟩
        rw [List.mem_filter, Bool.not_eq_true'] at hr
        have hrow : Recorded w.db.media r.room r.messageId r.imageName :=
          ⟨r, hr.1, rfl, rfl, rfl⟩
        refine ⟨hrow, fun hsame => ?_⟩
        rcases ((hi.backed _ _ _).1 hrow).1 with ⟨m, hm, hid, hroom, -⟩
        exact absurd (List.any_eq_true.2 ⟨m, hm, by simp [hid, hroom, hsame]⟩)
          (Bool.eq_false_iff.1 hr.2)
      · rintro ⟨hrow, hne⟩
        rcases ((hi.backed _ _ _).1 hrow).1 with ⟨m, hm, hid, hroom, -⟩
        rcases hrow with ⟨r, hr, rfl, rfl, rfl⟩
        refine ⟨r, List.mem_filter.2 ⟨hr, ?_⟩, rfl, rfl, rfl⟩
        rw [Bool.not_eq_true', List.any_eq_false]
        intro m' hm' hgone
        rw [Bool.and_eq_true, decide_eq_true_iff, beq_iff_eq] at hgone
        have hsame := List.inj_on_of_nodup_map hi.ids hm hm' (hid.trans hgone.2.symm)
        subst hsame
        exact hne (hroom.symm.trans hgone.1)
    rw [hrows, hi.backed]
    by_cases hid : id = marker
    · subst hid
      have hnot : room' ≠ room → ¬ Live w.db room' id := fun hne ⟨m, hm, hid, hroom, _⟩ =>
        hfresh m hm (hroom ▸ hne) hid
      simp only [Function.update_self, List.take_nil, List.not_mem_nil, and_false, iff_false]
      exact fun h => hnot h.2 h.1.1
    · dsimp only
      rw [Function.update_of_ne hid]
      have hlive : Live ⟨(w.db.messages.filter fun m => !decide (m.room = room)) ++
          [⟨marker, room, caller, "", false, false⟩], w.db.media.filter fun r =>
            !w.db.messages.any fun m => decide (m.room = room) && m.id == r.messageId,
          w.db.files⟩ room' id ↔ Live w.db room' id ∧ room' ≠ room := by
        simp only [Live, List.mem_append, List.mem_filter, List.mem_singleton, Bool.not_eq_true',
          decide_eq_false_iff_not]
        constructor
        · rintro ⟨m, ⟨hm, hne⟩ | rfl, hmid, rfl, hd⟩
          · exact ⟨⟨m, hm, hmid, rfl, hd⟩, hne⟩
          · exact absurd hmid.symm hid
        · rintro ⟨⟨m, hm, hmid, rfl, hd⟩, hne⟩
          exact ⟨m, Or.inl ⟨hm, hne⟩, hmid, rfl, hd⟩
      rw [hlive, and_right_comm]

-- The extension of a stored name is the one it was made with.
theorem storedExt_append (digest : HexDigest) (ext : String) :
    storedExt (digest.text ++ "." ++ ext) = ext := by
  have hlength : (digest.text ++ ".").toList.length = 65 := by
    rw [String.toList_append, List.length_append, String.length_toList, digest.length_eq]
    rfl
  rw [storedExt, String.toList_append, ← hlength, List.drop_left, String.ofList_toList]

-- What one request does to the tables.
theorem inv_step (w : Wall) (c : Call) (hi : w.Inv) : (step w c).Inv := by
  have hfound : ∀ {id : String} {existing : MessageRow},
      w.db.messages.find? (fun m => m.id == id) = some existing →
        ∀ m ∈ w.db.messages, m.id = id → m.room = existing.room := by
    intro id existing hfind m hm hid
    have hexisting := List.find?_some hfind
    rw [beq_iff_eq] at hexisting
    rw [List.inj_on_of_nodup_map hi.ids hm (List.mem_of_find?_eq_some hfind)
      (hid.trans hexisting.symm)]
  cases c with
  | send id room sender content isEncrypted declared now =>
      simp only [step, Wall.write]
      split
      · exact hi
      · rename_i db hdb
        exact inv_createMessage hi hdb
  | edit id content isEncrypted declared now =>
      simp only [step, Wall.write]
      split
      · exact hi
      · rename_i db hdb
        rcases Option.bind_eq_some_iff.1 hdb with ⟨existing, hfind, hupdate⟩
        exact inv_updateMessage hi (hfound hfind) hupdate
  | remove id =>
      simp only [step, Wall.write]
      split
      · exact hi
      · rename_i db hdb
        rcases Option.bind_eq_some_iff.1 hdb with ⟨existing, hfind, hdelete⟩
        exact inv_softDeleteMessage hi (hfound hfind) hdelete
  | purge room caller marker =>
      simp only [step, Wall.write]
      split
      · exact hi
      · rename_i db hdb
        exact inv_deleteAllMessages hi hdb
  | upload id room uploader digest filename caption now =>
      simp only [step, createFile]
      split
      · exact hi
      · rename_i hnew
        refine ⟨hi.ids, hi.once, hi.backed, ?_, fun f hf => ?_⟩
        · rw [Option.getD_some, List.map_append, List.map_singleton, List.nodup_append]
          refine ⟨hi.fileIds, List.nodup_singleton _, fun id hid id' hid' => ?_⟩
          rcases List.mem_map.1 hid with ⟨f, hf, rfl⟩
          rw [List.mem_singleton.1 hid']
          exact fun heq => hnew (List.any_eq_true.2 ⟨f, hf, beq_iff_eq.2 heq⟩)
        · rcases List.mem_append.1 hf with hf | hf
          · exact hi.stored f hf
          · rw [List.mem_singleton.1 hf]
            exact storedExt_append digest _
  | deleteFile id =>
      exact ⟨hi.ids, hi.once, hi.backed, hi.fileIds.sublist (List.filter_sublist.map _),
        fun f hf => hi.stored f (List.mem_filter.1 hf).1⟩

theorem inv_empty : Wall.empty.Inv where
  ids := List.nodup_nil
  once := List.nodup_nil
  backed _ _ _ := by simp [Wall.empty, Recorded, Live]
  fileIds := List.nodup_nil
  stored _ h := absurd h List.not_mem_nil

theorem inv_run (calls : List Call) : (Run.run step Wall.empty calls).Inv :=
  Run.run_inv inv_step Wall.empty calls inv_empty

end Steps

/-! ### What is listed -/

section Listed

variable {w : Wall}

-- An attachment that is listed is one that is shown.
theorem mem_fileRows_iff (hi : w.Inv) {f : FileRow} (hf : f ∈ w.db.files) :
    f ∈ fileRows w.db room ↔ w.Shows room (.attachment f.id) := by
  rw [mem_fileRows, Wall.Shows]
  constructor
  · rintro ⟨-, hroom, hext⟩
    rw [hi.stored f hf] at hext
    exact ⟨f, hf, rfl, hroom, hext⟩
  · rintro ⟨f', hf', hid, hroom, hext⟩
    have hsame := List.inj_on_of_nodup_map hi.fileIds hf' hf hid
    subst hsame
    rw [hi.stored f' hf]
    exact ⟨hf, hroom, hext⟩

-- Whatever has a row has a message to go with it.
theorem exists_shown (hi : w.Inv) {r : MediaRow} (hr : r ∈ w.db.media) :
    ∃ s, shown w.db r = some s := by
  rcases ((hi.backed _ _ _).1 ⟨r, hr, rfl, rfl, rfl⟩).1 with ⟨m, hm, hid, -⟩
  cases hfind : w.db.messages.find? fun m => m.id == r.messageId with
  | none => exact absurd (beq_iff_eq.2 hid) (List.find?_eq_none.1 hfind m hm)
  | some m' => exact ⟨_, by rw [shown, hfind, Option.map_some]⟩

/-- The items of the listing are what the room shows, with the times it was recorded at. -/
theorem listed_iff (hi : w.Inv) (ref : Ref) (t : ℤ) :
    (∃ item ∈ listing w.db room, item.ref = ref ∧ item.createdAtMs = t) ↔
      w.Shows room ref ∧ Stamped w.db t ref := by
  constructor
  · rintro ⟨item, hitem, rfl, rfl⟩
    rcases mem_listing.1 hitem with ⟨f, hf, rfl⟩ | ⟨s, hs, rfl⟩
    · have hmem := (mem_fileRows.1 hf).1
      exact ⟨(mem_fileRows_iff hi hmem).1 hf, f, hmem, rfl, rfl⟩
    · rcases mem_shownRows.1 hs with ⟨r, hr, hroom, hshown⟩
      rcases Option.map_eq_some_iff.1 hshown with ⟨m, -, rfl⟩
      exact ⟨(hi.backed _ _ _).1 ⟨r, hr, hroom, rfl, rfl⟩, r, hr, rfl, rfl, rfl⟩
  · rintro ⟨hshows, hstamped⟩
    cases ref with
    | attachment id =>
        rcases hstamped with ⟨f, hf, rfl, rfl⟩
        exact ⟨attachmentItem f, mem_listing.2 (Or.inl ⟨f, (mem_fileRows_iff hi hf).2 hshows, rfl⟩),
          rfl, rfl⟩
    | hosted id name =>
        rcases hstamped with ⟨r, hr, rfl, rfl, rfl⟩
        -- The row of this room is this row.
        rcases (hi.backed room r.messageId r.imageName).2 hshows with ⟨r', hr', hroom, hid, hname⟩
        have hsame := List.inj_on_of_nodup_map hi.once hr' hr (Prod.ext hid hname)
        subst hsame
        rcases exists_shown hi hr with ⟨s, hs⟩
        rcases Option.map_eq_some_iff.1 hs with ⟨m, -, rfl⟩
        exact ⟨_, mem_listing.2 (Or.inr ⟨_, mem_shownRows.2 ⟨r', hr, hroom, hs⟩, rfl⟩), rfl, rfl⟩

/-- Whatever is shown was recorded at some time. -/
theorem exists_stamped (hi : w.Inv) {ref : Ref} (h : w.Shows room ref) :
    ∃ t, Stamped w.db t ref := by
  cases ref with
  | attachment id =>
      rcases h with ⟨f, hf, hid, -⟩
      exact ⟨_, f, hf, hid, rfl⟩
  | hosted id name =>
      rcases (hi.backed room id name).2 h with ⟨r, hr, -, hid, hname⟩
      exact ⟨_, r, hr, hid, hname, rfl⟩

-- The join keeps the key of a row.
theorem map_shown_sublist (db : Db) (rows : List MediaRow) :
    ((rows.filterMap (shown db)).map fun s => (s.messageId, s.name)).Sublist
      (rows.map MediaRow.key) := by
  induction rows with
  | nil => exact List.Sublist.refl _
  | cons r rows ih =>
      cases hr : shown db r with
      | none =>
          rw [List.filterMap_cons_none hr, List.map_cons]
          exact ih.cons _
      | some s =>
          rcases Option.map_eq_some_iff.1 hr with ⟨m, -, rfl⟩
          rw [List.filterMap_cons_some hr, List.map_cons, List.map_cons]
          exact ih.cons_cons _

/-- Nothing is listed twice. -/
theorem nodup_listing (hi : w.Inv) : ((listing w.db room).map Item.ref).Nodup := by
  have hfiles : ((fileRows w.db room).map FileRow.id).Nodup := by
    rw [fileRows, newestFirst, ((List.perm_insertionSort _ _).map _).nodup_iff, List.map_reverse,
      List.nodup_reverse]
    exact hi.fileIds.sublist (List.filter_sublist.map _)
  have hshown : ((shownRows w.db room).map fun s => (s.messageId, s.name)).Nodup := by
    rw [shownRows, newestFirst, ((List.perm_insertionSort _ _).map _).nodup_iff, List.map_reverse,
      List.nodup_reverse]
    exact (hi.once.sublist (List.filter_sublist.map _)).sublist (map_shown_sublist _ _)
  rw [listing, ((List.perm_insertionSort _ _).map _).nodup_iff, List.map_append, List.map_map,
    List.map_map, List.nodup_append]
  refine ⟨?_, ?_, ?_⟩
  · have hrefs := hfiles.map fun a b (h : Ref.attachment a = Ref.attachment b) => by
      injection h
    rwa [List.map_map] at hrefs
  · have hinj : Function.Injective fun key : String × String => Ref.hosted key.1 key.2 := by
      intro a b h
      injection h with hid hname
      exact Prod.ext hid hname
    have hrefs := hshown.map hinj
    rwa [List.map_map] at hrefs
  · intro ref hfile ref' hhosted
    rcases List.mem_map.1 hfile with ⟨f, -, rfl⟩
    rcases List.mem_map.1 hhosted with ⟨s, -, rfl⟩
    exact fun h => Ref.noConfusion h

end Listed

/-! ### The gallery -/

/-- The pages that were asked for one after the other have what the room shows, newest first and
    nothing twice, but for what has the time of the last item of a page. -/
structure Complete (w : Wall) (room : RoomId) (pages : List Page) : Prop where
  falling : Keyset.Falling Item.createdAtMs (received pages)
  once : ((received pages).map Item.ref).Nodup
  shown : ∀ item ∈ received pages, w.Shows room item.ref
  all : ∀ ref, w.Shows room ref → ∃ t, Stamped w.db t ref ∧
    ((∃ item ∈ received pages, item.ref = ref) ∨
      ∃ page ∈ pages, ∃ last ∈ page.items.getLast?, last.createdAtMs = t)

section

variable {w : Wall} {limit before : Option ℤ}

theorem shows_of_listed (hi : w.Inv) {item : Item} (h : item ∈ listing w.db room) :
    w.Shows room item.ref :=
  ((listed_iff hi item.ref item.createdAtMs).1 ⟨item, h, rfl, rfl⟩).1

/-- A page has nothing that the room does not show. -/
theorem shows_of_page (hi : w.Inv) {item : Item}
    (h : item ∈ (list w.db room limit before).items) : w.Shows room item.ref := by
  rw [list_eq] at h
  exact shows_of_listed hi ((Keyset.past_sublist _ _ _).mem (List.mem_of_mem_take h))

/-- There are more pages exactly if something older than the bound is not on this one. -/
theorem hasMore_iff (hi : w.Inv) : (list w.db room limit before).hasMore = true ↔
    ∃ ref t, w.Shows room ref ∧ Stamped w.db t ref ∧ (∀ bound ∈ before, t < bound) ∧
      ∀ item ∈ (list w.db room limit before).items, item.ref ≠ ref := by
  rw [list_eq, decide_eq_true_iff]
  constructor
  · -- An item behind the page is not on it.
    intro hlong
    have hrest : (Keyset.past Item.createdAtMs (listing w.db room) before).drop
        (pageSize limit) ≠ [] := by
      rw [Ne, List.drop_eq_nil_iff, Nat.not_le]
      exact hlong
    rcases List.exists_mem_of_ne_nil _ hrest with ⟨item, hitem⟩
    have hpast := List.mem_of_mem_drop hitem
    have hbound : ∀ bound ∈ before, item.createdAtMs < bound := by
      intro bound hb
      rw [Option.mem_def.1 hb] at hpast
      exact of_decide_eq_true (List.mem_filter.1 hpast).2
    have hlisted := (Keyset.past_sublist _ _ _).mem hpast
    rcases (listed_iff hi item.ref item.createdAtMs).1 ⟨item, hlisted, rfl, rfl⟩ with
      ⟨hshown, hstamped⟩
    refine ⟨item.ref, item.createdAtMs, hshown, hstamped, hbound, fun other hother => ?_⟩
    have honce := (nodup_listing hi).sublist
      ((Keyset.past_sublist Item.createdAtMs (listing w.db room) before).map Item.ref)
    rw [← List.take_append_drop (pageSize limit) (Keyset.past _ _ _), List.map_append,
      List.nodup_append] at honce
    exact honce.2.2 _ (List.mem_map_of_mem hother) _ (List.mem_map_of_mem hitem)
  · rintro ⟨ref, t, href, ht, hbound, hoff⟩
    rcases (listed_iff hi ref t).2 ⟨href, ht⟩ with ⟨item, hitem, rfl, rfl⟩
    by_contra hshort
    refine hoff item ?_ rfl
    dsimp only
    rw [Keyset.page, List.take_of_length_le (Nat.not_lt.1 hshort), past_listing,
      List.mem_filter, decide_eq_true_iff]
    cases before with
    | none => exact ⟨hitem, stamp_lt_max hitem⟩
    | some bound => exact ⟨hitem, hbound bound rfl⟩

/-- Asking for pages comes to an end, and the pages are complete. -/
theorem exists_complete (hi : w.Inv) (limit : Option ℤ) : ∃ requests pages,
    loadAll w.db room limit requests [] = some pages ∧ Complete w room pages := by
  have hstart : Reading (listing w.db room) [] :=
    ⟨List.nil_sublist _, fun item h => Or.inr (Or.inr h)⟩
  rcases loadAll_spec limit ((listing w.db room).length + 1) [] hstart (by simp [received])
    with ⟨pages, hpages, hordered, hcovered⟩
  refine ⟨_, pages, hpages, falling_listing.sublist hordered,
    (nodup_listing hi).sublist (hordered.map _),
    fun item h => shows_of_listed hi (hordered.mem h), fun ref href => ?_⟩
  rcases exists_stamped hi href with ⟨t, ht⟩
  rcases (listed_iff hi ref t).2 ⟨href, ht⟩ with ⟨item, hitem, rfl, rfl⟩
  refine ⟨_, ht, ?_⟩
  rcases hcovered item hitem with hgot | hpassed
  · exact Or.inl ⟨item, hgot, rfl⟩
  · exact Or.inr hpassed

end

/-- In every state that is reached: asking for pages comes to an end and the pages are complete,
    and every page by itself has nothing that the room does not show, and says that there is more
    exactly if something older is not on it. -/
theorem gallery_lists (calls : List Call) (room : RoomId) (limit : Option ℤ) :
    (∃ requests pages,
      loadAll (Run.run step Wall.empty calls).db room limit requests [] = some pages ∧
        Complete (Run.run step Wall.empty calls) room pages) ∧
    ∀ before, (∀ item ∈ (list (Run.run step Wall.empty calls).db room limit before).items,
        (Run.run step Wall.empty calls).Shows room item.ref) ∧
      ((list (Run.run step Wall.empty calls).db room limit before).hasMore = true ↔
        ∃ ref t, (Run.run step Wall.empty calls).Shows room ref ∧
          Stamped (Run.run step Wall.empty calls).db t ref ∧ (∀ bound ∈ before, t < bound) ∧
          ∀ item ∈ (list (Run.run step Wall.empty calls).db room limit before).items,
            item.ref ≠ ref) :=
  ⟨exists_complete (inv_run calls) limit,
    fun _ => ⟨fun _ h => shows_of_page (inv_run calls) h, hasMore_iff (inv_run calls)⟩⟩

/-! ### One file too many -/

/-- The link to a picture. -/
def oneLink : String := linkTo (digestName 'f' "gif")

/-- A message declares thirty-two pictures and links to another one. -/
def oneTooMany : List Call :=
  [.send "m" Sample.team Sample.alice oneLink false (manyNames.take maxMedia) ⟨1, by decide⟩]

/-- The message can be sent, is live and names the picture, and no page ever has it. -/
theorem thirty_third_unlisted :
    (Validate.messageContent (some oneLink) = .ok oneLink ∧
      mediaNames (some (manyNames.take maxMedia)) = .ok (manyNames.take maxMedia)) ∧
    (Live (Run.run step Wall.empty oneTooMany).db Sample.team "m" ∧
      digestName 'f' "gif" ∈ (Run.run step Wall.empty oneTooMany).names "m") ∧
    ∀ limit before, ∀ item ∈ (list (Run.run step Wall.empty oneTooMany).db Sample.team limit
      before).items, item.ref ≠ .hosted "m" (digestName 'f' "gif") := by
  rcases manyNames_spec with ⟨hvalid, hnodup⟩
  have hfew : ∀ name ∈ manyNames.take maxMedia, isMediaName name = true := fun name h =>
    hvalid name (List.mem_of_mem_take h)
  have hlink : extract oneLink = [digestName 'f' "gif"] := by
    rw [extract_eq]
    decide +kernel
  have hlast : manyNames.drop maxMedia = [digestName 'f' "gif"] := by decide +kernel
  have hnew : digestName 'f' "gif" ∉ manyNames.take maxMedia := by
    rw [← List.take_append_drop maxMedia manyNames, List.nodup_append] at hnodup
    exact fun h => hnodup.2.2 _ h _ (hlast ▸ List.mem_singleton_self _) rfl
  have hnames : (Run.run step Wall.empty oneTooMany).names "m" =
      manyNames.take maxMedia ++ [digestName 'f' "gif"] := by
    have hresolved : Purge.resolveMedia oneLink false (manyNames.take maxMedia) =
        manyNames.take maxMedia ++ [digestName 'f' "gif"] := by
      rw [Purge.resolveMedia, if_neg (by decide), hlink, List.foldl_cons, List.foldl_nil,
        if_neg (by simpa using hnew)]
    exact hresolved
  refine ⟨⟨by decide +kernel, ?_⟩, ⟨⟨_, List.mem_singleton_self _, rfl, rfl, rfl⟩, ?_⟩, ?_⟩
  · refine mediaNames_of_few hfew (hnodup.sublist (List.take_sublist _ _)) ?_
    exact List.length_take_le _ _
  · rw [hnames]
    exact List.mem_append_right _ (List.mem_singleton_self _)
  · intro limit before item hitem href
    have hshown := shows_of_page (inv_run oneTooMany) hitem
    rw [href] at hshown
    have hfirst := hshown.2
    rw [hnames, List.take_append_of_le_length (by decide +kernel), List.take_take] at hfirst
    exact hnew hfirst

end Gallery

end PocketSkynet
