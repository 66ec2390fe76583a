import PocketSkynet.Server.Sample
import PocketSkynet.Server.SearchIndex

/-!
# The Index and the Messages

The message documents of the index against the messages they are of. `Right` says it
for one id: a message that can be found has the document of its present text, and an id
without one has no document. A write to a message touches the document of its own id
and no other, and a purge takes the documents of the messages it takes.

An older database is caught up once, and only as far as the query of `backfill` goes: it
looks for messages that were never edited, and takes white space for text.

## Main definitions

* `Message.indexable`: The message can be displayed, read and has something in it.
* `SearchDb.Mirrors`: The documents are the indexable messages.
* `SearchDb.Valid`: The constraints of the tables.
* `SearchDb.Ready`: What an older database needs for `backfill` to catch it up.

## Theorems

* `inStep_step`: Every write keeps the index in step.
* `inStep_backfill`: `backfill` catches up with a database that is ready.
* `mirrors_iff`: Exactly those databases are mirrored in every state of every run.
-/

namespace PocketSkynet

/-- The message is one that a reader is shown: not deleted, and not an event. -/
def Message.isShown (m : Message) : Bool :=
  !m.isDeleted && m.kind != .emoticonAdd && m.kind != .emoticonRemove && m.kind != .deleteAll

/-- A message with a text to search. -/
def Message.indexable (m : Message) : Bool := m.isShown && !m.isEncrypted && !isBlank m.content

namespace SearchDb

variable (u : CharClasses)

/-- The document is the one of the message, with its text and its tags. -/
structure Documents (s : SearchDb) (d : SearchDoc) (m : Message) : Prop where
  kind : d.kind = .message
  refId : d.refId = m.id.str
  text : d.text = m.content
  tags : d.tags = " ".intercalate (hashtags u m.content)
  rows : ∀ tag, (tag, d.id) ∈ s.hashtagRows ↔ tag ∈ hashtags u m.content

/-- The message documents are the indexable messages, each once. Nothing is left of a
    message that is encrypted or deleted, and to fill the index again changes nothing. -/
structure Mirrors (s : SearchDb) : Prop where
  sound : ∀ d ∈ s.docs, d.kind = .message →
    ∃ room m, s.streams.Has room m ∧ m.indexable = true ∧ s.Documents u d m
  complete : ∀ room m, s.streams.Has room m → m.indexable = true →
    ∃ d ∈ s.docs, s.Documents u d m
  once : Table.Keyed SearchDoc.key s.docs
  silent : ∀ room m, s.streams.Has room m → m.indexable = false →
    ∀ d ∈ s.docs, d.kind = .message → d.refId ≠ m.id.str
  again : s.backfill u = (0, s)

/-- The constraints of the tables: keys are unique, ids are never used again, and a row
    of a tag belongs to a document. -/
structure Valid (s : SearchDb) : Prop where
  distinct : s.streams.Distinct
  keyed : Table.Keyed SearchDoc.key s.docs
  ids : Table.Keyed SearchDoc.id s.docs
  below : ∀ d ∈ s.docs, d.id < s.nextDoc
  owned : ∀ row ∈ s.hashtagRows, ∃ d ∈ s.docs, d.id = row.2

/-- No message as it was first sent is a text of white space. -/
def Written (ss : Streams) : Prop :=
  ∀ room m, ss.Has room m → m.kind = .add → m.isDeleted = false → m.isEncrypted = false →
    m.content ≠ "" → isBlank m.content = false

/-- What an older database needs: the message documents that it has are right, and so is
    their room; a message that is not as it was first sent has its document; and no
    message that was never edited is a text of white space. -/
structure Ready (s : SearchDb) : Prop where
  right : ∀ d ∈ s.docs, d.kind = .message → ∃ room m, s.streams.Has room m ∧
    m.indexable = true ∧ s.Documents u d m ∧ d.roomId = some room
  edited : ∀ room m, s.streams.Has room m → m.indexable = true → m.kind ≠ .add →
    ∃ d ∈ s.docs, d.kind = .message ∧ d.refId = m.id.str
  written : Written s.streams

/-- The document under the id of a message. -/
def doc? (s : SearchDb) (id : MessageId) : Option SearchDoc :=
  Table.lookup SearchDoc.key (.message, id.str) s.docs

/-- The index is right about an id. -/
structure Right (s : SearchDb) (id : MessageId) : Prop where
  found : ∀ room m, s.streams.Has room m → m.id = id → m.indexable = true →
    ∃ d, s.doc? id = some d ∧ d.roomId = some room ∧ s.Documents u d m
  nothing : (∀ room m, s.streams.Has room m → m.id = id → m.indexable = false) →
    s.doc? id = none

/-- The invariant of the tables. -/
structure InStep (s : SearchDb) : Prop where
  valid : s.Valid
  right : ∀ id, s.Right u id
  written : Written s.streams

variable {u} {s s' : SearchDb}

theorem doc?_of_mem (hv : s.Valid) {d : SearchDoc} (hd : d ∈ s.docs) (hkind : d.kind = .message)
    {id : MessageId} (hid : d.refId = id.str) : s.doc? id = some d := by
  have hkey : d.key = (.message, id.str) := by rw [SearchDoc.key, hkind, hid]
  rw [doc?, ← hkey, Table.lookup_of_mem hv.keyed hd]

theorem mem_of_doc? {d : SearchDoc} {id : MessageId} (h : s.doc? id = some d) :
    d ∈ s.docs ∧ d.kind = .message ∧ d.refId = id.str := by
  have hkey := Table.key_of_lookup h
  exact ⟨Table.mem_of_lookup h, congrArg Prod.fst hkey, congrArg Prod.snd hkey⟩

theorem eq_of_str {a b : MessageId} (h : a.str = b.str) : a = b := by
  cases a
  cases b
  exact congrArg MessageId.mk h

/-! ### The writes to the index -/

section Upsert

variable {kind : DocKind} {refId : String} {roomId : Option RoomId}
  {sender : Option WalletAddress} {ts : Nat} {body : String}

theorem lookup_upsertDoc (k : DocKind × String) :
    Table.lookup SearchDoc.key k (s.upsertDoc u kind refId roomId sender ts body).docs =
      if k = (kind, refId) then some (s.newDoc u kind refId roomId sender ts body)
      else Table.lookup SearchDoc.key k s.docs :=
  Table.lookup_upsert k _ s.docs

-- The rows of a document's tags after they have been written.
theorem mem_foldl_insertNew (tags : List String) (i : Nat) (rows : List (String × Nat))
    (row : String × Nat) :
    row ∈ tags.foldl (fun rows tag => Table.insertNew id (tag, i) rows) rows ↔
      row ∈ rows ∨ (row.2 = i ∧ row.1 ∈ tags) := by
  induction tags generalizing rows with
  | nil => simp
  | cons tag tags ih =>
      have hone : row ∈ Table.insertNew id (tag, i) rows ↔ row ∈ rows ∨ row = (tag, i) := by
        unfold Table.insertNew
        split
        next htaken =>
          rcases Table.lookup_isSome.1 htaken with ⟨old, hold, he⟩
          have he' : old = (tag, i) := he
          constructor
          · exact Or.inl
          · rintro (hrow | rfl)
            · exact hrow
            · exact he' ▸ hold
        next => simp
      rw [List.foldl_cons, ih, hone, Prod.ext_iff, List.mem_cons]
      tauto

theorem mem_hashtagRows_upsertDoc (row : String × Nat) :
    row ∈ (s.upsertDoc u kind refId roomId sender ts body).hashtagRows ↔
      if row.2 = (s.newDoc u kind refId roomId sender ts body).id then row.1 ∈ hashtags u body
      else row ∈ s.hashtagRows := by
  simp only [upsertDoc]
  rw [mem_foldl_insertNew, List.mem_filter, decide_eq_true_iff]
  split
  next h => simp [h]
  next h => simp [h]

-- A document under another key has another id.
theorem id_newDoc_ne (hv : s.Valid) {d : SearchDoc} (hd : d ∈ s.docs)
    (hkey : d.key ≠ (kind, refId)) :
    d.id ≠ (s.newDoc u kind refId roomId sender ts body).id := by
  intro he
  simp only [newDoc] at he
  cases hold : Table.lookup SearchDoc.key (kind, refId) s.docs with
  | none =>
      rw [hold, Option.map_none, Option.getD_none] at he
      have hlt := hv.below d hd
      omega
  | some old =>
      rw [hold, Option.map_some, Option.getD_some] at he
      have hsame := Table.lookup_of_mem hv.ids hd
      rw [he, Table.lookup_of_mem hv.ids (Table.mem_of_lookup hold)] at hsame
      exact hkey ((Option.some.inj hsame) ▸ Table.key_of_lookup hold)

-- A document that is left alone keeps its place and the rows of its tags.
theorem upsertDoc_frame (hv : s.Valid) {d : SearchDoc} (hd : d ∈ s.docs)
    (hkey : d.key ≠ (kind, refId)) :
    d ∈ (s.upsertDoc u kind refId roomId sender ts body).docs ∧
      ∀ tag, (tag, d.id) ∈ (s.upsertDoc u kind refId roomId sender ts body).hashtagRows ↔
        (tag, d.id) ∈ s.hashtagRows := by
  refine ⟨?_, fun tag => ?_⟩
  · have hlookup : Table.lookup SearchDoc.key d.key
        (s.upsertDoc u kind refId roomId sender ts body).docs = _ := lookup_upsertDoc d.key
    rw [if_neg hkey, Table.lookup_of_mem hv.keyed hd] at hlookup
    exact Table.mem_of_lookup hlookup
  · rw [mem_hashtagRows_upsertDoc, if_neg (id_newDoc_ne hv hd hkey)]

theorem mem_upsertDoc {d : SearchDoc}
    (hd : d ∈ (s.upsertDoc u kind refId roomId sender ts body).docs) :
    d = s.newDoc u kind refId roomId sender ts body ∨ d ∈ s.docs :=
  Table.mem_of_mem_upsert hd

theorem valid_upsertDoc (hv : s.Valid) :
    (s.upsertDoc u kind refId roomId sender ts body).Valid where
  distinct := hv.distinct
  keyed := Table.keyed_upsert _ hv.keyed
  ids := by
    refine Table.keyed_upsert_of hv.ids (fun d hd hkey => ?_) fun hnone => ?_
    · -- The document under the key already has the id.
      have hkey' : d.key = (kind, refId) := hkey
      have hold : Table.lookup SearchDoc.key (kind, refId) s.docs = some d :=
        hkey' ▸ Table.lookup_of_mem hv.keyed hd
      simp [newDoc, hold]
    · have hfresh : Table.lookup SearchDoc.key (kind, refId) s.docs = none := hnone
      rw [Table.lookup_eq_none]
      intro d hd he
      have hlt := hv.below d hd
      simp only [newDoc, hfresh, Option.map_none, Option.getD_none] at he
      omega
  below := by
    intro d hd
    have hnext : (s.upsertDoc u kind refId roomId sender ts body).nextDoc =
        max s.nextDoc ((s.newDoc u kind refId roomId sender ts body).id + 1) := rfl
    rw [hnext]
    rcases mem_upsertDoc hd with rfl | hold
    · omega
    · have hlt := hv.below d hold
      omega
  owned := by
    intro row hrow
    rw [mem_hashtagRows_upsertDoc] at hrow
    split at hrow
    next hid =>
      refine ⟨s.newDoc u kind refId roomId sender ts body, ?_, hid.symm⟩
      have hlookup : Table.lookup SearchDoc.key (kind, refId)
          (s.upsertDoc u kind refId roomId sender ts body).docs = _ := lookup_upsertDoc _
      rw [if_pos rfl] at hlookup
      exact Table.mem_of_lookup hlookup
    next hid =>
      rcases hv.owned row hrow with ⟨d, hd, hdid⟩
      refine ⟨d, (upsertDoc_frame hv hd fun hkey => hid ?_).1, hdid⟩
      have hold : Table.lookup SearchDoc.key (kind, refId) s.docs = some d :=
        hkey ▸ Table.lookup_of_mem hv.keyed hd
      simp [newDoc, hold, hdid]

end Upsert

/-- The constraints do not look at the messages beyond their ids. -/
theorem valid_streams (hv : s.Valid) {ss : Streams} (hd : ss.Distinct) :
    Valid { s with streams := ss } :=
  ⟨hd, hv.keyed, hv.ids, hv.below, hv.owned⟩

theorem valid_deleteDocs (hv : s.Valid) (p : SearchDoc → Bool) : (s.deleteDocs p).Valid where
  distinct := hv.distinct
  keyed := Table.keyed_filter _ hv.keyed
  ids := Table.keyed_filter _ hv.ids
  below := fun d hd => hv.below d (List.mem_of_mem_filter hd)
  owned := by
    intro row hrow
    rcases List.mem_filter.1 hrow with ⟨hrow, hleft⟩
    rcases hv.owned row hrow with ⟨d, hd, hid⟩
    refine ⟨d, List.mem_filter.2 ⟨hd, ?_⟩, hid⟩
    have hkept := (List.any_eq_false.1 (Bool.not_eq_true' _ ▸ hleft)) d hd
    simpa [hid] using hkept

-- A document that is kept keeps the rows of its tags.
theorem deleteDocs_frame (hv : s.Valid) {p : SearchDoc → Bool} {d : SearchDoc} (hd : d ∈ s.docs)
    (hp : p d = false) (tag : String) :
    (tag, d.id) ∈ (s.deleteDocs p).hashtagRows ↔ (tag, d.id) ∈ s.hashtagRows := by
  refine ⟨fun h => List.mem_of_mem_filter h, fun h => List.mem_filter.2 ⟨h, ?_⟩⟩
  rw [Bool.not_eq_true', List.any_eq_false]
  intro e he hboth
  simp only [Bool.and_eq_true, decide_eq_true_eq] at hboth
  have hsame := Table.lookup_of_mem hv.ids he
  rw [hboth.2, Table.lookup_of_mem hv.ids hd] at hsame
  rw [← Option.some.inj hsame, hp] at hboth
  cases hboth.1

theorem doc?_deleteDocs (hv : s.Valid) (p : SearchDoc → Bool) (id : MessageId) :
    (s.deleteDocs p).doc? id = (s.doc? id).filter fun d => !p d :=
  Table.lookup_filter_of_keyed hv.keyed _ _

/-! ### One id at a time -/

-- What is right about an id stays right where neither its message nor its document changes.
theorem right_frame {id : MessageId} (hs : s.Right u id)
    (hrows : ∀ room m, m.id = id → (s'.streams.Has room m ↔ s.streams.Has room m))
    (hdoc : s'.doc? id = s.doc? id)
    (htags : ∀ d, s.doc? id = some d → ∀ tag,
      ((tag, d.id) ∈ s'.hashtagRows ↔ (tag, d.id) ∈ s.hashtagRows)) : s'.Right u id where
  found := by
    intro room m hm hid hindex
    rcases hs.found room m ((hrows room m hid).1 hm) hid hindex with ⟨d, hd, hroom, hof⟩
    refine ⟨d, hdoc.trans hd, hroom, hof.kind, hof.refId, hof.text, hof.tags, fun tag => ?_⟩
    exact (htags d hd tag).trans (hof.rows tag)
  nothing := by
    intro hnone
    rw [hdoc]
    exact hs.nothing fun room m hm hid => hnone room m ((hrows room m hid).2 hm) hid

section Message

variable {room : RoomId} {m : Message} {sender : Option WalletAddress} {ts : Nat}

-- The document that is written for a message.
theorem doc?_upsertDoc (id : MessageId) (content : String) :
    (s.upsertDoc u .message m.id.str (some room) sender ts content).doc? id =
      if id = m.id then some (s.newDoc u .message m.id.str (some room) sender ts content)
      else s.doc? id := by
  rw [doc?, lookup_upsertDoc]
  by_cases hid : id = m.id
  · rw [if_pos (by rw [hid]), if_pos hid]
  · rw [if_neg fun he => hid (eq_of_str (congrArg Prod.snd he)), if_neg hid, doc?]

/-- To write the document of a message puts its own id right. -/
theorem right_upsertDoc (hv : s.Valid) (hm : s.streams.Has room m)
    (hindex : m.indexable = true) :
    (s.upsertDoc u .message m.id.str (some room) sender ts m.content).Right u m.id where
  found := by
    intro room' m' hm' hid _
    rcases hv.distinct.eq_of_id hm' hm hid with ⟨rfl, rfl⟩
    refine ⟨_, by rw [doc?_upsertDoc, if_pos rfl], rfl, rfl, rfl, rfl, rfl, fun tag => ?_⟩
    rw [mem_hashtagRows_upsertDoc, if_pos rfl]
  nothing := by
    intro hnone
    rw [hnone room m hm rfl] at hindex
    cases hindex

/-- And it leaves every other id as it is. -/
theorem right_upsertDoc_of_ne (hv : s.Valid) {id : MessageId} (hs : s.Right u id)
    (hne : id ≠ m.id) (content : String) :
    (s.upsertDoc u .message m.id.str (some room) sender ts content).Right u id := by
  refine right_frame hs (fun _ _ _ => Iff.rfl) (by rw [doc?_upsertDoc, if_neg hne]) ?_
  intro d hd tag
  rcases mem_of_doc? hd with ⟨hmem, -, hid⟩
  refine (upsertDoc_frame hv hmem fun hkey => hne ?_).2 tag
  exact eq_of_str (hid.symm.trans (congrArg Prod.snd hkey))

/-- To take the document of a message away is right once it cannot be found. -/
theorem right_unindex (hv : s.Valid)
    (hnone : ∀ room' m', s.streams.Has room' m' → m'.id = m.id → m'.indexable = false) :
    (s.unindex .message m.id.str).Right u m.id where
  found := by
    intro room' m' hm' hid hindex
    rw [hnone room' m' hm' hid] at hindex
    cases hindex
  nothing := by
    intro _
    rw [unindex, doc?_deleteDocs hv]
    cases hd : s.doc? m.id with
    | none => rfl
    | some d =>
        rcases mem_of_doc? hd with ⟨-, hkind, hid⟩
        simp [hkind, hid]

theorem right_unindex_of_ne (hv : s.Valid) {id : MessageId} (hs : s.Right u id)
    (hne : id ≠ m.id) : (s.unindex .message m.id.str).Right u id := by
  -- The document of the other id has another key.
  have hkept : ∀ d, s.doc? id = some d →
      (decide (d.kind = .message) && decide (d.refId = m.id.str)) = false := by
    intro d hd
    rcases mem_of_doc? hd with ⟨-, -, hid⟩
    rw [Bool.and_eq_false_iff, decide_eq_false_iff_not, decide_eq_false_iff_not]
    exact Or.inr fun he => hne (eq_of_str (hid.symm.trans he))
  refine right_frame hs (fun _ _ _ => Iff.rfl) ?_ fun d hd tag => ?_
  · rw [unindex, doc?_deleteDocs hv]
    cases hd : s.doc? id with
    | none => rfl
    | some d => rw [Option.filter_some, hkept d hd, Bool.not_false, if_pos rfl]
  · exact deleteDocs_frame hv (mem_of_doc? hd).1 (hkept d hd) tag

end Message

/-- A room that keeps nothing to index loses its documents, and that is right. -/
theorem right_unindexRoom (hv : s.Valid) (hs : ∀ id, s.Right u id) {room : RoomId}
    {ss : Streams} (hrows : ∀ r m, r ≠ room → (ss.Has r m ↔ s.streams.Has r m))
    (hroom : ∀ m, ss.Has room m → m.indexable = false) (id : MessageId) :
    ({ s with streams := ss }.unindexRoomMessages room).Right u id := by
  have hdoc : ({ s with streams := ss }.unindexRoomMessages room).doc? id =
      (s.doc? id).filter fun d => !(decide (d.kind = .message) && decide (d.roomId = some room)) :=
    Table.lookup_filter_of_keyed hv.keyed _ _
  refine ⟨fun r m hm hid hindex => ?_, fun hnone => ?_⟩
  · have hr : r ≠ room := by
      rintro rfl
      rw [hroom m hm] at hindex
      cases hindex
    rcases (hs id).found r m ((hrows r m hr).1 hm) hid hindex with ⟨d, hd, hdroom, hof⟩
    have hkept : (decide (d.kind = .message) && decide (d.roomId = some room)) = false := by
      simp [hdroom, hr]
    refine ⟨d, by rw [hdoc, hd, Option.filter_some, hkept, Bool.not_false, if_pos rfl], hdroom,
      hof.kind, hof.refId, hof.text, hof.tags, fun tag => ?_⟩
    exact (deleteDocs_frame hv (mem_of_doc? hd).1 hkept tag).trans (hof.rows tag)
  · rw [hdoc]
    cases hd : s.doc? id with
    | none => rfl
    | some d =>
        -- The document is of a message that was found, and that was in this room.
        by_cases hfound : ∃ r m, s.streams.Has r m ∧ m.id = id ∧ m.indexable = true
        · rcases hfound with ⟨r, m, hm, hid, hindex⟩
          rcases (hs id).found r m hm hid hindex with ⟨d', hd', hdroom, hof⟩
          cases hd.symm.trans hd'
          by_cases hr : r = room
          · simp [hof.kind, hdroom, hr]
          · have hleft := hnone r m ((hrows r m hr).2 hm) hid
            rw [hleft] at hindex
            cases hindex
        · have hgone := (hs id).nothing fun r m hm hid => by
            by_contra hindex
            exact hfound ⟨r, m, hm, hid, by simpa using hindex⟩
          rw [hd] at hgone
          cases hgone

-- Where no message has an id, there is no document under it.
theorem doc?_of_free {id : MessageId} (hs : s.Right u id)
    (hfree : ∀ r m, s.streams.Has r m → m.id ≠ id) : s.doc? id = none :=
  hs.nothing fun r m hm hid => absurd hid (hfree r m hm)

/-! ### What each write keeps -/

theorem inStep_createMessage (hs : s.InStep u) {room : RoomId} {now : Nat} {new : NewMessage}
    (hcontent : isBlank new.content = false) (h : s.createMessage u room now new = some s') :
    s'.InStep u := by
  simp only [createMessage, Option.bind_eq_bind, Option.bind_eq_some_iff, Option.pure_def,
    Option.some.injEq] at h
  rcases h with ⟨ss, htx, ⟨room', m⟩, hrow, rfl⟩
  have hd := Streams.distinct_transact hs.valid.distinct htx
  have hv : Valid { s with streams := ss } := valid_streams hs.valid hd
  rcases Streams.has_createMessage hs.valid.distinct htx with ⟨hfree, n, hafter⟩
  rcases (Streams.row?_eq_some hd).1 hrow with ⟨hm, hmid⟩
  have hnew : m = Stream.newRow new now n ∧ room' = room := by
    rcases (hafter room' m).1 hm with hold | ⟨hr, hm'⟩
    · exact absurd hmid (hfree room' m hold)
    · exact ⟨hm', hr⟩
  rcases hnew with ⟨rfl, rfl⟩
  have hwritten : Written ss := by
    intro r x hx hkind hlive hplain hne
    rcases (hafter r x).1 hx with hold | ⟨-, rfl⟩
    · exact hs.written r x hold hkind hlive hplain hne
    · exact hcontent
  -- Before the index is written, it is right about every other id.
  have hothers : ∀ id, id ≠ new.id → Right u { s with streams := ss } id := by
    intro id hne
    refine right_frame (hs.right id) (fun r x hx => ?_) rfl fun _ _ _ => Iff.rfl
    rw [hafter r x]
    constructor
    · rintro (hold | ⟨-, rfl⟩)
      · exact hold
      · exact absurd hx.symm hne
    · exact Or.inl
  unfold indexMessage
  split
  next hskip =>
    have hgone : s.doc? new.id = none := doc?_of_free (hs.right _) hfree
    refine ⟨hv, fun id => ?_, hwritten⟩
    by_cases hid : id = new.id
    · subst hid
      refine ⟨fun r x hx hxid hindex => ?_, fun _ => hgone⟩
      rcases hd.eq_of_id hx hm hxid with ⟨-, rfl⟩
      simp only [Message.indexable, Stream.newRow, Message.isShown] at hindex hskip
      simp_all
    · exact hothers id hid
  next hindexed =>
    have hindex : (Stream.newRow new now n).indexable = true := by
      simp only [Message.indexable, Stream.newRow, Message.isShown] at hindexed ⊢
      simp_all
    refine ⟨valid_upsertDoc hv, fun id => ?_, hwritten⟩
    by_cases hid : id = new.id
    · subst hid
      exact right_upsertDoc hv hm hindex
    · exact right_upsertDoc_of_ne hv (hothers id hid) hid _

-- Where one row is replaced by another with its id, nothing changes for other ids.
theorem right_replaced (hs : s.InStep u) {room : RoomId} {id : MessageId} {w : Message}
    {ss : Streams} (hw : w.id = id)
    (hafter : ∀ r x, ss.Has r x ↔ (s.streams.Has r x ∧ x.id ≠ id) ∨ (r = room ∧ x = w))
    {id' : MessageId} (hne : id' ≠ id) : Right u { s with streams := ss } id' := by
  refine right_frame (hs.right id') (fun r x hx => ?_) rfl fun _ _ _ => Iff.rfl
  rw [hafter r x]
  constructor
  · rintro (⟨hold, -⟩ | ⟨-, rfl⟩)
    · exact hold
    · exact absurd (hx.symm.trans hw) hne
  · exact fun hold => Or.inl ⟨hold, fun he => hne (hx.symm.trans he)⟩

theorem written_replaced (hs : s.InStep u) {room : RoomId} {id : MessageId} {w : Message}
    {ss : Streams}
    (hafter : ∀ r x, ss.Has r x ↔ (s.streams.Has r x ∧ x.id ≠ id) ∨ (r = room ∧ x = w))
    (hw : w.kind = .add → w.isDeleted = false → w.isEncrypted = false → w.content ≠ "" →
      isBlank w.content = false) : Written ss := by
  intro r x hx
  rcases (hafter r x).1 hx with ⟨hold, -⟩ | ⟨-, rfl⟩
  · exact hs.written r x hold
  · exact hw

theorem inStep_updateMessage (hs : s.InStep u) {room : RoomId} {now : Nat} {id : MessageId}
    {edit : MessageEdit} (h : s.updateMessage u room now id edit = some s') : s'.InStep u := by
  simp only [updateMessage, Option.bind_eq_bind, Option.bind_eq_some_iff, Option.pure_def,
    Option.some.injEq] at h
  rcases h with ⟨ss, htx, ⟨room', m⟩, hrow, rfl⟩
  have hd := Streams.distinct_transact hs.valid.distinct htx
  have hv : Valid { s with streams := ss } := valid_streams hs.valid hd
  rcases Streams.has_updateMessage hs.valid.distinct htx with ⟨n, y, -, hyid, hlive, hafter⟩
  rcases (Streams.row?_eq_some hd).1 hrow with ⟨hm, rfl⟩
  have hedited : m = Stream.editRow edit now n y ∧ room' = room := by
    rcases (hafter room' m).1 hm with ⟨-, hne⟩ | ⟨hr, hm'⟩
    · exact absurd rfl hne
    · exact ⟨hm', hr⟩
  rcases hedited with ⟨hedited, rfl⟩
  have hkind : m.kind = .edit := by rw [hedited]; rfl
  have hnotdeleted : m.isDeleted = false := by rw [hedited]; exact hlive
  have hwritten : Written ss := by
    refine written_replaced hs hafter fun hadd => ?_
    rw [← hedited, hkind] at hadd
    cases hadd
  have hw : (Stream.editRow edit now n y).id = m.id := hyid
  have hothers : ∀ id, id ≠ m.id → Right u { s with streams := ss } id :=
    fun id hne => right_replaced hs hw hafter hne
  unfold reindexMessage
  split
  next hskip =>
    have hindex : m.indexable = false := by
      simp only [Message.indexable, Bool.or_eq_true] at hskip ⊢
      rcases hskip with hskip | hskip <;> simp [hskip]
    refine ⟨valid_deleteDocs hv _, fun id => ?_, hwritten⟩
    by_cases hid : id = m.id
    · subst hid
      refine right_unindex hv fun r x hx hxid => ?_
      rw [(hd.eq_of_id hx hm hxid).2, hindex]
    · exact right_unindex_of_ne hv (hothers id hid) hid
  next hindexed =>
    have hindex : m.indexable = true := by
      simp only [Bool.or_eq_true, not_or, Bool.not_eq_true] at hindexed
      simp [Message.indexable, Message.isShown, hkind, hnotdeleted, hindexed]
    refine ⟨valid_upsertDoc hv, fun id => ?_, hwritten⟩
    by_cases hid : id = m.id
    · subst hid
      exact right_upsertDoc hv hm hindex
    · exact right_upsertDoc_of_ne hv (hothers id hid) hid _

theorem inStep_softDeleteMessage (hs : s.InStep u) {room : RoomId} {now : Nat}
    {id : MessageId} (h : s.softDeleteMessage room now id = some s') : s'.InStep u := by
  simp only [softDeleteMessage, Option.bind_eq_bind, Option.bind_eq_some_iff,
    Option.pure_def, Option.some.injEq] at h
  rcases h with ⟨ss, htx, rfl⟩
  have hd := Streams.distinct_transact hs.valid.distinct htx
  have hv : Valid { s with streams := ss } := valid_streams hs.valid hd
  rcases Streams.has_softDeleteMessage hs.valid.distinct htx with
    ⟨hchanged, hafter⟩ | ⟨hchanged, n, y, -, hyid, hafter⟩
  · rw [hchanged, if_neg Bool.false_ne_true]
    refine ⟨hv, fun id => ?_, fun r x hx => hs.written r x ((hafter r x).1 hx)⟩
    exact right_frame (hs.right id) (fun r x _ => hafter r x) rfl fun _ _ _ => Iff.rfl
  · rw [hchanged, if_pos rfl]
    have hw : (Stream.deleteRow n y).id = id := hyid
    have hgone : (Stream.deleteRow n y).indexable = false := rfl
    have hmem : ss.Has room (Stream.deleteRow n y) := (hafter _ _).2 (Or.inr ⟨rfl, rfl⟩)
    rw [← hw]
    refine ⟨valid_deleteDocs hv _, fun id' => ?_, ?_⟩
    · by_cases hid : id' = (Stream.deleteRow n y).id
      · subst hid
        refine right_unindex hv fun r x hx hxid => ?_
        rw [(hd.eq_of_id hx hmem hxid).2, hgone]
      · exact right_unindex_of_ne hv (right_replaced hs hw hafter (hw ▸ hid)) hid
    · refine written_replaced hs hafter fun hadd => ?_
      cases hadd

theorem inStep_deleteAllMessages (hs : s.InStep u) {room : RoomId} {now : Nat}
    {caller : WalletAddress} {markerId : MessageId}
    (h : s.deleteAllMessages room now caller markerId = some s') : s'.InStep u := by
  simp only [deleteAllMessages, Option.bind_eq_bind, Option.bind_eq_some_iff,
    Option.pure_def, Option.some.injEq] at h
  rcases h with ⟨ss, htx, rfl⟩
  have hd := Streams.distinct_transact hs.valid.distinct htx
  rcases Streams.has_deleteAllMessages htx with ⟨n, hafter⟩
  refine ⟨valid_deleteDocs (valid_streams hs.valid hd) _, ?_, fun r x hx => ?_⟩
  · refine right_unindexRoom hs.valid hs.right (fun r x hr => ?_) fun x hx => ?_
    · rw [hafter]
      simp [hr]
    · rcases (hafter room x).1 hx with ⟨-, hne⟩ | ⟨-, rfl⟩
      · exact absurd rfl hne
      · rfl
  · rcases (hafter r x).1 hx with ⟨hold, -⟩ | ⟨-, rfl⟩
    · exact hs.written r x hold
    · intro hadd
      cases hadd

theorem inStep_deleteRoom (hs : s.InStep u) (room : RoomId) : (s.deleteRoom room).InStep u := by
  have hd : (s.streams.deleteRoom room).Distinct :=
    Streams.distinct_deleteRoom hs.valid.distinct
  refine ⟨valid_deleteDocs (valid_streams hs.valid hd) _, ?_, fun r x hx => ?_⟩
  · refine right_unindexRoom hs.valid hs.right (fun r x hr => ?_) fun x hx => ?_
    · rw [Streams.has_deleteRoom]
      simp [hr]
    · exact absurd rfl (Streams.has_deleteRoom.1 hx).2
  · exact hs.written r x (Streams.has_deleteRoom.1 hx).1

/-- A message that is anchored is indexed as before. -/
theorem inStep_publish (hs : s.InStep u) {room : RoomId} {now : Nat} {id : MessageId}
    {txHash : String} (h : s.write room (.publishTxHash now id txHash) = some s') :
    s'.InStep u := by
  rcases Option.map_eq_some_iff.1 h with ⟨ss, htx, rfl⟩
  have hd := Streams.distinct_transact hs.valid.distinct htx
  rcases Streams.has_publishTxHash hs.valid.distinct htx with ⟨n, y, hy, hyid, -, hafter⟩
  have hw : (Stream.publishRow txHash n y).id = id := hyid
  refine ⟨valid_streams hs.valid hd, fun id' => ?_, written_replaced hs hafter ?_⟩
  · by_cases hid : id' = id
    · subst hid
      have hmem : ss.Has room (Stream.publishRow txHash n y) := (hafter _ _).2 (Or.inr ⟨rfl, rfl⟩)
      refine ⟨fun r x hx hxid hindex => ?_, fun hnone => ?_⟩
      · rcases hd.eq_of_id hx hmem (hxid.trans hw.symm) with ⟨rfl, rfl⟩
        rcases (hs.right id').found r y hy hyid hindex with ⟨d, hdoc, hroom, hof⟩
        exact ⟨d, hdoc, hroom, hof.kind, hof.refId, hof.text, hof.tags, hof.rows⟩
      · refine (hs.right id').nothing fun r x hx hxid => ?_
        rw [(hs.valid.distinct.eq_of_id hx hy (hxid.trans hyid.symm)).2]
        exact hnone room (Stream.publishRow txHash n y) hmem hw
    · exact right_replaced hs hw hafter hid
  · exact hs.written room y hy

/-- A reaction event is nothing to index. -/
theorem inStep_react (hs : s.InStep u) {room : RoomId} {now : Nat} {id : MessageId}
    {sender : WalletAddress} {target : MessageId} {code msgHash : String} {add : Bool}
    (h : s.write room (.createEmoticonEvent now id sender target code msgHash add) = some s') :
    s'.InStep u := by
  rcases Option.map_eq_some_iff.1 h with ⟨ss, htx, rfl⟩
  have hd := Streams.distinct_transact hs.valid.distinct htx
  rcases Streams.has_createEmoticonEvent hs.valid.distinct htx with ⟨hfree, n, hafter⟩
  have hevent : (Stream.eventRow id sender msgHash now n
      (if add then .emoticonAdd else .emoticonRemove) (some target) (some code)).indexable =
        false := by
    cases add <;> rfl
  refine ⟨valid_streams hs.valid hd, fun id' => ?_, fun r x hx => ?_⟩
  · by_cases hid : id' = id
    · subst hid
      have hgone : s.doc? id' = none := doc?_of_free (hs.right _) hfree
      refine ⟨fun r x hx hxid hindex => ?_, fun _ => hgone⟩
      rcases (hafter r x).1 hx with hold | ⟨-, rfl⟩
      · exact absurd hxid (hfree r x hold)
      · rw [hevent] at hindex
        cases hindex
    · refine right_frame (hs.right id') (fun r x hx => ?_) rfl fun _ _ _ => Iff.rfl
      rw [hafter r x]
      constructor
      · rintro (hold | ⟨-, rfl⟩)
        · exact hold
        · exact absurd hx.symm hid
      · exact Or.inl
  · rcases (hafter r x).1 hx with hold | ⟨-, rfl⟩
    · exact hs.written r x hold
    · intro hadd
      cases add <;> cases hadd

-- A body that passes the check is not blank.
theorem isBlank_messageContent {raw : Option String} {content : String}
    (h : messageContent raw = .ok content) : isBlank content = false := by
  simp only [messageContent, bind_eq_ok, pure_eq_ok, ensure_eq_ok, orRefuse_eq_ok] at h
  rcases h with ⟨text, -, -, hlength, -, -, rfl⟩
  rw [isBlank_trimmed, isBlank]
  cases htrim : trim text.toList with
  | nil => simp [trimmed, htrim] at hlength
  | cons c cs => rfl

-- What a write commits keeps the invariant, and a write that fails changes nothing.
theorem inStep_getD (hs : s.InStep u) {x : Option SearchDb}
    (h : ∀ s', x = some s' → s'.InStep u) : (x.getD s).InStep u := by
  cases x with
  | none => exact hs
  | some s' => exact h s' rfl

/-- Every write keeps the index in step. -/
theorem inStep_step (s : SearchDb) (c : Change) (hs : s.InStep u) : (s.step u c).InStep u := by
  cases c with
  | createRoom room =>
      refine ⟨valid_streams hs.valid (Streams.distinct_createRoom hs.valid.distinct),
        fun id => ?_, fun r x hx => hs.written r x (Streams.has_createRoom.1 hx)⟩
      exact right_frame (hs.right id) (fun _ _ _ => Streams.has_createRoom) rfl
        fun _ _ _ => Iff.rfl
  | create room now new =>
      simp only [step]
      cases hcontent : messageContent (some new.content) with
      | error e => exact hs
      | ok content =>
          exact inStep_getD hs fun _ h =>
            inStep_createMessage hs (isBlank_messageContent hcontent) h
  | edit room now id body =>
      simp only [step]
      cases messageContent (some body.content) with
      | error e => exact hs
      | ok content => exact inStep_getD hs fun _ h => inStep_updateMessage hs h
  | remove room now id => exact inStep_getD hs fun _ h => inStep_softDeleteMessage hs h
  | purge room now caller markerId =>
      exact inStep_getD hs fun _ h => inStep_deleteAllMessages hs h
  | destroy room => exact inStep_deleteRoom hs room
  | publish room now id txHash => exact inStep_getD hs fun _ h => inStep_publish hs h
  | react room now id sender target code msgHash add =>
      exact inStep_getD hs fun _ h => inStep_react hs h

/-! ### Catching up -/

-- The messages of a database are the rows of its rooms.
theorem mem_messages (hd : s.streams.Distinct) {p : RoomId × Message} :
    p ∈ s.messages ↔ s.streams.Has p.1 p.2 := by
  unfold messages
  rw [List.mem_flatMap]
  constructor
  · rintro ⟨q, hq, hp⟩
    rcases List.mem_map.1 hp with ⟨m, hm, rfl⟩
    exact ⟨q.2, Streams.stream_of_mem hd.rooms hq, hm⟩
  · rintro ⟨st, hst, hm⟩
    exact ⟨(p.1, st), Streams.mem_of_stream hst, List.mem_map.2 ⟨p.2, hm, rfl⟩⟩

theorem mem_missing (hv : s.Valid) {p : RoomId × Message} :
    p ∈ s.missing ↔ s.streams.Has p.1 p.2 ∧ p.2.kind = .add ∧ p.2.isEncrypted = false ∧
      p.2.isDeleted = false ∧ p.2.content ≠ "" ∧ s.doc? p.2.id = none := by
  have hnone : (s.docs.any fun d => d.kind == .message && d.refId == p.2.id.str) = false ↔
      s.doc? p.2.id = none := by
    rw [doc?, Table.lookup_eq_none, List.any_eq_false]
    refine forall₂_congr fun d _ => ?_
    simp [SearchDoc.key, Prod.ext_iff]
  unfold missing
  rw [List.mem_filter, mem_messages hv.distinct]
  simp only [Bool.and_eq_true, beq_iff_eq, Bool.not_eq_true', bne_iff_ne, hnone, and_assoc]

theorem valid_foldl (ps : List (RoomId × Message)) (hv : s.Valid) :
    (ps.foldl (indexRow u) s).Valid := by
  induction ps generalizing s with
  | nil => exact hv
  | cons p ps ih => exact ih (valid_upsertDoc hv)

@[simp] theorem streams_foldl (ps : List (RoomId × Message)) :
    (ps.foldl (indexRow u) s).streams = s.streams := by
  induction ps generalizing s with
  | nil => rfl
  | cons p ps ih => exact ih

-- The documents of other messages stay, with the rows of their tags.
theorem foldl_frame (ps : List (RoomId × Message)) (hv : s.Valid) {d : SearchDoc}
    (hd : d ∈ s.docs) (hkey : ∀ p ∈ ps, d.key ≠ (.message, p.2.id.str)) :
    d ∈ (ps.foldl (indexRow u) s).docs ∧
      ∀ tag, (tag, d.id) ∈ (ps.foldl (indexRow u) s).hashtagRows ↔
        (tag, d.id) ∈ s.hashtagRows := by
  induction ps generalizing s with
  | nil => exact ⟨hd, fun _ => Iff.rfl⟩
  | cons p ps ih =>
      have hone : d ∈ (indexRow u s p).docs ∧ ∀ tag,
          ((tag, d.id) ∈ (indexRow u s p).hashtagRows ↔ (tag, d.id) ∈ s.hashtagRows) :=
        upsertDoc_frame hv hd (hkey p List.mem_cons_self)
      have hrest := ih (valid_upsertDoc hv) hone.1 fun q hq => hkey q (List.mem_cons_of_mem p hq)
      exact ⟨hrest.1, fun tag => (hrest.2 tag).trans (hone.2 tag)⟩

-- Every document is an old one or one of the new messages.
theorem mem_foldl {ps : List (RoomId × Message)} {d : SearchDoc}
    (hd : d ∈ (ps.foldl (indexRow u) s).docs) :
    d ∈ s.docs ∨ ∃ p ∈ ps, d.key = (.message, p.2.id.str) := by
  induction ps generalizing s with
  | nil => exact Or.inl hd
  | cons p ps ih =>
      rcases ih hd with hold | ⟨q, hq, hkey⟩
      · rcases mem_upsertDoc hold with rfl | hold
        · exact Or.inr ⟨p, List.mem_cons_self, rfl⟩
        · exact Or.inl hold
      · exact Or.inr ⟨q, List.mem_cons_of_mem p hq, hkey⟩

-- Every new message has its document then.
theorem doc?_foldl {ps : List (RoomId × Message)} {id : MessageId}
    (h : (s.doc? id).isSome ∨ ∃ p ∈ ps, p.2.id = id) :
    ((ps.foldl (indexRow u) s).doc? id).isSome := by
  induction ps generalizing s with
  | nil =>
      rcases h with h | ⟨p, hp, -⟩
      · exact h
      · cases hp
  | cons p ps ih =>
      refine ih ?_
      have hdoc : (indexRow u s p).doc? id = _ := doc?_upsertDoc id p.2.content
      by_cases hid : id = p.2.id
      · rw [if_pos hid] at hdoc
        exact Or.inl (by rw [hdoc]; rfl)
      · rw [if_neg hid] at hdoc
        rcases h with h | ⟨q, hq, hqid⟩
        · exact Or.inl (by rw [hdoc]; exact h)
        · rcases List.mem_cons.1 hq with rfl | hq
          · exact absurd hqid.symm hid
          · exact Or.inr ⟨q, hq, hqid⟩

/-- To write the documents of some messages puts their ids right and keeps the others. -/
theorem right_foldl {ps : List (RoomId × Message)} (hv : s.Valid)
    (hps : ∀ p ∈ ps, s.streams.Has p.1 p.2 ∧ p.2.indexable = true)
    (hrest : ∀ id, (∀ p ∈ ps, p.2.id ≠ id) → s.Right u id) (id : MessageId) :
    (ps.foldl (indexRow u) s).Right u id := by
  induction ps generalizing s with
  | nil => exact hrest id fun p hp => by cases hp
  | cons p ps ih =>
      refine ih (valid_upsertDoc hv) (fun q hq => hps q (List.mem_cons_of_mem p hq)) ?_
      intro id' hothers
      have hp := hps p List.mem_cons_self
      by_cases hid : id' = p.2.id
      · subst hid
        exact right_upsertDoc hv hp.1 hp.2
      · refine right_upsertDoc_of_ne hv (hrest id' fun q hq he => ?_) hid _
        rcases List.mem_cons.1 hq with rfl | hq
        · exact hid he.symm
        · exact hothers q hq he

/-- A message that is missing from a database that is ready can be found. -/
theorem indexable_of_missing (hv : s.Valid) (hw : Written s.streams) {p : RoomId × Message}
    (hp : p ∈ s.missing) : p.2.indexable = true := by
  rcases (mem_missing hv).1 hp with ⟨hm, hkind, hplain, hlive, hne, -⟩
  have hblank := hw p.1 p.2 hm hkind hlive hplain hne
  simp [Message.indexable, Message.isShown, hkind, hplain, hlive, hblank]

/-- `backfill` catches up with a database that is ready. -/
theorem inStep_backfill (hv : s.Valid) (hready : s.Ready u) : (s.backfill u).2.InStep u := by
  have hstreams : (s.backfill u).2.streams = s.streams := streams_foldl _
  refine ⟨valid_foldl _ hv, ?_, by rw [hstreams]; exact hready.written⟩
  refine right_foldl hv (fun p hp => ⟨((mem_missing hv).1 hp).1,
    indexable_of_missing hv hready.written hp⟩) fun id hothers => ⟨?_, ?_⟩
  · intro room m hm hid hindex
    -- The message is not missing, so it has a document, and that document is right.
    have hdoc : (s.doc? m.id).isSome := by
      by_cases hkind : m.kind = .add
      · cases hd : s.doc? m.id with
        | some d => rfl
        | none =>
            refine absurd hid (hothers (room, m) ((mem_missing hv).2 ?_))
            simp only [Message.indexable, Message.isShown, Bool.and_eq_true, Bool.not_eq_true'] at hindex
            refine ⟨hm, hkind, hindex.1.2, hindex.1.1.1.1.1, ?_, hd⟩
            intro hempty
            rw [hempty] at hindex
            exact absurd hindex.2 (by decide)
      · rcases hready.edited room m hm hindex hkind with ⟨d, hd, hdkind, hdid⟩
        rw [doc?_of_mem hv hd hdkind hdid]
        rfl
    rcases Option.isSome_iff_exists.1 hdoc with ⟨d, hd⟩
    rcases mem_of_doc? hd with ⟨hmem, hdkind, hdid⟩
    rcases hready.right d hmem hdkind with ⟨room', m', hm', -, hof, hroom⟩
    have hsame := hv.distinct.eq_of_id hm' hm (eq_of_str (hof.refId.symm.trans hdid))
    rcases hsame with ⟨rfl, rfl⟩
    exact ⟨d, hid ▸ hd, hroom, hof⟩
  · intro hnone
    cases hd : s.doc? id with
    | none => rfl
    | some d =>
        rcases mem_of_doc? hd with ⟨hmem, hdkind, hdid⟩
        rcases hready.right d hmem hdkind with ⟨room, m, hm, hindex, hof, -⟩
        rw [hnone room m hm (eq_of_str (hof.refId.symm.trans hdid))] at hindex
        cases hindex

/-- In step, the index mirrors the messages. -/
theorem mirrors_of_inStep (hs : s.InStep u) : s.Mirrors u where
  sound := by
    intro d hd hkind
    by_cases hfound : ∃ room m, s.streams.Has room m ∧ m.id = ⟨d.refId⟩ ∧ m.indexable = true
    · rcases hfound with ⟨room, m, hm, hid, hindex⟩
      rcases (hs.right _).found room m hm hid hindex with ⟨d', hd', -, hof⟩
      cases (doc?_of_mem hs.valid hd hkind rfl).symm.trans hd'
      exact ⟨room, m, hm, hindex, hof⟩
    · have hgone := (hs.right ⟨d.refId⟩).nothing fun room m hm hid => by
        by_contra hindex
        exact hfound ⟨room, m, hm, hid, by simpa using hindex⟩
      rw [doc?_of_mem hs.valid hd hkind rfl] at hgone
      cases hgone
  complete := by
    intro room m hm hindex
    rcases (hs.right m.id).found room m hm rfl hindex with ⟨d, hd, -, hof⟩
    exact ⟨d, (mem_of_doc? hd).1, hof⟩
  once := hs.valid.keyed
  silent := by
    intro room m hm hindex d hd hkind hid
    have hgone := (hs.right m.id).nothing fun room' m' hm' hid' => by
      rw [(hs.valid.distinct.eq_of_id hm' hm hid').2, hindex]
    rw [doc?_of_mem hs.valid hd hkind hid] at hgone
    cases hgone
  again := by
    have hmissing : s.missing = [] := by
      refine List.eq_nil_iff_forall_not_mem.2 fun p hp => ?_
      rcases (mem_missing hs.valid).1 hp with ⟨hm, -, -, -, -, hnone⟩
      have hindex := indexable_of_missing hs.valid hs.written hp
      rcases (hs.right p.2.id).found p.1 p.2 hm rfl hindex with ⟨d, hd, -⟩
      rw [hnone] at hd
      cases hd
    simp [backfill, hmissing]

/-! ### Exactly the databases that are ready -/

/-- A database whose index is right after `backfill` and after every deletion of a room is
    ready. -/
theorem ready_of_mirrors (hv : s.Valid) (hstart : (s.backfill u).2.Mirrors u)
    (hdestroy : ∀ room, ((s.backfill u).2.deleteRoom room).Mirrors u) : s.Ready u := by
  have hstreams : (s.backfill u).2.streams = s.streams := streams_foldl _
  -- What is right about a document after `backfill` is so of the one message with its id.
  have hone : ∀ d ∈ (s.backfill u).2.docs, d.kind = .message → ∀ room m,
      s.streams.Has room m → d.refId = m.id.str → m.indexable = true := by
    intro d hd hkind room m hm hid
    by_contra hindex
    exact hstart.silent room m (hstreams ▸ hm) (by simpa using hindex) d hd hkind hid
  -- No document that is there is written anew.
  have hkept : ∀ d ∈ s.docs, ∀ p ∈ s.missing, d.key ≠ (.message, p.2.id.str) := by
    intro d hd p hp hkey
    have hnone := ((mem_missing hv).1 hp).2.2.2.2.2
    rw [doc?_of_mem hv hd (congrArg Prod.fst hkey) (congrArg Prod.snd hkey)] at hnone
    cases hnone
  refine ⟨fun d hd hkind => ?_, fun room m hm hindex hadd => ?_, ?_⟩
  · rcases foldl_frame (u := u) _ hv hd (hkept d hd) with ⟨hd', hrows⟩
    rcases hstart.sound d hd' hkind with ⟨room, m, hm, hindex, hof⟩
    refine ⟨room, m, hstreams ▸ hm, hindex, ⟨hof.kind, hof.refId, hof.text, hof.tags,
      fun tag => (hrows tag).symm.trans (hof.rows tag)⟩, ?_⟩
    -- A document under another room is left behind when the room is deleted.
    by_contra hroom
    have hleft : d ∈ ((s.backfill u).2.deleteRoom room).docs :=
      List.mem_filter.2 ⟨hd', by simp [hroom]⟩
    rcases (hdestroy room).sound d hleft hkind with ⟨room', m', hm', -, hof'⟩
    rcases Streams.has_deleteRoom.1 hm' with ⟨hm', hne⟩
    have hsame := hof.refId.symm.trans hof'.refId
    exact hne (hv.distinct.eq_of_id (hstreams ▸ hm') (hstreams ▸ hm) (eq_of_str hsame.symm)).1
  · rcases hstart.complete room m (hstreams ▸ hm) hindex with ⟨d, hd, hof⟩
    rcases mem_foldl hd with hold | ⟨p, hp, hkey⟩
    · exact ⟨d, hold, hof.kind, hof.refId⟩
    · -- Only a message that was never edited is written.
      rcases (mem_missing hv).1 hp with ⟨hpm, hpkind, -⟩
      have hsame : p.2.id.str = m.id.str := (congrArg Prod.snd hkey).symm.trans hof.refId
      rw [(hv.distinct.eq_of_id hpm hm (eq_of_str hsame)).2] at hpkind
      exact absurd hpkind hadd
  · intro room m hm hkind hlive hplain hne
    have hdoc : ((s.backfill u).2.doc? m.id).isSome := by
      refine doc?_foldl ?_
      by_cases hnone : s.doc? m.id = none
      · exact Or.inr ⟨(room, m), (mem_missing hv).2 ⟨hm, hkind, hplain, hlive, hne, hnone⟩, rfl⟩
      · exact Or.inl (Option.isSome_iff_ne_none.2 hnone)
    rcases Option.isSome_iff_exists.1 hdoc with ⟨d, hd⟩
    rcases mem_of_doc? hd with ⟨hmem, hdkind, hdid⟩
    have hindex := hone d hmem hdkind room m hm hdid
    simp only [Message.indexable, Bool.and_eq_true, Bool.not_eq_true'] at hindex
    exact hindex.2

/-- The index mirrors the messages in every state of every run that begins by catching up,
    and catching up again changes nothing, exactly if the database was ready for it. -/
theorem mirrors_iff (u : CharClasses) (db : SearchDb) (hv : db.Valid) :
    (∀ changes, Run.Throughout (step u) (Mirrors u) (db.backfill u).2 changes) ↔ db.Ready u := by
  constructor
  · intro h
    exact ready_of_mirrors hv (Run.throughout_head _ _ (h [])) fun room => (h [.destroy room]).2
  · intro hready changes
    rw [Run.throughout_iff_prefix]
    intro pre _
    exact mirrors_of_inStep (Run.run_inv inStep_step _ pre (inStep_backfill hv hready))

end SearchDb

namespace Sample

/-- Letters and digits of the first alphabet. -/
def ascii : CharClasses where
  isAlphanumeric := Char.isAlphanum
  isAlphabetic := Char.isAlpha
  toLowercase := fun c => [c.toLower]

/-- A tag has a letter in it and starts a word. -/
example : hashtags ascii "#Rust and #2026, see a#b #rust" = ["rust"] := by decide +kernel

/-- A message from before there was an index. -/
def oldRow (kind : MsgKind) : Message :=
  { Stream.newRow (note "m1" alice) 1000 1000 with kind := kind }

/-- A database from before there was an index, with one message in it. -/
def unindexed (kind : MsgKind) : SearchDb := ⟨[(team, ⟨[oldRow kind], 1001⟩)], [], [], 1⟩

theorem has_unindexed {kind : MsgKind} {room : RoomId} {m : Message}
    (h : (unindexed kind).streams.Has room m) : room = team ∧ m = oldRow kind := by
  rcases h with ⟨st, hst, hm⟩
  have hmem := List.mem_singleton.1 (Streams.mem_of_stream hst)
  cases hmem
  exact ⟨rfl, List.mem_singleton.1 hm⟩

theorem valid_unindexed (kind : MsgKind) : (unindexed kind).Valid where
  distinct :=
    { rooms := List.nodup_singleton _
      keyed := fun room st h => by
        cases List.mem_singleton.1 (Streams.mem_of_stream h)
        exact List.nodup_singleton _
      apart := fun room room' m m' h h' _ =>
        (has_unindexed h).1.trans (has_unindexed h').1.symm }
  keyed := List.nodup_nil
  ids := List.nodup_nil
  below := fun _ h => by cases h
  owned := fun _ h => by cases h

/-- After the upgrade the message is edited and then deleted. -/
def editedAndRemoved : List SearchDb.Change :=
  [.edit team 2000 ⟨"m1"⟩ ⟨"see #rust", "9c1185a5c5e9fc54", none, none, 1, 1⟩,
    .remove team 2001 ⟨"m1"⟩]

theorem unindexed_mirrors :
    Run.Throughout (SearchDb.step ascii) (SearchDb.Mirrors ascii)
      ((unindexed .add).backfill ascii).2 editedAndRemoved := by
  refine (SearchDb.mirrors_iff ascii (unindexed .add) (valid_unindexed .add)).2 ⟨?_, ?_, ?_⟩ _
  · exact fun d hd => by cases hd
  · intro room m hm _ hkind
    rw [(has_unindexed hm).2] at hkind
    exact absurd rfl hkind
  · intro room m hm _ _ _ _
    rw [(has_unindexed hm).2]
    decide +kernel

/-- One that was edited before the upgrade is not found after it. -/
theorem edited_is_missing :
    ¬ ((unindexed .edit).backfill ascii).2.Mirrors ascii := by
  intro h
  have hdocs : ((unindexed .edit).backfill ascii).2.docs = [] := by decide +kernel
  have hhas : ((unindexed .edit).backfill ascii).2.streams.Has team (oldRow .edit) :=
    ⟨_, rfl, List.mem_singleton.2 rfl⟩
  rcases h.complete team (oldRow .edit) hhas (by decide +kernel) with ⟨d, hd, -⟩
  rw [hdocs] at hd
  cases hd

end Sample

end PocketSkynet
