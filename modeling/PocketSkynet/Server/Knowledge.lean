import PocketSkynet.Server.Search

/-!
# The Shared Brain

Besides the messages, the index holds the notes that people teach. A note is for everybody to find
and for its author alone to take back. Notes and messages are written to the same tables of the
index, each under its own kind, so a write to the one must leave the documents of the other alone.

What the searcher sees of a message rests on the sender and the room in its document, which were
written when the document was. So they must still be those of the message, whatever has been
edited, deleted or taught since.

## Main definitions

* `NoteRow`, `KnowledgeNote`, `Knowledge`: The notes, and the tables.
* `Knowledge.teach`, `Knowledge.forget`: What is done with notes.
* `Knowledge.Request`, `Knowledge.step`: The requests as one step function.
* `Rewritten`: What a write to the messages does to the index.
* `Knowledge.Kept`: The invariant of the tables.
* `SoundHits`: What is asked of what is found.

## Theorems

* `rewritten_step`: Every write to the messages, and what it does to the index.
* `Knowledge.kept_step`: Every request keeps the tables in step.
* `Knowledge.search_run`: Whatever is found at any time is a note or a message that is still there
  and that the searcher may see.
* `Knowledge.notes_run`: The notes that there are.
-/

namespace PocketSkynet

/-! ### Notes -/

/-- A row of `knowledge_notes`. -/
structure NoteRow where
  id : String
  ownerAddress : WalletAddress
  content : String
  roomId : Option RoomId
  sourceMessageId : Option MessageId
  createdAt : ℕ
  updatedAt : ℕ
deriving DecidableEq, Repr

/-- A note as it is sent. -/
structure KnowledgeNote extends NoteRow where
  tags : List String
deriving DecidableEq, Repr

/-- The index with the messages, and the notes. -/
structure Knowledge where
  index : SearchDb
  notes : List NoteRow

namespace Knowledge

variable (u : CharClasses)

/-- Store a note and index it. An id that is taken fails. -/
def teach (k : Knowledge) (id : String) (owner : WalletAddress) (content : String)
    (roomId : Option RoomId) (sourceMessageId : Option MessageId) (now : ℕ) :
    Option (Knowledge × KnowledgeNote) :=
  let row : NoteRow := ⟨id, owner, content, roomId, sourceMessageId, now, now⟩
  if (Table.lookup NoteRow.id id k.notes).isSome then none
  else some (⟨k.index.upsertDoc u .knowledge id roomId (some owner) now content,
    k.notes ++ [row]⟩, ⟨row, hashtags u content⟩)

/-- Delete a note, if the caller is its author. There is no answer if there is no note. -/
def forget (k : Knowledge) (id : String) (caller : WalletAddress) : Knowledge × Option Bool :=
  match Table.lookup NoteRow.id id k.notes with
  | none => (k, none)
  | some row =>
      if row.ownerAddress ≠ caller then (k, some false)
      else (⟨k.index.unindex .knowledge id, Table.erase NoteRow.id id k.notes⟩, some true)

inductive Request where
  | write (change : SearchDb.Change)
  | teach (id : String) (caller : WalletAddress) (content : Option String)
      (roomId : Option RoomId) (sourceMessageId : Option MessageId) (now : ℕ)
  | forget (id : String) (caller : WalletAddress)
deriving DecidableEq, Repr

/-- The note that a request teaches. The id is minted. -/
def teachNote (k : Knowledge) (id : String) (caller : WalletAddress) (content : Option String)
    (roomId : Option RoomId) (sourceMessageId : Option MessageId) (now : ℕ) :
    Except ApiError (Knowledge × KnowledgeNote) := do
  let content ← messageContent content
  match k.teach u id caller content roomId sourceMessageId now with
  | none => .error (.internal "UNIQUE constraint failed: knowledge_notes.id")
  | some taught => .ok taught

def forgetNote (k : Knowledge) (id : String) (caller : WalletAddress) :
    Except ApiError Knowledge :=
  match k.forget id caller with
  | (_, none) => .error (.notFound "Knowledge note not found")
  | (_, some false) => .error (.forbidden "Only the author can forget a note")
  | (k, some true) => .ok k

/-- The tables after a request. One that is refused changes nothing. -/
def step (k : Knowledge) : Request → Knowledge
  | .write change => { k with index := k.index.step u change }
  | .teach id caller content roomId sourceMessageId now =>
      match k.teachNote u id caller content roomId sourceMessageId now with
      | .ok (k', _) => k'
      | .error _ => k
  | .forget id caller =>
      match k.forgetNote id caller with
      | .ok k' => k'
      | .error _ => k

end Knowledge

/-! ### What a write to the messages does to the index -/

namespace SearchDb

variable {u : CharClasses} {s : SearchDb}

/-- A message that can be found has the sender and the time that the message with its id had. -/
def Traces (ss ss' : Streams) : Prop :=
  ∀ r x, ss'.Has r x → x.indexable = true → ∀ r' y, ss.Has r' y → y.id = x.id →
    y.senderAddress = x.senderAddress ∧ y.messageTimestamp = x.messageTimestamp

/-- What a write to the messages does to the index: nothing, the document of one of the messages
    that there are then, or a deletion of documents of messages. -/
inductive Rewritten (u : CharClasses) (s : SearchDb) : SearchDb → Prop
  | streams (ss : Streams) (htraces : Traces s.streams ss) : Rewritten u s { s with streams := ss }
  | indexed (ss : Streams) (htraces : Traces s.streams ss) (room : RoomId) (m : Message)
      (hm : ss.Has room m) :
      Rewritten u s ({ s with streams := ss }.upsertDoc u .message m.id.str (some room)
        (some m.senderAddress) m.messageTimestamp m.content)
  | dropped (ss : Streams) (htraces : Traces s.streams ss) (p : SearchDoc → Bool)
      (hp : ∀ d, p d = true → d.kind = .message) :
      Rewritten u s ({ s with streams := ss }.deleteDocs p)

theorem traces_refl {ss : Streams} (hd : ss.Distinct) : Traces ss ss := by
  intro r x hx _ r' y hy hid
  rw [(hd.eq_of_id hy hx hid).2]
  exact ⟨rfl, rfl⟩

theorem traces_of_sub {ss ss' : Streams} (hd : ss.Distinct)
    (hsub : ∀ r x, ss'.Has r x → x.indexable = true → ss.Has r x) : Traces ss ss' :=
  fun r x hx hindex => traces_refl hd r x (hsub r x hx hindex) hindex

-- A message that takes the place of another one has its sender and its time.
theorem traces_replaced {ss ss' : Streams} (hd : ss.Distinct) {room : RoomId} {id : MessageId}
    {y w : Message} (hy : ss.Has room y)
    (hafter : ∀ r x, ss'.Has r x ↔ (ss.Has r x ∧ x.id ≠ id) ∨ (r = room ∧ x = w))
    (hw : w.id = y.id ∧ w.senderAddress = y.senderAddress ∧
      w.messageTimestamp = y.messageTimestamp) :
    Traces ss ss' := by
  intro r x hx hindex r' z hz hid
  rcases (hafter r x).1 hx with ⟨hold, -⟩ | ⟨-, rfl⟩
  · exact traces_refl hd r x hold hindex r' z hz hid
  · rw [(hd.eq_of_id hz hy (hid.trans hw.1)).2]
    exact ⟨hw.2.1.symm, hw.2.2.symm⟩

theorem rewritten_createMessage (hd : s.streams.Distinct) {room : RoomId} {now : ℕ}
    {new : NewMessage} {s' : SearchDb} (h : s.createMessage u room now new = some s') :
    Rewritten u s s' := by
  simp only [createMessage, Option.bind_eq_bind, Option.bind_eq_some_iff, Option.pure_def,
    Option.some.injEq] at h
  rcases h with ⟨ss, htx, ⟨room', m⟩, hrow, rfl⟩
  have hd' := Streams.distinct_transact hd htx
  rcases Streams.has_createMessage hd htx with ⟨hfree, n, hafter⟩
  rcases (Streams.row?_eq_some hd').1 hrow with ⟨hm, hmid⟩
  have htraces : Traces s.streams ss := by
    intro r x hx hindex r' y hy hid
    rcases (hafter r x).1 hx with hold | ⟨-, rfl⟩
    · exact traces_refl hd r x hold hindex r' y hy hid
    · exact absurd hid (hfree r' y hy)
  have hroom : room' = room := by
    rcases (hafter room' m).1 hm with hold | ⟨hr, -⟩
    · exact absurd hmid (hfree room' m hold)
    · exact hr
  unfold indexMessage
  split
  · exact .streams ss htraces
  · exact .indexed ss htraces room m (hroom ▸ hm)

theorem rewritten_updateMessage (hd : s.streams.Distinct) {room : RoomId} {now : ℕ}
    {id : MessageId} {edit : MessageEdit} {s' : SearchDb}
    (h : s.updateMessage u room now id edit = some s') : Rewritten u s s' := by
  simp only [updateMessage, Option.bind_eq_bind, Option.bind_eq_some_iff, Option.pure_def,
    Option.some.injEq] at h
  rcases h with ⟨ss, htx, ⟨room', m⟩, hrow, rfl⟩
  have hd' := Streams.distinct_transact hd htx
  rcases Streams.has_updateMessage hd htx with ⟨n, y, hy, -, -, hafter⟩
  rcases (Streams.row?_eq_some hd').1 hrow with ⟨hm, rfl⟩
  have htraces : Traces s.streams ss := traces_replaced hd hy hafter ⟨rfl, rfl, rfl⟩
  have hroom : room' = room := by
    rcases (hafter room' m).1 hm with ⟨-, hne⟩ | ⟨hr, -⟩
    · exact absurd rfl hne
    · exact hr
  unfold reindexMessage
  split
  · refine .dropped ss htraces _ fun d hp => ?_
    rw [Bool.and_eq_true, decide_eq_true_eq] at hp
    exact hp.1
  · exact .indexed ss htraces room m (hroom ▸ hm)

theorem rewritten_softDeleteMessage (hd : s.streams.Distinct) {room : RoomId} {now : ℕ}
    {id : MessageId} {s' : SearchDb} (h : s.softDeleteMessage room now id = some s') :
    Rewritten u s s' := by
  simp only [softDeleteMessage, Option.bind_eq_bind, Option.bind_eq_some_iff,
    Option.pure_def, Option.some.injEq] at h
  rcases h with ⟨ss, htx, rfl⟩
  have htraces : Traces s.streams ss := by
    rcases Streams.has_softDeleteMessage hd htx with ⟨-, hafter⟩ | ⟨-, n, y, hy, -, hafter⟩
    · exact traces_of_sub hd fun r x hx _ => (hafter r x).1 hx
    · exact traces_replaced hd hy hafter ⟨rfl, rfl, rfl⟩
  split
  · refine .dropped ss htraces _ fun d hp => ?_
    rw [Bool.and_eq_true, decide_eq_true_eq] at hp
    exact hp.1
  · exact .streams ss htraces

theorem rewritten_deleteAllMessages (hd : s.streams.Distinct) {room : RoomId} {now : ℕ}
    {caller : WalletAddress} {markerId : MessageId} {s' : SearchDb}
    (h : s.deleteAllMessages room now caller markerId = some s') : Rewritten u s s' := by
  simp only [deleteAllMessages, Option.bind_eq_bind, Option.bind_eq_some_iff,
    Option.pure_def, Option.some.injEq] at h
  rcases h with ⟨ss, htx, rfl⟩
  rcases Streams.has_deleteAllMessages htx with ⟨n, hafter⟩
  refine .dropped ss (traces_of_sub hd fun r x hx hindex => ?_) _ fun d hp => ?_
  · rcases (hafter r x).1 hx with ⟨hold, -⟩ | ⟨-, rfl⟩
    · exact hold
    · cases hindex
  · rw [Bool.and_eq_true, decide_eq_true_eq] at hp
    exact hp.1

theorem rewritten_write {room : RoomId} {change : Mutation} {s' : SearchDb}
    (h : s.write room change = some s')
    (htraces : ∀ ss, s.streams.transact room change = some ss → Traces s.streams ss) :
    Rewritten u s s' := by
  rcases Option.map_eq_some_iff.1 h with ⟨ss, htx, rfl⟩
  exact .streams ss (htraces ss htx)

-- A write that fails changes nothing.
theorem rewritten_getD (hd : s.streams.Distinct) {x : Option SearchDb}
    (h : ∀ s', x = some s' → Rewritten u s s') : Rewritten u s (x.getD s) := by
  cases x with
  | none => exact .streams s.streams (traces_refl hd)
  | some s' => exact h s' rfl

/-- Every write to the messages, and what it does to the index. -/
theorem rewritten_step (hd : s.streams.Distinct) (c : Change) : Rewritten u s (s.step u c) := by
  have hsame : Rewritten u s s := .streams s.streams (traces_refl hd)
  cases c with
  | createRoom room =>
      exact .streams _ (traces_of_sub hd fun r x hx _ => Streams.has_createRoom.1 hx)
  | create room now new =>
      simp only [step]
      cases messageContent (some new.content) with
      | error e => exact hsame
      | ok content => exact rewritten_getD hd fun _ h => rewritten_createMessage hd h
  | edit room now id body =>
      simp only [step]
      cases messageContent (some body.content) with
      | error e => exact hsame
      | ok content => exact rewritten_getD hd fun _ h => rewritten_updateMessage hd h
  | remove room now id => exact rewritten_getD hd fun _ h => rewritten_softDeleteMessage hd h
  | purge room now caller markerId =>
      exact rewritten_getD hd fun _ h => rewritten_deleteAllMessages hd h
  | destroy room =>
      refine .dropped _ (traces_of_sub hd fun r x hx _ => ?_) _ fun d hp => ?_
      · exact (Streams.has_deleteRoom.1 hx).1
      · rw [Bool.and_eq_true, decide_eq_true_eq] at hp
        exact hp.1
  | publish room now id txHash =>
      refine rewritten_getD hd fun _ h => rewritten_write h fun ss htx => ?_
      rcases Streams.has_publishTxHash hd htx with ⟨n, y, hy, -, -, hafter⟩
      exact traces_replaced hd hy hafter ⟨rfl, rfl, rfl⟩
  | react room now id sender target code msgHash add =>
      refine rewritten_getD hd fun _ h => rewritten_write h fun ss htx => ?_
      rcases Streams.has_createEmoticonEvent hd htx with ⟨-, n, hafter⟩
      refine traces_of_sub hd fun r x hx hindex => ?_
      rcases (hafter r x).1 hx with hold | ⟨-, rfl⟩
      · exact hold
      · cases add <;> cases hindex

/-! ### What stays of the documents -/

/-- The document of a message that can be found has its sender and its time. -/
def Authored (s : SearchDb) : Prop :=
  ∀ d ∈ s.docs, d.kind = .message → ∀ r x, s.streams.Has r x → x.indexable = true →
    d.refId = x.id.str → d.sender = some x.senderAddress ∧ d.ts = x.messageTimestamp

section Documents

variable {kind : DocKind} {refId : String} {roomId : Option RoomId} {sender : Option WalletAddress}
  {ts : ℕ} {body : String}

-- A document after a write is the one that was written, or an old one under another key.
theorem mem_upsertDoc_iff (hv : s.Valid) {d : SearchDoc} :
    d ∈ (s.upsertDoc u kind refId roomId sender ts body).docs ↔
      d = s.newDoc u kind refId roomId sender ts body ∨ (d ∈ s.docs ∧ d.key ≠ (kind, refId)) := by
  have hkeyed : Table.Keyed SearchDoc.key (s.upsertDoc u kind refId roomId sender ts body).docs :=
    (valid_upsertDoc hv).keyed
  rw [Table.mem_iff_lookup hkeyed, lookup_upsertDoc]
  by_cases hkey : d.key = (kind, refId)
  · rw [if_pos hkey, Option.some.injEq, eq_comm]
    exact ⟨Or.inl, fun h => h.resolve_right fun hold => hold.2 hkey⟩
  · rw [if_neg hkey, ← Table.mem_iff_lookup hv.keyed]
    refine ⟨fun h => Or.inr ⟨h, hkey⟩, fun h => h.elim (fun heq => ?_) And.left⟩
    exact absurd (by rw [heq]; rfl) hkey

theorem tagged_upsertDoc (hv : s.Valid) (htagged : s.Tagged u) :
    (s.upsertDoc u kind refId roomId sender ts body).Tagged u := by
  intro d hd tag
  rcases (mem_upsertDoc_iff hv).1 hd with rfl | ⟨hold, hkey⟩
  · rw [mem_hashtagRows_upsertDoc, if_pos rfl]
    exact Iff.rfl
  · rw [(upsertDoc_frame hv hold hkey).2 tag]
    exact htagged d hold tag

theorem tagged_deleteDocs (hv : s.Valid) (htagged : s.Tagged u) (p : SearchDoc → Bool) :
    (s.deleteDocs p).Tagged u := by
  intro d hd tag
  rcases List.mem_filter.1 hd with ⟨hold, hp⟩
  rw [deleteDocs_frame hv hold (by simpa using hp) tag]
  exact htagged d hold tag

/-- A note in the index is nothing to the messages. -/
theorem inStep_upsertDoc (hs : s.InStep u) (hkind : kind ≠ .message) :
    (s.upsertDoc u kind refId roomId sender ts body).InStep u := by
  refine ⟨valid_upsertDoc hs.valid, fun id => ?_, hs.written⟩
  refine right_frame (hs.right id) (fun _ _ _ => Iff.rfl) ?_ fun d hd tag => ?_
  · rw [doc?, lookup_upsertDoc, if_neg fun heq => hkind (congrArg Prod.fst heq).symm, doc?]
  · rcases mem_of_doc? hd with ⟨hmem, hmessage, -⟩
    refine (upsertDoc_frame hs.valid hmem fun hkey => hkind ?_).2 tag
    rw [← hmessage]
    exact (congrArg Prod.fst hkey).symm

theorem inStep_unindex (hs : s.InStep u) (hkind : kind ≠ .message) :
    (s.unindex kind refId).InStep u := by
  have hkept : ∀ id d, s.doc? id = some d →
      (decide (d.kind = kind) && decide (d.refId = refId)) = false := by
    intro id d hd
    have hmessage := (mem_of_doc? hd).2.1
    rw [hmessage, decide_eq_false (Ne.symm hkind), Bool.false_and]
  refine ⟨valid_deleteDocs hs.valid _, fun id => ?_, hs.written⟩
  refine right_frame (hs.right id) (fun _ _ _ => Iff.rfl) ?_ fun d hd tag => ?_
  · rw [unindex, doc?_deleteDocs hs.valid]
    cases hdoc : s.doc? id with
    | none => rfl
    | some d => rw [Option.filter_some_pos (by simp [hkept id d hdoc])]
  · exact deleteDocs_frame hs.valid (mem_of_doc? hd).1 (hkept id d hd) tag

end Documents

variable {s' : SearchDb}

theorem tagged_rewritten (hs : s.InStep u) (hw : Rewritten u s s') (hv : s'.Valid)
    (htagged : s.Tagged u) : s'.Tagged u := by
  cases hw with
  | streams ss htraces => exact htagged
  | indexed ss htraces room m hm =>
      have hbefore : Valid { s with streams := ss } := ⟨hv.distinct, hs.valid.keyed, hs.valid.ids,
        hs.valid.below, hs.valid.owned⟩
      exact tagged_upsertDoc hbefore htagged
  | dropped ss htraces p hp =>
      have hbefore : Valid { s with streams := ss } := ⟨hv.distinct, hs.valid.keyed, hs.valid.ids,
        hs.valid.below, hs.valid.owned⟩
      exact tagged_deleteDocs hbefore htagged p

theorem authored_rewritten (hs : s.InStep u) (hw : Rewritten u s s') (hv : s'.Valid)
    (hauthored : s.Authored) : s'.Authored := by
  have hold : ∀ ss, Traces s.streams ss → ∀ d ∈ s.docs, d.kind = .message → ∀ r x, ss.Has r x →
      x.indexable = true → d.refId = x.id.str →
        d.sender = some x.senderAddress ∧ d.ts = x.messageTimestamp := by
    intro ss htraces d hd hkind r x hx hindex hid
    rcases (mirrors_of_inStep hs).sound d hd hkind with ⟨room, m, hm, hmindex, hof⟩
    have hsame : m.id = x.id := eq_of_str (hof.refId.symm.trans hid)
    rcases htraces r x hx hindex room m hm hsame with ⟨hsender, hts⟩
    rw [← hsender, ← hts]
    exact hauthored d hd hkind room m hm hmindex hof.refId
  cases hw with
  | streams ss htraces => exact fun d hd => hold ss htraces d hd
  | dropped ss htraces p hp => exact fun d hd => hold ss htraces d (List.mem_of_mem_filter hd)
  | indexed ss htraces room m hm =>
      intro d hd hkind r x hx hindex hid
      rcases mem_upsertDoc hd with rfl | hd
      · rw [← (hv.distinct.eq_of_id hx hm (eq_of_str hid.symm)).2]
        exact ⟨rfl, rfl⟩
      · exact hold ss htraces d hd hkind r x hx hindex hid

-- A write to the messages leaves the other documents alone.
theorem mem_rewritten (hs : s.Valid) (hw : Rewritten u s s') (hv : s'.Valid) {d : SearchDoc}
    (hkind : d.kind ≠ .message) : d ∈ s'.docs ↔ d ∈ s.docs := by
  cases hw with
  | streams ss htraces => exact Iff.rfl
  | indexed ss htraces room m hm =>
      have hbefore : Valid { s with streams := ss } :=
        ⟨hv.distinct, hs.keyed, hs.ids, hs.below, hs.owned⟩
      rw [mem_upsertDoc_iff hbefore]
      constructor
      · rintro (rfl | h)
        · exact absurd rfl hkind
        · exact h.1
      · exact fun h => Or.inr ⟨h, fun hkey => hkind (congrArg Prod.fst hkey)⟩
  | dropped ss htraces p hp =>
      refine ⟨List.mem_of_mem_filter, fun h => List.mem_filter.2 ⟨h, ?_⟩⟩
      rw [Bool.not_eq_true']
      exact Bool.eq_false_of_not_eq_true fun hd => hkind (hp d hd)

end SearchDb

/-! ### The tables in step -/

/-- The document is the one of the note. -/
structure NoteRow.Indexed (n : NoteRow) (d : SearchDoc) : Prop where
  kind : d.kind = .knowledge
  refId : d.refId = n.id
  roomId : d.roomId = n.roomId
  sender : d.sender = some n.ownerAddress
  ts : d.ts = n.createdAt
  text : d.text = n.content

namespace Knowledge

variable {u : CharClasses} {k : Knowledge}

/-- The invariant of the tables. -/
structure Kept (u : CharClasses) (k : Knowledge) : Prop where
  inStep : k.index.InStep u
  tagged : k.index.Tagged u
  authored : k.index.Authored
  ids : Table.Keyed NoteRow.id k.notes
  kinds : ∀ d ∈ k.index.docs, d.kind = .message ∨ d.kind = .knowledge
  noted : ∀ d ∈ k.index.docs, d.kind = .knowledge → ∃ n ∈ k.notes, n.Indexed d
  indexed : ∀ n ∈ k.notes, ∃ d ∈ k.index.docs, n.Indexed d

theorem kept_write (hk : Kept u k) (c : SearchDb.Change) :
    Kept u { k with index := k.index.step u c } := by
  have hs' := SearchDb.inStep_step k.index c hk.inStep
  have hw := @SearchDb.rewritten_step u k.index hk.inStep.valid.distinct c
  have hothers : ∀ d : SearchDoc, d.kind = .knowledge →
      (d ∈ (k.index.step u c).docs ↔ d ∈ k.index.docs) := fun d hkind =>
    SearchDb.mem_rewritten hk.inStep.valid hw hs'.valid (by rw [hkind]; decide)
  refine ⟨hs', SearchDb.tagged_rewritten hk.inStep hw hs'.valid hk.tagged,
    SearchDb.authored_rewritten hk.inStep hw hs'.valid hk.authored, hk.ids, ?_, ?_, ?_⟩
  · intro d hd
    by_cases hkind : d.kind = .message
    · exact Or.inl hkind
    · exact hk.kinds d ((SearchDb.mem_rewritten hk.inStep.valid hw hs'.valid hkind).1 hd)
  · exact fun d hd hkind => hk.noted d ((hothers d hkind).1 hd) hkind
  · intro n hn
    rcases hk.indexed n hn with ⟨d, hd, hof⟩
    exact ⟨d, (hothers d hof.kind).2 hd, hof⟩

theorem kept_teach (hk : Kept u k) {id : String} {owner : WalletAddress} {content : String}
    {roomId : Option RoomId} {source : Option MessageId} {now : ℕ}
    {taught : Knowledge × KnowledgeNote}
    (h : k.teach u id owner content roomId source now = some taught) : Kept u taught.1 := by
  simp only [teach] at h
  split at h
  · cases h
  next hfree =>
  cases h
  rw [Option.not_isSome_iff_eq_none] at hfree
  have hmem := @SearchDb.mem_upsertDoc_iff u k.index .knowledge id roomId (some owner) now content
    hk.inStep.valid
  have hauthored : SearchDb.Authored
      (k.index.upsertDoc u .knowledge id roomId (some owner) now content) := by
    intro d hd hkind
    rcases hmem.1 hd with rfl | ⟨hold, -⟩
    · cases hkind
    · exact hk.authored d hold hkind
  refine ⟨SearchDb.inStep_upsertDoc hk.inStep (by decide),
    SearchDb.tagged_upsertDoc hk.inStep.valid hk.tagged, hauthored, ?_, ?_, ?_, ?_⟩
  · exact Table.keyed_append_one hk.ids hfree
  · intro d hd
    rcases hmem.1 hd with rfl | ⟨hold, -⟩
    · exact Or.inr rfl
    · exact hk.kinds d hold
  · intro d hd hkind
    rcases hmem.1 hd with rfl | ⟨hold, -⟩
    · exact ⟨_, List.mem_append_right _ (List.mem_singleton.2 rfl), rfl, rfl, rfl, rfl, rfl, rfl⟩
    · rcases hk.noted d hold hkind with ⟨n, hn, hof⟩
      exact ⟨n, List.mem_append_left _ hn, hof⟩
  · intro n hn
    rcases List.mem_append.1 hn with hn | hn
    · rcases hk.indexed n hn with ⟨d, hd, hof⟩
      refine ⟨d, hmem.2 (Or.inr ⟨hd, fun hkey => ?_⟩), hof⟩
      have hid : n.id = id := hof.refId.symm.trans (congrArg Prod.snd hkey)
      exact Table.lookup_eq_none.1 hfree n hn hid
    · rw [List.mem_singleton.1 hn]
      exact ⟨_, hmem.2 (Or.inl rfl), rfl, rfl, rfl, rfl, rfl, rfl⟩

-- What a deletion of a note does.
theorem forget_eq_some {id : String} {caller : WalletAddress} {k' : Knowledge}
    (h : k.forget id caller = (k', some true)) :
    (∃ row, Table.lookup NoteRow.id id k.notes = some row ∧ row.ownerAddress = caller) ∧
      k' = ⟨k.index.unindex .knowledge id, Table.erase NoteRow.id id k.notes⟩ := by
  unfold forget at h
  cases hrow : Table.lookup NoteRow.id id k.notes with
  | none =>
      rw [hrow] at h
      cases h
  | some row =>
      rw [hrow] at h
      dsimp only at h
      split at h
      · cases h
      next howner =>
        cases h
        exact ⟨⟨row, rfl, not_not.1 howner⟩, rfl⟩

theorem kept_forget (hk : Kept u k) {id : String} {caller : WalletAddress} {k' : Knowledge}
    (h : k.forget id caller = (k', some true)) : Kept u k' := by
  rcases forget_eq_some h with ⟨-, rfl⟩
  have hmem : ∀ d : SearchDoc, d ∈ (k.index.unindex .knowledge id).docs ↔
      d ∈ k.index.docs ∧ ¬ (d.kind = .knowledge ∧ d.refId = id) := by
    intro d
    rw [SearchDb.unindex, SearchDb.deleteDocs, List.mem_filter, Bool.not_eq_true',
      ← Bool.not_eq_true, Bool.and_eq_true, decide_eq_true_eq, decide_eq_true_eq]
  refine ⟨SearchDb.inStep_unindex hk.inStep (by decide),
    SearchDb.tagged_deleteDocs hk.inStep.valid hk.tagged _, ?_, Table.keyed_erase _ hk.ids, ?_,
    ?_, ?_⟩
  · exact fun d hd => hk.authored d ((hmem d).1 hd).1
  · exact fun d hd => hk.kinds d ((hmem d).1 hd).1
  · intro d hd hkind
    rcases (hmem d).1 hd with ⟨hd, hnot⟩
    rcases hk.noted d hd hkind with ⟨n, hn, hof⟩
    exact ⟨n, Table.mem_erase.2 ⟨hn, fun hid => hnot ⟨hkind, hof.refId.trans hid⟩⟩, hof⟩
  · intro n hn
    rcases Table.mem_erase.1 hn with ⟨hn, hne⟩
    rcases hk.indexed n hn with ⟨d, hd, hof⟩
    exact ⟨d, (hmem d).2 ⟨hd, fun hboth => hne (hof.refId.symm.trans hboth.2)⟩, hof⟩

-- What a request to teach or to forget comes to.
theorem teachNote_eq_ok {id : String} {caller : WalletAddress} {content : Option String}
    {roomId : Option RoomId} {source : Option MessageId} {now : ℕ}
    {taught : Knowledge × KnowledgeNote}
    (h : k.teachNote u id caller content roomId source now = .ok taught) :
    ∃ text, messageContent content = .ok text ∧
      k.teach u id caller text roomId source now = some taught := by
  unfold teachNote at h
  cases hcontent : messageContent content with
  | error e =>
      rw [hcontent] at h
      cases h
  | ok text =>
      rw [hcontent] at h
      refine ⟨text, rfl, ?_⟩
      cases hteach : k.teach u id caller text roomId source now with
      | none =>
          simp only [bind, Except.bind, hteach] at h
          cases h
      | some taught' =>
          simp only [bind, Except.bind, hteach] at h
          cases h
          rfl

theorem forgetNote_eq_ok {id : String} {caller : WalletAddress} {k' : Knowledge} :
    k.forgetNote id caller = .ok k' ↔ k.forget id caller = (k', some true) := by
  unfold forgetNote
  rcases k.forget id caller with ⟨k'', _ | _ | _⟩ <;> simp

/-- Every request keeps the tables in step. -/
theorem kept_step (k : Knowledge) (request : Request) (hk : Kept u k) :
    Kept u (k.step u request) := by
  cases request with
  | write change => exact kept_write hk change
  | teach id caller content roomId source now =>
      simp only [step]
      cases htaught : k.teachNote u id caller content roomId source now with
      | error e => exact hk
      | ok taught =>
          rcases teachNote_eq_ok htaught with ⟨text, -, hteach⟩
          exact kept_teach hk hteach
  | forget id caller =>
      simp only [step]
      cases hforgot : k.forgetNote id caller with
      | error e => exact hk
      | ok k' => exact kept_forget hk (forgetNote_eq_ok.1 hforgot)

/-! ### What is found -/

/-- The hit is a note that there is. -/
structure OfNote {F : Type*} (k : Knowledge) (n : NoteRow) (h : SearchHit F) : Prop where
  note : n ∈ k.notes
  kind : h.kind = .knowledge
  refId : h.refId = n.id
  text : h.text = n.content
  sender : h.sender = some n.ownerAddress
  ts : h.ts = n.createdAt

/-- The hit is a message of a room that is there. -/
structure OfMessage {F : Type*} (k : Knowledge) (room : RoomId) (m : Message) (h : SearchHit F) :
    Prop where
  message : k.index.streams.Has room m
  indexable : m.indexable = true
  kind : h.kind = .message
  refId : h.refId = m.id.str
  text : h.text = m.content
  roomId : h.roomId = some room
  sender : h.sender = some m.senderAddress
  ts : h.ts = m.messageTimestamp

/-- What is asked of what is found. -/
structure SoundHits {F : Type*} [LinearOrder F] (u : CharClasses) (k : Knowledge)
    (scope : SearchScope) (query : String) (kind : Option DocKind) (limit : ℕ)
    (hits : List (SearchHit F)) : Prop where
  shown : ∀ h ∈ hits, (∃ n, k.OfNote n h) ∨ ∃ room m, k.OfMessage room m h ∧
    room ∈ scope.rooms ∧ m.senderAddress ∉ scope.blocked
  asked : ∀ h ∈ hits, (∀ wanted ∈ kind, h.kind = wanted) ∧
    ∀ tag ∈ (splitQuery u query).2, tag ∈ hashtags u h.text
  once : (hits.map fun h => (h.kind, h.refId)).Nodup
  few : hits.length ≤ max 1 (min limit 100)
  ordered : hits.Pairwise fun a b => b.score ≤ a.score

/-- What a query without text is asked for: the notes and the messages with its tags, or a full
    page of newer ones. -/
structure Browsed {F : Type*} (u : CharClasses) (k : Knowledge) (scope : SearchScope)
    (tags : List String) (kind : Option DocKind) (limit : ℕ) (hits : List (SearchHit F)) :
    Prop where
  notes : (∀ wanted ∈ kind, wanted = .knowledge) → ∀ n ∈ k.notes,
    (∀ tag ∈ tags, tag ∈ hashtags u n.content) →
      (∃ h ∈ hits, k.OfNote n h) ∨ (hits.length = limit ∧ ∀ h ∈ hits, n.createdAt ≤ h.ts)
  messages : (∀ wanted ∈ kind, wanted = .message) → ∀ room m, k.index.streams.Has room m →
    m.indexable = true → room ∈ scope.rooms → m.senderAddress ∉ scope.blocked →
    (∀ tag ∈ tags, tag ∈ hashtags u m.content) →
      (∃ h ∈ hits, k.OfMessage room m h) ∨
        (hits.length = limit ∧ ∀ h ∈ hits, m.messageTimestamp ≤ h.ts)
  newest : hits.Pairwise fun a b => b.ts ≤ a.ts

/-- What a query with text is asked for: where the searcher sees no more documents than are
    ranked, those that match its words or are like it, or a full page. -/
def Ranked {F : Type*} (u : CharClasses) (r : Ranker F) (k : Knowledge) (scope : SearchScope)
    (query : String) (kind : Option DocKind) (limit : ℕ) (hits : List (SearchHit F)) : Prop :=
  ∀ fts, ftsQuery u (splitQuery u query).1 = some fts →
    (k.index.docs.filter fun d => scope.sees d && ofKind kind d).length ≤ candidatesPerSide →
    ∀ d ∈ k.index.docs, SearchDb.Eligible u scope kind (splitQuery u query).2 d →
      (d ∈ r.matched fts k.index.docs ∨ ∃ score,
        r.cosine (splitQuery u query).1 d = some score ∧ r.positive score = true) →
      (∃ score, .of d score ∈ hits) ∨ hits.length = limit

section Hits

variable {F : Type*} {r : Ranker F} {scope : SearchScope} {kind : Option DocKind}

theorem ofKind_iff {d : SearchDoc} : ofKind kind d = true ↔ ∀ wanted ∈ kind, d.kind = wanted := by
  cases kind <;> simp [ofKind]

-- The document of a message is of the message that there is.
theorem ofMessage_of_doc (hk : Kept u k) {d : SearchDoc} (hd : d ∈ k.index.docs)
    (hkind : d.kind = .message) (score : F) : ∃ room m, k.OfMessage room m (.of d score) := by
  rcases (SearchDb.mirrors_of_inStep hk.inStep).sound d hd hkind with ⟨room, m, hm, hindex, hof⟩
  rcases (hk.inStep.right m.id).found room m hm rfl hindex with ⟨d', hd', hroom, -⟩
  have hsame : d = d' := by
    have hdoc := SearchDb.doc?_of_mem hk.inStep.valid hd hkind hof.refId
    rw [hdoc] at hd'
    exact Option.some.inj hd'
  rcases hk.authored d hd hkind room m hm hindex hof.refId with ⟨hsender, hts⟩
  exact ⟨room, m, hm, hindex, hkind, hof.refId, hof.text, hsame ▸ hroom, hsender, hts⟩

theorem ofNote_of_doc {n : NoteRow} (hn : n ∈ k.notes) {d : SearchDoc} (hof : n.Indexed d)
    (score : F) : k.OfNote n (.of d score) :=
  ⟨hn, hof.kind, hof.refId, hof.text, hof.sender, hof.ts⟩

variable [LinearOrder F]

theorem sound_search (hr : r.Honest) (hk : Kept u k) (query : String) (limit : ℕ) :
    SoundHits u k scope query kind limit
      (SearchDb.search u r scope k.index query kind limit) := by
  have hfound := @SearchDb.found_search u k.index F r scope kind _ hr hk.inStep.valid hk.tagged
    query limit
  refine ⟨fun h hh => ?_, fun h hh => ?_, hfound.once, hfound.few, hfound.ordered⟩
  · rcases hfound.asked h hh with ⟨d, hd, heq, heligible⟩
    rw [heq]
    rcases hk.kinds d hd with hkind | hkind
    · rcases ofMessage_of_doc hk hd hkind h.score with ⟨room, m, hof⟩
      have hseen := heligible.seen
      have hroom : d.roomId = some room := hof.roomId
      have hsender : d.sender = some m.senderAddress := hof.sender
      simp only [SearchScope.sees, hkind, hroom, hsender, Option.any_some, Bool.and_eq_true,
        decide_eq_true_eq] at hseen
      exact Or.inr ⟨room, m, hof, hseen⟩
    · rcases hk.noted d hd hkind with ⟨n, hn, hof⟩
      exact Or.inl ⟨n, ofNote_of_doc hn hof h.score⟩
  · rcases hfound.asked h hh with ⟨d, hd, heq, heligible⟩
    rw [heq]
    exact ⟨ofKind_iff.1 heligible.kind, heligible.tags⟩

theorem browsed_search (hk : Kept u k) {query : String} (limit : ℕ)
    (htext : ftsQuery u (splitQuery u query).1 = none) :
    Browsed u k scope (splitQuery u query).2 kind (max 1 (min limit 100))
      (SearchDb.search u r scope k.index query kind limit) := by
  have hsearch : SearchDb.search u r scope k.index query kind limit =
      SearchDb.browse r scope k.index kind (k.index.tagFilter (splitQuery u query).2)
        (max 1 (min limit 100)) := by
    simp only [SearchDb.search, htext]
  rw [hsearch]
  rcases @SearchDb.newest_browse u k.index F r scope kind (splitQuery u query).2 _
    hk.inStep.valid hk.tagged (max 1 (min limit 100)) with ⟨-, hnewest, hlisted⟩
  refine ⟨fun hwanted n hn htags => ?_, fun hwanted room m hm hindex hroom hblocked htags => ?_,
    hnewest⟩
  · rcases hk.indexed n hn with ⟨d, hd, hof⟩
    have heligible : SearchDb.Eligible u scope kind (splitQuery u query).2 d := by
      refine ⟨by simp [SearchScope.sees, hof.kind], ofKind_iff.2 fun wanted hw => ?_, ?_⟩
      · rw [hof.kind, hwanted wanted hw]
      · rw [hof.text]
        exact htags
    refine (hlisted d hd heligible).imp (fun h => ⟨_, h, ofNote_of_doc hn hof _⟩) fun h => ?_
    rw [← hof.ts]
    exact h
  · rcases (SearchDb.mirrors_of_inStep hk.inStep).complete room m hm hindex with ⟨d, hd, hof⟩
    rcases @ofMessage_of_doc u k F hk d hd hof.kind r.zero with ⟨room', m', hof'⟩
    have hsame := hk.inStep.valid.distinct.eq_of_id hof'.message hm
      (SearchDb.eq_of_str (hof'.refId.symm.trans hof.refId))
    rw [hsame.1, hsame.2] at hof'
    have hdroom : d.roomId = some room := hof'.roomId
    have hdsender : d.sender = some m.senderAddress := hof'.sender
    have heligible : SearchDb.Eligible u scope kind (splitQuery u query).2 d := by
      refine ⟨?_, ofKind_iff.2 fun wanted hw => ?_, ?_⟩
      · simp [SearchScope.sees, hof.kind, hdroom, hdsender, hroom, hblocked]
      · rw [hof.kind, hwanted wanted hw]
      · rw [hof.text]
        exact htags
    refine (hlisted d hd heligible).imp (fun h => ⟨_, h, hof'⟩) fun h => ?_
    have hts : d.ts = m.messageTimestamp := hof'.ts
    rw [← hts]
    exact h

end Hits

/-! ### Runs -/

/-- A new database. -/
def empty : Knowledge := ⟨⟨[], [], [], 1⟩, []⟩

theorem not_has_nil {room : RoomId} {m : Message} : ¬ Streams.Has [] room m := by
  rintro ⟨st, hst, -⟩
  cases hst

theorem kept_empty : Kept u empty where
  inStep :=
    { valid :=
        { distinct :=
            { rooms := List.nodup_nil
              keyed := fun _ _ h => by cases h
              apart := fun _ _ _ _ h _ _ => absurd h not_has_nil }
          keyed := List.nodup_nil
          ids := List.nodup_nil
          below := fun _ h => by cases h
          owned := fun _ h => by cases h }
      right := fun _ => ⟨fun _ _ h => absurd h not_has_nil, fun _ => rfl⟩
      written := fun _ _ h => absurd h not_has_nil }
  tagged _ hd := by cases hd
  authored _ hd := by cases hd
  ids := List.nodup_nil
  kinds _ hd := by cases hd
  noted _ hd := by cases hd
  indexed _ hn := by cases hn

/-- Whatever is found at any time is a note or a message that is there, with its present text, and
    that the searcher may see. A query without text lists the newest that there are, and one with
    text what matches it. -/
theorem search_run (u : CharClasses) {F : Type} [LinearOrder F] (r : Ranker F) (hr : r.Honest)
    (requests : List Request) :
    Run.Throughout (step u) (fun k => ∀ scope query kind limit,
      SoundHits u k scope query kind limit
        (SearchDb.search u r scope k.index query kind limit) ∧
      (ftsQuery u (splitQuery u query).1 = none →
        Browsed u k scope (splitQuery u query).2 kind (max 1 (min limit 100))
          (SearchDb.search u r scope k.index query kind limit)) ∧
      Ranked u r k scope query kind (max 1 (min limit 100))
        (SearchDb.search u r scope k.index query kind limit)) empty requests := by
  refine Run.throughout_mono (fun k hk scope query kind limit => ?_) _ requests
    (Run.throughout_of_step kept_step _ requests (kept_empty (u := u)))
  exact ⟨sound_search hr hk query limit, fun htext => browsed_search hk limit htext,
    fun fts hfts hfew d hd heligible hlike =>
      SearchDb.search_complete hr hk.inStep.valid hk.tagged hfts hfew hd heligible hlike⟩

/-- The note that a request teaches, if it does. -/
def taughtBy (u : CharClasses) (k : Knowledge) : Request → Option NoteRow
  | .teach id caller content roomId source now =>
      match k.teachNote u id caller content roomId source now with
      | .ok (_, note) => some note.toNoteRow
      | .error _ => none
  | _ => none

/-- The notes after a request: a note that is taught is one more, and a note is gone if its author
    has it forgotten. -/
theorem mem_notes_step (hk : Kept u k) (request : Request) (n : NoteRow) :
    n ∈ (k.step u request).notes ↔
      (n ∈ k.notes ∧ request ≠ .forget n.id n.ownerAddress) ∨ taughtBy u k request = some n := by
  cases request with
  | write change => simp [step, taughtBy]
  | teach id caller content roomId source now =>
      simp only [step, taughtBy]
      cases htaught : k.teachNote u id caller content roomId source now with
      | error e => simp
      | ok taught =>
          rcases teachNote_eq_ok htaught with ⟨text, -, hteach⟩
          simp only [teach] at hteach
          split at hteach
          · cases hteach
          · cases hteach
            simp [eq_comm]
  | forget id caller =>
      simp only [step, taughtBy]
      cases hforgot : k.forgetNote id caller with
      | ok k' =>
          rcases forget_eq_some (forgetNote_eq_ok.1 hforgot) with ⟨⟨row, hrow, howner⟩, rfl⟩
          rw [Table.mem_erase]
          simp only [ne_eq, Request.forget.injEq, reduceCtorEq, or_false]
          refine and_congr_right fun hn => not_congr ⟨fun hid => ⟨hid.symm, ?_⟩, fun h => h.1.symm⟩
          -- The note under the id is the one that was found.
          have hfound := Table.lookup_of_mem hk.ids hn
          rw [hid, hrow, Option.some.injEq] at hfound
          rw [← hfound, howner]
      | error e =>
          simp only [reduceCtorEq, or_false]
          refine ⟨fun hn => ⟨hn, ?_⟩, And.left⟩
          rintro heq
          cases heq
          have hfound := Table.lookup_of_mem hk.ids hn
          simp [forgetNote, forget, hfound] at hforgot

/-- The notes that there are: those that have been taught and that their author has not had
    forgotten since. -/
theorem notes_run (u : CharClasses) (requests : List Request) (n : NoteRow) :
    n ∈ (Run.run (step u) empty requests).notes ↔
      ∃ before request after, requests = before ++ request :: after ∧
        taughtBy u (Run.run (step u) empty before) request = some n ∧
        .forget n.id n.ownerAddress ∉ after := by
  induction requests using List.reverseRecOn with
  | nil => simp [empty]
  | append_singleton requests last ih =>
      have hk : Kept u (Run.run (step u) empty requests) :=
        Run.run_inv kept_step _ requests kept_empty
      rw [Run.run_append, Run.run_cons, Run.run_nil, mem_notes_step hk, ih]
      constructor
      · rintro (⟨⟨before, request, after, rfl, htaught, hkept⟩, hlast⟩ | htaught)
        · refine ⟨before, request, after ++ [last], by simp, htaught, fun hmem => ?_⟩
          rcases List.mem_append.1 hmem with hmem | hmem
          · exact hkept hmem
          · exact hlast (List.mem_singleton.1 hmem).symm
        · exact ⟨requests, last, [], rfl, htaught, List.not_mem_nil⟩
      · rintro ⟨before, request, after, hsplit, htaught, hkept⟩
        rcases List.eq_nil_or_concat' after with rfl | ⟨after, e, rfl⟩
        · have hlast := List.append_inj' hsplit rfl
          rw [List.cons.injEq] at hlast
          rw [hlast.1, hlast.2.1]
          exact Or.inr htaught
        · have hlast : requests ++ [last] = (before ++ request :: after) ++ [e] := by
            rw [hsplit]
            simp
          rcases List.append_inj' hlast rfl with ⟨rfl, heq⟩
          cases heq
          refine Or.inl ⟨⟨before, request, after, rfl, htaught, fun hmem => hkept ?_⟩, ?_⟩
          · exact List.mem_append_left _ hmem
          · rintro rfl
            exact hkept (List.mem_append_right _ (List.mem_singleton.2 rfl))

end Knowledge

namespace Sample

/-- Every document matches, in the order of the table, and scores fall with the rank. -/
def inTableOrder : Ranker ℕ where
  matched := fun _ docs => docs
  cosine := fun _ _ => none
  positive := fun _ => false
  zero := 0
  add := (· + ·)
  recip := fun rank => 1000 / (60 + rank + 1)

/-- A note is taught, and somebody else tries to have it forgotten. -/
def taught : List Knowledge.Request :=
  [.teach "n1" alice (some "the spare key hangs by the door #home") none none 5,
    .forget "n1" bob]

theorem search_run_taught :
    Knowledge.SoundHits ascii (Run.run (Knowledge.step ascii) Knowledge.empty taught) ⟨[], []⟩
        "#home key" none 20 (SearchDb.search ascii inTableOrder ⟨[], []⟩
          (Run.run (Knowledge.step ascii) Knowledge.empty taught).index "#home key" none 20) ∧
      (SearchDb.search ascii inTableOrder ⟨[], []⟩
        (Run.run (Knowledge.step ascii) Knowledge.empty taught).index "#home key" none 20).map
          SearchHit.refId = ["n1"] :=
  ⟨(Run.throughout_last _ _ (Knowledge.search_run ascii inTableOrder
    (fun _ docs => List.Subperm.refl docs) taught) ⟨[], []⟩ "#home key" none 20).1,
      by decide +kernel⟩

end Sample

end PocketSkynet
