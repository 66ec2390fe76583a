import PocketSkynet.Client.Convergence

/-!
# The Part of a Stream that a Viewer Sees

The reads leave out the rows of those whom the viewer blocks. What is left of a stream is a
stream again, whose pending rows are the ones that the viewer is sent. `Follows` is what a client
that is sent them knows, and all it says is said of those who are not hidden: what is held of
their messages, whose messages those are, and which of their reactions stand. Of the reactions
to a deleted message it says nothing, whoever wrote it.

Reading keeps it, by the step lemmas of tracking. A write changes the part that is seen as it
changes the whole, unless its row is hidden; but a purge by somebody hidden takes the rows away
and leaves no marker that is seen.

## Main definitions

* `Stream.seen`: The part that is seen.
* `Follows`: The client's knowledge of it.
* `HoldsNone`, `Swept`, `TakenIn`: What is needed where a purge, a block or an unblock is seen.

## Theorems

* `follows_fold`, `follows_mergeHistory`: Reading keeps it.
* `grows_seen`, `follows_apply`: So do writes.
* `follows_block`, `follows_unblock`: And changes of who is hidden.
-/

namespace PocketSkynet

variable {hides : WalletAddress → Bool}

namespace Stream

/-- The rows of those who are not hidden. -/
def seen (s : Stream) (hides : WalletAddress → Bool) : Stream :=
  { s with rows := s.rows.filter fun m => !hides m.senderAddress }

variable {s : Stream}

theorem mem_seen {r : Message} :
    r ∈ (s.seen hides).rows ↔ r ∈ s.rows ∧ hides r.senderAddress = false := by
  rw [seen, List.mem_filter, Bool.not_eq_true']

theorem wellFormed_seen (hs : s.WellFormed) (hides : WalletAddress → Bool) :
    (s.seen hides).WellFormed where
  keyed := Table.keyed_filter _ hs.keyed
  serials := Table.keyed_filter _ hs.serials
  below := fun m hm => hs.below m (mem_seen.1 hm).1
  positive := fun m hm => hs.positive m (mem_seen.1 hm).1
  tombstone := fun m hm => hs.tombstone m (mem_seen.1 hm).1
  started := hs.started

theorem regular_seen (hs : s.Regular) (hides : WalletAddress → Bool) :
    (s.seen hides).Regular where
  wellFormed := wellFormed_seen hs.wellFormed hides
  marker := fun m hm hkind r hr => hs.marker m (mem_seen.1 hm).1 hkind r (mem_seen.1 hr).1

end Stream

namespace Message

-- An event that names a reaction is sent by the reactor.
theorem sender_of_reaction {e : Message} {τ : Reaction} (h : e.reaction? = some τ) :
    τ.sender = e.senderAddress := by
  unfold reaction? at h
  cases htarget : e.targetMessageId with
  | none =>
      rw [htarget] at h
      cases h
  | some target =>
      cases hcode : e.emoticonCode with
      | none =>
          rw [htarget, hcode] at h
          cases h
      | some code =>
          rw [htarget, hcode] at h
          cases h
          rfl

end Message

/-- What a client knows of the part of a stream that it sees. -/
structure Follows (hides : WalletAddress → Bool) (s : Stream) (st : RoomState) : Prop where
  keyed : Table.Keyed Message.id st.messages
  bounded : st.cursor < s.nextSerial
  messages : (s.seen hides).MarkersFolded st.cursor → ∀ r ∈ (s.seen hides).rows,
    r.isMessage = true → r.msgSerial ≤ st.cursor →
      st.held r.id = if r.displayable then some r else none
  owned : ∀ m ∈ st.messages, hides m.senderAddress = false →
    (∃ r ∈ s.rows, r.id = m.id ∧ r.isMessage = true ∧ r.senderAddress = m.senderAddress) ∨
      ¬ (s.seen hides).MarkersFolded st.cursor
  reactions : (s.seen hides).MarkersFolded st.cursor → ∀ τ : Reaction, hides τ.sender = false →
    (∀ r ∈ s.rows, r.id = τ.target → r.kind ≠ .delete) →
    (∀ r ∈ (s.seen hides).rows, r.isReaction = true → r.reaction? = some τ →
      r.msgSerial ≤ st.cursor) → (τ ∈ st.reactions ↔ Reacts (s.seen hides).rows τ)

section Steps

variable {s : Stream} {st : RoomState}

-- All events of a reaction are sent by the reactor, so they are seen or hidden together.
theorem mem_seen_of_reaction {τ : Reaction} (hvis : hides τ.sender = false) {r : Message}
    (hrτ : r.reaction? = some τ) : r ∈ (s.seen hides).rows ↔ r ∈ s.rows := by
  rw [Stream.mem_seen, ← Message.sender_of_reaction hrτ]
  exact and_iff_left hvis

theorem reacts_seen {τ : Reaction} (hvis : hides τ.sender = false) :
    Reacts (s.seen hides).rows τ ↔ Reacts s.rows τ := by
  constructor
  · rintro ⟨r, hr, hadd, hrτ, hmax⟩
    refine ⟨r, (mem_seen_of_reaction hvis hrτ).1 hr, hadd, hrτ, fun r' hr' hrk' hrτ' => ?_⟩
    exact hmax r' ((mem_seen_of_reaction hvis hrτ').2 hr') hrk' hrτ'
  · rintro ⟨r, hr, hadd, hrτ, hmax⟩
    refine ⟨r, (mem_seen_of_reaction hvis hrτ).2 hr, hadd, hrτ, fun r' hr' hrk' hrτ' => ?_⟩
    exact hmax r' ((mem_seen_of_reaction hvis hrτ').1 hr') hrk' hrτ'

/-! ### Reading -/

-- A client that has folded nothing knows all there is to know.
theorem follows_empty (hs : s.Regular) (hides : WalletAddress → Bool) :
    Follows hides s RoomState.empty := by
  refine ⟨Table.keyed_nil, hs.wellFormed.started, ?_, ?_, ?_⟩
  · intro _ r hr _ hle
    exact absurd hle (Nat.not_le.2 (hs.wellFormed.positive r (Stream.mem_seen.1 hr).1))
  · intro m hm
    cases hm
  · intro _ τ _ _ hevents
    constructor
    · intro hτ
      exact absurd hτ (Finset.notMem_empty τ)
    · rintro ⟨r, hr, hadd, hrτ, -⟩
      have hle := hevents r hr (isReaction_of_add hadd) hrτ
      exact absurd hle (Nat.not_le.2 (hs.wellFormed.positive r (Stream.mem_seen.1 hr).1))

-- A marker is folded: everything goes, and everything else is pending.
theorem follows_cleared (hs : s.Regular) (hf : Follows hides s st) {e : Message}
    (he : e ∈ (s.seen hides).rows) (hpending : st.cursor < e.msgSerial)
    (hkind : e.kind = .deleteAll) : Follows hides s (st.foldOne e) := by
  have hfold : st.foldOne e =
      { messages := [], reactions := ∅, cursor := max st.cursor e.msgSerial,
        hasMoreHistory := false } := by
    simp [RoomState.foldOne, hkind]
  have honly : ∀ r ∈ (s.seen hides).rows, r.msgSerial ≤ (st.foldOne e).cursor → r = e := by
    intro r hr hle
    by_contra hne
    have hlt := (Stream.regular_seen hs hides).marker e he hkind r hr hne
    rw [RoomState.cursor_foldOne] at hle
    omega
  refine ⟨?_, ?_, ?_, ?_, ?_⟩
  · rw [hfold]
    exact Table.keyed_nil
  · have hlt := hs.wellFormed.below e (Stream.mem_seen.1 he).1
    have hbound := hf.bounded
    rw [RoomState.cursor_foldOne]
    omega
  · intro _ r hr hmsg hle
    rw [honly r hr hle, Message.isMessage, hkind] at hmsg
    cases hmsg
  · intro m hm
    rw [hfold] at hm
    cases hm
  · intro _ τ _ _ hevents
    rw [hfold]
    refine ⟨fun hτ => absurd hτ (Finset.notMem_empty τ), ?_⟩
    rintro ⟨r, hr, hadd, hrτ, -⟩
    rw [honly r hr (hevents r hr (isReaction_of_add hadd) hrτ), hkind] at hadd
    cases hadd

/-- Folding the next row that is seen. -/
theorem follows_next (hs : s.Regular) (hf : Follows hides s st) {e : Message}
    (he : e ∈ (s.seen hides).rows) (hpending : st.cursor < e.msgSerial)
    (hnext : ∀ r ∈ (s.seen hides).rows, st.cursor < r.msgSerial → e.msgSerial ≤ r.msgSerial) :
    Follows hides s (st.foldOne e) := by
  by_cases hkind : e.kind = .deleteAll
  · exact follows_cleared hs hf he hpending hkind
  have hseen := Stream.regular_seen hs hides
  have hrow : e ∈ s.rows := (Stream.mem_seen.1 he).1
  have hmarkers := markersFolded_next hseen he hpending hnext hkind
  refine ⟨st.keyed_foldOne e hf.keyed, ?_, ?_, ?_, ?_⟩
  · have hlt := hs.wellFormed.below e hrow
    rw [RoomState.cursor_foldOne]
    exact max_lt hf.bounded hlt
  · intro hm r hr hmsg hle
    exact held_next hseen he hpending hnext hkind hr hmsg
      (hf.messages (hmarkers.1 hm) r hr hmsg) hle
  · intro m hm hvis
    rw [hmarkers]
    rcases @RoomState.mem_fold _ [e] _ hm with hold | ⟨hnew, hrender⟩
    · exact hf.owned m hold hvis
    · rw [List.mem_singleton.1 hnew] at hrender ⊢
      refine Or.inl ⟨e, hrow, rfl, ?_, rfl⟩
      rcases renderable_cases hrender with hk | hk <;> simp [Message.isMessage, hk]
  · intro hm τ hvis hlive hevents
    exact reactions_next hseen he hpending hnext hkind
      (fun hk h => hlive e hrow h.symm hk) (hf.reactions (hmarkers.1 hm) τ hvis hlive) hevents

/-- Folding the rows that are sent, from the first one on. -/
theorem follows_fold (hs : s.Regular) (hf : Follows hides s st) (k : Nat) :
    Follows hides s (st.fold ((s.pending hides st.cursor).take k)) := by
  have hqueue : ∀ r, r ∈ (s.pending hides st.cursor).take k ++
      (s.pending hides st.cursor).drop k ↔ r ∈ (s.seen hides).rows ∧ st.cursor < r.msgSerial := by
    intro r
    rw [List.take_append_drop, Stream.mem_pending, Stream.mem_seen]
    exact ⟨fun h => ⟨⟨h.1, h.2.2⟩, h.2.1⟩, fun h => ⟨h.1.1, h.2, h.1.2⟩⟩
  refine fold_queue (J := Follows hides s) (fun st e hf he hpending hnext => ?_) _ _ hqueue ?_ hf
  · exact follows_next hs hf he hpending hnext
  · rw [List.take_append_drop]
    exact Stream.pending_sorted hs.wellFormed hides st.cursor

/-- Merging a row of history that is seen. -/
theorem follows_mergeOne (hs : s.Regular) (hf : Follows hides s st) {m : Message}
    (hm : m ∈ (s.seen hides).rows) : Follows hides s (st.mergeOne m) := by
  have hk : Table.Keyed Message.id (st.mergeOne m).messages := st.keyed_mergeHistory [m] hf.keyed
  refine ⟨hk, ?_, ?_, ?_, ?_⟩
  · rw [RoomState.cursor_mergeOne]
    exact hf.bounded
  · intro hmarkers r hr hmsg hle
    rw [RoomState.cursor_mergeOne] at hmarkers hle
    rw [RoomState.held_mergeOne, hf.messages hmarkers r hr hmsg hle]
    split
    next hsame =>
      -- The row of history is the row itself.
      rw [(Stream.wellFormed_seen hs.wellFormed hides).eq_of_id hr hm hsame.1, hsame.2]
      rfl
    next => rfl
  · intro x hx hvis
    rw [RoomState.cursor_mergeOne]
    rcases @RoomState.mem_mergeHistory _ [m] _ hx with hold | hnew
    · exact hf.owned x hold hvis
    · have hxm : x = m := List.mem_singleton.1 hnew
      cases hd : m.displayable with
      | true => exact Or.inl ⟨m, (Stream.mem_seen.1 hm).1, by rw [hxm],
          Message.isMessage_of_displayable hd, by rw [hxm]⟩
      | false =>
          rw [RoomState.mergeOne, hd, if_neg Bool.false_ne_true] at hx
          exact hf.owned x hx hvis
  · intro hmarkers τ hvis hlive hevents
    rw [RoomState.cursor_mergeOne] at hmarkers hevents
    rw [RoomState.reactions_mergeOne]
    exact hf.reactions hmarkers τ hvis hlive hevents

theorem follows_mergeHistory (hs : s.Regular) (page : List Message)
    (hpage : ∀ m ∈ page, m ∈ (s.seen hides).rows) (hf : Follows hides s st) :
    Follows hides s (st.mergeHistory page) := by
  induction page generalizing st with
  | nil => exact hf
  | cons m ms ih =>
      rw [RoomState.mergeHistory_cons]
      exact ih (fun x hx => hpage x (List.mem_cons_of_mem m hx))
        (follows_mergeOne hs hf (hpage m List.mem_cons_self))

/-! ### Writing -/

-- A row that is not there is not updated.
theorem modify_of_none {rows : List Message} {id : MessageId} {f : Message → Message}
    (h : Table.lookup Message.id id rows = none) : Table.modify Message.id id f rows = rows := by
  refine (List.map_congr_left fun x hx => ?_).trans (List.map_id rows)
  exact if_neg (Table.lookup_eq_none.1 h x hx)

-- Who sent a row is not changed, so the update can be made on what is seen.
theorem filter_modify {rows : List Message} {id : MessageId} {f : Message → Message}
    (hf : ∀ x, (f x).senderAddress = x.senderAddress) :
    (Table.modify Message.id id f rows).filter (fun m => !hides m.senderAddress) =
      Table.modify Message.id id f (rows.filter fun m => !hides m.senderAddress) := by
  rw [Table.modify, List.filter_map, Table.modify]
  refine congrArg _ (List.filter_congr fun x _ => ?_)
  dsimp only [Function.comp]
  by_cases hid : x.id = id
  · rw [if_pos hid, hf]
  · rw [if_neg hid]

/-- An update of a row, seen through a filter. -/
theorem grows_seen_modify {n : Nat} {rows : List Message} (hk : Table.Keyed Message.id rows)
    {id : MessageId} {m : Message} (hm : Table.lookup Message.id id rows = some m)
    {f : Message → Message} (hf : ∀ x, (f x).senderAddress = x.senderAddress)
    (hgrows : Table.lookup Message.id id (rows.filter fun x => !hides x.senderAddress) = some m →
      Grows n (rows.filter fun x => !hides x.senderAddress)
        (Table.modify Message.id id f (rows.filter fun x => !hides x.senderAddress))) :
    Grows n (rows.filter fun x => !hides x.senderAddress)
      ((Table.modify Message.id id f rows).filter fun x => !hides x.senderAddress) := by
  rw [filter_modify hf]
  have hlook := Table.lookup_filter_of_keyed hk (fun x => !hides x.senderAddress) id
  rw [hm, Option.filter_some] at hlook
  cases hvis : hides m.senderAddress with
  | false =>
      rw [hvis] at hlook
      exact hgrows hlook
  | true =>
      -- The row is hidden, and nothing is to be seen of its update.
      rw [hvis] at hlook
      rw [modify_of_none hlook]
      exact ⟨fun x hx => Or.inl hx, fun r hr => Or.inl hr⟩

/-- A new row, seen through a filter. -/
theorem grows_seen_append {n : Nat} {rows : List Message} {x : Message} (hn : x.msgSerial = n)
    (hkind : x.kind ≠ .deleteAll) :
    Grows n (rows.filter fun m => !hides m.senderAddress)
      ((rows ++ [x]).filter fun m => !hides m.senderAddress) := by
  rw [List.filter_append]
  cases hvis : hides x.senderAddress with
  | false =>
      rw [List.filter_singleton, hvis]
      exact grows_append hn hkind
  | true =>
      rw [List.filter_singleton, hvis]
      exact ⟨fun y hy => Or.inl (by simpa using hy), fun r hr => Or.inl (by simpa using hr)⟩

/-- A write that is no purge, seen through a filter. -/
theorem grows_seen (hs : s.Regular) {m : Mutation} {n : Nat} {rows' : List Message}
    (hm : m.OnMessages s) (h : RowsStep n s.rows m rows')
    (hpurge : ∀ now caller id, m ≠ .deleteAllMessages now caller id)
    (hides : WalletAddress → Bool) :
    Grows n (s.rows.filter fun x => !hides x.senderAddress)
      (rows'.filter fun x => !hides x.senderAddress) := by
  have hk := hs.wellFormed.keyed
  have hkf := Table.keyed_filter (fun x : Message => !hides x.senderAddress) hk
  cases h with
  | created now new hid => exact grows_seen_append rfl (by simp [Stream.newRow])
  | reacted now id sender target code hash add hid =>
      cases add
      · exact grows_seen_append rfl (by simp [Stream.eventRow])
      · exact grows_seen_append rfl (by simp [Stream.eventRow])
  | edited now id e r hr hd =>
      refine grows_seen_modify hk hr (fun _ => rfl) fun hseen => ?_
      exact grows_edited hkf hseen (hm r (getMessage_of_live hr hd)) e
  | deleted now id r hr hd =>
      refine grows_seen_modify hk hr (fun _ => rfl) fun hseen => ?_
      exact grows_deleted hkf hseen (hm r (getMessage_of_live hr hd))
  | missed now id => exact ⟨fun x hx => Or.inl hx, fun r hr => Or.inl hr⟩
  | purged now caller markerId => exact absurd rfl (hpurge now caller markerId)
  | published now id hash r hr =>
      have hkind : r.kind ≠ .deleteAll := hm r hr
      refine grows_seen_modify hk hr (fun _ => rfl) fun hseen => ?_
      exact grows_modify hkf hseen rfl rfl hkind hkind (fun h => h) (fun h => h) fun h => ⟨h, rfl⟩

-- A row stays, as the row of a message by the same sender, unless there is a purge.
theorem row_of_rowsStep {m : Mutation} {n : Nat} {rows' : List Message}
    (h : RowsStep n s.rows m rows')
    (hpurge : ∀ now caller id, m ≠ .deleteAllMessages now caller id) {r : Message}
    (hr : r ∈ s.rows) (hmsg : r.isMessage = true) :
    ∃ x ∈ rows', x.id = r.id ∧ x.isMessage = true ∧ x.senderAddress = r.senderAddress := by
  -- An update keeps the id and the sender of the row it is made on.
  have hmodify : ∀ (id : MessageId) (f : Message → Message), (∀ x, (f x).id = x.id) →
      (∀ x, (f x).senderAddress = x.senderAddress) →
      (∀ x, x.isMessage = true → (f x).isMessage = true) →
      ∃ x ∈ Table.modify Message.id id f s.rows, x.id = r.id ∧ x.isMessage = true ∧
        x.senderAddress = r.senderAddress := by
    intro id f hfid hfsender hfmsg
    refine ⟨if r.id = id then f r else r, Table.mem_modify.2 ⟨r, hr, rfl⟩, ?_⟩
    by_cases hid : r.id = id
    · rw [if_pos hid]
      exact ⟨hfid r, hfmsg r hmsg, hfsender r⟩
    · rw [if_neg hid]
      exact ⟨rfl, hmsg, rfl⟩
  cases h with
  | created | reacted => exact ⟨r, List.mem_append_left _ hr, rfl, hmsg, rfl⟩
  | edited now id e =>
      exact hmodify id _ (fun _ => rfl) (fun _ => rfl) fun x _ => by
        simp [Stream.editRow, Message.isMessage]
  | deleted now id =>
      exact hmodify id _ (fun _ => rfl) (fun _ => rfl) fun x _ => by
        simp [Stream.deleteRow, Message.isMessage]
  | missed => exact ⟨r, hr, rfl, hmsg, rfl⟩
  | purged now caller markerId => exact absurd rfl (hpurge now caller markerId)
  | published now id hash => exact hmodify id _ (fun _ => rfl) (fun _ => rfl) fun x hx => hx

/-- Nothing is held of those who are not hidden. -/
def HoldsNone (hides : WalletAddress → Bool) (st : RoomState) : Prop :=
  (∀ m ∈ st.messages, hides m.senderAddress = true) ∧ ∀ τ ∈ st.reactions, hides τ.sender = true

instance (hides : WalletAddress → Bool) (st : RoomState) : Decidable (HoldsNone hides st) :=
  inferInstanceAs (Decidable (_ ∧ ∀ τ ∈ st.reactions, _))

-- Where nothing is held and nothing seen, nothing is amiss.
theorem follows_none (hk : Table.Keyed Message.id st.messages) (hnone : HoldsNone hides st)
    (hrows : (s.seen hides).rows = []) (hbound : st.cursor < s.nextSerial) :
    Follows hides s st := by
  refine ⟨hk, hbound, ?_, ?_, ?_⟩
  · intro _ r hr
    rw [hrows] at hr
    cases hr
  · intro m hm hvis
    rw [hnone.1 m hm] at hvis
    cases hvis
  · intro _ τ hvis _ _
    constructor
    · intro hτ
      rw [hnone.2 τ hτ] at hvis
      cases hvis
    · rintro ⟨r, hr, -⟩
      rw [hrows] at hr
      cases hr

-- A purge that is seen: its marker is pending, and until it is folded nothing is claimed.
theorem follows_marker (hk : Table.Keyed Message.id st.messages) (hbound : st.cursor < s.nextSerial)
    {x : Message} (hx : x ∈ (s.seen hides).rows) (hkind : x.kind = .deleteAll)
    (hpending : st.cursor < x.msgSerial) : Follows hides s st := by
  have hnot : ¬ (s.seen hides).MarkersFolded st.cursor := by
    intro h
    have hle := h x hx hkind
    omega
  exact ⟨hk, hbound, fun h => absurd h hnot, fun _ _ _ => Or.inr hnot, fun h => absurd h hnot⟩

/-- A write that is no purge. -/
theorem follows_grows {s' : Stream} {n : Nat} (hn : s.nextSerial ≤ n)
    (hnext : s'.nextSerial = n + 1) (hall : Grows n s.rows s'.rows)
    (hg : Grows n (s.seen hides).rows (s'.seen hides).rows)
    (hrow : ∀ r ∈ s.rows, r.isMessage = true →
      ∃ x ∈ s'.rows, x.id = r.id ∧ x.isMessage = true ∧ x.senderAddress = r.senderAddress)
    (hf : Follows hides s st) : Follows hides s' st := by
  have hbehind : st.cursor < n := lt_of_lt_of_le hf.bounded hn
  refine ⟨hf.keyed, by omega, ?_, ?_, ?_⟩
  · intro hm r hr hmsg hle
    rcases hg.back r hr with hr | ⟨hserial, -⟩
    · exact hf.messages ((markersFolded_grows hg _).1 hm) r hr hmsg hle
    · omega
  · intro m hm hvis
    rw [markersFolded_grows hg]
    rcases hf.owned m hm hvis with ⟨r, hr, hid, hmsg, hsender⟩ | hnot
    · rcases hrow r hr hmsg with ⟨x, hx, hxid, hxmsg, hxsender⟩
      exact Or.inl ⟨x, hx, hxid.trans hid, hxmsg, hxsender.trans hsender⟩
    · exact Or.inr hnot
  · intro hm τ hvis hlive hevents
    rw [reacts_grows hg hbehind hevents]
    refine hf.reactions ((markersFolded_grows hg _).1 hm) τ hvis ?_ ?_
    · -- What is deleted stays deleted, hidden or not.
      intro r hr hid hdel
      rcases hall.forth r hr with hr | ⟨-, x, hx, -, hxid, -, htomb, -⟩
      · exact hlive r hr hid hdel
      · exact hlive x hx (hxid.trans hid) (htomb hdel)
    · intro r hr hrk hrτ
      rcases hg.forth r hr with hr | ⟨-, x, hx, hserial, -, -, -, hreact⟩
      · exact hevents r hr hrk hrτ
      · rcases hreact hrk with ⟨hxk, hxτ⟩
        have hle := hevents x hx hxk (hxτ.trans hrτ)
        omega

/-- A write. Somebody hidden may purge the room only when there is nothing to be missed. -/
theorem follows_apply (hs : s.Regular) (m : Mutation) (hm : m.OnMessages s)
    (hpurge : ∀ now caller id, m = .deleteAllMessages now caller id → hides caller = true →
      HoldsNone hides st) (hf : Follows hides s st) : Follows hides (s.apply m) st := by
  rcases s.apply_cases m with hsame | ⟨n, hn, hnext, hstep⟩
  · rwa [hsame]
  have hbehind : st.cursor < n := lt_of_lt_of_le hf.bounded hn
  have hbound : st.cursor < (s.apply m).nextSerial := by omega
  by_cases hp : ∃ now caller id, m = .deleteAllMessages now caller id
  · rcases hp with ⟨now, caller, id, rfl⟩
    generalize s.apply (.deleteAllMessages now caller id) = s' at hstep hbound ⊢
    generalize hrows : s'.rows = rows' at hstep
    cases hstep with
    | purged =>
        cases hvis : hides caller with
        | true =>
            refine follows_none hf.keyed (hpurge now caller id rfl hvis) ?_ hbound
            rw [Stream.seen, hrows, List.filter_singleton]
            simp [Stream.eventRow, hvis]
        | false =>
            have hmarker : Stream.eventRow id caller "" now n .deleteAll none none ∈
                (s'.seen hides).rows := by
              rw [Stream.mem_seen, hrows]
              exact ⟨List.mem_singleton_self _, hvis⟩
            exact follows_marker hf.keyed hbound hmarker rfl hbehind
  · have hother : ∀ now caller id, m ≠ .deleteAllMessages now caller id :=
      fun now caller id h => hp ⟨now, caller, id, h⟩
    have hall : Grows n s.rows (s.apply m).rows := by
      have hself := grows_seen hs hm hstep hother nobody
      simpa [nobody] using hself
    exact follows_grows hn hnext hall (grows_seen hs hm hstep hother hides)
      (fun r hr hmsg => row_of_rowsStep hstep hother hr hmsg) hf

/-! ### Changing who is hidden -/

variable {hides' : WalletAddress → Bool} {who : WalletAddress}

/-- Nothing is held of those who are not hidden but what has a row. -/
def Swept (hides : WalletAddress → Bool) (s : Stream) (st : RoomState) : Prop :=
  (∀ m ∈ st.messages, hides m.senderAddress = false → ∃ r ∈ s.rows, r.id = m.id ∧
    r.isMessage = true ∧ r.senderAddress = m.senderAddress) ∧
  ∀ τ ∈ st.reactions, hides τ.sender = false →
    ∃ r ∈ s.rows, r.isReaction = true ∧ r.reaction? = some τ

instance (hides : WalletAddress → Bool) (s : Stream) (st : RoomState) :
    Decidable (Swept hides s st) :=
  inferInstanceAs (Decidable (_ ∧ ∀ τ ∈ st.reactions, _))

/-- Somebody is hidden. If a purge of theirs is pending, nothing that it took may be held. -/
theorem follows_block (hs : s.Regular)
    (hides_iff : ∀ a, hides' a = false ↔ hides a = false ∧ a ≠ who)
    (hswept : (∃ x ∈ s.rows, x.kind = .deleteAll ∧ x.senderAddress = who ∧
      st.cursor < x.msgSerial) → Swept hides' s st)
    (hf : Follows hides s st) : Follows hides' s st := by
  have hseen : ∀ {r}, r ∈ (s.seen hides').rows → r ∈ (s.seen hides).rows := by
    intro r hr
    rcases Stream.mem_seen.1 hr with ⟨hr, hvis⟩
    exact Stream.mem_seen.2 ⟨hr, ((hides_iff _).1 hvis).1⟩
  by_cases hp : ∃ x ∈ s.rows, x.kind = .deleteAll ∧ x.senderAddress = who ∧ st.cursor < x.msgSerial
  · have hsweptnow := hswept hp
    rcases hp with ⟨x, hx, hkind, -, hpending⟩
    -- Every row is pending.
    have hlate : ∀ r ∈ s.rows, st.cursor < r.msgSerial := by
      intro r hr
      by_cases hrx : r = x
      · rw [hrx]
        exact hpending
      · exact lt_trans hpending (hs.marker x hx hkind r hr hrx)
    refine ⟨hf.keyed, hf.bounded, ?_, fun m hm hvis => Or.inl (hsweptnow.1 m hm hvis), ?_⟩
    · intro _ r hr _ hle
      exact absurd hle (Nat.not_le.2 (hlate r (Stream.mem_seen.1 hr).1))
    · intro _ τ hvis _ hevents
      constructor
      · intro hτ
        rcases hsweptnow.2 τ hτ hvis with ⟨r, hr, hrk, hrτ⟩
        have hrvis : hides' r.senderAddress = false := by
          rw [← Message.sender_of_reaction hrτ]
          exact hvis
        have hle := hevents r (Stream.mem_seen.2 ⟨hr, hrvis⟩) hrk hrτ
        exact absurd hle (Nat.not_le.2 (hlate r hr))
      · rintro ⟨r, hr, hadd, hrτ, -⟩
        have hle := hevents r hr (isReaction_of_add hadd) hrτ
        exact absurd hle (Nat.not_le.2 (hlate r (Stream.mem_seen.1 hr).1))
  · have hmarkers : (s.seen hides').MarkersFolded st.cursor →
        (s.seen hides).MarkersFolded st.cursor := by
      intro h x hx hkind
      rcases Stream.mem_seen.1 hx with ⟨hxrow, hxvis⟩
      by_cases hwho : x.senderAddress = who
      · by_contra hlt
        exact hp ⟨x, hxrow, hkind, hwho, Nat.not_le.1 hlt⟩
      · exact h x (Stream.mem_seen.2 ⟨hxrow, (hides_iff _).2 ⟨hxvis, hwho⟩⟩) hkind
    refine ⟨hf.keyed, hf.bounded, ?_, ?_, ?_⟩
    · exact fun hm r hr hmsg hle => hf.messages (hmarkers hm) r (hseen hr) hmsg hle
    · intro m hm hvis
      rcases hf.owned m hm ((hides_iff _).1 hvis).1 with hrow | hnot
      · exact Or.inl hrow
      · exact Or.inr fun h => hnot (hmarkers h)
    · intro hm τ hvis hlive hevents
      have hbefore := ((hides_iff _).1 hvis).1
      rw [reacts_seen hvis, ← reacts_seen hbefore]
      refine hf.reactions (hmarkers hm) τ hbefore hlive fun r hr hrk hrτ => ?_
      have hrow := (mem_seen_of_reaction hbefore hrτ).1 hr
      exact hevents r ((mem_seen_of_reaction hvis hrτ).2 hrow) hrk hrτ

/-- The reaction is to no deleted message, and none of its events is pending. -/
def AllPassed (s : Stream) (st : RoomState) (τ : Reaction) : Prop :=
  (∀ r ∈ s.rows, r.id = τ.target → r.kind ≠ .delete) ∧
    ∀ r ∈ s.rows, r.isReaction = true → r.reaction? = some τ → r.msgSerial ≤ st.cursor

instance (s : Stream) (st : RoomState) (τ : Reaction) : Decidable (AllPassed s st τ) :=
  inferInstanceAs (Decidable (_ ∧ _))

instance (rows : List Message) (τ : Reaction) : Decidable (Reacts rows τ) :=
  inferInstanceAs (Decidable (∃ r ∈ rows, _))

/-- What the cursor has passed of somebody's rows has been taken in: their messages are held in
    their last version, and none that was deleted or purged; and of their reactions those are
    held that stand. -/
structure TakenIn (s : Stream) (st : RoomState) (who : WalletAddress) : Prop where
  messages : ∀ r ∈ s.rows, r.senderAddress = who → r.isMessage = true → r.msgSerial ≤ st.cursor →
    st.held r.id = if r.displayable then some r else none
  owned : ∀ m ∈ st.messages, m.senderAddress = who →
    ∃ r ∈ s.rows, r.id = m.id ∧ r.isMessage = true ∧ r.senderAddress = who
  stand : ∀ τ ∈ st.reactions, τ.sender = who → AllPassed s st τ → Reacts s.rows τ
  reactions : ∀ r ∈ s.rows, ∀ τ ∈ r.reaction?, τ.sender = who → AllPassed s st τ →
    Reacts s.rows τ → τ ∈ st.reactions

instance (s : Stream) (st : RoomState) (who : WalletAddress) : Decidable (TakenIn s st who) :=
  decidable_of_iff
    ((∀ r ∈ s.rows, r.senderAddress = who → r.isMessage = true → r.msgSerial ≤ st.cursor →
        st.held r.id = if r.displayable then some r else none) ∧
      (∀ m ∈ st.messages, m.senderAddress = who →
        ∃ r ∈ s.rows, r.id = m.id ∧ r.isMessage = true ∧ r.senderAddress = who) ∧
      (∀ τ ∈ st.reactions, τ.sender = who → AllPassed s st τ → Reacts s.rows τ) ∧
      ∀ r ∈ s.rows, ∀ τ ∈ r.reaction?, τ.sender = who → AllPassed s st τ →
        Reacts s.rows τ → τ ∈ st.reactions)
    ⟨fun h => ⟨h.1, h.2.1, h.2.2.1, h.2.2.2⟩, fun h => ⟨h.1, h.2, h.3, h.4⟩⟩

/-- Somebody is no longer hidden. What the cursor has passed of theirs must have been taken in. -/
theorem follows_unblock
    (hides_iff : ∀ a, hides' a = false ↔ hides a = false ∨ a = who)
    (htaken : (s.seen hides').MarkersFolded st.cursor → TakenIn s st who)
    (hf : Follows hides s st) : Follows hides' s st := by
  have hmarkers : (s.seen hides').MarkersFolded st.cursor →
      (s.seen hides).MarkersFolded st.cursor := by
    intro h x hx hkind
    rcases Stream.mem_seen.1 hx with ⟨hxrow, hxvis⟩
    exact h x (Stream.mem_seen.2 ⟨hxrow, (hides_iff _).2 (Or.inl hxvis)⟩) hkind
  refine ⟨hf.keyed, hf.bounded, ?_, ?_, ?_⟩
  · intro hm r hr hmsg hle
    rcases Stream.mem_seen.1 hr with ⟨hrow, hvis⟩
    rcases (hides_iff _).1 hvis with hbefore | hwho
    · exact hf.messages (hmarkers hm) r (Stream.mem_seen.2 ⟨hrow, hbefore⟩) hmsg hle
    · exact (htaken hm).messages r hrow hwho hmsg hle
  · intro m hm hvis
    by_cases hfolded : (s.seen hides').MarkersFolded st.cursor
    · rcases (hides_iff _).1 hvis with hbefore | hwho
      · rcases hf.owned m hm hbefore with hrow | hnot
        · exact Or.inl hrow
        · exact absurd (hmarkers hfolded) hnot
      · rw [hwho]
        exact Or.inl ((htaken hfolded).owned m hm hwho)
    · exact Or.inr hfolded
  · intro hm τ hvis hlive hevents
    rw [reacts_seen hvis]
    rcases (hides_iff _).1 hvis with hbefore | hwho
    · rw [← reacts_seen hbefore]
      refine hf.reactions (hmarkers hm) τ hbefore hlive fun r hr hrk hrτ => ?_
      have hrow := (mem_seen_of_reaction hbefore hrτ).1 hr
      exact hevents r ((mem_seen_of_reaction hvis hrτ).2 hrow) hrk hrτ
    · have hsettled : AllPassed s st τ := ⟨hlive, fun r hr hrk hrτ =>
        hevents r ((mem_seen_of_reaction hvis hrτ).2 hr) hrk hrτ⟩
      constructor
      · exact fun hτ => (htaken hm).stand τ hτ hwho hsettled
      · intro hreacts
        rcases id hreacts with ⟨r, hr, -, hrτ, -⟩
        exact (htaken hm).reactions r hr τ hrτ hwho hsettled hreacts

end Steps

end PocketSkynet
