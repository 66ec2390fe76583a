import PocketSkynet.Server.MentionBadge

/-!
# The Unread Badge of a Room

The badge of a room counts the rows past the viewer's read pointer that were added by
somebody else and have been neither edited nor deleted since. Every change to a row moves it
past the pointer, and all but one of them also make it a row that is not counted: an edited
message, a tombstone, a marker. Anchoring moves a row and leaves it what it was, so a message
that had been read is counted anew.

## Main definitions

* `Mail.unreadRows`, `Mail.unreadCount`: What the badge counts.
* `Raises`: The step may raise the badge by right.
* `Mail.Unanchored`: The step anchors no message that the viewer has read.
* `BadgeSound`: What is asked of the badge in a run.

## Theorems

* `countP_rowsStep`: What a write does to the count of a room.
* `unreadCount_step_le`, `lt_unreadCount_publish`: A step raises the badge if it anchors such
  a message, and not otherwise.
* `badge_monotone_iff`: The badge is sound along the runs that anchor none.
-/

namespace PocketSkynet

namespace Mail

/-- Somebody else's message as it was added, which the viewer does not block. -/
def counts (s : Mail) (viewer : WalletAddress) (m : Message) : Bool :=
  m.kind == .add && !m.isDeleted && m.senderAddress != viewer && !s.hides viewer m.senderAddress

/-- The rows that `unread_count` counts. -/
def unreadRows (s : Mail) (viewer : WalletAddress) (room : RoomId) : List Message :=
  ((s.streams.stream room).map fun st => st.rows.filter fun m =>
    decide (s.lastReadSerial room viewer < m.msgSerial) && s.counts viewer m).getD []

def unreadCount (s : Mail) (viewer : WalletAddress) (room : RoomId) : Nat :=
  (s.unreadRows viewer room).length

/-- The step may raise the badge: somebody else writes a message in the room, the viewer is
    taken out of it, or the viewer unblocks somebody. -/
def Raises (viewer : WalletAddress) (room : RoomId) : Change → Prop
  | .send r _ new _ => r = room ∧ new.sender ≠ viewer
  | .removeMember r a => r = room ∧ a = viewer
  | .evict a => a = viewer
  | .unblock blocker _ => blocker = viewer
  | _ => False

/-- Anchoring the row commits and moves it past the read pointer, and it is one that counts
    and had been read. -/
def anchorsRead (s : Mail) (viewer : WalletAddress) (room : RoomId) (now : Nat)
    (id : MessageId) : Bool :=
  (s.streams.stream room).any fun st =>
    decide (st.serialAt now ≤ maxSafeInt) &&
      decide (s.lastReadSerial room viewer < st.serialAt now) &&
      (st.row? id).any fun m =>
        s.counts viewer m && decide (m.msgSerial ≤ s.lastReadSerial room viewer)

/-- The step anchors no message of the room that counts and that the viewer has read. -/
def Unanchored (viewer : WalletAddress) (room : RoomId) (s : Mail) : Change → Prop
  | .publish r now id _ => r = room → s.anchorsRead viewer room now id = false
  | _ => True

instance (viewer : WalletAddress) (room : RoomId) (s : Mail) :
    DecidablePred (Unanchored viewer room s)
  | .publish r now id _ =>
      inferInstanceAs (Decidable (r = room → s.anchorsRead viewer room now id = false))
  | .createRoom _ | .deleteRoom _ | .send _ _ _ _ | .edit _ _ _ _ _ | .remove _ _ _
  | .purge _ _ _ _ | .react _ _ _ _ _ _ _ _ | .markRead _ _ _ | .addMember _ _
  | .removeMember _ _ | .evict _ | .block _ _ | .unblock _ _ => inferInstanceAs (Decidable True)

variable {s s' : Mail} {viewer : WalletAddress} {room : RoomId}

/-! ### What is counted in a stream -/

-- A row that is changed counts at most if it did before.
theorem countP_modify_le {rows : List Message} (hk : Table.Keyed Message.id rows) {id : MessageId}
    {m : Message} (hm : Table.lookup Message.id id rows = some m) {f : Message → Message}
    {p : Message → Bool} (h : p (f m) = true → p m = true) :
    (Table.modify Message.id id f rows).countP p ≤ rows.countP p := by
  unfold Table.modify
  rw [List.countP_map]
  refine List.countP_mono_left fun x hx hp => ?_
  by_cases hid : x.id = id
  · have hfind := Table.lookup_of_mem hk hx
    rw [hid, hm] at hfind
    cases hfind
    rw [Function.comp_apply, if_pos hid] at hp
    exact h hp
  · rwa [Function.comp_apply, if_neg hid] at hp

-- A row that counts after a change and not before is one more.
theorem countP_modify_lt {rows : List Message} (hk : Table.Keyed Message.id rows) {id : MessageId}
    {m : Message} (hm : Table.lookup Message.id id rows = some m) {f : Message → Message}
    {p : Message → Bool} (hafter : p (f m) = true) (hbefore : p m = false) :
    rows.countP p < (Table.modify Message.id id f rows).countP p := by
  induction rows with
  | nil => cases hm
  | cons r rows ih =>
      have hr : r.id ∉ rows.map Message.id ∧ Table.Keyed Message.id rows := List.nodup_cons.1 hk
      rw [Table.lookup_cons] at hm
      by_cases hid : r.id = id
      · rw [if_pos hid] at hm
        cases hm
        -- No other row has the id.
        have hother : ∀ x ∈ rows, x.id ≠ id := by
          intro x hx he
          refine hr.1 ?_
          rw [hid, ← he]
          exact List.mem_map_of_mem hx
        have hcons : Table.modify Message.id id f (m :: rows) = f m :: rows := by
          rw [Table.modify, List.map_cons, if_pos hid]
          refine congrArg (f m :: ·) ((List.map_congr_left fun x hx => ?_).trans (List.map_id rows))
          exact if_neg (hother x hx)
        rw [hcons, List.countP_cons_of_pos hafter, List.countP_cons_of_neg (by simp [hbefore])]
        omega
      · rw [if_neg hid] at hm
        have hcons : Table.modify Message.id id f (r :: rows) =
            r :: Table.modify Message.id id f rows := by
          simp only [Table.modify, List.map_cons, if_neg hid]
        rw [hcons, List.countP_cons, List.countP_cons]
        have hlt := ih hr.2 hm
        omega

/-- A write adds nothing to the count, unless it adds a message of somebody else or anchors
    one that had been read. -/
theorem countP_rowsStep {rows rows' : List Message} {m : Mutation} {n since : Nat}
    (hk : Table.Keyed Message.id rows) (h : RowsStep n rows m rows')
    (hsend : ∀ now new, m = .createMessage now new → new.sender = viewer)
    (hanchor : ∀ now id txHash x, m = .publishTxHash now id txHash →
      Table.lookup Message.id id rows = some x → s.counts viewer x = true → since < n →
        since < x.msgSerial) :
    (rows'.countP fun x => decide (since < x.msgSerial) && s.counts viewer x) ≤
      rows.countP fun x => decide (since < x.msgSerial) && s.counts viewer x := by
  cases h with
  | created now new hid =>
      rw [List.countP_append, List.countP_singleton, if_neg, Nat.add_zero]
      simp [counts, Stream.newRow, hsend now new rfl]
  | reacted now id sender target code hash add hid =>
      rw [List.countP_append, List.countP_singleton, if_neg, Nat.add_zero]
      cases add <;> simp [counts, Stream.eventRow]
  | edited now id e r hr hlive =>
      refine countP_modify_le hk hr fun hp => ?_
      simp [counts, Stream.editRow] at hp
  | deleted now id r hr hlive =>
      refine countP_modify_le hk hr fun hp => ?_
      simp [counts, Stream.deleteRow] at hp
  | missed now id => exact Nat.le_refl _
  | purged now caller markerId =>
      rw [List.countP_singleton, if_neg]
      · exact Nat.zero_le _
      · simp [counts, Stream.eventRow]
  | published now id hash r hr =>
      refine countP_modify_le hk hr fun hp => ?_
      rw [Bool.and_eq_true, decide_eq_true_eq] at hp ⊢
      -- An anchored row counts if it did before.
      exact ⟨hanchor now id hash r rfl hr hp.2 hp.1, hp.2⟩

/-! ### What a step does to the badge -/

theorem unreadCount_eq {st : Stream} (h : s.streams.stream room = some st) :
    s.unreadCount viewer room = st.rows.countP fun m =>
      decide (s.lastReadSerial room viewer < m.msgSerial) && s.counts viewer m := by
  rw [unreadCount, unreadRows, h, Option.map_some, Option.getD_some, List.countP_eq_length_filter]

theorem unreadCount_none (h : s.streams.stream room = none) : s.unreadCount viewer room = 0 := by
  rw [unreadCount, unreadRows, h]
  rfl

-- A later pointer and more blocks leave less to count in the same rows.
theorem unreadCount_le (hstream : s'.streams.stream room = s.streams.stream room)
    (hread : s.lastReadSerial room viewer ≤ s'.lastReadSerial room viewer)
    (hhides : ∀ a, s.hides viewer a = true → s'.hides viewer a = true) :
    s'.unreadCount viewer room ≤ s.unreadCount viewer room := by
  cases hst : s.streams.stream room with
  | none => exact Nat.le_of_eq ((unreadCount_none (hstream.trans hst)).trans
      (unreadCount_none hst).symm)
  | some st =>
      rw [unreadCount_eq hst, unreadCount_eq (hstream.trans hst)]
      refine List.countP_mono_left fun m _ hm => ?_
      simp only [counts, Bool.and_eq_true, decide_eq_true_eq, Bool.not_eq_true'] at hm ⊢
      refine ⟨by omega, hm.2.1, ?_⟩
      by_contra hno
      have hhidden := hhides _ (by simpa using hno)
      rw [hm.2.2] at hhidden
      cases hhidden

/-- A write to the streams adds nothing to the badge, unless it adds a message of somebody
    else to the room or anchors one there that had been read. -/
theorem unreadCount_transact (hs : s.streams.Distinct) {r : RoomId} {m : Mutation} {ss : Streams}
    (htx : s.streams.transact r m = some ss) (hstreams : s'.streams = ss)
    (hreads : s'.reads = s.reads) (hblocked : s'.blocked = s.blocked)
    (hsend : ∀ now new, m = .createMessage now new → r = room → new.sender = viewer)
    (hanchor : ∀ now id txHash st x, m = .publishTxHash now id txHash → r = room →
      s.streams.stream room = some st → st.row? id = some x → s.counts viewer x = true →
        st.serialAt now ≤ maxSafeInt → s.lastReadSerial room viewer < st.serialAt now →
          s.lastReadSerial room viewer < x.msgSerial) :
    s'.unreadCount viewer room ≤ s.unreadCount viewer room := by
  rcases Streams.transact_eq_some htx with ⟨-, n, st, st', hst, hcommit, -, hnext, hstep, -, hafter⟩
  have hread : s'.lastReadSerial room viewer = s.lastReadSerial room viewer := by
    rw [lastReadSerial, lastReadSerial, hreads]
  have hhides : ∀ a, s'.hides viewer a = s.hides viewer a := by
    intro a
    rw [hides, hides, hblocked]
  by_cases hroom : room = r
  · subst hroom
    have hst' : s'.streams.stream room = some st' := by rw [hstreams, hafter, if_pos rfl]
    have hcounts : ∀ x, s'.counts viewer x = s.counts viewer x := by
      intro x
      rw [counts, counts, hhides]
    rw [unreadCount_eq hst, unreadCount_eq hst', hread]
    simp only [hcounts]
    refine countP_rowsStep (hs.keyed room st hst) hstep
      (fun now new hm => hsend now new hm rfl) fun now id txHash x hm hx hcount hlt => ?_
    subst hm
    -- The serial of an anchoring is the one its clock and the counter give.
    simp only [Stream.transact, Stream.publishTxHash, Option.bind_eq_bind,
      Option.bind_eq_some_iff] at hcommit
    rcases hcommit with ⟨a, ha, hcommit⟩
    have hsafe : st.serialAt now ≤ maxSafeInt := by
      by_contra hno
      rw [Stream.allocate, if_neg hno] at ha
      cases ha
    cases Stream.allocate_eq_some ha
    have hserial : n = st.serialAt now := by
      split at hcommit
      · cases hcommit
      · cases hcommit
        exact Nat.succ.inj hnext.symm
    exact hanchor now id txHash st x rfl rfl hst hx hcount hsafe (hserial ▸ hlt)
  · refine unreadCount_le ?_ (Nat.le_of_eq hread.symm) fun a ha => (hhides a).trans ha
    rw [hstreams, hafter, if_neg hroom]

-- A write that commits moves the badge as its transaction does, and one that fails does not.
theorem unreadCount_getD {x : Option Mail}
    (h : ∀ s', x = some s' → s'.unreadCount viewer room ≤ s.unreadCount viewer room) :
    (x.getD s).unreadCount viewer room ≤ s.unreadCount viewer room := by
  cases x with
  | none => exact Nat.le_refl _
  | some s' => exact h s' rfl

/-- No step raises the badge, but for those that may and an anchoring of a message that had
    been read. -/
theorem unreadCount_step_le (hs : s.streams.Distinct) {c : Change} (hraises : ¬ Raises viewer room c)
    (hc : Unanchored viewer room s c) :
    (s.step c).unreadCount viewer room ≤ s.unreadCount viewer room := by
  cases c with
  | createRoom r =>
      by_cases hnew : s.streams.stream room = none ∧ room = r
      · rcases hnew with ⟨hnone, rfl⟩
        have hst : (s.step (.createRoom room)).streams.stream room = some (Stream.create 1) := by
          rw [step, Streams.stream_createRoom, if_pos rfl, hnone, Option.none_or]
        rw [unreadCount_eq hst]
        exact Nat.zero_le _
      · refine unreadCount_le ?_ (Nat.le_refl _) fun _ ha => ha
        rw [step, Streams.stream_createRoom]
        by_cases hroom : room = r
        · subst hroom
          rcases Option.ne_none_iff_exists'.1 fun hnone => hnew ⟨hnone, rfl⟩ with ⟨st, hst⟩
          rw [if_pos rfl, hst, Option.some_or]
        · rw [if_neg hroom]
  | deleteRoom r =>
      by_cases hroom : room = r
      · subst hroom
        rw [unreadCount_none]
        · exact Nat.zero_le _
        · rw [step, Mail.deleteRoom, Streams.stream_deleteRoom, if_pos rfl]
      · refine unreadCount_le ?_ (lastReadSerial_step_le _ (fun h => h) ?_) fun _ ha => ha
        · rw [step, Mail.deleteRoom, Streams.stream_deleteRoom, if_neg hroom]
        · rintro ⟨⟩
          exact hroom rfl
  | send r now new mentions =>
      refine unreadCount_getD fun s' h => ?_
      rcases createMessage_eq_some h with ⟨ss, room', m, htx, -, rfl⟩
      refine unreadCount_transact hs htx rfl rfl rfl ?_ fun _ _ _ _ _ hm => by cases hm
      intro _ _ hm hroom
      cases hm
      by_contra hne
      exact hraises ⟨hroom, hne⟩
  | edit r now id body mentions =>
      refine unreadCount_getD fun s' h => ?_
      rcases updateMessage_eq_some h with ⟨ss, room', m, htx, -, rfl⟩
      exact unreadCount_transact hs htx rfl rfl rfl (fun _ _ hm => by cases hm)
        fun _ _ _ _ _ hm => by cases hm
  | remove r now id =>
      refine unreadCount_getD fun s' h => ?_
      rcases softDeleteMessage_eq_some h with ⟨ss, htx, rfl⟩
      exact unreadCount_transact hs htx rfl rfl rfl (fun _ _ hm => by cases hm)
        fun _ _ _ _ _ hm => by cases hm
  | purge r now caller markerId =>
      refine unreadCount_getD fun s' h => ?_
      rcases deleteAllMessages_eq_some h with ⟨ss, htx, rfl⟩
      exact unreadCount_transact hs htx rfl rfl rfl (fun _ _ hm => by cases hm)
        fun _ _ _ _ _ hm => by cases hm
  | publish r now id txHash =>
      refine unreadCount_getD fun s' h => ?_
      rcases publishTxHash_eq_some h with ⟨ss, htx, rfl⟩
      refine unreadCount_transact hs htx rfl rfl rfl (fun _ _ hm => by cases hm) ?_
      intro _ _ _ st x hm hroom hst hx hcount hsafe hpast
      cases hm
      have hread := hc hroom
      rw [anchorsRead, hst, Option.any_some, hx, Option.any_some, hcount] at hread
      simpa [hsafe, hpast] using hread
  | react r now id sender target code msgHash add =>
      refine unreadCount_getD fun s' h => ?_
      rcases createEmoticonEvent_eq_some h with ⟨ss, htx, rfl⟩
      exact unreadCount_transact hs htx rfl rfl rfl (fun _ _ hm => by cases hm)
        fun _ _ _ _ _ hm => by cases hm
  | markRead r a serial =>
      have hsame : (s.markRead r a serial).streams = s.streams ∧
          (s.markRead r a serial).blocked = s.blocked := by
        unfold markRead
        split
        · exact ⟨rfl, rfl⟩
        · exact ⟨rfl, rfl⟩
      refine unreadCount_le ?_ (lastReadSerial_step_le _ (fun h => h) (by simp)) fun b hb => ?_
      · rw [step, hsame.1]
      · rw [step, hides, hsame.2]
        exact hb
  | addMember r a =>
      have hsame : (s.addMember r a).streams = s.streams ∧
          (s.addMember r a).blocked = s.blocked := by
        unfold addMember
        split
        · exact ⟨rfl, rfl⟩
        · exact ⟨rfl, rfl⟩
      refine unreadCount_le ?_ (lastReadSerial_step_le _ (fun h => h) (by simp)) fun b hb => ?_
      · rw [step, hsame.1]
      · rw [step, hides, hsame.2]
        exact hb
  | removeMember r a =>
      have hdrops : ¬ Drops viewer room (.removeMember r a) := hraises
      exact unreadCount_le rfl (lastReadSerial_step_le _ hdrops (by simp)) fun _ ha => ha
  | evict a =>
      have hdrops : ¬ Drops viewer room (.evict a) := hraises
      exact unreadCount_le rfl (lastReadSerial_step_le _ hdrops (by simp)) fun _ ha => ha
  | block blocker target =>
      refine unreadCount_le rfl (Nat.le_refl _) fun a ha => ?_
      rw [hides, List.contains_iff_mem] at ha ⊢
      exact Table.mem_insertNew_of_mem ha
  | unblock blocker target =>
      refine unreadCount_le rfl (Nat.le_refl _) fun a ha => ?_
      rw [hides, List.contains_iff_mem] at ha ⊢
      refine Table.mem_erase.2 ⟨ha, ?_⟩
      rintro he
      cases he
      exact hraises rfl

/-- Anchoring a message that had been read raises the badge. -/
theorem lt_unreadCount_publish (hs : s.streams.Distinct) {now : Nat} {id : MessageId} (txHash : String)
    (h : s.anchorsRead viewer room now id = true) :
    s.unreadCount viewer room <
      (s.step (.publish room now id txHash)).unreadCount viewer room := by
  rcases (Option.any_eq_true _ _).1 h with ⟨st, hst, hread⟩
  rw [Bool.and_eq_true, Bool.and_eq_true, decide_eq_true_eq, decide_eq_true_eq] at hread
  rcases hread with ⟨⟨hsafe, hpast⟩, hrow⟩
  rcases (Option.any_eq_true _ _).1 hrow with ⟨m, hm, hcount⟩
  rw [Bool.and_eq_true, decide_eq_true_eq] at hcount
  -- The transaction commits, and the row has the serial that it draws.
  have hcommit : st.transact (.publishTxHash now id txHash) =
      some ⟨Table.modify Message.id id (Stream.publishRow txHash (st.serialAt now)) st.rows,
        st.serialAt now + 1⟩ := by
    simp [Stream.transact, Stream.publishTxHash, Stream.allocate, hsafe, hm]
  have htaken : s.streams.taken room (.publishTxHash now id txHash) = false := by
    simp [Streams.taken, Mutation.newId]
  have htx : s.streams.transact room (.publishTxHash now id txHash) = some (s.streams.setStream room
      ⟨Table.modify Message.id id (Stream.publishRow txHash (st.serialAt now)) st.rows,
        st.serialAt now + 1⟩) := by
    rw [Streams.transact, if_neg (by simp [htaken]), hst, Option.bind_some, hcommit,
      Option.map_some]
  have hstep : s.step (.publish room now id txHash) = { s with
      streams := s.streams.setStream room
        ⟨Table.modify Message.id id (Stream.publishRow txHash (st.serialAt now)) st.rows,
          st.serialAt now + 1⟩ } := by
    simp only [step, publishTxHash, htx, Option.bind_eq_bind, Option.bind_some, Option.pure_def,
      Option.getD_some]
  rw [hstep, unreadCount_eq hst, unreadCount_eq (Streams.stream_setStream _ room
    (by rw [hst]; rfl) |>.trans (if_pos rfl))]
  refine countP_modify_lt (hs.keyed room st hst) hm ?_ ?_
  · rw [Bool.and_eq_true, decide_eq_true_eq]
    exact ⟨hpast, hcount.1⟩
  · rw [Bool.and_eq_false_iff, decide_eq_false_iff_not]
    exact Or.inl (by omega)

-- Every step keeps the ids of rows apart.
theorem distinct_step (c : Change) (hs : s.streams.Distinct) : (s.step c).streams.Distinct := by
  have hgetD : ∀ {x : Option Mail}, (∀ s', x = some s' → s'.streams.Distinct) →
      (x.getD s).streams.Distinct := by
    intro x h
    cases x with
    | none => exact hs
    | some s' => exact h s' rfl
  cases c with
  | createRoom r => exact Streams.distinct_createRoom hs
  | deleteRoom r => exact Streams.distinct_deleteRoom hs
  | send r now new mentions =>
      refine hgetD fun s' h => ?_
      rcases createMessage_eq_some h with ⟨ss, room', m, htx, -, rfl⟩
      exact Streams.distinct_transact hs htx
  | edit r now id body mentions =>
      refine hgetD fun s' h => ?_
      rcases updateMessage_eq_some h with ⟨ss, room', m, htx, -, rfl⟩
      exact Streams.distinct_transact hs htx
  | remove r now id =>
      refine hgetD fun s' h => ?_
      rcases softDeleteMessage_eq_some h with ⟨ss, htx, rfl⟩
      exact Streams.distinct_transact hs htx
  | purge r now caller markerId =>
      refine hgetD fun s' h => ?_
      rcases deleteAllMessages_eq_some h with ⟨ss, htx, rfl⟩
      exact Streams.distinct_transact hs htx
  | publish r now id txHash =>
      refine hgetD fun s' h => ?_
      rcases publishTxHash_eq_some h with ⟨ss, htx, rfl⟩
      exact Streams.distinct_transact hs htx
  | react r now id sender target code msgHash add =>
      refine hgetD fun s' h => ?_
      rcases createEmoticonEvent_eq_some h with ⟨ss, htx, rfl⟩
      exact Streams.distinct_transact hs htx
  | markRead r a serial =>
      simp only [step, markRead]
      split <;> exact hs
  | addMember r a =>
      simp only [step, addMember]
      split <;> exact hs
  | removeMember r a => exact hs
  | evict a => exact hs
  | block blocker target => exact hs
  | unblock blocker target => exact hs

/-! ### Runs -/

/-- The step does not raise the badge, unless it may, and to mark a room read takes no read
    pointer back. -/
def Monotone (viewer : WalletAddress) (room : RoomId) (s : Mail) (c : Change) : Prop :=
  (¬ Raises viewer room c → (s.step c).unreadCount viewer room ≤ s.unreadCount viewer room) ∧
  ∀ r a serial, c = .markRead r a serial →
    ∀ r' a', s.lastReadSerial r' a' ≤ (s.step c).lastReadSerial r' a'

/-- The badge never counts what the viewer has sent. No step raises it that may not, and it
    is zero from a read up to the latest serial to the next step that may. -/
def BadgeSound (viewer : WalletAddress) (room : RoomId) (s : Mail) (changes : List Change) : Prop :=
  Run.Along step (Monotone viewer room) s changes ∧
  Run.Throughout step (fun s => ∀ m ∈ s.unreadRows viewer room, m.senderAddress ≠ viewer) s
    changes ∧
  ∀ before serial after, changes = before ++ .markRead room viewer serial :: after →
    (Run.run step s before).latestSerial room ≤ serial →
    (∀ c ∈ after, ¬ Raises viewer room c) →
    Run.Throughout step (fun s => s.unreadCount viewer room = 0)
      ((Run.run step s before).markRead room viewer serial) after

theorem sender_of_unreadRows {m : Message} (h : m ∈ s.unreadRows viewer room) :
    m.senderAddress ≠ viewer := by
  unfold unreadRows at h
  cases hst : s.streams.stream room with
  | none =>
      rw [hst] at h
      cases h
  | some st =>
      rw [hst, Option.map_some, Option.getD_some] at h
      have hcounts := (List.mem_filter.1 h).2
      simp only [counts, Bool.and_eq_true, bne_iff_ne] at hcounts
      exact hcounts.2.1.2

-- A pointer at the latest serial leaves nothing to count.
theorem unreadCount_markRead {serial : Nat} (h : s.latestSerial room ≤ serial) :
    (s.markRead room viewer serial).unreadCount viewer room = 0 := by
  cases hst : s.streams.stream room with
  | none =>
      rw [markRead, if_pos (by rw [hst]; rfl)]
      exact unreadCount_none hst
  | some st =>
      have hsome : (s.streams.stream room).isSome := by
        rw [hst]
        rfl
      have hst' : (s.markRead room viewer serial).streams.stream room = some st := by
        rw [markRead, if_neg (by simp [hst])]
        exact hst
      rw [unreadCount_eq hst', List.countP_eq_zero, lastReadSerial_markRead hsome, if_pos rfl]
      intro m hm hcount
      have hle := le_latestSerial ⟨st, hst, hm⟩
      have hmax := Nat.le_max_right (s.lastReadSerial room viewer) serial
      rw [Bool.and_eq_true, decide_eq_true_eq] at hcount
      omega

theorem monotone_step (hs : s.streams.Distinct) {c : Change} (hc : Unanchored viewer room s c) :
    Monotone viewer room s c := by
  refine ⟨fun hraises => unreadCount_step_le hs hraises hc, ?_⟩
  rintro r a serial rfl r' a'
  exact lastReadSerial_step_le _ (fun h => h) (by simp)

theorem unanchored_of_monotone (hs : s.streams.Distinct) {c : Change} (h : Monotone viewer room s c) :
    Unanchored viewer room s c := by
  cases c with
  | publish r now id txHash =>
      rintro rfl
      by_contra hread
      have hlt := lt_unreadCount_publish hs txHash (by simpa using hread)
      have hle := h.1 fun h => h
      omega
  | _ => trivial

/-- The badge is sound along a run exactly if the run anchors no message that the viewer had
    read. -/
theorem badge_monotone_iff (viewer : WalletAddress) (room : RoomId) (hs : s.streams.Distinct)
    (changes : List Change) :
    BadgeSound viewer room s changes ↔ Run.Along step (Unanchored viewer room) s changes := by
  have hkeep : ∀ (s : Mail) (c : Change), s.streams.Distinct → (s.step c).streams.Distinct :=
    fun _ c h => distinct_step c h
  constructor
  · rintro ⟨hmono, -⟩
    exact Run.along_of_inv (fun s c h _ => hkeep s c h)
      (fun _ _ h hc => unanchored_of_monotone h hc) s changes hs hmono
  · intro hc
    refine ⟨Run.along_of_inv (fun s c h _ => hkeep s c h) (fun _ _ h hc => monotone_step h hc)
        s changes hs hc, ?_, ?_⟩
    · exact Run.throughout_mono (fun _ _ _ => sender_of_unreadRows) s changes
        (Run.throughout_of_step hkeep s changes hs)
    · rintro before serial after rfl hlatest hquiet
      rcases (Run.along_append _ _ _).1 hc with ⟨-, -, hafter⟩
      have hbefore := Run.run_inv hkeep s before hs
      have hboth := Run.along_and _ after hquiet hafter
      -- Nothing that is left raises the badge from zero.
      refine Run.throughout_mono (fun _ h => h.2) _ _ (Run.throughout_of_along
        (J := fun s : Mail => s.streams.Distinct ∧ s.unreadCount viewer room = 0) ?_ _ _ ?_ hboth)
      · rintro s c ⟨hs, hzero⟩ ⟨hraises, hc⟩
        have hle := unreadCount_step_le hs hraises hc
        exact ⟨distinct_step c hs, by omega⟩
      · exact ⟨distinct_step (.markRead room viewer serial) hbefore, unreadCount_markRead hlatest⟩

end Mail

namespace Sample

/-- Alice writes, Bob reads the room, and Alice deletes what she wrote. -/
theorem badge_monotone_read :
    Mail.BadgeSound bob team Mail.empty namedAndRead :=
  (Mail.badge_monotone_iff bob team Streams.distinct_nil namedAndRead).2 (by decide +kernel)

/-- Bob has read Alice's message and nothing is unread. She anchors it, and it is unread. -/
theorem anchored_unread :
    ¬ Mail.BadgeSound bob team Mail.empty anchoredMention ∧
      (Run.run Mail.step Mail.empty (anchoredMention.take 5)).unreadCount bob team = 0 ∧
      (Run.run Mail.step Mail.empty anchoredMention).unreadCount bob team = 1 := by
  refine ⟨fun h => ?_, by decide +kernel, by decide +kernel⟩
  have hzero := Run.throughout_last _ _
    (h.2.2 (anchoredMention.take 4) 1000 [.publish team 1001 ⟨"m1"⟩ "0xfeed"] rfl
      (by decide +kernel) (by simp [Mail.Raises]))
  revert hzero
  decide +kernel

end Sample

end PocketSkynet
