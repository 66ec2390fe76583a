import PocketSkynet.Server.Mentions
import PocketSkynet.Server.Sample

/-!
# The Badge and the Inbox Agree

A mention row carries the serial its message had when the row was written. An
edit writes it anew, a deletion takes it away, and a purge takes it with its
message. Anchoring a message moves its serial and leaves the copies behind, so the
badge goes on by the old serial and the inbox by the new one.

`Kept` is the invariant: every row is the mention of a message that is there,
and the copy is right unless the message names its own sender, which neither query
counts.

## Main definitions

* `InboxAgrees`: The badge of every room is the number of its unread entries.
* `Unnamed`: The step anchors no message that names somebody else.
* `Mail.Names`, `Mail.Drops`: The step names the viewer, or drops the read pointer.

## Theorems

* `kept_step`: Every step that meets the condition keeps the copies.
* `inboxAgrees_of_kept`: With the copies kept, both queries count the same.
* `mentions_agree`: Badge and inbox agree in every state of every such run, and
  both are zero from a read up to the next mention.
-/

namespace PocketSkynet

namespace Mail

/-- The mention of a message that is there, with the serial it has. -/
def Copied (ss : Streams) (mm : Mention) : Prop :=
  ∃ m, ss.Has mm.roomId m ∧ m.id = mm.messageId ∧ mm.msgSerial ≤ m.msgSerial ∧
    (m.senderAddress ≠ mm.mentionedAddress → mm.msgSerial = m.msgSerial)

/-- The invariant of the tables. -/
structure Kept (s : Mail) : Prop where
  distinct : s.streams.Distinct
  below : s.streams.Below
  copied : ∀ mm ∈ s.mentions, Copied s.streams mm

/-- The badge of every room is the number of its unread entries in the inbox, read in
    a page that holds all of it. -/
def InboxAgrees (s : Mail) : Prop :=
  ∀ viewer room limit, (s.inboxRows viewer).length ≤ limit →
    s.mentionCount viewer room = unreadEntries (s.inbox viewer limit) room

/-- Nobody but its sender is named by a message that the step anchors. -/
def Unnamed (s : Mail) : Change → Prop
  | .publish _ _ id _ => ∀ mm ∈ s.mentions, mm.messageId = id →
      (s.joined mm).all (fun p => p.2.senderAddress = mm.mentionedAddress) = true
  | _ => True

instance (s : Mail) (c : Change) : Decidable (s.Unnamed c) := by
  unfold Unnamed
  split <;> infer_instance

/-- The step writes a message in the room that names the viewer. -/
def Names (viewer : WalletAddress) (room : RoomId) : Change → Prop
  | .send r _ _ mentions | .edit r _ _ _ mentions => r = room ∧ viewer ∈ mentions
  | _ => False

/-- The step takes the viewer out of the room, and the read pointer with it. -/
def Drops (viewer : WalletAddress) (room : RoomId) : Change → Prop
  | .removeMember r a => r = room ∧ a = viewer
  | .evict a => a = viewer
  | _ => False

variable {s s' : Mail}

/-! ### What a transaction commits -/

theorem createMessage_eq_some {room : RoomId} {now : Nat} {new : NewMessage}
    {mentions : List WalletAddress} (h : s.createMessage room now new mentions = some s') :
    ∃ ss room' m, s.streams.transact room (.createMessage now new) = some ss ∧
      ss.row? new.id = some (room', m) ∧
      s' = { s with
        streams := ss, mentions := record new.id room m.msgSerial mentions s.mentions } := by
  simp only [createMessage, Option.bind_eq_bind, Option.bind_eq_some_iff, Option.pure_def,
    Option.some.injEq] at h
  rcases h with ⟨ss, htx, ⟨room', m⟩, hrow, rfl⟩
  exact ⟨ss, room', m, htx, hrow, rfl⟩

theorem updateMessage_eq_some {room : RoomId} {now : Nat} {id : MessageId}
    {edit : MessageEdit} {mentions : List WalletAddress}
    (h : s.updateMessage room now id edit mentions = some s') :
    ∃ ss room' m, s.streams.transact room (.updateMessage now id edit) = some ss ∧
      ss.row? id = some (room', m) ∧
      s' = { s with
        streams := ss
        mentions := record id room m.msgSerial mentions (forget id s.mentions) } := by
  simp only [updateMessage, Option.bind_eq_bind, Option.bind_eq_some_iff, Option.pure_def,
    Option.some.injEq] at h
  rcases h with ⟨ss, htx, ⟨room', m⟩, hrow, rfl⟩
  exact ⟨ss, room', m, htx, hrow, rfl⟩

-- The other writes leave some of the mentions and take no new ones.
theorem softDeleteMessage_eq_some {room : RoomId} {now : Nat} {id : MessageId}
    (h : s.softDeleteMessage room now id = some s') :
    ∃ ss, s.streams.transact room (.softDeleteMessage now id) = some ss ∧
      s' = { s with
        streams := ss
        mentions := if ((s.streams.stream room).bind (·.getMessage id)).isSome then
          forget id s.mentions else s.mentions } := by
  simp only [softDeleteMessage, Option.bind_eq_bind, Option.bind_eq_some_iff,
    Option.pure_def, Option.some.injEq] at h
  rcases h with ⟨ss, htx, rfl⟩
  exact ⟨ss, htx, rfl⟩

theorem deleteAllMessages_eq_some {room : RoomId} {now : Nat} {caller : WalletAddress}
    {markerId : MessageId} (h : s.deleteAllMessages room now caller markerId = some s') :
    ∃ ss, s.streams.transact room (.deleteAllMessages now caller markerId) = some ss ∧
      s' = { s with
        streams := ss, mentions := s.mentions.filter fun mm => !s.cascades room mm } := by
  simp only [deleteAllMessages, Option.bind_eq_bind, Option.bind_eq_some_iff,
    Option.pure_def, Option.some.injEq] at h
  rcases h with ⟨ss, htx, rfl⟩
  exact ⟨ss, htx, rfl⟩

theorem publishTxHash_eq_some {room : RoomId} {now : Nat} {id : MessageId} {txHash : String}
    (h : s.publishTxHash room now id txHash = some s') :
    ∃ ss, s.streams.transact room (.publishTxHash now id txHash) = some ss ∧
      s' = { s with streams := ss } := by
  simp only [publishTxHash, Option.bind_eq_bind, Option.bind_eq_some_iff, Option.pure_def,
    Option.some.injEq] at h
  rcases h with ⟨ss, htx, rfl⟩
  exact ⟨ss, htx, rfl⟩

theorem createEmoticonEvent_eq_some {room : RoomId} {now : Nat} {id : MessageId}
    {sender : WalletAddress} {target : MessageId} {code msgHash : String} {add : Bool}
    (h : s.createEmoticonEvent room now id sender target code msgHash add = some s') :
    ∃ ss, s.streams.transact room
        (.createEmoticonEvent now id sender target code msgHash add) = some ss ∧
      s' = { s with streams := ss } := by
  simp only [createEmoticonEvent, Option.bind_eq_bind, Option.bind_eq_some_iff,
    Option.pure_def, Option.some.injEq] at h
  rcases h with ⟨ss, htx, rfl⟩
  exact ⟨ss, htx, rfl⟩

/-! ### The mention rows after a write -/

theorem mem_recordOne {new mm : Mention} {rows : List Mention} (h : mm ∈ recordOne new rows) :
    mm ∈ rows ∨ mm = new ∨
      ∃ old ∈ rows, old.key = new.key ∧ mm = { old with msgSerial := new.msgSerial } := by
  unfold recordOne at h
  split at h
  · rcases Table.mem_modify.1 h with ⟨old, hold, rfl⟩
    by_cases hkey : old.key = new.key
    · rw [if_pos hkey]
      exact Or.inr (Or.inr ⟨old, hold, hkey, rfl⟩)
    · rw [if_neg hkey]
      exact Or.inl hold
  · rcases List.mem_append.1 h with h | h
    · exact Or.inl h
    · exact Or.inr (Or.inl (List.mem_singleton.1 h))

-- Without a row for the message, recording appends the rows of those it names.
theorem mem_record {id : MessageId} {room : RoomId} {serial : Nat}
    {addresses : List WalletAddress} {rows : List Mention}
    (hfree : ∀ mm ∈ rows, mm.messageId ≠ id) {mm : Mention}
    (h : mm ∈ record id room serial addresses rows) :
    mm ∈ rows ∨ ∃ a ∈ addresses, mm = ⟨id, room, a, serial⟩ := by
  -- A row for the message is one of the new ones, and to record it again changes nothing.
  have hfold : ∀ (as : List WalletAddress) (acc : List Mention), (∀ a ∈ as, a ∈ addresses) →
      (∀ mm ∈ acc, mm ∈ rows ∨ ∃ a ∈ addresses, mm = ⟨id, room, a, serial⟩) →
      ∀ mm ∈ as.foldl (fun rows a => recordOne ⟨id, room, a, serial⟩ rows) acc,
        mm ∈ rows ∨ ∃ a ∈ addresses, mm = ⟨id, room, a, serial⟩ := by
    intro as
    induction as with
    | nil => exact fun acc _ hacc => hacc
    | cons a as ih =>
        intro acc hsub hacc
        refine ih _ (fun b hb => hsub b (List.mem_cons_of_mem a hb)) fun mm hmm => ?_
        rcases mem_recordOne hmm with hold | rfl | ⟨old, hold, hkey, rfl⟩
        · exact hacc mm hold
        · exact Or.inr ⟨a, hsub a List.mem_cons_self, rfl⟩
        · rcases hacc old hold with hrow | ⟨b, hb, rfl⟩
          · exact absurd (congrArg Prod.fst hkey) (hfree old hrow)
          · exact Or.inr ⟨b, hb, rfl⟩
  exact hfold _ rows (fun a ha => List.mem_of_mem_take ha) (fun mm hmm => Or.inl hmm) mm h

theorem mem_forget {id : MessageId} {rows : List Mention} {mm : Mention} :
    mm ∈ forget id rows ↔ mm ∈ rows ∧ mm.messageId ≠ id := by
  simp [forget]

/-! ### What one step keeps -/

-- The copy of a message that is left as it is stays a copy.
theorem copied_of_has {ss ss' : Streams} {mm : Mention} (hc : Copied ss mm)
    (h : ∀ x, ss.Has mm.roomId x → x.id = mm.messageId → ss'.Has mm.roomId x) :
    Copied ss' mm := by
  rcases hc with ⟨x, hx, hid, hserial⟩
  exact ⟨x, h x hx hid, hid, hserial⟩

-- A write to the streams and to the mention rows keeps the invariant if every row that
-- is left is a copy.
theorem kept_transact {room : RoomId} {m : Mutation} {ss : Streams} {mentions : List Mention}
    (hk : s.Kept) (h : s.streams.transact room m = some ss)
    (hcopied : ∀ mm ∈ mentions, Copied ss mm) :
    Kept { s with streams := ss, mentions := mentions } where
  distinct := Streams.distinct_transact hk.distinct h
  below := Streams.below_transact hk.distinct hk.below h
  copied := hcopied

/-- The rows that are recorded for a message are copies of it. -/
theorem copied_record {ss : Streams} {room room' : RoomId} {id : MessageId} {m : Message}
    (hd : ss.Distinct) (hrow : ss.row? id = some (room', m)) (hroom : room' = room)
    {addresses : List WalletAddress} {rows : List Mention}
    (hfree : ∀ mm ∈ rows, mm.messageId ≠ id) (hrows : ∀ mm ∈ rows, Copied ss mm) :
    ∀ mm ∈ record id room m.msgSerial addresses rows, Copied ss mm := by
  intro mm hmm
  rcases mem_record hfree hmm with hold | ⟨a, -, rfl⟩
  · exact hrows mm hold
  · rcases (Streams.row?_eq_some hd).1 hrow with ⟨hhas, hid⟩
    exact ⟨m, hroom ▸ hhas, hid, Nat.le_refl _, fun _ => rfl⟩

-- No message had the id of a new one before, so no mention is for it yet.
theorem fresh_of_createMessage (hk : s.Kept) {room : RoomId} {now : Nat} {new : NewMessage}
    {ss : Streams} (h : s.streams.transact room (.createMessage now new) = some ss) :
    ∀ mm ∈ s.mentions, mm.messageId ≠ new.id := by
  intro mm hmm he
  rcases hk.copied mm hmm with ⟨x, hx, hid, -⟩
  exact (Streams.has_createMessage hk.distinct h).1 mm.roomId x hx (hid.trans he)

theorem kept_createMessage (hk : s.Kept) {room : RoomId} {now : Nat} {new : NewMessage}
    {mentions : List WalletAddress} (h : s.createMessage room now new mentions = some s') :
    s'.Kept := by
  rcases createMessage_eq_some h with ⟨ss, room', m, htx, hrow, rfl⟩
  have hd := Streams.distinct_transact hk.distinct htx
  rcases Streams.has_createMessage hk.distinct htx with ⟨hfree, n, hafter⟩
  rcases (Streams.row?_eq_some hd).1 hrow with ⟨hm, hid⟩
  have hroom : room' = room := by
    rcases (hafter room' m).1 hm with hold | ⟨hroom, -⟩
    · exact absurd hid (hfree room' m hold)
    · exact hroom
  refine kept_transact hk htx (copied_record hd hrow hroom (fresh_of_createMessage hk htx) ?_)
  exact fun mm hmm => copied_of_has (hk.copied mm hmm) fun x hx _ => (hafter _ x).2 (Or.inl hx)

theorem kept_updateMessage (hk : s.Kept) {room : RoomId} {now : Nat} {id : MessageId}
    {edit : MessageEdit} {mentions : List WalletAddress}
    (h : s.updateMessage room now id edit mentions = some s') : s'.Kept := by
  rcases updateMessage_eq_some h with ⟨ss, room', m, htx, hrow, rfl⟩
  have hd := Streams.distinct_transact hk.distinct htx
  rcases Streams.has_updateMessage hk.distinct htx with ⟨n, y, -, -, -, hafter⟩
  rcases (Streams.row?_eq_some hd).1 hrow with ⟨hm, hid⟩
  have hroom : room' = room := by
    rcases (hafter room' m).1 hm with ⟨-, hne⟩ | ⟨hroom, -⟩
    · exact absurd hid hne
    · exact hroom
  refine kept_transact hk htx (copied_record hd hrow hroom ?_ fun mm hmm => ?_)
  · exact fun mm hmm => (mem_forget.1 hmm).2
  · rcases mem_forget.1 hmm with ⟨hmm, hne⟩
    refine copied_of_has (hk.copied mm hmm) fun x hx hxid => (hafter _ x).2 (Or.inl ⟨hx, ?_⟩)
    exact hxid ▸ hne

theorem kept_softDeleteMessage (hk : s.Kept) {room : RoomId} {now : Nat} {id : MessageId}
    (h : s.softDeleteMessage room now id = some s') : s'.Kept := by
  rcases softDeleteMessage_eq_some h with ⟨ss, htx, rfl⟩
  refine kept_transact hk htx fun mm hmm => ?_
  rcases Streams.has_softDeleteMessage hk.distinct htx with
    ⟨hchanged, hafter⟩ | ⟨hchanged, n, y, -, -, hafter⟩
  · rw [hchanged, if_neg Bool.false_ne_true] at hmm
    exact copied_of_has (hk.copied mm hmm) fun x hx _ => (hafter _ x).2 hx
  · rw [hchanged, if_pos rfl] at hmm
    rcases mem_forget.1 hmm with ⟨hmm, hne⟩
    refine copied_of_has (hk.copied mm hmm) fun x hx hxid => (hafter _ x).2 (Or.inl ⟨hx, ?_⟩)
    exact hxid ▸ hne

theorem kept_deleteAllMessages (hk : s.Kept) {room : RoomId} {now : Nat}
    {caller : WalletAddress} {markerId : MessageId}
    (h : s.deleteAllMessages room now caller markerId = some s') : s'.Kept := by
  rcases deleteAllMessages_eq_some h with ⟨ss, htx, rfl⟩
  rcases Streams.has_deleteAllMessages htx with ⟨n, hafter⟩
  refine kept_transact hk htx fun mm hmm => ?_
  rcases List.mem_filter.1 hmm with ⟨hmm, hgone⟩
  -- A mention that is left is of a message in another room.
  refine copied_of_has (hk.copied mm hmm) fun x hx hid => (hafter _ x).2 (Or.inl ⟨hx, ?_⟩)
  intro hr
  rcases hx with ⟨st, hst, hx⟩
  have hrow : st.row? mm.messageId = some x := by
    rw [← hid]
    exact Table.lookup_of_mem (hk.distinct.keyed mm.roomId st hst) hx
  simp [cascades, ← hr, hst, hrow] at hgone

theorem kept_publishTxHash (hk : s.Kept) {room : RoomId} {now : Nat} {id : MessageId}
    {txHash : String} (hc : s.Unnamed (.publish room now id txHash))
    (h : s.publishTxHash room now id txHash = some s') : s'.Kept := by
  rcases publishTxHash_eq_some h with ⟨ss, htx, rfl⟩
  refine kept_transact hk htx fun mm hmm => ?_
  rcases Streams.has_publishTxHash hk.distinct htx with ⟨n, y, hy, hyid, hn, hafter⟩
  by_cases hid : mm.messageId = id
  · -- The message was anchored. Its serial has moved up, and it names its own sender.
    rcases hk.copied mm hmm with ⟨x, hx, hxid, hle, -⟩
    have hjoined : s.joined mm = some (mm.roomId, x) :=
      (Streams.row?_eq_some hk.distinct).2 ⟨hx, hxid⟩
    have hself := hc mm hmm hid
    rw [hjoined] at hself
    have hsender : x.senderAddress = mm.mentionedAddress := by simpa using hself
    rcases hk.distinct.eq_of_id hx hy (hxid.trans (hid.trans hyid.symm)) with ⟨hr, rfl⟩
    refine ⟨Stream.publishRow txHash n x, (hafter _ _).2 (Or.inr ⟨hr, rfl⟩), hxid, ?_,
      fun hne => absurd hsender hne⟩
    have hlt := hn hk.below
    simp only [Stream.publishRow]
    omega
  · refine copied_of_has (hk.copied mm hmm) fun x hx hxid => (hafter _ x).2 (Or.inl ⟨hx, ?_⟩)
    exact fun he => hid (hxid.symm.trans he)

theorem kept_createEmoticonEvent (hk : s.Kept) {room : RoomId} {now : Nat} {id : MessageId}
    {sender : WalletAddress} {target : MessageId} {code msgHash : String} {add : Bool}
    (h : s.createEmoticonEvent room now id sender target code msgHash add = some s') :
    s'.Kept := by
  rcases createEmoticonEvent_eq_some h with ⟨ss, htx, rfl⟩
  rcases Streams.has_createEmoticonEvent hk.distinct htx with ⟨-, n, hafter⟩
  exact kept_transact hk htx fun mm hmm =>
    copied_of_has (hk.copied mm hmm) fun x hx _ => (hafter _ x).2 (Or.inl hx)

theorem kept_deleteRoom (hk : s.Kept) (room : RoomId) : (s.deleteRoom room).Kept where
  distinct := Streams.distinct_deleteRoom hk.distinct
  below := Streams.below_deleteRoom hk.below
  copied := by
    intro mm hmm
    rcases List.mem_filter.1 hmm with ⟨hmm, hleft⟩
    rcases hk.copied mm hmm with ⟨x, hx, hrest⟩
    refine ⟨x, Streams.has_deleteRoom.2 ⟨hx, ?_⟩, hrest⟩
    simp only [Bool.and_eq_true, decide_eq_true_eq] at hleft
    exact hleft.2

theorem kept_markRead (hk : s.Kept) (room : RoomId) (a : WalletAddress) (serial : Nat) :
    (s.markRead room a serial).Kept := by
  unfold markRead
  split
  · exact hk
  · exact ⟨hk.distinct, hk.below, hk.copied⟩

theorem kept_addMember (hk : s.Kept) (room : RoomId) (a : WalletAddress) :
    (s.addMember room a).Kept := by
  unfold addMember
  split
  · exact hk
  · exact ⟨hk.distinct, hk.below, hk.copied⟩

theorem kept_empty : empty.Kept where
  distinct := Streams.distinct_nil
  below := Streams.below_nil
  copied := fun _ h => by cases h

-- What a step commits keeps the invariant, and a step that fails changes nothing.
theorem kept_getD (hk : s.Kept) {x : Option Mail} (h : ∀ s', x = some s' → s'.Kept) :
    (x.getD s).Kept := by
  cases x with
  | none => exact hk
  | some s' => exact h s' rfl

/-- Every step that meets the condition keeps the copies. -/
theorem kept_step (s : Mail) (c : Change) (hk : s.Kept) (hc : s.Unnamed c) :
    (s.step c).Kept := by
  cases c with
  | createRoom room =>
      refine ⟨Streams.distinct_createRoom hk.distinct, Streams.below_createRoom hk.below, ?_⟩
      intro mm hmm
      rcases hk.copied mm hmm with ⟨x, hx, hrest⟩
      exact ⟨x, Streams.has_createRoom.2 hx, hrest⟩
  | deleteRoom room => exact kept_deleteRoom hk room
  | send room now new mentions => exact kept_getD hk fun _ h => kept_createMessage hk h
  | edit room now id body mentions => exact kept_getD hk fun _ h => kept_updateMessage hk h
  | remove room now id => exact kept_getD hk fun _ h => kept_softDeleteMessage hk h
  | purge room now caller markerId => exact kept_getD hk fun _ h => kept_deleteAllMessages hk h
  | publish room now id txHash => exact kept_getD hk fun _ h => kept_publishTxHash hk hc h
  | react room now id sender target code hash add =>
      exact kept_getD hk fun _ h => kept_createEmoticonEvent hk h
  | markRead room a serial => exact kept_markRead hk room a serial
  | addMember room a => exact kept_addMember hk room a
  | removeMember room a => exact ⟨hk.distinct, hk.below, hk.copied⟩
  | evict a => exact ⟨hk.distinct, hk.below, hk.copied⟩
  | block blocker target => exact ⟨hk.distinct, hk.below, hk.copied⟩
  | unblock blocker target => exact ⟨hk.distinct, hk.below, hk.copied⟩

/-! ### Both queries count the same -/

-- The inbox lists a mention under a condition on its message.
theorem any_inboxRow (s : Mail) (viewer : WalletAddress) {mm : Mention} {p : RoomId × Message}
    (h : s.joined mm = some p) (f : Mention × RoomId × Message → Bool) :
    (s.inboxRow viewer mm).any f =
      ((s.streams.stream mm.roomId).isSome && s.isMember mm.roomId viewer &&
        mm.mentionedAddress == viewer && !p.2.isDeleted && p.2.senderAddress != viewer &&
        !s.hides viewer p.2.senderAddress && f (mm, p)) := by
  rw [inboxRow, h, Option.filter_some]
  split
  next hshown => rw [Option.map_some, Option.any_some, hshown, Bool.true_and]
  next hhidden => rw [Option.map_none, Option.any_none, Bool.eq_false_iff.2 hhidden, Bool.false_and]

/-- With the copies kept, both queries count the same. -/
theorem inboxAgrees_of_kept (hk : s.Kept) : s.InboxAgrees := by
  intro viewer room limit hlimit
  rw [mentionCount_eq, unreadEntries_eq s viewer room limit hlimit, badgeRows,
    List.countP_filter]
  refine List.countP_congr fun mm hmm => ?_
  rcases hk.copied mm hmm with ⟨m, hm, hid, -, hserial⟩
  have hjoined : s.joined mm = some (mm.roomId, m) :=
    (Streams.row?_eq_some hk.distinct).2 ⟨hm, hid⟩
  have hroom : (s.streams.stream mm.roomId).isSome = true := by
    rcases hm with ⟨st, hst, -⟩
    rw [hst]
    rfl
  rw [any_inboxRow s viewer hjoined, hjoined]
  -- Where both ask for the serial, the copy is right.
  have hcopy : (mm.mentionedAddress = viewer ∧ m.senderAddress ≠ viewer) →
      mm.msgSerial = m.msgSerial := by
    rintro ⟨rfl, hother⟩
    exact hserial hother
  simp only [Option.any_some, hroom, Bool.true_and, Bool.and_eq_true, beq_iff_eq, bne_iff_ne,
    decide_eq_true_eq]
  constructor
  · rintro ⟨hr, ⟨⟨⟨⟨hmember, hviewer⟩, hlive⟩, hother⟩, hpast⟩, hhides⟩
    exact ⟨⟨⟨⟨⟨hmember, hviewer⟩, hlive⟩, hother⟩, hhides⟩, hr,
      hcopy ⟨hviewer, hother⟩ ▸ hpast⟩
  · rintro ⟨⟨⟨⟨⟨hmember, hviewer⟩, hlive⟩, hother⟩, hhides⟩, hr, hpast⟩
    exact ⟨hr, ⟨⟨⟨⟨hmember, hviewer⟩, hlive⟩, hother⟩,
      (hcopy ⟨hviewer, hother⟩).symm ▸ hpast⟩, hhides⟩

/-! ### From a read to the next mention -/

/-- The read pointer has passed every mention of the viewer in the room. -/
def Settled (viewer : WalletAddress) (room : RoomId) (s : Mail) : Prop :=
  ∀ mm ∈ s.mentions, mm.roomId = room → mm.mentionedAddress = viewer →
    mm.msgSerial ≤ s.lastReadSerial room viewer

/-- Nothing of the room is shown as an unread mention. -/
def Cleared (viewer : WalletAddress) (room : RoomId) (s : Mail) : Prop :=
  s.mentionCount viewer room = 0 ∧ ∀ limit, unreadEntries (s.inbox viewer limit) room = 0

variable {viewer : WalletAddress} {room : RoomId}

/-- Where the pointer has passed every mention, there is no badge and no unread entry. -/
theorem cleared_of_settled (hk : s.Kept) (hs : s.Settled viewer room) :
    s.Cleared viewer room := by
  have hcount : s.mentionCount viewer room = 0 := by
    rw [mentionCount_eq, List.countP_eq_zero]
    intro mm hmm hr
    have hr' : mm.roomId = room := by simpa using hr
    rcases List.mem_filter.1 hmm with ⟨hmem, hshown⟩
    rcases (Option.any_eq_true_iff_get _ _).1 hshown with ⟨_, hconds⟩
    simp only [Bool.and_eq_true, beq_iff_eq, decide_eq_true_eq] at hconds
    have hle := hs mm hmem hr' hconds.1.1.1.1.2
    have hlt := hconds.1.2
    rw [hr'] at hlt
    omega
  refine ⟨hcount, fun limit => ?_⟩
  -- A page is a part of the whole inbox, and the whole inbox has no unread entry.
  have hwhole := inboxAgrees_of_kept hk viewer room _ (Nat.le_refl _)
  have hpage : (s.inbox viewer limit).Sublist (s.inbox viewer (s.inboxRows viewer).length) := by
    unfold inbox
    rw [List.take_length]
    exact (List.take_sublist limit _).map _
  have hle := hpage.countP_le (p := fun v => v.roomId == room && v.isUnread)
  rw [hcount] at hwhole
  unfold unreadEntries at hwhole ⊢
  omega

theorem le_latestSerial {m : Message} (h : s.streams.Has room m) :
    m.msgSerial ≤ s.latestSerial room := by
  have hmax : ∀ (l : List Nat), ∀ n ∈ l, n ≤ l.foldr max 0 := by
    intro l
    induction l with
    | nil => intro n hn; cases hn
    | cons k l ih =>
        intro n hn
        rcases List.mem_cons.1 hn with rfl | hn
        · exact Nat.le_max_left _ _
        · exact Nat.le_trans (ih n hn) (Nat.le_max_right _ _)
  rcases h with ⟨st, hst, hm⟩
  rw [latestSerial, hst]
  exact hmax _ _ (List.mem_map_of_mem hm)

theorem lastReadSerial_markRead (h : (s.streams.stream room).isSome) (a b : WalletAddress)
    (r : RoomId) (serial : Nat) :
    (s.markRead room a serial).lastReadSerial r b =
      if (r, b) = (room, a) then max (s.lastReadSerial room a) serial
      else s.lastReadSerial r b := by
  have hsome : ¬ (s.streams.stream room).isNone = true := by
    rw [Option.isNone_iff_eq_none]
    intro hnone
    rw [hnone] at h
    cases h
  unfold markRead
  rw [if_neg hsome]
  simp only [lastReadSerial]
  rw [Table.lookup_upsert]
  by_cases hkey : (r, b) = (room, a)
  · rw [if_pos hkey, if_pos hkey, Option.map_some, Option.getD_some]
  · rw [if_neg hkey, if_neg hkey]

/-- Reading a room up to its latest serial settles it. -/
theorem settled_markRead (hk : s.Kept) {serial : Nat} (h : s.latestSerial room ≤ serial) :
    (s.markRead room viewer serial).Settled viewer room := by
  intro mm hmm hr hviewer
  have hmem : mm ∈ s.mentions := by
    unfold markRead at hmm
    split at hmm
    · exact hmm
    · exact hmm
  rcases hk.copied mm hmem with ⟨m, hm, -, hle, -⟩
  rw [hr] at hm
  have hroom : (s.streams.stream room).isSome := by
    rcases hm with ⟨st, hst, -⟩
    rw [hst]
    rfl
  have hlatest := le_latestSerial hm
  rw [lastReadSerial_markRead hroom, if_pos rfl]
  have hmax := Nat.le_max_right (s.lastReadSerial room viewer) serial
  omega

-- The pointer of the viewer does not go back while nothing drops it.
theorem lastReadSerial_step_le (c : Change) (hdrops : ¬ Drops viewer room c)
    (hdelete : c ≠ .deleteRoom room) :
    s.lastReadSerial room viewer ≤ (s.step c).lastReadSerial room viewer := by
  have hsame : ∀ {x : Option Mail}, (∀ s', x = some s' → s'.reads = s.reads) →
      s.lastReadSerial room viewer ≤ (x.getD s).lastReadSerial room viewer := by
    intro x h
    cases x with
    | none => exact Nat.le_refl _
    | some s' => simp [lastReadSerial, h s' rfl]
  -- A filter on the keys of the pointers that lets this one through.
  have hfilter : ∀ p : RoomId × WalletAddress → Bool, p (room, viewer) = true →
      Table.lookup Prod.fst (room, viewer) (s.reads.filter fun row => p row.1) =
        Table.lookup Prod.fst (room, viewer) s.reads := by
    intro p hp
    rw [Table.lookup_filter, if_pos hp]
  cases c with
  | createRoom r => exact Nat.le_refl _
  | deleteRoom r =>
      have hne : room ≠ r := fun he => hdelete (he ▸ rfl)
      simp only [step, Mail.deleteRoom, lastReadSerial]
      rw [hfilter (fun k => decide (k.1 ≠ r)) (by simpa using hne)]
  | send r now new mentions =>
      refine hsame fun s' h => ?_
      rcases createMessage_eq_some h with ⟨ss, room', m, -, -, rfl⟩
      rfl
  | edit r now id body mentions =>
      refine hsame fun s' h => ?_
      rcases updateMessage_eq_some h with ⟨ss, room', m, -, -, rfl⟩
      rfl
  | remove r now id =>
      refine hsame fun s' h => ?_
      rcases softDeleteMessage_eq_some h with ⟨ss, -, rfl⟩
      rfl
  | purge r now caller markerId =>
      refine hsame fun s' h => ?_
      rcases deleteAllMessages_eq_some h with ⟨ss, -, rfl⟩
      rfl
  | publish r now id txHash =>
      refine hsame fun s' h => ?_
      rcases publishTxHash_eq_some h with ⟨ss, -, rfl⟩
      rfl
  | react r now id sender target code msgHash add =>
      refine hsame fun s' h => ?_
      rcases createEmoticonEvent_eq_some h with ⟨ss, -, rfl⟩
      rfl
  | markRead r a serial =>
      by_cases hroom : (s.streams.stream r).isSome
      · rw [step, lastReadSerial_markRead hroom]
        by_cases hkey : (room, viewer) = (r, a)
        · rw [if_pos hkey]
          cases hkey
          exact Nat.le_max_left _ _
        · rw [if_neg hkey]
      · have hnone : (s.streams.stream r).isNone = true := by simpa using hroom
        rw [step, markRead, if_pos hnone]
  | addMember r a =>
      simp only [step, addMember]
      split <;> exact Nat.le_refl _
  | removeMember r a =>
      have hkey : ¬ (room, viewer) = (r, a) := by
        rintro he
        cases he
        exact hdrops ⟨rfl, rfl⟩
      simp only [step, removeMember, lastReadSerial]
      rw [Table.lookup_erase, if_neg hkey]
  | evict a =>
      have hne : viewer ≠ a := fun he => hdrops he.symm
      simp only [step, Mail.evict, lastReadSerial]
      rw [hfilter (fun k => decide (k.2 ≠ a)) (by simpa using hne)]
  | block blocker target => exact Nat.le_refl _
  | unblock blocker target => exact Nat.le_refl _

-- A step that does not name the viewer adds no mention of the viewer.
theorem mem_mentions_step (hk : s.Kept) {c : Change} (hnames : ¬ Names viewer room c)
    {mm : Mention} (hmm : mm ∈ (s.step c).mentions) (hr : mm.roomId = room)
    (hviewer : mm.mentionedAddress = viewer) : mm ∈ s.mentions := by
  have hcommitted : ∀ {x : Option Mail}, mm ∈ (x.getD s).mentions →
      (∀ s', x = some s' → mm ∈ s'.mentions → mm ∈ s.mentions) → mm ∈ s.mentions := by
    intro x hx h
    cases x with
    | none => exact hx
    | some s' => exact h s' rfl hx
  cases c with
  | createRoom r => exact hmm
  | deleteRoom r => exact List.mem_of_mem_filter hmm
  | send r now new mentions =>
      refine hcommitted hmm fun s' h hmm => ?_
      rcases createMessage_eq_some h with ⟨ss, room', m, htx, -, rfl⟩
      rcases mem_record (fresh_of_createMessage hk htx) hmm with hold | ⟨a, ha, rfl⟩
      · exact hold
      · exact absurd ⟨hr, hviewer ▸ ha⟩ hnames
  | edit r now id body mentions =>
      refine hcommitted hmm fun s' h hmm => ?_
      rcases updateMessage_eq_some h with ⟨ss, room', m, htx, -, rfl⟩
      rcases mem_record (fun x hx => (mem_forget.1 hx).2) hmm with hold | ⟨a, ha, rfl⟩
      · exact (mem_forget.1 hold).1
      · exact absurd ⟨hr, hviewer ▸ ha⟩ hnames
  | remove r now id =>
      refine hcommitted hmm fun s' h hmm => ?_
      rcases softDeleteMessage_eq_some h with ⟨ss, -, rfl⟩
      dsimp only at hmm
      split at hmm
      · exact (mem_forget.1 hmm).1
      · exact hmm
  | purge r now caller markerId =>
      refine hcommitted hmm fun s' h hmm => ?_
      rcases deleteAllMessages_eq_some h with ⟨ss, -, rfl⟩
      exact List.mem_of_mem_filter hmm
  | publish r now id txHash =>
      refine hcommitted hmm fun s' h hmm => ?_
      rcases publishTxHash_eq_some h with ⟨ss, -, rfl⟩
      exact hmm
  | react r now id sender target code msgHash add =>
      refine hcommitted hmm fun s' h hmm => ?_
      rcases createEmoticonEvent_eq_some h with ⟨ss, -, rfl⟩
      exact hmm
  | markRead r a serial =>
      simp only [step, markRead] at hmm
      split at hmm <;> exact hmm
  | addMember r a =>
      simp only [step, addMember] at hmm
      split at hmm <;> exact hmm
  | removeMember r a => exact hmm
  | evict a => exact hmm
  | block blocker target => exact hmm
  | unblock blocker target => exact hmm

theorem settled_step (hk : s.Kept) (hs : s.Settled viewer room) {c : Change}
    (hnames : ¬ Names viewer room c) (hdrops : ¬ Drops viewer room c) :
    (s.step c).Settled viewer room := by
  intro mm hmm hr hviewer
  have hold := mem_mentions_step hk hnames hmm hr hviewer
  by_cases hdelete : c = .deleteRoom room
  · -- A room that is deleted keeps no mention.
    subst hdelete
    have hleft := (List.mem_filter.1 hmm).2
    simp [hr] at hleft
  · exact Nat.le_trans (hs mm hold hr hviewer) (lastReadSerial_step_le c hdrops hdelete)

/-- Badge and inbox agree in every state of a run that anchors no message naming somebody
    else. And once a viewer has read a room up to its latest serial, both are zero for as
    long as the viewer stays and no message or edit names the viewer there. -/
theorem mentions_agree (changes : List Change) (h : Run.Along step Unnamed empty changes) :
    Run.Throughout step InboxAgrees empty changes ∧
      ∀ before viewer room serial after,
        changes = before ++ .markRead room viewer serial :: after →
        (Run.run step empty before).latestSerial room ≤ serial →
        (∀ c ∈ after, ¬ Names viewer room c ∧ ¬ Drops viewer room c) →
        Run.Throughout step (Cleared viewer room)
          ((Run.run step empty before).markRead room viewer serial) after := by
  refine ⟨?_, ?_⟩
  · exact Run.throughout_mono (fun s => inboxAgrees_of_kept) _ _
      (Run.throughout_of_along kept_step empty changes kept_empty h)
  · rintro before viewer room serial after rfl hlatest hquiet
    rcases (Run.along_append _ _ _).1 h with ⟨hbefore, -, hafter⟩
    have hk := Run.along_inv kept_step empty before kept_empty hbefore
    have hstart : ((Run.run step empty before).markRead room viewer serial).Settled viewer room :=
      settled_markRead hk hlatest
    have hboth := Run.along_and _ after hquiet hafter
    refine Run.throughout_mono (P := fun s : Mail => s.Kept ∧ s.Settled viewer room)
      (fun s hs => cleared_of_settled hs.1 hs.2) _ _ (Run.throughout_of_along ?_ _ _ ?_ hboth)
    · rintro s c ⟨hk, hs⟩ ⟨⟨hnames, hdrops⟩, hc⟩
      exact ⟨kept_step s c hk hc, settled_step hk hs hnames hdrops⟩
    · exact ⟨kept_markRead hk room viewer serial, hstart⟩

end Mail

namespace Sample

/-- Alice names Bob, Bob reads the room, and Alice deletes what she wrote. -/
def namedAndRead : List Change :=
  [.createRoom team, .addMember team alice, .addMember team bob,
    .send team 1000 (note "m1" alice) [bob], .markRead team bob 1000, .remove team 1001 ⟨"m1"⟩]

theorem namedAndRead_agree :
    Run.Throughout Mail.step Mail.InboxAgrees Mail.empty namedAndRead ∧
      Run.Throughout Mail.step (Mail.Cleared bob team)
        ((Run.run Mail.step Mail.empty (namedAndRead.take 4)).markRead team bob 1000)
        [.remove team 1001 ⟨"m1"⟩] := by
  have h := Mail.mentions_agree namedAndRead (by decide +kernel)
  refine ⟨h.1, h.2 (namedAndRead.take 4) bob team 1000 _ rfl (by decide +kernel) ?_⟩
  intro c hc
  rw [List.mem_singleton.1 hc]
  exact ⟨id, id⟩

/-- Alice names Bob, Bob reads the room, and Alice anchors the message. -/
def anchoredMention : List Change :=
  [.createRoom team, .addMember team alice, .addMember team bob,
    .send team 1000 (note "m1" alice) [bob], .markRead team bob 1000,
    .publish team 1001 ⟨"m1"⟩ "0xfeed"]

/-- Bob's inbox marks the message unread again, and the badge does not. -/
theorem anchored_mention_disagrees :
    ¬ Run.Throughout Mail.step Mail.InboxAgrees Mail.empty anchoredMention := by
  intro h
  have hlast := Run.throughout_last _ _ h bob team 50 (by decide +kernel)
  revert hlast
  decide +kernel

end Sample

end PocketSkynet
