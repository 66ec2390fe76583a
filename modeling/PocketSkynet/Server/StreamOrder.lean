import PocketSkynet.Server.Stream

/-!
# The Order of Writes

What a write can do to the rows of a stream, and the order that results. A
write that commits numbers the row it touches with a serial no row has had
before; every other row keeps its own, unless a purge removes it.

`RowsStep` lists the outcomes of a committed write, and `transact_cases` is the
inversion every invariant of the stream is proved from. `WellFormed` is the
order itself: ids and serials are unique, and every serial is positive and
below the counter.

## Main definitions

* `RowsStep`: The rows after a committed write, given its serial.
* `Mutation.inserted`: The row that a write inserts.
* `Stream.WellFormed`: Unique ids, unique serials, all below the counter.

## Theorems

* `origin_of_rowsStep`: Where a row after a write comes from.
* `wellFormed_apply`: Writes keep the order.
* `mem_apply`: What a write leaves is old, or carries a new serial.
* `bySerial_sorted`: What is read in serial order is strictly sorted.
-/

namespace PocketSkynet

/-- The rows a committed write leaves behind, given the serial it was issued. -/
inductive RowsStep (n : Nat) (rows : List Message) : Mutation → List Message → Prop where
  | created (now : Nat) (new : NewMessage) (hid : Table.lookup Message.id new.id rows = none) :
      RowsStep n rows (.createMessage now new) (rows ++ [Stream.newRow new now n])
  | reacted (now : Nat) (id : MessageId) (sender : WalletAddress) (target : MessageId)
      (code hash : String) (add : Bool) (hid : Table.lookup Message.id id rows = none) :
      RowsStep n rows (.createEmoticonEvent now id sender target code hash add)
        (rows ++ [Stream.eventRow id sender hash now n (if add then .emoticonAdd else .emoticonRemove)
          (some target) (some code)])
  | edited (now : Nat) (id : MessageId) (e : MessageEdit) (m : Message)
      (hm : Table.lookup Message.id id rows = some m) (hlive : m.isDeleted = false) :
      RowsStep n rows (.updateMessage now id e) (Table.modify Message.id id (Stream.editRow e now n) rows)
  | deleted (now : Nat) (id : MessageId) (m : Message)
      (hm : Table.lookup Message.id id rows = some m) (hlive : m.isDeleted = false) :
      RowsStep n rows (.softDeleteMessage now id) (Table.modify Message.id id (Stream.deleteRow n) rows)
  | missed (now : Nat) (id : MessageId) : RowsStep n rows (.softDeleteMessage now id) rows
  | purged (now : Nat) (caller : WalletAddress) (markerId : MessageId) :
      RowsStep n rows (.deleteAllMessages now caller markerId)
        [Stream.eventRow markerId caller "" now n .deleteAll none none]
  | published (now : Nat) (id : MessageId) (hash : String) (m : Message)
      (hm : Table.lookup Message.id id rows = some m) :
      RowsStep n rows (.publishTxHash now id hash)
        (Table.modify Message.id id (Stream.publishRow hash n) rows)

/-- The row that a write inserts, if it inserts one. -/
def Mutation.inserted (n : Nat) : Mutation → Option Message
  | .createMessage now new => some (Stream.newRow new now n)
  | .createEmoticonEvent now id sender target code hash add =>
      some (Stream.eventRow id sender hash now n (if add then .emoticonAdd else .emoticonRemove)
        (some target) (some code))
  | .deleteAllMessages now caller markerId =>
      some (Stream.eventRow markerId caller "" now n .deleteAll none none)
  | .updateMessage .. | .softDeleteMessage .. | .publishTxHash .. => none

/-- Every row after a write is inserted by it, or stems from a row that was there: no update
    changes the id, the parent or the time of a row. -/
theorem origin_of_rowsStep {n : Nat} {rows rows' : List Message} {m : Mutation}
    (h : RowsStep n rows m rows') {x : Message} (hx : x ∈ rows') :
    (∃ y ∈ rows, y.id = x.id ∧ y.parentMessageId = x.parentMessageId ∧
      y.messageTimestamp = x.messageTimestamp) ∨ m.inserted n = some x := by
  have hmodify : ∀ {id : MessageId} {f : Message → Message},
      x ∈ Table.modify Message.id id f rows → (∀ y, y.id = (f y).id ∧
        y.parentMessageId = (f y).parentMessageId ∧ y.messageTimestamp = (f y).messageTimestamp) →
      ∃ y ∈ rows, y.id = x.id ∧ y.parentMessageId = x.parentMessageId ∧
        y.messageTimestamp = x.messageTimestamp := by
    intro id f hx hf
    rcases Table.mem_modify.1 hx with ⟨y, hy, rfl⟩
    refine ⟨y, hy, ?_⟩
    split
    · exact hf y
    · exact ⟨rfl, rfl, rfl⟩
  have happend : ∀ row : Message, x ∈ rows ++ [row] → x ∈ rows ∨ some row = some x := by
    intro row hx
    rcases List.mem_append.1 hx with hx | hx
    · exact Or.inl hx
    · exact Or.inr (congrArg some (List.mem_singleton.1 hx).symm)
  cases h with
  | created now new hid => exact (happend _ hx).imp_left fun hx => ⟨x, hx, rfl, rfl, rfl⟩
  | reacted now id sender target code hash add hid =>
      exact (happend _ hx).imp_left fun hx => ⟨x, hx, rfl, rfl, rfl⟩
  | edited now id e r hr hlive => exact Or.inl (hmodify hx fun _ => ⟨rfl, rfl, rfl⟩)
  | deleted now id r hr hlive => exact Or.inl (hmodify hx fun _ => ⟨rfl, rfl, rfl⟩)
  | missed now id => exact Or.inl ⟨x, hx, rfl, rfl, rfl⟩
  | purged now caller markerId => exact Or.inr (congrArg some (List.mem_singleton.1 hx).symm)
  | published now id hash r hr => exact Or.inl (hmodify hx fun _ => ⟨rfl, rfl, rfl⟩)

namespace Stream

theorem allocate_eq_some {s s' : Stream} {now : Nat} (h : s.allocate now = some s') :
    s' = { s with nextSerial := s.serialAt now + 1 } := by
  unfold allocate at h
  split at h
  · exact (Option.some.inj h).symm
  · cases h

theorem insert_eq_some {s s' : Stream} {m : Message} (h : s.insert m = some s') :
    Table.lookup Message.id m.id s.rows = none ∧ s' = { s with rows := s.rows ++ [m] } := by
  unfold insert row? at h
  split at h
  next => cases h
  next hfree => exact ⟨by simpa using hfree, (Option.some.inj h).symm⟩

theorem getMessage_isSome {s : Stream} {id : MessageId} (h : ¬ (s.getMessage id).isNone = true) :
    ∃ m, Table.lookup Message.id id s.rows = some m ∧ m.isDeleted = false := by
  unfold getMessage row? at h
  cases hm : Table.lookup Message.id id s.rows with
  | none => simp [hm] at h
  | some m =>
      refine ⟨m, rfl, ?_⟩
      rw [hm] at h
      by_contra hd
      simp [hd] at h

/-- The inversion of a committed write: the counter moves past a fresh serial,
    and the rows change in the way `RowsStep` describes. -/
theorem transact_cases {s s' : Stream} {m : Mutation} (h : s.transact m = some s') :
    ∃ n, s.nextSerial ≤ n ∧ s'.nextSerial = n + 1 ∧ RowsStep n s.rows m s'.rows := by
  cases m with
  | createMessage now new =>
      simp only [transact, createMessage, Option.bind_eq_bind, Option.bind_eq_some_iff] at h
      obtain ⟨a, ha, h⟩ := h
      cases allocate_eq_some ha
      obtain ⟨hfree, rfl⟩ := insert_eq_some h
      exact ⟨s.serialAt now, le_max_left _ _, rfl, .created now new hfree⟩
  | createEmoticonEvent now id sender target code hash add =>
      simp only [transact, createEmoticonEvent, Option.bind_eq_bind,
        Option.bind_eq_some_iff] at h
      obtain ⟨a, ha, h⟩ := h
      cases allocate_eq_some ha
      obtain ⟨hfree, rfl⟩ := insert_eq_some h
      exact ⟨s.serialAt now, le_max_left _ _, rfl,
        .reacted now id sender target code hash add hfree⟩
  | updateMessage now id e =>
      simp only [transact, updateMessage, Option.bind_eq_bind, Option.bind_eq_some_iff] at h
      obtain ⟨a, ha, h⟩ := h
      cases allocate_eq_some ha
      split at h
      next => cases h
      next hlive =>
        cases h
        obtain ⟨m, hm, hd⟩ := getMessage_isSome hlive
        exact ⟨s.serialAt now, le_max_left _ _, rfl, .edited now id e m hm hd⟩
  | softDeleteMessage now id =>
      simp only [transact, softDeleteMessage, Option.bind_eq_bind, Option.bind_eq_some_iff] at h
      obtain ⟨a, ha, h⟩ := h
      cases allocate_eq_some ha
      split at h
      next =>
        cases h
        exact ⟨s.serialAt now, le_max_left _ _, rfl, .missed now id⟩
      next hlive =>
        cases h
        obtain ⟨m, hm, hd⟩ := getMessage_isSome hlive
        exact ⟨s.serialAt now, le_max_left _ _, rfl, .deleted now id m hm hd⟩
  | deleteAllMessages now caller markerId =>
      simp only [transact, deleteAllMessages, Option.bind_eq_bind,
        Option.bind_eq_some_iff] at h
      obtain ⟨a, ha, h⟩ := h
      cases allocate_eq_some ha
      cases h
      exact ⟨s.serialAt now, le_max_left _ _, rfl, .purged now caller markerId⟩
  | publishTxHash now id hash =>
      simp only [transact, publishTxHash, Option.bind_eq_bind, Option.bind_eq_some_iff] at h
      obtain ⟨a, ha, h⟩ := h
      cases allocate_eq_some ha
      split at h
      next => cases h
      next hfound =>
        cases h
        cases hm : Table.lookup Message.id id s.rows with
        | none => simp [row?, hm] at hfound
        | some m => exact ⟨s.serialAt now, le_max_left _ _, rfl, .published now id hash m hm⟩

/-- A write commits along `RowsStep`, or the stream stays as it was. -/
theorem apply_cases (s : Stream) (m : Mutation) :
    s.apply m = s ∨ ∃ n, s.nextSerial ≤ n ∧ (s.apply m).nextSerial = n + 1 ∧
      RowsStep n s.rows m (s.apply m).rows := by
  unfold apply
  cases h : s.transact m with
  | none => exact Or.inl rfl
  | some s' => exact Or.inr (transact_cases h)

/-- Ids and serials are unique, serials are positive and below the counter, and
    only a deletion marks its row deleted. -/
structure WellFormed (s : Stream) : Prop where
  keyed : Table.Keyed Message.id s.rows
  serials : Table.Keyed Message.msgSerial s.rows
  below : ∀ m ∈ s.rows, m.msgSerial < s.nextSerial
  positive : ∀ m ∈ s.rows, 0 < m.msgSerial
  tombstone : ∀ m ∈ s.rows, m.isDeleted = true ↔ m.kind = .delete
  started : 0 < s.nextSerial

theorem wellFormed_create {now : Nat} (h : 0 < now) : (create now).WellFormed where
  keyed := Table.keyed_nil
  serials := Table.keyed_nil
  below := fun _ hm => by cases hm
  positive := fun _ hm => by cases hm
  tombstone := fun _ hm => by cases hm
  started := h

theorem WellFormed.eq_of_serial {s : Stream} (h : s.WellFormed) {a b : Message}
    (ha : a ∈ s.rows) (hb : b ∈ s.rows) (he : a.msgSerial = b.msgSerial) : a = b := by
  have hfind := Table.lookup_of_mem h.serials ha
  rw [he, Table.lookup_of_mem h.serials hb] at hfind
  exact (Option.some.inj hfind).symm

theorem WellFormed.eq_of_id {s : Stream} (h : s.WellFormed) {a b : Message}
    (ha : a ∈ s.rows) (hb : b ∈ s.rows) (he : a.id = b.id) : a = b := by
  have hfind := Table.lookup_of_mem h.keyed ha
  rw [he, Table.lookup_of_mem h.keyed hb] at hfind
  exact (Option.some.inj hfind).symm

/-- A row that adds or edits a message is not deleted, so it can be shown. -/
theorem WellFormed.displayable {s : Stream} (h : s.WellFormed) {m : Message} (hm : m ∈ s.rows)
    (hk : m.kind.isRenderable = true) : m.displayable = true := by
  unfold Message.displayable
  rw [hk, Bool.true_and, Bool.not_eq_true']
  by_contra hd
  rw [Bool.not_eq_false, h.tombstone m hm] at hd
  rw [hd] at hk
  cases hk

/-- The members of a table after the row under `id` has been updated. -/
theorem mem_modify_row {rows : List Message} (hk : Table.Keyed Message.id rows) {id : MessageId}
    {m : Message} (hm : Table.lookup Message.id id rows = some m) (f : Message → Message)
    (x : Message) :
    x ∈ Table.modify Message.id id f rows ↔ x = f m ∨ (x ∈ rows ∧ x.id ≠ id) := by
  rw [Table.mem_modify]
  constructor
  · rintro ⟨y, hy, rfl⟩
    by_cases hid : y.id = id
    · have hsame : y = m := by
        have hfind := Table.lookup_of_mem hk hy
        rw [hid, hm] at hfind
        exact (Option.some.inj hfind).symm
      exact Or.inl (by rw [if_pos hid, hsame])
    · exact Or.inr (by rw [if_neg hid]; exact ⟨hy, hid⟩)
  · rintro (rfl | ⟨hx, hid⟩)
    · exact ⟨m, Table.mem_of_lookup hm, if_pos (Table.key_of_lookup hm)⟩
    · exact ⟨x, hx, if_neg hid⟩

/-- The new row of a write, in the three ways it gets in: beside the others, in
    the place of the row under its id, or alone. -/
theorem mem_rowsStep {s s' : Stream} {m : Mutation} {n : Nat} (hk : Table.Keyed Message.id s.rows)
    (h : RowsStep n s.rows m s'.rows) {x : Message} (hx : x ∈ s'.rows) :
    x.msgSerial = n ∨ x ∈ s.rows := by
  generalize s'.rows = rows' at h hx
  cases h with
  | created now new hid =>
      rcases List.mem_append.1 hx with hx | hx
      · exact Or.inr hx
      · exact Or.inl (by rw [List.mem_singleton.1 hx]; rfl)
  | reacted now id sender target code hash add hid =>
      rcases List.mem_append.1 hx with hx | hx
      · exact Or.inr hx
      · exact Or.inl (by rw [List.mem_singleton.1 hx]; rfl)
  | edited now id e r hr hlive =>
      rcases (mem_modify_row hk hr _ x).1 hx with rfl | ⟨hx, -⟩
      · exact Or.inl rfl
      · exact Or.inr hx
  | deleted now id r hr hlive =>
      rcases (mem_modify_row hk hr _ x).1 hx with rfl | ⟨hx, -⟩
      · exact Or.inl rfl
      · exact Or.inr hx
  | missed now id => exact Or.inr hx
  | purged now caller markerId => exact Or.inl (by rw [List.mem_singleton.1 hx]; rfl)
  | published now id hash r hr =>
      rcases (mem_modify_row hk hr _ x).1 hx with rfl | ⟨hx, -⟩
      · exact Or.inl rfl
      · exact Or.inr hx

/-- Replacing the row under an id by one with a fresh serial keeps serials unique. -/
theorem keyed_serial_modify {rows : List Message} {n : Nat}
    (hserials : Table.Keyed Message.msgSerial rows) (hbelow : ∀ x ∈ rows, x.msgSerial < n)
    (hk : Table.Keyed Message.id rows) (id : MessageId) (f : Message → Message)
    (hf : ∀ x, (f x).msgSerial = n) :
    Table.Keyed Message.msgSerial (Table.modify Message.id id f rows) := by
  induction rows with
  | nil => exact Table.keyed_nil
  | cons r rows ih =>
      have hs : r.msgSerial ∉ rows.map Message.msgSerial ∧
          Table.Keyed Message.msgSerial rows := List.nodup_cons.1 hserials
      have hi : r.id ∉ rows.map Message.id ∧ Table.Keyed Message.id rows := List.nodup_cons.1 hk
      have htail := ih hs.2 (fun x hx => hbelow x (List.mem_cons_of_mem r hx)) hi.2
      refine List.nodup_cons.2 ⟨?_, htail⟩
      intro hmem
      obtain ⟨y, hy, hye⟩ := List.mem_map.1 hmem
      obtain ⟨x, hx, rfl⟩ := Table.mem_modify.1 hy
      dsimp only at hye
      by_cases hr : r.id = id
      · have hxid : x.id ≠ id := fun he => hi.1 (hr ▸ he ▸ List.mem_map_of_mem hx)
        rw [if_neg hxid, if_pos hr, hf] at hye
        have hlt := hbelow x (List.mem_cons_of_mem r hx)
        omega
      · rw [if_neg hr] at hye
        by_cases hxid : x.id = id
        · rw [if_pos hxid, hf] at hye
          have hlt := hbelow r List.mem_cons_self
          omega
        · rw [if_neg hxid] at hye
          exact hs.1 (hye ▸ List.mem_map_of_mem hx)

theorem keyed_serial_append {rows : List Message} {x : Message}
    (hserials : Table.Keyed Message.msgSerial rows)
    (hbelow : ∀ r ∈ rows, r.msgSerial < x.msgSerial) :
    Table.Keyed Message.msgSerial (rows ++ [x]) := by
  refine Table.keyed_append_one hserials (Table.lookup_eq_none.2 fun r hr => ?_)
  have hlt := hbelow r hr
  omega

/-- Writes keep ids unique. -/
theorem keyed_id_rowsStep {rows rows' : List Message} {m : Mutation} {n : Nat}
    (hk : Table.Keyed Message.id rows) (h : RowsStep n rows m rows') :
    Table.Keyed Message.id rows' := by
  cases h with
  | created now new hid => exact Table.keyed_append_one hk hid
  | reacted now id sender target code hash add hid => exact Table.keyed_append_one hk hid
  | edited now id e r hr hlive =>
      have hid : ∀ x, (editRow e now n x).id = x.id := fun _ => rfl
      exact Table.keyed_modify id hid hk
  | deleted now id r hr hlive =>
      have hid : ∀ x, (deleteRow n x).id = x.id := fun _ => rfl
      exact Table.keyed_modify id hid hk
  | missed now id => exact hk
  | purged now caller markerId => exact List.nodup_singleton _
  | published now id hash r hr =>
      have hid : ∀ x, (publishRow hash n x).id = x.id := fun _ => rfl
      exact Table.keyed_modify id hid hk

/-- Writes keep serials unique. -/
theorem keyed_serial_rowsStep {rows rows' : List Message} {m : Mutation} {n : Nat}
    (hk : Table.Keyed Message.id rows) (hserials : Table.Keyed Message.msgSerial rows)
    (hbelow : ∀ x ∈ rows, x.msgSerial < n) (h : RowsStep n rows m rows') :
    Table.Keyed Message.msgSerial rows' := by
  cases h with
  | created now new hid => exact keyed_serial_append hserials hbelow
  | reacted now id sender target code hash add hid => exact keyed_serial_append hserials hbelow
  | edited now id e r hr hlive => exact keyed_serial_modify hserials hbelow hk id _ fun _ => rfl
  | deleted now id r hr hlive => exact keyed_serial_modify hserials hbelow hk id _ fun _ => rfl
  | missed now id => exact hserials
  | purged now caller markerId => exact List.nodup_singleton _
  | published now id hash r hr => exact keyed_serial_modify hserials hbelow hk id _ fun _ => rfl

/-- Writes mark a row deleted exactly when they make it a deletion. -/
theorem tombstone_rowsStep {rows rows' : List Message} {m : Mutation} {n : Nat}
    (hk : Table.Keyed Message.id rows) (htomb : ∀ x ∈ rows, x.isDeleted = true ↔ x.kind = .delete)
    (h : RowsStep n rows m rows') : ∀ x ∈ rows', x.isDeleted = true ↔ x.kind = .delete := by
  intro x hx
  cases h with
  | created now new hid =>
      rcases List.mem_append.1 hx with hx | hx
      · exact htomb x hx
      · simp [List.mem_singleton.1 hx, newRow]
  | reacted now id sender target code hash add hid =>
      rcases List.mem_append.1 hx with hx | hx
      · exact htomb x hx
      · cases add <;> simp [List.mem_singleton.1 hx, eventRow]
  | edited now id e r hr hlive =>
      rcases (mem_modify_row hk hr _ x).1 hx with rfl | ⟨hx, -⟩
      · simp [editRow, hlive]
      · exact htomb x hx
  | deleted now id r hr hlive =>
      rcases (mem_modify_row hk hr _ x).1 hx with rfl | ⟨hx, -⟩
      · simp [deleteRow]
      · exact htomb x hx
  | missed now id => exact htomb x hx
  | purged now caller markerId => simp [List.mem_singleton.1 hx, eventRow]
  | published now id hash r hr =>
      rcases (mem_modify_row hk hr _ x).1 hx with rfl | ⟨hx, -⟩
      · exact htomb r (Table.mem_of_lookup hr)
      · exact htomb x hx

/-- Every write keeps the order. -/
theorem wellFormed_apply (s : Stream) (m : Mutation) (h : s.WellFormed) :
    (s.apply m).WellFormed := by
  rcases s.apply_cases m with hs | ⟨n, hn, hnext, hstep⟩
  · rwa [hs]
  · have hbelow : ∀ x ∈ s.rows, x.msgSerial < n := fun x hx => lt_of_lt_of_le (h.below x hx) hn
    refine ⟨keyed_id_rowsStep h.keyed hstep,
      keyed_serial_rowsStep h.keyed h.serials hbelow hstep, fun x hx => ?_, fun x hx => ?_,
      tombstone_rowsStep h.keyed h.tombstone hstep, by omega⟩
    · rcases mem_rowsStep h.keyed hstep hx with he | hx
      · omega
      · have hlt := hbelow x hx
        omega
    · rcases mem_rowsStep h.keyed hstep hx with he | hx
      · have hpos := h.started
        omega
      · exact h.positive x hx

theorem nextSerial_le_apply (s : Stream) (m : Mutation) :
    s.nextSerial ≤ (s.apply m).nextSerial := by
  rcases s.apply_cases m with hs | ⟨n, hn, hnext, -⟩
  · rw [hs]
  · omega

/-- A row after a write was there before, or its serial is new. -/
theorem mem_apply {s : Stream} {m : Mutation} (hs : s.WellFormed) {x : Message}
    (hx : x ∈ (s.apply m).rows) : x ∈ s.rows ∨ s.nextSerial ≤ x.msgSerial := by
  rcases s.apply_cases m with hsame | ⟨n, hn, -, hstep⟩
  · exact Or.inl (hsame ▸ hx)
  · rcases mem_rowsStep hs.keyed hstep hx with he | hx
    · exact Or.inr (by omega)
    · exact Or.inl hx

/-! ### Reading -/

theorem mem_getMessages {s : Stream} {hides : WalletAddress → Bool} {before limit : Nat}
    {m : Message} (h : m ∈ s.getMessages hides before limit) :
    m ∈ s.rows ∧ inHistory hides before m = true := by
  unfold getMessages at h
  have hmem := List.mem_of_mem_take (List.mem_reverse.1 h)
  exact List.mem_filter.1 ((List.mem_insertionSort _).1 hmem)

theorem displayable_getMessages {s : Stream} {hides : WalletAddress → Bool} {before limit : Nat}
    {m : Message} (h : m ∈ s.getMessages hides before limit) : m.displayable = true := by
  have hshown := (mem_getMessages h).2
  unfold inHistory at hshown
  simp only [Bool.and_eq_true] at hshown
  exact hshown.1.1.1

theorem mem_bySerial {rows : List Message} {m : Message} : m ∈ bySerial rows ↔ m ∈ rows :=
  List.mem_insertionSort _

/-- Rows with distinct serials sort strictly. -/
theorem bySerial_sorted {rows : List Message} (h : Table.Keyed Message.msgSerial rows) :
    (bySerial rows).Pairwise fun a b => a.msgSerial < b.msgSerial := by
  have hle : (bySerial rows).Pairwise fun a b => a.msgSerial ≤ b.msgSerial := by
    have : IsTrans Message fun a b => a.msgSerial ≤ b.msgSerial := ⟨fun _ _ _ => le_trans⟩
    have : Std.Total fun (a b : Message) => a.msgSerial ≤ b.msgSerial :=
      ⟨fun a b => le_total a.msgSerial b.msgSerial⟩
    exact List.pairwise_insertionSort _ rows
  have hne : (bySerial rows).Pairwise fun a b => a.msgSerial ≠ b.msgSerial := by
    have hperm : List.Perm ((bySerial rows).map Message.msgSerial) (rows.map Message.msgSerial) :=
      (List.perm_insertionSort _ rows).map _
    exact List.pairwise_map.1 (hperm.nodup_iff.2 h)
  exact (hle.and hne).imp fun hab => lt_of_le_of_ne hab.1 hab.2

end Stream

end PocketSkynet
