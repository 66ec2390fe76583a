import PocketSkynet.Server.StreamOrder

/-!
# The Streams of All Rooms

The messages of all rooms are one table, and an id is taken once for all of
them. Here the rows are kept room by room, so that a write to one room is a write
to its stream and leaves the others as they are.

`transact_eq_some` is the inversion of a write: the rows of its room change in
the way `RowsStep` describes and every other room keeps its own. Deleting a room
takes its stream with it.

## Main definitions

* `Streams`: A stream for each room.
* `Streams.row?`: The row under an id, wherever it is.
* `Streams.transact`: A write to one room.
* `Streams.Distinct`: No two rows share an id.

## Theorems

* `row?_eq_some`: The row an id finds is the one that is there.
* `has_createMessage`, `has_updateMessage`, `has_softDeleteMessage`, `has_publishTxHash`,
  `has_createEmoticonEvent`, `has_deleteAllMessages`: The rows after each write.
* `distinct_transact`: Writes keep ids apart.
-/

namespace PocketSkynet

/-- The id that a write gives to a new row. -/
def Mutation.newId : Mutation → Option MessageId
  | .createMessage _ new => some new.id
  | .createEmoticonEvent _ id _ _ _ _ _ => some id
  | .deleteAllMessages _ _ markerId => some markerId
  | .updateMessage _ _ _ | .softDeleteMessage _ _ | .publishTxHash _ _ _ => none

/-- The streams of all rooms, each under the id of its room. -/
abbrev Streams := List (RoomId × Stream)

namespace Streams

/-- The stream of a room, if there is such a room. -/
def stream (ss : Streams) (room : RoomId) : Option Stream :=
  (Table.lookup Prod.fst room ss).map Prod.snd

/-- The row under an id, deleted or not, and the room it is in. -/
def row? (ss : Streams) (id : MessageId) : Option (RoomId × Message) :=
  ss.findSome? fun p => (p.2.row? id).map fun m => (p.1, m)

/-- Another room has a row under the id that a write would give to its own. -/
def taken (ss : Streams) (room : RoomId) (m : Mutation) : Bool :=
  ss.any fun p => p.1 ≠ room && m.newId.any fun id => (p.2.row? id).isSome

/-- Put a stream in the place of the one that a room has. -/
def setStream (ss : Streams) (room : RoomId) (st : Stream) : Streams :=
  Table.modify Prod.fst room (fun p => (p.1, st)) ss

/-- A write to one room, if it commits. -/
def transact (ss : Streams) (room : RoomId) (m : Mutation) : Option Streams :=
  if ss.taken room m then none
  else ((ss.stream room).bind (·.transact m)).map (ss.setStream room)

/-- Open a room that has handed out no serial yet. -/
def createRoom (ss : Streams) (room : RoomId) : Streams :=
  Table.insertNew Prod.fst (room, Stream.create 1) ss

/-- Delete a room with everything in it. -/
def deleteRoom (ss : Streams) (room : RoomId) : Streams := Table.erase Prod.fst room ss

/-- A row of a room. -/
def Has (ss : Streams) (room : RoomId) (m : Message) : Prop :=
  ∃ st, ss.stream room = some st ∧ m ∈ st.rows

/-- No row has a serial that its room is still to hand out. -/
def Below (ss : Streams) : Prop :=
  ∀ room st, ss.stream room = some st → ∀ m ∈ st.rows, m.msgSerial < st.nextSerial

/-- Rooms have one stream each, and no two rows share an id. -/
structure Distinct (ss : Streams) : Prop where
  rooms : Table.Keyed Prod.fst ss
  keyed : ∀ room st, ss.stream room = some st → Table.Keyed Message.id st.rows
  apart : ∀ room room' m m', ss.Has room m → ss.Has room' m' → m.id = m'.id → room = room'

variable {ss ss' : Streams} {room : RoomId}

theorem stream_of_mem (h : Table.Keyed Prod.fst ss) {p : RoomId × Stream} (hp : p ∈ ss) :
    ss.stream p.1 = some p.2 := by
  rw [stream, Table.lookup_of_mem h hp, Option.map_some]

theorem mem_of_stream {st : Stream} (h : ss.stream room = some st) : (room, st) ∈ ss := by
  rcases Option.map_eq_some_iff.1 h with ⟨p, hp, rfl⟩
  rw [← Table.key_of_lookup hp]
  exact Table.mem_of_lookup hp

theorem stream_setStream (st : Stream) (r : RoomId) (h : (ss.stream room).isSome) :
    (ss.setStream room st).stream r = if r = room then some st else ss.stream r := by
  have hkey : ∀ p : RoomId × Stream, (p.1, st).1 = p.1 := fun _ => rfl
  rw [stream, setStream, Table.lookup_modify _ _ _ hkey]
  by_cases hr : r = room
  · subst hr
    rw [if_pos rfl, if_pos rfl]
    rcases Option.isSome_iff_exists.1 h with ⟨old, hold⟩
    rcases Option.map_eq_some_iff.1 hold with ⟨p, hp, -⟩
    simp [hp]
  · rw [if_neg hr, if_neg hr, stream]

/-- The inversion of a write to a room. -/
theorem transact_eq_some {m : Mutation} (h : ss.transact room m = some ss') :
    ss.taken room m = false ∧ ∃ n st st', ss.stream room = some st ∧
      st.transact m = some st' ∧ st.nextSerial ≤ n ∧ st'.nextSerial = n + 1 ∧ RowsStep n st.rows m st'.rows ∧
      ss' = ss.setStream room st' ∧
      ∀ r, ss'.stream r = if r = room then some st' else ss.stream r := by
  unfold transact at h
  split at h
  next => cases h
  next htaken =>
    refine ⟨by simpa using htaken, ?_⟩
    rcases Option.map_eq_some_iff.1 h with ⟨st', hst', rfl⟩
    rcases Option.bind_eq_some_iff.1 hst' with ⟨st, hst, htx⟩
    rcases Stream.transact_cases htx with ⟨n, hn, hnext, hstep⟩
    exact ⟨n, st, st', hst, htx, hn, hnext, hstep, rfl,
      fun r => stream_setStream st' r (by rw [hst]; rfl)⟩

theorem Distinct.eq_of_id (hd : ss.Distinct) {room' : RoomId} {m m' : Message}
    (h : ss.Has room m) (h' : ss.Has room' m') (he : m.id = m'.id) :
    room = room' ∧ m = m' := by
  have hroom := hd.apart room room' m m' h h' he
  subst hroom
  rcases h with ⟨st, hst, hm⟩
  rcases h' with ⟨st', hst', hm'⟩
  cases hst.symm.trans hst'
  have hkeyed := hd.keyed room st hst
  have hfind := Table.lookup_of_mem hkeyed hm
  rw [he, Table.lookup_of_mem hkeyed hm'] at hfind
  exact ⟨rfl, (Option.some.inj hfind).symm⟩

/-- The row that an id finds is the one row that has it. -/
theorem row?_eq_some (hd : ss.Distinct) {id : MessageId} {m : Message} :
    ss.row? id = some (room, m) ↔ ss.Has room m ∧ m.id = id := by
  constructor
  · intro h
    rcases List.exists_of_findSome?_eq_some h with ⟨p, hp, hfound⟩
    rcases Option.map_eq_some_iff.1 hfound with ⟨m', hm', he⟩
    cases he
    exact ⟨⟨p.2, stream_of_mem hd.rooms hp, Table.mem_of_lookup hm'⟩, Table.key_of_lookup hm'⟩
  · rintro ⟨hhas, rfl⟩
    rcases hhas with ⟨st, hst, hm⟩
    cases hfound : ss.row? m.id with
    | none =>
        -- The search passes over no room that has the row.
        have hnone := List.findSome?_eq_none_iff.1 hfound (room, st) (mem_of_stream hst)
        rw [Option.map_eq_none_iff, Stream.row?,
          Table.lookup_of_mem (hd.keyed room st hst) hm] at hnone
        cases hnone
    | some found =>
        rcases List.exists_of_findSome?_eq_some hfound with ⟨p, hp, hrow⟩
        rcases Option.map_eq_some_iff.1 hrow with ⟨m', hm', rfl⟩
        have hhas' : ss.Has p.1 m' :=
          ⟨p.2, stream_of_mem hd.rooms hp, Table.mem_of_lookup hm'⟩
        rcases hd.eq_of_id hhas' ⟨st, hst, hm⟩ (Table.key_of_lookup hm') with ⟨hroom, hrow⟩
        rw [hroom, hrow]

-- No other room holds the id of a row that a write has just inserted.
theorem not_taken {m : Mutation} {id : MessageId} (h : ss.taken room m = false)
    (hid : m.newId = some id) {r : RoomId} {x : Message} (hne : r ≠ room)
    (hd : ss.Distinct) (hx : ss.Has r x) : x.id ≠ id := by
  rintro rfl
  rcases hx with ⟨st, hst, hx⟩
  have hfree := List.any_eq_false.1 h (r, st) (mem_of_stream hst)
  have hrow : st.row? x.id = some x := Table.lookup_of_mem (hd.keyed r st hst) hx
  simp [hne, hid, hrow] at hfree

/-- Every row after a write was there before, or is the row it inserted or changed. -/
theorem id_of_rowsStep {rows rows' : List Message} {m : Mutation} {n : Nat}
    (h : RowsStep n rows m rows') {x : Message} (hx : x ∈ rows') :
    (∃ y ∈ rows, y.id = x.id) ∨ m.newId = some x.id := by
  rcases origin_of_rowsStep h hx with ⟨y, hy, hid, -⟩ | hnew
  · exact Or.inl ⟨y, hy, hid⟩
  · cases m <;> cases hnew <;> exact Or.inr rfl

/-- Writes keep ids apart. -/
theorem distinct_transact {m : Mutation} (hd : ss.Distinct)
    (h : ss.transact room m = some ss') : ss'.Distinct := by
  rcases transact_eq_some h with ⟨htaken, n, st, st', hst, -, -, -, hstep, hset, hafter⟩
  -- A row of the room that was written, against a row of another.
  have hcross : ∀ r x y, r ≠ room → ss'.Has room x → ss'.Has r y → x.id ≠ y.id := by
    rintro r x y hne ⟨stx, hstx, hx⟩ ⟨sty, hsty, hy⟩ he
    rw [hafter, if_pos rfl] at hstx
    rw [hafter, if_neg hne] at hsty
    cases hstx
    have hy' : ss.Has r y := ⟨sty, hsty, hy⟩
    rcases id_of_rowsStep hstep hx with ⟨z, hz, hzid⟩ | hnew
    · exact hne (hd.apart r room y z hy' ⟨st, hst, hz⟩ (he ▸ hzid).symm)
    · exact not_taken htaken hnew hne hd hy' he.symm
  refine ⟨?_, fun r str hr => ?_, fun r r' x y hx hy he => ?_⟩
  · have hkey : ∀ p : RoomId × Stream, (p.1, st').1 = p.1 := fun _ => rfl
    rw [hset]
    exact Table.keyed_modify room hkey hd.rooms
  · rw [hafter] at hr
    by_cases hroom : r = room
    · subst hroom
      rw [if_pos rfl] at hr
      cases hr
      exact Stream.keyed_id_rowsStep (hd.keyed r st hst) hstep
    · rw [if_neg hroom] at hr
      exact hd.keyed r str hr
  · by_cases hroom : r = room
    · subst hroom
      by_cases hroom' : r' = r
      · exact hroom'.symm
      · exact absurd he (hcross r' x y hroom' hx hy)
    · by_cases hroom' : r' = room
      · subst hroom'
        exact absurd he.symm (hcross r y x hroom hy hx)
      · rcases hx with ⟨stx, hstx, hx⟩
        rcases hy with ⟨sty, hsty, hy⟩
        rw [hafter, if_neg hroom] at hstx
        rw [hafter, if_neg hroom'] at hsty
        exact hd.apart r r' x y ⟨stx, hstx, hx⟩ ⟨sty, hsty, hy⟩ he

/-- Writes keep serials below the counter of their room. -/
theorem below_transact {m : Mutation} (hd : ss.Distinct) (hb : ss.Below)
    (h : ss.transact room m = some ss') : ss'.Below := by
  rcases transact_eq_some h with ⟨-, n, st, st', hst, -, hn, hnext, hstep, -, hafter⟩
  intro r str hr x hx
  rw [hafter] at hr
  by_cases hroom : r = room
  · subst hroom
    rw [if_pos rfl] at hr
    cases hr
    rcases Stream.mem_rowsStep (hd.keyed r st hst) hstep hx with he | hold
    · omega
    · have hlt := hb r st hst x hold
      omega
  · rw [if_neg hroom] at hr
    exact hb r str hr x hx

/-! ### What each write does to the rows -/

/-- The rows of every room after a write. -/
theorem has_transact_iff {m : Mutation} (h : ss.transact room m = some ss') :
    ∃ (n : Nat) (st st' : Stream), ss.stream room = some st ∧ st.nextSerial ≤ n ∧
      st.transact m = some st' ∧ RowsStep n st.rows m st'.rows ∧
      ∀ r x, ss'.Has r x ↔ (r = room ∧ x ∈ st'.rows) ∨ (r ≠ room ∧ ss.Has r x) := by
  rcases transact_eq_some h with ⟨-, n, st, st', hst, htx, hn, -, hstep, -, hafter⟩
  refine ⟨n, st, st', hst, hn, htx, hstep, fun r x => ?_⟩
  unfold Has
  rw [hafter]
  by_cases hr : r = room
  · simp [hr]
  · simp [hr]

-- The rows of the room that is written are the ones of its stream.
theorem has_room {st : Stream} (h : ss.stream room = some st) {x : Message} :
    ss.Has room x ↔ x ∈ st.rows := by
  simp [Has, h]

-- An id that is free in its room and that no other room has is new.
theorem ne_newId (hd : ss.Distinct) {st : Stream} (hst : ss.stream room = some st)
    {m : Mutation} {id : MessageId} (htaken : ss.taken room m = false) (hid : m.newId = some id)
    (hfree : Table.lookup Message.id id st.rows = none) {r : RoomId} {x : Message}
    (hx : ss.Has r x) : x.id ≠ id := by
  by_cases hr : r = room
  · subst hr
    exact Table.lookup_eq_none.1 hfree x ((has_room hst).1 hx)
  · exact not_taken htaken hid hr hd hx

-- A row that is put behind the others is the one row more.
theorem has_append {st : Stream} (hst : ss.stream room = some st) {y : Message}
    (hafter : ∀ r x, ss'.Has r x ↔ (r = room ∧ x ∈ st.rows ++ [y]) ∨ (r ≠ room ∧ ss.Has r x))
    (r : RoomId) (x : Message) : ss'.Has r x ↔ ss.Has r x ∨ (r = room ∧ x = y) := by
  rw [hafter, List.mem_append, List.mem_singleton]
  by_cases hr : r = room
  · subst hr
    simp [has_room hst]
  · simp [hr]

/-- A new message: no row had its id, and it is one more row. -/
theorem has_createMessage (hd : ss.Distinct) {now : Nat} {new : NewMessage}
    (h : ss.transact room (.createMessage now new) = some ss') :
    (∀ r x, ss.Has r x → x.id ≠ new.id) ∧
      ∃ n, ∀ r x, ss'.Has r x ↔ ss.Has r x ∨ (r = room ∧ x = Stream.newRow new now n) := by
  rcases has_transact_iff h with ⟨n, st, st', hst, -, -, hstep, hafter⟩
  have htaken := (transact_eq_some h).1
  generalize hrows : st'.rows = rows at hstep hafter
  cases hstep with
  | created _ _ hfree =>
      exact ⟨fun r x hx => ne_newId hd hst htaken rfl hfree hx, n, has_append hst hafter⟩

/-- A reaction event: no row had its id, and it is one more row. -/
theorem has_createEmoticonEvent (hd : ss.Distinct) {now : Nat} {id : MessageId}
    {sender : WalletAddress} {target : MessageId} {code msgHash : String} {add : Bool}
    (h : ss.transact room (.createEmoticonEvent now id sender target code msgHash add) =
      some ss') :
    (∀ r x, ss.Has r x → x.id ≠ id) ∧
      ∃ n, ∀ r x, ss'.Has r x ↔ ss.Has r x ∨ (r = room ∧
        x = Stream.eventRow id sender msgHash now n
          (if add then .emoticonAdd else .emoticonRemove) (some target) (some code)) := by
  rcases has_transact_iff h with ⟨n, st, st', hst, -, -, hstep, hafter⟩
  have htaken := (transact_eq_some h).1
  generalize hrows : st'.rows = rows at hstep hafter
  cases hstep with
  | reacted _ _ _ _ _ _ _ hfree =>
      exact ⟨fun r x hx => ne_newId hd hst htaken rfl hfree hx, n, has_append hst hafter⟩

-- The row under an id is replaced, and no other row has that id.
theorem has_modify (hd : ss.Distinct) {st : Stream} (hst : ss.stream room = some st)
    {id : MessageId} {y : Message} (hy : Table.lookup Message.id id st.rows = some y)
    {rows : List Message} {f : Message → Message}
    (hrows : rows = Table.modify Message.id id f st.rows)
    (hafter : ∀ r x, ss'.Has r x ↔ (r = room ∧ x ∈ rows) ∨ (r ≠ room ∧ ss.Has r x)) :
    ∀ r x, ss'.Has r x ↔ (ss.Has r x ∧ x.id ≠ id) ∨ (r = room ∧ x = f y) := by
  intro r x
  have hyroom : ss.Has room y := (has_room hst).2 (Table.mem_of_lookup hy)
  rw [hafter, hrows, Stream.mem_modify_row (hd.keyed room st hst) hy]
  by_cases hr : r = room
  · subst hr
    simp only [true_and, ne_eq, not_true_eq_false, false_and, or_false, has_room hst]
    exact or_comm
  · -- A row of another room has another id.
    have hother : ss.Has r x → x.id ≠ id := fun hx he =>
      hr (hd.apart r room x y hx hyroom (he.trans (Table.key_of_lookup hy).symm))
    simp only [hr, false_and, ne_eq, not_false_eq_true, true_and, false_or, or_false]
    exact ⟨fun hx => ⟨hx, hother hx⟩, fun hx => hx.1⟩

/-- An edit: the live row under the id is replaced by its edited self. -/
theorem has_updateMessage (hd : ss.Distinct) {now : Nat} {id : MessageId} {e : MessageEdit}
    (h : ss.transact room (.updateMessage now id e) = some ss') :
    ∃ n y, ss.Has room y ∧ y.id = id ∧ y.isDeleted = false ∧
      ∀ r x, ss'.Has r x ↔
        (ss.Has r x ∧ x.id ≠ id) ∨ (r = room ∧ x = Stream.editRow e now n y) := by
  rcases has_transact_iff h with ⟨n, st, st', hst, -, -, hstep, hafter⟩
  generalize hrows : st'.rows = rows at hstep hafter
  cases hstep with
  | edited _ _ _ y hy hlive =>
      exact ⟨n, y, (has_room hst).2 (Table.mem_of_lookup hy), Table.key_of_lookup hy, hlive,
        has_modify hd hst hy rfl hafter⟩

/-- An anchoring: the row under the id is replaced by its anchored self, with a serial
    above the one it had. -/
theorem has_publishTxHash (hd : ss.Distinct) {now : Nat} {id : MessageId} {txHash : String}
    (h : ss.transact room (.publishTxHash now id txHash) = some ss') :
    ∃ n y, ss.Has room y ∧ y.id = id ∧ (ss.Below → y.msgSerial < n) ∧
      ∀ r x, ss'.Has r x ↔
        (ss.Has r x ∧ x.id ≠ id) ∨ (r = room ∧ x = Stream.publishRow txHash n y) := by
  rcases has_transact_iff h with ⟨n, st, st', hst, hn, -, hstep, hafter⟩
  generalize hrows : st'.rows = rows at hstep hafter
  cases hstep with
  | published _ _ _ y hy =>
      have hmem := Table.mem_of_lookup hy
      exact ⟨n, y, (has_room hst).2 hmem, Table.key_of_lookup hy,
        fun hb => Nat.lt_of_lt_of_le (hb room st hst y hmem) hn, has_modify hd hst hy rfl hafter⟩

/-- A soft deletion: the live row under the id is replaced by its tombstone, and without
    one nothing happens. -/
theorem has_softDeleteMessage (hd : ss.Distinct) {now : Nat} {id : MessageId}
    (h : ss.transact room (.softDeleteMessage now id) = some ss') :
    (((ss.stream room).bind (·.getMessage id)).isSome = false ∧
        ∀ r x, ss'.Has r x ↔ ss.Has r x) ∨
      (((ss.stream room).bind (·.getMessage id)).isSome = true ∧
        ∃ n y, ss.Has room y ∧ y.id = id ∧ ∀ r x, ss'.Has r x ↔
          (ss.Has r x ∧ x.id ≠ id) ∨ (r = room ∧ x = Stream.deleteRow n y)) := by
  rcases has_transact_iff h with ⟨n, st, st', hst, -, htx, -, hafter⟩
  simp only [Stream.transact, Stream.softDeleteMessage, Option.bind_eq_bind,
    Option.bind_eq_some_iff] at htx
  rcases htx with ⟨a, ha, htx⟩
  cases Stream.allocate_eq_some ha
  rw [hst, Option.bind_some]
  split at htx
  next hnone =>
    -- Nothing to delete.
    cases htx
    refine Or.inl ⟨?_, fun r x => ?_⟩
    · cases hg : st.getMessage id with
      | none => rfl
      | some y => simp [hg] at hnone
    · rw [hafter]
      by_cases hr : r = room
      · subst hr
        simp [has_room hst]
      · simp [hr]
  next hsome =>
    cases htx
    rcases Stream.getMessage_isSome hsome with ⟨y, hy, hlive⟩
    refine Or.inr ⟨?_, _, y, (has_room hst).2 (Table.mem_of_lookup hy), Table.key_of_lookup hy,
      has_modify hd hst hy rfl hafter⟩
    simp [Stream.getMessage, Stream.row?, hy, hlive]

/-- A purge: the rows of the room are gone but for the marker. -/
theorem has_deleteAllMessages {now : Nat} {caller : WalletAddress} {markerId : MessageId}
    (h : ss.transact room (.deleteAllMessages now caller markerId) = some ss') :
    ∃ n, ∀ r x, ss'.Has r x ↔ (ss.Has r x ∧ r ≠ room) ∨
      (r = room ∧ x = Stream.eventRow markerId caller "" now n .deleteAll none none) := by
  rcases has_transact_iff h with ⟨n, st, st', hst, -, -, hstep, hafter⟩
  generalize hrows : st'.rows = rows at hstep hafter
  cases hstep with
  | purged _ _ _ =>
      refine ⟨n, fun r x => ?_⟩
      rw [hafter, List.mem_singleton, or_comm, and_comm]

/-! ### Rooms -/

theorem stream_createRoom (r : RoomId) :
    (ss.createRoom room).stream r =
      if r = room then (ss.stream room).or (some (Stream.create 1)) else ss.stream r := by
  rw [stream, createRoom, Table.lookup_insertNew]
  by_cases hr : r = room
  · subst hr
    cases hl : Table.lookup Prod.fst r ss <;> simp [stream, hl]
  · simp [stream, hr]

theorem stream_deleteRoom (r : RoomId) :
    (ss.deleteRoom room).stream r = if r = room then none else ss.stream r := by
  rw [stream, deleteRoom, Table.lookup_erase]
  by_cases hr : r = room <;> simp [stream, hr]

-- A room that has just been opened has no rows.
theorem has_createRoom {r : RoomId} {m : Message} :
    (ss.createRoom room).Has r m ↔ ss.Has r m := by
  unfold Has
  rw [stream_createRoom]
  by_cases hr : r = room
  · subst hr
    cases hs : ss.stream r with
    | none => simp [Stream.create]
    | some st => simp
  · rw [if_neg hr]

theorem has_deleteRoom {r : RoomId} {m : Message} :
    (ss.deleteRoom room).Has r m ↔ ss.Has r m ∧ r ≠ room := by
  unfold Has
  rw [stream_deleteRoom]
  by_cases hr : r = room <;> simp [hr]

theorem distinct_createRoom (hd : ss.Distinct) : (ss.createRoom room).Distinct := by
  refine ⟨Table.keyed_insertNew _ hd.rooms, fun r st hr => ?_, fun r r' x y hx hy => ?_⟩
  · rw [stream_createRoom] at hr
    by_cases hroom : r = room
    · subst hroom
      rw [if_pos rfl] at hr
      cases hs : ss.stream r with
      | none =>
          rw [hs] at hr
          cases hr
          exact Table.keyed_nil
      | some old =>
          rw [hs] at hr
          cases hr
          exact hd.keyed r st hs
    · rw [if_neg hroom] at hr
      exact hd.keyed r st hr
  · exact hd.apart r r' x y (has_createRoom.1 hx) (has_createRoom.1 hy)

theorem distinct_deleteRoom (hd : ss.Distinct) : (ss.deleteRoom room).Distinct := by
  refine ⟨Table.keyed_erase _ hd.rooms, fun r st hr => ?_, fun r r' x y hx hy => ?_⟩
  · rw [stream_deleteRoom] at hr
    by_cases hroom : r = room
    · rw [if_pos hroom] at hr
      cases hr
    · rw [if_neg hroom] at hr
      exact hd.keyed r st hr
  · exact hd.apart r r' x y (has_deleteRoom.1 hx).1 (has_deleteRoom.1 hy).1

theorem below_createRoom (hb : ss.Below) : (ss.createRoom room).Below := by
  intro r st hr m hm
  have hhas : ss.Has r m := has_createRoom.1 ⟨st, hr, hm⟩
  rcases hhas with ⟨old, hold, hm'⟩
  rw [stream_createRoom] at hr
  by_cases hroom : r = room
  · subst hroom
    rw [if_pos rfl, hold, Option.some_or] at hr
    cases hr
    exact hb r st hold m hm'
  · rw [if_neg hroom] at hr
    exact hb r st hr m hm

theorem below_deleteRoom (hb : ss.Below) : (ss.deleteRoom room).Below := by
  intro r st hr
  rw [stream_deleteRoom] at hr
  by_cases hroom : r = room
  · rw [if_pos hroom] at hr
    cases hr
  · rw [if_neg hroom] at hr
    exact hb r st hr

theorem below_nil : Below [] := fun _ _ h => by cases h

theorem distinct_nil : Distinct [] where
  rooms := Table.keyed_nil
  keyed := fun _ _ h => by cases h
  apart := fun _ _ _ _ h => by
    rcases h with ⟨st, hst, -⟩
    cases hst

end Streams

end PocketSkynet
