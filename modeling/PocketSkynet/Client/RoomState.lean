import Mathlib.Data.Finset.Image
import Mathlib.Data.List.Sort
import PocketSkynet.Core.Message
import PocketSkynet.Lib.Table

/-!
# The Client's View of a Room

The state a client keeps for one room and the three ways rows enter it. `fold`
applies a sync page, event by event and in the order received, and moves the
cursor past every event it sees. `mergeHistory` adds the rows of a history page
that are not held yet and leaves the cursor alone. `fromCached` rebuilds the
state from the snapshot `toCached` took.

Reactions are a finite set of target, code and sender. The client keeps them as
nested maps whose empty entries it prunes, which carry the same information.

## Main definitions

* `RoomState`: The messages held, the reactions, the cursor and the flags.
* `RoomState.foldOne`, `RoomState.fold`: The sync fold.
* `FoldOutcome`: What a fold reports to its caller.
* `RoomState.mergeHistory`: The history merge.
* `capRows`, `RoomState.toCached`, `RoomState.fromCached`: The snapshot.
* `nextSyncCursor`: Whether and where the drain loop goes on.

## Theorems

* `mem_reactions_foldOne`: The reactions after one event.
* `cursor_foldOne`: Every event moves the cursor, to its serial at least.
* `held_mergeOne`: The message held under an id after one row of history.
-/

namespace PocketSkynet

/-- Rows kept per room by the snapshot. -/
def maxRows : Nat := 200

/-- Rows asked for with every history page. -/
def pageSize : Nat := 50

/-- Everything a client knows about one room's stream. -/
structure RoomState where
  messages : List Message
  reactions : Finset Reaction
  cursor : Nat
  hasMoreHistory : Bool
deriving DecidableEq

/-- What folding a page did. -/
structure FoldOutcome where
  upserted : List MessageId
  removed : List MessageId
  purged : Bool
  maxSerial : Nat
deriving DecidableEq, Repr

/-- One room's persisted stream. -/
structure CachedRoom where
  rows : List Message
  reactions : Finset Reaction
  hasMoreHistory : Bool
deriving DecidableEq

namespace RoomState

/-- A room nothing is known about. -/
def empty : RoomState :=
  { messages := [], reactions := ∅, cursor := 0, hasMoreHistory := false }

/-- The message held under an id. -/
def held (st : RoomState) (id : MessageId) : Option Message :=
  Table.lookup Message.id id st.messages

/-- Fold one event. The cursor advances for every event, ignored ones included. -/
def foldOne (st : RoomState) (event : Message) : RoomState :=
  let st := { st with cursor := max st.cursor event.msgSerial }
  match event.kind with
  | .add | .edit => { st with messages := Table.upsert Message.id event st.messages }
  | .delete =>
      { st with
        messages := Table.erase Message.id event.id st.messages
        reactions := st.reactions.filter fun r => r.target ≠ event.id }
  | .deleteAll => { st with messages := [], reactions := ∅, hasMoreHistory := false }
  | .emoticonAdd =>
      match event.reaction? with
      | some r => { st with reactions := insert r st.reactions }
      | none => st
  | .emoticonRemove =>
      match event.reaction? with
      | some r => { st with reactions := st.reactions.erase r }
      | none => st
  | .unknown => st

end RoomState

/-- What folding one more event adds to the report. -/
def FoldOutcome.note (out : FoldOutcome) (st : RoomState) (event : Message) : FoldOutcome :=
  let out := { out with maxSerial := max out.maxSerial event.msgSerial }
  match event.kind with
  | .add | .edit => { out with upserted := out.upserted ++ [event.id] }
  | .delete =>
      if (st.held event.id).isSome then { out with removed := out.removed ++ [event.id] } else out
  | .deleteAll => { out with purged := true, upserted := [], removed := [] }
  | _ => out

@[simp] theorem FoldOutcome.maxSerial_note (out : FoldOutcome) (st : RoomState)
    (event : Message) : (out.note st event).maxSerial = max out.maxSerial event.msgSerial := by
  unfold FoldOutcome.note
  cases event.kind <;> simp only
  split <;> rfl

namespace RoomState

/-- Fold a page in the order received, reporting what it did. -/
def foldReport (st : RoomState) (events : List Message) : RoomState × FoldOutcome :=
  events.foldl (fun p e => (p.1.foldOne e, p.2.note p.1 e)) (st, ⟨[], [], false, 0⟩)

/-- The state after a page. -/
def fold (st : RoomState) (events : List Message) : RoomState := events.foldl foldOne st

/-- Merge one row of a history page, unless its id is held. -/
def mergeOne (st : RoomState) (m : Message) : RoomState :=
  if m.displayable then { st with messages := Table.insertNew Message.id m st.messages } else st

/-- Merge a history page. The cursor does not move. -/
def mergeHistory (st : RoomState) (page : List Message) : RoomState := page.foldl mergeOne st

/-- Take in a history page and what its caller makes of the pages behind it. -/
def takeHistory (st : RoomState) (page : List Message) (hasMore : Bool) : RoomState :=
  { st.mergeHistory page with hasMoreHistory := hasMore }

/-- The newest `maxRows` rows, oldest first. -/
def capRows (rows : List Message) : List Message :=
  ((rows.insertionSort Message.newestFirst).take maxRows).reverse

/-- The snapshot: the newest rows, their reactions, and the pagination flag. -/
def toCached (st : RoomState) : CachedRoom :=
  let rows := capRows st.messages
  { rows := rows
    reactions := st.reactions.filter fun r => r.target ∈ rows.map Message.id
    hasMoreHistory := st.hasMoreHistory }

/-- Take one row out of the snapshot. -/
def restoreOne (st : RoomState) (m : Message) : RoomState :=
  let st := { st with cursor := max st.cursor m.msgSerial }
  if m.displayable then { st with messages := Table.upsert Message.id m st.messages } else st

/-- Rebuild a room from its snapshot and the cursor persisted beside it. -/
def fromCached (cached : CachedRoom) (persistedCursor : Nat) : RoomState :=
  let st := cached.rows.foldl restoreOne
    { empty with hasMoreHistory := cached.hasMoreHistory }
  { st with
    cursor := max st.cursor persistedCursor
    reactions := st.reactions ∪ cached.reactions }

/-- The oldest timestamp held, where backward paging goes on. -/
def oldestTimestamp (st : RoomState) : Option Nat :=
  (st.messages.map Message.messageTimestamp).min?

end RoomState

/-- The next `since` of the drain loop, or the end of it. An empty page ends it
    too, or a page of blocked rows would be asked for forever. -/
def nextSyncCursor (current batchMax : Nat) (hasMore : Bool) (batchLen : Nat) : Option Nat :=
  if !hasMore || batchLen == 0 then none else some (max current batchMax)

namespace RoomState

/-! ### One event -/

@[simp] theorem cursor_foldOne (st : RoomState) (e : Message) :
    (st.foldOne e).cursor = max st.cursor e.msgSerial := by
  unfold foldOne
  cases e.kind <;> simp only <;> cases e.reaction? <;> rfl

/-- What one event does to the message held under an id. -/
theorem held_foldOne (st : RoomState) (e : Message) (id : MessageId) :
    (st.foldOne e).held id =
      match e.kind with
      | .add | .edit => if id = e.id then some e else st.held id
      | .delete => if id = e.id then none else st.held id
      | .deleteAll => none
      | _ => st.held id := by
  unfold foldOne held
  cases e.kind with
  | add => exact Table.lookup_upsert id e st.messages
  | edit => exact Table.lookup_upsert id e st.messages
  | delete => exact Table.lookup_erase e.id id st.messages
  | deleteAll => rfl
  | emoticonAdd => cases e.reaction? <;> rfl
  | emoticonRemove => cases e.reaction? <;> rfl
  | unknown => rfl

/-- What one event does to one reaction. -/
theorem mem_reactions_foldOne (st : RoomState) (e : Message) (r : Reaction) :
    r ∈ (st.foldOne e).reactions ↔
      match e.kind with
      | .delete => r ∈ st.reactions ∧ r.target ≠ e.id
      | .deleteAll => False
      | .emoticonAdd => r ∈ st.reactions ∨ e.reaction? = some r
      | .emoticonRemove => r ∈ st.reactions ∧ e.reaction? ≠ some r
      | _ => r ∈ st.reactions := by
  unfold foldOne
  cases e.kind with
  | add => rfl
  | edit => rfl
  | delete => simp
  | deleteAll => simp
  | emoticonAdd =>
      cases e.reaction? with
      | none => simp
      | some r' => simp [or_comm, eq_comm]
  | emoticonRemove =>
      cases e.reaction? with
      | none => simp
      | some r' => simp [and_comm, eq_comm]
  | unknown => rfl

theorem keyed_foldOne (st : RoomState) (e : Message) (h : Table.Keyed Message.id st.messages) :
    Table.Keyed Message.id (st.foldOne e).messages := by
  unfold foldOne
  cases e.kind with
  | add => exact Table.keyed_upsert e h
  | edit => exact Table.keyed_upsert e h
  | delete => exact Table.keyed_erase e.id h
  | deleteAll => exact Table.keyed_nil
  | emoticonAdd => cases e.reaction? <;> exact h
  | emoticonRemove => cases e.reaction? <;> exact h
  | unknown => exact h

/-! ### Pages -/

@[simp] theorem fold_nil (st : RoomState) : st.fold [] = st := rfl

@[simp] theorem fold_cons (st : RoomState) (e : Message) (es : List Message) :
    st.fold (e :: es) = (st.foldOne e).fold es := rfl

/-- The report rides along without changing the fold. -/
theorem foldReport_fst (st : RoomState) (events : List Message) :
    (st.foldReport events).1 = st.fold events := by
  have hgen : ∀ (out : FoldOutcome) (st : RoomState),
      (events.foldl (fun p e => (p.1.foldOne e, p.2.note p.1 e)) (st, out)).1 =
        st.fold events := by
    induction events with
    | nil => exact fun _ _ => rfl
    | cons e es ih => exact fun out st => ih (out.note st e) (st.foldOne e)
  exact hgen _ st

theorem le_cursor_fold (st : RoomState) (es : List Message) : st.cursor ≤ (st.fold es).cursor := by
  induction es generalizing st with
  | nil => exact le_rfl
  | cons e es ih =>
      have hstep := ih (st.foldOne e)
      rw [cursor_foldOne] at hstep
      exact le_trans (le_max_left _ _) hstep

theorem keyed_fold (st : RoomState) (es : List Message)
    (h : Table.Keyed Message.id st.messages) : Table.Keyed Message.id (st.fold es).messages := by
  induction es generalizing st with
  | nil => exact h
  | cons e es ih => exact ih _ (st.keyed_foldOne e h)

/-! ### Snapshots -/

@[simp] theorem cursor_restoreOne (st : RoomState) (m : Message) :
    (st.restoreOne m).cursor = max st.cursor m.msgSerial := by
  unfold restoreOne
  dsimp only
  split <;> rfl

/-! ### History -/

/-- Merging a row leaves what is held alone. -/
theorem held_mergeOne (st : RoomState) (m : Message) (id : MessageId) :
    (st.mergeOne m).held id =
      if id = m.id ∧ m.displayable = true then (st.held id).or (some m) else st.held id := by
  unfold mergeOne held
  cases hd : m.displayable with
  | false => simp
  | true =>
      rw [if_pos rfl]
      dsimp only
      rw [Table.lookup_insertNew]
      simp

@[simp] theorem cursor_mergeOne (st : RoomState) (m : Message) :
    (st.mergeOne m).cursor = st.cursor := by
  unfold mergeOne
  split <;> rfl

@[simp] theorem reactions_mergeOne (st : RoomState) (m : Message) :
    (st.mergeOne m).reactions = st.reactions := by
  unfold mergeOne
  split <;> rfl

@[simp] theorem mergeHistory_cons (st : RoomState) (m : Message) (ms : List Message) :
    st.mergeHistory (m :: ms) = (st.mergeOne m).mergeHistory ms := rfl

@[simp] theorem cursor_mergeHistory (st : RoomState) (page : List Message) :
    (st.mergeHistory page).cursor = st.cursor := by
  induction page generalizing st with
  | nil => rfl
  | cons m ms ih => rw [mergeHistory_cons, ih, cursor_mergeOne]

@[simp] theorem reactions_mergeHistory (st : RoomState) (page : List Message) :
    (st.mergeHistory page).reactions = st.reactions := by
  induction page generalizing st with
  | nil => rfl
  | cons m ms ih => rw [mergeHistory_cons, ih, reactions_mergeOne]

@[simp] theorem messages_takeHistory (st : RoomState) (page : List Message) (hasMore : Bool) :
    (st.takeHistory page hasMore).messages = (st.mergeHistory page).messages := rfl

@[simp] theorem cursor_takeHistory (st : RoomState) (page : List Message) (hasMore : Bool) :
    (st.takeHistory page hasMore).cursor = st.cursor := cursor_mergeHistory st page

@[simp] theorem reactions_takeHistory (st : RoomState) (page : List Message) (hasMore : Bool) :
    (st.takeHistory page hasMore).reactions = st.reactions := reactions_mergeHistory st page

theorem keyed_mergeHistory (st : RoomState) (page : List Message)
    (h : Table.Keyed Message.id st.messages) :
    Table.Keyed Message.id (st.mergeHistory page).messages := by
  induction page generalizing st with
  | nil => exact h
  | cons m ms ih =>
      refine ih _ ?_
      unfold mergeOne
      split
      · exact Table.keyed_insertNew m h
      · exact h

/-! ### What a state can come to hold -/

/-- Folding adds only events that add or edit a message. -/
theorem mem_fold {st : RoomState} {es : List Message} {m : Message}
    (h : m ∈ (st.fold es).messages) :
    m ∈ st.messages ∨ (m ∈ es ∧ m.kind.isRenderable = true) := by
  induction es generalizing st with
  | nil => exact Or.inl h
  | cons e es ih =>
      rcases ih h with h | ⟨h, hkind⟩
      · unfold foldOne at h
        cases hk : e.kind <;> rw [hk] at h <;> simp only at h
        case add | edit =>
          rcases Table.mem_of_mem_upsert h with rfl | h
          · exact Or.inr ⟨List.mem_cons_self, by simp [MsgKind.isRenderable, hk]⟩
          · exact Or.inl h
        case delete => exact Or.inl (Table.mem_erase.1 h).1
        case deleteAll => cases h
        case emoticonAdd | emoticonRemove =>
          cases hτ : e.reaction? <;> rw [hτ] at h <;> exact Or.inl h
        case unknown => exact Or.inl h
      · exact Or.inr ⟨List.mem_cons_of_mem e h, hkind⟩

theorem mem_mergeHistory {st : RoomState} {page : List Message} {m : Message}
    (h : m ∈ (st.mergeHistory page).messages) : m ∈ st.messages ∨ m ∈ page := by
  induction page generalizing st with
  | nil => exact Or.inl h
  | cons e es ih =>
      rcases ih h with h | h
      · unfold mergeOne at h
        split at h
        · rcases Table.mem_of_mem_insertNew h with rfl | h
          · exact Or.inr List.mem_cons_self
          · exact Or.inl h
        · exact Or.inl h
      · exact Or.inr (List.mem_cons_of_mem e h)

theorem mem_capRows {rows : List Message} {m : Message} (h : m ∈ capRows rows) : m ∈ rows := by
  unfold capRows at h
  exact (List.mem_insertionSort _).1 (List.mem_of_mem_take (List.mem_reverse.1 h))

theorem mem_fromCached {cached : CachedRoom} {persisted : Nat} {m : Message}
    (h : m ∈ (fromCached cached persisted).messages) : m ∈ cached.rows := by
  have hrows : ∀ (rows : List Message) (st : RoomState),
      m ∈ (rows.foldl restoreOne st).messages → m ∈ st.messages ∨ m ∈ rows := by
    intro rows
    induction rows with
    | nil => exact fun st h => Or.inl h
    | cons r rows ih =>
        intro st h
        rcases ih _ h with h | h
        · unfold restoreOne at h
          dsimp only at h
          split at h
          · rcases Table.mem_of_mem_upsert h with rfl | h
            · exact Or.inr List.mem_cons_self
            · exact Or.inl h
          · exact Or.inl h
        · exact Or.inr (List.mem_cons_of_mem r h)
  rcases hrows cached.rows _ h with h | h
  · cases h
  · exact h

end RoomState

end PocketSkynet
