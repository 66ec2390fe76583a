import PocketSkynet.Server.Sample
import PocketSkynet.Server.Streams

/-!
# The Serials of a Room

Every write to a room draws its serial from the counter of the room it is given, inside its
own transaction. Only a deletion looks for its row in that room: an edit and an anchoring
find theirs by its id alone, in whatever room it is, and are right because whoever calls
them has read the room off the row. A write that finds nothing to change is rolled back, the
counter with it, except for the deletion, which commits the number it has drawn.

`Aimed` is what a call has to meet for the order to hold in full: the row is in the room the
call names, and a deletion has a row to delete.

## Main definitions

* `WriteAnswer`, `Streams.write`: The writes as the database runs them.
* `Numbered`: The streams, with every serial that has been given since.
* `Aimed`: What the order needs of a call.

## Theorems

* `write_eq_transact`: On an aimed call, this is the write to one stream.
* `ordered_step`: Aimed calls keep the order.
* `serial_order`: So in every run of aimed calls serials grow, no two rows share one, and
  what fails changes nothing.
-/

namespace PocketSkynet

/-- What a write answers: the serial it was given, that nothing changed, or an error. -/
inductive WriteAnswer where
  | changed (serial : Nat)
  | unchanged
  | failed
deriving DecidableEq, Repr

namespace Streams

/-- Draw a serial from the counter of a room. -/
def draw (ss : Streams) (room : RoomId) (now : Nat) : Option (Streams × Nat) :=
  (ss.stream room).bind fun st =>
    (st.allocate now).map fun st' => (ss.setStream room st', st.serialAt now)

/-- Change the rows of a room. -/
def setRows (ss : Streams) (room : RoomId) (f : List Message → List Message) : Streams :=
  Table.modify Prod.fst room (fun p => (p.1, { p.2 with rows := f p.2.rows })) ss

/-- `INSERT`: ids are taken once for all rooms. -/
def insertRow (ss : Streams) (room : RoomId) (now : Nat) (row : Nat → Message) :
    Streams × WriteAnswer :=
  match ss.draw room now with
  | none => (ss, .failed)
  | some (drawn, n) =>
      if (ss.row? (row n).id).isSome then (ss, .failed)
      else (drawn.setRows room (· ++ [row n]), .changed n)

/-- `UPDATE ... WHERE id = ?`: the row is found in whatever room it is. -/
def updateRow (ss : Streams) (room : RoomId) (now : Nat) (id : MessageId)
    (found : Message → Bool) (f : Nat → Message → Message) : Streams × WriteAnswer :=
  match ss.draw room now with
  | none => (ss, .failed)
  | some (drawn, n) =>
      match (ss.row? id).filter (fun p => found p.2) with
      | none => (ss, .unchanged)
      | some p => (drawn.setRows p.1 (Table.modify Message.id id (f n)), .changed n)

/-- A write as the database runs it. -/
def write (ss : Streams) (room : RoomId) : Mutation → Streams × WriteAnswer
  | .createMessage now new => ss.insertRow room now (Stream.newRow new now)
  | .createEmoticonEvent now id sender target code msgHash add =>
      ss.insertRow room now fun n => Stream.eventRow id sender msgHash now n
        (if add then .emoticonAdd else .emoticonRemove) (some target) (some code)
  | .updateMessage now id e =>
      ss.updateRow room now id (fun m => !m.isDeleted) (Stream.editRow e now)
  | .publishTxHash now id txHash =>
      ss.updateRow room now id (fun _ => true) (Stream.publishRow txHash)
  | .softDeleteMessage now id =>
      match ss.draw room now with
      | none => (ss, .failed)
      | some (drawn, n) =>
          match (ss.row? id).filter (fun p => p.1 = room && !p.2.isDeleted) with
          | none => (drawn, .unchanged)
          | some _ =>
              (drawn.setRows room (Table.modify Message.id id (Stream.deleteRow n)), .changed n)
  | .deleteAllMessages now caller markerId =>
      match ss.draw room now with
      | none => (ss, .failed)
      | some (drawn, n) =>
          -- The rows of the room are gone by the time the marker is inserted.
          if (ss.row? markerId).any (fun p => p.1 ≠ room) then (ss, .failed)
          else (drawn.setRows room fun _ =>
            [Stream.eventRow markerId caller "" now n .deleteAll none none], .changed n)

/-! ### The writes to one stream -/

variable {ss : Streams} {room : RoomId}

theorem draw_eq_some {now n : Nat} {drawn : Streams} (h : ss.draw room now = some (drawn, n)) :
    ∃ st, ss.stream room = some st ∧ n = st.serialAt now ∧
      st.allocate now = some { st with nextSerial := n + 1 } ∧
      drawn = ss.setStream room { st with nextSerial := n + 1 } := by
  unfold draw at h
  rcases Option.bind_eq_some_iff.1 h with ⟨st, hst, hdraw⟩
  rcases Option.map_eq_some_iff.1 hdraw with ⟨st', hst', he⟩
  cases Stream.allocate_eq_some hst'
  cases he
  exact ⟨st, hst, rfl, hst', rfl⟩

theorem setRows_setStream (st : Stream) (f : List Message → List Message) :
    (ss.setStream room st).setRows room f = ss.setStream room { st with rows := f st.rows } := by
  unfold setRows setStream Table.modify
  rw [List.map_map]
  refine List.map_congr_left fun p _ => ?_
  by_cases hp : p.1 = room
  · simp [hp]
  · simp [hp]

-- A row is under its id in the room that is written or in another.
theorem isSome_row? (hd : ss.Distinct) {st : Stream} (hst : ss.stream room = some st)
    (id : MessageId) : (ss.row? id).isSome = true ↔
      (ss.any fun p => p.1 ≠ room && (p.2.row? id).isSome) = true ∨ (st.row? id).isSome = true := by
  rw [row?, List.findSome?_isSome_iff, List.any_eq_true]
  constructor
  · rintro ⟨p, hp, hrow⟩
    rw [Option.isSome_map] at hrow
    by_cases hroom : p.1 = room
    · have hstream := stream_of_mem hd.rooms hp
      rw [hroom, hst] at hstream
      exact Or.inr (Option.some.inj hstream ▸ hrow)
    · exact Or.inl ⟨p, hp, by simp [hroom, hrow]⟩
  · rintro (⟨p, hp, hrow⟩ | hrow)
    · exact ⟨p, hp, by rw [Option.isSome_map]; exact (Bool.and_eq_true _ _ ▸ hrow).2⟩
    · exact ⟨(room, st), mem_of_stream hst, by rw [Option.isSome_map]; exact hrow⟩

-- An id that is in no other room is found where the room has it.
theorem row?_room (hd : ss.Distinct) {st : Stream} (hst : ss.stream room = some st)
    {id : MessageId} (haimed : ∀ p, ss.row? id = some p → p.1 = room) :
    ss.row? id = (st.row? id).map fun m => (room, m) := by
  cases hrow : ss.row? id with
  | none =>
      cases hfound : st.row? id with
      | none => rfl
      | some m =>
          have hsome := (isSome_row? hd hst id).2 (Or.inr (by rw [hfound]; rfl))
          rw [hrow] at hsome
          cases hsome
  | some p =>
      rcases p with ⟨r, m⟩
      cases haimed _ hrow
      rcases (row?_eq_some hd).1 hrow with ⟨hhas, rfl⟩
      have hm := Table.lookup_of_mem (hd.keyed _ st hst) ((has_room hst).1 hhas)
      rw [Stream.row?, hm, Option.map_some]

theorem transact_room {st : Stream} (hst : ss.stream room = some st) {m : Mutation}
    (hfree : ss.taken room m = false) :
    ss.transact room m = (st.transact m).map (ss.setStream room) := by
  rw [transact, if_neg (by simp [hfree]), hst, Option.bind_some]

/-- The answer to a write says what it committed: nothing, or what the write to the stream
    of the room commits, with the serial that the counter has just passed. -/
def Answered (ss : Streams) (room : RoomId) (m : Mutation) (out : Streams × WriteAnswer) : Prop :=
  (out.1 = ss ∧ ∀ n, out.2 ≠ .changed n) ∨
    ∃ n st, ss.transact room m = some out.1 ∧ out.2 = .changed n ∧
      out.1.stream room = some st ∧ st.nextSerial = n + 1 ∧ ∃ x ∈ st.rows, x.msgSerial = n

theorem answered_failed (m : Mutation) : Answered ss room m (ss, .failed) :=
  Or.inl ⟨rfl, fun _ h => by cases h⟩

theorem answered_unchanged (m : Mutation) : Answered ss room m (ss, .unchanged) :=
  Or.inl ⟨rfl, fun _ h => by cases h⟩

-- What a write has done to the stream of its room is what it answers.
theorem answered_changed {m : Mutation} {st : Stream} (hst : ss.stream room = some st)
    (hfree : ss.taken room m = false) {n : Nat} {rows : List Message}
    (htx : st.transact m = some ⟨rows, n + 1⟩) {x : Message} (hx : x ∈ rows)
    (hserial : x.msgSerial = n) :
    Answered ss room m (ss.setStream room ⟨rows, n + 1⟩, .changed n) := by
  refine Or.inr ⟨n, ⟨rows, n + 1⟩, ?_, rfl, ?_, rfl, x, hx, hserial⟩
  · rw [transact_room hst hfree, htx, Option.map_some]
  · rw [stream_setStream _ _ (by rw [hst]; rfl), if_pos rfl]

theorem answered_insertRow (hd : ss.Distinct) {now : Nat} {row : Nat → Message} {m : Mutation}
    (hid : ∀ n, m.newId = some (row n).id) (hserial : ∀ n, (row n).msgSerial = n)
    (htx : ∀ st : Stream, st.transact m =
      (st.allocate now).bind fun st' => st'.insert (row (st.serialAt now))) :
    Answered ss room m (ss.insertRow room now row) := by
  unfold insertRow
  cases hdraw : ss.draw room now with
  | none => exact answered_failed m
  | some p =>
      rcases p with ⟨drawn, n⟩
      rcases draw_eq_some hdraw with ⟨st, hst, rfl, halloc, rfl⟩
      by_cases hrow : (ss.row? (row (st.serialAt now)).id).isSome = true
      · simp only [if_pos hrow]
        exact answered_failed m
      · have hnew := mt (isSome_row? hd hst _).2 hrow
        rw [not_or] at hnew
        have hfree : ss.taken room m = false := by
          simpa [taken, hid (st.serialAt now)] using hnew.1
        simp only [if_neg hrow, setRows_setStream]
        refine answered_changed hst hfree ?_ (List.mem_append_right _ List.mem_cons_self)
          (hserial _)
        rw [htx st, halloc, Option.bind_some, Stream.insert, if_neg]
        exact hnew.2

theorem answered_updateRow (hd : ss.Distinct) {now : Nat} {id : MessageId}
    {found : Message → Bool} {f : Nat → Message → Message} {m : Mutation} (hnew : m.newId = none)
    (hserial : ∀ n x, (f n x).msgSerial = n) (haimed : ∀ p, ss.row? id = some p → p.1 = room)
    (htx : ∀ st : Stream, st.transact m = (st.allocate now).bind fun st' =>
      if ((st.row? id).filter found).isNone then none
      else some { st' with rows := Table.modify Message.id id (f (st.serialAt now)) st.rows }) :
    Answered ss room m (ss.updateRow room now id found f) := by
  unfold updateRow
  cases hdraw : ss.draw room now with
  | none => exact answered_failed m
  | some p =>
      rcases p with ⟨drawn, n⟩
      rcases draw_eq_some hdraw with ⟨st, hst, rfl, halloc, rfl⟩
      have hfree : ss.taken room m = false := by simp [taken, hnew]
      rw [row?_room hd hst haimed]
      cases hrow : (st.row? id).filter found with
      | none =>
          have hnone : ((st.row? id).map fun m => (room, m)).filter (fun p => found p.2) = none := by
            cases hm : st.row? id with
            | none => rfl
            | some x =>
                rw [hm, Option.filter_some] at hrow
                simpa [Option.filter_some] using hrow
          simp only [hnone]
          exact answered_unchanged m
      | some x =>
          have hsome : ((st.row? id).map fun m => (room, m)).filter (fun p => found p.2) =
              some (room, x) := by
            rcases Option.filter_eq_some_iff.1 hrow with ⟨hm, hx⟩
            rw [hm, Option.map_some, Option.filter_some, if_pos hx]
          have hx := (Option.filter_eq_some_iff.1 hrow).1
          have hmem : f (st.serialAt now) x ∈
              Table.modify Message.id id (f (st.serialAt now)) st.rows :=
            Table.mem_modify.2 ⟨x, Table.mem_of_lookup hx, if_pos (Table.key_of_lookup hx)⟩
          simp only [hsome, setRows_setStream]
          refine answered_changed hst hfree ?_ hmem (hserial _ x)
          rw [htx st, halloc, Option.bind_some, hrow]
          rfl

/-- What the order needs of a call. The row of an edit or an anchoring is in the room the
    call names, and a deletion finds a row there that is not deleted yet, if it gets as far
    as to look for one. -/
def aimed (ss : Streams) (room : RoomId) : Mutation → Bool
  | .updateMessage _ id _ | .publishTxHash _ id _ => (ss.row? id).all fun p => p.1 = room
  | .softDeleteMessage now id =>
      (ss.draw room now).isNone || (ss.row? id).any fun p => p.1 = room && !p.2.isDeleted
  | .createMessage _ _ | .createEmoticonEvent _ _ _ _ _ _ _ | .deleteAllMessages _ _ _ => true

theorem answered_softDelete (hd : ss.Distinct) {now : Nat} {id : MessageId}
    (haimed : ss.aimed room (.softDeleteMessage now id) = true) :
    Answered ss room (.softDeleteMessage now id) (ss.write room (.softDeleteMessage now id)) := by
  simp only [write]
  cases hdraw : ss.draw room now with
  | none => exact answered_failed _
  | some p =>
      rcases p with ⟨drawn, n⟩
      rcases draw_eq_some hdraw with ⟨st, hst, rfl, halloc, rfl⟩
      rw [aimed, hdraw, Option.isNone_some, Bool.false_or] at haimed
      -- The row is there, so the serial is not drawn in vain.
      rcases (Option.any_eq_true _ _).1 haimed with ⟨⟨r, x⟩, hrow, hlive⟩
      have hfound : (ss.row? id).filter (fun p => p.1 = room && !p.2.isDeleted) = some (r, x) := by
        rw [hrow, Option.filter_some, if_pos hlive]
      simp only [Bool.and_eq_true, decide_eq_true_eq, Bool.not_eq_true'] at hlive
      rcases hlive with ⟨rfl, hlive⟩
      rcases (row?_eq_some hd).1 hrow with ⟨hhas, rfl⟩
      have hx := Table.lookup_of_mem (hd.keyed _ st hst) ((has_room hst).1 hhas)
      have hmem : Stream.deleteRow (st.serialAt now) x ∈
          Table.modify Message.id x.id (Stream.deleteRow (st.serialAt now)) st.rows :=
        Table.mem_modify.2 ⟨x, Table.mem_of_lookup hx, if_pos rfl⟩
      simp only [hfound, setRows_setStream]
      refine answered_changed hst (by simp [taken, Mutation.newId]) ?_ hmem rfl
      simp [Stream.transact, Stream.softDeleteMessage, halloc, Stream.getMessage, Stream.row?, hx,
        hlive]

theorem answered_deleteAll (hd : ss.Distinct) {now : Nat} {caller : WalletAddress}
    {markerId : MessageId} :
    Answered ss room (.deleteAllMessages now caller markerId)
      (ss.write room (.deleteAllMessages now caller markerId)) := by
  simp only [write]
  cases hdraw : ss.draw room now with
  | none => exact answered_failed _
  | some p =>
      rcases p with ⟨drawn, n⟩
      rcases draw_eq_some hdraw with ⟨st, hst, rfl, halloc, rfl⟩
      by_cases hother : (ss.row? markerId).any (fun p => decide (p.1 ≠ room)) = true
      · simp only [if_pos hother]
        exact answered_failed _
      · have hfree : ss.taken room (.deleteAllMessages now caller markerId) = false := by
          by_contra htaken
          rw [Bool.not_eq_false, taken, List.any_eq_true] at htaken
          rcases htaken with ⟨p, hp, hrow⟩
          simp only [Bool.and_eq_true, decide_eq_true_eq, Mutation.newId, Option.any_some] at hrow
          rcases Option.isSome_iff_exists.1 hrow.2 with ⟨x, hx⟩
          have hhas : ss.Has p.1 x :=
            ⟨p.2, stream_of_mem hd.rooms hp, Table.mem_of_lookup hx⟩
          have hfound := (row?_eq_some hd).2 ⟨hhas, Table.key_of_lookup hx⟩
          exact hother (by simp [hfound, hrow.1])
        simp only [if_neg hother, setRows_setStream]
        refine answered_changed hst hfree ?_ List.mem_cons_self rfl
        simp [Stream.transact, Stream.deleteAllMessages, halloc]

/-- On an aimed call, a write answers what the write to one stream commits. -/
theorem write_eq_transact (hd : ss.Distinct) {m : Mutation} (haimed : ss.aimed room m = true) :
    Answered ss room m (ss.write room m) := by
  cases m with
  | createMessage now new =>
      exact answered_insertRow hd (fun _ => rfl) (fun _ => rfl) fun _ => rfl
  | createEmoticonEvent now id sender target code msgHash add =>
      exact answered_insertRow hd (fun _ => rfl) (fun _ => rfl) fun _ => rfl
  | updateMessage now id e =>
      refine answered_updateRow hd rfl (fun _ _ => rfl) ?_ fun _ => rfl
      exact fun p hp => by simpa [aimed, hp] using haimed
  | softDeleteMessage now id => exact answered_softDelete hd haimed
  | deleteAllMessages now caller markerId => exact answered_deleteAll hd
  | publishTxHash now id txHash =>
      refine answered_updateRow hd rfl (fun _ _ => rfl) ?_ fun st => ?_
      · exact fun p hp => by simpa [aimed, hp] using haimed
      · have hfilter : (st.row? id).filter (fun _ => true) = st.row? id := by
          cases st.row? id <;> rfl
        rw [hfilter]
        rfl

end Streams

/-- A call of one of the writes. -/
structure WriteCall where
  room : RoomId
  mutation : Mutation
deriving DecidableEq, Repr

/-- The streams, with the serials that have been given in each room since the run began. -/
structure Numbered where
  streams : Streams
  given : List (RoomId × Nat)
deriving DecidableEq, Repr

namespace Numbered

/-- What a call answers. -/
def answer (s : Numbered) (w : WriteCall) : WriteAnswer := (s.streams.write w.room w.mutation).2

def step (s : Numbered) (w : WriteCall) : Numbered where
  streams := (s.streams.write w.room w.mutation).1
  given := match s.answer w with
    | .changed n => (w.room, n) :: s.given
    | .unchanged | .failed => s.given

/-- No two rows of a room share a serial. -/
def Unique (s : Numbered) : Prop :=
  ∀ room x y, s.streams.Has room x → s.streams.Has room y → x.msgSerial = y.msgSerial → x = y

/-- A call that reports success has given a row a serial above all that have been given in its
    room, and any other has changed neither rows nor counter. -/
def Grows (s : Numbered) (w : WriteCall) : Prop :=
  (∀ n, s.answer w = .changed n →
    (∀ k, (w.room, k) ∈ s.given → k < n) ∧
      ∃ x, (s.step w).streams.Has w.room x ∧ x.msgSerial = n) ∧
  ((∀ n, s.answer w ≠ .changed n) → (s.step w).streams = s.streams)

/-- The condition on a call. -/
def Aimed (s : Numbered) (w : WriteCall) : Prop := s.streams.aimed w.room w.mutation = true

instance (s : Numbered) (w : WriteCall) : Decidable (s.Aimed w) :=
  inferInstanceAs (Decidable (_ = true))

/-- Ids are apart and serials unique, and every serial is below the counter of its room, those
    included that no row has any more. -/
structure Ordered (s : Numbered) : Prop where
  distinct : s.streams.Distinct
  below : s.streams.Below
  serials : ∀ room st, s.streams.stream room = some st → Table.Keyed Message.msgSerial st.rows
  given : ∀ room st n, s.streams.stream room = some st → (room, n) ∈ s.given → n < st.nextSerial

variable {s : Numbered} {w : WriteCall}

theorem step_failed (h : ∀ n, s.answer w ≠ .changed n) : (s.step w).given = s.given := by
  unfold step
  cases ha : s.answer w with
  | changed n => exact absurd ha (h n)
  | unchanged => rfl
  | failed => rfl

theorem ordered_step (h : s.Ordered) (hw : s.Aimed w) : (s.step w).Ordered := by
  rcases Streams.write_eq_transact h.distinct hw with ⟨hsame, hno⟩ | ⟨n, st, htx, hn, hst, hnext, -⟩
  · -- Nothing has happened.
    have hstreams : (s.step w).streams = s.streams := hsame
    have hgiven := step_failed hno
    exact ⟨hstreams ▸ h.distinct, hstreams ▸ h.below, hstreams ▸ h.serials, fun room st n hst hm =>
      h.given room st n (hstreams ▸ hst) (hgiven ▸ hm)⟩
  · have hgiven : (s.step w).given = (w.room, n) :: s.given := by
      have hanswer : s.answer w = .changed n := hn
      rw [step, hanswer]
    rcases Streams.transact_eq_some htx with
      ⟨-, k, old, new, hold, -, hk, hnew, hstep, -, hafter⟩
    have hst' := hafter w.room
    rw [if_pos rfl, hst] at hst'
    cases hst'
    have hserial : k = n := by omega
    subst hserial
    refine ⟨Streams.distinct_transact h.distinct htx, Streams.below_transact h.distinct h.below htx,
      fun room stream hr => ?_, fun room stream m hr hm => ?_⟩
    · rw [step, hafter] at hr
      by_cases hroom : room = w.room
      · subst hroom
        rw [if_pos rfl] at hr
        cases hr
        exact Stream.keyed_serial_rowsStep (h.distinct.keyed _ old hold) (h.serials _ old hold)
          (fun x hx => Nat.lt_of_lt_of_le (h.below _ old hold x hx) hk) hstep
      · rw [if_neg hroom] at hr
        exact h.serials room stream hr
    · rw [hgiven] at hm
      rw [step, hafter] at hr
      by_cases hroom : room = w.room
      · subst hroom
        rw [if_pos rfl] at hr
        cases hr
        rcases List.mem_cons.1 hm with hm | hm
        · cases hm
          omega
        · have hlt := h.given _ old m hold hm
          omega
      · rw [if_neg hroom] at hr
        rcases List.mem_cons.1 hm with hm | hm
        · cases hm
          exact absurd rfl hroom
        · exact h.given room stream m hr hm

theorem grows_step (h : s.Ordered) (hw : s.Aimed w) : s.Grows w := by
  rcases Streams.write_eq_transact h.distinct hw with
    ⟨hsame, hno⟩ | ⟨n, st, htx, hn, hst, hnext, x, hx, hserial⟩
  · exact ⟨fun n ha => absurd ha (hno n), fun _ => hsame⟩
  · have hanswer : s.answer w = .changed n := hn
    refine ⟨fun n' ha => ?_, fun hno => absurd hn (hno n)⟩
    cases hanswer.symm.trans ha
    refine ⟨fun k hk => ?_, x, ⟨st, hst, hx⟩, hserial⟩
    rcases Streams.transact_eq_some htx with ⟨-, m, old, new, hold, -, hm, hnew, -, -, hafter⟩
    have hst' := hafter w.room
    rw [if_pos rfl, hst] at hst'
    cases hst'
    have hlt := h.given _ old k hold hk
    omega

theorem unique_of_ordered (h : s.Ordered) : s.Unique := by
  rintro room x y ⟨st, hst, hx⟩ ⟨st', hst', hy⟩ he
  cases hst.symm.trans hst'
  have hfind := Table.lookup_of_mem (h.serials room st hst) hx
  rw [he, Table.lookup_of_mem (h.serials room st hst) hy] at hfind
  exact (Option.some.inj hfind).symm

/-- In every run of aimed calls every serial that is given is above all that were given in
    its room before, no two rows of a room share one, and a call that fails or changes nothing
    leaves rows and counters as they were. -/
theorem serial_order (h : s.Ordered) (ws : List WriteCall) (hws : Run.Along step Aimed s ws) :
    Run.Throughout step Unique s ws ∧ Run.Along step Grows s ws :=
  ⟨Run.throughout_mono (fun _ => unique_of_ordered) s ws
      (Run.throughout_of_along (fun _ _ => ordered_step) s ws h hws),
    Run.along_of_inv (fun _ _ => ordered_step) (fun _ _ => grows_step) s ws h hws⟩

-- Rooms that have just been opened are in order.
theorem ordered_rooms (rooms : List RoomId) :
    Ordered ⟨rooms.foldl Streams.createRoom [], []⟩ := by
  have hnil : Ordered ⟨[], []⟩ := by
    refine ⟨Streams.distinct_nil, Streams.below_nil, fun room st hst => ?_, fun _ _ _ hst => ?_⟩
    · cases hst
    · cases hst
  suffices hkeep : ∀ ss : Streams, Ordered ⟨ss, []⟩ →
      Ordered ⟨rooms.foldl Streams.createRoom ss, []⟩ from hkeep [] hnil
  induction rooms with
  | nil => exact fun _ h => h
  | cons room rooms ih =>
      intro ss h
      refine ih _ ⟨Streams.distinct_createRoom h.distinct, Streams.below_createRoom h.below,
        fun r st hr => ?_, fun _ _ _ _ hm => by cases hm⟩
      rw [Streams.stream_createRoom] at hr
      by_cases hroom : r = room
      · subst hroom
        rw [if_pos rfl] at hr
        cases hold : ss.stream r with
        | none =>
            rw [hold] at hr
            cases hr
            exact Table.keyed_nil
        | some old =>
            rw [hold] at hr
            cases hr
            exact h.serials r st hold
      · rw [if_neg hroom] at hr
        exact h.serials r st hr

end Numbered

namespace Sample

/-- One room that has just been opened. -/
def openedRoom : Numbered := ⟨[team].foldl Streams.createRoom [], []⟩

def orderedWrites : List WriteCall :=
  [⟨team, .createMessage 5 ⟨⟨"msg_1"⟩, alice, "hello", "", false, none, none, 1, 1, none⟩⟩,
    ⟨team, .softDeleteMessage 3 ⟨"msg_1"⟩⟩]

/-- A message and its deletion, with a clock that goes back. -/
theorem serial_order_deleted :
    Run.Throughout Numbered.step Numbered.Unique openedRoom orderedWrites ∧
      Run.Along Numbered.step Numbered.Grows openedRoom orderedWrites :=
  Numbered.serial_order (Numbered.ordered_rooms [team]) orderedWrites (by decide +kernel)

/-- A deletion that finds nothing reports so and leaves another counter behind. -/
theorem serial_in_vain :
    let w : WriteCall := ⟨team, .softDeleteMessage 5 ⟨"msg_1"⟩⟩
    openedRoom.answer w = .unchanged ∧ (openedRoom.step w).streams ≠ openedRoom.streams := by
  decide +kernel

end Sample

end PocketSkynet
