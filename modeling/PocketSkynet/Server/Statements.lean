import PocketSkynet.Server.Requests
import PocketSkynet.Server.StreamOrder
import PocketSkynet.Server.Transitions

/-!
# What a Statement Does

What every request's next statement does to every room, and which requests are
on their way to store ciphertext. Both are read off the process alone, by one
case for each statement, so that nothing above has to look at the handlers
again.

Within an epoch nothing takes a room's flag down, and only a rotation moves the
epoch, forward. And there is one way to a store of ciphertext: through a gate
that found the room unflagged and in the epoch the request names.

## Main definitions

* `Room.Onward`: The epoch never goes back, and only a new one clears the flag.
* `Proc.seals`: The request stores ciphertext next.
* `Proc.gate`: The request reads a gate next.
* `Proc.stores`: The row the request stores next.

## Theorems

* `row_createMessage`, `row_updateMessage`: The row a committed write leaves.
* `seals_next`: Only the gate lets ciphertext through to a store.
* `seals_row`: The row that is stored is the one the gate was asked about.
-/

namespace PocketSkynet

/-! ### What a statement can do to a room -/

/-- The epoch does not go back, and within one epoch the flag stays up. -/
def Room.Onward (r r' : Room) : Prop :=
  r.currentKeyVersion < r'.currentKeyVersion ∨
    (r'.currentKeyVersion = r.currentKeyVersion ∧
      (r.keyRotationPending = true → r'.keyRotationPending = true))

namespace Room

theorem Onward.refl (r : Room) : r.Onward r := Or.inr ⟨rfl, fun h => h⟩

theorem onward_of_same {r r' : Room} (hv : r'.currentKeyVersion = r.currentKeyVersion)
    (hp : r'.keyRotationPending = r.keyRotationPending) : r.Onward r' :=
  Or.inr ⟨hv, fun h => hp.trans h⟩

theorem onward_rotate (r : Room) (version : Nat) (keys : List KeyWrap) :
    r.Onward (r.rotate version keys).2 := by
  rcases r.rotate_cases version keys with ⟨-, h⟩ | ⟨rfl, h⟩
  · rw [h]
    exact Onward.refl r
  · rw [h]
    exact Or.inl (Nat.lt_succ_self _)

end Room

namespace Shared

@[simp] theorem writeStream_server (s : Shared) (room : RoomId) (tx : Stream → Option Stream) :
    (s.writeStream room tx).server = s.server := by
  unfold writeStream
  split <;> rfl

@[simp] theorem updateRoom_server (s : Shared) (room : RoomId) (f : Room → Room) :
    (s.updateRoom room f).server = s.server.updateRoom room f := rfl

end Shared

theorem updateRoom_onward {s : Server} {room id : RoomId} {f : Room → Room} {r : Room}
    (hf : ∀ r, Room.Onward r (f r)) (hr : s.rooms id = some r) :
    ∃ r', (s.updateRoom room f).rooms id = some r' ∧ r.Onward r' := by
  rw [Server.rooms_updateRoom, hr]
  by_cases hid : id = room
  · exact ⟨f r, by rw [if_pos hid, Option.map_some], hf r⟩
  · exact ⟨r, if_neg hid, Room.Onward.refl r⟩

theorem Shared.stream_writeStream {s : Shared} {room : RoomId} {tx : Stream → Option Stream}
    {st : Stream} (h : s.transact room tx = some st) :
    (s.writeStream room tx).stream room = some st := by
  have hold : ∃ old, Table.lookup Prod.fst room s.streams = some (room, old) := by
    unfold transact stream at h
    cases hl : Table.lookup Prod.fst room s.streams with
    | none => simp [hl] at h
    | some p => exact ⟨p.2, by rw [← Table.key_of_lookup hl]⟩
  obtain ⟨old, hold⟩ := hold
  unfold writeStream
  rw [h]
  simp only [stream]
  rw [Table.lookup_modify _ _ (fun p => (p.1, st)) (fun _ => rfl), if_pos rfl, hold]
  rfl

/-- What a transaction on the stream of a room that commits has written. -/
theorem Shared.transact_eq_some {s : Shared} {room : RoomId} {tx : Stream → Option Stream}
    {st : Stream} (h : s.transact room tx = some st) :
    ∃ old, s.stream room = some old ∧ tx old = some st := Option.bind_eq_some_iff.1 h

theorem Stream.row_createMessage {s s' : Stream} {now : Nat} {new : NewMessage}
    (h : s.createMessage now new = some s') :
    ∃ n, s'.row? new.id = some (Stream.newRow new now n) := by
  obtain ⟨n, -, -, hrows⟩ := Stream.transact_cases (m := .createMessage now new) h
  generalize hr : s'.rows = rows' at hrows
  cases hrows with
  | created _ _ hfree =>
      refine ⟨n, ?_⟩
      rw [row?, hr, Table.lookup_append, hfree, Option.none_or]
      simp [newRow]

theorem Stream.row_updateMessage {s s' : Stream} {now : Nat} {id : MessageId} {e : MessageEdit}
    (h : s.updateMessage now id e = some s') :
    ∃ n m, m.id = id ∧ s'.row? id = some (Stream.editRow e now n m) := by
  obtain ⟨n, -, -, hrows⟩ := Stream.transact_cases (m := .updateMessage now id e) h
  generalize hr : s'.rows = rows' at hrows
  cases hrows with
  | edited _ _ _ m hm hlive =>
      refine ⟨n, m, Table.key_of_lookup hm, ?_⟩
      rw [row?, hr, Table.lookup_modify _ _ (editRow e now n) (fun _ => rfl), if_pos rfl, hm,
        Option.map_some]

namespace Proc

/-- Whatever a request does next, every room is still there and has moved onward. -/
theorem effect_onward (now : Nat) (s : Shared) (p : Proc) {id : RoomId} {r : Room}
    (hr : s.server.rooms id = some r) :
    ∃ r', (p.effect now s).server.rooms id = some r' ∧ r.Onward r' := by
  have hsame : ∃ r', s.server.rooms id = some r' ∧ r.Onward r' := ⟨r, hr, Room.Onward.refl r⟩
  cases p with
  | sendCreate room new => simpa only [effect, Shared.writeStream_server] using hsame
  | editUpdate room mid body => simpa only [effect, Shared.writeStream_server] using hsame
  | redeemConsume caller hash invite => simpa only [effect, Server.consume_rooms] using hsame
  | departAdmin d room a => exact updateRoom_onward (fun _ => Room.onward_of_same rfl rfl) hr
  | departKeys d room a => exact updateRoom_onward (fun _ => Room.onward_of_same rfl rfl) hr
  | departRow d room a => exact updateRoom_onward (fun _ => Room.onward_of_same rfl rfl) hr
  | departFlag d room => exact updateRoom_onward (fun _ => Or.inr ⟨rfl, fun _ => rfl⟩) hr
  | rotateCommit room version keys roster =>
      exact updateRoom_onward (fun r => r.onward_rotate version keys) hr
  | acceptGone a room => exact updateRoom_onward (fun _ => Room.onward_of_same rfl rfl) hr
  | acceptSeat a room =>
      exact updateRoom_onward (fun _ => Room.onward_of_same (by simp) (by simp)) hr
  | acceptDone a room => exact updateRoom_onward (fun _ => Room.onward_of_same rfl rfl) hr
  | redeemSeat a room =>
      exact updateRoom_onward (fun _ => Room.onward_of_same (by simp) (by simp)) hr
  | redeemFlag room => exact updateRoom_onward (fun _ => Or.inr ⟨rfl, fun _ => rfl⟩) hr
  | storeKey room wrap version =>
      exact updateRoom_onward (fun _ => Room.onward_of_same rfl rfl) hr
  | _ => exact hsame

/-! ### Ciphertext on its way -/

/-- The request has passed its gate and stores ciphertext next: the room it goes
    to and the epoch it is sealed under. -/
def seals : Proc → Option (RoomId × Nat)
  | sendCreate room new => if new.isEncrypted then some (room, new.keyVersion) else none
  | editUpdate room _ body => if body.encrypted then some (room, body.keyVersion) else none
  | _ => none

/-- The room whose gate the request reads next. -/
def gate : Proc → Option RoomId
  | sendEpoch room _ => some room
  | editEpoch room _ _ => some room
  | _ => none

/-- The row a request stores next, and in which room, if its transaction commits. -/
def stores (now : Nat) (s : Shared) : Proc → Option (RoomId × Message)
  | sendCreate room new =>
      ((s.transact room (·.createMessage now new)).bind (·.row? new.id)).map fun m => (room, m)
  | editUpdate room id body =>
      ((s.transact room (·.updateMessage now id body)).bind (·.row? id)).map fun m => (room, m)
  | _ => none

@[simp] theorem seals_refuse (e : ApiError) : (refuse e).seals = none := rfl

@[simp] theorem seals_answer (text : String) : (answer text).seals = none := rfl

theorem seals_check {c : Bool} {e : ApiError} {p : Proc} {x : RoomId × Nat}
    (h : (check c e p).seals = some x) : p.seals = some x := by
  unfold check at h
  split at h
  · exact h
  · cases h

theorem seals_after {α : Type} {y : Except ApiError α} {p : α → Proc} {x : RoomId × Nat}
    (h : (after y p).seals = some x) : ∃ a, (p a).seals = some x := by
  unfold after at h
  split at h
  · exact ⟨_, h⟩
  · cases h

/-- The gate lets a request through only in the epoch it names, unflagged. -/
theorem seals_checkEpoch {record : Option Room} {version : Nat} {p : Proc} {x : RoomId × Nat}
    (h : (checkEpoch record version p).seals = some x) : p.seals = some x ∧ ∃ r,
      record = some r ∧ r.keyRotationPending = false ∧ r.currentKeyVersion = version := by
  unfold checkEpoch at h
  split at h
  · cases h
  · split at h
    · cases h
    · rename_i r hpending
      split at h
      · cases h
      · rename_i hversion
        exact ⟨h, r, rfl, Bool.not_eq_true _ ▸ hpending, (not_not.1 hversion).symm⟩

/-- Only a gate read in the current epoch, unflagged, leads to a store of
    ciphertext: a plaintext send or edit skips the gate and stores plaintext. -/
theorem seals_next (now : Nat) (s : Shared) (p : Proc) {room : RoomId} {k : Nat}
    (h : (p.next now s).seals = some (room, k)) :
    p.gate = some room ∧ p.effect now s = s ∧ ∃ r, s.server.rooms room = some r ∧
      r.keyRotationPending = false ∧ r.currentKeyVersion = k := by
  cases p with
  | sendEpoch room' new =>
      obtain ⟨hs, r, hr, hpending, hversion⟩ := seals_checkEpoch h
      simp only [seals] at hs
      split at hs
      · cases hs
        exact ⟨rfl, rfl, r, hr, hpending, hversion⟩
      · cases hs
  | editEpoch room' id body =>
      obtain ⟨hs, r, hr, hpending, hversion⟩ := seals_checkEpoch h
      simp only [seals] at hs
      split at hs
      · cases hs
        exact ⟨rfl, rfl, r, hr, hpending, hversion⟩
      · cases hs
  | sendMember room' new =>
      -- Ciphertext goes to the gate, so what reaches the store is plaintext.
      have hs := seals_check h
      split at hs
      · cases hs
      · rename_i hplain
        simp [seals, hplain] at hs
  | editMember caller room' existing body =>
      have hs := seals_check (seals_check (seals_check h))
      split at hs
      · cases hs
      · rename_i hplain
        simp [seals, hplain] at hs
  | _ =>
      -- Nothing else goes on to a store of ciphertext.
      simp only [next, check, after, storeEligible] at h
      repeat' split at h
      all_goals cases h

/-- The row an encrypted store writes is ciphertext under the epoch the request
    named, and it is in the stream once the statement has run. -/
theorem seals_row {now : Nat} {s : Shared} {p : Proc} {room : RoomId} {m : Message}
    (h : p.stores now s = some (room, m)) (hm : m.isEncrypted = true) :
    p.seals = some (room, m.keyVersion) ∧
      ∃ st, (p.effect now s).stream room = some st ∧ st.row? m.id = some m := by
  cases p with
  | sendCreate room' new =>
      obtain ⟨x, hx, heq⟩ := Option.map_eq_some_iff.1 h
      obtain ⟨st, hst, hrow⟩ := Option.bind_eq_some_iff.1 hx
      obtain ⟨rfl, rfl⟩ := Prod.mk.inj heq
      obtain ⟨old, -, htx⟩ := Shared.transact_eq_some hst
      obtain ⟨n, hnew⟩ := Stream.row_createMessage htx
      cases Option.some.inj (hrow.symm.trans hnew)
      exact ⟨if_pos hm, st, Shared.stream_writeStream hst, hrow⟩
  | editUpdate room' id body =>
      obtain ⟨x, hx, heq⟩ := Option.map_eq_some_iff.1 h
      obtain ⟨st, hst, hrow⟩ := Option.bind_eq_some_iff.1 hx
      obtain ⟨rfl, rfl⟩ := Prod.mk.inj heq
      obtain ⟨old, -, htx⟩ := Shared.transact_eq_some hst
      obtain ⟨n, row, rfl, hedit⟩ := Stream.row_updateMessage htx
      cases Option.some.inj (hrow.symm.trans hedit)
      have henc : body.encrypted = true := hm
      refine ⟨?_, st, Shared.stream_writeStream hst, hrow⟩
      simp [seals, Stream.editRow, henc]
  | _ => cases h

end Proc

end PocketSkynet
