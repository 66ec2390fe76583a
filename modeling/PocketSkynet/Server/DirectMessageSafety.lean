import PocketSkynet.Server.DirectMessages

/-!
# The Identity of a Direct Message

Calls that open direct messages at the same time, statement by statement. One of them at
most has the transaction, and it sees what is committed and after it the room it is making;
so the room gets all its people before anybody else can see it. A call that the index
refuses has seen that there is a room with its key, and nothing takes one away.

A call comes to its end: whoever has the transaction waits for nobody, and without one
nobody waits.

## Main definitions

* `Opening.Stands`: What is so when a call has got to where it stands.
* `Fresh`: A call comes with an id of its own.
* `Identified`: What the calls and the rooms agree on.

## Theorems

* `inv_step`: Every call stands where it can go on, and one at most writes.
* `finish`: Calls that are given turns all come to an end.
* `direct_message_identity`: One room for the same people, and no other people in it.
-/

namespace PocketSkynet

namespace Direct

/-! ### What a statement does -/

namespace RoomTable

variable {t : RoomTable} {rows : List RoomRow} {r : RoomRow}

-- The last row has an id of its own.
theorem id_ne_of_last (hrows : t.rows = rows ++ [r]) : ∀ q ∈ rows, q.id ≠ r.id := by
  intro q hq heq
  have hids := t.ids
  rw [hrows, List.map_append, List.map_singleton, List.nodup_append'] at hids
  exact hids.2.2 (List.mem_map_of_mem hq) (heq ▸ List.mem_singleton_self _)

theorem getRoom_last (hrows : t.rows = rows ++ [r]) : t.getRoom r.id = some r := by
  have hnone : rows.find? (fun q => q.id = r.id) = none := by
    rw [List.find?_eq_none]
    intro q hq
    simpa using id_ne_of_last hrows q hq
  rw [getRoom, hrows, List.find?_append, hnone]
  simp

theorem rows_seat_last (hrows : t.rows = rows ++ [r]) (seats : Seats) :
    (t.seat r.id seats).rows = rows ++ [{ r with seats := seats }] := by
  have hrest : rows.map (put r.id seats) = rows := by
    refine (List.map_congr_left fun q hq => ?_).trans (List.map_id rows)
    rw [put, if_neg (id_ne_of_last hrows q hq), id]
  change t.rows.map (put r.id seats) = _
  rw [hrows, List.map_append, List.map_singleton, hrest, put, if_pos rfl]

/-- A row that depends on the last room goes in, if it is not there yet. -/
theorem insertSeat_last (hrows : t.rows = rows ++ [r]) {sit : Seats → Option Seats}
    {seats : Seats} (hsit : sit r.seats = some seats) :
    ∃ t', t.insertSeat r.id sit = .ok t' ∧ t'.rows = rows ++ [{ r with seats := seats }] := by
  refine ⟨t.seat r.id seats, ?_, rows_seat_last hrows seats⟩
  simp only [insertSeat, getRoom_last hrows, hsit]

theorem insertMember_last (hrows : t.rows = rows ++ [r]) {who : String}
    (hwho : who ∉ r.seats.members) :
    ∃ t', t.insertMember r.id who = .ok t' ∧ t'.rows =
      rows ++ [{ r with seats := { r.seats with members := r.seats.members ++ [who] } }] :=
  insertSeat_last hrows (if_neg hwho)

theorem insertAdmin_last (hrows : t.rows = rows ++ [r]) {who : String}
    (hwho : who ∉ r.seats.admins) :
    ∃ t', t.insertAdmin r.id who = .ok t' ∧ t'.rows =
      rows ++ [{ r with seats := { r.seats with admins := r.seats.admins ++ [who] } }] :=
  insertSeat_last hrows (if_neg hwho)

theorem insertSerial_last (hrows : t.rows = rows ++ [r]) (now : Nat)
    (hserial : r.seats.nextSerial = none) :
    ∃ t', t.insertSerial r.id now = .ok t' ∧ t'.rows =
      rows ++ [{ r with seats := { r.seats with nextSerial := some now } }] :=
  insertSeat_last hrows (if_neg (by simp [hserial]))

/-- The index refuses a room whose key there is. -/
theorem insertRoom_taken {columns : RoomColumns} {key : String}
    (hid : columns.id ∉ t.rows.map RoomRow.id) (hkey : key ∈ t.rows.filterMap RoomRow.dmKey) :
    t.insertRoom columns key = .ok none := by
  rw [insertRoom, dif_neg hid, dif_pos hkey]

theorem insertRoom_new {columns : RoomColumns} {key : String}
    (hid : columns.id ∉ t.rows.map RoomRow.id) (hkey : key ∉ t.rows.filterMap RoomRow.dmKey) :
    ∃ t', t.insertRoom columns key = .ok (some t') ∧ t'.rows = t.rows ++ [.fresh columns key] := by
  rw [insertRoom, dif_neg hid, dif_neg hkey]
  exact ⟨_, rfl, rfl⟩

/-- The rooms have different ids. -/
theorem eq_of_id {q q' : RoomRow} (hq : q ∈ t.rows) (hq' : q' ∈ t.rows) (h : q.id = q'.id) :
    q = q' := List.inj_on_of_nodup_map t.ids hq hq' h

/-- The direct messages have different keys. -/
theorem eq_of_dmKey {q q' : RoomRow} {key : String} (hq : q ∈ t.rows) (hq' : q' ∈ t.rows)
    (h : q.dmKey = some key) (h' : q'.dmKey = some key) : q = q' := by
  by_contra hne
  have hkeys := List.pairwise_filterMap.1 t.keys
  have hsymm : Std.Symm fun a b : RoomRow =>
      ∀ x, a.dmKey = some x → ∀ y, b.dmKey = some y → x ≠ y :=
    ⟨fun a b hab x hx y hy => (hab y hy x hx).symm⟩
  exact hkeys.forall hq hq' hne key h key h' rfl

theorem findDm_of_mem {key : String} (hkey : key ∈ t.rows.filterMap RoomRow.dmKey) :
    ∃ q ∈ t.rows, q.dmKey = some key ∧ t.findDm key = some q.columns := by
  rcases List.mem_filterMap.1 hkey with ⟨q, hq, hqkey⟩
  rcases hfound : t.rows.find? (fun q => q.dmKey = some key) with _ | q'
  · have hnone := List.find?_eq_none.1 hfound q hq
    simp [hqkey] at hnone
  · refine ⟨q', List.mem_of_find?_eq_some hfound, by simpa using List.find?_some hfound, ?_⟩
    rw [findDm, hfound, Option.map_some]

theorem mem_of_findDm {key : String} {room : RoomColumns} (h : t.findDm key = some room) :
    ∃ q ∈ t.rows, q.dmKey = some key ∧ room = q.columns := by
  rcases Option.map_eq_some_iff.1 h with ⟨q, hq, rfl⟩
  exact ⟨q, List.mem_of_find?_eq_some hq, by simpa using List.find?_some hq, rfl⟩

end RoomTable

/-! ### Where the calls stand -/

namespace Opening

/-- The room that a call is making, as far as it has got. -/
def row (c : Opening) (now : Nat) (seats : Seats) : RoomRow := ⟨c.columns now, some c.key, seats⟩

/-- Everybody is seated. -/
def full (c : Opening) (now : Nat) : Seats :=
  ⟨dedupSorted c.texts, dedupSorted c.texts, some now⟩

/-- The transaction sees what is committed, and after it the room of the call. -/
def Drafts (c : Opening) (s : Database) (now : Nat) (seats : Seats) : Prop :=
  ∃ view, s.tx = some view ∧ view.rows = s.rooms.rows ++ [c.row now seats]

/-- What is so when a call has got to where it stands. -/
def Stands (s : Database) (c : Opening) : Prop :=
  match c.stage with
  | .finding | .inserting => c.id ∉ s.rooms.rows.map RoomRow.id
  | .seating now left =>
      ∃ seated, dedupSorted c.texts = seated ++ left ∧ c.Drafts s now ⟨seated, seated, none⟩
  | .appointing now member left => ∃ seated, dedupSorted c.texts = seated ++ member :: left ∧
      c.Drafts s now ⟨seated ++ [member], seated, none⟩
  | .selecting => ∃ now, c.Drafts s now (c.full now)
  | .committing room => ∃ now, room = c.columns now ∧ c.Drafts s now (c.full now)
  | .rollingBack => s.tx.isSome ∧ c.key ∈ s.rooms.rows.filterMap RoomRow.dmKey
  | .refinding => c.key ∈ s.rooms.rows.filterMap RoomRow.dmKey
  | .ended answer => ∃ r ∈ s.rooms.rows, r.dmKey = some c.key ∧ answer = .ok r.columns

variable {now : Nat} {s : Database} {c d : Opening}

-- Who is in a transaction, has one.
theorem Stands.tx_isSome (h : c.Stands s) (hwrites : c.writes = true) : s.tx.isSome := by
  rcases c with ⟨call, stage⟩
  cases stage with
  | seating now left =>
      rcases h with ⟨-, -, view, htx, -⟩
      simp [htx]
  | appointing now member left =>
      rcases h with ⟨-, -, view, htx, -⟩
      simp [htx]
  | selecting =>
      rcases h with ⟨-, view, htx, -⟩
      simp [htx]
  | committing room =>
      rcases h with ⟨-, -, view, htx, -⟩
      simp [htx]
  | rollingBack => exact h.1
  | _ => cases hwrites

/-- A statement of the transaction that goes well. -/
theorem executes_of_drafts {seats seats' : Seats} (stage : Stage)
    {statement : RoomTable → Except ApiError RoomTable} (h : c.Drafts s now seats)
    (hgood : ∀ view, view.rows = s.rooms.rows ++ [c.row now seats] →
      ∃ view', statement view = .ok view' ∧ view'.rows = s.rooms.rows ++ [c.row now seats']) :
    ∃ s', c.executes s statement stage = (s', c.reaches stage) ∧ s'.rooms = s.rooms ∧
      c.Drafts s' now seats' := by
  rcases h with ⟨view, htx, hrows⟩
  rcases hgood view hrows with ⟨view', hstatement, hrows'⟩
  refine ⟨{ s with tx := some view' }, ?_, rfl, view', rfl, hrows'⟩
  simp only [executes, htx, Option.getD_some, hstatement]

-- Nobody is seated twice.
theorem notMem_seated {seated left : List String} {member : String}
    (hpeople : dedupSorted c.texts = seated ++ member :: left) : member ∉ seated := by
  have hnodup := nodup_dedupSorted c.texts
  rw [hpeople, List.nodup_append'] at hnodup
  exact fun h => hnodup.2.2 h List.mem_cons_self

/-- The next person goes in as a member, or the counter is set up when everybody is seated. -/
theorem stands_seating {began : Nat} {left : List String}
    (hstage : c.stage = .seating began left) (h : c.Stands s) :
    (advance now s c).1.rooms = s.rooms ∧ (advance now s c).2.Stands (advance now s c).1 := by
  simp only [Stands, hstage] at h
  rcases h with ⟨seated, hpeople, hdraft⟩
  cases left with
  | nil =>
      rw [List.append_nil] at hpeople
      rcases executes_of_drafts .selecting hdraft fun view hrows =>
        RoomTable.insertSerial_last hrows began rfl with ⟨s', hstep, hrooms, hdraft'⟩
      have hadvance : advance now s c = (s', c.reaches .selecting) := by
        rw [← hstep]
        simp only [advance, hstage]
        rfl
      rw [hadvance]
      refine ⟨hrooms, began, ?_⟩
      rw [← hpeople] at hdraft'
      exact hdraft'
  | cons member left =>
      rcases executes_of_drafts (.appointing began member left) hdraft fun view hrows =>
        RoomTable.insertMember_last hrows (notMem_seated hpeople) with ⟨s', hstep, hrooms, hdraft'⟩
      have hadvance : advance now s c = (s', c.reaches (.appointing began member left)) := by
        rw [← hstep]
        simp only [advance, hstage]
        rfl
      rw [hadvance]
      exact ⟨hrooms, seated, hpeople, hdraft'⟩

/-- The person goes in as an admin as well. -/
theorem stands_appointing {began : Nat} {member : String} {left : List String}
    (hstage : c.stage = .appointing began member left) (h : c.Stands s) :
    (advance now s c).1.rooms = s.rooms ∧ (advance now s c).2.Stands (advance now s c).1 := by
  simp only [Stands, hstage] at h
  rcases h with ⟨seated, hpeople, hdraft⟩
  rcases executes_of_drafts (.seating began left) hdraft fun view hrows =>
    RoomTable.insertAdmin_last hrows (notMem_seated hpeople) with ⟨s', hstep, hrooms, hdraft'⟩
  have hadvance : advance now s c = (s', c.reaches (.seating began left)) := by
    rw [← hstep]
    simp only [advance, hstage]
    rfl
  rw [hadvance]
  refine ⟨hrooms, seated ++ [member], ?_, hdraft'⟩
  rw [List.append_assoc, List.singleton_append]
  exact hpeople

/-- A call that has taken its next statement stands where that leads to. -/
theorem stands_advance (h : c.Stands s) :
    (advance now s c).2.Stands (advance now s c).1 := by
  cases hstage : c.stage with
  | finding =>
      simp only [Stands, hstage] at h
      cases hfound : s.rooms.findDm c.key with
      | none =>
          simp only [advance, hstage, hfound]
          exact h
      | some existing =>
          simp only [advance, hstage, hfound]
          exact RoomTable.mem_of_findDm hfound |>.imp fun r hr => ⟨hr.1, hr.2.1, by rw [hr.2.2]⟩
  | inserting =>
      cases htx : s.tx with
      | some view =>
          simp only [advance, hstage, htx]
          exact h
      | none =>
          simp only [Stands, hstage] at h
          by_cases hkey : c.key ∈ s.rooms.rows.filterMap RoomRow.dmKey
          · have hinsert : s.rooms.insertRoom (c.columns now) c.key = .ok none :=
              RoomTable.insertRoom_taken h hkey
            simp only [advance, hstage, htx, hinsert]
            exact ⟨rfl, hkey⟩
          · have hnew : ∃ view, s.rooms.insertRoom (c.columns now) c.key = .ok (some view) ∧
                view.rows = s.rooms.rows ++ [c.row now .empty] :=
              RoomTable.insertRoom_new h hkey
            rcases hnew with ⟨view, hinsert, hrows⟩
            simp only [advance, hstage, htx, hinsert]
            exact ⟨[], rfl, view, rfl, hrows⟩
  | seating began left => exact (stands_seating hstage h).2
  | appointing began member left => exact (stands_appointing hstage h).2
  | selecting =>
      simp only [Stands, hstage] at h
      rcases h with ⟨began, view, htx, hrows⟩
      have hroom : view.getRoom c.id = some (c.row began (c.full began)) :=
        RoomTable.getRoom_last hrows
      simp only [advance, hstage, htx, Option.getD_some, hroom]
      exact ⟨began, rfl, view, htx, hrows⟩
  | committing room =>
      simp only [Stands, hstage] at h
      rcases h with ⟨began, rfl, view, htx, hrows⟩
      simp only [advance, hstage, htx, Option.getD_some]
      refine ⟨c.row began (c.full began), ?_, rfl, rfl⟩
      rw [hrows]
      exact List.mem_append_right _ (List.mem_singleton_self _)
  | rollingBack =>
      simp only [Stands, hstage] at h
      simp only [advance, hstage]
      exact h.2
  | refinding =>
      simp only [Stands, hstage] at h
      rcases RoomTable.findDm_of_mem h with ⟨r, hr, hkey, hfound⟩
      simp only [advance, hstage, hfound]
      exact ⟨r, hr, hkey, rfl⟩
  | ended answer =>
      simp only [advance, hstage]
      exact h

/-- What is committed stays, but for the room of a call that commits it. -/
theorem rooms_advance (now : Nat) (h : c.Stands s) :
    (advance now s c).1.rooms = s.rooms ∨ c.writes = true ∧
      ∃ began, (advance now s c).1.rooms.rows = s.rooms.rows ++ [c.row began (c.full began)] := by
  cases hstage : c.stage with
  | finding =>
      left
      simp only [advance, hstage]
      split <;> rfl
  | inserting =>
      left
      simp only [advance, hstage]
      split
      · rfl
      · split <;> rfl
  | seating began left => exact Or.inl (stands_seating hstage h).1
  | appointing began member left => exact Or.inl (stands_appointing hstage h).1
  | selecting =>
      left
      simp only [advance, hstage]
      split <;> rfl
  | committing room =>
      right
      simp only [Stands, hstage] at h
      rcases h with ⟨began, -, view, htx, hrows⟩
      refine ⟨by simp only [writes, hstage], began, ?_⟩
      simp only [advance, hstage, htx, Option.getD_some]
      exact hrows
  | rollingBack =>
      left
      simp only [advance, hstage]
  | refinding =>
      left
      simp only [advance, hstage]
      split <;> rfl
  | ended answer =>
      left
      simp only [advance, hstage]

theorem executes_call (c : Opening) (s : Database)
    (statement : RoomTable → Except ApiError RoomTable) (stage : Stage) :
    (c.executes s statement stage).2.toOpenCall = c.toOpenCall := by
  unfold executes
  split <;> rfl

/-- A call stays the call it is. -/
theorem advance_call (now : Nat) (s : Database) (c : Opening) :
    (advance now s c).2.toOpenCall = c.toOpenCall := by
  unfold advance
  split
  · split <;> rfl
  · split
    · rfl
    · split <;> rfl
  · exact executes_call c s _ _
  · exact executes_call c s _ _
  · exact executes_call c s _ _
  · split <;> rfl
  · rfl
  · rfl
  · split <;> rfl
  · rfl

/-- A call that does not write goes on without a change, or with a transaction that nobody
    has. -/
theorem advance_of_not_writes (now : Nat) (s : Database) (h : c.writes = false) :
    ((advance now s c).1 = s ∧ (advance now s c).2.writes = false) ∨
      s.tx = none ∧ (advance now s c).2.writes = true := by
  cases hstage : c.stage with
  | finding =>
      left
      simp only [advance, hstage]
      split <;> exact ⟨rfl, rfl⟩
  | inserting =>
      cases htx : s.tx with
      | some view =>
          left
          simp only [advance, hstage, htx]
          exact ⟨trivial, h⟩
      | none =>
          simp only [advance, hstage, htx]
          split
          · exact Or.inl ⟨rfl, rfl⟩
          · exact Or.inr ⟨trivial, rfl⟩
          · exact Or.inr ⟨trivial, rfl⟩
  | refinding =>
      left
      simp only [advance, hstage]
      split <;> exact ⟨rfl, rfl⟩
  | ended answer =>
      left
      simp only [advance, hstage]
      exact ⟨trivial, h⟩
  | _ =>
      simp only [writes, hstage] at h
      cases h

/-- Who leaves the transaction, ends it. -/
theorem tx_of_ended (h : c.writes = true) (hended : (advance now s c).2.writes = false) :
    (advance now s c).1.tx = none := by
  cases hstage : c.stage with
  | seating began left =>
      cases left with
      | nil =>
          simp only [advance, hstage, executes] at hended ⊢
          split at hended
          · cases hended
          · rfl
      | cons member left =>
          simp only [advance, hstage, executes] at hended ⊢
          split at hended
          · cases hended
          · rfl
  | appointing began member left =>
      simp only [advance, hstage, executes] at hended ⊢
      split at hended
      · cases hended
      · rfl
  | selecting =>
      simp only [advance, hstage] at hended ⊢
      split at hended
      · cases hended
      · rfl
  | committing room => simp only [advance, hstage]
  | rollingBack => simp only [advance, hstage]
  | _ =>
      simp only [writes, hstage] at h
      cases h

/-! ### Other calls -/

/-- Two calls have ids of their own, and one of them at most writes. -/
def Apart (c d : Opening) : Prop := c.id ≠ d.id ∧ ¬ (c.writes = true ∧ d.writes = true)

theorem apart_symm (c d : Opening) (h : c.Apart d) : d.Apart c :=
  ⟨h.1.symm, fun hboth => h.2 hboth.symm⟩

-- A call that is not in a transaction depends on what is committed alone.
theorem stands_of_rooms {s' : Database} (h : d.Stands s) (hwrites : d.writes = false)
    (hrooms : s'.rooms = s.rooms) : d.Stands s' := by
  cases hstage : d.stage with
  | finding | inserting | refinding | ended =>
      simp only [Stands, hstage] at h ⊢
      rwa [hrooms]
  | _ =>
      simp only [writes, hstage] at hwrites
      cases hwrites

-- Another room that is committed has another id, and takes no key away.
theorem stands_of_committed {s' : Database} {r : RoomRow} (h : d.Stands s)
    (hwrites : d.writes = false) (hrows : s'.rooms.rows = s.rooms.rows ++ [r])
    (hid : r.id ≠ d.id) : d.Stands s' := by
  cases hstage : d.stage with
  | finding | inserting =>
      simp only [Stands, hstage] at h ⊢
      rw [hrows, List.map_append, List.mem_append, List.map_singleton, List.mem_singleton]
      rintro (hmem | heq)
      · exact h hmem
      · exact hid heq.symm
  | refinding =>
      simp only [Stands, hstage] at h ⊢
      rw [hrows, List.filterMap_append]
      exact List.mem_append_left _ h
  | ended answer =>
      simp only [Stands, hstage] at h ⊢
      rcases h with ⟨q, hq, hkey, hanswer⟩
      refine ⟨q, ?_, hkey, hanswer⟩
      rw [hrows]
      exact List.mem_append_left _ hq
  | _ =>
      simp only [writes, hstage] at hwrites
      cases hwrites

/-- A call that moves leaves the others where they stand. -/
theorem stands_other (h : c.Stands s) (hd : d.Stands s) (hapart : c.Apart d) :
    d.Stands (advance now s c).1 := by
  by_cases hdwrites : d.writes = true
  · -- The other one has the transaction, so this one can do nothing.
    have hcwrites : c.writes = false := by
      by_contra hne
      exact hapart.2 ⟨by simpa using hne, hdwrites⟩
    rcases advance_of_not_writes now s hcwrites with hsame | hfree
    · rwa [hsame.1]
    · have htx := hd.tx_isSome hdwrites
      rw [hfree.1] at htx
      cases htx
  · rw [Bool.not_eq_true] at hdwrites
    rcases rooms_advance now h with hrooms | ⟨-, began, hrows⟩
    · exact stands_of_rooms hd hdwrites hrooms
    · exact stands_of_committed hd hdwrites hrows hapart.1

theorem apart_advance (hd : d.Stands s) (hapart : c.Apart d) :
    (advance now s c).2.Apart d := by
  refine ⟨?_, ?_⟩
  · have hid : (advance now s c).2.id = c.id := congrArg OpenCall.id (advance_call now s c)
    rw [hid]
    exact hapart.1
  · rintro ⟨hmoved, hdwrites⟩
    by_cases hcwrites : c.writes = true
    · exact hapart.2 ⟨hcwrites, hdwrites⟩
    · rw [Bool.not_eq_true] at hcwrites
      rcases advance_of_not_writes now s hcwrites with hsame | hfree
      · rw [hsame.2] at hmoved
        cases hmoved
      · have htx := hd.tx_isSome hdwrites
        rw [hfree.1] at htx
        cases htx

/-! ### The end of a call -/

/-- An upper bound on the statements that are left. -/
def left (c : Opening) : Nat :=
  match c.stage with
  | .finding => 2 * (dedupSorted c.texts).length + 6
  | .inserting => 2 * (dedupSorted c.texts).length + 5
  | .seating _ left => 2 * left.length + 3
  | .appointing _ _ left => 2 * left.length + 4
  | .selecting => 2
  | .committing _ => 1
  | .rollingBack => 2
  | .refinding => 1
  | .ended _ => 0

theorem ended_of_left (h : c.left = 0) : ∃ answer, c.stage = .ended answer := by
  cases hstage : c.stage with
  | ended answer => exact ⟨answer, rfl⟩
  | _ =>
      simp only [left, hstage] at h
      omega

theorem left_of_writes (h : c.writes = true) : c.left ≠ 0 := by
  intro hleft
  rcases ended_of_left hleft with ⟨answer, hstage⟩
  simp only [writes, hstage] at h
  cases h

-- A statement of the transaction is one less, or the end.
theorem left_executes {statement : RoomTable → Except ApiError RoomTable} {stage : Stage}
    (h : (c.reaches stage).left < c.left) : (c.executes s statement stage).2.left < c.left := by
  unfold executes
  split
  · exact h
  · exact Nat.lt_of_le_of_lt (Nat.zero_le _) h

/-- A call that has to wait for nobody gets on. -/
theorem left_advance (now : Nat) (h : c.left ≠ 0) (hfree : c.writes = true ∨ s.tx = none) :
    (advance now s c).2.left < c.left := by
  cases hstage : c.stage with
  | finding =>
      have hleft : c.left = 2 * (dedupSorted c.texts).length + 6 := by simp only [left, hstage]
      rw [hleft]
      simp only [advance, hstage]
      split
      · exact Nat.succ_pos _
      · exact Nat.lt_succ_self _
  | inserting =>
      have hleft : c.left = 2 * (dedupSorted c.texts).length + 5 := by simp only [left, hstage]
      have htx : s.tx = none := hfree.resolve_left (by simp [writes, hstage])
      rw [hleft]
      simp only [advance, hstage, htx]
      split
      · exact Nat.succ_pos _
      · exact Nat.lt_of_lt_of_le (show 2 < 5 by decide) (Nat.le_add_left 5 _)
      · exact Nat.lt_of_lt_of_le (Nat.lt_succ_self _) (Nat.le_succ _)
  | seating began people =>
      cases people with
      | nil =>
          simp only [advance, hstage]
          refine left_executes ?_
          simp only [left, hstage, reaches, List.length_nil]
          omega
      | cons member people =>
          simp only [advance, hstage]
          refine left_executes ?_
          simp only [left, hstage, reaches, List.length_cons]
          omega
  | appointing began member people =>
      simp only [advance, hstage]
      refine left_executes ?_
      simp only [left, hstage, reaches]
      omega
  | selecting =>
      have hleft : c.left = 2 := by simp only [left, hstage]
      rw [hleft]
      simp only [advance, hstage]
      split
      · exact Nat.lt_succ_self 1
      · exact Nat.succ_pos 1
  | committing room =>
      have hleft : c.left = 1 := by simp only [left, hstage]
      rw [hleft]
      simp only [advance, hstage]
      exact Nat.succ_pos 0
  | rollingBack =>
      have hleft : c.left = 2 := by simp only [left, hstage]
      rw [hleft]
      simp only [advance, hstage]
      exact Nat.lt_succ_self 1
  | refinding =>
      have hleft : c.left = 1 := by simp only [left, hstage]
      rw [hleft]
      simp only [advance, hstage]
      split <;> exact Nat.succ_pos 0
  | ended answer => exact absurd (by simp only [left, hstage]) h

end Opening

end Direct

namespace Openings

open Direct

/-- A call comes with an id that no room and no other call has. -/
def Fresh (p : Openings) : Turn OpenCall Nat → Prop
  | .start call =>
      call.id ∉ p.shared.rooms.rows.map RoomRow.id ∧ ∀ c ∈ p.procs, c.id ≠ call.id
  | .tick _ _ => True

instance (p : Openings) : DecidablePred p.Fresh
  | .start call => inferInstanceAs (Decidable (call.id ∉ p.shared.rooms.rows.map RoomRow.id ∧
      ∀ c ∈ p.procs, c.id ≠ call.id))
  | .tick _ _ => inferInstanceAs (Decidable True)

/-- Every direct message is between the people its key is of. -/
def Sound (s : Database) : Prop :=
  ∀ r ∈ s.rooms.rows, ∀ key, r.dmKey = some key → ∃ members : List Participant, ∃ serial,
    key = dmKey (members.map Participant.str) ∧ r.seats =
      ⟨dedupSorted (members.map Participant.str), dedupSorted (members.map Participant.str), serial⟩

/-- The rooms are sound, every call stands where it can go on, and no two of them are in
    each other's way. -/
abbrev Inv (p : Openings) : Prop := p.Coheres Sound (fun s c => c.Stands s) Opening.Apart

/-- The step lemma. -/
theorem inv_step (p : Openings) (turn : Turn OpenCall Nat) (h : p.Inv) (hfresh : p.Fresh turn) :
    (p.step turn).Inv := by
  cases turn with
  | start call =>
      refine h.start hfresh.1 fun c hc => ⟨hfresh.2 c hc, fun hboth => ?_⟩
      cases hboth.2
  | tick i now =>
      rcases hc : p.procs[i]? with _ | c
      · rwa [step, Pool.step_tick_none hc]
      have hstands : c.Stands p.shared := h.each c (Pool.mem_of_getElem? hc)
      refine h.tick Opening.apart_symm hc ?_ (Opening.stands_advance hstands)
        fun d hd hapart => ⟨Opening.stands_other hstands (h.each d hd) hapart,
          Opening.apart_advance (h.each d hd) hapart⟩
      intro r hr key hkey
      rcases Opening.rooms_advance now hstands with hrooms | ⟨-, began, hrows⟩
      · rw [hrooms] at hr
        exact h.shared r hr key hkey
      · rw [hrows, List.mem_append, List.mem_singleton] at hr
        rcases hr with hr | rfl
        · exact h.shared r hr key hkey
        · cases hkey
          exact ⟨c.members, some began, rfl, rfl⟩

/-- A transaction is that of one of the calls. -/
def Owned (p : Openings) : Prop := p.shared.tx ≠ none → ∃ c ∈ p.procs, c.writes = true

theorem owned_step (p : Openings) (turn : Turn OpenCall Nat) (h : p.Owned) :
    (p.step turn).Owned := by
  cases turn with
  | start call =>
      intro htx
      rcases h htx with ⟨c, hc, hwrites⟩
      exact ⟨c, List.mem_append_left _ hc, hwrites⟩
  | tick i now =>
      rcases hc : p.procs[i]? with _ | c
      · rwa [step, Pool.step_tick_none hc]
      rw [step, Pool.step_tick hc]
      intro htx
      by_cases hmoved : (c.advance now p.shared).2.writes = true
      · exact ⟨_, List.mem_set (List.getElem?_eq_some_iff.1 hc).1 _, hmoved⟩
      · rw [Bool.not_eq_true] at hmoved
        by_cases hwrites : c.writes = true
        · exact absurd (Opening.tx_of_ended hwrites hmoved) htx
        · -- It has changed nothing, so the owner is another one.
          rw [Bool.not_eq_true] at hwrites
          rcases Opening.advance_of_not_writes now p.shared hwrites with hsame | hfree
          · rw [hsame.1] at htx
            refine Pool.exists_mem_set hc (fun hc' => ?_) (fun _ hd => hd) (h htx)
            rw [hwrites] at hc'
            cases hc'
          · rw [hfree.2] at hmoved
            cases hmoved

/-- The turns of some calls, each at a time. -/
def ticks (turns : List (Nat × Nat)) : List (Turn OpenCall Nat) :=
  turns.map fun turn => .tick turn.1 turn.2

/-- Calls that are given turns all come to an end. -/
theorem finish (p : Openings) (h : p.Owned) :
    ∃ turns, ∀ c ∈ (p.run (ticks turns)).procs, ∃ answer, c.stage = .ended answer := by
  -- By induction on the statements that are left for all of them.
  generalize hn : p.total Opening.left = n
  induction n using Nat.strong_induction_on generalizing p with
  | _ n ih =>
      by_cases hover : n = 0
      · refine ⟨[], fun c hc => Opening.ended_of_left ?_⟩
        rw [hover] at hn
        exact (Pool.total_eq_zero Opening.left).1 hn c hc
      · have hmoves : ∃ c ∈ p.procs, c.left ≠ 0 ∧ (c.writes = true ∨ p.shared.tx = none) := by
          by_cases htx : p.shared.tx = none
          · by_contra hnone
            push Not at hnone
            refine hover (hn.symm.trans ((Pool.total_eq_zero Opening.left).2 fun c hc => ?_))
            by_contra hleft
            exact (hnone c hc hleft).2 htx
          · rcases h htx with ⟨c, hc, hwrites⟩
            exact ⟨c, hc, Opening.left_of_writes hwrites, Or.inl hwrites⟩
        rcases hmoves with ⟨c, hmem, hleft, hfree⟩
        rcases List.getElem?_of_mem hmem with ⟨i, hc⟩
        have hlt := Opening.left_advance 0 hleft hfree
        have htotal : (p.step (.tick i 0)).total Opening.left + c.left =
            p.total Opening.left + (c.advance 0 p.shared).2.left :=
          Pool.total_tick Opening.left hc
        rcases ih _ (by omega) (p.step (.tick i 0)) (owned_step p _ h) rfl with ⟨turns, hturns⟩
        exact ⟨(i, 0) :: turns, hturns⟩

/-- What the calls and the rooms agree on. There is one room at most for the same people; a
    call that is over has been given the room of its people, which has them as its members
    and as its admins and nobody else; two calls have been given the same room if and only
    if they are about the same people; and every call can come to its end. -/
structure Identified (p : Openings) : Prop where
  single : ∀ r ∈ p.shared.rooms.rows, ∀ r' ∈ p.shared.rooms.rows, r.dmKey.isSome →
    r'.dmKey.isSome → ∀ people, Lists r.seats.members people → Lists r'.seats.members people →
      r = r'
  given : ∀ c ∈ p.procs, ∀ answer, c.stage = .ended answer →
    ∃ r ∈ p.shared.rooms.rows, r.dmKey.isSome ∧ answer = .ok r.columns ∧
      Lists r.seats.members (parties c.members) ∧ Lists r.seats.admins (parties c.members)
  same : ∀ c ∈ p.procs, ∀ d ∈ p.procs, ∀ x y, c.stage = .ended (.ok x) → d.stage = .ended (.ok y) →
    (x.id = y.id ↔ parties c.members = parties d.members)
  ends : ∃ turns, ∀ c ∈ (p.run (ticks turns)).procs, ∃ answer, c.stage = .ended answer

/-- What follows from where the calls stand. -/
theorem identified_of_inv {p : Openings} (h : p.Inv) (howned : p.Owned) : p.Identified := by
  have hgiven : ∀ c ∈ p.procs, ∀ answer, c.stage = .ended answer →
      ∃ r ∈ p.shared.rooms.rows, r.dmKey = some c.key ∧ answer = .ok r.columns := by
    intro c hc answer hstage
    have hstands : c.Stands p.shared := h.each c hc
    simpa only [Opening.Stands, hstage] using hstands
  -- A room with the key of some people has these people in it.
  have hseats : ∀ r ∈ p.shared.rooms.rows, ∀ members : List Participant,
      r.dmKey = some (dmKey (members.map Participant.str)) →
      Lists r.seats.members (parties members) ∧ Lists r.seats.admins (parties members) := by
    intro r hr members hkey
    rcases h.shared r hr _ hkey with ⟨members', serial, hkey', hseats⟩
    rw [hseats, dmKey_eq_iff.1 hkey']
    exact ⟨lists_dedupSorted members', lists_dedupSorted members'⟩
  refine ⟨?_, ?_, ?_, finish p howned⟩
  · intro r hr r' hr' hsome hsome' people hlists hlists'
    rcases Option.isSome_iff_exists.1 hsome with ⟨key, hkey⟩
    rcases Option.isSome_iff_exists.1 hsome' with ⟨key', hkey'⟩
    rcases h.shared r hr key hkey with ⟨members, -, rfl, -⟩
    rcases h.shared r' hr' key' hkey' with ⟨members', -, rfl, -⟩
    have hpeople : parties members = parties members' :=
      ((hseats r hr members hkey).1.unique hlists).trans
        ((hseats r' hr' members' hkey').1.unique hlists').symm
    rw [dmKey_eq_iff.2 hpeople] at hkey
    exact RoomTable.eq_of_dmKey hr hr' hkey hkey'
  · intro c hc answer hstage
    rcases hgiven c hc answer hstage with ⟨r, hr, hkey, hanswer⟩
    exact ⟨r, hr, by rw [hkey, Option.isSome_some], hanswer, hseats r hr c.members hkey⟩
  · intro c hc d hd x y hx hy
    rcases hgiven c hc _ hx with ⟨r, hr, hkey, hanswer⟩
    rcases hgiven d hd _ hy with ⟨r', hr', hkey', hanswer'⟩
    cases hanswer
    cases hanswer'
    constructor
    · intro hid
      have hsame : r = r' := RoomTable.eq_of_id hr hr' hid
      rw [hsame, hkey'] at hkey
      exact (dmKey_eq_iff.1 (Option.some.inj hkey)).symm
    · intro hpeople
      have hkeys : c.key = d.key := dmKey_eq_iff.2 hpeople
      rw [hkeys] at hkey
      rw [RoomTable.eq_of_dmKey hr hr' hkey hkey']

/-- **Direct messages are identified by their people.** On rooms of which none is a direct
    message yet, in any run of calls with ids of their own, statement by statement in any
    order, there is one room at most for the same people, whatever order, letter case and
    repetitions they were named in; every call that is over has been given the room of its
    people, with exactly them as its members and its admins; and calls about other people
    have been given other rooms. -/
theorem direct_message_identity (rooms : RoomTable) (turns : List (Turn OpenCall Nat))
    (hrooms : ∀ r ∈ rooms.rows, r.dmKey = none)
    (hfresh : Run.Along step Fresh (Pool.idle ⟨rooms, none⟩) turns) :
    (run (Pool.idle ⟨rooms, none⟩) turns).Identified := by
  have hstart : Inv (Pool.idle ⟨rooms, none⟩) := by
    refine Pool.coheres_idle fun r hr key hkey => ?_
    rw [hrooms r hr] at hkey
    cases hkey
  have howned : Owned (Pool.idle ⟨rooms, none⟩) := fun htx => absurd rfl htx
  exact identified_of_inv (Run.along_inv inv_step _ turns hstart hfresh)
    (Run.run_inv owned_step _ turns howned)

namespace Sample

/-- The same address in two letter cases, and another one. -/
def loud : Participant := ⟨"0xABCDEF0000000000000000000000000000000001", by decide⟩

def soft : Participant := ⟨"0xabcdef0000000000000000000000000000000001", by decide⟩

def other : Participant := ⟨"0x0000000000000000000000000000000000000b0b", by decide⟩

def noRooms : RoomTable := ⟨[], List.nodup_nil, List.nodup_nil⟩

/-- Both calls find nothing. One inserts while the other waits, and is given its room. -/
def race : List (Turn OpenCall Nat) :=
  .start ⟨⟨"room_1"⟩, [soft, other]⟩ :: .start ⟨⟨"room_2"⟩, [other, loud, soft]⟩ ::
    ticks ([(0, 1), (1, 2), (0, 3), (1, 4)] ++ List.replicate 7 (0, 5) ++
      List.replicate 3 (1, 6))

end Sample

theorem Sample.direct_message_identity_race :
    (run (Pool.idle ⟨Sample.noRooms, none⟩) Sample.race).Identified ∧
      ∃ room : RoomColumns, room.id = ⟨"room_1"⟩ ∧
        (run (Pool.idle ⟨Sample.noRooms, none⟩) Sample.race).procs.map Opening.stage =
          [.ended (.ok room), .ended (.ok room)] :=
  ⟨direct_message_identity Sample.noRooms Sample.race (fun _ hr => absurd hr List.not_mem_nil)
      (by decide +kernel),
    ⟨⟨"room_1"⟩, "Direct message", none, 1, false, .dm, 3⟩, rfl, by decide +kernel⟩

end Openings

end PocketSkynet
