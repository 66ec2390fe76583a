import Mathlib.Data.Finset.Dedup
import Mathlib.Data.List.Pairwise
import Mathlib.Data.String.Basic
import PocketSkynet.Lib.Firsts
import PocketSkynet.Lib.Joined
import PocketSkynet.Server.Publishing
import PocketSkynet.Server.Room

/-!
# Direct Messages

A direct message is identified by who is in it. The people a caller names are brought into a
canonical order, in lower case and each once, and joined to a key, which has a unique index.
A call first looks for the key; if it finds none, it opens a transaction, inserts the room
unless the index refuses, seats the people one after the other as members and admins, and
commits. Who loses the race reads the room of the winner instead.

Every statement is a step of its own. There is one write transaction at a time, and what it
has written so far is seen by nobody else until it commits; a call that would write as well
waits for it. So two calls interleave at their lookups and at the wait, and that is where
both can have found nothing.

An address has no bar, so the key can be split again and tells the people. The letter case
in which they are stored is that of the call that has opened the room.

## Main definitions

* `dmKey`, `dedupSorted`: The key of some people, and the people as they are stored.
* `RoomTable`: The rooms, with the two unique indexes.
* `Opening.advance`: The next statement of a call.
* `parties`: The people as a set.
* `Openings`: The rooms with the calls on them.

## Theorems

* `lists_dedupSorted`: Everybody is stored, and nobody twice.
* `dmKey_eq_iff`: Two keys are the same if and only if the people are.
-/

namespace PocketSkynet

namespace Direct

/-! ### The key -/

/-- The people of a conversation in canonical order, in lower case and each once. -/
def dmKeys (members : List String) : List String := firsts (· ≤ ·) id (members.map lowercase)

/-- The identity of a direct message: its people, joined with bars. -/
def dmKey (members : List String) : String := "|".intercalate (dmKeys members)

/-- Who has not been seen yet, case aside. -/
def keepUnseen : List String → List String → List String
  | _, [] => []
  | seen, m :: ms =>
      if lowercase m ∈ seen then keepUnseen seen ms
      else m :: keepUnseen (lowercase m :: seen) ms

/-- The people as they are stored: each once and in order, in the case they came in. -/
def dedupSorted (members : List String) : List String :=
  (keepUnseen [] members).insertionSort (· ≤ ·)

/-- Two people make a direct message, and more of them a group message. -/
def kindOf (key : String) : RoomKind :=
  if (key.toList.splitOn '|').length ≤ 2 then .dm else .groupDm

/-- A name for a surface that forgets to derive one from the people. -/
def nameOf (kind : RoomKind) : String :=
  if kind = .dm then "Direct message" else "Group message"

/-! ### The rooms -/

/-- The columns of a room that are read. -/
structure RoomColumns where
  id : RoomId
  name : String
  description : Option String
  currentKeyVersion : Nat
  keyRotationPending : Bool
  kind : RoomKind
  createdAt : Nat
deriving DecidableEq, Repr

/-- The rows that depend on a room: who is in it, and its serial counter. -/
structure Seats where
  members : List String
  admins : List String
  nextSerial : Option Nat
deriving DecidableEq, Repr

/-- A room that nobody has been seated in. -/
def Seats.empty : Seats := ⟨[], [], none⟩

structure RoomRow where
  columns : RoomColumns
  dmKey : Option String
  seats : Seats
deriving DecidableEq, Repr

def RoomRow.id (r : RoomRow) : RoomId := r.columns.id

/-- A direct message that nobody is in yet. -/
def RoomRow.fresh (columns : RoomColumns) (key : String) : RoomRow :=
  ⟨columns, some key, .empty⟩

/-- The rooms. Both the id and the key of a direct message are unique. -/
structure RoomTable where
  rows : List RoomRow
  ids : (rows.map RoomRow.id).Nodup
  keys : (rows.filterMap RoomRow.dmKey).Nodup

namespace RoomTable

def findDm (t : RoomTable) (key : String) : Option RoomColumns :=
  (t.rows.find? fun r => r.dmKey = some key).map RoomRow.columns

def getRoom (t : RoomTable) (id : RoomId) : Option RoomRow := t.rows.find? fun r => r.id = id

theorem ids_append {rows : List RoomRow} (r : RoomRow) (h : (rows.map RoomRow.id).Nodup)
    (hid : r.id ∉ rows.map RoomRow.id) : ((rows ++ [r]).map RoomRow.id).Nodup := by
  rw [List.map_append, List.map_singleton]
  exact List.nodup_append'.2 ⟨h, List.nodup_singleton _, List.disjoint_singleton.2 hid⟩

theorem keys_append {rows : List RoomRow} (r : RoomRow) {key : String}
    (h : (rows.filterMap RoomRow.dmKey).Nodup) (hr : r.dmKey = some key)
    (hkey : key ∉ rows.filterMap RoomRow.dmKey) :
    ((rows ++ [r]).filterMap RoomRow.dmKey).Nodup := by
  have hlast : [r].filterMap RoomRow.dmKey = [key] := by simp [hr]
  rw [List.filterMap_append, hlast]
  exact List.nodup_append'.2 ⟨h, List.nodup_singleton _, List.disjoint_singleton.2 hkey⟩

/-- Insert a direct message. A key that is taken inserts nothing, and
    an id that is taken is an error. -/
def insertRoom (t : RoomTable) (columns : RoomColumns) (key : String) :
    Except ApiError (Option RoomTable) :=
  if hid : columns.id ∈ t.rows.map RoomRow.id then
    .error (.internal "UNIQUE constraint failed: rooms.id")
  else if hkey : key ∈ t.rows.filterMap RoomRow.dmKey then .ok none
  else .ok (some ⟨t.rows ++ [.fresh columns key], ids_append (.fresh columns key) t.ids hid,
    keys_append (.fresh columns key) t.keys rfl hkey⟩)

/-- Give one room other seats. -/
def put (id : RoomId) (seats : Seats) (r : RoomRow) : RoomRow :=
  if r.id = id then { r with seats := seats } else r

@[simp] theorem id_put (id : RoomId) (seats : Seats) (r : RoomRow) :
    (put id seats r).id = r.id := by
  unfold put
  split <;> rfl

@[simp] theorem dmKey_put (id : RoomId) (seats : Seats) (r : RoomRow) :
    (put id seats r).dmKey = r.dmKey := by
  unfold put
  split <;> rfl

/-- Other seats change neither index. -/
def seat (t : RoomTable) (id : RoomId) (seats : Seats) : RoomTable where
  rows := t.rows.map (put id seats)
  ids := by
    have hsame : RoomRow.id ∘ put id seats = RoomRow.id := funext fun r => id_put id seats r
    rw [List.map_map, hsame]
    exact t.ids
  keys := by
    have hsame : RoomRow.dmKey ∘ put id seats = RoomRow.dmKey :=
      funext fun r => dmKey_put id seats r
    rw [List.filterMap_map, hsame]
    exact t.keys

/-- Insert a row that depends on a room. There has to be the room, and the row must not be
    there yet. -/
def insertSeat (t : RoomTable) (id : RoomId) (sit : Seats → Option Seats) :
    Except ApiError RoomTable :=
  match t.getRoom id with
  | none => .error (.internal "FOREIGN KEY constraint failed")
  | some r =>
      match sit r.seats with
      | none => .error (.internal "UNIQUE constraint failed")
      | some seats => .ok (t.seat id seats)

def insertMember (t : RoomTable) (id : RoomId) (who : String) : Except ApiError RoomTable :=
  t.insertSeat id fun s =>
    if who ∈ s.members then none else some { s with members := s.members ++ [who] }

def insertAdmin (t : RoomTable) (id : RoomId) (who : String) : Except ApiError RoomTable :=
  t.insertSeat id fun s =>
    if who ∈ s.admins then none else some { s with admins := s.admins ++ [who] }

def insertSerial (t : RoomTable) (id : RoomId) (now : Nat) : Except ApiError RoomTable :=
  t.insertSeat id fun s =>
    if s.nextSerial.isSome then none else some { s with nextSerial := some now }

end RoomTable

/-! ### The calls -/

/-- Somebody a caller names: a wallet address in whatever letter case. -/
structure Participant where
  str : String
  address : isWalletAddress (lowercase str) = true
deriving DecidableEq, Repr

/-- Whom an address is, case aside. -/
def Participant.wallet (p : Participant) : WalletAddress := ⟨lowercase p.str, p.address⟩

/-- What is committed, and what the one write transaction sees, if there is one. -/
structure Database where
  rooms : RoomTable
  tx : Option RoomTable

/-- A call of `create_dm`, with the id that was drawn for it. -/
structure OpenCall where
  id : RoomId
  members : List Participant
deriving DecidableEq, Repr

/-- The statement that comes next. -/
inductive Stage where
  | finding
  | inserting
  | seating (now : Nat) (left : List String)
  | appointing (now : Nat) (member : String) (left : List String)
  | selecting
  | committing (room : RoomColumns)
  | rollingBack
  | refinding
  | ended (answer : Except ApiError RoomColumns)
deriving DecidableEq, Repr

/-- A call, and where it stands. -/
structure Opening extends OpenCall where
  stage : Stage
deriving DecidableEq, Repr

namespace Opening

def enter (call : OpenCall) : Opening := ⟨call, .finding⟩

def texts (c : Opening) : List String := c.members.map Participant.str

def key (c : Opening) : String := dmKey c.texts

/-- The room the call inserts. -/
def columns (c : Opening) (now : Nat) : RoomColumns where
  id := c.id
  name := nameOf (kindOf c.key)
  description := none
  currentKeyVersion := 1
  keyRotationPending := false
  kind := kindOf c.key
  createdAt := now

def reaches (c : Opening) (stage : Stage) : Opening := { c with stage := stage }

def returns (c : Opening) (answer : Except ApiError RoomColumns) : Opening :=
  c.reaches (.ended answer)

/-- Execute a statement in the transaction. An error drops the transaction. -/
def executes (c : Opening) (s : Database) (statement : RoomTable → Except ApiError RoomTable)
    (stage : Stage) : Database × Opening :=
  match statement (s.tx.getD s.rooms) with
  | .ok view => ({ s with tx := some view }, c.reaches stage)
  | .error e => ({ s with tx := none }, c.returns (.error e))

/-- The next statement of a call, at a time. -/
def advance (now : Nat) (s : Database) (c : Opening) : Database × Opening :=
  match c.stage with
  | .finding =>
      match s.rooms.findDm c.key with
      | some existing => (s, c.returns (.ok existing))
      | none => (s, c.reaches .inserting)
  | .inserting =>
      match s.tx with
      | some _ => (s, c)
      | none =>
          match s.rooms.insertRoom (c.columns now) c.key with
          | .error e => (s, c.returns (.error e))
          | .ok none => ({ s with tx := some s.rooms }, c.reaches .rollingBack)
          | .ok (some view) =>
              ({ s with tx := some view }, c.reaches (.seating now (dedupSorted c.texts)))
  | .seating now (member :: left) =>
      c.executes s (fun t => t.insertMember c.id member) (.appointing now member left)
  | .appointing now member left =>
      c.executes s (fun t => t.insertAdmin c.id member) (.seating now left)
  | .seating now [] => c.executes s (fun t => t.insertSerial c.id now) .selecting
  | .selecting =>
      match (s.tx.getD s.rooms).getRoom c.id with
      | some room => (s, c.reaches (.committing room.columns))
      | none => ({ s with tx := none }, c.returns (.error (.internal "Query returned no rows")))
  | .committing room => (⟨s.tx.getD s.rooms, none⟩, c.returns (.ok room))
  -- Lost the race. The winner's room is the answer.
  | .rollingBack => ({ s with tx := none }, c.reaches .refinding)
  | .refinding =>
      match s.rooms.findDm c.key with
      | some room => (s, c.returns (.ok room))
      | none => (s, c.returns (.error (.internal "direct message vanished after race")))
  | .ended _ => (s, c)

/-- The call is in its transaction. -/
def writes (c : Opening) : Bool :=
  match c.stage with
  | .seating .. | .appointing .. | .selecting | .committing _ | .rollingBack => true
  | _ => false

end Opening

/-! ### Who is meant -/

/-- The people as a set. -/
def parties (members : List Participant) : Finset WalletAddress :=
  (members.map Participant.wallet).toFinset

/-- The texts name exactly these people, each of them once. -/
def Lists (texts : List String) (people : Finset WalletAddress) : Prop :=
  (texts.map lowercase).Nodup ∧ ∀ t, t ∈ texts.map lowercase ↔ ∃ a ∈ people, a.str = t

theorem mem_lowered {members : List Participant} {t : String} :
    t ∈ (members.map Participant.str).map lowercase ↔ ∃ a ∈ parties members, a.str = t := by
  rw [List.map_map]
  simp only [parties, List.mem_toFinset, List.mem_map]
  constructor
  · rintro ⟨p, hp, rfl⟩
    exact ⟨p.wallet, ⟨p, hp, rfl⟩, rfl⟩
  · rintro ⟨a, ⟨p, hp, rfl⟩, rfl⟩
    exact ⟨p, hp, rfl⟩

-- An address is told by its text.
theorem str_injective {a b : WalletAddress} (h : a.str = b.str) : a = b := by
  cases a
  cases b
  simpa using h

/-- The texts tell the people. -/
theorem Lists.unique {texts : List String} {people people' : Finset WalletAddress}
    (h : Lists texts people) (h' : Lists texts people') : people = people' := by
  have hmem : ∀ a : WalletAddress, (∃ b ∈ people, b.str = a.str) ↔ ∃ b ∈ people', b.str = a.str :=
    fun a => (h.2 a.str).symm.trans (h'.2 a.str)
  have hself : ∀ (s : Finset WalletAddress) a, a ∈ s ↔ ∃ b ∈ s, b.str = a.str := by
    intro s a
    constructor
    · exact fun ha => ⟨a, ha, rfl⟩
    · rintro ⟨b, hb, heq⟩
      rwa [← str_injective heq]
  ext a
  rw [hself people, hself people', hmem]

theorem mem_keepUnseen (seen members : List String) (t : String) :
    t ∈ (keepUnseen seen members).map lowercase ↔ t ∈ members.map lowercase ∧ t ∉ seen := by
  induction members generalizing seen with
  | nil => simp [keepUnseen]
  | cons m ms ih =>
      by_cases hm : lowercase m ∈ seen
      · rw [keepUnseen, if_pos hm, ih, List.map_cons, List.mem_cons]
        constructor
        · exact fun h => ⟨Or.inr h.1, h.2⟩
        · rintro ⟨rfl | ht, hseen⟩
          · exact absurd hm hseen
          · exact ⟨ht, hseen⟩
      · rw [keepUnseen, if_neg hm, List.map_cons, List.mem_cons, ih, List.map_cons, List.mem_cons,
          List.mem_cons]
        by_cases ht : t = lowercase m
        · simp [ht, hm]
        · simp [ht]

theorem nodup_keepUnseen (seen members : List String) :
    ((keepUnseen seen members).map lowercase).Nodup := by
  induction members generalizing seen with
  | nil => exact List.nodup_nil
  | cons m ms ih =>
      by_cases hm : lowercase m ∈ seen
      · rw [keepUnseen, if_pos hm]
        exact ih seen
      · rw [keepUnseen, if_neg hm, List.map_cons, List.nodup_cons, mem_keepUnseen]
        exact ⟨fun h => h.2 List.mem_cons_self, ih _⟩

/-- The people are stored each once, and they are the people. -/
theorem lists_dedupSorted (members : List Participant) :
    Lists (dedupSorted (members.map Participant.str)) (parties members) := by
  have hperm := (List.perm_insertionSort (· ≤ ·)
    (keepUnseen [] (members.map Participant.str))).map lowercase
  refine ⟨hperm.nodup_iff.2 (nodup_keepUnseen _ _), fun t => ?_⟩
  rw [dedupSorted, hperm.mem_iff, mem_keepUnseen, mem_lowered]
  simp

theorem nodup_dedupSorted (members : List String) : (dedupSorted members).Nodup :=
  (List.perm_insertionSort (· ≤ ·) _).nodup_iff.2 (nodup_keepUnseen [] members).of_map

/-! ### The key tells the people -/

theorem dmKeys_eq (members : List String) :
    dmKeys members = keysUp (· ≤ ·) (members.map lowercase) := by
  have h : (dmKeys members).map id = keysUp (· ≤ ·) ((members.map lowercase).map id) :=
    map_firsts (members.map lowercase)
  rwa [List.map_id, List.map_id] at h

theorem mem_dmKeys {members : List Participant} {t : String} :
    t ∈ dmKeys (members.map Participant.str) ↔ ∃ a ∈ parties members, a.str = t := by
  rw [dmKeys_eq, mem_keysUp, mem_lowered]

-- An address is `0x` and digits.
theorem bar_notMem_str (a : WalletAddress) : '|' ∉ a.str.toList := by
  rcases isWalletAddress_iff.1 a.wellFormed with ⟨digits, hs, -, hdigits⟩
  rw [hs, List.mem_cons, List.mem_cons]
  rintro (h | h | h)
  · exact absurd h (by decide)
  · exact absurd h (by decide)
  · exact absurd (hdigits _ h) (by decide)

theorem str_ne_nil (a : WalletAddress) : a.str.toList ≠ [] := by
  rcases isWalletAddress_iff.1 a.wellFormed with ⟨digits, hs, -, -⟩
  rw [hs]
  exact List.cons_ne_nil _ _

theorem toList_dmKey (members : List String) :
    (dmKey members).toList = List.intercalate ['|'] ((dmKeys members).map String.toList) :=
  String.toList_intercalate

/-- The key is split into the people it has been made from, unless there are none. -/
theorem splitOn_dmKey {members : List Participant}
    (hne : dmKeys (members.map Participant.str) ≠ []) :
    (dmKey (members.map Participant.str)).toList.splitOn '|' =
      (dmKeys (members.map Participant.str)).map String.toList := by
  rw [toList_dmKey]
  refine List.splitOn_intercalate '|' ?_ fun h => hne (List.map_eq_nil_iff.1 h)
  intro field hfield
  rcases List.mem_map.1 hfield with ⟨t, ht, rfl⟩
  rcases mem_dmKeys.1 ht with ⟨a, -, rfl⟩
  exact bar_notMem_str a

-- Nobody is joined to the empty text, and somebody to one with a letter in it.
theorem dmKey_eq_empty {members : List Participant}
    (h : (dmKey (members.map Participant.str)).toList = []) :
    dmKeys (members.map Participant.str) = [] := by
  by_contra hne
  have hsplit := splitOn_dmKey hne
  rw [h, List.splitOn_nil] at hsplit
  rcases List.map_eq_cons_iff.1 hsplit.symm with ⟨t, ts, hkeys, ht, -⟩
  have hmem : t ∈ dmKeys (members.map Participant.str) := hkeys ▸ List.mem_cons_self
  rcases mem_dmKeys.1 hmem with ⟨a, -, rfl⟩
  exact str_ne_nil a ht

theorem dmKeys_of_dmKey {members members' : List Participant}
    (h : dmKey (members.map Participant.str) = dmKey (members'.map Participant.str)) :
    dmKeys (members.map Participant.str) = dmKeys (members'.map Participant.str) := by
  by_cases hnil : dmKeys (members.map Participant.str) = []
  · have hempty : (dmKey (members.map Participant.str)).toList = [] := by
      rw [toList_dmKey, hnil]
      rfl
    rw [hnil, dmKey_eq_empty (h ▸ hempty)]
  · have hnil' : dmKeys (members'.map Participant.str) ≠ [] := by
      intro hnil'
      refine hnil (dmKey_eq_empty ?_)
      rw [h, toList_dmKey, hnil']
      rfl
    have hsplit := splitOn_dmKey hnil
    rw [h, splitOn_dmKey hnil'] at hsplit
    exact (List.map_injective_iff.2 (fun _ _ htext => String.toList_injective htext) hsplit).symm

/-- Two keys are the same if and only if the people are. -/
theorem dmKey_eq_iff {members members' : List Participant} :
    dmKey (members.map Participant.str) = dmKey (members'.map Participant.str) ↔
      parties members = parties members' := by
  constructor
  · intro h
    have hlists := lists_dedupSorted members
    refine hlists.unique ⟨hlists.1, fun t => ?_⟩
    rw [hlists.2, ← mem_dmKeys, dmKeys_of_dmKey h, mem_dmKeys]
  · intro h
    have hkeys : dmKeys (members.map Participant.str) = dmKeys (members'.map Participant.str) := by
      rw [dmKeys_eq, dmKeys_eq]
      refine keysUp_congr fun t => ?_
      rw [mem_lowered, mem_lowered, h]
    rw [dmKey, dmKey, hkeys]

end Direct

/-- The calls that open direct messages, on the rooms. -/
abbrev Openings := Pool Direct.Database Direct.Opening

namespace Openings

open Direct

/-- The state after a turn. -/
abbrev step : Openings → Turn OpenCall Nat → Openings := Pool.step Opening.enter Opening.advance

/-- The state after some turns. -/
abbrev run : Openings → List (Turn OpenCall Nat) → Openings := Run.run step

end Openings

end PocketSkynet
