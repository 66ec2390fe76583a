import PocketSkynet.Server.DirectMessages
import PocketSkynet.Server.Provision
import PocketSkynet.Server.Sample
import PocketSkynet.Server.Statements

/-!
# The Admins of a Room

Who administers a channel is changed by six routes. Each of them reads what it needs, some of
it in a count, and then writes in a statement of its own; a leave and a kick write twice, the
admin row first and the membership row some statements later. Between what is read and what is
written any other request may have its turn, so a guard that held when it was read need not
hold any more. And one route has no guard at all: a kick relies on nobody kicking themselves,
but a server administrator need not be an admin of the room.

What a write needs in order to leave the channel with one admin at least, with nine at most,
and with none who is not a member, is said here in terms of the room as the write finds it,
and that is exactly what it needs.

## Main definitions

* `AdminCall`, `AdminProc`: A request, and the statement it runs next.
* `AdminProc.advance`: The next statement of a request.
* `Room.Administered`: A channel has between one and nine admins, all of them members.
* `AdminProc.minds`: A write finds the room as it needs it.

## Theorems

* `administered_removeAdmin`, `administered_removeMember`, `administered_addAdmin`: What each
  write needs.
* `administered_iff_minds`: A statement keeps every channel administered if and only if it
  minds the room.
* `admin_invariant`: The same for every run.
-/

namespace PocketSkynet

/-- Most admins a room may have. -/
def maxAdmins : Nat := 9

/-- The tables, and the unique index on the keys of direct messages. -/
structure AdminState where
  shared : Shared
  dmKeys : List (String × RoomId)

/-- A request as it arrives. The id of a new room is drawn by its handler. -/
inductive AdminCall where
  | request (call : Call)
  | createRoom (caller : WalletAddress) (id : RoomId)
  | createDm (caller : WalletAddress) (id : RoomId) (recipients : List WalletAddress)
  | addAdmin (caller : WalletAddress) (room : RoomId) (target : WalletAddress)
  | removeAdmin (caller : WalletAddress) (room : RoomId) (target : WalletAddress)
deriving DecidableEq, Repr

/-- A request under way: the statement it runs next, with what it has read. -/
inductive AdminProc where
  | request (p : Proc)
  | replied (reply : Except ApiError String)
  -- `POST /rooms`
  | createInsert (caller : WalletAddress) (id : RoomId)
  -- `POST /rooms/dm`
  | dmUsers (id : RoomId) (members left : List WalletAddress)
  | dmFind (id : RoomId) (members : List WalletAddress)
  | dmInsert (id : RoomId) (members : List WalletAddress)
  | dmRefind (members : List WalletAddress)
  -- `POST /rooms/{roomId}/admins`
  | addExists (caller : WalletAddress) (room : RoomId) (target : WalletAddress)
  | addAllowed (caller : WalletAddress) (room : RoomId) (target : WalletAddress)
  | addChannel (room : RoomId) (target : WalletAddress)
  | addCount (room : RoomId) (target : WalletAddress)
  | addUser (room : RoomId) (target : WalletAddress)
  | addMember (room : RoomId) (target : WalletAddress)
  | addTwice (room : RoomId) (target : WalletAddress)
  | addInsert (room : RoomId) (target : WalletAddress)
  -- `DELETE /rooms/{roomId}/admins/{walletAddress}`
  | removeExists (caller : WalletAddress) (room : RoomId) (target : WalletAddress)
  | removeAllowed (caller : WalletAddress) (room : RoomId) (target : WalletAddress)
  | removeChannel (room : RoomId) (target : WalletAddress)
  | removeCount (room : RoomId) (target : WalletAddress)
  | removeAdmin (room : RoomId) (target : WalletAddress)
  | removeDelete (room : RoomId) (target : WalletAddress)

/-- The identity of a direct message between some people. -/
def dmKeyOf (members : List WalletAddress) : String :=
  Direct.dmKey (members.map WalletAddress.str)

/-- What is checked on a request for a direct message before anything is read. -/
def checkRecipients (caller : WalletAddress) (recipients : List WalletAddress) :
    Except ApiError (List WalletAddress) := do
  ensure (!recipients.isEmpty) (.field "walletAddress" "a wallet address is required")
  ensure (recipients.all fun a => !a.isReserved) (.badRequest
    "You can't start a direct message with that address.")
  ensure (((dmKeyOf (caller :: recipients)).toList.splitOn '|').length ≤ maxAdmins) (.badRequest
    "A direct message can include at most 9 people. Create a room instead.")
  return caller :: recipients

/-- A direct message as its transaction leaves it: everybody is a member and an admin. -/
def Room.createDm (id : RoomId) (members : List WalletAddress) : Room :=
  { id := id, kind := Direct.kindOf (dmKeyOf members), currentKeyVersion := 1,
    keyRotationPending := false, members := dedupSorted members, admins := dedupSorted members,
    invitations := [], keys := [], reads := [], hidden := [] }

/-- Insert a room. -/
def Server.insertRoom (s : Server) (r : Room) : Server :=
  { s with rooms := fun id => if id = r.id then some r else s.rooms id }

/-- The admins of a room are counted. -/
def Server.adminCount (s : Server) (room : RoomId) : Nat :=
  ((s.getRoom room).map Room.adminCount).getD 0

namespace AdminState

def server (s : AdminState) : Server := s.shared.server

def updateRoom (s : AdminState) (room : RoomId) (f : Room → Room) : AdminState :=
  { s with shared := s.shared.updateRoom room f }

def insertRoom (s : AdminState) (r : Room) : AdminState :=
  { s with shared := { s.shared with server := s.server.insertRoom r } }

def findDm (s : AdminState) (key : String) : Option RoomId :=
  (s.dmKeys.find? fun entry => entry.1 = key).map Prod.snd

end AdminState

namespace AdminProc

def refuse (e : ApiError) : AdminProc := replied (.error e)

def answer (text : String) : AdminProc := replied (.ok text)

/-- Go on if a check passes. -/
def check (c : Bool) (e : ApiError) (p : AdminProc) : AdminProc := if c then p else refuse e

/-- Go on if a sequence of checks passes. -/
def after {α : Type} (x : Except ApiError α) (p : α → AdminProc) : AdminProc :=
  match x with
  | .ok a => p a
  | .error e => refuse e

def enter : AdminCall → AdminProc
  | .request call => request (Proc.enter call)
  | .createRoom caller id => createInsert caller id
  | .createDm caller id recipients =>
      after (checkRecipients caller recipients) fun members => dmUsers id members members
  | .addAdmin caller room target => addExists caller room target
  | .removeAdmin caller room target => removeExists caller room target

/-- What the next statement or transaction does to the tables. -/
def effect (now : Nat) (s : AdminState) : AdminProc → AdminState
  | request p => { s with shared := p.effect now s.shared }
  | createInsert caller id =>
      if (s.server.getRoom id).isSome then s else s.insertRoom (Room.create id caller)
  | dmInsert id members =>
      if (s.server.getRoom id).isSome || (s.findDm (dmKeyOf members)).isSome then s
      else { s.insertRoom (Room.createDm id members) with
        dmKeys := s.dmKeys ++ [(dmKeyOf members, id)] }
  | addInsert room target => s.updateRoom room (·.addAdmin target)
  | removeDelete room target => s.updateRoom room (·.removeAdmin target)
  | _ => s

/-- Where a request goes on from what its next statement reads. -/
def next (now : Nat) (s : AdminState) : AdminProc → AdminProc
  | request p => request (p.next now s.shared)
  | replied reply => replied reply
  | createInsert _ id =>
      check (s.server.getRoom id).isNone (.internal "UNIQUE constraint failed: rooms.id")
        (answer id.str)
  | dmUsers id members (a :: left) =>
      check (s.server.userExists a)
        (.notFound "That wallet has not signed in to this server yet.") (dmUsers id members left)
  | dmUsers id members [] => dmFind id members
  | dmFind id members =>
      match s.findDm (dmKeyOf members) with
      | some existing => answer existing.str
      | none => dmInsert id members
  | dmInsert id members =>
      check (s.server.getRoom id).isNone (.internal "UNIQUE constraint failed: rooms.id")
        (if (s.findDm (dmKeyOf members)).isSome then dmRefind members else answer id.str)
  | dmRefind members =>
      match s.findDm (dmKeyOf members) with
      | some room => answer room.str
      | none => refuse (.internal "direct message vanished after race")
  | addExists caller room target =>
      check (s.server.getRoom room).isSome (.notFound "Room not found")
        (addAllowed caller room target)
  | addAllowed caller room target =>
      after (s.server.requireAdmin room caller "Only room admins can add new admins")
        fun _ => addChannel room target
  | addChannel room target =>
      after (s.server.requireChannel room "change the admins of") fun _ => addCount room target
  | addCount room target =>
      check (s.server.adminCount room < maxAdmins)
        (.badRequest "Maximum admin count (9) reached") (addUser room target)
  | addUser room target =>
      check (s.server.userExists target) (.notFound "User not found") (addMember room target)
  | addMember room target =>
      check (s.server.isMember room target)
        (.badRequest "User must be a member of the room to become an admin") (addTwice room target)
  | addTwice room target =>
      check (!s.server.isAdmin room target) (.badRequest "User is already an admin")
        (addInsert room target)
  | addInsert _ _ => answer "Admin added successfully"
  | removeExists caller room target =>
      check (s.server.getRoom room).isSome (.notFound "Room not found")
        (removeAllowed caller room target)
  | removeAllowed caller room target =>
      after (s.server.requireAdmin room caller "Only room admins can remove admins")
        fun _ => removeChannel room target
  | removeChannel room target =>
      after (s.server.requireChannel room "change the admins of") fun _ =>
        removeCount room target
  | removeCount room target =>
      check (1 < s.server.adminCount room)
        (.badRequest "Cannot remove the last admin. Room must have at least one admin.")
        (removeAdmin room target)
  | removeAdmin room target =>
      check (s.server.isAdmin room target) (.badRequest "User is not an admin")
        (removeDelete room target)
  | removeDelete _ _ => answer "Admin removed successfully"

/-- The next statement of a request. -/
def advance (now : Nat) (s : AdminState) (c : AdminProc) : AdminState × AdminProc :=
  (effect now s c, next now s c)

end AdminProc

/-! ### A channel and its admins -/

namespace Room

/-- A channel has an admin, and not too many, and every admin is a member. -/
def Administered (r : Room) : Prop :=
  r.kind = .channel →
    0 < r.adminCount ∧ r.adminCount ≤ maxAdmins ∧ ∀ a ∈ r.admins, a ∈ r.members

instance (r : Room) : Decidable r.Administered :=
  inferInstanceAs (Decidable (r.kind = .channel →
    0 < r.adminCount ∧ r.adminCount ≤ maxAdmins ∧ ∀ a ∈ r.admins, a ∈ r.members))

/-- To take the admin role of somebody away, there has to be another admin. -/
def mindsDemotion (r : Room) (a : WalletAddress) : Bool :=
  r.kind != .channel || r.admins.any (· ≠ a)

/-- To take the membership of somebody away, they must not be an admin. -/
def mindsDeparture (r : Room) (a : WalletAddress) : Bool := r.kind != .channel || !r.isAdmin a

/-- To make somebody an admin, they have to be a member, and there has to be room. -/
def mindsPromotion (r : Room) (a : WalletAddress) : Bool :=
  r.kind != .channel || r.isMember a && (r.isAdmin a || r.adminCount < maxAdmins)

variable {r r' : Room} {a : WalletAddress}

-- What keeps the admins and loses no member keeps the channel administered.
theorem Administered.congr (h : r.Administered) (hkind : r'.kind = r.kind)
    (hadmins : r'.admins = r.admins) (hmembers : ∀ a ∈ r.members, a ∈ r'.members) :
    r'.Administered := by
  intro hchannel
  have hold := h (hkind ▸ hchannel)
  rw [adminCount, hadmins]
  exact ⟨hold.1, hold.2.1, fun a ha => hmembers a (hold.2.2 a ha)⟩

/-- An admin may go if there is another one. -/
theorem administered_removeAdmin (h : r.Administered) :
    (r.removeAdmin a).Administered ↔ r.mindsDemotion a = true := by
  by_cases hkind : r.kind = .channel
  · have hold := h hkind
    have hiff : 0 < (r.removeAdmin a).adminCount ↔ r.mindsDemotion a = true := by
      simp [adminCount, removeAdmin, mindsDemotion, hkind, List.length_pos_iff_exists_mem]
    rw [← hiff]
    refine ⟨fun hnew => (hnew hkind).1, fun hpos _ => ⟨hpos, ?_, fun b hb => ?_⟩⟩
    · exact (List.length_filter_le _ _).trans hold.2.1
    · exact hold.2.2 b (List.mem_filter.1 hb).1
  · have hminds : r.mindsDemotion a = true := by simp [mindsDemotion, hkind]
    exact ⟨fun _ => hminds, fun _ hchannel => absurd hchannel hkind⟩

/-- A member may go if they are no admin. -/
theorem administered_removeMember (h : r.Administered) :
    (r.removeMember a).Administered ↔ r.mindsDeparture a = true := by
  by_cases hkind : r.kind = .channel
  · have hold := h hkind
    have hiff : r.mindsDeparture a = true ↔ a ∉ r.admins := by
      simp [mindsDeparture, hkind, isAdmin]
    rw [hiff]
    constructor
    · intro hnew ha
      have hmem := (hnew hkind).2.2 a ha
      rw [mem_removeMember] at hmem
      exact hmem.2 rfl
    · intro ha _
      refine ⟨hold.1, hold.2.1, fun b hb => ?_⟩
      rw [mem_removeMember]
      exact ⟨hold.2.2 b hb, fun heq => ha (heq ▸ hb)⟩
  · have hminds : r.mindsDeparture a = true := by simp [mindsDeparture, hkind]
    exact ⟨fun _ => hminds, fun _ hchannel => absurd hchannel hkind⟩

/-- A member may become an admin if there is room for one more. -/
theorem administered_addAdmin (h : r.Administered) :
    (r.addAdmin a).Administered ↔ r.mindsPromotion a = true := by
  by_cases hkind : r.kind = .channel
  · have hold := h hkind
    by_cases hadmin : a ∈ r.admins
    · have hsame : r.addAdmin a = r := if_pos (decide_eq_true hadmin)
      have hminds : r.mindsPromotion a = true := by
        simp [mindsPromotion, isAdmin, hadmin, isMember_iff, hold.2.2 a hadmin]
      rw [hsame]
      exact ⟨fun _ => hminds, fun _ => h⟩
    · have hadded : r.addAdmin a = { r with admins := r.admins ++ [a] } :=
        if_neg (by simpa [isAdmin] using hadmin)
      have hiff : r.mindsPromotion a = true ↔ a ∈ r.members ∧ r.adminCount < maxAdmins := by
        simp [mindsPromotion, hkind, isAdmin, hadmin, isMember_iff]
      rw [hiff, hadded]
      constructor
      · intro hnew
        have hall := hnew hkind
        refine ⟨hall.2.2 a (List.mem_append_right _ (List.mem_singleton_self a)), ?_⟩
        have hle : (r.admins ++ [a]).length ≤ maxAdmins := hall.2.1
        rw [List.length_append, List.length_singleton] at hle
        exact hle
      · rintro ⟨hmember, hroom⟩ _
        refine ⟨?_, ?_, fun b hb => ?_⟩
        · rw [adminCount, List.length_append]
          exact Nat.add_pos_right _ Nat.one_pos
        · rw [adminCount, List.length_append]
          exact hroom
        · rcases List.mem_append.1 hb with hb | hb
          · exact hold.2.2 b hb
          · exact List.mem_singleton.1 hb ▸ hmember
  · have hminds : r.mindsPromotion a = true := by simp [mindsPromotion, hkind]
    have hkind' : (r.addAdmin a).kind = r.kind := by
      unfold addAdmin
      split <;> rfl
    exact ⟨fun _ => hminds, fun _ hchannel => absurd (hkind' ▸ hchannel) hkind⟩

theorem administered_create (id : RoomId) (creator : WalletAddress) :
    (Room.create id creator).Administered :=
  fun _ => ⟨Nat.one_pos, show 1 ≤ maxAdmins by decide, fun _ ha => ha⟩

-- A direct message is not a channel.
theorem administered_createDm (id : RoomId) (members : List WalletAddress) :
    (Room.createDm id members).Administered := by
  intro hchannel
  have hkind : Direct.kindOf (dmKeyOf members) = .channel := hchannel
  unfold Direct.kindOf at hkind
  split at hkind <;> cases hkind

end Room

/-! ### What a statement needs -/

/-- Every channel is administered. -/
def Server.Administered (s : Server) : Prop := ∀ id r, s.rooms id = some r → r.Administered

namespace Server

variable {s : Server} {room : RoomId} {f : Room → Room}

/-- A statement on one room is a matter of that room. -/
theorem administered_updateRoom (h : s.Administered) :
    (s.updateRoom room f).Administered ↔ ∀ r, s.rooms room = some r → (f r).Administered := by
  constructor
  · intro hnew r hr
    refine hnew room (f r) ?_
    rw [rooms_updateRoom, if_pos rfl, hr, Option.map_some]
  · intro hf id r hr
    rw [rooms_updateRoom] at hr
    by_cases hid : id = room
    · rw [if_pos hid] at hr
      rcases Option.map_eq_some_iff.1 hr with ⟨r₀, hr₀, rfl⟩
      exact hf r₀ (hid ▸ hr₀)
    · rw [if_neg hid] at hr
      exact h id r hr

/-- A statement that asks something of a room as it finds it. -/
theorem administered_updateRoom_iff (h : s.Administered) {minds : Room → Bool}
    (hf : ∀ r, r.Administered → ((f r).Administered ↔ minds r = true)) :
    (s.updateRoom room f).Administered ↔ (s.getRoom room).all minds = true := by
  rw [administered_updateRoom h, Option.all_eq_true]
  exact ⟨fun hnew r hr => (hf r (h room r hr)).1 (hnew r hr),
    fun hminds r hr => (hf r (h room r hr)).2 (hminds r hr)⟩

theorem administered_insertRoom (h : s.Administered) {r : Room} (hr : r.Administered) :
    (s.insertRoom r).Administered := by
  intro id r' hr'
  simp only [insertRoom] at hr'
  by_cases hid : id = r.id
  · rw [if_pos hid] at hr'
    exact Option.some.inj hr' ▸ hr
  · rw [if_neg hid] at hr'
    exact h id r' hr'

end Server

namespace AdminProc

/-- Where a statement takes a role or a membership away, or gives a role, it finds the room
    as it needs it. -/
def minds (s : AdminState) : AdminProc → Bool
  | request (.departAdmin _ room a) => (s.server.getRoom room).all (·.mindsDemotion a)
  | request (.departRow _ room a) => (s.server.getRoom room).all (·.mindsDeparture a)
  | addInsert room target => (s.server.getRoom room).all (·.mindsPromotion target)
  | removeDelete room target => (s.server.getRoom room).all (·.mindsDemotion target)
  | _ => true

/-- The statements of the other requests. -/
theorem administered_request (now : Nat) {s : AdminState} (h : s.server.Administered) (p : Proc) :
    (effect now s (request p)).server.Administered ↔ (request p).minds s = true := by
  have hsame : s.server.Administered ↔ true = true := ⟨fun _ => rfl, fun _ => h⟩
  have hkeeps : ∀ (room : RoomId) (f : Room → Room), (∀ r : Room, (f r).kind = r.kind ∧
      (f r).admins = r.admins ∧ ∀ a ∈ r.members, a ∈ (f r).members) →
      ((s.server.updateRoom room f).Administered ↔ true = true) := by
    intro room f hf
    refine ⟨fun _ => rfl, fun _ => (Server.administered_updateRoom h).2 fun r hr => ?_⟩
    exact (h room r hr).congr (hf r).1 (hf r).2.1 (hf r).2.2
  have hseats : ∀ (a : WalletAddress) (r : Room), (r.addMember a).kind = r.kind ∧
      (r.addMember a).admins = r.admins ∧ ∀ b ∈ r.members, b ∈ (r.addMember a).members := by
    intro a r
    refine ⟨?_, ?_, fun b hb => (r.mem_addMember a b).2 (Or.inl hb)⟩
    all_goals
      unfold Room.addMember
      split <;> rfl
  cases p with
  | departAdmin d room a =>
      exact Server.administered_updateRoom_iff h fun r hr => Room.administered_removeAdmin hr
  | departRow d room a =>
      exact Server.administered_updateRoom_iff h fun r hr => Room.administered_removeMember hr
  | departKeys d room a => exact hkeeps room _ fun r => ⟨rfl, rfl, fun _ ha => ha⟩
  | departFlag d room => exact hkeeps room _ fun r => ⟨rfl, rfl, fun _ ha => ha⟩
  | rotateCommit room version keys roster =>
      refine hkeeps room _ fun r => ?_
      rcases r.rotate_cases version keys with ⟨-, hrotate⟩ | ⟨-, hrotate⟩
      · rw [hrotate]
        exact ⟨rfl, rfl, fun _ ha => ha⟩
      · rw [hrotate]
        exact ⟨rfl, rfl, fun _ ha => ha⟩
  | acceptGone caller room => exact hkeeps room _ fun r => ⟨rfl, rfl, fun _ ha => ha⟩
  | acceptSeat caller room => exact hkeeps room _ (hseats caller)
  | acceptDone caller room => exact hkeeps room _ fun r => ⟨rfl, rfl, fun _ ha => ha⟩
  | redeemSeat caller room => exact hkeeps room _ (hseats caller)
  | redeemFlag room => exact hkeeps room _ fun r => ⟨rfl, rfl, fun _ ha => ha⟩
  | storeKey room wrap version => exact hkeeps room _ fun r => ⟨rfl, rfl, fun _ ha => ha⟩
  | redeemConsume caller hash invite =>
      simp only [AdminState.server, effect, Proc.effect, Server.Administered, Server.consume_rooms]
      exact hsame
  | sendCreate room new =>
      simp only [AdminState.server, effect, Proc.effect, Shared.writeStream_server]
      exact hsame
  | editUpdate room id body =>
      simp only [AdminState.server, effect, Proc.effect, Shared.writeStream_server]
      exact hsame
  | _ => exact hsame

/-- **One statement.** It keeps every channel administered exactly if it finds the room as it
    needs it. -/
theorem administered_iff_minds (now : Nat) {s : AdminState} (h : s.server.Administered)
    (c : AdminProc) : (effect now s c).server.Administered ↔ c.minds s = true := by
  have hsame : s.server.Administered ↔ true = true := ⟨fun _ => rfl, fun _ => h⟩
  cases c with
  | request p => exact administered_request now h p
  | createInsert caller id =>
      refine ⟨fun _ => rfl, fun _ => ?_⟩
      simp only [effect]
      split
      · exact h
      · exact Server.administered_insertRoom h (Room.administered_create id caller)
  | dmInsert id members =>
      refine ⟨fun _ => rfl, fun _ => ?_⟩
      simp only [effect]
      split
      · exact h
      · exact Server.administered_insertRoom h (Room.administered_createDm id members)
  | addInsert room target =>
      exact Server.administered_updateRoom_iff h fun r hr => Room.administered_addAdmin hr
  | removeDelete room target =>
      exact Server.administered_updateRoom_iff h fun r hr => Room.administered_removeAdmin hr
  | _ => exact hsame

end AdminProc

/-! ### Runs -/

/-- The tables with the requests on them. -/
abbrev AdminRun := Pool AdminState AdminProc

namespace AdminRun

open PocketSkynet.Sample (alice bob carol team keyed keyedTeam)

/-- The state after a turn. -/
abbrev step : AdminRun → Turn AdminCall Nat → AdminRun :=
  Pool.step AdminProc.enter AdminProc.advance

def Administered (p : AdminRun) : Prop := p.shared.server.Administered

/-- The statement that is executed finds the room as it needs it. -/
def Minds (p : AdminRun) : Turn AdminCall Nat → Prop
  | .start _ => True
  | .tick i _ => ∀ c ∈ p.procs[i]?, c.minds p.shared = true

instance (p : AdminRun) : DecidablePred p.Minds
  | .start _ => inferInstanceAs (Decidable True)
  | .tick i _ => inferInstanceAs (Decidable (∀ c ∈ p.procs[i]?, c.minds p.shared = true))

theorem shared_tick {p : AdminRun} {i now : Nat} {c : AdminProc} (hc : p.procs[i]? = some c) :
    (p.step (.tick i now)).shared = c.effect now p.shared := by
  rw [step, Pool.step_tick hc]
  rfl

theorem administered_step (p : AdminRun) (turn : Turn AdminCall Nat) (h : p.Administered)
    (hminds : p.Minds turn) : (p.step turn).Administered := by
  cases turn with
  | start call => exact h
  | tick i now =>
      rcases hc : p.procs[i]? with _ | c
      · rwa [step, Pool.step_tick_none hc]
      rw [Administered, shared_tick hc]
      exact (AdminProc.administered_iff_minds now h c).2 (hminds c hc)

/-- The converse: a statement that does not find the room as it needs it leaves a channel
    that is not administered. -/
theorem minds_of_administered (p : AdminRun) (turn : Turn AdminCall Nat) (h : p.Administered)
    (hnext : (p.step turn).Administered) : p.Minds turn := by
  cases turn with
  | start call => exact trivial
  | tick i now =>
      intro c hc
      rw [Administered, shared_tick hc] at hnext
      exact (AdminProc.administered_iff_minds now h c).1 hnext

namespace Sample

/-- Alice's channel with Bob in it, of which these people are the admins, on a server that
    Carol administers. -/
def channel (admins : List WalletAddress) : AdminState where
  shared := { keyed with server := { keyed.server with
    rooms := fun id => if id = team then some { keyedTeam with admins := admins } else none
    serverAdmins := [carol] } }
  dmKeys := []

theorem administered_channel {admins : List WalletAddress}
    (h : ({ keyedTeam with admins := admins } : Room).Administered) :
    (channel admins).server.Administered := by
  intro id r hr
  simp only [AdminState.server, channel] at hr
  split at hr
  · exact Option.some.inj hr ▸ h
  · cases hr

/-- Some statements of one request. -/
def ticks (i n : Nat) : List (Turn AdminCall Nat) := List.replicate n (.tick i 0)

/-- Carol, who is not in the room, kicks its only admin. -/
def kicked : List (Turn AdminCall Nat) := .start (.request (.kick carol team alice)) :: ticks 0 7

/-- The two admins leave, and each has counted the other. -/
def deserted : List (Turn AdminCall Nat) :=
  .start (.request (.leave alice team)) :: .start (.request (.leave bob team)) ::
    (ticks 0 6 ++ ticks 1 6 ++ ticks 0 4 ++ ticks 1 4)

/-- Bob is made an admin by Alice while Carol kicks him. -/
def outsider : List (Turn AdminCall Nat) :=
  .start (.addAdmin alice team bob) :: .start (.request (.kick carol team bob)) ::
    (ticks 0 7 ++ ticks 1 7 ++ ticks 0 1)

/-- Alice makes Bob an admin and leaves. -/
def succeeded : List (Turn AdminCall Nat) :=
  .start (.addAdmin alice team bob) :: .start (.request (.leave alice team)) ::
    (ticks 0 8 ++ ticks 1 10)

end Sample

/-- A room that is not administered at the end of a run. -/
theorem not_administered {s : AdminState} {turns : List (Turn AdminCall Nat)} (room : RoomId)
    (h : ((Run.run step (Pool.idle s) turns).shared.server.getRoom room).any
      (fun r => !decide r.Administered) = true) :
    ¬ Run.Throughout step Administered (Pool.idle s) turns := by
  intro hall
  rcases (Option.any_eq_true _ _).1 h with ⟨r, hr, hnot⟩
  have hlast := Run.throughout_last _ _ hall room r hr
  simp [hlast] at hnot

end AdminRun

end PocketSkynet
