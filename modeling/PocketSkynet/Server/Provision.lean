import Mathlib.Data.List.Dedup
import PocketSkynet.Lib.Run
import PocketSkynet.Server.Transitions

/-!
# Provisioning the Built-in Rooms

Everybody has three rooms the server keeps: a note, a room with their agent and
a lobby with the server's administrators. Their rosters are functions of the
owner and the configuration, so they are reconciled rather than joined: each
pass seats who is missing, drops who no longer belongs, and flags a keyed room
for rotation if anybody moved.

The address of an agent is a hash of its owner's, taken here as a parameter.

An `Event` is a request, a restart with a new list of administrators, or a
provisioning pass for one owner under the running configuration.

## Main definitions

* `staticRoster`: The roster a built-in room is promised.
* `Room.reconcile`: Seat and drop until the members are the roster.
* `Server.provisionStaticRooms`: One pass over the three rooms of an owner.
* `Event`, `Server.stepEvent`: Requests, restarts and passes.

## Theorems

* `mem_reconcile`: The members afterwards are exactly the roster.
* `reconcile_keys`, `reconcile_invitations`: Wraps and invitations stay.
* `rooms_provision`, `rooms_provision_other`: The rooms a pass leaves behind.
-/

namespace PocketSkynet

/-- An address list sorted, each address once. -/
def dedupSorted (l : List WalletAddress) : List WalletAddress :=
  l.dedup.insertionSort fun a b => a.str ≤ b.str

/-- The roster a kind of built-in room is promised, given the owner's agent. -/
def staticRoster (agent owner : WalletAddress) (serverAdmins : List WalletAddress) :
    RoomKind → List WalletAddress
  | .jarvis => dedupSorted [owner, agent]
  | .lobby => dedupSorted (owner :: serverAdmins)
  | _ => dedupSorted [owner]

namespace Room

/-- A built-in room before anybody has been seated. -/
def createStatic (id : RoomId) (kind : RoomKind) : Room :=
  { id := id, kind := kind, currentKeyVersion := 1, keyRotationPending := false, members := [],
    admins := [], invitations := [], keys := [], reads := [], hidden := [] }

def addAdmin (r : Room) (a : WalletAddress) : Room :=
  if r.isAdmin a then r else { r with admins := r.admins ++ [a] }

/-- Drop everybody the roster does not name, with their pointers and flags. -/
def dropStrangers (r : Room) (roster : List WalletAddress) : Room :=
  { r with
    members := r.members.filter (· ∈ roster)
    reads := r.reads.filter (·.1 ∈ roster)
    hidden := r.hidden.filter (· ∈ roster) }

/-- Make the members the roster, and name everybody who moved. -/
def reconcile (r : Room) (owner : WalletAddress) (roster : List WalletAddress) :
    Room × List WalletAddress :=
  let r := r.addAdmin owner
  let seated := roster.filter fun a => !r.isMember a
  let r := roster.foldl addMember r
  let removed := r.members.filter (· ∉ roster)
  let r := r.dropStrangers roster
  let changed := seated ++ removed
  -- Nobody drives a rotation for a roster that moved by itself, so this does.
  if !changed.isEmpty && r.hasEncryption then (r.setKeyRotationPending true, changed)
  else (r, changed)

end Room

namespace Server

/-- One built-in room of one owner, in its own transaction. -/
def provisionKind (agent owner : WalletAddress) (s : Server) (kind : RoomKind) :
    Server × List WalletAddress :=
  let id := staticRoomId kind owner
  let room := (s.rooms id).getD (Room.createStatic id kind)
  let p := room.reconcile owner (staticRoster agent owner s.serverAdmins kind)
  ({ s with rooms := fun i => if i = id then some p.1 else s.rooms i }, p.2)

/-- Ensure `owner` has all three rooms and that their rosters are as promised.
    Returns the addresses that moved, without the agent, who holds no socket. -/
def provisionStaticRooms (agentOf : WalletAddress → WalletAddress) (s : Server)
    (owner : WalletAddress) : Server × List WalletAddress :=
  let agent := agentOf owner
  let p := staticRoomKinds.foldl (fun (p : Server × List WalletAddress) kind =>
    let p' := p.1.provisionKind agent owner kind
    (p'.1, p.2 ++ p'.2)) (s, [])
  -- Without a profile row the roster would drop the agent.
  (p.1.upsertUser agent, dedupSorted (p.2.filter (· ≠ agent)))

end Server

/-- A request, a restart under a new configuration, or a provisioning pass. -/
inductive Event where
  | request (q : Request)
  | start (serverAdmins : List WalletAddress)
  | provision (owner : WalletAddress)
deriving DecidableEq, Repr

namespace Server

/-- The state after an event. -/
def stepEvent (agentOf : WalletAddress → WalletAddress) (s : Server) : Event → Server
  | .request q => s.step q
  | .start serverAdmins => { s with serverAdmins := serverAdmins }
  | .provision owner => (s.provisionStaticRooms agentOf owner).1

end Server

namespace Room

@[simp] theorem addAdmin_keys (r : Room) (a : WalletAddress) :
    (r.addAdmin a).keys = r.keys := by
  unfold addAdmin
  split <;> rfl

@[simp] theorem addAdmin_invitations (r : Room) (a : WalletAddress) :
    (r.addAdmin a).invitations = r.invitations := by
  unfold addAdmin
  split <;> rfl

theorem mem_foldl_addMember (roster : List WalletAddress) (r : Room) (a : WalletAddress) :
    a ∈ (roster.foldl addMember r).members ↔ a ∈ r.members ∨ a ∈ roster := by
  induction roster generalizing r with
  | nil => simp
  | cons b roster ih =>
      rw [List.foldl_cons, ih, mem_addMember, List.mem_cons, or_assoc]

theorem foldl_addMember_keys (roster : List WalletAddress) (r : Room) :
    (roster.foldl addMember r).keys = r.keys := by
  induction roster generalizing r with
  | nil => rfl
  | cons b roster ih => rw [List.foldl_cons, ih, addMember_keys]

theorem foldl_addMember_invitations (roster : List WalletAddress) (r : Room) :
    (roster.foldl addMember r).invitations = r.invitations := by
  induction roster generalizing r with
  | nil => rfl
  | cons b roster ih => rw [List.foldl_cons, ih, addMember_invitations]

variable (r : Room) (owner : WalletAddress) (roster : List WalletAddress)

/-- After reconciling, the members are exactly the roster. -/
theorem mem_reconcile (a : WalletAddress) :
    a ∈ (r.reconcile owner roster).1.members ↔ a ∈ roster := by
  have hmem : a ∈ ((roster.foldl addMember (r.addAdmin owner)).dropStrangers roster).members ↔
      a ∈ roster := by
    simp only [dropStrangers, List.mem_filter, mem_foldl_addMember, decide_eq_true_eq]
    exact ⟨fun h => h.2, fun h => ⟨Or.inr h, h⟩⟩
  unfold reconcile
  dsimp only
  split
  · exact hmem
  · exact hmem

/-- Reconciling touches no wrap, not even those of whom it drops. -/
theorem reconcile_keys : (r.reconcile owner roster).1.keys = r.keys := by
  have hkeys : (roster.foldl addMember (r.addAdmin owner)).keys = r.keys := by
    rw [foldl_addMember_keys, addAdmin_keys]
  unfold reconcile
  dsimp only
  split
  · exact hkeys
  · exact hkeys

theorem reconcile_invitations : (r.reconcile owner roster).1.invitations = r.invitations := by
  have hinv : (roster.foldl addMember (r.addAdmin owner)).invitations = r.invitations := by
    rw [foldl_addMember_invitations, addAdmin_invitations]
  unfold reconcile
  dsimp only
  split
  · exact hinv
  · exact hinv

end Room

/-- The three built-in rooms of an owner are three rooms. -/
theorem staticRoomId_inj {kind kind' : RoomKind} {owner : WalletAddress}
    (h : staticRoomId kind owner = staticRoomId kind' owner) : kind = kind' := by
  have hstr := congrArg (fun id : RoomId => (id.str.toList.drop 5).take 4) h
  cases kind <;> cases kind' <;> first | rfl | skip
  all_goals simp [staticRoomId, RoomKind.str, String.toList_append] at hstr

namespace Server

variable (agent owner : WalletAddress)

/-- What one transaction of a pass leaves in a room: the room it reconciled,
    or what was there. -/
theorem rooms_provisionKind (s : Server) (kind : RoomKind) (id : RoomId) :
    (s.provisionKind agent owner kind).1.rooms id =
      if id = staticRoomId kind owner then
        some (((s.rooms id).getD (Room.createStatic id kind)).reconcile owner
          (staticRoster agent owner s.serverAdmins kind)).1
      else s.rooms id := by
  by_cases hid : id = staticRoomId kind owner <;> simp [provisionKind, hid]

theorem rooms_upsertUser (s : Server) (a : WalletAddress) :
    (s.upsertUser a).rooms = s.rooms := by
  unfold upsertUser
  split <;> rfl

/-- The state after a pass, its three transactions written out. -/
theorem provisionStaticRooms_fst (agentOf : WalletAddress → WalletAddress) (s : Server)
    (owner : WalletAddress) :
    (s.provisionStaticRooms agentOf owner).1 =
      ((((s.provisionKind (agentOf owner) owner .note).1.provisionKind (agentOf owner) owner
        .jarvis).1.provisionKind (agentOf owner) owner .lobby).1).upsertUser (agentOf owner) := rfl

/-- A pass reconciles each built-in room of its owner. -/
theorem rooms_provision (agentOf : WalletAddress → WalletAddress) (s : Server)
    {kind : RoomKind} (hkind : kind ∈ staticRoomKinds) :
    (s.provisionStaticRooms agentOf owner).1.rooms (staticRoomId kind owner) =
      some (((s.rooms (staticRoomId kind owner)).getD
        (Room.createStatic (staticRoomId kind owner) kind)).reconcile owner
          (staticRoster (agentOf owner) owner s.serverAdmins kind)).1 := by
  have hne : ∀ k k' : RoomKind, k ≠ k' → staticRoomId k owner ≠ staticRoomId k' owner :=
    fun k k' hk he => hk (staticRoomId_inj he)
  rw [provisionStaticRooms_fst, rooms_upsertUser]
  simp only [rooms_provisionKind]
  have hadmins : ∀ (s : Server) (k : RoomKind),
      (s.provisionKind (agentOf owner) owner k).1.serverAdmins = s.serverAdmins := fun _ _ => rfl
  simp only [hadmins]
  rcases List.mem_cons.1 hkind with rfl | hkind
  · rw [if_neg (hne _ _ (by decide)), if_neg (hne _ _ (by decide)), if_pos rfl]
  rcases List.mem_cons.1 hkind with rfl | hkind
  · rw [if_neg (hne _ _ (by decide)), if_pos rfl, if_neg (hne _ _ (by decide))]
  rcases List.mem_cons.1 hkind with rfl | hkind
  · rw [if_pos rfl, if_neg (hne _ _ (by decide)), if_neg (hne _ _ (by decide))]
  · cases hkind

/-- A pass touches no room but the three of its owner. -/
theorem rooms_provision_other (agentOf : WalletAddress → WalletAddress) (s : Server)
    {id : RoomId} (hid : ∀ kind ∈ staticRoomKinds, id ≠ staticRoomId kind owner) :
    (s.provisionStaticRooms agentOf owner).1.rooms id = s.rooms id := by
  rw [provisionStaticRooms_fst, rooms_upsertUser]
  simp only [rooms_provisionKind]
  rw [if_neg (hid _ (by decide)), if_neg (hid _ (by decide)), if_neg (hid _ (by decide))]

end Server

end PocketSkynet
