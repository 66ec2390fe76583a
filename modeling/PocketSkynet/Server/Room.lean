import PocketSkynet.Core.Api
import PocketSkynet.Lib.Table

/-!
# The Room Record and its Statements

A room with everything that is deleted along with it: its members, admins,
pending invitations, wrapped keys, read pointers and hidden flags. Each
definition below is one SQL statement or one explicit transaction of the
server's `db` layer, the unit that commits on its own.

A wrapped key is one row per member and epoch. `storeKey` replaces the row of
exactly the epoch it names, `deleteUserKeys` drops a person's rows of every
epoch, and `rotate` installs one row per wrap at the next epoch, advances the
room to it and clears the pending flag, all in one transaction.

The theorems say what each statement does to membership, to the wraps and to
the epoch, so that everything above reads rooms through `isMember`,
`keyExists`, `currentKeyVersion` and `keyRotationPending` alone.

## Main definitions

* `Room`: A room and its dependent rows.
* `Room.storeKey`, `Room.deleteUserKeys`, `Room.rotate`: The key statements.
* `Room.addMember`, `Room.removeMember`: The membership statements.
* `Room.holdsKey`: Somebody holds a wrap of the room, at whatever epoch.

## Theorems

* `keyExists_storeKey`, `keyExists_deleteUserKeys`, `keyExists_installWraps`:
  The wraps after each key statement.
* `rotate_cases`: Everything a rotation can do to the room.
-/

namespace PocketSkynet

/-- What sort of conversation a room is. -/
inductive RoomKind where
  | channel
  | dm
  | groupDm
  | note
  | jarvis
  | lobby
deriving DecidableEq, Repr

namespace RoomKind

/-- The stored spelling of a kind. -/
def str : RoomKind → String
  | channel => "channel"
  | dm => "dm"
  | groupDm => "group_dm"
  | note => "note"
  | jarvis => "jarvis"
  | lobby => "lobby"

end RoomKind

/-- The three built-in kinds, in the order a client pins them. -/
def staticRoomKinds : List RoomKind := [.note, .jarvis, .lobby]

/-- The id of one person's built-in room. -/
def staticRoomId (kind : RoomKind) (owner : WalletAddress) : RoomId :=
  ⟨"room_" ++ kind.str ++ "_" ++ owner.str⟩

/-- One wrapped key for one recipient. -/
structure KeyWrap where
  userAddress : WalletAddress
  encryptedSymmetricKey : String
  ephemeralPublicKey : String
  encryptionIv : String
  hmac : String
  encVer : Nat
deriving DecidableEq, Repr

/-- A stored wrap, with the epoch it is for. -/
structure RoomKey where
  wrap : KeyWrap
  keyVersion : Nat
deriving DecidableEq, Repr

/-- The unique key of a stored wrap within its room. -/
def RoomKey.slot (k : RoomKey) : WalletAddress × Nat := (k.wrap.userAddress, k.keyVersion)

/-- A pending invitation. -/
structure Invitation where
  invitedAddress : WalletAddress
  invitedBy : WalletAddress
deriving DecidableEq, Repr

/-- A room and the rows that cascade with it. -/
structure Room where
  id : RoomId
  kind : RoomKind
  currentKeyVersion : Nat
  keyRotationPending : Bool
  members : List WalletAddress
  admins : List WalletAddress
  invitations : List Invitation
  keys : List RoomKey
  reads : List (WalletAddress × Nat)
  hidden : List WalletAddress
deriving DecidableEq, Repr

/-- What a rotation attempt did. -/
inductive RotateOutcome where
  | rotated
  | staleVersion (current : Nat)
deriving DecidableEq, Repr

namespace Room

/-- A conversation that is identified by its member set. -/
def isDirect (r : Room) : Bool := r.kind == .dm || r.kind == .groupDm

/-- One of the rooms the server provisions for every account. -/
def isStatic (r : Room) : Bool := staticRoomKinds.contains r.kind

/-- Why the roster of this room is not for its admins to change, if it is not. -/
def fixedRoster (r : Room) : Option String :=
  if r.isStatic then some "a built-in room"
  else if r.isDirect then some "a direct message"
  else none

/-- The room as `create_room` leaves it: its creator is its member and its admin. -/
def create (id : RoomId) (creator : WalletAddress) : Room :=
  { id := id, kind := .channel, currentKeyVersion := 1, keyRotationPending := false,
    members := [creator], admins := [creator], invitations := [], keys := [], reads := [],
    hidden := [] }

/-! ### Membership -/

def isMember (r : Room) (a : WalletAddress) : Bool := decide (a ∈ r.members)

/-- Seat a member, idempotently. -/
def addMember (r : Room) (a : WalletAddress) : Room :=
  if r.isMember a then r else { r with members := r.members ++ [a] }

/-- Remove a member, along with their read pointer and hidden flag. -/
def removeMember (r : Room) (a : WalletAddress) : Room :=
  { r with
    members := r.members.filter (· ≠ a)
    reads := r.reads.filter (·.1 ≠ a)
    hidden := r.hidden.filter (· ≠ a) }

/-! ### Admins -/

def isAdmin (r : Room) (a : WalletAddress) : Bool := decide (a ∈ r.admins)

def adminCount (r : Room) : Nat := r.admins.length

def removeAdmin (r : Room) (a : WalletAddress) : Room :=
  { r with admins := r.admins.filter (· ≠ a) }

/-! ### Invitations -/

def hasPendingInvitation (r : Room) (a : WalletAddress) : Bool :=
  (Table.lookup Invitation.invitedAddress a r.invitations).isSome

/-- Record a pending invitation. Inviting again changes nothing. -/
def createInvitation (r : Room) (invitee inviter : WalletAddress) : Room :=
  { r with invitations :=
      Table.insertNew Invitation.invitedAddress ⟨invitee, inviter⟩ r.invitations }

def deleteInvitation (r : Room) (a : WalletAddress) : Room :=
  { r with invitations := Table.erase Invitation.invitedAddress a r.invitations }

/-! ### Keys -/

/-- Anyone holds a wrap for this room, at any epoch. -/
def hasEncryption (r : Room) : Bool := !r.keys.isEmpty

def keyExists (r : Room) (a : WalletAddress) (version : Nat) : Bool :=
  (Table.lookup RoomKey.slot (a, version) r.keys).isSome

/-- Store one wrap, replacing whatever occupied that exact epoch. -/
def storeKey (r : Room) (wrap : KeyWrap) (version : Nat) : Room :=
  { r with keys := Table.upsert RoomKey.slot ⟨wrap, version⟩ r.keys }

/-- Drop every wrap of one person, across all epochs. -/
def deleteUserKeys (r : Room) (a : WalletAddress) : Room :=
  { r with keys := r.keys.filter (·.wrap.userAddress ≠ a) }

def setKeyRotationPending (r : Room) (pending : Bool) : Room :=
  { r with keyRotationPending := pending }

/-- Store each wrap in turn, all at one epoch. -/
def installWraps (r : Room) (wraps : List KeyWrap) (version : Nat) : Room :=
  wraps.foldl (fun r w => r.storeKey w version) r

/-- Advance the room to `newVersion`, exactly one step, installing the wraps. -/
def rotate (r : Room) (newVersion : Nat) (wraps : List KeyWrap) : RotateOutcome × Room :=
  if newVersion ≠ r.currentKeyVersion + 1 then (.staleVersion r.currentKeyVersion, r)
  else
    (.rotated, { r.installWraps wraps newVersion with
      currentKeyVersion := newVersion, keyRotationPending := false })

/-- The address has a wrap of this room, at whatever epoch. -/
def holdsKey (r : Room) (a : WalletAddress) : Prop := ∃ v, r.keyExists a v = true

/-! ### What the statements do to membership -/

theorem isMember_iff (r : Room) (a : WalletAddress) : r.isMember a = true ↔ a ∈ r.members :=
  decide_eq_true_iff

theorem mem_addMember (r : Room) (a b : WalletAddress) :
    b ∈ (r.addMember a).members ↔ b ∈ r.members ∨ b = a := by
  unfold addMember
  by_cases h : r.isMember a
  · rw [if_pos h]
    constructor
    · exact Or.inl
    · rintro (hb | rfl)
      · exact hb
      · exact (isMember_iff r b).1 h
  · rw [if_neg h]
    simp

theorem mem_removeMember (r : Room) (a b : WalletAddress) :
    b ∈ (r.removeMember a).members ↔ b ∈ r.members ∧ b ≠ a := by
  simp [removeMember]

section Frame

variable (r : Room) (a b : WalletAddress) (w : KeyWrap) (v : Nat) (p : Bool)

@[simp] theorem addMember_keys : (r.addMember a).keys = r.keys := by
  unfold addMember; split <;> rfl

@[simp] theorem addMember_currentKeyVersion :
    (r.addMember a).currentKeyVersion = r.currentKeyVersion := by
  unfold addMember; split <;> rfl

@[simp] theorem addMember_keyRotationPending :
    (r.addMember a).keyRotationPending = r.keyRotationPending := by
  unfold addMember; split <;> rfl

@[simp] theorem addMember_invitations : (r.addMember a).invitations = r.invitations := by
  unfold addMember; split <;> rfl

@[simp] theorem removeMember_keys : (r.removeMember a).keys = r.keys := rfl

@[simp] theorem removeMember_currentKeyVersion :
    (r.removeMember a).currentKeyVersion = r.currentKeyVersion := rfl

@[simp] theorem removeMember_keyRotationPending :
    (r.removeMember a).keyRotationPending = r.keyRotationPending := rfl

@[simp] theorem removeMember_invitations : (r.removeMember a).invitations = r.invitations := rfl

@[simp] theorem removeAdmin_keys : (r.removeAdmin a).keys = r.keys := rfl

@[simp] theorem removeAdmin_members : (r.removeAdmin a).members = r.members := rfl

@[simp] theorem removeAdmin_currentKeyVersion :
    (r.removeAdmin a).currentKeyVersion = r.currentKeyVersion := rfl

@[simp] theorem removeAdmin_keyRotationPending :
    (r.removeAdmin a).keyRotationPending = r.keyRotationPending := rfl

@[simp] theorem removeAdmin_invitations : (r.removeAdmin a).invitations = r.invitations := rfl

@[simp] theorem deleteInvitation_keys : (r.deleteInvitation a).keys = r.keys := rfl

@[simp] theorem deleteInvitation_members : (r.deleteInvitation a).members = r.members := rfl

@[simp] theorem deleteInvitation_currentKeyVersion :
    (r.deleteInvitation a).currentKeyVersion = r.currentKeyVersion := rfl

@[simp] theorem deleteInvitation_keyRotationPending :
    (r.deleteInvitation a).keyRotationPending = r.keyRotationPending := rfl

@[simp] theorem createInvitation_keys : (r.createInvitation a b).keys = r.keys := rfl

@[simp] theorem createInvitation_members : (r.createInvitation a b).members = r.members := rfl

@[simp] theorem createInvitation_currentKeyVersion :
    (r.createInvitation a b).currentKeyVersion = r.currentKeyVersion := rfl

@[simp] theorem createInvitation_keyRotationPending :
    (r.createInvitation a b).keyRotationPending = r.keyRotationPending := rfl

@[simp] theorem storeKey_members : (r.storeKey w v).members = r.members := rfl

@[simp] theorem storeKey_invitations : (r.storeKey w v).invitations = r.invitations := rfl

@[simp] theorem storeKey_currentKeyVersion :
    (r.storeKey w v).currentKeyVersion = r.currentKeyVersion := rfl

@[simp] theorem storeKey_keyRotationPending :
    (r.storeKey w v).keyRotationPending = r.keyRotationPending := rfl

@[simp] theorem deleteUserKeys_members : (r.deleteUserKeys a).members = r.members := rfl

@[simp] theorem deleteUserKeys_invitations :
    (r.deleteUserKeys a).invitations = r.invitations := rfl

@[simp] theorem deleteUserKeys_currentKeyVersion :
    (r.deleteUserKeys a).currentKeyVersion = r.currentKeyVersion := rfl

@[simp] theorem deleteUserKeys_keyRotationPending :
    (r.deleteUserKeys a).keyRotationPending = r.keyRotationPending := rfl

@[simp] theorem setKeyRotationPending_keys : (r.setKeyRotationPending p).keys = r.keys := rfl

@[simp] theorem setKeyRotationPending_members :
    (r.setKeyRotationPending p).members = r.members := rfl

@[simp] theorem setKeyRotationPending_invitations :
    (r.setKeyRotationPending p).invitations = r.invitations := rfl

@[simp] theorem setKeyRotationPending_currentKeyVersion :
    (r.setKeyRotationPending p).currentKeyVersion = r.currentKeyVersion := rfl

@[simp] theorem setKeyRotationPending_keyRotationPending :
    (r.setKeyRotationPending p).keyRotationPending = p := rfl

end Frame

/-! ### Invitations -/

theorem hasPendingInvitation_createInvitation (r : Room) (a b c : WalletAddress) :
    (r.createInvitation a b).hasPendingInvitation c = true ↔
      r.hasPendingInvitation c = true ∨ c = a := by
  unfold hasPendingInvitation createInvitation
  rw [Table.lookup_insertNew]
  by_cases h : c = a <;> simp [h]

theorem hasPendingInvitation_deleteInvitation (r : Room) (a c : WalletAddress) :
    (r.deleteInvitation a).hasPendingInvitation c = true ↔
      r.hasPendingInvitation c = true ∧ c ≠ a := by
  unfold hasPendingInvitation deleteInvitation
  rw [Table.lookup_erase]
  by_cases h : c = a <;> simp [h]

/-! ### Wraps -/

theorem keyExists_iff (r : Room) (a : WalletAddress) (v : Nat) :
    r.keyExists a v = true ↔ ∃ k ∈ r.keys, k.wrap.userAddress = a ∧ k.keyVersion = v := by
  simp [keyExists, Table.lookup_isSome, RoomKey.slot]

theorem keyExists_congr {r r' : Room} (h : r'.keys = r.keys) (a : WalletAddress) (v : Nat) :
    r'.keyExists a v = r.keyExists a v := by
  rw [keyExists, keyExists, h]

theorem hasEncryption_congr {r r' : Room} (h : r'.keys = r.keys) :
    r'.hasEncryption = r.hasEncryption := by
  rw [hasEncryption, hasEncryption, h]

/-- A room is keyed exactly when somebody holds a wrap. -/
theorem hasEncryption_iff (r : Room) :
    r.hasEncryption = true ↔ ∃ a v, r.keyExists a v = true := by
  simp only [hasEncryption, keyExists_iff, Bool.not_eq_true', List.isEmpty_eq_false_iff]
  constructor
  · intro h
    obtain ⟨k, hk⟩ := List.exists_mem_of_ne_nil r.keys h
    exact ⟨k.wrap.userAddress, k.keyVersion, k, hk, rfl, rfl⟩
  · rintro ⟨-, -, k, hk, -, -⟩
    exact List.ne_nil_of_mem hk

theorem keyExists_storeKey (r : Room) (w : KeyWrap) (v : Nat) (a : WalletAddress) (v' : Nat) :
    (r.storeKey w v).keyExists a v' = true ↔
      r.keyExists a v' = true ∨ (a = w.userAddress ∧ v' = v) := by
  unfold keyExists storeKey
  rw [Table.lookup_upsert]
  by_cases h : (a, v') = RoomKey.slot ⟨w, v⟩
  · rw [if_pos h]
    simpa using Or.inr (Prod.mk.inj h)
  · rw [if_neg h]
    have hne : ¬ (a = w.userAddress ∧ v' = v) := fun he => h (Prod.ext he.1 he.2)
    simp [hne]

theorem keyExists_deleteUserKeys (r : Room) (a b : WalletAddress) (v : Nat) :
    (r.deleteUserKeys a).keyExists b v = true ↔ r.keyExists b v = true ∧ b ≠ a := by
  simp only [keyExists_iff, deleteUserKeys, List.mem_filter]
  constructor
  · rintro ⟨k, ⟨hk, hne⟩, rfl, rfl⟩
    exact ⟨⟨k, hk, rfl, rfl⟩, by simpa using hne⟩
  · rintro ⟨⟨k, hk, rfl, rfl⟩, hne⟩
    exact ⟨k, ⟨hk, by simpa using hne⟩, rfl, rfl⟩

theorem keyExists_installWraps (wraps : List KeyWrap) (r : Room) (v : Nat) (a : WalletAddress)
    (v' : Nat) :
    (r.installWraps wraps v).keyExists a v' = true ↔
      r.keyExists a v' = true ∨ (a ∈ wraps.map KeyWrap.userAddress ∧ v' = v) := by
  induction wraps generalizing r with
  | nil => simp [installWraps]
  | cons w ws ih =>
      have hstep := ih (r.storeKey w v)
      simp only [installWraps, List.foldl_cons] at hstep ⊢
      rw [hstep, keyExists_storeKey, List.map_cons, List.mem_cons]
      tauto

/-- Installing wraps touches nothing but the wraps. -/
theorem installWraps_eq (wraps : List KeyWrap) (r : Room) (v : Nat) :
    r.installWraps wraps v = { r with keys := (r.installWraps wraps v).keys } := by
  induction wraps generalizing r with
  | nil => rfl
  | cons w ws ih => exact ih (r.storeKey w v)

/-- A rotation is refused and changes nothing, or it moves the room exactly one
    epoch on, clears the flag and adds one wrap per recipient at that epoch. -/
theorem rotate_cases (r : Room) (newVersion : Nat) (wraps : List KeyWrap) :
    (newVersion ≠ r.currentKeyVersion + 1 ∧
      r.rotate newVersion wraps = (.staleVersion r.currentKeyVersion, r)) ∨
    (newVersion = r.currentKeyVersion + 1 ∧
      r.rotate newVersion wraps = (.rotated, { r with
        keys := (r.installWraps wraps newVersion).keys
        currentKeyVersion := newVersion
        keyRotationPending := false })) := by
  by_cases h : newVersion = r.currentKeyVersion + 1
  · refine Or.inr ⟨h, ?_⟩
    unfold rotate
    rw [if_neg (not_not_intro h), installWraps_eq]
  · exact Or.inl ⟨h, if_pos h⟩

end Room

end PocketSkynet
