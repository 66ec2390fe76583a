import PocketSkynet.Lib.Firsts
import PocketSkynet.Server.Sample

/-!
# The Rows of the Built-in Rooms

Everybody has three rooms whose members are not a record of who joined but a function of the
owner and of the configuration: a note with its owner, a room with the owner's agent, and a
lobby with whoever administers the server. A pass makes the tables say so, whatever an earlier
configuration left in them. It goes through the three rooms one transaction after the other,
seats who is missing, drops who is no longer named, and asks for a new key where somebody
moved in a room that has one.

The configuration is text, so that the members are texts too, and nothing says that they are
addresses. Lowering the case of a text is Unicode's to say; what is used of it is that it
leaves a lowered text alone, and an address.

## Main definitions

* `Lowering`: The lower case of a text.
* `serverAdmins`: Who the configuration names.
* `StaticTables`: The tables a pass reads and writes.
* `StaticTables.reconcileRoom`: One room in one transaction.
* `StaticTables.provision`: A pass.
* `Promised`: Who a built-in room is for.
* `StaticTables.Settled`: A room is as it should be.

## Theorems

* `reconcileRoom_eq`: A transaction, its loop written out.
* `isMember_settle`: Its members are its roster.
* `isPending_flagMoved`: Where the flag goes up.
-/

namespace PocketSkynet

namespace Rosters

/-- The lower case of a text. -/
structure Lowering where
  toLowercase : String → String
  lowered : ∀ s, toLowercase (toLowercase s) = toLowercase s
  address : ∀ a : WalletAddress, toLowercase a.str = a.str

/-- The wallets the configuration names as administrators, its entries parted by commas. -/
def serverAdmins (low : Lowering) (configured : Option String) : List String :=
  match configured with
  | none => []
  | some raw =>
      (((raw.toList.splitOn ',').map fun entry =>
        low.toLowercase (String.ofList (trim entry))).filter fun entry => entry ≠ "")

/-! ### Rows -/

structure RoomRow where
  id : RoomId
  name : String
  kind : RoomKind
  currentKeyVersion : Nat
  keyRotationPending : Bool
  createdAt : Nat
deriving DecidableEq, Repr

structure SerialRow where
  roomId : RoomId
  nextSerial : Nat
deriving DecidableEq, Repr

structure MemberRow where
  roomId : RoomId
  userAddress : String
  joinedAt : Nat
deriving DecidableEq, Repr

structure AdminRow where
  roomId : RoomId
  walletAddress : String
  createdAt : Nat
deriving DecidableEq, Repr

structure ReadRow where
  roomId : RoomId
  userAddress : String
  lastReadSerial : Nat
  updatedAt : Nat
deriving DecidableEq, Repr

structure HiddenRow where
  roomId : RoomId
  userAddress : String
  createdAt : Nat
deriving DecidableEq, Repr

/-- A wrap, by whom and for which epoch it is. -/
structure WrapRow where
  roomId : RoomId
  userAddress : String
  keyVersion : Nat
deriving DecidableEq, Repr

structure UserRow where
  walletAddress : String
  username : String
  publicKey : Option String
  publicKeySig : Option String
  profileImage : Option String
  createdAt : Nat
  updatedAt : Nat
deriving DecidableEq, Repr

/-- The tables a pass reads and writes. -/
structure StaticTables where
  rooms : List RoomRow
  serials : List SerialRow
  members : List MemberRow
  admins : List AdminRow
  reads : List ReadRow
  hidden : List HiddenRow
  wraps : List WrapRow
  users : List UserRow
deriving DecidableEq, Repr

/-! ### Rosters -/

/-- What a client shows for a built-in room. -/
def staticRoomName : RoomKind → String
  | .note => "My Note"
  | .jarvis => "My Jarvis"
  | .lobby => "My Lobby"
  | _ => "Room"

/-- The id of one person's built-in room. -/
def staticRoomId (low : Lowering) (kind : RoomKind) (owner : String) : RoomId :=
  ⟨"room_" ++ kind.str ++ "_" ++ low.toLowercase owner⟩

/-- Each member once, case aside, in canonical order. -/
def dedupSorted (low : Lowering) (members : List String) : List String :=
  (keepUnseen low.toLowercase [] members).insertionSort (· ≤ ·)

/-- The roster a kind promises, owner first. -/
def staticRoster (low : Lowering) (agent owner : String) (admins : List String)
    (kind : RoomKind) : List String :=
  dedupSorted low (low.toLowercase owner ::
    match kind with
    | .jarvis => [agent]
    | .lobby => admins
    | _ => [])

namespace StaticTables

/-! ### Statements -/

def isMember (t : StaticTables) (id : RoomId) (a : String) : Bool :=
  t.members.any fun m => m.roomId = id ∧ m.userAddress = a

/-- Anyone holds a wrap for this room, at any epoch. -/
def hasEncryption (t : StaticTables) (id : RoomId) : Bool := t.wraps.any (·.roomId = id)

def isPending (t : StaticTables) (id : RoomId) : Bool :=
  t.rooms.any fun r => r.id = id ∧ r.keyRotationPending

def insertRoom (t : StaticTables) (id : RoomId) (kind : RoomKind) (now : Nat) : StaticTables :=
  { t with
    rooms := Table.insertNew RoomRow.id
      { id := id, name := staticRoomName kind, kind := kind, currentKeyVersion := 1,
        keyRotationPending := false, createdAt := now } t.rooms }

def insertSerial (t : StaticTables) (id : RoomId) (now : Nat) : StaticTables :=
  { t with serials := Table.insertNew SerialRow.roomId ⟨id, now⟩ t.serials }

def insertAdmin (t : StaticTables) (id : RoomId) (a : String) (now : Nat) : StaticTables :=
  { t with admins :=
      Table.insertNew (fun r => (r.roomId, r.walletAddress)) ⟨id, a, now⟩ t.admins }

/-- The rows a built-in room has whoever its members are. -/
def ensureRows (t : StaticTables) (id : RoomId) (kind : RoomKind) (owner : String) (now : Nat) :
    StaticTables :=
  ((t.insertRoom id kind now).insertSerial id now).insertAdmin id owner now

/-- Add members to a room. -/
def insertMembers (t : StaticTables) (id : RoomId) (now : Nat) (added : List String) :
    StaticTables :=
  { t with members := t.members ++ added.map fun a => ⟨id, a, now⟩ }

/-- Seat one member of a roster, and note who was seated. -/
def seat (id : RoomId) (now : Nat) (p : StaticTables × List String) (member : String) :
    StaticTables × List String :=
  if p.1.isMember id member then p
  else (p.1.insertMembers id now [member], p.2 ++ [member])

/-- The members of a room its roster does not name. -/
def strangers (t : StaticTables) (id : RoomId) (roster : List String) : List String :=
  (t.members.filter fun m => m.roomId = id ∧ m.userAddress ∉ roster).map MemberRow.userAddress

/-- Drop them, along with their read pointer and hidden flag. -/
def dropStrangers (t : StaticTables) (id : RoomId) (roster : List String) : StaticTables :=
  { t with
    members := t.members.filter fun m => ¬ (m.roomId = id ∧ m.userAddress ∉ roster)
    reads := t.reads.filter fun r => ¬ (r.roomId = id ∧ r.userAddress ∉ roster)
    hidden := t.hidden.filter fun h => ¬ (h.roomId = id ∧ h.userAddress ∉ roster) }

def setKeyRotationPending (t : StaticTables) (id : RoomId) : StaticTables :=
  { t with rooms :=
      t.rooms.map fun r => if r.id = id then { r with keyRotationPending := true } else r }

/-- Create or update a profile row, without touching its keys. -/
def upsertUser (t : StaticTables) (a username : String) (now : Nat) : StaticTables :=
  { t with
    users :=
      if (Table.lookup UserRow.walletAddress a t.users).isSome then
        Table.modify UserRow.walletAddress a
          (fun u => { u with username := username, updatedAt := now }) t.users
      else t.users ++ [⟨a, username, none, none, none, now, now⟩] }

/-! ### A pass -/

/-- Whoever moves asks for a new key, if the room has one. -/
def flagMoved (t : StaticTables) (id : RoomId) (moved : List String) : StaticTables :=
  if !moved.isEmpty && t.hasEncryption id then t.setKeyRotationPending id else t

/-- One room in one transaction, and who has moved in it. -/
def reconcileRoom (t : StaticTables) (id : RoomId) (kind : RoomKind) (owner : String)
    (roster : List String) (now : Nat) : StaticTables × List String :=
  let t := t.ensureRows id kind owner now
  let p := roster.foldl (seat id now) (t, [])
  let moved := p.2 ++ p.1.strangers id roster
  ((p.1.dropStrangers id roster).flagMoved id moved, moved)

/-- One built-in room of an owner. -/
def provisionKind (low : Lowering) (agent owner : String) (admins : List String)
    (now : RoomKind → Nat) (t : StaticTables) (kind : RoomKind) : StaticTables × List String :=
  t.reconcileRoom (staticRoomId low kind owner) kind (low.toLowercase owner)
    (staticRoster low agent owner admins kind) (now kind)

/-- The next built-in room of an owner, with whoever has moved so far. -/
def provisionNext (low : Lowering) (agent owner : String) (admins : List String)
    (now : RoomKind → Nat) (p : StaticTables × List String) (kind : RoomKind) :
    StaticTables × List String :=
  let q := provisionKind low agent owner admins now p.1 kind
  (q.1, p.2 ++ q.2)

/-- Ensure that an owner has all three rooms and that their members are who they are for. Says
    whose membership changed, without the agent, who holds no socket. -/
def provision (low : Lowering) (agentOf : WalletAddress → WalletAddress) (now : RoomKind → Nat)
    (later : Nat) (t : StaticTables) (owner : String) (admins : List String) :
    Except ApiError (StaticTables × List String) := do
  let wallet ← (WalletAddress.new owner).mapError fun e => .internal e.message
  let agent := (agentOf wallet).str
  let p := staticRoomKinds.foldl (provisionNext low agent owner admins now) (t, [])
  return (p.1.upsertUser agent "Jarvis" later, keysUp (· ≤ ·) (p.2.filter (· ≠ agent)))

end StaticTables

/-! ### Who a room is for -/

/-- Who a built-in room is for. -/
def Promised (agent owner : String) (admins : List String) : RoomKind → String → Prop
  | .jarvis, a => a = owner ∨ a = agent
  | .lobby, a => a = owner ∨ a ∈ admins
  | _, a => a = owner

variable {low : Lowering}

-- What the configuration names is in lower case.
theorem lowered_of_mem_serverAdmins {configured : Option String} {a : String}
    (h : a ∈ serverAdmins low configured) : low.toLowercase a = a := by
  cases configured with
  | none => exact absurd h List.not_mem_nil
  | some raw =>
      rcases List.mem_map.1 (List.mem_filter.1 h).1 with ⟨entry, -, rfl⟩
      exact low.lowered _

-- Of lowered texts each is kept.
theorem mem_dedupSorted {members : List String} (h : ∀ a ∈ members, low.toLowercase a = a)
    (a : String) : a ∈ dedupSorted low members ↔ a ∈ members := by
  rw [dedupSorted, (List.perm_insertionSort _ _).mem_iff, mem_keepUnseen [] members]
  · simp
  · intro b hb c hc hkey
    rwa [h b hb, h c hc] at hkey

theorem nodup_staticRoster (agent owner : String) (admins : List String) (kind : RoomKind) :
    (staticRoster low agent owner admins kind).Nodup :=
  (List.perm_insertionSort _ _).nodup_iff.2 (nodup_keepUnseen [] _).1.of_map

/-- The roster of a room is who it is for. -/
theorem mem_staticRoster {agent owner : WalletAddress} {configured : Option String}
    {kind : RoomKind} (a : String) :
    a ∈ staticRoster low agent.str owner.str (serverAdmins low configured) kind ↔
      Promised agent.str owner.str (serverAdmins low configured) kind a := by
  have hlowered : ∀ rest : List String, (∀ x ∈ rest, low.toLowercase x = x) →
      (a ∈ dedupSorted low (low.toLowercase owner.str :: rest) ↔ a = owner.str ∨ a ∈ rest) := by
    intro rest hrest
    rw [mem_dedupSorted, List.mem_cons, low.address]
    intro x hx
    rcases List.mem_cons.1 hx with rfl | hx
    · exact low.lowered _
    · exact hrest x hx
  unfold staticRoster
  rw [hlowered]
  · cases kind <;> simp [Promised]
  · intro x hx
    cases kind with
    | jarvis => exact List.mem_singleton.1 hx ▸ low.address agent
    | lobby => exact lowered_of_mem_serverAdmins hx
    | _ => exact absurd hx List.not_mem_nil

-- The three rooms of an owner are three rooms.
theorem staticRoomId_injective {kind kind' : RoomKind} {owner : String}
    (h : staticRoomId low kind owner = staticRoomId low kind' owner) : kind = kind' := by
  have hstr := congrArg (fun id : RoomId => (id.str.toList.drop 5).take 4) h
  cases kind <;> cases kind' <;> first | rfl | skip
  all_goals simp [staticRoomId, RoomKind.str, String.toList_append] at hstr

namespace StaticTables

/-! ### One transaction -/

variable {t t' : StaticTables} {id : RoomId} {roster : List String} {now : Nat}

theorem isMember_iff {a : String} :
    t.isMember id a = true ↔ ∃ m ∈ t.members, m.roomId = id ∧ m.userAddress = a := by
  simp [isMember]

theorem isMember_insertMembers {added : List String} {i : RoomId} {a : String} :
    (t.insertMembers id now added).isMember i a = true ↔
      t.isMember i a = true ∨ i = id ∧ a ∈ added := by
  simp only [isMember_iff, insertMembers, List.mem_append, List.mem_map]
  constructor
  · rintro ⟨m, hm | ⟨b, hb, rfl⟩, hid, ha⟩
    · exact Or.inl ⟨m, hm, hid, ha⟩
    · exact Or.inr ⟨hid.symm, ha ▸ hb⟩
  · rintro (⟨m, hm, hid, ha⟩ | ⟨rfl, ha⟩)
    · exact ⟨m, Or.inl hm, hid, ha⟩
    · exact ⟨⟨i, a, now⟩, Or.inr ⟨a, ha, rfl⟩, rfl, rfl⟩

/-- Who of a roster is not a member. -/
def missing (t : StaticTables) (id : RoomId) (roster : List String) : List String :=
  roster.filter fun a => !t.isMember id a

theorem mem_missing {a : String} :
    a ∈ t.missing id roster ↔ a ∈ roster ∧ t.isMember id a = false := by
  simp [missing]

/-- Whoever of a roster is not a member is seated, in order. -/
theorem foldl_seat (hroster : roster.Nodup) (t : StaticTables) (before : List String) :
    roster.foldl (seat id now) (t, before) =
      (t.insertMembers id now (t.missing id roster), before ++ t.missing id roster) := by
  induction roster generalizing t before with
  | nil => simp [missing, insertMembers]
  | cons b roster ih =>
      rcases List.nodup_cons.1 hroster with ⟨hb, hrest⟩
      rw [List.foldl_cons]
      cases hmember : t.isMember id b with
      | true =>
          have hrow : t.missing id (b :: roster) = t.missing id roster := by
            simp [missing, hmember]
          rw [seat, if_pos hmember, ih hrest, hrow]
      | false =>
          -- Seating one changes nothing for the others, who are not the same.
          have hothers : (t.insertMembers id now [b]).missing id roster = t.missing id roster := by
            refine List.filter_congr fun a ha => ?_
            have hsame : (t.insertMembers id now [b]).isMember id a = t.isMember id a := by
              rw [Bool.eq_iff_iff, isMember_insertMembers, List.mem_singleton]
              exact or_iff_left fun h => hb (h.2 ▸ ha)
            rw [hsame]
          have hrow : t.missing id (b :: roster) = b :: t.missing id roster := by
            simp [missing, hmember]
          rw [seat, if_neg (by simp [hmember]), ih hrest, hothers, hrow]
          simp [insertMembers]

theorem mem_strangers {a : String} :
    a ∈ t.strangers id roster ↔ t.isMember id a = true ∧ a ∉ roster := by
  rw [isMember_iff]
  simp only [strangers, List.mem_map, List.mem_filter, decide_eq_true_eq]
  constructor
  · rintro ⟨m, ⟨hm, hid, hout⟩, rfl⟩
    exact ⟨⟨m, hm, hid, rfl⟩, hout⟩
  · rintro ⟨⟨m, hm, hid, rfl⟩, hout⟩
    exact ⟨m, ⟨hm, hid, hout⟩, rfl⟩

/-- The read pointers of one member of a room. -/
def readsOf (t : StaticTables) (id : RoomId) (a : String) : List ReadRow :=
  t.reads.filter fun r => r.roomId = id ∧ r.userAddress = a

/-- The hidden flags of one member of a room. -/
def hiddenOf (t : StaticTables) (id : RoomId) (a : String) : List HiddenRow :=
  t.hidden.filter fun h => h.roomId = id ∧ h.userAddress = a

/-- A room is as it should be: it exists, its members are its roster, and nothing is kept for
    anybody else. -/
structure Settled (t : StaticTables) (id : RoomId) (owner : String) (roster : List String) :
    Prop where
  room : ∃ r ∈ t.rooms, r.id = id
  serial : ∃ r ∈ t.serials, r.roomId = id
  admin : ∃ r ∈ t.admins, (r.roomId, r.walletAddress) = (id, owner)
  members : ∀ a, t.isMember id a = true ↔ a ∈ roster
  reads : ∀ r ∈ t.reads, r.roomId = id → r.userAddress ∈ roster
  hidden : ∀ h ∈ t.hidden, h.roomId = id → h.userAddress ∈ roster

section Room

variable (t : StaticTables) (id : RoomId) (kind : RoomKind) (owner : String)
  (roster : List String) (now : Nat)

/-- Who moves in the transaction of a room. -/
def movers : List String := t.missing id roster ++ t.strangers id roster

theorem mem_movers {a : String} :
    a ∈ t.movers id roster ↔ ¬ (t.isMember id a = true ↔ a ∈ roster) := by
  rw [movers, List.mem_append, mem_missing, mem_strangers]
  by_cases hin : a ∈ roster <;> cases hmember : t.isMember id a <;> simp [hin]

/-- The members, once everybody is seated and the strangers are gone. -/
def settle (t : StaticTables) : StaticTables :=
  ((t.ensureRows id kind owner now).insertMembers id now (t.missing id roster)).dropStrangers id
    roster

variable {roster} in
/-- A transaction, its loop over the roster written out. -/
theorem reconcileRoom_eq (hroster : roster.Nodup) :
    t.reconcileRoom id kind owner roster now =
      ((settle id kind owner roster now t).flagMoved id (t.movers id roster),
        t.movers id roster) := by
  have hseat : roster.foldl (seat id now) (t.ensureRows id kind owner now, []) =
      ((t.ensureRows id kind owner now).insertMembers id now (t.missing id roster),
        t.missing id roster) := foldl_seat hroster (t.ensureRows id kind owner now) []
  -- Nobody who has just been seated is a stranger.
  have hstrangers : ((t.ensureRows id kind owner now).insertMembers id now
      (t.missing id roster)).strangers id roster = t.strangers id roster := by
    have hnone : ((t.missing id roster).map fun a => (⟨id, a, now⟩ : MemberRow)).filter
        (fun m => m.roomId = id ∧ m.userAddress ∉ roster) = [] := by
      refine List.filter_eq_nil_iff.2 fun m hm => ?_
      rcases List.mem_map.1 hm with ⟨a, ha, rfl⟩
      simp [(mem_missing.1 ha).1]
    rw [strangers, strangers, insertMembers, List.filter_append, hnone, List.append_nil]
    rfl
  unfold reconcileRoom
  simp only
  rw [hseat]
  simp only [hstrangers]
  rfl

section Flag

variable (moved : List String)

@[simp] theorem flagMoved_members : (t.flagMoved id moved).members = t.members := by
  unfold flagMoved
  split <;> rfl

@[simp] theorem flagMoved_reads : (t.flagMoved id moved).reads = t.reads := by
  unfold flagMoved
  split <;> rfl

@[simp] theorem flagMoved_hidden : (t.flagMoved id moved).hidden = t.hidden := by
  unfold flagMoved
  split <;> rfl

@[simp] theorem flagMoved_serials : (t.flagMoved id moved).serials = t.serials := by
  unfold flagMoved
  split <;> rfl

@[simp] theorem flagMoved_admins : (t.flagMoved id moved).admins = t.admins := by
  unfold flagMoved
  split <;> rfl

@[simp] theorem flagMoved_wraps : (t.flagMoved id moved).wraps = t.wraps := by
  unfold flagMoved
  split <;> rfl

@[simp] theorem flagMoved_users : (t.flagMoved id moved).users = t.users := by
  unfold flagMoved
  split <;> rfl

theorem exists_flagMoved {i : RoomId} :
    (∃ r ∈ (t.flagMoved id moved).rooms, r.id = i) ↔ ∃ r ∈ t.rooms, r.id = i := by
  have hid : ∀ r : RoomRow,
      (if r.id = id then { r with keyRotationPending := true } else r).id = r.id := by
    intro r
    by_cases h : r.id = id <;> simp [h]
  unfold flagMoved
  split
  · simp only [setKeyRotationPending, List.mem_map, exists_exists_and_eq_and, hid]
  · exact Iff.rfl

/-- The flag goes up where somebody moved in a room that has a key, and nowhere down. -/
theorem isPending_flagMoved (hroom : ∃ r ∈ t.rooms, r.id = id) {i : RoomId} :
    (t.flagMoved id moved).isPending i = true ↔ t.isPending i = true ∨
      i = id ∧ t.hasEncryption id = true ∧ ∃ a, a ∈ moved := by
  have hmoved : (!moved.isEmpty) = true ↔ ∃ a, a ∈ moved := by
    cases moved <;> simp
  unfold flagMoved
  by_cases hflag : (!moved.isEmpty && t.hasEncryption id) = true
  · rw [if_pos hflag]
    rw [Bool.and_eq_true, hmoved] at hflag
    simp only [isPending, setKeyRotationPending, List.any_map, List.any_eq_true,
      Function.comp_apply, decide_eq_true_eq]
    constructor
    · rintro ⟨r, hr, hrow⟩
      by_cases hrid : r.id = id
      · rw [if_pos hrid] at hrow
        exact Or.inr ⟨hrow.1.symm.trans hrid, hflag.2, hflag.1⟩
      · rw [if_neg hrid] at hrow
        exact Or.inl ⟨r, hr, hrow⟩
    · rintro (⟨r, hr, hrow⟩ | ⟨rfl, -, -⟩)
      · refine ⟨r, hr, ?_⟩
        by_cases hrid : r.id = id
        · rw [if_pos hrid]
          exact ⟨hrow.1, rfl⟩
        · rw [if_neg hrid]
          exact hrow
      · rcases hroom with ⟨r, hr, hrid⟩
        refine ⟨r, hr, ?_⟩
        rw [if_pos hrid]
        exact ⟨hrid, rfl⟩
  · rw [if_neg hflag]
    rw [Bool.and_eq_true, hmoved] at hflag
    exact (or_iff_left fun h => hflag ⟨h.2.2, h.2.1⟩).symm

end Flag

section Settle

/-- The members of the room are its roster, and other rooms keep theirs. -/
theorem isMember_settle {i : RoomId} {a : String} :
    (settle id kind owner roster now t).isMember i a = true ↔
      if i = id then a ∈ roster else t.isMember i a = true := by
  have hdrop : (settle id kind owner roster now t).isMember i a = true ↔
      ((t.insertMembers id now (t.missing id roster)).isMember i a = true ∧
        ¬ (i = id ∧ a ∉ roster)) := by
    simp only [isMember_iff, settle, dropStrangers, List.mem_filter, decide_eq_true_eq]
    constructor
    · rintro ⟨m, ⟨hm, hkeep⟩, rfl, rfl⟩
      exact ⟨⟨m, hm, rfl, rfl⟩, hkeep⟩
    · rintro ⟨⟨m, hm, rfl, rfl⟩, hkeep⟩
      exact ⟨m, ⟨hm, hkeep⟩, rfl, rfl⟩
  rw [hdrop, isMember_insertMembers, mem_missing]
  by_cases hid : i = id
  · subst hid
    rw [if_pos rfl]
    constructor
    · intro h
      by_contra hout
      exact h.2 ⟨rfl, hout⟩
    · intro hin
      refine ⟨?_, fun h => h.2 hin⟩
      cases hmember : t.isMember i a with
      | true => exact Or.inl rfl
      | false => exact Or.inr ⟨rfl, hin, rfl⟩
  · rw [if_neg hid]
    exact ⟨fun h => h.1.resolve_right fun h' => hid h'.1, fun h => ⟨Or.inl h, fun h' => hid h'.1⟩⟩

variable {id roster} in
-- Whoever is of the roster loses none of the rows that are kept for him.
theorem filter_dropped {ρ : Type} (rows : List ρ) (roomOf : ρ → RoomId) (addressOf : ρ → String)
    {i : RoomId} {a : String} (h : i = id → a ∈ roster) :
    (rows.filter fun r => ¬ (roomOf r = id ∧ addressOf r ∉ roster)).filter
        (fun r => roomOf r = i ∧ addressOf r = a) =
      rows.filter fun r => roomOf r = i ∧ addressOf r = a := by
  rw [List.filter_filter]
  refine List.filter_congr fun r _ => ?_
  rw [Bool.eq_iff_iff, Bool.and_eq_true, decide_eq_true_eq, decide_eq_true_eq]
  refine and_iff_left_of_imp fun hrow hout => hout.2 ?_
  rw [hrow.2]
  exact h (hrow.1.symm.trans hout.1)

theorem readsOf_settle {i : RoomId} {a : String} (h : i = id → a ∈ roster) :
    (settle id kind owner roster now t).readsOf i a = t.readsOf i a :=
  filter_dropped t.reads ReadRow.roomId ReadRow.userAddress h

theorem hiddenOf_settle {i : RoomId} {a : String} (h : i = id → a ∈ roster) :
    (settle id kind owner roster now t).hiddenOf i a = t.hiddenOf i a :=
  filter_dropped t.hidden HiddenRow.roomId HiddenRow.userAddress h

-- A room that has just been made owes nobody a key.
theorem isPending_insertRoom {i : RoomId} :
    (t.insertRoom id kind now).isPending i = true ↔ t.isPending i = true := by
  simp only [isPending, insertRoom, Table.insertNew]
  split
  · exact Iff.rfl
  · simp

end Settle

end Room

end StaticTables

end Rosters

end PocketSkynet
