import PocketSkynet.Server.Routes

/-!
# What a Request Does to a Room

The inversion of the server's step function. For each route an `_eq_ok` lemma
says exactly when it answers and with which state; the composition of its
statements is collapsed into one update of one room. `RoomStep` collects the
outcomes as transitions of a single room, and `step_room` shows that a request
moves every room along one of them.

Departures share one transition. `Room.depart` is the four statements of a
leave or a kick in a row, and a leaver who is no admin skips a statement that
would have changed nothing.

## Main definitions

* `Room.depart`: The statements of a leave or a kick.
* `Room.seat`: The statements of a redemption that seats somebody.
* `Room.install`: The room after a rotation has committed.
* `RoomStep`: The transitions of one room.

## Theorems

* `accept_eq_ok`, `decline_eq_ok`, `redeem_eq_ok` and their siblings: When each
  route answers, and the state it leaves.
* `step_room`: Every request acts on every room by a `RoomStep`.
* `step_users`: Profile rows are never removed.
-/

namespace PocketSkynet

namespace Room

/-- The statements of a leave or a kick of `a`, one after the other. -/
def depart (r : Room) (a : WalletAddress) : Room :=
  (((r.removeAdmin a).deleteUserKeys a).removeMember a).setKeyRotationPending true

/-- The statements of a redemption that seats `a`. -/
def seat (r : Room) (a : WalletAddress) : Room :=
  if r.hasEncryption then (r.addMember a).setKeyRotationPending true else r.addMember a

/-- The room after a rotation that carried these wraps has committed. -/
def install (r : Room) (keys : List KeyWrap) : Room :=
  { r with
    keys := (r.installWraps keys (r.currentKeyVersion + 1)).keys
    currentKeyVersion := r.currentKeyVersion + 1
    keyRotationPending := false }

theorem removeAdmin_of_not_admin (r : Room) (a : WalletAddress) (h : r.isAdmin a = false) :
    r.removeAdmin a = r := by
  have ha : a ∉ r.admins := by simpa [isAdmin] using h
  have hf : r.admins.filter (· ≠ a) = r.admins := by
    refine List.filter_eq_self.2 fun b hb => ?_
    simpa using fun he : b = a => ha (he ▸ hb)
  unfold removeAdmin
  rw [hf]

@[simp] theorem depart_keyRotationPending (r : Room) (a : WalletAddress) :
    (r.depart a).keyRotationPending = true := rfl

@[simp] theorem depart_currentKeyVersion (r : Room) (a : WalletAddress) :
    (r.depart a).currentKeyVersion = r.currentKeyVersion := rfl

@[simp] theorem depart_invitations (r : Room) (a : WalletAddress) :
    (r.depart a).invitations = r.invitations := rfl

theorem mem_depart (r : Room) (a b : WalletAddress) :
    b ∈ (r.depart a).members ↔ b ∈ r.members ∧ b ≠ a := mem_removeMember r a b

theorem keyExists_depart (r : Room) (a b : WalletAddress) (v : Nat) :
    (r.depart a).keyExists b v = true ↔ r.keyExists b v = true ∧ b ≠ a :=
  keyExists_deleteUserKeys r a b v

theorem mem_seat (r : Room) (a b : WalletAddress) :
    b ∈ (r.seat a).members ↔ b ∈ r.members ∨ b = a := by
  unfold seat
  split
  · exact mem_addMember r a b
  · exact mem_addMember r a b

@[simp] theorem seat_keys (r : Room) (a : WalletAddress) : (r.seat a).keys = r.keys := by
  unfold seat
  split <;> simp

@[simp] theorem seat_invitations (r : Room) (a : WalletAddress) :
    (r.seat a).invitations = r.invitations := by
  unfold seat
  split <;> simp

theorem seat_keyRotationPending (r : Room) (a : WalletAddress) :
    (r.seat a).keyRotationPending = (r.hasEncryption || r.keyRotationPending) := by
  unfold seat
  cases h : r.hasEncryption <;> simp

theorem keyExists_install (r : Room) (keys : List KeyWrap) (a : WalletAddress) (v : Nat) :
    (r.install keys).keyExists a v = true ↔ r.keyExists a v = true ∨
      (a ∈ keys.map KeyWrap.userAddress ∧ v = r.currentKeyVersion + 1) :=
  keyExists_installWraps keys r (r.currentKeyVersion + 1) a v

end Room

namespace Server

/-! ### The room a statement touches -/

@[simp] theorem rooms_updateRoom (s : Server) (room id : RoomId) (f : Room → Room) :
    (s.updateRoom room f).rooms id = if id = room then (s.rooms id).map f else s.rooms id := rfl

@[simp] theorem users_updateRoom (s : Server) (room : RoomId) (f : Room → Room) :
    (s.updateRoom room f).users = s.users := rfl

theorem updateRoom_updateRoom (s : Server) (room : RoomId) (f g : Room → Room) :
    (s.updateRoom room f).updateRoom room g = s.updateRoom room fun r => g (f r) := by
  unfold updateRoom
  congr 1
  funext id
  by_cases h : id = room <;> simp [h, Function.comp_def]

theorem updateRoom_congr (s : Server) (room : RoomId) (f g : Room → Room)
    (h : ∀ r, s.rooms room = some r → f r = g r) :
    s.updateRoom room f = s.updateRoom room g := by
  unfold updateRoom
  congr 1
  funext id
  by_cases hid : id = room
  · subst hid
    cases hr : s.rooms id with
    | none => simp
    | some r => simp [h r hr]
  · simp [hid]

theorem isMember_of_some {s : Server} {room : RoomId} {r : Room} (h : s.rooms room = some r)
    (a : WalletAddress) : s.isMember room a = r.isMember a := by
  simp [isMember, h]

theorem isAdmin_of_some {s : Server} {room : RoomId} {r : Room} (h : s.rooms room = some r)
    (a : WalletAddress) : s.isAdmin room a = r.isAdmin a := by
  simp [isAdmin, h]

theorem pending_of_some {s : Server} {room : RoomId} {r : Room} (h : s.rooms room = some r)
    (a : WalletAddress) : s.hasPendingInvitation room a = r.hasPendingInvitation a := by
  simp [hasPendingInvitation, h]

theorem userExists_iff (s : Server) (a : WalletAddress) :
    s.userExists a = true ↔ a ∈ s.users := decide_eq_true_iff

/-- The roster is the members with a profile row. -/
theorem mem_listMembers {s : Server} {room : RoomId} {r : Room} (h : s.rooms room = some r)
    (a : WalletAddress) : a ∈ s.listMembers room ↔ a ∈ r.members ∧ a ∈ s.users := by
  simp [listMembers, h, userExists]

/-! ### When each route answers -/

/-- An invitation is recorded by a room admin, for a known address outside the room. -/
theorem invite_ok {s : Server} {caller invitee : WalletAddress} {room : RoomId}
    {p : Server × String} (h : s.invite caller room invitee = .ok p) :
    s.isAdmin room caller = true ∧ s.isMember room invitee = false ∧
      s.userExists invitee = true ∧
      p.1 = s.updateRoom room (·.createInvitation invitee caller) := by
  simp only [invite, bind_eq_ok, ensure_eq_ok, orRefuse_eq_ok, pure_eq_ok, exists_const,
    Bool.not_eq_true'] at h
  obtain ⟨-, hadmin, record, -, -, -, huser, hmember, -, -, rfl⟩ := h
  exact ⟨hadmin, hmember, huser, rfl⟩

theorem accept_eq_ok (s : Server) (caller : WalletAddress) (room : RoomId)
    (p : Server × String) :
    s.accept caller room = .ok p ↔ s.hasPendingInvitation room caller = true ∧
      p = (s.updateRoom room fun r => (r.addMember caller).deleteInvitation caller,
        "Invitation accepted") := by
  have hroom : s.hasPendingInvitation room caller = true → (s.getRoom room).isSome = true := by
    unfold hasPendingInvitation getRoom
    cases s.rooms room <;> simp
  simp only [accept, bind_eq_ok, ensure_eq_ok, pure_eq_ok, exists_const, updateRoom_updateRoom]
  constructor
  · rintro ⟨hp, -, rfl⟩
    exact ⟨hp, rfl⟩
  · rintro ⟨hp, rfl⟩
    exact ⟨hp, hroom hp, rfl⟩

theorem decline_eq_ok (s : Server) (caller : WalletAddress) (room : RoomId)
    (p : Server × String) :
    s.decline caller room = .ok p ↔ s.hasPendingInvitation room caller = true ∧
      p = (s.updateRoom room fun r => (r.deleteInvitation caller).deleteUserKeys caller,
        "Invitation declined") := by
  simp only [decline, bind_eq_ok, ensure_eq_ok, pure_eq_ok, exists_const, updateRoom_updateRoom]
  exact and_congr_right fun _ => eq_comm

/-- Minting a link changes no room. -/
theorem createInvite_ok {s : Server} {caller : WalletAddress} {room : RoomId}
    {hours uses : Option Int} {id hash : String} {now : Nat} {p : Server × String}
    (h : s.createInvite caller room hours uses id hash now = .ok p) :
    ∃ rows, p.1 = { s with roomInvites := rows } := by
  simp only [createInvite, bind_eq_ok, ensure_eq_ok, pure_eq_ok, exists_const] at h
  obtain ⟨-, -, -, -, -, -, -, rfl⟩ := h
  exact ⟨_, rfl⟩

/-- Revoking a link changes no room. -/
theorem revoke_ok {s : Server} {caller : WalletAddress} {room : RoomId} {inviteId : String}
    {now : Nat} {p : Server × String} (h : s.revoke caller room inviteId now = .ok p) :
    ∃ rows, p.1 = { s with roomInvites := rows } := by
  simp only [revoke, bind_eq_ok, ensure_eq_ok, pure_eq_ok, exists_const] at h
  obtain ⟨-, -, -, -, rfl⟩ := h
  exact ⟨_, rfl⟩

theorem consume_rooms (s : Server) (hash : String) (now : Nat) :
    (s.consume hash now).2.rooms = s.rooms := by
  simp only [consume]
  split
  · rfl
  · split <;> rfl

theorem consume_users (s : Server) (hash : String) (now : Nat) :
    (s.consume hash now).2.users = s.users := by
  simp only [consume]
  split
  · rfl
  · split <;> rfl

/-- A spendable row for the hash is what makes the conditional update count. -/
theorem consume_fst (s : Server) (hash : String) (now : Nat) {i : Invite}
    (hfind : s.findByHash hash = some i) :
    (∃ j, (s.consume hash now).1 = .consumed j) ↔
      s.roomInvites.any (Invite.spendable hash now) = true := by
  have hkeep : ∀ j : Invite,
      (if j.spendable hash now then { j with useCount := j.useCount + 1 } else j).tokenHash =
        j.tokenHash := by
    intro j
    split <;> rfl
  have hsome : ((s.roomInvites.map fun j =>
      if j.spendable hash now then { j with useCount := j.useCount + 1 } else j).find?
        (·.tokenHash = hash)).isSome = true := by
    obtain ⟨hi, hmem⟩ := And.intro (List.find?_some hfind) (List.mem_of_find?_eq_some hfind)
    rw [List.find?_isSome]
    exact ⟨_, List.mem_map_of_mem hmem, by simpa [hkeep] using hi⟩
  obtain ⟨j, hj⟩ := Option.isSome_iff_exists.1 hsome
  simp only [consume, findByHash, hj]
  cases s.roomInvites.any (Invite.spendable hash now) <;> simp

theorem seat_users (s : Server) (room : RoomId) (a : WalletAddress) :
    (s.seat room a).users = s.users := by
  unfold seat
  dsimp only
  split <;> rfl

theorem seat_rooms (s : Server) (room : RoomId) (a : WalletAddress) (id : RoomId) :
    (s.seat room a).rooms id = if id = room then (s.rooms id).map (·.seat a) else s.rooms id := by
  unfold seat hasEncryption
  by_cases hid : id = room
  · subst hid
    cases hr : s.rooms id with
    | none => simp [hr]
    | some r =>
        have hkeys : (r.addMember a).hasEncryption = r.hasEncryption := by
          simp [Room.hasEncryption]
        cases he : r.hasEncryption <;> simp [hr, hkeys, he, Room.seat]
  · rw [if_neg hid]
    dsimp only
    split <;> simp [hid]

/-- A redemption finds its link and the link's room; a member is turned away
    with nothing spent, anybody else is seated if the link is live. -/
theorem redeem_eq_ok (s : Server) (caller : WalletAddress) (hash : String) (now now' : Nat)
    (p : Server × String) :
    s.redeem caller hash now now' = .ok p ↔
      ∃ i r, s.findByHash hash = some i ∧ s.rooms i.roomId = some r ∧
        ((r.isMember caller = true ∧ p = (s, "Already a member")) ∨
          (r.isMember caller = false ∧ i.refusal now = none ∧
            s.roomInvites.any (Invite.spendable hash now') = true ∧
            p = ((s.consume hash now').2.seat i.roomId caller, "Joined room"))) := by
  simp only [redeem, bind_eq_ok, orRefuse_eq_ok, getRoom]
  refine exists_congr fun i => ?_
  constructor
  · rintro ⟨hi, r, hr, h⟩
    refine ⟨r, hi, hr, ?_⟩
    cases hm : r.isMember caller with
    | true =>
        rw [hm, if_pos rfl, pure_eq_ok] at h
        exact Or.inl ⟨rfl, h.symm⟩
    | false =>
        rw [hm, if_neg Bool.false_ne_true] at h
        cases hf : i.refusal now with
        | some refusal => rw [hf] at h; cases h
        | none =>
            rw [hf] at h
            have hiff := consume_fst s hash now' hi
            cases hc : s.consume hash now' with
            | mk outcome s' =>
                rw [hc] at h hiff
                cases outcome with
                | consumed j =>
                    rw [pure_eq_ok] at h
                    exact Or.inr ⟨rfl, rfl, hiff.1 ⟨j, rfl⟩, h.symm⟩
                | notFound => cases h
                | refused refusal => cases h
  · rintro ⟨r, hi, hr, h⟩
    refine ⟨hi, r, hr, ?_⟩
    rcases h with ⟨hm, rfl⟩ | ⟨hm, hf, hs, rfl⟩
    · rw [hm, if_pos rfl, pure_eq_ok]
    · obtain ⟨j, hj⟩ := (consume_fst s hash now' hi).2 hs
      rw [hm, if_neg Bool.false_ne_true, hf]
      cases hc : s.consume hash now' with
      | mk outcome s' =>
          rw [hc] at hj
          cases hj
          rfl

/-- The checks of the store route, in one place. -/
def mayStore (s : Server) (caller : WalletAddress) (room : RoomId) (target : WalletAddress)
    (version : Nat) : Bool :=
  (s.isMember room caller || s.isAdmin room caller || s.hasPendingInvitation room caller) &&
  (s.isMember room target || s.hasPendingInvitation room target) &&
  (target = caller || s.isAdmin room caller) &&
  (target = caller || !(s.rooms room).any (·.keyExists target version))

theorem store_eq_ok (s : Server) (caller : WalletAddress) (room : RoomId) (wrap : KeyWrap)
    (raw : Option Int) (p : Server × String) :
    s.store caller room wrap raw = .ok p ↔
      ∃ v, keyVersion "keyVersion" raw 1 = .ok v ∧
        s.mayStore caller room wrap.userAddress v = true ∧
        p = (s.updateRoom room (·.storeKey wrap v), "Room key stored successfully") := by
  have hroom : (s.isMember room wrap.userAddress || s.hasPendingInvitation room
      wrap.userAddress) = true → (s.getRoom room).isSome = true := by
    unfold isMember hasPendingInvitation getRoom
    cases s.rooms room <;> simp
  simp only [store, bind_eq_ok, ensure_eq_ok, pure_eq_ok, exists_const, mayStore,
    Bool.and_eq_true]
  refine exists_congr fun v => and_congr_right fun _ => ?_
  constructor
  · rintro ⟨h1, -, h2, h3, h4, rfl⟩
    exact ⟨⟨⟨⟨h1, h2⟩, h3⟩, h4⟩, rfl⟩
  · rintro ⟨⟨⟨⟨h1, h2⟩, h3⟩, h4⟩, rfl⟩
    exact ⟨h1, hroom h2, h2, h3, h4, rfl⟩

theorem coverage_eq_ok (roster : List WalletAddress) (keys : List KeyWrap) (u : Unit) :
    coverage roster keys = .ok u ↔ ∀ a, a ∈ keys.map KeyWrap.userAddress ↔ a ∈ roster := by
  simp only [coverage, bind_eq_ok, ensure_eq_ok, exists_const, List.all_eq_true,
    decide_eq_true_eq]
  constructor
  · rintro ⟨hcover, hstray⟩ a
    exact ⟨hstray a, hcover a⟩
  · intro h
    exact ⟨fun a ha => (h a).2 ha, fun a ha => (h a).1 ha⟩

/-- A rotation that answers covered the roster exactly and advanced one epoch. -/
theorem rotate_ok {s : Server} {caller : WalletAddress} {room : RoomId} {raw : Option Int}
    {keys : List KeyWrap} {p : Server × String} (h : s.rotate caller room raw keys = .ok p) :
    (∀ a, a ∈ keys.map KeyWrap.userAddress ↔ a ∈ s.listMembers room) ∧
      p.1 = s.updateRoom room (·.install keys) := by
  simp only [rotate, bind_eq_ok, ensure_eq_ok, orRefuse_eq_ok, exists_const] at h
  obtain ⟨-, version, -, _, hcover, record, hrecord, h⟩ := h
  refine ⟨(coverage_eq_ok _ _ _).1 hcover, ?_⟩
  rcases record.rotate_cases version keys with ⟨-, hr⟩ | ⟨rfl, hr⟩
  · rw [hr] at h
    cases h
  · rw [hr, pure_eq_ok] at h
    rw [← h]
    refine updateRoom_congr s room _ _ fun r hs => ?_
    have hsame : record = r := Option.some.inj (hrecord.symm.trans hs)
    rw [hsame, Room.install]

/-- A leaver is a member, and goes through the four statements. -/
theorem leave_ok {s : Server} {caller : WalletAddress} {room : RoomId} {p : Server × String}
    (h : s.leave caller room = .ok p) :
    s.isMember room caller = true ∧ p.1 = s.updateRoom room (·.depart caller) := by
  simp only [leave, bind_eq_ok, ensure_eq_ok, orRefuse_eq_ok, pure_eq_ok, exists_const,
    updateRoom_updateRoom] at h
  obtain ⟨record, hrecord, hmember, -, -, -, rfl⟩ := h
  refine ⟨hmember, updateRoom_congr s room _ _ fun r _ => ?_⟩
  -- A leaver who is no admin skips a statement that would change nothing.
  cases hadmin : r.isAdmin caller with
  | true => simp [Room.depart]
  | false => simp [Room.depart, r.removeAdmin_of_not_admin caller hadmin]

/-- The target of a kick is a member, and goes through the four statements. -/
theorem kick_ok {s : Server} {caller : WalletAddress} {room : RoomId} {target : WalletAddress}
    {p : Server × String} (h : s.kick caller room target = .ok p) :
    s.isMember room target = true ∧ p.1 = s.updateRoom room (·.depart target) := by
  simp only [kick, bind_eq_ok, ensure_eq_ok, pure_eq_ok, exists_const,
    updateRoom_updateRoom] at h
  obtain ⟨_, -, _, -, -, hmember, rfl⟩ := h
  exact ⟨hmember, rfl⟩

end Server

/-! ### The transitions of one room -/

/-- What a request can do to the room `id`, with the checks that let it. -/
inductive RoomStep (s : Server) (id : RoomId) (r : Room) : Request → Room → Prop where
  | unchanged (q : Request) : RoomStep s id r q r
  | invited (caller invitee : WalletAddress) (hadmin : r.isAdmin caller = true)
      (hnew : invitee ∉ r.members) (huser : invitee ∈ s.users) :
      RoomStep s id r (.invite caller id invitee) (r.createInvitation invitee caller)
  | accepted (a : WalletAddress) (huser : a ∈ s.users)
      (hpending : r.hasPendingInvitation a = true) :
      RoomStep s id r (.accept a id) ((r.addMember a).deleteInvitation a)
  | declined (a : WalletAddress) (huser : a ∈ s.users)
      (hpending : r.hasPendingInvitation a = true) :
      RoomStep s id r (.decline a id) ((r.deleteInvitation a).deleteUserKeys a)
  | redeemed (a : WalletAddress) (hash : String) (now now' : Nat) (i : Invite)
      (huser : a ∈ s.users) (hfind : s.findByHash hash = some i) (hlink : i.roomId = id)
      (hlive : i.refusal now = none)
      (hspend : s.roomInvites.any (Invite.spendable hash now') = true)
      (hnew : a ∉ r.members) : RoomStep s id r (.redeem a hash now now') (r.seat a)
  | stored (caller : WalletAddress) (wrap : KeyWrap) (raw : Option Int) (v : Nat)
      (huser : caller ∈ s.users) (hversion : keyVersion "keyVersion" raw 1 = .ok v)
      (hmay : s.mayStore caller id wrap.userAddress v = true)
      (htarget : wrap.userAddress ∈ r.members ∨
        r.hasPendingInvitation wrap.userAddress = true) :
      RoomStep s id r (.store caller id wrap raw) (r.storeKey wrap v)
  | rotated (caller : WalletAddress) (raw : Option Int) (keys : List KeyWrap)
      (hcover : ∀ a, a ∈ keys.map KeyWrap.userAddress ↔ a ∈ r.members ∧ a ∈ s.users) :
      RoomStep s id r (.rotate caller id raw keys) (r.install keys)
  | left (a : WalletAddress) (hmember : a ∈ r.members) :
      RoomStep s id r (.leave a id) (r.depart a)
  | kicked (caller a : WalletAddress) (hmember : a ∈ r.members) :
      RoomStep s id r (.kick caller id a) (r.depart a)

namespace Server

/-- A room update, seen from a room: its own update, or nothing. -/
theorem roomStep_of_update {s : Server} {q : Request} {room id : RoomId} {r : Room}
    {f : Room → Room} (hr : s.rooms id = some r) (hstep : id = room → RoomStep s id r q (f r)) :
    ∃ r', (s.updateRoom room f).rooms id = some r' ∧ RoomStep s id r q r' := by
  by_cases hid : id = room
  · subst hid
    exact ⟨f r, by simp [hr], hstep rfl⟩
  · exact ⟨r, by simp [hid, hr], .unchanged q⟩

/-- A handler that answers moves every room along a transition. -/
theorem route_room {s : Server} {q : Request} {p : Server × String} (h : s.route q = .ok p)
    (huser : q.caller ∈ s.users) {id : RoomId} {r : Room} (hr : s.rooms id = some r) :
    ∃ r', p.1.rooms id = some r' ∧ RoomStep s id r q r' := by
  cases q with
  | login caller =>
      cases h
      refine ⟨r, ?_, .unchanged _⟩
      unfold upsertUser
      split <;> exact hr
  | createRoom caller room =>
      simp only [route, createRoom, bind_eq_ok, ensure_eq_ok, pure_eq_ok, exists_const,
        getRoom] at h
      obtain ⟨hfree, rfl⟩ := h
      have hne : id ≠ room := by
        rintro rfl
        simp [hr] at hfree
      exact ⟨r, by simp [hne, hr], .unchanged _⟩
  | invite caller room invitee =>
      obtain ⟨hadmin, hmember, hexists, hp⟩ := invite_ok h
      rw [hp]
      refine roomStep_of_update hr ?_
      rintro rfl
      rw [isAdmin_of_some hr] at hadmin
      rw [isMember_of_some hr] at hmember
      exact .invited caller invitee hadmin (by simpa [Room.isMember] using hmember)
        ((s.userExists_iff invitee).1 hexists)
  | accept caller room =>
      obtain ⟨hpending, rfl⟩ := (accept_eq_ok _ _ _ _).1 h
      refine roomStep_of_update hr ?_
      rintro rfl
      exact .accepted caller huser (by rwa [pending_of_some hr] at hpending)
  | decline caller room =>
      obtain ⟨hpending, rfl⟩ := (decline_eq_ok _ _ _ _).1 h
      refine roomStep_of_update hr ?_
      rintro rfl
      exact .declined caller huser (by rwa [pending_of_some hr] at hpending)
  | createInvite caller room hours uses inviteId hash now =>
      obtain ⟨rows, hp⟩ := createInvite_ok h
      exact ⟨r, by rw [hp]; exact hr, .unchanged _⟩
  | revoke caller room inviteId now =>
      obtain ⟨rows, hp⟩ := revoke_ok h
      exact ⟨r, by rw [hp]; exact hr, .unchanged _⟩
  | redeem caller hash now now' =>
      obtain ⟨i, room, hi, hroom, ⟨-, rfl⟩ | ⟨hmember, hlive, hspend, rfl⟩⟩ :=
        (redeem_eq_ok _ _ _ _ _ _).1 h
      · exact ⟨r, hr, .unchanged _⟩
      · dsimp only
        rw [seat_rooms, consume_rooms]
        by_cases hid : id = i.roomId
        · have hsame : room = r := by
            rw [← hid] at hroom
            exact Option.some.inj (hroom.symm.trans hr)
          subst hsame
          rw [if_pos hid, hr]
          exact ⟨_, rfl, .redeemed caller hash now now' i huser hi hid.symm hlive hspend
            (by simpa [Room.isMember] using hmember)⟩
        · rw [if_neg hid]
          exact ⟨r, hr, .unchanged _⟩
  | store caller room wrap raw =>
      obtain ⟨v, hversion, hmay, rfl⟩ := (store_eq_ok _ _ _ _ _ _).1 h
      refine roomStep_of_update hr ?_
      rintro rfl
      refine .stored caller wrap raw v huser hversion hmay ?_
      simp only [mayStore, Bool.and_eq_true, Bool.or_eq_true] at hmay
      have htarget := hmay.1.1.2
      rwa [isMember_of_some hr, pending_of_some hr, Room.isMember_iff] at htarget
  | rotate caller room raw keys =>
      obtain ⟨hcover, hp⟩ := rotate_ok h
      rw [hp]
      refine roomStep_of_update hr ?_
      rintro rfl
      exact .rotated caller raw keys fun a => (hcover a).trans (mem_listMembers hr a)
  | leave caller room =>
      obtain ⟨hmember, hp⟩ := leave_ok h
      rw [hp]
      refine roomStep_of_update hr ?_
      rintro rfl
      rw [isMember_of_some hr, Room.isMember_iff] at hmember
      exact .left caller hmember
  | kick caller room target =>
      obtain ⟨hmember, hp⟩ := kick_ok h
      rw [hp]
      refine roomStep_of_update hr ?_
      rintro rfl
      rw [isMember_of_some hr, Room.isMember_iff] at hmember
      exact .kicked caller target hmember

/-- What `step` does: a refused or unauthenticated request does nothing, any
    other one does what its handler did. -/
theorem step_cases (s : Server) (q : Request) :
    s.step q = s ∨ ∃ p, s.route q = .ok p ∧ s.step q = p.1 ∧
      ((∃ a, q = .login a) ∨ q.caller ∈ s.users) := by
  unfold step
  cases hq : s.handle q with
  | error e => exact Or.inl rfl
  | ok p =>
      refine Or.inr ⟨p, ?_⟩
      unfold handle at hq
      cases q with
      | login a => exact ⟨hq, rfl, Or.inl ⟨a, rfl⟩⟩
      | _ =>
          dsimp only at hq
          split at hq
          next hu => exact ⟨hq, rfl, Or.inr ((s.userExists_iff _).1 hu)⟩
          next => cases hq

/-- A signed-in caller's request does what its handler does. -/
theorem step_of_route {s : Server} {q : Request} {p : Server × String}
    (huser : q.caller ∈ s.users) (h : s.route q = .ok p) : s.step q = p.1 := by
  have hhandle : s.handle q = .ok p := by
    unfold handle
    cases q with
    | login a => exact h
    | _ =>
        dsimp only
        rw [if_pos ((s.userExists_iff _).2 huser)]
        exact h
  rw [step, hhandle]

/-- The inversion of the step function: whatever the request, a room that
    existed still exists and has changed by one of its transitions. -/
theorem step_room {s : Server} (q : Request) {id : RoomId} {r : Room}
    (hr : s.rooms id = some r) :
    ∃ r', (s.step q).rooms id = some r' ∧ RoomStep s id r q r' := by
  rcases s.step_cases q with hs | ⟨p, hroute, hs, hlogin | huser⟩
  · exact ⟨r, by rw [hs]; exact hr, .unchanged q⟩
  · obtain ⟨a, rfl⟩ := hlogin
    refine ⟨r, ?_, .unchanged _⟩
    cases hroute
    rw [hs]
    dsimp only
    unfold upsertUser
    split <;> exact hr
  · rw [hs]
    exact route_room hroute huser hr

/-- A room that appears has just been created by somebody signed in. -/
theorem step_new_room {s : Server} (q : Request) {id : RoomId} (hr : s.rooms id = none) :
    (s.step q).rooms id = none ∨
      ∃ a ∈ s.users, (s.step q).rooms id = some (Room.create id a) := by
  rcases s.step_cases q with hs | ⟨p, hroute, hs, hlogin | huser⟩
  · exact Or.inl (by rw [hs]; exact hr)
  · obtain ⟨a, rfl⟩ := hlogin
    cases hroute
    rw [hs]
    dsimp only
    unfold upsertUser
    exact Or.inl (by split <;> exact hr)
  · rw [hs]
    cases q with
    | login caller =>
        cases hroute
        dsimp only
        unfold upsertUser
        exact Or.inl (by split <;> exact hr)
    | createRoom caller room =>
        simp only [route, createRoom, bind_eq_ok, ensure_eq_ok, pure_eq_ok, exists_const] at hroute
        obtain ⟨-, rfl⟩ := hroute
        by_cases hid : id = room
        · exact Or.inr ⟨caller, huser, by simp [hid]⟩
        · exact Or.inl (by simp [hid, hr])
    | invite caller room invitee =>
        obtain ⟨-, -, -, hp⟩ := invite_ok hroute
        exact Or.inl (by simp [hp, hr])
    | accept caller room =>
        obtain ⟨-, rfl⟩ := (accept_eq_ok _ _ _ _).1 hroute
        exact Or.inl (by simp [hr])
    | decline caller room =>
        obtain ⟨-, rfl⟩ := (decline_eq_ok _ _ _ _).1 hroute
        exact Or.inl (by simp [hr])
    | createInvite caller room hours uses inviteId hash now =>
        obtain ⟨rows, hp⟩ := createInvite_ok hroute
        exact Or.inl (by rw [hp]; exact hr)
    | revoke caller room inviteId now =>
        obtain ⟨rows, hp⟩ := revoke_ok hroute
        exact Or.inl (by rw [hp]; exact hr)
    | redeem caller hash now now' =>
        obtain ⟨i, room, -, -, ⟨-, rfl⟩ | ⟨-, -, -, rfl⟩⟩ := (redeem_eq_ok _ _ _ _ _ _).1 hroute
        · exact Or.inl hr
        · exact Or.inl (by simp [seat_rooms, consume_rooms, hr])
    | store caller room wrap raw =>
        obtain ⟨v, -, -, rfl⟩ := (store_eq_ok _ _ _ _ _ _).1 hroute
        exact Or.inl (by simp [hr])
    | rotate caller room raw keys =>
        obtain ⟨-, hp⟩ := rotate_ok hroute
        exact Or.inl (by simp [hp, hr])
    | leave caller room =>
        obtain ⟨-, hp⟩ := leave_ok hroute
        exact Or.inl (by simp [hp, hr])
    | kick caller room target =>
        obtain ⟨-, hp⟩ := kick_ok hroute
        exact Or.inl (by simp [hp, hr])

theorem subset_upsertUser (s : Server) (a b : WalletAddress) (h : b ∈ s.users) :
    b ∈ (s.upsertUser a).users := by
  unfold upsertUser
  split
  · exact h
  · exact List.mem_append_left _ h

/-- Profile rows are never removed. -/
theorem step_users (s : Server) (q : Request) {a : WalletAddress} (ha : a ∈ s.users) :
    a ∈ (s.step q).users := by
  rcases s.step_cases q with hs | ⟨p, hroute, hs, -⟩
  · rwa [hs]
  · rw [hs]
    cases q with
    | login caller =>
        cases hroute
        exact s.subset_upsertUser caller a ha
    | createRoom caller room =>
        simp only [route, createRoom, bind_eq_ok, ensure_eq_ok, pure_eq_ok, exists_const] at hroute
        obtain ⟨-, rfl⟩ := hroute
        exact ha
    | invite caller room invitee =>
        obtain ⟨-, -, -, hp⟩ := invite_ok hroute
        rwa [hp]
    | accept caller room =>
        obtain ⟨-, rfl⟩ := (accept_eq_ok _ _ _ _).1 hroute
        exact ha
    | decline caller room =>
        obtain ⟨-, rfl⟩ := (decline_eq_ok _ _ _ _).1 hroute
        exact ha
    | createInvite caller room hours uses inviteId hash now =>
        obtain ⟨rows, hp⟩ := createInvite_ok hroute
        rwa [hp]
    | revoke caller room inviteId now =>
        obtain ⟨rows, hp⟩ := revoke_ok hroute
        rwa [hp]
    | redeem caller hash now now' =>
        obtain ⟨i, room, -, -, ⟨-, rfl⟩ | ⟨-, -, -, rfl⟩⟩ := (redeem_eq_ok _ _ _ _ _ _).1 hroute
        · exact ha
        · dsimp only
          rwa [seat_users, consume_users]
    | store caller room wrap raw =>
        obtain ⟨v, -, -, rfl⟩ := (store_eq_ok _ _ _ _ _ _).1 hroute
        exact ha
    | rotate caller room raw keys =>
        obtain ⟨-, hp⟩ := rotate_ok hroute
        rwa [hp]
    | leave caller room =>
        obtain ⟨-, hp⟩ := leave_ok hroute
        rwa [hp]
    | kick caller room target =>
        obtain ⟨-, hp⟩ := kick_ok hroute
        rwa [hp]

/-! ### Properties of every room -/

/-- Every room has the property, which may look at the profile rows. -/
def EveryRoom (P : List WalletAddress → Room → Prop) (s : Server) : Prop :=
  ∀ id r, s.rooms id = some r → P s.users r

/-- The step rule for properties of rooms: they hold of a fresh room, gaining
    profile rows keeps them, and so does every transition the step may take. -/
theorem everyRoom_step {P : List WalletAddress → Room → Prop} {s : Server} {q : Request}
    (hcreate : ∀ id, ∀ a ∈ s.users, P s.users (Room.create id a))
    (hgrow : ∀ users r, (∀ a ∈ s.users, a ∈ users) → P s.users r → P users r)
    (hstep : ∀ id r r', s.rooms id = some r → RoomStep s id r q r' → P s.users r →
      P s.users r')
    (h : EveryRoom P s) : EveryRoom P (s.step q) := by
  intro id r' hr'
  refine hgrow _ r' (fun a ha => s.step_users q ha) ?_
  cases hr : s.rooms id with
  | none =>
      rcases step_new_room q hr with hnone | ⟨a, ha, hnew⟩
      · rw [hnone] at hr'
        cases hr'
      · rw [hnew] at hr'
        cases hr'
        exact hcreate id a ha
  | some r =>
      obtain ⟨r'', hr'', hmove⟩ := step_room q hr
      rw [hr''] at hr'
      cases hr'
      exact hstep id r r' hr hmove (h id r hr)

end Server

end PocketSkynet
