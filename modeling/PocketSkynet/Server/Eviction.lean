import PocketSkynet.Server.Hub
import PocketSkynet.Server.Provision
import PocketSkynet.Server.Sample

/-!
# Eviction

An eviction takes an account out of every room in one transaction: its memberships, its
administrator roles, its invitations, its wraps, and the key it has published for others to
wrap to. Every room it was a member of is to be rotated. Then the account is suspended, and
told.

Requests of the account that were authenticated before go on, and so do those of the other
members. A call of the database is one step. What a connection is subscribed to is read from
the database in one step and stored in another, and the eviction does neither.

Beside the state a run keeps what has happened since the eviction: which rooms it was taken out
of, which somebody else has invited it to, where somebody else has wrapped a key to it, and
which have been rotated without it.

## Main definitions

* `Room.evict`: What an eviction does to a room.
* `Tenancy`: The tables, and the connections of the account.
* `TenancyProc.advance`: The requests, one database call after the other.
* `Severed`: What is claimed once they have all finished.
* `Contained`: The condition on a step.

## Theorems

* `severed_step`: What keeps the account out.
* `eviction_severs`: In runs that meet the condition it has no access left.
* `evicted_returns`: Five runs in which it has.
-/

namespace PocketSkynet

namespace Room

/-- What an eviction deletes, and the flag it leaves where the account was a member. -/
def evict (r : Room) (a : WalletAddress) : Room :=
  let left := (((r.deleteUserKeys a).removeMember a).removeAdmin a).deleteInvitation a
  if r.isMember a then left.setKeyRotationPending true else left

end Room

/-- What has happened since the eviction. -/
structure Aftermath where
  lost : RoomId → Bool
  invited : List RoomId
  wrapped : List RoomId
  rotated : List RoomId

/-- A connection of the account, and the rooms in its view. -/
structure Watcher where
  id : Nat
  rooms : RoomId → Bool

/-- The tables, the published keys, the connections of the account, whether it is suspended,
    and what has happened since its eviction. -/
structure Tenancy where
  server : Server
  published : List (WalletAddress × String × String)
  watchers : List Watcher
  nextId : Nat
  suspended : Bool
  since : Option Aftermath

namespace Tenancy

/-- Remove the account's presence from every room on the server. -/
def evictFromAllRooms (t : Tenancy) (a : WalletAddress) : Tenancy :=
  { t with
    server := { t.server with rooms := fun id => (t.server.rooms id).map (·.evict a) }
    published := Table.erase Prod.fst a t.published
    since := some ⟨fun id => t.server.isMember id a, [], [], []⟩ }

/-- Publish an encryption key together with its binding signature. -/
def setEncryptionKey (t : Tenancy) (a : WalletAddress) (key sig : String) : Tenancy :=
  if t.server.userExists a then
    { t with published := Table.upsert Prod.fst (a, key, sig) t.published }
  else t

/-- The rooms of the account, as a connection is subscribed to them. -/
def loadView (t : Tenancy) (a : WalletAddress) (room : Option RoomId) (id : RoomId) : Bool :=
  t.server.isMember id a && room.all (· = id)

/-- Another connection is taken. -/
def admits (t : Tenancy) (full : Bool) : Bool :=
  !full && decide (t.watchers.length < maxPerWallet)

def register (t : Tenancy) (rooms : RoomId → Bool) : Tenancy :=
  { t with watchers := t.watchers ++ [⟨t.nextId, rooms⟩], nextId := t.nextId + 1 }

/-- Swap a fresh view into every connection. -/
def setUserView (t : Tenancy) (rooms : RoomId → Bool) : Tenancy :=
  { t with watchers := t.watchers.map fun w => { w with rooms := rooms } }

def unregister (t : Tenancy) (id : Nat) : Tenancy :=
  { t with watchers := t.watchers.filter fun w => w.id ≠ id }

/-- Remember something that somebody else has done. -/
def note (t : Tenancy) (f : Aftermath → Aftermath) : Tenancy := { t with since := t.since.map f }

end Tenancy

/-- What is asked: by an administrator, by the account, by other members. -/
inductive TenancyCall where
  | evict
  | accept (room : RoomId)
  | redeem (tokenHash : String)
  | publish (key sig : String)
  | list
  | connect (room : Option RoomId)
  | disconnect (id : Nat)
  | invite (caller : WalletAddress) (room : RoomId) (invitee : WalletAddress)
  | store (caller : WalletAddress) (room : RoomId) (wrap : KeyWrap) (version : Option Int)
  | rotate (caller : WalletAddress) (room : RoomId) (newVersion : Option Int)
      (keys : List KeyWrap)

namespace TenancyCall

/-- Whether the request gets past authentication. The last three are those of others. -/
def authenticates (account : WalletAddress) (suspended : Bool) : TenancyCall → Bool
  | evict | disconnect _ => true
  | accept _ | redeem _ | publish _ _ | list | connect _ => !suspended
  | invite caller _ _ | store caller _ _ _ | rotate caller _ _ _ => caller ≠ account

end TenancyCall

/-- How far a request has got. -/
inductive TenancyProc where
  | called (call : TenancyCall)
  | admitted (call : TenancyCall)
  | refreshing
  | answering
  | loading
  | storing (rooms : RoomId → Bool)
  | registering (rooms : RoomId → Bool)
  | covering (room : RoomId) (version : Nat) (keys : List KeyWrap)
  | rotating (room : RoomId) (version : Nat) (keys : List KeyWrap)
  | done

/-- What a turn meets: the clock, which a redemption reads twice, and whether the server takes
    no more connections. -/
structure TenancyInput where
  now : Nat
  now' : Nat
  full : Bool

namespace TenancyProc

variable (agentOf : WalletAddress → WalletAddress) (account : WalletAddress)

/-- Commit a rotation. -/
def commit (t : Tenancy) (room : RoomId) (version : Nat) (keys : List KeyWrap) : Tenancy :=
  match t.server.rooms room with
  | none => t
  | some r =>
      match r.rotate version keys with
      | (.staleVersion _, _) => t
      | (.rotated, r') =>
          { t with server := t.server.updateRoom room fun _ => r' }.note fun s =>
            if account ∈ keys.map KeyWrap.userAddress then
              { s with wrapped := room :: s.wrapped }
            else { s with rotated := room :: s.rotated }

/-- The first database call of a request. -/
def firstCall (x : TenancyInput) (t : Tenancy) : TenancyCall → Tenancy × TenancyProc
  | .evict => (t.evictFromAllRooms account, refreshing)
  | .accept room =>
      match t.server.accept account room with
      | .ok p => ({ t with server := p.1 }, loading)
      | .error _ => (t, done)
  | .redeem tokenHash =>
      match t.server.redeem account tokenHash x.now x.now' with
      | .ok p =>
          ({ t with server := p.1 }, if p.2 = "Already a member" then done else loading)
      | .error _ => (t, done)
  | .publish key sig => (t.setEncryptionKey account key sig, done)
  | .list =>
      let p := t.server.provisionStaticRooms agentOf account
      ({ t with server := p.1 }, if account ∈ p.2 then loading else done)
  | .connect room => (t, if x.full then done else registering (t.loadView account room))
  | .disconnect id => (t.unregister id, done)
  | .invite caller room invitee =>
      match t.server.invite caller room invitee with
      | .ok p =>
          ({ t with server := p.1 }.note fun s =>
            if invitee = account then { s with invited := room :: s.invited } else s, done)
      | .error _ => (t, done)
  | .store caller room wrap version =>
      match t.server.store caller room wrap version with
      | .ok p =>
          ({ t with server := p.1 }.note fun s =>
            if wrap.userAddress = account then { s with wrapped := room :: s.wrapped } else s,
            done)
      | .error _ => (t, done)
  | .rotate caller room newVersion keys =>
      (t, if t.server.isMember room caller then
          match Server.rotateBody newVersion keys with
          | .ok version => covering room version keys
          | .error _ => done
        else done)

/-- The next step. -/
def advance (x : TenancyInput) (t : Tenancy) : TenancyProc → Tenancy × TenancyProc
  | called call =>
      (t, if call.authenticates account t.suspended then admitted call else done)
  | admitted call => firstCall agentOf account x t call
  | refreshing => ({ t with suspended := true }, answering)
  -- The account is sent a notice. Its connections are not refreshed.
  | answering => (t, done)
  | loading => (t, storing (t.loadView account none))
  | storing rooms => (t.setUserView rooms, done)
  | registering rooms => (if t.admits x.full then t.register rooms else t, done)
  | covering room version keys =>
      (t, match Server.coverage (t.server.listMembers room) keys with
        | .ok _ => rotating room version keys
        | .error _ => done)
  | rotating room version keys => (commit account t room version keys, done)
  | done => (t, done)

def IsDone : TenancyProc → Bool
  | done => true
  | _ => false

/-- An eviction that is still to be answered. -/
def Answers : TenancyProc → Prop
  | refreshing | answering => True
  | _ => False

end TenancyProc

/-- The requests and the tables. -/
abbrev Tenancies := Pool Tenancy TenancyProc

/-- The account has nothing in the room but what somebody else granted it since, and a room it
    was taken out of is to be rotated or has been rotated without it. -/
structure Room.Severed (account : WalletAddress) (s : Aftermath) (id : RoomId) (r : Room) :
    Prop where
  member : account ∈ r.members → id ∈ s.invited
  admin : account ∉ r.admins
  invitation : r.hasPendingInvitation account = true → id ∈ s.invited
  wrap : r.holdsKey account → id ∈ s.wrapped
  flagged : s.lost id = true → r.keyRotationPending = true ∨ id ∈ s.rotated

/-- It has no access, and no published key. -/
def Tenancy.Severed (account : WalletAddress) (t : Tenancy) (s : Aftermath) : Prop :=
  (∀ id r, t.server.rooms id = some r → r.Severed account s id) ∧
    Table.lookup Prod.fst account t.published = none

/-- None of its connections has in its view a room it was taken out of. -/
def Tenancy.Blind (t : Tenancy) (s : Aftermath) : Prop :=
  ∀ w ∈ t.watchers, ∀ id, s.lost id = true → w.rooms id = false

namespace Tenancies

variable (agentOf : WalletAddress → WalletAddress) (account : WalletAddress)

/-- The system after a turn. -/
abbrev step (p : Tenancies) (turn : Turn TenancyCall TenancyInput) : Tenancies :=
  Pool.step TenancyProc.called (TenancyProc.advance agentOf account) p turn

/-- Once the eviction and all the requests have finished, the account has no access. -/
def Severed (p : Tenancies) : Prop :=
  (∀ c ∈ p.procs, c.IsDone = true) → ∀ s ∈ p.shared.since,
    p.shared.Severed account s ∧ p.shared.Blind s

/-- The eviction is still to be answered, or no connection sees what it must not. -/
def Settles (p : Tenancies) (s : Aftermath) : Prop :=
  p.shared.Blind s ∨ ∃ c ∈ p.procs, c.Answers

/-- After the eviction the account redeems no live link, publishes no key and lists no rooms;
    no rotation is committed that wraps to it, before there has been one that does not; when
    the eviction is answered no connection sees one of the rooms, and afterwards no view is
    stored that has one of them. -/
def Allows (p : Tenancies) (x : TenancyInput) : TenancyProc → Prop
  | .admitted (.redeem tokenHash) =>
      p.shared.since.isSome = true → ∀ i, p.shared.server.findByHash tokenHash = some i →
        p.shared.server.isMember i.roomId account = false → i.refusal x.now = none →
          p.shared.server.roomInvites.any (Invite.spendable tokenHash x.now') = false
  | .admitted (.publish _ _) | .admitted .list => p.shared.since.isSome = false
  | .rotating room version keys =>
      ∀ s ∈ p.shared.since, ∀ r ∈ p.shared.server.rooms room,
        version = r.currentKeyVersion + 1 → account ∈ keys.map KeyWrap.userAddress →
          s.lost room = true → room ∈ s.rotated
  | .answering => ∀ s ∈ p.shared.since, p.shared.Blind s
  | .storing rooms =>
      ∀ s ∈ p.shared.since, p.shared.watchers = [] ∨ (∃ c ∈ p.procs, c.Answers) ∨
        ∀ id, s.lost id = true → rooms id = false
  | .registering rooms =>
      ∀ s ∈ p.shared.since, p.shared.admits x.full = false ∨ (∃ c ∈ p.procs, c.Answers) ∨
        ∀ id, s.lost id = true → rooms id = false
  | _ => True

/-- The condition on a step. -/
def Contained (p : Tenancies) : Turn TenancyCall TenancyInput → Prop
  | .start _ => True
  | .tick i x => ∀ c ∈ p.procs[i]?, p.Allows account x c

/-- What holds from the eviction on. -/
def Inv (p : Tenancies) : Prop :=
  ∀ s ∈ p.shared.since, p.shared.Severed account s ∧ p.Settles s

section

variable {agentOf account} {p : Tenancies} {i : Nat} {c c' : TenancyProc} {t t' : Tenancy}
  {s s' : Aftermath} {id : RoomId}

/-! ### What keeps the account out of a room -/

/-- The same rooms, with more that others have done. -/
structure Extends (s s' : Aftermath) : Prop where
  lost : s'.lost = s.lost
  invited : ∀ id ∈ s.invited, id ∈ s'.invited
  wrapped : ∀ id ∈ s.wrapped, id ∈ s'.wrapped
  rotated : ∀ id ∈ s.rotated, id ∈ s'.rotated

theorem extends_refl (s : Aftermath) : Extends s s :=
  ⟨rfl, fun _ h => h, fun _ h => h, fun _ h => h⟩

theorem severed_mono {r : Room} (hs : Extends s s') (h : r.Severed account s id) :
    r.Severed account s' id where
  member hm := hs.invited id (h.member hm)
  admin := h.admin
  invitation hp := hs.invited id (h.invitation hp)
  wrap hw := hs.wrapped id (h.wrap hw)
  flagged hl := by
    rw [hs.lost] at hl
    exact (h.flagged hl).imp_right (hs.rotated id)

-- The transaction takes everything, and leaves the flag where the account was a member.
theorem severed_evict (r : Room) (hlost : s.lost id = r.isMember account) :
    (r.evict account).Severed account s id := by
  have hwrap : ¬ (r.deleteUserKeys account).holdsKey account := by
    rintro ⟨v, hv⟩
    exact ((Room.keyExists_deleteUserKeys r account account v).1 hv).2 rfl
  have hinvited : ((((r.deleteUserKeys account).removeMember account).removeAdmin
      account).deleteInvitation account).hasPendingInvitation account = true → False := by
    intro h
    exact ((Room.hasPendingInvitation_deleteInvitation _ account account).1 h).2 rfl
  unfold Room.evict
  by_cases hmember : r.isMember account = true
  · rw [if_pos hmember]
    refine ⟨fun h => ?_, fun h => ?_, fun h => (hinvited h).elim, fun h => (hwrap h).elim,
      fun _ => Or.inl rfl⟩
    · exact absurd rfl ((Room.mem_removeMember (r.deleteUserKeys account) account account).1 h).2
    · exact absurd rfl (of_decide_eq_true (List.mem_filter.1 h).2)
  · rw [if_neg hmember]
    refine ⟨fun h => ?_, fun h => ?_, fun h => (hinvited h).elim, fun h => (hwrap h).elim,
      fun hl => ?_⟩
    · exact absurd rfl ((Room.mem_removeMember (r.deleteUserKeys account) account account).1 h).2
    · exact absurd rfl (of_decide_eq_true (List.mem_filter.1 h).2)
    · rw [hlost] at hl
      exact absurd hl hmember

-- Accepting takes an invitation, which somebody else has given since.
theorem severed_accept {r : Room} (hpending : r.hasPendingInvitation account = true)
    (h : r.Severed account s id) :
    ((r.addMember account).deleteInvitation account).Severed account s id where
  member _ := h.invitation hpending
  admin := by
    change account ∉ (r.addMember account).admins
    unfold Room.addMember
    split <;> exact h.admin
  invitation hp := absurd rfl
    ((Room.hasPendingInvitation_deleteInvitation (r.addMember account) account account).1 hp).2
  wrap := by
    rintro ⟨v, hv⟩
    refine h.wrap ⟨v, ?_⟩
    rwa [Room.keyExists_congr (r := r) (by simp)] at hv
  flagged hl := by
    rw [Room.deleteInvitation_keyRotationPending, Room.addMember_keyRotationPending]
    exact h.flagged hl

theorem severed_invite {r : Room} {invitee caller : WalletAddress} (hs : Extends s s')
    (hnew : account = invitee → id ∈ s'.invited) (h : r.Severed account s id) :
    (r.createInvitation invitee caller).Severed account s' id := by
  have hmono := severed_mono hs h
  refine ⟨hmono.member, hmono.admin, fun hp => ?_, hmono.wrap, hmono.flagged⟩
  rcases (Room.hasPendingInvitation_createInvitation r invitee caller account).1 hp with hp | hp
  · exact hmono.invitation hp
  · exact hnew hp

theorem severed_storeKey {r : Room} {wrap : KeyWrap} {v : Nat} (hs : Extends s s')
    (hnew : account = wrap.userAddress → id ∈ s'.wrapped) (h : r.Severed account s id) :
    (r.storeKey wrap v).Severed account s' id := by
  have hmono := severed_mono hs h
  refine ⟨hmono.member, hmono.admin, hmono.invitation, ?_, hmono.flagged⟩
  rintro ⟨v', hv⟩
  rcases (Room.keyExists_storeKey r wrap v account v').1 hv with hv | ⟨hw, -⟩
  · exact hmono.wrap ⟨v', hv⟩
  · exact hnew hw

-- A rotation clears the flag, and goes down as one without the account or as its wrap.
theorem severed_rotate {r : Room} {keys : List KeyWrap} {v : Nat} (hs : Extends s s')
    (hwrapped : account ∈ keys.map KeyWrap.userAddress → id ∈ s'.wrapped)
    (hrotated : s.lost id = true → id ∈ s'.rotated) (h : r.Severed account s id) :
    ({ r with keys := (r.installWraps keys v).keys, currentKeyVersion := v,
              keyRotationPending := false } : Room).Severed account s' id := by
  have hmono := severed_mono hs h
  refine ⟨hmono.member, hmono.admin, hmono.invitation, ?_, fun hl => ?_⟩
  · rintro ⟨v', hv⟩
    rcases (Room.keyExists_installWraps keys r v account v').1 hv with hv | ⟨hw, -⟩
    · exact hmono.wrap ⟨v', hv⟩
    · exact hwrapped hw
  · rw [hs.lost] at hl
    exact Or.inr (hrotated hl)

-- A statement on one room leaves the account out of the others.
theorem severed_updateRoom {room : RoomId} {f : Room → Room} (hs : Extends s s')
    (hf : ∀ r, t.server.rooms room = some r → r.Severed account s room →
      (f r).Severed account s' room) (h : t.Severed account s)
    (hserver : t'.server.rooms = (t.server.updateRoom room f).rooms)
    (hpublished : t'.published = t.published) : t'.Severed account s' := by
  refine ⟨fun id r hr => ?_, by rw [hpublished]; exact h.2⟩
  rw [hserver, Server.rooms_updateRoom] at hr
  by_cases hid : id = room
  · rw [if_pos hid] at hr
    subst hid
    rcases Option.map_eq_some_iff.1 hr with ⟨r₀, hr₀, rfl⟩
    exact hf r₀ hr₀ (h.1 id r₀ hr₀)
  · rw [if_neg hid] at hr
    exact severed_mono hs (h.1 id r hr)

/-! ### What a step keeps -/

-- An eviction that is to be answered still is, unless it is the one that moves.
theorem answers_set (ht : p.procs[i]? = some c) (hc : c.Answers → c'.Answers)
    (h : ∃ d ∈ p.procs, d.Answers) : ∃ d ∈ p.procs.set i c', d.Answers :=
  Pool.exists_mem_set ht hc (fun _ hd => hd) h

/-- A step after which the account is still out, and its connections see no more. -/
theorem inv_of_severed (hi : p.Inv account) (ht : p.procs[i]? = some c)
    (hsevered : ∀ s' ∈ t'.since, ∃ s ∈ p.shared.since, s'.lost = s.lost ∧
      (p.shared.Severed account s → t'.Severed account s'))
    (hblind : ∀ s' ∈ t'.since, p.shared.Blind s' → t'.Blind s')
    (hc : c.Answers → c'.Answers) : Inv account ⟨t', p.procs.set i c'⟩ := by
  intro s' hs'
  rcases hsevered s' hs' with ⟨s, hs, hlost, hsev⟩
  have hold := hi s hs
  refine ⟨hsev hold.1, ?_⟩
  rcases hold.2 with hview | hanswers
  · left
    refine hblind s' hs' fun w hw id hid => hview w hw id ?_
    rwa [← hlost]
  · exact Or.inr (answers_set ht hc hanswers)

-- Nothing has changed that the account could have.
theorem inv_of_idle (hi : p.Inv account) (ht : p.procs[i]? = some c)
    (hc : c.Answers → c'.Answers) : Inv account ⟨p.shared, p.procs.set i c'⟩ :=
  inv_of_severed hi ht (fun s hs => ⟨s, hs, rfl, fun h => h⟩) (fun _ _ h => h) hc

-- Before the eviction there is nothing to keep.
theorem inv_of_before {p' : Tenancies} (h : p'.shared.since = none) : Inv account p' := by
  intro s hs
  rw [h] at hs
  cases hs

theorem since_note {f : Aftermath → Aftermath} (hs : s' ∈ (t.note f).since) :
    ∃ s ∈ t.since, s' = f s := by
  rcases Option.map_eq_some_iff.1 hs with ⟨s, hold, rfl⟩
  exact ⟨s, hold, rfl⟩

/-- The transaction of an eviction. -/
theorem inv_evict (ht : p.procs[i]? = some c) :
    Inv account ⟨p.shared.evictFromAllRooms account, p.procs.set i .refreshing⟩ := by
  rintro s hs
  cases hs
  have hlt := (List.getElem?_eq_some_iff.1 ht).1
  refine ⟨⟨fun id r hr => ?_, ?_⟩, Or.inr ⟨.refreshing, List.mem_set hlt _, trivial⟩⟩
  · rcases Option.map_eq_some_iff.1 hr with ⟨r₀, hr₀, rfl⟩
    exact severed_evict r₀ (Server.isMember_of_some hr₀ account)
  · exact (Table.lookup_erase account account p.shared.published).trans (if_pos rfl)

/-- A rotation that is allowed. -/
theorem severed_commit {room : RoomId} {v : Nat} {keys : List KeyWrap}
    (hallows : ∀ s ∈ t.since, ∀ r ∈ t.server.rooms room, v = r.currentKeyVersion + 1 →
      account ∈ keys.map KeyWrap.userAddress → s.lost room = true → room ∈ s.rotated) :
    (TenancyProc.commit account t room v keys).watchers = t.watchers ∧
      ∀ s' ∈ (TenancyProc.commit account t room v keys).since, ∃ s ∈ t.since,
        s'.lost = s.lost ∧ (t.Severed account s →
          (TenancyProc.commit account t room v keys).Severed account s') := by
  have hsame : ∀ s ∈ t.since, ∃ s₀ ∈ t.since, s.lost = s₀.lost ∧
      (t.Severed account s₀ → t.Severed account s) := fun s hs => ⟨s, hs, rfl, fun h => h⟩
  unfold TenancyProc.commit
  cases hr : t.server.rooms room with
  | none => exact ⟨rfl, hsame⟩
  | some r =>
      rcases r.rotate_cases v keys with ⟨-, hrotate⟩ | ⟨hversion, hrotate⟩
      · simp only [hrotate]
        exact ⟨trivial, hsame⟩
      · simp only [hrotate]
        refine ⟨rfl, fun s' hs' => ?_⟩
        rcases since_note hs' with ⟨s, hs, rfl⟩
        refine ⟨s, hs, ?_, fun h => ?_⟩
        · split <;> rfl
        · have hextends : Extends s (if account ∈ keys.map KeyWrap.userAddress then
              { s with wrapped := room :: s.wrapped }
            else { s with rotated := room :: s.rotated }) := by
            split
            · exact ⟨rfl, fun _ h => h, fun _ h => List.mem_cons_of_mem _ h, fun _ h => h⟩
            · exact ⟨rfl, fun _ h => h, fun _ h => h, fun _ h => List.mem_cons_of_mem _ h⟩
          refine severed_updateRoom hextends (fun r₀ hr₀ hsev => ?_) h rfl rfl
          rw [hr] at hr₀
          cases hr₀
          refine severed_rotate hextends (fun hcovered => ?_) (fun hlost => ?_) hsev
          · rw [if_pos hcovered]
            exact List.mem_cons_self
          · by_cases hcovered : account ∈ keys.map KeyWrap.userAddress
            · rw [if_pos hcovered]
              exact hallows s hs r hr hversion hcovered hlost
            · rw [if_neg hcovered]
              exact List.mem_cons_self

/-- The first call of a request. -/
theorem inv_firstCall (hi : p.Inv account) {x : TenancyInput} {call : TenancyCall}
    (ht : p.procs[i]? = some (.admitted call)) (hallows : p.Allows account x (.admitted call)) :
    Inv account ⟨(TenancyProc.firstCall agentOf account x p.shared call).1,
      p.procs.set i (TenancyProc.firstCall agentOf account x p.shared call).2⟩ := by
  have hnever : (TenancyProc.admitted call).Answers → ∀ d : TenancyProc, d.Answers :=
    fun h => h.elim
  cases call with
  | evict => exact inv_evict ht
  | accept room =>
      cases haccept : p.shared.server.accept account room with
      | error e =>
          simp only [TenancyProc.firstCall, haccept]
          exact inv_of_idle hi ht fun h => hnever h _
      | ok q =>
          simp only [TenancyProc.firstCall, haccept]
          rcases (Server.accept_eq_ok _ _ _ _).1 haccept with ⟨hpending, rfl⟩
          refine inv_of_severed hi ht (fun s hs => ⟨s, hs, rfl, fun h => ?_⟩) (fun _ _ h => h)
            fun h => hnever h _
          refine severed_updateRoom (extends_refl s) (fun r hr hsev => ?_) h rfl rfl
          rw [Server.pending_of_some hr] at hpending
          exact severed_accept hpending hsev
  | redeem tokenHash =>
      cases hredeem : p.shared.server.redeem account tokenHash x.now x.now' with
      | error e =>
          simp only [TenancyProc.firstCall, hredeem]
          exact inv_of_idle hi ht fun h => hnever h _
      | ok q =>
          simp only [TenancyProc.firstCall, hredeem]
          rcases (Server.redeem_eq_ok _ _ _ _ _ _).1 hredeem with
            ⟨link, r, hlink, hr, ⟨hmember, rfl⟩ | ⟨hnew, hlive, hspend, rfl⟩⟩
          · exact inv_of_idle hi ht fun h => hnever h _
          · -- Only before the eviction does a live link seat the account.
            cases hsince : p.shared.since with
            | none => exact inv_of_before rfl
            | some s =>
                have hdead := hallows (by rw [hsince]; rfl) link hlink
                  ((Server.isMember_of_some hr account).trans hnew) hlive
                rw [hspend] at hdead
                cases hdead
  | publish key sig =>
      have hnone : p.shared.since.isSome = false := hallows
      have hbefore : p.shared.since = none :=
        Option.isNone_iff_eq_none.1 (Option.isSome_eq_false_iff.1 hnone)
      refine inv_of_before ?_
      change (p.shared.setEncryptionKey account key sig).since = none
      unfold Tenancy.setEncryptionKey
      split <;> exact hbefore
  | list =>
      have hnone : p.shared.since.isSome = false := hallows
      have hbefore : p.shared.since = none :=
        Option.isNone_iff_eq_none.1 (Option.isSome_eq_false_iff.1 hnone)
      exact inv_of_before hbefore
  | connect room => exact inv_of_idle hi ht fun h => hnever h _
  | disconnect id =>
      refine inv_of_severed hi ht (fun s hs => ⟨s, hs, rfl, fun h => h⟩) (fun s _ h => ?_)
        fun h => hnever h _
      exact fun w hw => h w (List.mem_filter.1 hw).1
  | invite caller room invitee =>
      cases hinvite : p.shared.server.invite caller room invitee with
      | error e =>
          simp only [TenancyProc.firstCall, hinvite]
          exact inv_of_idle hi ht fun h => hnever h _
      | ok q =>
          simp only [TenancyProc.firstCall, hinvite]
          rcases Server.invite_ok hinvite with ⟨-, -, -, hserver⟩
          refine inv_of_severed hi ht (fun s' hs' => ?_) (fun _ _ h => h) fun h => hnever h _
          rcases since_note hs' with ⟨s, hs, rfl⟩
          refine ⟨s, hs, ?_, fun h => ?_⟩
          · split <;> rfl
          · have hextends : Extends s (if invitee = account then
                { s with invited := room :: s.invited } else s) := by
              split
              · exact ⟨rfl, fun _ h => List.mem_cons_of_mem _ h, fun _ h => h, fun _ h => h⟩
              · exact extends_refl s
            refine severed_updateRoom hextends (fun r hr hsev => ?_) h
              (congrArg Server.rooms hserver) rfl
            refine severed_invite hextends (fun heq => ?_) hsev
            rw [if_pos heq.symm]
            exact List.mem_cons_self
  | store caller room wrap version =>
      cases hstore : p.shared.server.store caller room wrap version with
      | error e =>
          simp only [TenancyProc.firstCall, hstore]
          exact inv_of_idle hi ht fun h => hnever h _
      | ok q =>
          simp only [TenancyProc.firstCall, hstore]
          rcases (Server.store_eq_ok _ _ _ _ _ _).1 hstore with ⟨v, -, -, hserver⟩
          refine inv_of_severed hi ht (fun s' hs' => ?_) (fun _ _ h => h) fun h => hnever h _
          rcases since_note hs' with ⟨s, hs, rfl⟩
          refine ⟨s, hs, ?_, fun h => ?_⟩
          · split <;> rfl
          · have hextends : Extends s (if wrap.userAddress = account then
                { s with wrapped := room :: s.wrapped } else s) := by
              split
              · exact ⟨rfl, fun _ h => h, fun _ h => List.mem_cons_of_mem _ h, fun _ h => h⟩
              · exact extends_refl s
            refine severed_updateRoom hextends (fun r hr hsev => ?_) h
              (congrArg (fun q => Server.rooms q.1) hserver) rfl
            refine severed_storeKey hextends (fun heq => ?_) hsev
            rw [if_pos heq.symm]
            exact List.mem_cons_self
  | rotate caller room newVersion keys => exact inv_of_idle hi ht fun h => hnever h _

theorem contained_tick {x : TenancyInput} (ht : p.procs[i]? = some c)
    (h : p.Allows account x c) : p.Contained account (.tick i x) := by
  intro d hd
  rw [ht] at hd
  cases hd
  exact h

/-- The step lemma. -/
theorem severed_step (p : Tenancies) (turn : Turn TenancyCall TenancyInput)
    (hi : p.Inv account) (h : p.Contained account turn) :
    (p.step agentOf account turn).Inv account := by
  cases turn with
  | start call =>
      intro s hs
      refine ⟨(hi s hs).1, ?_⟩
      rcases (hi s hs).2 with hview | ⟨d, hd, hanswers⟩
      · exact Or.inl hview
      · exact Or.inr ⟨d, List.mem_append_left _ hd, hanswers⟩
  | tick i x =>
      rcases ht : p.procs[i]? with _ | c
      · rwa [step, Pool.step_tick_none ht]
      have hallows : p.Allows account x c := h c ht
      rw [step, Pool.step_tick ht]
      cases c with
      | called call => exact inv_of_idle hi ht fun h => h.elim
      | admitted call => exact inv_firstCall hi ht hallows
      | refreshing =>
          exact inv_of_severed hi ht (fun s hs => ⟨s, hs, rfl, fun h => h⟩) (fun _ _ h => h)
            fun _ => trivial
      | answering => exact fun s hs => ⟨(hi s hs).1, Or.inl (hallows s hs)⟩
      | loading => exact inv_of_idle hi ht fun h => h.elim
      | storing rooms =>
          intro s hs
          refine ⟨(hi s hs).1, ?_⟩
          rcases hallows s hs with hnobody | hanswers | hrooms
          · left
            intro w hw
            change w ∈ p.shared.watchers.map _ at hw
            rw [hnobody] at hw
            cases hw
          · exact Or.inr (answers_set ht (fun h => h.elim) hanswers)
          · left
            intro w hw
            rcases List.mem_map.1 hw with ⟨old, -, rfl⟩
            exact hrooms
      | registering rooms =>
          simp only [TenancyProc.advance]
          by_cases hadmits : p.shared.admits x.full = true
          · rw [if_pos hadmits]
            intro s hs
            refine ⟨(hi s hs).1, ?_⟩
            rcases hallows s hs with hrefused | hanswers | hrooms
            · rw [hadmits] at hrefused
              cases hrefused
            · exact Or.inr (answers_set ht (fun h => h.elim) hanswers)
            · rcases (hi s hs).2 with hview | hanswers
              · left
                intro w hw
                rcases List.mem_append.1 hw with hw | hw
                · exact hview w hw
                · cases List.mem_singleton.1 hw
                  exact hrooms
              · exact Or.inr (answers_set ht (fun h => h.elim) hanswers)
          · rw [if_neg hadmits]
            exact inv_of_idle hi ht fun h => h.elim
      | covering room version keys => exact inv_of_idle hi ht fun h => h.elim
      | rotating room version keys =>
          have hcommit := severed_commit (t := p.shared) (v := version) hallows
          refine inv_of_severed hi ht hcommit.2 (fun s _ h w hw => ?_) fun h => h.elim
          change w ∈ (TenancyProc.commit account p.shared room version keys).watchers at hw
          rw [hcommit.1] at hw
          exact h w hw
      | done => exact inv_of_idle hi ht fun h => h

theorem severed_of_inv (p : Tenancies) (hi : p.Inv account) : p.Severed account := by
  intro hdone s hs
  refine ⟨(hi s hs).1, ?_⟩
  rcases (hi s hs).2 with hview | ⟨c, hc, hanswers⟩
  · exact hview
  · -- Nobody is left to answer.
    have hover := hdone c hc
    cases c with
    | refreshing => cases hover
    | answering => cases hover
    | _ => exact hanswers.elim

/-- **Eviction.** From whatever tables and connections, in every run of an eviction with
    requests of the account and of other members that meets the condition, the account has no
    access left once they have all finished, but what somebody else granted it since. -/
theorem eviction_severs (agentOf : WalletAddress → WalletAddress) (account : WalletAddress)
    (server : Server) (published : List (WalletAddress × String × String))
    (watchers : List Watcher) (nextId : Nat) (turns : List (Turn TenancyCall TenancyInput))
    (h : Run.Along (step agentOf account) (Contained account)
      (Pool.idle ⟨server, published, watchers, nextId, false, none⟩) turns) :
    Run.Throughout (step agentOf account) (Severed account)
      (Pool.idle ⟨server, published, watchers, nextId, false, none⟩) turns :=
  Run.throughout_mono severed_of_inv _ turns
    (Run.throughout_of_along severed_step _ turns (inv_of_before rfl) h)

end

end Tenancies

namespace Sample

/-- Nothing is in the way. -/
def onTime : TenancyInput := ⟨1, 1, false⟩

/-- A request goes on for a number of steps. -/
def takes (i n : Nat) : List (Turn TenancyCall TenancyInput) := List.replicate n (.tick i onTime)

/-- Nobody's agent. -/
def agentless (_ : WalletAddress) : WalletAddress := carol

/-- The channel of Alice and Bob, and a link to it. -/
def linked : Server :=
  { keyed.server with roomInvites := [⟨"i1", team, "hash", alice, 0, 100, none, 0, none⟩] }

def quietly : Tenancies := Pool.idle ⟨linked, [(bob, "04aa", "0xsig")], [], 1, false, none⟩

/-- Bob has a stream. While he is evicted it is closed, and then Alice rotates the key. -/
def evictedBob : List (Turn TenancyCall TenancyInput) :=
  .start (.connect none) :: takes 0 3 ++ .start .evict :: takes 1 3 ++
    .start (.disconnect 1) :: takes 2 2 ++ takes 1 1 ++
      .start (.rotate alice team (some 2) [wrapFor alice]) :: takes 3 4

theorem eviction_severs_bob :
    Run.Throughout (Tenancies.step agentless bob) (Tenancies.Severed bob) quietly evictedBob :=
  Tenancies.eviction_severs agentless bob linked _ [] 1 evictedBob ⟨trivial,
    Tenancies.contained_tick rfl trivial, Tenancies.contained_tick rfl trivial,
    Tenancies.contained_tick rfl (fun s hs => by cases hs), trivial,
    Tenancies.contained_tick rfl trivial, Tenancies.contained_tick rfl trivial,
    Tenancies.contained_tick rfl trivial, trivial,
    Tenancies.contained_tick rfl trivial, Tenancies.contained_tick rfl trivial,
    Tenancies.contained_tick rfl (fun s _ w hw => by cases hw), trivial,
    Tenancies.contained_tick rfl trivial, Tenancies.contained_tick rfl trivial,
    Tenancies.contained_tick rfl trivial,
    Tenancies.contained_tick rfl (fun s _ r _ _ hcovered => absurd hcovered (by decide)),
    trivial⟩

/-- A request that is authenticated goes on after an eviction. -/
def outrun (call : TenancyCall) (before after : Nat) : List (Turn TenancyCall TenancyInput) :=
  .start call :: takes 0 before ++ .start .evict :: takes 1 4 ++ takes 0 after

/-- Bob redeems a link, lists his rooms, publishes his key, keeps a stream; Alice has read who
    is in the room, and wraps the next key to Bob. -/
theorem evicted_returns :
    ¬ Run.Throughout (Tenancies.step agentless bob) (Tenancies.Severed bob) quietly
        (outrun (.redeem "hash") 1 3) ∧
      ¬ Run.Throughout (Tenancies.step agentless bob) (Tenancies.Severed bob) quietly
        (outrun .list 1 3) ∧
      ¬ Run.Throughout (Tenancies.step agentless bob) (Tenancies.Severed bob) quietly
        (outrun (.publish "04bb" "0xsig") 1 1) ∧
      ¬ Run.Throughout (Tenancies.step agentless bob) (Tenancies.Severed bob) quietly
        (outrun (.connect none) 3 0) ∧
      ¬ Run.Throughout (Tenancies.step agentless bob) (Tenancies.Severed bob) quietly
        (outrun (.rotate alice team (some 2) [wrapFor alice, wrapFor bob]) 3 1) := by
  refine ⟨fun h => ?_, fun h => ?_, fun h => ?_, fun h => ?_, fun h => ?_⟩
  · have hlast := Run.throughout_last _ _ h (by decide +kernel) _ rfl
    exact absurd ((hlast.1.1 team _ rfl).member (by decide +kernel)) (by decide +kernel)
  · have hlast := Run.throughout_last _ _ h (by decide +kernel) _ rfl
    exact absurd ((hlast.1.1 (staticRoomId .note bob) _ rfl).member (by decide +kernel))
      (by decide +kernel)
  · have hlast := Run.throughout_last _ _ h (by decide +kernel) _ rfl
    exact absurd hlast.1.2 (by decide +kernel)
  · have hlast := Run.throughout_last _ _ h (by decide +kernel) _ rfl
    exact absurd (hlast.2 _ List.mem_cons_self team (by decide +kernel)) (by decide +kernel)
  · have hlast := Run.throughout_last _ _ h (by decide +kernel) _ rfl
    exact absurd ((hlast.1.1 team _ rfl).flagged (by decide +kernel)) (by decide +kernel)

end Sample

end PocketSkynet
