import PocketSkynet.Server.Sample
import PocketSkynet.Server.Transitions

/-!
# Room-Key Completeness

A room is complete when a clear rotation flag can be trusted: if the room is
keyed and no rotation is pending, every member holds a wrap at the current
epoch. A member without one reads nothing that is sent, and nothing tells the
others to rotate.

Rotations, departures and link redemptions keep a complete room complete. A
rotation covers the whole roster, and the roster is the whole membership
because members have profile rows. A departure and a redemption into a keyed
room raise the flag. Three routes need care, and `KeepsComplete` says what each
needs. Accepting an invitation seats a person without looking at their wraps
and without raising the flag. Declining one deletes the caller's wraps even if
the caller is a member. Storing the first wrap of a room keys it for its
recipient alone.

`complete_iff` is sharp: the runs in which every room stays complete are
exactly the runs in which these three routes are used with that care.

## Main definitions

* `Room.Complete`: Every member of a keyed, settled room holds the current wrap.
* `KeepsComplete`: What a request needs in order to keep rooms complete.

## Theorems

* `complete_step`: A careful request keeps every room complete.
* `complete_iff`: Runs keep rooms complete exactly when they are careful.
* `unwrapped_accept`: An invitee without a wrap joins a settled room.
-/

namespace PocketSkynet

/-- If the room is keyed and no rotation is pending, every member holds a wrap
    at the current epoch. -/
def Room.Complete (r : Room) : Prop :=
  r.keyRotationPending = false → r.hasEncryption = true →
    ∀ a ∈ r.members, r.keyExists a r.currentKeyVersion = true

namespace Server

/-- Every room is complete. -/
def Complete (s : Server) : Prop := ∀ id r, s.rooms id = some r → r.Complete

/-- What a request needs in order to keep rooms complete. Only a request that
    is let through matters. -/
def KeepsComplete (s : Server) : Request → Prop
  | .accept a id => a ∈ s.users → ∀ r, s.rooms id = some r → r.hasPendingInvitation a = true →
      r.keyRotationPending = true ∨ r.hasEncryption = false ∨
        r.keyExists a r.currentKeyVersion = true
  | .decline a id => a ∈ s.users → ∀ r, s.rooms id = some r → r.hasPendingInvitation a = true →
      r.keyRotationPending = true ∨ a ∉ r.members ∨ ∀ b, r.holdsKey b → b = a
  | .store caller id wrap raw => caller ∈ s.users → ∀ r v, s.rooms id = some r →
      keyVersion "keyVersion" raw 1 = .ok v → s.mayStore caller id wrap.userAddress v = true →
      r.keyRotationPending = true ∨ r.hasEncryption = true ∨
        ∀ m ∈ r.members, m = wrap.userAddress ∧ v = r.currentKeyVersion
  | _ => True

/-- Rooms are complete and their members have profile rows. -/
structure CompleteInv (s : Server) : Prop where
  complete : s.Complete
  members : s.EveryRoom fun users r => ∀ a ∈ r.members, a ∈ users

/-- Nobody without a profile row is ever seated. -/
theorem members_step (s : Server) (q : Request)
    (h : s.EveryRoom fun users r => ∀ a ∈ r.members, a ∈ users) :
    (s.step q).EveryRoom fun users r => ∀ a ∈ r.members, a ∈ users := by
  refine everyRoom_step ?_ ?_ ?_ h
  · intro id a ha b hb
    rw [List.mem_singleton.1 hb]
    exact ha
  · exact fun users r hsub hr a ha => hsub a (hr a ha)
  · intro id r r' _ hmove hmembers
    cases hmove with
    | unchanged => exact hmembers
    | invited => exact hmembers
    | accepted a huser hpending =>
        intro b hb
        rcases (Room.mem_addMember r a b).1 hb with hb | rfl
        · exact hmembers b hb
        · exact huser
    | declined => exact hmembers
    | redeemed a hash now now' i huser =>
        intro b hb
        rcases (Room.mem_seat r a b).1 hb with hb | rfl
        · exact hmembers b hb
        · exact huser
    | stored => exact hmembers
    | rotated caller raw keys hcover => exact hmembers
    | left a => exact fun b hb => hmembers b ((Room.mem_depart r a b).1 hb).1
    | kicked caller a => exact fun b hb => hmembers b ((Room.mem_depart r a b).1 hb).1

end Server

namespace Room

theorem complete_of_pending {r : Room} (h : r.keyRotationPending = true) : r.Complete := by
  intro hclear
  rw [h] at hclear
  cases hclear

theorem complete_of_unkeyed {r : Room} (h : r.hasEncryption = false) : r.Complete := by
  intro _ hkeyed
  rw [h] at hkeyed
  cases hkeyed

/-- What an acceptance needs, and what it comes to. -/
theorem complete_accepted_iff {r : Room} (a : WalletAddress) (h : r.Complete) :
    ((r.addMember a).deleteInvitation a).Complete ↔
      r.keyRotationPending = true ∨ r.hasEncryption = false ∨
        r.keyExists a r.currentKeyVersion = true := by
  have hkeys : ((r.addMember a).deleteInvitation a).keys = r.keys := addMember_keys r a
  unfold Complete
  simp only [deleteInvitation_keyRotationPending, addMember_keyRotationPending,
    deleteInvitation_currentKeyVersion, addMember_currentKeyVersion, deleteInvitation_members,
    keyExists_congr hkeys, hasEncryption_congr hkeys, mem_addMember]
  constructor
  · intro hc
    by_contra hno
    simp only [not_or, Bool.not_eq_true, Bool.not_eq_false] at hno
    obtain ⟨hclear, hkeyed, hlacks⟩ := hno
    rw [hc hclear hkeyed a (Or.inr rfl)] at hlacks
    cases hlacks
  · rintro hcare hclear hkeyed b (hb | rfl)
    · exact h hclear hkeyed b hb
    · rw [hclear, hkeyed] at hcare
      simpa using hcare

/-- What a refusal needs, and what it comes to: the caller's own wraps go. -/
theorem complete_declined_iff {r : Room} (a : WalletAddress) (h : r.Complete) :
    ((r.deleteInvitation a).deleteUserKeys a).Complete ↔
      r.keyRotationPending = true ∨ a ∉ r.members ∨ ∀ b, r.holdsKey b → b = a := by
  have hexists : ∀ b v, ((r.deleteInvitation a).deleteUserKeys a).keyExists b v = true ↔
      r.keyExists b v = true ∧ b ≠ a := keyExists_deleteUserKeys (r.deleteInvitation a) a
  constructor
  · intro hc
    by_contra hno
    simp only [not_or, Bool.not_eq_true, not_not, not_forall] at hno
    obtain ⟨hclear, hmember, b, ⟨v, hb⟩, hne⟩ := hno
    have hkeyed := (hasEncryption_iff _).2 ⟨b, v, (hexists b v).2 ⟨hb, hne⟩⟩
    exact ((hexists a _).1 (hc hclear hkeyed a hmember)).2 rfl
  · rintro (hp | hout | hsole)
    · exact complete_of_pending hp
    · intro hclear hkeyed b hb
      obtain ⟨c, v, hc⟩ := (hasEncryption_iff _).1 hkeyed
      have hkeyed : r.hasEncryption = true := (hasEncryption_iff r).2 ⟨c, v, ((hexists c v).1 hc).1⟩
      refine (hexists b _).2 ⟨h hclear hkeyed b hb, ?_⟩
      rintro rfl
      exact hout hb
    · refine complete_of_unkeyed ?_
      by_contra hkeyed
      obtain ⟨c, v, hc⟩ := (hasEncryption_iff _).1 (Bool.not_eq_false _ ▸ hkeyed)
      have hc := (hexists c v).1 hc
      exact hc.2 (hsole c ⟨v, hc.1⟩)

/-- What storing a wrap needs, and what it comes to: only the first wrap of a
    settled room can leave members behind. -/
theorem complete_stored_iff {r : Room} (wrap : KeyWrap) (v : Nat) (h : r.Complete) :
    (r.storeKey wrap v).Complete ↔
      r.keyRotationPending = true ∨ r.hasEncryption = true ∨
        ∀ m ∈ r.members, m = wrap.userAddress ∧ v = r.currentKeyVersion := by
  have hexists := keyExists_storeKey r wrap v
  constructor
  · intro hc
    by_contra hno
    simp only [not_or, Bool.not_eq_true] at hno
    obtain ⟨hclear, hunkeyed, hmembers⟩ := hno
    refine hmembers fun m hm => ?_
    have hkeyed := (hasEncryption_iff (r.storeKey wrap v)).2
      ⟨wrap.userAddress, v, (hexists _ _).2 (Or.inr ⟨rfl, rfl⟩)⟩
    rcases (hexists m _).1 (hc hclear hkeyed m hm) with hold | ⟨he, hv⟩
    · have hkeyed := (hasEncryption_iff r).2 ⟨m, _, hold⟩
      rw [hunkeyed] at hkeyed
      cases hkeyed
    · exact ⟨he, hv.symm⟩
  · rintro hcare hclear _ b hb
    rcases hcare with hp | he | hsole
    · rw [show r.keyRotationPending = false from hclear] at hp
      cases hp
    · exact (hexists b _).2 (Or.inl (h hclear he b hb))
    · obtain ⟨hm, hv⟩ := hsole b hb
      exact (hexists b _).2 (Or.inr ⟨hm, hv.symm⟩)

/-- A rotation over the whole membership leaves a complete room. -/
theorem complete_install {r : Room} {keys : List KeyWrap}
    (hcover : ∀ a ∈ r.members, a ∈ keys.map KeyWrap.userAddress) :
    (r.install keys).Complete := fun _ _ a ha =>
  (keyExists_install r keys a _).2 (Or.inr ⟨hcover a ha, rfl⟩)

end Room

namespace Server

/-- The step lemma: a careful request keeps every room complete. -/
theorem complete_step (s : Server) (q : Request) (h : s.CompleteInv)
    (hcare : s.KeepsComplete q) : (s.step q).CompleteInv := by
  refine ⟨?_, s.members_step q h.members⟩
  have hfresh : ∀ id a, (Room.create id a).Complete := fun id a _ hkeyed => by cases hkeyed
  refine everyRoom_step (P := fun _ r => r.Complete) (fun id a _ => hfresh id a)
    (fun _ _ _ hr => hr) ?_ h.complete
  intro id r r' hr hmove hcomplete
  cases hmove with
  | unchanged => exact hcomplete
  | invited => exact hcomplete
  | accepted a huser hpending =>
      exact (Room.complete_accepted_iff a hcomplete).2 (hcare huser r hr hpending)
  | declined a huser hpending =>
      exact (Room.complete_declined_iff a hcomplete).2 (hcare huser r hr hpending)
  | redeemed a hash now now' =>
      cases hkeyed : r.hasEncryption with
      | true => exact Room.complete_of_pending (by rw [Room.seat_keyRotationPending, hkeyed]; rfl)
      | false =>
          exact Room.complete_of_unkeyed
            ((Room.hasEncryption_congr (r.seat_keys a)).trans hkeyed)
  | stored caller wrap raw v huser hversion hmay =>
      exact (Room.complete_stored_iff wrap v hcomplete).2 (hcare huser r v hr hversion hmay)
  | rotated caller raw keys hcover =>
      exact Room.complete_install fun a ha =>
        (hcover a).2 ⟨ha, h.members id r hr a ha⟩
  | left a => exact Room.complete_of_pending (r.depart_keyRotationPending a)
  | kicked caller a => exact Room.complete_of_pending (r.depart_keyRotationPending a)

/-- The converse: a request that leaves every room complete was careful. -/
theorem careful_of_complete (s : Server) (q : Request) (h : s.CompleteInv)
    (hnext : (s.step q).Complete) : s.KeepsComplete q := by
  cases q with
  | accept a id =>
      intro huser r hr hpending
      have hstep : s.step (.accept a id) = _ := step_of_route huser
        ((accept_eq_ok s a id _).2 ⟨by rwa [pending_of_some hr], rfl⟩)
      refine (Room.complete_accepted_iff a (h.complete id r hr)).1 (hnext id _ ?_)
      simp [hstep, hr]
  | decline a id =>
      intro huser r hr hpending
      have hstep : s.step (.decline a id) = _ := step_of_route huser
        ((decline_eq_ok s a id _).2 ⟨by rwa [pending_of_some hr], rfl⟩)
      refine (Room.complete_declined_iff a (h.complete id r hr)).1 (hnext id _ ?_)
      simp [hstep, hr]
  | store caller id wrap raw =>
      intro huser r v hr hversion hmay
      have hstep : s.step (.store caller id wrap raw) = _ := step_of_route huser
        ((store_eq_ok s caller id wrap raw _).2 ⟨v, hversion, hmay, rfl⟩)
      refine (Room.complete_stored_iff wrap v (h.complete id r hr)).1 (hnext id _ ?_)
      simp [hstep, hr]
  | _ => trivial

/-- A server with no rooms is complete. -/
theorem completeInv_empty (admins : List WalletAddress) : (empty admins).CompleteInv where
  complete := fun _ _ h => by cases h
  members := fun _ _ h => by cases h

/-- **Room-key completeness.** In a run from an empty server every room is
    complete in every state exactly when every accept, decline and store of the
    run takes the care `KeepsComplete` asks for. -/
theorem complete_iff (admins : List WalletAddress) (qs : List Request) :
    Run.Throughout step Complete (empty admins) qs ↔
      Run.Along step KeepsComplete (empty admins) qs :=
  Run.throughout_iff_along complete_step (fun _ h => h.complete) careful_of_complete
    (empty admins) qs (completeInv_empty admins)

/-- Alice keys her room while she is alone in it and invites Bob, who accepts
    before anybody wraps the key for him. -/
def unwrappedInvitee : List Request :=
  [.login Sample.alice, .login Sample.bob, .createRoom Sample.alice Sample.team,
    .store Sample.alice Sample.team (Sample.wrapFor Sample.alice) (some 1),
    .invite Sample.alice Sample.team Sample.bob, .accept Sample.bob Sample.team]

/-- Bob is now a member of a keyed room with no rotation pending, and holds no
    wrap of it. -/
theorem unwrapped_accept : ¬ Run.Throughout step Complete (empty []) unwrappedInvitee := by
  intro h
  have hlast := Run.throughout_last _ _ h Sample.team _ rfl
  have hholds := hlast rfl rfl Sample.bob (by decide)
  revert hholds
  decide

end Server

end PocketSkynet
