import PocketSkynet.Server.Provision
import PocketSkynet.Server.Sample

/-!
# Orphan Wraps

A wrap is an orphan when its holder is neither a member of the room nor invited
to it. The key endpoints hand a member every wrap stored for them, so an orphan
is access waiting for its holder to come back.

Wraps are deleted by hand, next to each statement that ends a membership or an
invitation. Leaves, kicks and refusals do it. A provisioning pass, which drops
the members its roster no longer names, does not: `reconcile_keys` shows that it
touches no wrap at all. The runs without orphans, in which moreover everybody
who is removed loses their wraps on the spot, are therefore those whose passes
drop only people who hold none, and `noOrphans_iff` says so.

## Main definitions

* `Room.NoOrphans`: Every wrap belongs to a member or an invitee.
* `RemovesWraps`: An event leaves no wrap with anybody it removes.
* `DropsOnlyUnwrapped`: A pass drops nobody who holds a wrap.

## Theorems

* `noOrphans_step`: Every request keeps every room free of orphans.
* `noOrphans_pass`: So does a pass that drops only people without wraps.
* `noOrphans_iff`: The runs without orphans, characterised.
* `dropped_admin_keeps_wrap`: A former administrator keeps a lobby's key.
-/

namespace PocketSkynet

/-- Every wrap of the room belongs to a member or to an invitee. -/
def Room.NoOrphans (r : Room) : Prop :=
  ∀ a, r.holdsKey a → a ∈ r.members ∨ r.hasPendingInvitation a = true

namespace Server

/-- No room has an orphan wrap. -/
def NoOrphans (s : Server) : Prop := ∀ id r, s.rooms id = some r → r.NoOrphans

/-- Whoever the event removes from a room holds no wrap of it afterwards. -/
def RemovesWraps (agentOf : WalletAddress → WalletAddress) (s : Server) (e : Event) : Prop :=
  ∀ id r r', s.rooms id = some r → (s.stepEvent agentOf e).rooms id = some r' →
    ∀ a ∈ r.members, a ∉ r'.members → ¬ r'.holdsKey a

/-- A pass drops nobody who holds a wrap. -/
def DropsOnlyUnwrapped (agentOf : WalletAddress → WalletAddress) (s : Server) : Event → Prop
  | .provision owner => ∀ kind ∈ staticRoomKinds, ∀ r,
      s.rooms (staticRoomId kind owner) = some r → ∀ a ∈ r.members, r.holdsKey a →
        a ∈ staticRoster (agentOf owner) owner s.serverAdmins kind
  | _ => True

end Server

namespace Room

theorem holdsKey_congr {r r' : Room} (h : r'.keys = r.keys) (a : WalletAddress) :
    r'.holdsKey a ↔ r.holdsKey a := by
  simp only [holdsKey, keyExists_congr h]

theorem pending_congr {r r' : Room} (h : r'.invitations = r.invitations) (a : WalletAddress) :
    r'.hasPendingInvitation a = r.hasPendingInvitation a := by
  rw [hasPendingInvitation, hasPendingInvitation, h]

theorem not_holdsKey_depart (r : Room) (a : WalletAddress) : ¬ (r.depart a).holdsKey a := by
  rintro ⟨v, hv⟩
  exact ((keyExists_depart r a a v).1 hv).2 rfl

theorem noOrphans_depart {r : Room} (a : WalletAddress) (h : r.NoOrphans) :
    (r.depart a).NoOrphans := by
  rintro b ⟨v, hb⟩
  obtain ⟨hb, hne⟩ := (keyExists_depart r a b v).1 hb
  rcases h b ⟨v, hb⟩ with hm | hp
  · exact Or.inl ((mem_depart r a b).2 ⟨hm, hne⟩)
  · exact Or.inr hp

/-- The invitation goes, but so do the wraps. -/
theorem noOrphans_declined {r : Room} (a : WalletAddress) (h : r.NoOrphans) :
    ((r.deleteInvitation a).deleteUserKeys a).NoOrphans := by
  rintro b ⟨v, hb⟩
  obtain ⟨hb, hne⟩ := (keyExists_deleteUserKeys _ a b v).1 hb
  rcases h b ⟨v, hb⟩ with hm | hp
  · exact Or.inl hm
  · exact Or.inr ((hasPendingInvitation_deleteInvitation r a b).2 ⟨hp, hne⟩)

/-- The invitation goes, but its holder is a member now. -/
theorem noOrphans_accepted {r : Room} (a : WalletAddress) (h : r.NoOrphans) :
    ((r.addMember a).deleteInvitation a).NoOrphans := by
  intro b hb
  have hb : r.holdsKey b := (holdsKey_congr (addMember_keys r a) b).1 hb
  by_cases hab : b = a
  · exact Or.inl ((mem_addMember r a b).2 (Or.inr hab))
  · rcases h b hb with hm | hp
    · exact Or.inl ((mem_addMember r a b).2 (Or.inl hm))
    · refine Or.inr ((hasPendingInvitation_deleteInvitation (r.addMember a) a b).2 ⟨?_, hab⟩)
      rwa [pending_congr (addMember_invitations r a)]

theorem noOrphans_stored {r : Room} {w : KeyWrap} (v : Nat) (h : r.NoOrphans)
    (htarget : w.userAddress ∈ r.members ∨ r.hasPendingInvitation w.userAddress = true) :
    (r.storeKey w v).NoOrphans := by
  rintro b ⟨v', hb⟩
  rcases (keyExists_storeKey r w v b v').1 hb with hb | ⟨rfl, -⟩
  · exact h b ⟨v', hb⟩
  · exact htarget

/-- A rotation wraps for members only. -/
theorem noOrphans_install {r : Room} {keys : List KeyWrap} (h : r.NoOrphans)
    (hcover : ∀ a ∈ keys.map KeyWrap.userAddress, a ∈ r.members) :
    (r.install keys).NoOrphans := by
  rintro b ⟨v, hb⟩
  rcases (keyExists_install r keys b v).1 hb with hb | ⟨hmem, -⟩
  · exact h b ⟨v, hb⟩
  · exact Or.inl (hcover b hmem)

theorem noOrphans_seat {r : Room} (a : WalletAddress) (h : r.NoOrphans) :
    (r.seat a).NoOrphans := by
  intro b hb
  rcases h b ((holdsKey_congr (seat_keys r a) b).1 hb) with hm | hp
  · exact Or.inl ((mem_seat r a b).2 (Or.inl hm))
  · rw [pending_congr (seat_invitations r a)]
    exact Or.inr hp

/-- A pass that drops only members without wraps strands no wrap. -/
theorem noOrphans_reconcile {r : Room} (owner : WalletAddress) {roster : List WalletAddress}
    (h : r.NoOrphans) (hdrop : ∀ a ∈ r.members, r.holdsKey a → a ∈ roster) :
    (r.reconcile owner roster).1.NoOrphans := by
  intro b hb
  have hb : r.holdsKey b := (holdsKey_congr (reconcile_keys r owner roster) b).1 hb
  rcases h b hb with hm | hp
  · exact Or.inl ((mem_reconcile r owner roster b).2 (hdrop b hm hb))
  · rw [pending_congr (reconcile_invitations r owner roster)]
    exact Or.inr hp

end Room

namespace Server

/-- Every transition of a room keeps it free of orphans. -/
theorem noOrphans_move {s : Server} {id : RoomId} {r r' : Room} {q : Request}
    (hmove : RoomStep s id r q r') (h : r.NoOrphans) : r'.NoOrphans := by
  cases hmove with
  | unchanged => exact h
  | invited caller invitee =>
      intro b hb
      exact (h b hb).imp_right fun hp =>
        (Room.hasPendingInvitation_createInvitation r invitee caller b).2 (Or.inl hp)
  | accepted a => exact Room.noOrphans_accepted a h
  | declined a => exact Room.noOrphans_declined a h
  | redeemed a => exact Room.noOrphans_seat a h
  | stored caller wrap raw v huser hversion hmay htarget =>
      exact Room.noOrphans_stored v h htarget
  | rotated caller raw keys hcover =>
      exact Room.noOrphans_install h fun a ha => ((hcover a).1 ha).1
  | left a => exact Room.noOrphans_depart a h
  | kicked caller a => exact Room.noOrphans_depart a h

/-- Whoever a request removes from a room loses their wraps. -/
theorem not_holdsKey_move {s : Server} {id : RoomId} {r r' : Room} {q : Request}
    (hmove : RoomStep s id r q r') {a : WalletAddress} (hin : a ∈ r.members)
    (hout : a ∉ r'.members) : ¬ r'.holdsKey a := by
  cases hmove with
  | unchanged => exact absurd hin hout
  | invited => exact absurd hin hout
  | accepted b => exact absurd ((Room.mem_addMember r b a).2 (Or.inl hin)) hout
  | declined => exact absurd hin hout
  | redeemed b => exact absurd ((Room.mem_seat r b a).2 (Or.inl hin)) hout
  | stored => exact absurd hin hout
  | rotated => exact absurd hin hout
  | left b =>
      have hab : a = b := by
        by_contra hne
        exact hout ((Room.mem_depart r b a).2 ⟨hin, hne⟩)
      exact hab ▸ Room.not_holdsKey_depart r b
  | kicked caller b =>
      have hab : a = b := by
        by_contra hne
        exact hout ((Room.mem_depart r b a).2 ⟨hin, hne⟩)
      exact hab ▸ Room.not_holdsKey_depart r b

/-- Requests keep every room free of orphans, without exception. -/
theorem noOrphans_step (s : Server) (q : Request) (h : s.NoOrphans) : (s.step q).NoOrphans := by
  refine everyRoom_step (P := fun _ r => r.NoOrphans) ?_ (fun _ _ _ hr => hr)
    (fun _ _ _ _ hmove hr => noOrphans_move hmove hr) h
  rintro id a - b ⟨v, hb⟩
  cases hb

/-- A room after a pass: one of the owner's three, reconciled, or as it was. -/
theorem rooms_pass (agentOf : WalletAddress → WalletAddress) (s : Server)
    (owner : WalletAddress) (id : RoomId) :
    (∃ kind ∈ staticRoomKinds, id = staticRoomId kind owner) ∨
      (s.provisionStaticRooms agentOf owner).1.rooms id = s.rooms id := by
  by_cases hid : ∃ kind ∈ staticRoomKinds, id = staticRoomId kind owner
  · exact Or.inl hid
  · exact Or.inr (rooms_provision_other owner agentOf s fun kind hk he => hid ⟨kind, hk, he⟩)

theorem noOrphans_pass (agentOf : WalletAddress → WalletAddress) (s : Server)
    (owner : WalletAddress) (h : s.NoOrphans)
    (hdrop : DropsOnlyUnwrapped agentOf s (.provision owner)) :
    (s.provisionStaticRooms agentOf owner).1.NoOrphans := by
  intro id r' hr'
  rcases s.rooms_pass agentOf owner id with ⟨kind, hkind, rfl⟩ | hsame
  · rw [rooms_provision owner agentOf s hkind] at hr'
    cases hr'
    cases hr : s.rooms (staticRoomId kind owner) with
    | none =>
        refine Room.noOrphans_reconcile owner ?_ ?_
        · rintro a ⟨v, hv⟩
          cases hv
        · rintro a ha
          cases ha
    | some r =>
        exact Room.noOrphans_reconcile owner (h _ r hr) (hdrop kind hkind r hr)
  · rw [hsame] at hr'
    exact h id r' hr'

/-- The step lemma for events. -/
theorem noOrphans_stepEvent (agentOf : WalletAddress → WalletAddress) (s : Server) (e : Event)
    (h : s.NoOrphans) (hdrop : DropsOnlyUnwrapped agentOf s e) :
    (s.stepEvent agentOf e).NoOrphans := by
  cases e with
  | request q => exact s.noOrphans_step q h
  | start serverAdmins => exact h
  | provision owner => exact s.noOrphans_pass agentOf owner h hdrop

/-- Requests take the wraps of whom they remove; a pass does exactly when it
    removes nobody who holds one. -/
theorem removesWraps_iff (agentOf : WalletAddress → WalletAddress) (s : Server) (e : Event) :
    s.RemovesWraps agentOf e ↔ DropsOnlyUnwrapped agentOf s e := by
  cases e with
  | request q =>
      refine ⟨fun _ => trivial, fun _ id r r' hr hr' a hin hout => ?_⟩
      obtain ⟨r'', hr'', hmove⟩ := step_room q hr
      have hsame : r'' = r' := Option.some.inj (hr''.symm.trans hr')
      exact not_holdsKey_move (hsame ▸ hmove) hin hout
  | start serverAdmins =>
      refine ⟨fun _ => trivial, fun _ id r r' hr hr' a hin hout => ?_⟩
      have hsame : r = r' := Option.some.inj (hr.symm.trans hr')
      exact absurd (hsame ▸ hin) hout
  | provision owner =>
      constructor
      · intro hclean kind hkind r hr a hin hholds
        have hr' := rooms_provision owner agentOf s hkind
        rw [hr, Option.getD_some] at hr'
        by_contra hout
        refine hclean _ r _ hr hr' a hin (fun hmem => hout ((Room.mem_reconcile ..).1 hmem)) ?_
        exact (Room.holdsKey_congr (Room.reconcile_keys ..) a).2 hholds
      · intro hdrop id r r' hr hr' a hin hout hholds
        rcases s.rooms_pass agentOf owner id with ⟨kind, hkind, rfl⟩ | hsame
        · have hnew := rooms_provision owner agentOf s hkind
          rw [hr, Option.getD_some] at hnew
          have hsame := Option.some.inj (hr'.symm.trans hnew)
          rw [hsame, Room.mem_reconcile] at hout
          rw [hsame, Room.holdsKey_congr (Room.reconcile_keys ..)] at hholds
          exact hout (hdrop kind hkind r hr a hin hholds)
        · have hsame : r = r' := Option.some.inj (hr.symm.trans (hsame.symm.trans hr'))
          exact hout (hsame ▸ hin)

/-- **No orphan wraps.** In a run from an empty server no room ever has an
    orphan wrap and nobody is removed with their wraps left behind, exactly when
    no provisioning pass of the run drops a member who holds a wrap. -/
theorem noOrphans_iff (agentOf : WalletAddress → WalletAddress) (admins : List WalletAddress)
    (es : List Event) :
    (Run.Throughout (stepEvent agentOf) NoOrphans (empty admins) es ∧
        Run.Along (stepEvent agentOf) (RemovesWraps agentOf) (empty admins) es) ↔
      Run.Along (stepEvent agentOf) (DropsOnlyUnwrapped agentOf) (empty admins) es := by
  have hempty : (empty admins).NoOrphans := fun _ _ h => by cases h
  have hsame := Run.along_congr (noOrphans_stepEvent agentOf)
    (fun s e _ => s.removesWraps_iff agentOf e) (empty admins) es hempty
  constructor
  · exact fun h => hsame.1 h.2
  · exact fun h => ⟨Run.throughout_of_along (noOrphans_stepEvent agentOf) _ es hempty h,
      hsame.2 h⟩

/-- Bob administers the server, so he sits in Alice's lobby, and she wraps its
    key for him. The operator drops him from the configuration and restarts;
    the next pass takes his seat and leaves his wrap. -/
def formerAdmin : List Event :=
  [.start [Sample.bob], .request (.login Sample.alice), .request (.login Sample.bob),
    .provision Sample.alice,
    .request (.store Sample.alice (staticRoomId .lobby Sample.alice)
      (Sample.wrapFor Sample.bob) (some 1)),
    .start [], .provision Sample.alice]

/-- The address of Alice's agent. -/
def aliceAgent : WalletAddress := ⟨"0x000000a1ecf0ffd4b647aa350caa985db6489666", by decide⟩

/-- After the last pass Bob is neither in the lobby nor invited to it, and its
    key is still stored for him. -/
theorem dropped_admin_keeps_wrap :
    ¬ Run.Throughout (stepEvent fun _ => aliceAgent) NoOrphans (empty []) formerAdmin := by
  intro h
  have hlast := Run.throughout_last _ _ h (staticRoomId .lobby Sample.alice)
  have hbob : ((Run.run (stepEvent fun _ => aliceAgent) (empty []) formerAdmin).rooms
      (staticRoomId .lobby Sample.alice)).all (fun r => !r.keyExists Sample.bob 1 ||
        (r.isMember Sample.bob || r.hasPendingInvitation Sample.bob)) = true := by
    cases hr : (Run.run (stepEvent fun _ => aliceAgent) (empty []) formerAdmin).rooms
        (staticRoomId .lobby Sample.alice) with
    | none => rfl
    | some r =>
        have hheld := hlast r hr Sample.bob
        cases hk : r.keyExists Sample.bob 1 with
        | false => simp [hk]
        | true => simpa [hk, Room.isMember] using hheld ⟨1, hk⟩
  revert hbob
  decide +kernel

end Server

end PocketSkynet
