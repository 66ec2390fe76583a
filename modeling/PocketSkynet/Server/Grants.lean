import PocketSkynet.Server.Sample
import PocketSkynet.Server.Transitions

/-!
# Removal is Final Until a New Grant

There are two ways into a room, accepting an invitation and redeeming a link,
and they do not look at each other. Somebody invited who comes in through a
link keeps the invitation, and it outlives the membership: after a kick it
still opens the room, with nobody having granted anything.

The run is watched from one room. Beside the server the watch keeps the stale
grants, the addresses that were removed while an invitation of theirs was
pending and still is. A new invitation by an admin makes the grant a fresh one.

A settled watch has no member with a pending invitation and no stale grant. In
it people come back only through an invitation newer than their removal or
through a link, and a refusal never costs a member their wraps. `final_iff` is
sharp: a run has all of this exactly when nobody redeems a link into the room
while an invitation to it is pending for them.

## Main definitions

* `Watch`: The server, with the stale grants of one room.
* `Settled`: No member is invited and no grant is stale.
* `JoinsByFreshGrant`: Whoever joins holds a fresh grant.
* `DeclineKeepsWraps`: A refusal leaves the wraps of members alone.
* `RedeemsUninvited`: A link seats nobody who is invited.

## Theorems

* `settled_step`: A step that redeems only uninvited people stays settled.
* `final_iff`: The runs in which removal is final, characterised.
* `kicked_guest_returns`: A stale invitation readmits somebody kicked.
-/

namespace PocketSkynet

namespace Server

/-- The members of a room that a request takes out of it. -/
def removedBy (s : Server) (id : RoomId) (q : Request) : List WalletAddress :=
  match s.rooms id, (s.step q).rooms id with
  | some r, some r' => r.members.filter (· ∉ r'.members)
  | _, _ => []

/-- An admin's invitation of `a` to the room goes through. -/
def regrants (s : Server) (id : RoomId) (a : WalletAddress) : Request → Bool
  | .invite caller room invitee => room = id && invitee = a &&
      (match s.handle (.invite caller room invitee) with
        | .ok _ => true
        | .error _ => false)
  | _ => false

end Server

/-- The server, watched from one room: `stale` lists the people removed from
    it while invited who have not been granted anything since. -/
structure Watch where
  server : Server
  stale : List WalletAddress

namespace Watch

variable (id : RoomId)

/-- A watch of a server on which nothing has happened. -/
def start (admins : List WalletAddress) : Watch := ⟨Server.empty admins, []⟩

/-- A grant is stale while its invitation is still pending and no admin has
    renewed it. -/
def nextStale (w : Watch) (q : Request) : List WalletAddress :=
  (w.stale ++ w.server.removedBy id q).filter fun a =>
    (w.server.step q).hasPendingInvitation id a && !w.server.regrants id a q

/-- The watch after a request. -/
def step (w : Watch) (q : Request) : Watch := ⟨w.server.step q, w.nextStale id q⟩

/-- No member has a pending invitation, and no grant is stale. -/
def Settled (w : Watch) : Prop :=
  (∀ r, w.server.rooms id = some r → ∀ a ∈ r.members, r.hasPendingInvitation a = false) ∧
    w.stale = []

/-- Whoever the request seats accepted an invitation that is not stale, or
    redeemed a link just now. -/
def JoinsByFreshGrant (w : Watch) (q : Request) : Prop :=
  ∀ r r', w.server.rooms id = some r → (w.server.step q).rooms id = some r' →
    ∀ a ∈ r'.members, a ∉ r.members →
      (q = .accept a id ∧ a ∉ w.stale) ∨ ∃ hash now now', q = .redeem a hash now now'

/-- A refusal changes no wrap of a member. -/
def DeclineKeepsWraps (w : Watch) (q : Request) : Prop :=
  ∀ a, q = .decline a id → ∀ r r', w.server.rooms id = some r →
    (w.server.step q).rooms id = some r' →
    ∀ b ∈ r.members, ∀ v, r'.keyExists b v = r.keyExists b v

/-- A link that is let through seats nobody who is invited to the room. -/
def RedeemsUninvited (w : Watch) : Request → Prop
  | .redeem a hash now now' => a ∈ w.server.users → ∀ i r,
      w.server.findByHash hash = some i → i.roomId = id → w.server.rooms id = some r →
      a ∉ r.members → i.refusal now = none →
      w.server.roomInvites.any (Invite.spendable hash now') = true →
      r.hasPendingInvitation a = false
  | _ => True

variable {id}

theorem uninvited_move {w : Watch} {r r' : Room} {q : Request}
    (hr : w.server.rooms id = some r) (hmove : RoomStep w.server id r q r')
    (h : ∀ a ∈ r.members, r.hasPendingInvitation a = false) (hredeem : w.RedeemsUninvited id q) :
    ∀ a ∈ r'.members, r'.hasPendingInvitation a = false := by
  cases hmove with
  | unchanged => exact h
  | invited caller invitee hadmin hnew =>
      intro a ha
      by_contra hp
      rcases (Room.hasPendingInvitation_createInvitation r invitee caller a).1
        (Bool.not_eq_false _ ▸ hp) with hold | rfl
      · rw [h a ha] at hold
        cases hold
      · exact hnew ha
  | accepted b huser hpending =>
      intro a ha
      by_contra hp
      obtain ⟨hp, hne⟩ := (Room.hasPendingInvitation_deleteInvitation (r.addMember b) b a).1
        (Bool.not_eq_false _ ▸ hp)
      rcases (Room.mem_addMember r b a).1 ha with ha | hab
      · have hclear := h a ha
        rw [Room.hasPendingInvitation, Room.addMember_invitations] at hp
        rw [Room.hasPendingInvitation, hp] at hclear
        cases hclear
      · exact hne hab
  | declined b =>
      intro a ha
      by_contra hp
      have hp := (Room.hasPendingInvitation_deleteInvitation r b a).1 (Bool.not_eq_false _ ▸ hp)
      rw [h a ha] at hp
      cases hp.1
  | redeemed b hash now now' i huser hfind hlink hlive hspend hnew =>
      intro a ha
      rw [Room.hasPendingInvitation, Room.seat_invitations]
      rcases (Room.mem_seat r b a).1 ha with ha | rfl
      · exact h a ha
      · exact hredeem huser i r hfind hlink hr hnew hlive hspend
  | stored => exact h
  | rotated => exact h
  | left b => exact fun a ha => h a ((Room.mem_depart r b a).1 ha).1
  | kicked caller b => exact fun a ha => h a ((Room.mem_depart r b a).1 ha).1

/-- Somebody a transition removes had, if they were not invited before, no
    invitation afterwards either. -/
theorem removed_uninvited {s : Server} {r r' : Room} {q : Request}
    (hmove : RoomStep s id r q r') {a : WalletAddress} (hin : a ∈ r.members)
    (hout : a ∉ r'.members) (h : r.hasPendingInvitation a = false) :
    r'.hasPendingInvitation a = false := by
  cases hmove with
  | unchanged => exact h
  | invited => exact absurd hin hout
  | accepted b => exact absurd ((Room.mem_addMember r b a).2 (Or.inl hin)) hout
  | declined => exact absurd hin hout
  | redeemed b => exact absurd ((Room.mem_seat r b a).2 (Or.inl hin)) hout
  | stored => exact h
  | rotated => exact h
  | left b => exact h
  | kicked caller b => exact h

/-- In a settled watch a removal leaves no grant behind to go stale. -/
theorem nextStale_of_settled {w : Watch} (q : Request) (h : w.Settled id) :
    w.nextStale id q = [] := by
  unfold nextStale
  rw [h.2, List.nil_append, List.filter_eq_nil_iff]
  intro a ha hkeep
  simp only [Bool.and_eq_true] at hkeep
  unfold Server.removedBy at ha
  cases hr : w.server.rooms id with
  | none => simp [hr] at ha
  | some r =>
      obtain ⟨r', hr', hmove⟩ := Server.step_room q hr
      simp only [hr, hr', List.mem_filter, decide_eq_true_eq] at ha
      have hclear := removed_uninvited hmove ha.1 ha.2 (h.1 r hr a ha.1)
      rw [Server.pending_of_some hr', hclear] at hkeep
      cases hkeep.1

/-- The step lemma. -/
theorem settled_step (w : Watch) (q : Request) (h : w.Settled id)
    (hredeem : w.RedeemsUninvited id q) : (w.step id q).Settled id := by
  refine ⟨?_, nextStale_of_settled q h⟩
  intro r' hr'
  cases hr : w.server.rooms id with
  | none =>
      rcases Server.step_new_room q hr with hnone | ⟨a, -, hnew⟩
      · rw [step, hnone] at hr'
        cases hr'
      · rw [step, hnew] at hr'
        cases hr'
        exact fun b _ => rfl
  | some r =>
      obtain ⟨r'', hr'', hmove⟩ := Server.step_room q hr
      have hsame : r'' = r' := Option.some.inj (hr''.symm.trans hr')
      exact uninvited_move hr (hsame ▸ hmove) (h.1 r hr) hredeem

/-- The converse: a redemption after which no member is invited seated nobody
    who was. -/
theorem uninvited_of_settled (w : Watch) (q : Request) (_ : w.Settled id)
    (hnext : (w.step id q).Settled id) : w.RedeemsUninvited id q := by
  cases q with
  | redeem a hash now now' =>
      intro huser i r hfind hlink hr hnew hlive hspend
      subst hlink
      have hstep : w.server.step (.redeem a hash now now') = _ := Server.step_of_route huser
        ((Server.redeem_eq_ok _ _ _ _ _ _).2 ⟨i, r, hfind, hr,
          Or.inr ⟨by simpa [Room.isMember] using hnew, hlive, hspend, rfl⟩⟩)
      have hroom : (w.step i.roomId (.redeem a hash now now')).server.rooms i.roomId =
          some (r.seat a) := by
        rw [step, hstep]
        dsimp only
        rw [Server.seat_rooms, Server.consume_rooms, if_pos rfl, hr]
        rfl
      have hclear := hnext.1 (r.seat a) hroom a ((Room.mem_seat r a a).2 (Or.inr rfl))
      rwa [Room.hasPendingInvitation, Room.seat_invitations] at hclear
  | _ => trivial

/-- In a settled watch nobody comes in through a grant older than their removal. -/
theorem joins_of_settled (w : Watch) (q : Request) (h : w.Settled id) :
    w.JoinsByFreshGrant id q := by
  intro r r' hr hr' a hin hout
  obtain ⟨r'', hr'', hmove⟩ := Server.step_room q hr
  have hsame : r'' = r' := Option.some.inj (hr''.symm.trans hr')
  subst hsame
  cases hmove with
  | unchanged => exact absurd hin hout
  | invited => exact absurd hin hout
  | accepted b =>
      rcases (Room.mem_addMember r b a).1 hin with hin | rfl
      · exact absurd hin hout
      · exact Or.inl ⟨rfl, by rw [h.2]; exact List.not_mem_nil⟩
  | declined => exact absurd hin hout
  | redeemed b hash now now' =>
      rcases (Room.mem_seat r b a).1 hin with hin | rfl
      · exact absurd hin hout
      · exact Or.inr ⟨hash, now, now', rfl⟩
  | stored => exact absurd hin hout
  | rotated => exact absurd hin hout
  | left b => exact absurd ((Room.mem_depart r b a).1 hin).1 hout
  | kicked caller b => exact absurd ((Room.mem_depart r b a).1 hin).1 hout

/-- In a settled watch whoever declines is no member, so no member loses a wrap. -/
theorem decline_of_settled (w : Watch) (q : Request) (h : w.Settled id) :
    w.DeclineKeepsWraps id q := by
  rintro a rfl r r' hr hr' b hb v
  obtain ⟨r'', hr'', hmove⟩ := Server.step_room (.decline a id) hr
  have hsame : r'' = r' := Option.some.inj (hr''.symm.trans hr')
  subst hsame
  cases hmove with
  | unchanged => rfl
  | declined _ huser hpending =>
      have hne : b ≠ a := by
        rintro rfl
        rw [h.1 r hr b hb] at hpending
        cases hpending
      have hiff := Room.keyExists_deleteUserKeys (r.deleteInvitation a) a b v
      rw [Bool.eq_iff_iff, hiff]
      exact ⟨fun hk => hk.1, fun hk => ⟨hk, hne⟩⟩

theorem settled_start (admins : List WalletAddress) : (start admins).Settled id :=
  ⟨(fun _ hr => by cases hr), rfl⟩

/-- **Removal is final until a new grant.** Watched from any room, a run from an
    empty server never has a member who is also invited nor a stale grant, lets
    people in through fresh grants only and costs no member a wrap by a refusal,
    exactly when nobody redeems a link into the room while invited to it. -/
theorem final_iff (id : RoomId) (admins : List WalletAddress) (qs : List Request) :
    (Run.Throughout (step id) (Settled id) (start admins) qs ∧
        Run.Along (step id) (JoinsByFreshGrant id) (start admins) qs ∧
        Run.Along (step id) (DeclineKeepsWraps id) (start admins) qs) ↔
      Run.Along (step id) (RedeemsUninvited id) (start admins) qs := by
  have hsettled := Run.throughout_iff_along (P := Settled id) settled_step (fun _ h => h)
    uninvited_of_settled (start admins) qs (settled_start admins)
  have hstart : (start admins).Settled id := settled_start admins
  constructor
  · exact fun h => hsettled.1 h.1
  · intro h
    exact ⟨hsettled.2 h,
      Run.along_of_inv settled_step (fun w q hw _ => joins_of_settled w q hw) _ qs hstart h,
      Run.along_of_inv settled_step (fun w q hw _ => decline_of_settled w q hw) _ qs hstart h⟩

/-- Bob is invited but comes in through a link, is kicked, and then accepts the
    invitation he still has. -/
def returningGuest : List Request :=
  [.login Sample.alice, .login Sample.bob, .createRoom Sample.alice Sample.team,
    .invite Sample.alice Sample.team Sample.bob,
    .createInvite Sample.alice Sample.team none none "invite_1" "hash" 0,
    .redeem Sample.bob "hash" 1 1, .kick Sample.alice Sample.team Sample.bob,
    .accept Sample.bob Sample.team]

/-- The kick leaves Bob's old invitation pending, and it brings him back. -/
theorem kicked_guest_returns :
    ¬ (Run.Throughout (step Sample.team) (Settled Sample.team) (start []) returningGuest ∧
      Run.Along (step Sample.team) (JoinsByFreshGrant Sample.team) (start []) returningGuest ∧
      Run.Along (step Sample.team) (DeclineKeepsWraps Sample.team) (start [])
        returningGuest) := by
  rintro ⟨-, hjoin, -⟩
  have hlast : JoinsByFreshGrant Sample.team
      (Run.run (step Sample.team) (start []) (returningGuest.take 7))
      (.accept Sample.bob Sample.team) :=
    ((Run.along_append (start []) (returningGuest.take 7) _).1 hjoin).2.1
  rcases hlast _ _ rfl rfl Sample.bob (by decide) (by decide) with ⟨-, hfresh⟩ | ⟨_, _, _, h⟩
  · revert hfresh
    decide
  · cases h

end Watch

end PocketSkynet
