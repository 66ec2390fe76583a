import PocketSkynet.Server.Sample
import PocketSkynet.Server.Statements

/-!
# Rotation Coverage under Interleaving

A rotation compares the wraps it was sent with a roster it has read, and then
installs them in a transaction of its own. The transaction checks the epoch
again but not the roster. Whoever joins between the two is left without the new
epoch, and whoever leaves between the two is handed it; either way the flag
that their move had raised is cleared.

`coverage_iff` is sharp. A committed rotation leaves the new epoch with exactly
the members of the moment exactly when the roster it read still stands: every
member is on it or holds a wrap of the new epoch already, everybody on it is
still a member, and nobody else was given such a wrap ahead of time.

## Main definitions

* `Rotates`: The step commits a rotation.
* `CoversMembers`: The new epoch is held by the members and nobody else.
* `RosterStands`: The roster that was read still describes the room.

## Theorems

* `covers_iff_stands`: One commit, characterised.
* `coverage_iff`: The runs in which rotations cover the room, characterised.
* `leaver_is_keyed`: A leaver who was handed the new epoch.
-/

namespace PocketSkynet

namespace Proc

/-- A rotation that has got past its checks covers the roster it read exactly. -/
def Covered : Proc → Prop
  | rotateCommit _ _ keys roster => ∀ a, a ∈ keys.map KeyWrap.userAddress ↔ a ∈ roster
  | _ => True

theorem covered_check {c : Bool} {e : ApiError} {p : Proc} (h : p.Covered) :
    (check c e p).Covered := by
  unfold check
  split
  · exact h
  · exact trivial

theorem covered_after {α : Type} {x : Except ApiError α} {p : α → Proc}
    (h : ∀ a, x = .ok a → (p a).Covered) : (after x p).Covered := by
  cases x with
  | error e => exact trivial
  | ok a => exact h a rfl

/-- The way to the transaction leads through the two coverage tests. -/
theorem covered_next (now : Nat) (s : Shared) (p : Proc) : (p.next now s).Covered := by
  cases p with
  | rotateRoster room version keys =>
      exact covered_after fun u hu => (Server.coverage_eq_ok _ _ u).1 hu
  | rotateMember caller room newVersion keys =>
      exact covered_check (covered_after fun _ _ => trivial)
  | _ =>
      simp only [next, check, checkEpoch, after, storeEligible]
      repeat' split
      all_goals exact trivial

theorem covered_enter (call : Call) : (enter call).Covered := by
  cases call with
  | store caller room wrap version => exact covered_after fun _ _ => trivial
  | _ => exact trivial

end Proc

/-- The `i`-th request commits a rotation of the room `r` to `version`, against
    this roster. -/
def Rotates (p : Pool Shared Proc) (i : Nat) (room : RoomId) (r : Room) (version : Nat)
    (keys : List KeyWrap) (roster : List WalletAddress) : Prop :=
  p.procs[i]? = some (.rotateCommit room version keys roster) ∧
    p.shared.server.rooms room = some r ∧ (r.rotate version keys).1 = .rotated

/-- A rotation that the step commits leaves the new epoch with the members. -/
def CoversMembers (p : Pool Shared Proc) : Turn Call Nat → Prop
  | .start _ => True
  | .tick i now => ∀ room r version keys roster, Rotates p i room r version keys roster →
      ∀ r', (requests p (.tick i now)).shared.server.rooms room = some r' →
        ∀ a, r'.keyExists a version = true ↔ a ∈ r'.members

/-- When the step commits a rotation, the roster it read still stands, and wraps
    of the new epoch that were stored ahead of it belong to members. -/
def RosterStands (p : Pool Shared Proc) : Turn Call Nat → Prop
  | .start _ => True
  | .tick i _ => ∀ room r version keys roster, Rotates p i room r version keys roster →
      (∀ a ∈ r.members, a ∈ roster ∨ r.keyExists a version = true) ∧
        (∀ a ∈ roster, a ∈ r.members) ∧ (∀ a, r.keyExists a version = true → a ∈ r.members)

/-- A rotation that commits installs its wraps beside those already there, and
    leaves the roster alone. -/
theorem keyExists_rotated {r : Room} {version : Nat} {keys : List KeyWrap}
    (h : (r.rotate version keys).1 = .rotated) (a : WalletAddress) :
    ((r.rotate version keys).2.keyExists a version = true ↔
      r.keyExists a version = true ∨ a ∈ keys.map KeyWrap.userAddress) ∧
      (r.rotate version keys).2.members = r.members := by
  rcases r.rotate_cases version keys with ⟨-, hr⟩ | ⟨rfl, hr⟩
  · rw [hr] at h
    cases h
  · rw [hr]
    refine ⟨?_, rfl⟩
    have hiff := Room.keyExists_installWraps keys r (r.currentKeyVersion + 1) a
      (r.currentKeyVersion + 1)
    rw [← and_true (a ∈ _), ← eq_self (r.currentKeyVersion + 1)]
    exact hiff

/-- What a committing step leaves of the room. -/
theorem rooms_rotated {p : Pool Shared Proc} {i now : Nat} {room : RoomId} {r : Room}
    {version : Nat} {keys : List KeyWrap} {roster : List WalletAddress}
    (h : Rotates p i room r version keys roster) :
    (requests p (.tick i now)).shared.server.rooms room = some (r.rotate version keys).2 := by
  obtain ⟨hp, hr, -⟩ := h
  rw [requests, Pool.step_tick hp]
  simp only [Proc.advance, Proc.effect, Shared.updateRoom_server, Server.rooms_updateRoom, hr,
    if_true, Option.map_some]

theorem covers_iff_stands (p : Pool Shared Proc) (turn : Turn Call Nat)
    (h : p.Holds (fun _ => True) fun _ c => c.Covered) :
    CoversMembers p turn ↔ RosterStands p turn := by
  cases turn with
  | start call => exact Iff.rfl
  | tick i now =>
      refine forall_congr' fun room => forall_congr' fun r => forall_congr' fun version => ?_
      refine forall_congr' fun keys => forall_congr' fun roster => imp_congr_right fun hrot => ?_
      have hcover : ∀ a, a ∈ keys.map KeyWrap.userAddress ↔ a ∈ roster :=
        h.2 _ (Pool.mem_of_getElem? hrot.1)
      have hheld := keyExists_rotated hrot.2.2
      constructor
      · intro hc
        have hiff := hc _ (rooms_rotated hrot)
        refine ⟨fun a ha => ?_, fun a ha => ?_, fun a ha => ?_⟩
        · rw [← (hheld a).2, ← hiff a, (hheld a).1, hcover a] at ha
          exact ha.symm
        · rw [← (hheld a).2, ← hiff a, (hheld a).1]
          exact Or.inr ((hcover a).2 ha)
        · rw [← (hheld a).2, ← hiff a, (hheld a).1]
          exact Or.inl ha
      · rintro ⟨hall, hroster, hahead⟩ r' hr' a
        cases Option.some.inj ((rooms_rotated hrot).symm.trans hr')
        rw [(hheld a).1, (hheld a).2, hcover a]
        constructor
        · rintro (ha | ha)
          · exact hahead a ha
          · exact hroster a ha
        · exact fun ha => (hall a ha).symm

/-- **Rotation coverage under interleaving.** Whatever the tables hold at first and
    however the requests interleave, every rotation leaves its epoch with exactly
    the members of the moment it commits, exactly when each commits while the
    roster it read still stands. -/
theorem coverage_iff (s : Shared) (turns : List (Turn Call Nat)) :
    Run.Along requests CoversMembers (Pool.idle s) turns ↔
      Run.Along requests RosterStands (Pool.idle s) turns := by
  refine Run.along_congr (J := fun p => p.Holds (fun _ => True) fun _ c => c.Covered) ?_
    covers_iff_stands _ turns (Pool.holds_idle trivial)
  intro p turn h _
  exact Pool.holds_step (fun _ call _ => Proc.covered_enter call)
    (fun now s c _ _ => ⟨trivial, Proc.covered_next now s c⟩) (fun _ _ _ _ _ _ hd => hd) p turn h

namespace Sample

/-- Alice rotates for herself and Bob, who leaves after she has read the roster. -/
def lateRotation : List (Turn Call Nat) :=
  [.start (.rotate alice team (some 2) [wrapFor alice, wrapFor bob]), .tick 0 2, .tick 0 2,
    .start (.leave bob team)] ++ List.replicate 8 (.tick 1 3) ++ [.tick 0 4]

end Sample

/-- Bob has left, and the rotation his leave called for gives him its key. -/
theorem leaver_is_keyed :
    ¬ Run.Along requests CoversMembers (Pool.idle Sample.keyed) Sample.lateRotation := by
  intro h
  have hlast := ((Run.along_append _ (Sample.lateRotation.take 12) _).1 h).2.1
  have hiff := hlast Sample.team _ 2 [Sample.wrapFor Sample.alice, Sample.wrapFor Sample.bob]
    [Sample.alice, Sample.bob] ⟨rfl, rfl, rfl⟩ _ rfl Sample.bob
  revert hiff
  decide

end PocketSkynet
