import PocketSkynet.Lib.Faults
import PocketSkynet.Server.Sample
import PocketSkynet.Server.Transitions

/-!
# Departures that Fail

A leave and a kick each hand one closure to the database. Its statements commit one by one, in
an order that is meant: the admin row goes first, then the wraps, then the membership, and the
rotation flag is raised last. A failure in between leaves a member without a key rather than
somebody outside who holds one. Only the removal of the membership, the read pointer and the
hidden flag is a transaction.

How far a departure has got is a stage. Whichever statement fails, the room is at one of the
stages, and as long as it is not the last statement that fails, the person is still a member
or the departure is complete.

## Main definitions

* `DepartureStatement`: The statements of the two closures.
* `Departures.leave`, `Departures.kick`: The closures.
* `Stage`, `stoppedBy`: How far a departure has got, and where a failure stops it.
* `Departures.AllOrNothing`: A departure is complete or has not begun.

## Theorems

* `leave_none`, `kick_none`: Without a failure the closures do what the routes do.
* `departures_in_order`: Before the last statement nobody is removed without being locked out.
* `unflagged_of_last`: What is left if the last statement fails.
-/

namespace PocketSkynet

/-- The statements of a leave and of a kick. -/
inductive DepartureStatement where
  | isAdmin
  | adminCount
  | isMember
  | removeAdmin
  | deleteUserKeys
  -- the transaction of `remove_member`
  | beginRemoval
  | deleteMember
  | deleteRead
  | deleteHidden
  | commitRemoval
  | setKeyRotationPending
deriving DecidableEq, Repr

namespace Departures

/-- A closure of a leave or a kick. -/
abbrev Closing := Closure DepartureStatement Server ApiError

/-- What a handler is told when a statement fails. -/
def fault : ApiError := .internal "database"

/-! ### The statements -/

def isAdmin (room : RoomId) (a : WalletAddress) : Closing Bool :=
  Closure.query .isAdmin fault (·.isAdmin room a)

def adminCount (room : RoomId) : Closing Nat :=
  Closure.query .adminCount fault fun s => ((s.getRoom room).map Room.adminCount).getD 0

def isMember (room : RoomId) (a : WalletAddress) : Closing Bool :=
  Closure.query .isMember fault (·.isMember room a)

def removeAdmin (room : RoomId) (a : WalletAddress) : Closing Unit :=
  Closure.execute .removeAdmin fault (·.updateRoom room (·.removeAdmin a))

def deleteUserKeys (room : RoomId) (a : WalletAddress) : Closing Unit :=
  Closure.execute .deleteUserKeys fault (·.updateRoom room (·.deleteUserKeys a))

/-- Remove a member, along with their read pointer and hidden flag. -/
def removeMember (room : RoomId) (a : WalletAddress) : Closing Unit :=
  Closure.transaction do
    Closure.execute .beginRemoval fault id
    Closure.execute .deleteMember fault (·.updateRoom room fun r =>
      { r with members := r.members.filter (· ≠ a) })
    Closure.execute .deleteRead fault (·.updateRoom room fun r =>
      { r with reads := r.reads.filter (·.1 ≠ a) })
    Closure.execute .deleteHidden fault (·.updateRoom room fun r =>
      { r with hidden := r.hidden.filter (· ≠ a) })
    Closure.execute .commitRemoval fault id

def setKeyRotationPending (room : RoomId) (pending : Bool) : Closing Unit :=
  Closure.execute .setKeyRotationPending fault (·.updateRoom room (·.setKeyRotationPending pending))

/-- The closure of `POST /rooms/{roomId}/leave`. -/
def leave (room : RoomId) (a : WalletAddress) : Closing Unit := do
  (do if ← isAdmin room a then
        if (← adminCount room) ≤ 1 then
          throw (.badRequest
            "Cannot leave room as the last admin. Transfer admin rights first or delete the room.")
        else removeAdmin room a)
  -- The wraps go before the membership row.
  deleteUserKeys room a
  removeMember room a
  setKeyRotationPending room true

/-- The closure of `POST /rooms/{roomId}/kick`. -/
def kick (room : RoomId) (a : WalletAddress) : Closing Unit := do
  (do if !(← isMember room a) then throw (.notFound "User is not a member of this room"))
  removeAdmin room a
  deleteUserKeys room a
  removeMember room a
  setKeyRotationPending room true

/-- The closure of either departure. -/
def closure : Departure → RoomId → WalletAddress → Closing Unit
  | .left => leave
  | .kicked => kick

/-! ### Stages -/

/-- How far a departure has got. -/
inductive Stage where
  | untouched
  | adminGone
  | keysGone
  | memberGone
  | departed
deriving DecidableEq, Repr

/-- The room at a stage. -/
def Stage.apply (a : WalletAddress) : Stage → Room → Room
  | untouched, r => r
  | adminGone, r => r.removeAdmin a
  | keysGone, r => (r.removeAdmin a).deleteUserKeys a
  | memberGone, r => ((r.removeAdmin a).deleteUserKeys a).removeMember a
  | departed, r => r.depart a

/-- The stage at which a departure stops if a statement fails. -/
def stoppedBy : DepartureStatement → Stage
  | .isAdmin | .adminCount | .isMember | .removeAdmin => .untouched
  | .deleteUserKeys => .adminGone
  | .beginRemoval | .deleteMember | .deleteRead | .deleteHidden | .commitRemoval => .keysGone
  | .setKeyRotationPending => .memberGone

/-- The tables with one room at a stage. -/
def reached (s : Server) (room : RoomId) (a : WalletAddress) (stage : Stage) : Server :=
  s.updateRoom room (stage.apply a)

section Reached

variable (s : Server) (room : RoomId) (a : WalletAddress)

theorem reached_untouched : reached s room a .untouched = s := by
  unfold reached Server.updateRoom Stage.apply
  simp

-- Who is no admin has no admin row to lose.
theorem reached_adminGone (h : s.isAdmin room a = false) :
    reached s room a .adminGone = s := by
  have hsame : reached s room a .adminGone = reached s room a .untouched := by
    refine Server.updateRoom_congr s room _ _ fun r hr => ?_
    refine r.removeAdmin_of_not_admin a ?_
    simpa [Server.isAdmin, hr] using h
  rw [hsame, reached_untouched]

-- Each statement leads from one stage to the next.
theorem deleteUserKeys_reached :
    (reached s room a .adminGone).updateRoom room (·.deleteUserKeys a) =
      reached s room a .keysGone :=
  Server.updateRoom_updateRoom s room _ _

theorem removeMember_reached :
    (reached s room a .keysGone).updateRoom room (·.removeMember a) =
      reached s room a .memberGone :=
  Server.updateRoom_updateRoom s room _ _

theorem setKeyRotationPending_reached :
    (reached s room a .memberGone).updateRoom room (·.setKeyRotationPending true) =
      reached s room a .departed :=
  Server.updateRoom_updateRoom s room _ _

end Reached

/-! ### Where a departure ends -/

/-- A departure has stopped: before it wrote anything, or at the statement that failed. -/
def Stopped (failing : Option DepartureStatement) (s : Server) (room : RoomId)
    (a : WalletAddress) (s' : Server) : Prop :=
  s' = s ∨ ∃ name, failing = some name ∧ s' = reached s room a (stoppedBy name)

section Ends

variable {failing : Option DepartureStatement} {s : Server} {room : RoomId} {a : WalletAddress}

/-- The membership goes with what hangs on it, or stays with it. -/
theorem triple_removeMember {E : ApiError → Server → Prop}
    (hE : ∀ name, failing = some name → stoppedBy name = .keysGone → E fault s) :
    Closure.Triple failing (fun s' => s' = s) (removeMember room a)
      (fun _ s' => s' = s.updateRoom room (·.removeMember a)) E := by
  refine Closure.triple_transaction fun s₀ hs₀ => ?_
  subst hs₀
  refine Closure.triple_bind (Closure.triple_execute fun h => hE _ h rfl) fun _ => ?_
  refine Closure.triple_bind (Closure.triple_execute fun h => hE _ h rfl) fun _ => ?_
  refine Closure.triple_bind (Closure.triple_execute fun h => hE _ h rfl) fun _ => ?_
  refine Closure.triple_bind (Closure.triple_execute fun h => hE _ h rfl) fun _ => ?_
  refine Closure.triple_statement (fun _ _ h => hE _ h rfl) fun s' hs _ => ?_
  rw [hs, id_eq, id_eq, Server.updateRoom_updateRoom, Server.updateRoom_updateRoom]
  rfl

section Each

variable {E : ApiError → Server → Prop}
  (hE : ∀ name, failing = some name → E fault (reached s room a (stoppedBy name)))

include hE

-- What fails before anything is written leaves everything as it was.
theorem fault_of_untouched {name : DepartureStatement} (h : failing = some name)
    (hstage : stoppedBy name = .untouched) : E fault s := by
  have hreached := hE name h
  rwa [hstage, reached_untouched] at hreached

/-- What both departures end with. -/
theorem triple_departing :
    Closure.Triple failing (fun s' => s' = reached s room a .adminGone)
      (do deleteUserKeys room a; removeMember room a; setKeyRotationPending room true)
      (fun _ s' => s' = reached s room a .departed) E := by
  refine Closure.triple_bind (Closure.triple_execute fun h => hE _ h) fun _ => ?_
  rw [deleteUserKeys_reached]
  refine Closure.triple_bind
    (triple_removeMember fun name h hstage => hstage ▸ hE name h) fun _ => ?_
  rw [removeMember_reached, ← setKeyRotationPending_reached]
  exact Closure.triple_execute fun h => hE _ h

/-- A leaver goes through the statements, or is the last admin and is refused before anything
    is written. -/
theorem triple_leave
    (hrefused : s.isAdmin room a = true → ((s.getRoom room).map Room.adminCount).getD 0 ≤ 1 →
      ∀ e, E e s) :
    Closure.Triple failing (fun s' => s' = s) (leave room a)
      (fun _ s' => s' = reached s room a .departed) E := by
  refine Closure.triple_bind (R := fun _ s' => s' = reached s room a .adminGone) ?_
    fun _ => triple_departing hE
  refine Closure.triple_bind (Closure.triple_query fun h => fault_of_untouched hE h rfl)
    fun admin => ?_
  refine Closure.triple_ite (fun hadmin => ?_) fun hadmin => ?_
  · refine Closure.triple_bind (R := fun n s' => (s.isAdmin room a = true ∧
      n = ((s.getRoom room).map Room.adminCount).getD 0) ∧ s' = s) ?_ fun n => ?_
    · refine Closure.triple_statement (fun s' hs h => ?_) fun s' hs _ => ?_
      · rw [hs.2]
        exact fault_of_untouched hE h rfl
      · rw [hs.2]
        exact ⟨⟨hs.1 ▸ hadmin, rfl⟩, rfl⟩
    · refine Closure.triple_ite (fun hcount => Closure.triple_throw fun s' hs => ?_) fun _ => ?_
      · rw [hs.2]
        exact hrefused hs.1.1 (hs.1.2 ▸ hcount) _
      · exact Closure.triple_mono (Closure.triple_execute fun h => fault_of_untouched hE h rfl)
          (fun _ hs => hs.2) (fun _ _ hs => hs) fun _ _ he => he
  · -- A leaver who is no admin loses no admin row.
    refine Closure.triple_pure fun s' hs => ?_
    have hnot : s.isAdmin room a = false := by
      rw [← hs.1]
      exact Bool.not_eq_true _ ▸ hadmin
    rw [hs.2, reached_adminGone s room a hnot]

/-- The target of a kick goes through the statements, or is no member. -/
theorem triple_kick (hrefused : s.isMember room a = false → ∀ e, E e s) :
    Closure.Triple failing (fun s' => s' = s) (kick room a)
      (fun _ s' => s' = reached s room a .departed) E := by
  refine Closure.triple_bind (R := fun _ s' => s' = s) ?_ fun _ =>
    Closure.triple_bind (Closure.triple_execute fun h => fault_of_untouched hE h rfl) fun _ =>
      triple_departing hE
  refine Closure.triple_bind (Closure.triple_query fun h => fault_of_untouched hE h rfl)
    fun member => ?_
  refine Closure.triple_ite (fun hnot => Closure.triple_throw fun s' hs => ?_)
    fun _ => Closure.triple_pure fun _ hs => hs.2
  rw [hs.2]
  exact hrefused (by simpa [hs.1] using hnot) _

end Each

/-- Where a departure ends, whichever statement fails. -/
theorem triple_closure (d : Departure) :
    Closure.Triple failing (fun s' => s' = s) (closure d room a)
      (fun _ s' => s' = reached s room a .departed) fun _ s' => Stopped failing s room a s' := by
  have hE : ∀ name, failing = some name →
      Stopped failing s room a (reached s room a (stoppedBy name)) :=
    fun name h => Or.inr ⟨name, h, rfl⟩
  cases d with
  | left => exact triple_leave hE fun _ _ _ => Or.inl rfl
  | kicked => exact triple_kick hE fun _ _ => Or.inl rfl

end Ends

/-- The answer of a departure. -/
def reply (d : Departure) (failing : Option DepartureStatement) (s : Server) (room : RoomId)
    (a : WalletAddress) : Except ApiError Unit :=
  ((closure d room a).run failing s).1

/-- The tables after a departure. -/
def after (d : Departure) (failing : Option DepartureStatement) (s : Server) (room : RoomId)
    (a : WalletAddress) : Server :=
  ((closure d room a).run failing s).2

section Results

variable {d : Departure} {failing : Option DepartureStatement} {s : Server} {room : RoomId}
  {a : WalletAddress}

variable (d failing s room a) in
/-- A departure answers once it is complete. Refused or failed, it has stopped. -/
theorem ends_closure :
    (reply d failing s room a = .ok () ∧ after d failing s room a = reached s room a .departed) ∨
    (∃ e, reply d failing s room a = .error e) ∧
      Stopped failing s room a (after d failing s room a) := by
  have hends : Closure.Ends (fun _ s' => s' = reached s room a .departed)
      (fun _ s' => Stopped failing s room a s') ((closure d room a).run failing s) :=
    triple_closure d s rfl
  unfold reply after
  rcases hr : (closure d room a).run failing s with ⟨answer, s'⟩
  rw [hr] at hends
  cases answer with
  | ok u => exact Or.inl ⟨rfl, hends⟩
  | error e => exact Or.inr ⟨⟨e, rfl⟩, hends⟩

/-- Nothing of the person is left in the room, and no ciphertext is accepted in it. -/
structure LockedOut (s : Server) (room : RoomId) (a : WalletAddress) : Prop where
  noWrap : ∀ v, (s.getRoom room).any (·.keyExists a v) = false
  noAdmin : s.isAdmin room a = false
  noMember : s.isMember room a = false
  refused : ∀ version p, ∃ e, Proc.checkEpoch (s.getRoom room) version p = Proc.refuse e

/-- A departure has not begun, or it is complete. -/
def AllOrNothing (d : Departure) (failing : Option DepartureStatement) (s : Server)
    (room : RoomId) (a : WalletAddress) : Prop :=
  after d failing s room a = s ∨ LockedOut (after d failing s room a) room a

theorem getRoom_reached (stage : Stage) :
    (reached s room a stage).getRoom room = (s.getRoom room).map (stage.apply a) :=
  if_pos rfl

/-- Who has departed is locked out. -/
theorem lockedOut_departed : LockedOut (reached s room a .departed) room a := by
  have hroom : (reached s room a .departed).getRoom room =
      (s.getRoom room).map (Stage.apply a .departed) := getRoom_reached .departed
  cases hr : s.getRoom room with
  | none =>
      rw [hr] at hroom
      refine ⟨fun v => ?_, ?_, ?_, fun version p => ⟨.notFound "Room not found", ?_⟩⟩
      · rw [hroom]
        rfl
      · rw [Server.isAdmin, ← Server.getRoom, hroom]
        rfl
      · rw [Server.isMember, ← Server.getRoom, hroom]
        rfl
      · rw [hroom]
        rfl
  | some r =>
      rw [hr] at hroom
      refine ⟨fun v => ?_, ?_, ?_, fun version p =>
        ⟨.keyConflict .keyRotationRequired Proc.rotationRequired r.currentKeyVersion, ?_⟩⟩
      · rw [hroom]
        refine Bool.eq_false_iff.2 fun hkey => ?_
        exact ((r.keyExists_depart a a v).1 hkey).2 rfl
      · rw [Server.isAdmin, ← Server.getRoom, hroom]
        refine Bool.eq_false_iff.2 fun hadmin => ?_
        have hmem : a ∈ r.admins.filter (· ≠ a) := decide_eq_true_iff.1 hadmin
        exact of_decide_eq_true (List.mem_filter.1 hmem).2 rfl
      · rw [Server.isMember, ← Server.getRoom, hroom]
        refine Bool.eq_false_iff.2 fun hmember => ?_
        exact ((r.mem_depart a a).1 ((Room.isMember_iff _ a).1 hmember)).2 rfl
      · rw [hroom]
        rfl

-- Up to the wraps a departure leaves the membership alone.
theorem isMember_reached {stage : Stage} (h : stage ≠ .memberGone) (h' : stage ≠ .departed) :
    (reached s room a stage).isMember room a = s.isMember room a := by
  rw [Server.isMember, Server.isMember, ← Server.getRoom, ← Server.getRoom, getRoom_reached]
  cases s.getRoom room with
  | none => rfl
  | some r =>
      cases stage with
      | untouched => rfl
      | adminGone => rfl
      | keysGone => rfl
      | memberGone => exact absurd rfl h
      | departed => exact absurd rfl h'

theorem stoppedBy_ne_departed (name : DepartureStatement) : stoppedBy name ≠ .departed := by
  cases name <;> decide

theorem stoppedBy_eq_memberGone {name : DepartureStatement} (h : stoppedBy name = .memberGone) :
    name = .setKeyRotationPending := by
  cases name <;> first | rfl | cases h

/-- The gate of a room is where it was if the last statement fails: the person is gone, and
    the room takes ciphertext as before. -/
theorem unflagged_of_last (h : failing = some .setKeyRotationPending) :
    after d failing s room a = s ∨ after d failing s room a = reached s room a .departed ∨
      ∀ version p, Proc.checkEpoch ((after d failing s room a).getRoom room) version p =
        Proc.checkEpoch (s.getRoom room) version p := by
  rcases ends_closure d failing s room a with
    ⟨-, hdone⟩ | ⟨-, hsame | ⟨name, hname, hstage⟩⟩
  · exact Or.inr (Or.inl hdone)
  · exact Or.inl hsame
  · refine Or.inr (Or.inr fun version p => ?_)
    have hlast : name = .setKeyRotationPending := Option.some.inj (hname.symm.trans h)
    rw [hstage, hlast, getRoom_reached]
    cases s.getRoom room with
    | none => rfl
    | some r => rfl

end Results

/-- The writes of a departure come in order: the admin row, the wraps, the membership with the
    flag. Whichever statement fails before the last, nobody is removed without being locked
    out. -/
theorem departures_in_order (d : Departure) (failing : Option DepartureStatement)
    (hlast : failing ≠ some .setKeyRotationPending) (s : Server) (room : RoomId)
    (a : WalletAddress) :
    (∃ stage, stage ≠ .memberGone ∧ after d failing s room a = reached s room a stage) ∧
    (reply d failing s room a = .ok () → LockedOut (after d failing s room a) room a) ∧
    (failing = none → AllOrNothing d failing s room a) ∧
    (s.isMember room a = true → (after d failing s room a).isMember room a = false →
      LockedOut (after d failing s room a) room a) := by
  rcases ends_closure d failing s room a with
    ⟨-, hdone⟩ | ⟨⟨e, herror⟩, hstopped⟩
  · have hout : LockedOut (after d failing s room a) room a := by
      rw [hdone]
      exact lockedOut_departed
    exact ⟨⟨.departed, by decide, hdone⟩, fun _ => hout, fun _ => Or.inr hout, fun _ _ => hout⟩
  · have hnot : ¬ reply d failing s room a = .ok () := by
      rw [herror]
      exact fun h => by cases h
    rcases hstopped with hsame | ⟨name, hname, hstage⟩
    · -- It wrote nothing, so that a member is one still.
      refine ⟨⟨.untouched, by decide, ?_⟩, fun h => absurd h hnot, fun _ => Or.inl hsame,
        fun hmember hgone => ?_⟩
      · rw [reached_untouched, hsame]
      · rw [hsame, hmember] at hgone
        cases hgone
    · have hne : stoppedBy name ≠ .memberGone := by
        intro h
        exact hlast (stoppedBy_eq_memberGone h ▸ hname)
      refine ⟨⟨stoppedBy name, hne, hstage⟩, fun h => absurd h hnot, fun h => ?_,
        fun hmember hgone => ?_⟩
      · rw [h] at hname
        cases hname
      · rw [hstage, isMember_reached hne (stoppedBy_ne_departed name), hmember] at hgone
        cases hgone

/-! ### Without a failure -/

-- A closure that no statement stops answers.
theorem reply_of_triple (d : Departure) (s : Server) (room : RoomId) (a : WalletAddress)
    (h : Closure.Triple none (fun s' => s' = s) (closure d room a)
      (fun _ s' => s' = reached s room a .departed) fun _ _ => False) :
    reply d none s room a = .ok () ∧ after d none s room a = reached s room a .departed := by
  have hends := h s rfl
  unfold reply after
  rcases hr : (closure d room a).run none s with ⟨answer, s'⟩
  rw [hr] at hends
  cases answer with
  | ok u => exact ⟨rfl, hends⟩
  | error e => exact hends.elim

/-- Without a failure the closure of a leave does what the route does. -/
theorem leave_none {s : Server} {caller : WalletAddress} {room : RoomId} {p : Server × String}
    (h : s.leave caller room = .ok p) :
    reply .left none s room caller = .ok () ∧ p.1 = after .left none s room caller := by
  have hleft := reply_of_triple .left s room caller
    (triple_leave (fun _ h => by cases h) fun hadmin hcount _ => ?_)
  · exact ⟨hleft.1, (Server.leave_ok h).2.trans hleft.2.symm⟩
  · simp only [Server.leave, bind_eq_ok, ensure_eq_ok, orRefuse_eq_ok] at h
    rcases h with ⟨record, hrecord, -, -, -, -, -, -, -, hlast, -⟩
    rw [Server.isAdmin, ← Server.getRoom, hrecord] at hadmin
    rw [hrecord] at hcount
    have hadmin' : record.isAdmin caller = true := hadmin
    have hcount' : record.adminCount ≤ 1 := hcount
    simp [hadmin', hcount'] at hlast

/-- Without a failure the closure of a kick does what the route does. -/
theorem kick_none {s : Server} {caller target : WalletAddress} {room : RoomId}
    {p : Server × String} (h : s.kick caller room target = .ok p) :
    reply .kicked none s room target = .ok () ∧ p.1 = after .kicked none s room target := by
  have hkicked := reply_of_triple .kicked s room target
    (triple_kick (fun _ h => by cases h) fun hnot _ => ?_)
  · exact ⟨hkicked.1, (Server.kick_ok h).2.trans hkicked.2.symm⟩
  · rw [(Server.kick_ok h).1] at hnot
    cases hnot

end Departures

/-! ### A failure in between -/

namespace Sample

/-- Alice's channel with Bob, who holds its key, reached by requests. -/
def kickable : Server :=
  Run.run Server.step (Server.empty [])
    [.login alice, .login bob, .createRoom alice team, .store alice team (wrapFor alice) none,
      .invite alice team bob, .store alice team (wrapFor bob) none, .accept bob team]

/-- Bob's wraps are deleted and his membership is not: he is a member without a key. -/
theorem kicked_halfway :
    ¬ Departures.AllOrNothing .kicked (some .deleteMember) kickable team bob := by
  rintro (hsame | hout)
  · have hkeys := congrArg (fun s => (s.rooms team).map fun r => r.keyExists bob 1) hsame
    exact absurd hkeys (by decide +kernel)
  · exact absurd hout.noMember (by decide +kernel)

/-- The theorem at the same failure. -/
theorem departures_in_order_kicked :
    (∃ stage, stage ≠ .memberGone ∧
      Departures.after .kicked (some .deleteMember) kickable team bob =
        Departures.reached kickable team bob stage) ∧
    kickable.isMember team bob = true := by
  refine ⟨(Departures.departures_in_order .kicked (some .deleteMember) ?_ kickable team bob).1,
    by decide +kernel⟩
  decide

end Sample

end PocketSkynet
