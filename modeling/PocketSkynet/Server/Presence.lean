import Mathlib.Data.List.MinMax
import PocketSkynet.Lib.Sparse
import PocketSkynet.Server.Routing

/-!
# Presence

The status of a wallet is derived from what its connections say about themselves, and from a
beacon if it has none. The most present device decides. What was derived last is kept, so that a
status that is derived again and has not changed is not published again.

Every operation makes its change and then announces the wallets it concerns. The clock is read
once for the change and once more for each announcement, and the rooms a change is published to
are read from the database after it.

## Main definitions

* `Signs`, `Signs.presence`: What is kept of a connection, and what it contributes.
* `PresenceHub.derivePresence`, `PresenceHub.announcePresence`: What a wallet's devices add up
  to, and how a change is made known.
* `PresenceOp`, `PresenceHub.perform`: An operation up to its announcements, and the wallets it
  announces.
* `PresenceTurn`, `PresenceTurn.step`: An operation with what it reads.
-/

namespace PocketSkynet

/-- How long a connection may go without a sign of life before its holder is counted as away. -/
def awayAfterMs : Int := 5 * 60 * 1000

/-- How long a beacon counts for. -/
def beaconTtlMs : Int := 150 * 1000

namespace PresenceStatus

/-- The more present, the higher. -/
def rank : PresenceStatus → Nat
  | offline => 0
  | away => 1
  | online => 2

theorem rank_injective : Function.Injective rank := by
  intro a b h
  cases a <;> cases b <;> first | rfl | cases h

instance : LinearOrder PresenceStatus := LinearOrder.lift' rank rank_injective

instance : OrderBot PresenceStatus where
  bot := offline
  bot_le := fun _ => Nat.zero_le _

theorem le_online (p : PresenceStatus) : p ≤ online := by
  cases p <;> decide

/-- Whether this is a state a client is allowed to declare for itself. -/
def isDeclarable : PresenceStatus → Bool
  | online | away => true
  | offline => false

end PresenceStatus

/-- What a connection says about its holder. -/
structure Signs where
  lastActiveAt : Int
  declaredAway : Bool
deriving DecidableEq, Repr

namespace Signs

/-- Note a sign of life. It takes a declaration back. -/
def markActive (_ : Signs) (now : Int) : Signs := ⟨now, false⟩

/-- Record what the client says about itself. -/
def declare (v : Signs) (status : PresenceStatus) (now : Int) : Signs :=
  match status with
  | .away => { v with declaredAway := true }
  | .online | .offline => v.markActive now

/-- This one connection's contribution to its holder's status. -/
def presence (v : Signs) (now : Int) : PresenceStatus :=
  if v.declaredAway then .away
  else if awayAfterMs ≤ now - v.lastActiveAt then .away
  else .online

end Signs

/-- The hub, the signs of life of all connections there have been, the statuses that are
    announced, and what has been published. -/
structure PresenceHub where
  hub : Hub
  nextId : Nat
  signs : Nat → Signs
  presence : List (WalletAddress × PresenceStatus)
  published : List (Target × Option WalletAddress × ServerEvent)

namespace PresenceHub

def start : PresenceHub := ⟨.empty, 1, fun _ => ⟨0, false⟩, [], []⟩

/-- What the connections of a wallet add up to. -/
def fromConnections (s : PresenceHub) (wallet : WalletAddress) (now : Int) : PresenceStatus :=
  (((s.hub.byUser.bucket wallet).filterMap s.hub.conn).map fun c =>
    (s.signs c.id).presence now).foldr max ⊥

/-- What the beacon of a wallet says as long as it is fresh. -/
def fromBeacon (s : PresenceHub) (wallet : WalletAddress) (now : Int) : PresenceStatus :=
  (((Table.lookup Prod.fst wallet s.hub.beacons).filter fun b => now - b.2.2 < beaconTtlMs).map
    fun b => b.2.1).getD .offline

/-- What this wallet's devices currently add up to. -/
def derivePresence (s : PresenceHub) (wallet : WalletAddress) (now : Int) : PresenceStatus :=
  max (s.fromConnections wallet now) (s.fromBeacon wallet now)

/-- The last status announced for a wallet. -/
def announcedPresence (s : PresenceHub) (wallet : WalletAddress) : PresenceStatus :=
  Sparse.value .offline wallet s.presence

/-- Derive the status of a wallet, and if it moved, tell everyone who shares a room with it. The
    rooms may fail to be read. -/
def announcePresence (s : PresenceHub) (wallet : WalletAddress) (now : Int)
    (rooms : Option (List RoomId)) : PresenceHub :=
  let derived := s.derivePresence wallet now
  let s' := { s with presence := Sparse.put .offline wallet derived s.presence }
  if ¬ Sparse.moves .offline wallet derived s.presence then s'
  else match rooms with
    | none => s'
    | some [] => s'
    | some roomIds =>
        { s' with published :=
            s.published ++ [(.rooms roomIds, some wallet, .presence wallet derived)] }

end PresenceHub

/-- What is done. A frame on a connection and its end name the connection. -/
inductive PresenceOp where
  | connect (wallet : WalletAddress) (view : ConnView)
  | disconnect (id : Nat)
  | declarePresence (id : Nat) (status : PresenceStatus)
  | noteActivity (id : Nat)
  | beacon (wallet : WalletAddress) (status : PresenceStatus)
  | sweepPresence
deriving DecidableEq, Repr

namespace PresenceHub

/-- The signs of one connection replaced. -/
def sign (s : PresenceHub) (id : Nat) (v : Signs) : PresenceHub :=
  { s with signs := Function.update s.signs id v }

/-- A declaration applied to the connections of these numbers. -/
def declareAll (s : PresenceHub) (status : PresenceStatus) (now : Int) (ids : List Nat) :
    PresenceHub :=
  ids.foldl (fun s id =>
    if (s.hub.conn id).isSome then s.sign id ((s.signs id).declare status now) else s) s

/-- An operation up to its announcements, and the wallets that it announces then. Nobody can
    declare to be offline. -/
def perform (s : PresenceHub) (now : Int) : PresenceOp → PresenceHub × List WalletAddress
  | .connect wallet view =>
      if ¬ s.hub.hasCapacity then (s, [])
      else
        let s' := { s with nextId := s.nextId + 1 }.sign s.nextId ⟨now, false⟩
        match s.hub.register ⟨s.nextId, wallet, view⟩ with
        | .error _ => (s', [])
        | .ok hub => ({ s' with hub := hub }, [wallet])
  | .disconnect id =>
      match s.hub.conn id with
      | none => (s, [])
      | some c => ({ s with hub := s.hub.unregister id }, [c.wallet])
  | .declarePresence id status =>
      match s.hub.conn id with
      | none => (s, [])
      | some c =>
          if status.isDeclarable then (s.sign id ((s.signs id).declare status now), [c.wallet])
          else (s, [])
  | .noteActivity id =>
      match s.hub.conn id with
      | none => (s, [])
      | some c =>
          (s.sign id ((s.signs id).markActive now),
            if s.announcedPresence c.wallet ≠ .online then [c.wallet] else [])
  | .beacon wallet status =>
      if ¬ status.isDeclarable then (s, [])
      else if s.hub.byUser.bucket wallet = [] then
        ({ s with hub := { s.hub with
            beacons := Table.upsert Prod.fst (wallet, status, now) s.hub.beacons } }, [wallet])
      else
        let s' := s.declareAll status now (s.hub.byUser.bucket wallet)
        ({ s' with hub := { s.hub with
            beacons := Table.erase Prod.fst wallet s.hub.beacons } }, [wallet])
  | .sweepPresence =>
      let s' := { s with hub := { s.hub with
        beacons := s.hub.beacons.filter fun b => now - b.2.2 < beaconTtlMs } }
      (s', (s.presence.filter fun e => s'.derivePresence e.1 now ≠ e.2).map Prod.fst)

end PresenceHub

/-- An operation, when it reads the clock, when the announcement of each wallet reads it, and
    what the announcement finds as the wallet's rooms. -/
structure PresenceTurn where
  op : PresenceOp
  now : Int
  told : WalletAddress → Int
  rooms : WalletAddress → Option (List RoomId)

namespace PresenceTurn

/-- An operation and its announcements. -/
def step (s : PresenceHub) (turn : PresenceTurn) : PresenceHub :=
  (s.perform turn.now turn.op).2.foldl
    (fun s wallet => s.announcePresence wallet (turn.told wallet) (turn.rooms wallet))
    (s.perform turn.now turn.op).1

end PresenceTurn

end PocketSkynet
