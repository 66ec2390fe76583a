import PocketSkynet.Lib.Interleave
import PocketSkynet.Server.Routing

/-!
# The Hub, Step by Step

The operations of the hub on maps that many callers share. Every access to a map, to the
counter or to the view of a connection is a step of its own, and between two of them any other
operation may take any number of its own. What is done under one guard of a map is one step: an
entry is taken out of a bucket and the bucket is seen to be empty in the same step, but the
bucket is removed in the next.

The caps are checked at the beginning of a registration and not again. The view of a connection
is a cell that whoever has the connection can read and replace, also when the connection has
left the table.

## Main definitions

* `HubTables`: The maps, the counters and the views.
* `HubOp`, `HubTask`: An operation, and the step it takes next.
* `HubTask.advance`: The next step of an operation.
* `Switchboard`: The maps with the operations on them.
-/

namespace PocketSkynet

/-- A connection in the table. Its view is in a cell of its own. -/
structure LiveConn where
  id : Nat
  wallet : WalletAddress
deriving DecidableEq, Repr

/-- The maps of the hub. `views` are the views of all connections there have been. -/
structure HubTables where
  conns : List LiveConn
  views : Nat → ConnView
  byUser : Buckets WalletAddress Nat
  byRoom : Buckets RoomId Nat
  total : Nat
  nextId : Nat
  beacons : List (WalletAddress × PresenceStatus × Int)

/-- One more on a counter of 64 bits, which wraps around. -/
def raised (n : Nat) : Nat := (n + 1) % 2 ^ 64

/-- One less on a counter of 64 bits, which wraps around. -/
def lowered : Nat → Nat
  | 0 => 2 ^ 64 - 1
  | n + 1 => n

/-- A hub nobody is connected to. -/
def HubTables.empty : HubTables := ⟨[], fun _ => ⟨[], []⟩, .empty, .empty, 0, 0, []⟩

/-- An operation as it is called. The number of a new connection is drawn first. -/
inductive HubOp where
  | register (wallet : WalletAddress) (view : ConnView)
  | unregister (id : Nat)
  | setUserView (wallet : WalletAddress) (view : ConnView)
deriving DecidableEq, Repr

/-- An operation under way: the step it takes next, with what it has read. -/
inductive HubTask where
  | ended (answer : Except HubError Unit)
  -- `register`
  | drawing (wallet : WalletAddress) (view : ConnView)
  | capacity (c : ConnHandle)
  | counting (c : ConnHandle)
  | retiring (c : ConnHandle)
  | filing (c : ConnHandle) (left : List RoomId)
  | pushing (c : ConnHandle)
  | inserting (c : ConnHandle)
  | adding
  -- `unregister`
  | removing (id : Nat)
  | subtracting (c : LiveConn)
  | viewing (c : LiveConn)
  | taking (c : LiveConn) (left : List RoomId)
  | closing (c : LiveConn) (room : RoomId) (left : List RoomId)
  | leaving (c : LiveConn)
  | dissolving (wallet : WalletAddress)
  -- `set_user_view`
  | listing (wallet : WalletAddress) (view : ConnView)
  | finding (view : ConnView) (ids : List Nat)
  | loading (view : ConnView) (id : Nat) (ids : List Nat)
  | storing (view : ConnView) (id : Nat) (ids : List Nat) (previous : ConnView)
  | withdrawing (view : ConnView) (id : Nat) (ids : List Nat) (gone new : List RoomId)
  | clearing (view : ConnView) (id : Nat) (ids : List Nat) (room : RoomId)
      (gone new : List RoomId)
  | entering (view : ConnView) (id : Nat) (ids : List Nat) (new : List RoomId)
deriving DecidableEq, Repr

namespace HubTables

def conn (s : HubTables) (id : Nat) : Option LiveConn := s.conns.find? fun c => c.id = id

/-- The connections of a wallet. -/
def connsOf (s : HubTables) (wallet : WalletAddress) : List LiveConn :=
  s.conns.filter fun c => c.wallet = wallet

/-- Insert a connection, in place of one with its number. -/
def insert (s : HubTables) (c : LiveConn) : List LiveConn :=
  s.conns.filter (fun d => d.id ≠ c.id) ++ [c]

end HubTables

namespace HubTask

def enter : HubOp → HubTask
  | .register wallet view => drawing wallet view
  | .unregister id => removing id
  | .setUserView wallet view => listing wallet view

/-- What the next step does to the maps. -/
def effect (s : HubTables) : HubTask → HubTables
  | drawing _ view =>
      { s with nextId := s.nextId + 1, views := Function.update s.views s.nextId view }
  | retiring c => { s with beacons := s.beacons.filter fun b => b.1 ≠ c.wallet }
  | filing c (room :: _) => { s with byRoom := s.byRoom.file c.id room }
  | pushing c => { s with byUser := s.byUser.push c.id c.wallet }
  | inserting c => { s with conns := s.insert ⟨c.id, c.wallet⟩ }
  | adding => { s with total := raised s.total }
  | removing id => { s with conns := s.conns.filter fun c => c.id ≠ id }
  | subtracting _ => { s with total := lowered s.total }
  | taking c (room :: _) => { s with byRoom := s.byRoom.take c.id room }
  | closing _ room _ => { s with byRoom := s.byRoom.close room }
  | leaving c => { s with byUser := s.byUser.take c.id c.wallet }
  | dissolving wallet => { s with byUser := s.byUser.close wallet }
  | storing view id _ _ => { s with views := Function.update s.views id view }
  | withdrawing _ id _ (room :: _) _ => { s with byRoom := s.byRoom.take id room }
  | clearing _ _ _ room _ _ => { s with byRoom := s.byRoom.close room }
  | entering _ id _ (room :: _) => { s with byRoom := s.byRoom.file id room }
  | _ => s

/-- Where an operation goes on from what its next step reads. -/
def next (s : HubTables) : HubTask → HubTask
  | ended answer => ended answer
  | drawing wallet view => capacity ⟨s.nextId, wallet, view⟩
  | capacity c => if s.total < maxConnections then counting c else ended (.error .atCapacity)
  | counting c =>
      if (s.byUser.bucket c.wallet).length < maxPerWallet then retiring c
      else ended (.error .tooManyConnections)
  | retiring c => filing c (s.views c.id).rooms
  | filing c (_ :: left) => filing c left
  | filing c [] => pushing c
  | pushing c => inserting c
  | inserting _ => adding
  | adding => ended (.ok ())
  | removing id =>
      match s.conn id with
      | some c => subtracting c
      | none => ended (.ok ())
  | subtracting c => viewing c
  | viewing c => taking c (s.views c.id).rooms
  | taking c (room :: left) =>
      if s.byRoom.empties c.id room then closing c room left else taking c left
  | taking c [] => leaving c
  | closing c _ left => taking c left
  | leaving c =>
      if s.byUser.empties c.id c.wallet then dissolving c.wallet else ended (.ok ())
  | dissolving _ => ended (.ok ())
  | listing wallet view => finding view (s.byUser.bucket wallet)
  | finding view (id :: ids) =>
      if (s.conn id).isSome then loading view id ids else finding view ids
  | finding _ [] => ended (.ok ())
  | loading view id ids => storing view id ids (s.views id)
  | storing view id ids previous =>
      withdrawing view id ids (previous.rooms.filter fun r => !view.rooms.contains r)
        (view.rooms.filter fun r => !previous.rooms.contains r)
  | withdrawing view id ids (room :: gone) new =>
      if s.byRoom.empties id room then clearing view id ids room gone new
      else withdrawing view id ids gone new
  | withdrawing view id ids [] new => entering view id ids new
  | clearing view id ids _ gone new => withdrawing view id ids gone new
  | entering view id ids (_ :: new) => entering view id ids new
  | entering view _ ids [] => finding view ids

/-- The next step of an operation. -/
def advance (_ : Unit) (s : HubTables) (c : HubTask) : HubTables × HubTask :=
  (effect s c, next s c)

end HubTask

/-- The maps with the operations on them. -/
abbrev Switchboard := Pool HubTables HubTask

namespace Switchboard

/-- The state after a turn. -/
abbrev step : Switchboard → Turn HubOp Unit → Switchboard :=
  Pool.step HubTask.enter HubTask.advance

end Switchboard

end PocketSkynet
