import PocketSkynet.Server.Hub
import PocketSkynet.Server.Sample

/-!
# The Freshness of Views

What one wallet is subscribed to lives in the database, and again in the view of
each of its connections. A change commits first and refreshes afterwards; a
refresh reads the database in one step and stores what it read in another, and a
connection is registered with a view that was read before. Any of these can be
overtaken by a change in between, and then the older view is stored last.

`freshness` says when this is harmless: what is stored or registered is what the
database implies by then, or some other refresh is still to read the database, or
still to store what the database implies. A single-room stream is narrowed when
it is opened and widened by the next refresh, which is the same kind of staleness.

## Main definitions

* `Subscriptions`, `Subscriptions.loadView`: What the database says.
* `Conn`, `Registry`: The wallet's connections.
* `ViewTask`, `ViewTask.advance`: The operations, step by step.
* `Registry.Fresh`: Every connection has the view it should have.
* `ViewTask.Repairs`: A task that will bring every view up to date.
* `LandsFresh`: The condition on a step.

## Theorems

* `repairs_or_fresh_step`: A stale view has somebody coming to repair it.
* `freshness`: Once everything has finished, every view is fresh.
* `registered_after_removal`: A connection that keeps a room its owner has left.
-/

namespace PocketSkynet

/-- What the database says about one wallet: its memberships, whom it has blocked
    and who has blocked it. -/
structure Subscriptions where
  memberOf : List RoomId
  blocked : List WalletAddress
  blockers : List WalletAddress
deriving DecidableEq, Repr

/-- A change to it that somebody commits. -/
inductive SubscriptionChange where
  | join (room : RoomId)
  | leave (room : RoomId)
  | block (wallet : WalletAddress)
  | unblock (wallet : WalletAddress)
  | blockedBy (wallet : WalletAddress)
  | unblockedBy (wallet : WalletAddress)
deriving DecidableEq, Repr

namespace Subscriptions

/-- The rows after a change. -/
def commit (db : Subscriptions) : SubscriptionChange → Subscriptions
  | .join room => { db with memberOf := db.memberOf.insert room }
  | .leave room => { db with memberOf := db.memberOf.filter (· ≠ room) }
  | .block wallet => { db with blocked := db.blocked.insert wallet }
  | .unblock wallet => { db with blocked := db.blocked.filter (· ≠ wallet) }
  | .blockedBy wallet => { db with blockers := db.blockers.insert wallet }
  | .unblockedBy wallet => { db with blockers := db.blockers.filter (· ≠ wallet) }

/-- The connect-time snapshot. -/
def loadView (db : Subscriptions) : ConnView := ⟨db.memberOf, db.blocked ∪ db.blockers⟩

end Subscriptions

/-- A single-room stream is a narrowing of the view. -/
def ConnView.narrow (v : ConnView) : Option RoomId → ConnView
  | none => v
  | some room => { v with rooms := v.rooms.filter (· = room) }

/-- A live connection, and the room its owner asked for if it asked for one. -/
structure Conn where
  id : Nat
  room : Option RoomId
  view : ConnView
deriving DecidableEq, Repr

/-- The database and the wallet's connections. -/
structure Registry where
  db : Subscriptions
  conns : List Conn
  nextId : Nat
deriving DecidableEq, Repr

namespace Registry

/-- A server that has just started. -/
def boot (db : Subscriptions) : Registry := ⟨db, [], 1⟩

/-- Admit a connection, enforcing both caps. -/
def register (s : Registry) (full : Bool) (room : Option RoomId) (view : ConnView) : Registry :=
  if full || decide (maxPerWallet ≤ s.conns.length) then { s with nextId := s.nextId + 1 }
  else { s with conns := s.conns ++ [⟨s.nextId, room, view⟩], nextId := s.nextId + 1 }

/-- Swap a fresh view into every connection. -/
def setUserView (s : Registry) (view : ConnView) : Registry :=
  { s with conns := s.conns.map fun c => { c with view := view } }

/-- Remove a connection. -/
def unregister (s : Registry) (id : Nat) : Registry :=
  { s with conns := s.conns.filter fun c => c.id ≠ id }

end Registry

/-- What is done to or by the wallet. -/
inductive ViewCall where
  | change (change : SubscriptionChange)
  | refresh
  | connect (room : Option RoomId)
  | disconnect (id : Nat)
deriving DecidableEq, Repr

/-- How far it has got. -/
inductive ViewTask where
  | commit (change : SubscriptionChange)
  | load
  | store (view : ConnView)
  | loadFor (room : Option RoomId)
  | register (room : Option RoomId) (view : ConnView)
  | unregister (id : Nat)
  | done
deriving DecidableEq, Repr

namespace ViewTask

/-- Where an operation starts. -/
def enter : ViewCall → ViewTask
  | .change change => .commit change
  | .refresh => .load
  | .connect room => .loadFor room
  | .disconnect id => .unregister id

/-- The next step. `full` says that the server is at capacity. -/
def advance (full : Bool) (s : Registry) : ViewTask → Registry × ViewTask
  | commit change => ({ s with db := s.db.commit change }, load)
  | load => (s, store s.db.loadView)
  | store view => (s.setUserView view, done)
  | loadFor room => if full then (s, done) else (s, register room (s.db.loadView.narrow room))
  | register room view => (s.register full room view, done)
  | unregister id => (s.unregister id, done)
  | done => (s, done)

/-- The task is still to read the database, or still to store what the database
    implies. -/
def Repairs (db : Subscriptions) : ViewTask → Prop
  | commit _ => True
  | load => True
  | store view => view = db.loadView
  | _ => False

end ViewTask

/-- The wallet's operations in progress. -/
abbrev Views := Pool Registry ViewTask

namespace Views

/-- The system after a turn. -/
abbrev step (p : Views) (turn : Turn ViewCall Bool) : Views :=
  Pool.step ViewTask.enter ViewTask.advance p turn

/-- The connection has the view that the database implies for it. -/
def Current (db : Subscriptions) (c : Conn) : Prop := c.view = db.loadView.narrow c.room

/-- Once every operation has finished, every connection has the view it should have. -/
def Fresh (p : Views) : Prop :=
  (∀ t ∈ p.procs, t = .done) → ∀ c ∈ p.shared.conns, Current p.shared.db c

/-- Another refresh is coming. -/
def Repaired (p : Views) (i : Nat) : Prop :=
  ∃ j t, j ≠ i ∧ p.procs[j]? = some t ∧ t.Repairs p.shared.db

/-- What the step stores or registers is what the database implies by now, for each
    connection it goes to, or another refresh is coming. -/
def LandsFresh (p : Views) : Turn ViewCall Bool → Prop
  | .tick i _ =>
      match p.procs[i]? with
      | some (.store view) =>
          (∀ c ∈ p.shared.conns, view = p.shared.db.loadView.narrow c.room) ∨ p.Repaired i
      | some (.register room view) => view = p.shared.db.loadView.narrow room ∨ p.Repaired i
      | _ => True
  | .start _ => True

/-- Every view is up to date, or somebody is coming to repair it. -/
def Inv (p : Views) : Prop :=
  (∀ c ∈ p.shared.conns, Current p.shared.db c) ∨ ∃ t ∈ p.procs, t.Repairs p.shared.db

section

variable {p : Views} {i : Nat} {full : Bool}

/-- A step after which the views are as they were, or current. -/
theorem inv_of_current {s : Registry} {t t' : ViewTask} (hi : p.Inv) (ht : p.procs[i]? = some t)
    (hdb : s.db = p.shared.db) (hrepairs : t.Repairs s.db → t'.Repairs s.db)
    (hconns : ∀ c ∈ s.conns, c ∈ p.shared.conns ∨ Current s.db c) :
    Inv ⟨s, p.procs.set i t'⟩ := by
  rcases hi with hfresh | hrep
  · left
    intro c hc
    rcases hconns c hc with hc | hc
    · rw [hdb]
      exact hfresh c hc
    · exact hc
  · -- The one that moves goes on to repair, or it would not have been the one.
    rw [← hdb] at hrep
    exact Or.inr (Pool.exists_mem_set ht hrepairs (fun _ hu => hu) hrep)

/-- The step lemma. -/
theorem repairs_or_fresh_step (p : Views) (turn : Turn ViewCall Bool) (hi : p.Inv)
    (h : p.LandsFresh turn) : (p.step turn).Inv := by
  cases turn with
  | start call =>
      rcases hi with hfresh | ⟨t, ht, hrep⟩
      · exact Or.inl hfresh
      · exact Or.inr ⟨t, List.mem_append_left _ ht, hrep⟩
  | tick i full =>
      rcases ht : p.procs[i]? with _ | t
      · rwa [step, Pool.step_tick_none ht]
      rw [step, Pool.step_tick ht]
      have hlt := (List.getElem?_eq_some_iff.1 ht).1
      have hsame : ∀ c ∈ p.shared.conns, c ∈ p.shared.conns ∨ Current p.shared.db c :=
        fun c hc => Or.inl hc
      cases t with
      | commit change =>
          -- The change makes every view stale, and its own refresh is still to come.
          exact Or.inr ⟨.load, List.mem_set hlt _, trivial⟩
      | load => exact Or.inr ⟨.store p.shared.db.loadView, List.mem_set hlt _, rfl⟩
      | store view =>
          simp only [LandsFresh, ht] at h
          rcases h with hcurrent | ⟨j, u, hj, hu, hrep⟩
          · left
            intro c hc
            rcases List.mem_map.1 hc with ⟨old, hold, rfl⟩
            exact hcurrent old hold
          · exact Or.inr ⟨u, Pool.mem_set_of_ne hu hj, hrep⟩
      | loadFor room =>
          simp only [ViewTask.advance]
          split <;> exact inv_of_current hi ht rfl nofun hsame
      | register room view =>
          simp only [LandsFresh, ht] at h
          have hnew : ∀ c ∈ (p.shared.register full room view).conns,
              c ∈ p.shared.conns ∨ c.room = room ∧ c.view = view := by
            intro c hc
            unfold Registry.register at hc
            split at hc
            · exact Or.inl hc
            · rcases List.mem_append.1 hc with hc | hc
              · exact Or.inl hc
              · cases List.mem_singleton.1 hc
                exact Or.inr ⟨rfl, rfl⟩
          have hdb : (p.shared.register full room view).db = p.shared.db := by
            unfold Registry.register
            split <;> rfl
          rcases h with hcurrent | ⟨j, u, hj, hu, hrep⟩
          · refine inv_of_current hi ht hdb nofun fun c hc => ?_
            rcases hnew c hc with hc | ⟨rfl, rfl⟩
            · exact Or.inl hc
            · refine Or.inr ?_
              change c.view = (p.shared.register full c.room c.view).db.loadView.narrow c.room
              rw [hdb]
              exact hcurrent
          · rw [← hdb] at hrep
            exact Or.inr ⟨u, Pool.mem_set_of_ne hu hj, hrep⟩
      | unregister id =>
          exact inv_of_current hi ht rfl nofun fun c hc => Or.inl (List.mem_filter.1 hc).1
      | done => exact inv_of_current hi ht rfl nofun hsame

theorem fresh_of_inv (p : Views) (hi : p.Inv) : p.Fresh := by
  intro hdone
  rcases hi with hfresh | ⟨t, ht, hrep⟩
  · exact hfresh
  · rw [hdone t ht] at hrep
    exact absurd hrep nofun

end

/-- **View freshness.** In a run of changes, refreshes, connections and disconnections
    in which whatever is stored is what the database implies, or another refresh is
    coming, every live connection has the view the database implies once every
    operation has finished. -/
theorem freshness (db : Subscriptions) (turns : List (Turn ViewCall Bool))
    (h : Run.Along step LandsFresh (Pool.idle (Registry.boot db)) turns) :
    Run.Throughout step Fresh (Pool.idle (Registry.boot db)) turns :=
  Run.throughout_mono fresh_of_inv _ turns
    (Run.throughout_of_along repairs_or_fresh_step _ turns (Or.inl nofun) h)

end Views

namespace Sample

/-- Alice joins the channel on one device while another connects: the connection
    reads the database after the change and is registered before the refresh. -/
def joinedElsewhere : List (Turn ViewCall Bool) :=
  [.start (.connect none), .tick 0 false, .tick 0 false, .start (.change (.join team)),
    .tick 1 false, .tick 1 false, .start (.connect none), .tick 2 false, .tick 2 false,
    .tick 1 false]

theorem joinedElsewhere_fresh :
    Run.Throughout Views.step Views.Fresh (Pool.idle (Registry.boot ⟨[], [], []⟩))
      joinedElsewhere :=
  Views.freshness ⟨[], [], []⟩ joinedElsewhere (by
    simp [joinedElsewhere, Run.Along, Views.LandsFresh, Views.step, Pool.step, Pool.idle,
      ViewTask.enter, ViewTask.advance, Registry.boot, Registry.register,
      Subscriptions.commit, Subscriptions.loadView, ConnView.narrow, maxPerWallet])

/-- A device reads the view, Alice is removed from the channel and the refresh finds
    no connection, and then the device is registered. -/
def removedMeanwhile : List (Turn ViewCall Bool) :=
  [.start (.connect none), .tick 0 false, .start (.change (.leave team)), .tick 1 false,
    .tick 1 false, .tick 1 false, .tick 0 false]

/-- The connection keeps the channel. -/
theorem registered_after_removal :
    ¬ Run.Throughout Views.step Views.Fresh (Pool.idle (Registry.boot ⟨[team], [], []⟩))
      removedMeanwhile := by
  intro h
  have hlast := Run.throughout_last _ _ h
  have hend : Run.run Views.step (Pool.idle (Registry.boot ⟨[team], [], []⟩)) removedMeanwhile =
      ⟨⟨⟨[], [], []⟩, [⟨1, none, ⟨[team], []⟩⟩], 2⟩, [.done, .done]⟩ := rfl
  rw [hend] at hlast
  have hstale : (⟨[team], []⟩ : ConnView) = ⟨[], []⟩ :=
    hlast (by decide) ⟨1, none, ⟨[team], []⟩⟩ (List.mem_singleton.2 rfl)
  cases hstale

end Sample

end PocketSkynet
