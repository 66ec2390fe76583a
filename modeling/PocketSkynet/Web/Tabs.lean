import PocketSkynet.Web.LocalStore

/-!
# Tabs on One Local Store

Several tabs work on the local store of one owner. What a tab does in one transaction of the
database is one step; between two of them any other tab may take any number of its own, and a
tab may be closed after any of them. A change of a message finds it in one step, reads it in the
next and commits the row as it was read in a third. A purge deletes the rows in one step and
leaves its marker in another.

`History` adds what has happened to the store: the ids that have been minted, the serials in
the order in which they were committed, the messages that are gone, what a tab can learn of, and
the drains that have come to their end. It only watches: `watched_run`.

## Main definitions

* `Call`, `Task`, `Task.advance`: What a tab is asked, and the steps it takes.
* `Event`, `Event.Shows`: A change that a tab can learn of, and the rows that show it.
* `History`, `Task.watch`: The store with its history.
* `Safe`: What the store promises to all tabs.
* `Careful`: A step that does not act on what is no longer so.

## Theorems

* `watched_run`: The history only watches.
-/

namespace PocketSkynet

namespace Local

open LocalRequests

/-! ### What tabs do -/

/-- A change of a message. -/
inductive MessageChange where
  | edit (body : Body)
  | tombstone
deriving DecidableEq, Repr

/-- The changed row. -/
def MessageChange.rewrite (change : MessageChange) (row : Message) (serial now : ℕ) : Message :=
  match change with
  | edit body => applyEdit row body serial now
  | tombstone => applyTombstone row serial

/-- What is done to the message that has been found. -/
inductive Act where
  | change (change : MessageChange)
  | react (code : String) (add : Bool)
deriving DecidableEq, Repr

inductive Call where
  | send (room : RoomId) (body : Body) (asAgent : Bool)
  | act (id : MessageId) (act : Act)
  | purge (room : RoomId)
  | drain (room : RoomId) (since : ℕ)
deriving DecidableEq, Repr

inductive Reply where
  | row (m : Message)
  | empty
  | synced (seen : List Message)
deriving DecidableEq, Repr

/-- What a tab is at: the step it takes next, with what it has read. -/
inductive Task where
  | answered (answer : Except LocalError Reply)
  | closed
  | sending (room : StaticKind) (sender : WalletAddress) (body : Body)
  | finding (id : MessageId) (act : Act)
  | reading (id : MessageId) (act : Act) (key : Key)
  | mutating (id : MessageId) (change : MessageChange) (key : Key) (row : Message)
  | reacting (target : MessageId) (code : String) (add : Bool) (room : StaticKind)
  | clearing (room : StaticKind)
  | marking (room : StaticKind)
  | paging (room : StaticKind) (start since : ℕ) (seen : List Message)

/-- What a step meets: how it goes, the clock, and the id that is minted. -/
structure Moment where
  chance : Chance
  now : ℕ
  id : MessageId
deriving DecidableEq, Repr

namespace Task

variable (owner agent : WalletAddress)

def enter : Call → Task
  | .send room body asAgent =>
      match checkRoom owner room with
      | .error e => answered (.error e)
      | .ok kind =>
          if asAgent && kind ≠ .jarvis then
            answered (.error (.notAvailable "agent reply outside My Jarvis"))
          else sending kind (if asAgent then agent else owner) body
  | .act id (.react code add) =>
      if code = "" then answered (.error (.notAvailable "emoticon without a code"))
      else finding id (.react code add)
  | .act id (.change change) => finding id (.change change)
  | .purge room =>
      match checkRoom owner room with
      | .error e => answered (.error e)
      | .ok kind => clearing kind
  | .drain room since =>
      match checkRoom owner room with
      | .error e => answered (.error e)
      | .ok kind => paging kind since since []

/-- The page that a drain reads next. -/
def page (s : Store) (room : StaticKind) (since : ℕ) : List Message × Bool :=
  syncPage (s.getRange owner (roomRangeAfter (room.name owner) since))

/-- What the next step does to the store. -/
def effect (x : Moment) (s : Store) : Task → Store
  | sending room sender body =>
      s.commitWithSerial fun serial =>
        [.put ⟨room, serial⟩ (messageRow body x.id sender serial x.now),
          .index x.id ⟨room, serial⟩]
  | mutating id change key row =>
      s.commitWithSerial fun serial =>
        [.delete key, .put ⟨key.room, serial⟩ (change.rewrite row serial x.now),
          .index id ⟨key.room, serial⟩]
  | reacting target code add room =>
      s.commitWithSerial fun serial =>
        [.put ⟨room, serial⟩ (reactionRow add x.id owner target code serial x.now)]
  | clearing room => s.deleteRange owner (roomRange (room.name owner))
  | marking room =>
      s.commitWithSerial fun serial => [.put ⟨room, serial⟩ (purgeMarker x.id owner serial x.now)]
  | _ => s

/-- Where a tab goes on from what its next step reads. -/
def next (x : Moment) (s : Store) : Task → Task
  | answered answer => answered answer
  | closed => closed
  | sending _ sender body =>
      answered (.ok (.row (messageRow body x.id sender (s.serial + 1) x.now)))
  | finding id act =>
      match s.msgid id with
      | some key => reading id act key
      | none => answered (.error (.notAvailable "message"))
  | reading id act key =>
      match s.getMessage key, act with
      | none, _ => answered (.error (.notAvailable "message"))
      | some row, .change change => mutating id change key row
      | some _, .react code add => reacting id code add key.room
  | mutating _ change _ row => answered (.ok (.row (change.rewrite row (s.serial + 1) x.now)))
  | reacting _ _ _ _ => answered (.ok .empty)
  | clearing room => marking room
  | marking _ => answered (.ok .empty)
  | paging room start since seen =>
      let read := page owner s room since
      match nextSyncCursor since (highestSerial read.1) read.2 read.1.length with
      | some cursor => paging room start cursor (seen ++ read.1)
      | none => answered (.ok (.synced (seen ++ read.1)))

/-- The tab has nothing more to do. -/
def isOver : Task → Bool
  | answered _ | closed => true
  | _ => false

/-- The next step. -/
def advance (x : Moment) (s : Store) (c : Task) : Store × Task :=
  if c.isOver then (s, c)
  else x.chance.meet s (effect owner x s c, next owner x s c) (answered (.error .storage)) closed

end Task

/-! ### What happens -/

inductive Change where
  | edited (id : MessageId)
  | deleted (id : MessageId)
  | purged
deriving DecidableEq, Repr

/-- A change of a room, with the first serial a row can have that shows it. -/
structure Event where
  room : StaticKind
  serial : ℕ
  change : Change
deriving DecidableEq, Repr

/-- The row shows the change: it is of the message, as it was changed or later, or a marker. -/
def Event.Shows (ev : Event) (m : Message) : Prop :=
  ev.serial ≤ m.msgSerial ∧ (m.kind = .deleteAll ∨
    match ev.change with
    | .edited id => m.id = id ∧ m.isMessage = true
    | .deleted id => m.id = id ∧ m.kind = .delete
    | .purged => False)

/-- A drain that has come to its end, with what had happened in its room by then. -/
structure Drained where
  start : ℕ
  seen : List Message
  known : List Event
deriving DecidableEq, Repr

/-- The store with what has happened to it. -/
structure History where
  store : Store
  minted : List MessageId
  commits : List ℕ
  gone : List MessageId
  events : List Event
  drains : List Drained

def History.empty : History := ⟨Store.empty, [], [], [], [], []⟩

namespace Task

variable (owner agent : WalletAddress)

/-- The id that the step gives to a new row. -/
def mints (x : Moment) : Task → Option MessageId
  | sending _ _ _ | reacting _ _ _ _ | marking _ => some x.id
  | _ => none

/-- The step takes a serial. -/
def commits : Task → Bool
  | sending _ _ _ | mutating _ _ _ _ | reacting _ _ _ _ | marking _ => true
  | _ => false

/-- What happens in the step. -/
def happens (s : Store) : Task → Option Event
  | mutating id (.edit _) key _ => some ⟨key.room, s.serial + 1, .edited id⟩
  | mutating id .tombstone key _ => some ⟨key.room, s.serial + 1, .deleted id⟩
  | clearing room => some ⟨room, s.serial + 1, .purged⟩
  | _ => none

/-- The messages that are gone with the step. -/
def removes (s : Store) : Task → List MessageId
  | mutating id .tombstone _ _ => [id]
  | clearing room =>
      (s.messages.filter fun e =>
        Store.inRange owner (roomRange (room.name owner)) e && e.2.isMessage).map (·.2.id)
  | _ => []

/-- The drain that ends with the step. -/
def ends (h : History) : Task → Option Drained
  | paging room start since seen =>
      let read := page owner h.store room since
      if read.2 then none
      else some ⟨start, seen ++ read.1, h.events.filter fun ev => ev.room = room⟩
  | _ => none

/-- The history after a step that has been done. -/
def watch (x : Moment) (h : History) (c : Task) : History where
  store := effect owner x h.store c
  minted := h.minted ++ (c.mints x).toList
  commits := h.commits ++ (if c.commits then [h.store.serial + 1] else [])
  gone := h.gone ++ c.removes owner h.store
  events := h.events ++ (c.happens h.store).toList
  drains := h.drains ++ (c.ends owner h).toList

/-- The next step, watched. -/
def watchedAdvance (x : Moment) (h : History) (c : Task) : History × Task :=
  if c.isOver then (h, c)
  else x.chance.meet h (watch owner x h c, next owner x h.store c) (answered (.error .storage))
    closed

end Task

/-- The store with the tabs on it. -/
abbrev Tabs := Pool Store Task

/-- The store with its history and the tabs on it. -/
abbrev WatchedTabs := Pool History Task

/-- The state after a turn. -/
abbrev Tabs.step (owner agent : WalletAddress) : Tabs → Turn Call Moment → Tabs :=
  Pool.step (Task.enter owner agent) (Task.advance owner)

abbrev WatchedTabs.step (owner agent : WalletAddress) :
    WatchedTabs → Turn Call Moment → WatchedTabs :=
  Pool.step (Task.enter owner agent) (Task.watchedAdvance owner)

/-- The history only watches. -/
theorem watched_run (owner agent : WalletAddress) (p : WatchedTabs)
    (turns : List (Turn Call Moment)) :
    (Run.run (WatchedTabs.step owner agent) p turns).map History.store id =
      Run.run (Tabs.step owner agent) (p.map History.store id) turns := by
  refine Pool.map_run (fun _ => rfl) (fun x h c => ?_) p turns
  unfold Task.watchedAdvance Task.advance
  by_cases hover : c.isOver = true
  · rw [if_pos hover, id, if_pos hover]
    rfl
  · rw [if_neg hover, id, if_neg hover]
    cases x.chance with
    | ok | fails | cutOff => rfl

/-! ### What is promised -/

/-- What all tabs can rely on. -/
structure Safe (p : WatchedTabs) : Prop where
  /-- Serials increase in the order of the commits. -/
  increasing : p.shared.commits.Pairwise (· < ·)
  /-- No two rows have one serial. -/
  distinct : (p.shared.store.messages.map (·.2.msgSerial)).Nodup
  /-- When nothing is in progress, a message has one row at most, and the index points at it. -/
  indexed : (∀ c ∈ p.procs, c.isOver = true) →
    (p.shared.store.messages.map (·.2.id)).Nodup ∧
      ∀ e ∈ p.shared.store.messages, e.2.isMessage = true →
        p.shared.store.msgid e.2.id = some e.1
  /-- Of a message that is gone there is a tombstone at most. -/
  gone : ∀ e ∈ p.shared.store.messages, e.2.id ∈ p.shared.gone → e.2.kind = .delete
  /-- A tab that syncs to the end has learned of everything behind its cursor. -/
  learned : ∀ d ∈ p.shared.drains, ∀ ev ∈ d.known, d.start < ev.serial →
    ∃ m ∈ d.seen, ev.Shows m

/-- A step that does not act on what is no longer so: a minted id is new, and there is a serial of
    twelve digits left; a row that is written back is the only one of its message, and for an
    edit it is still there and no tombstone; and a drain does not read what fits in one page
    while a purge from behind its cursor has yet to leave its marker. -/
def Task.Careful (owner : WalletAddress) (x : Moment) (h : History) : Task → Prop
  | sending _ _ _ | reacting _ _ _ _ | marking _ =>
      x.id ∉ h.minted ∧ h.store.serial < serialLimit
  | mutating id change key row =>
      h.store.serial < serialLimit ∧
        (∀ e ∈ h.store.messages, e.2.id = id → e.1 = key) ∧
        (change ≠ .tombstone → row.kind ≠ .delete ∧ ∃ e ∈ h.store.messages, e.1 = key)
  | paging room start since _ =>
      (h.store.getRange owner (roomRangeAfter (room.name owner) since)).length ≤ syncPageLimit →
        ∀ ev ∈ h.events, ev.room = room → ev.change = .purged → start < ev.serial →
          ∃ e ∈ h.store.messages, e.1.room = room ∧ e.2.kind = .deleteAll ∧
            ev.serial ≤ e.1.serial
  | _ => True

/-- The turn is careful, if its step is done. -/
def Careful (owner : WalletAddress) (p : WatchedTabs) : Turn Call Moment → Prop
  | .start _ => True
  | .tick i x => ∀ c ∈ p.procs[i]?, x.chance ≠ .fails → c.Careful owner x p.shared

instance Task.decidableCareful (owner : WalletAddress) (x : Moment) (h : History) :
    ∀ c : Task, Decidable (c.Careful owner x h)
  | sending _ _ _ | reacting _ _ _ _ | marking _ => inferInstanceAs (Decidable (_ ∧ _))
  | mutating _ _ _ _ => inferInstanceAs (Decidable (_ ∧ _ ∧ (_ → _ ∧ _)))
  | paging _ _ _ _ => inferInstanceAs (Decidable (_ → _))
  | answered _ | closed | finding _ _ | reading _ _ _ | clearing _ => .isTrue trivial

instance decidableCareful (owner : WalletAddress) (p : WatchedTabs) :
    ∀ turn : Turn Call Moment, Decidable (Careful owner p turn)
  | .start _ => .isTrue trivial
  | .tick i x =>
      inferInstanceAs
        (Decidable (∀ c ∈ p.procs[i]?, x.chance ≠ .fails → c.Careful owner x p.shared))

end Local

end PocketSkynet
