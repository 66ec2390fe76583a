import PocketSkynet.Server.Delivery
import PocketSkynet.Server.ViewFreshness

/-!
# Single-Room Streams

A stream can be asked for one room only. Its view is narrowed once, when it is opened. From then on
the view is in the same cell as that of any other connection of the wallet, and a refresh stores
the full view in all of them: after a refresh a single-room stream is subscribed to every room its
owner is in, and what is published there is delivered.

A stream that is not widened never delivers what is for another room, live or replayed, whatever
else happens. An event is for the rooms its target names; what is for the wallet itself or for
everyone is for no room, and every stream of the wallet is sent it.

## Main definitions

* `Target.elsewhere`: An event is for other rooms than this one.
* `RoomStream`: A stream with the room it was asked for and what it has delivered.
* `StreamSystem`, `StreamInput`, `StreamSystem.step`: The wallet's connections, the log and the
  streams.
* `StreamSystem.Narrow`: No stream has delivered what is for another room than its own.
* `StreamSystem.KeepsNarrow`: The condition on a step.

## Theorems

* `narrowInv_step`, `narrowed_sharp`: What keeps the views narrow.
* `published_frames`: What is on the wire is what has been delivered.
* `inv_step`: The step lemma.
* `narrow_streams`: Streams that are not widened stay narrow.
* `widened_delivers`: A block widens a stream, and it delivers what is for another room.
-/

namespace PocketSkynet

/-- An event is for other rooms than this one. -/
def Target.elsewhere (room : RoomId) : Target → Bool
  | .room roomId => roomId ≠ room
  | .roomExcept roomId _ => roomId ≠ room
  | .rooms roomIds => !roomIds.contains room
  | .user _ => false
  | .all => false

/-- A narrow view accepts nothing for another room. -/
theorem accepts_narrow {v : ConnView} {room : RoomId} (h : ∀ r ∈ v.rooms, r = room)
    {env : Envelope} {me : WalletAddress} (haccepts : v.accepts env me = true) :
    env.target.elsewhere room = false := by
  unfold ConnView.accepts at haccepts
  split at haccepts
  · cases haccepts
  · cases htarget : env.target with
    | room roomId =>
        rw [htarget] at haccepts
        have hr := h roomId (List.contains_iff_mem.1 haccepts)
        simp [Target.elsewhere, hr]
    | user wallet => rfl
    | roomExcept roomId except =>
        rw [htarget] at haccepts
        have hr := h roomId (List.contains_iff_mem.1 (Bool.and_eq_true_iff.1 haccepts).1)
        simp [Target.elsewhere, hr]
    | rooms roomIds =>
        rw [htarget] at haccepts
        rcases List.any_eq_true.1 haccepts with ⟨r, hmem, hr⟩
        rw [h r (List.contains_iff_mem.1 hr)] at hmem
        simp [Target.elsewhere, hmem]
    | all => rfl

/-! ### The views of a wallet -/

namespace Views

/-- The connections that were opened for one room have no other in their view. -/
def Narrowed (p : Views) : Prop :=
  ∀ c ∈ p.shared.conns, ∀ room ∈ c.room, ∀ r ∈ c.view.rooms, r = room

/-- A view that is stored has no other room for the connections that were opened for one. -/
def StoresNarrow (p : Views) : Turn ViewCall Bool → Prop
  | .tick i _ =>
      match p.procs[i]? with
      | some (.store view) =>
          ∀ c ∈ p.shared.conns, ∀ room ∈ c.room, ∀ r ∈ view.rooms, r = room
      | _ => True
  | .start _ => True

/-- Views stay narrow: those of connections, and those that are about to be registered. -/
structure NarrowInv (p : Views) : Prop where
  narrowed : p.Narrowed
  pending : ∀ room view, ViewTask.register (some room) view ∈ p.procs → ∀ r ∈ view.rooms, r = room

variable {p : Views}

-- A tick by a task that is not about to store a view.
theorem narrowInv_tick {i : Nat} {full : Bool} {t : ViewTask} (hi : p.NarrowInv)
    (ht : p.procs[i]? = some t)
    (hconns : ∀ c ∈ (t.advance full p.shared).1.conns, c ∈ p.shared.conns ∨
      ∀ room ∈ c.room, ∀ r ∈ c.view.rooms, r = room)
    (hnext : ∀ room view, (t.advance full p.shared).2 = .register (some room) view →
      ∀ r ∈ view.rooms, r = room) : (p.step (.tick i full)).NarrowInv := by
  rw [step, Pool.step_tick ht]
  constructor
  · intro c hc
    rcases hconns c hc with hold | hnarrow
    · exact hi.narrowed c hold
    · exact hnarrow
  · intro room view hmem
    rcases List.mem_or_eq_of_mem_set hmem with hold | hnew
    · exact hi.pending room view hold
    · exact hnext room view hnew.symm

/-- What keeps the views narrow. -/
theorem narrowInv_step (turn : Turn ViewCall Bool) (hi : p.NarrowInv) (h : p.StoresNarrow turn) :
    (p.step turn).NarrowInv := by
  cases turn with
  | start call =>
      refine ⟨hi.narrowed, fun room view hmem => ?_⟩
      rcases List.mem_append.1 hmem with hold | hnew
      · exact hi.pending room view hold
      · cases call <;> cases List.mem_singleton.1 hnew
  | tick i full =>
      rcases ht : p.procs[i]? with _ | t
      · rwa [step, Pool.step_tick_none ht]
      have hsame : ∀ c ∈ p.shared.conns, c ∈ p.shared.conns ∨
          ∀ room ∈ c.room, ∀ r ∈ c.view.rooms, r = room := fun c hc => Or.inl hc
      cases t with
      | commit change => exact narrowInv_tick hi ht hsame fun room view hnext => by cases hnext
      | load => exact narrowInv_tick hi ht hsame fun room view hnext => by cases hnext
      | store view =>
          simp only [StoresNarrow, ht] at h
          refine narrowInv_tick hi ht ?_ fun room view hnext => by cases hnext
          intro c hc
          rcases List.mem_map.1 hc with ⟨old, hold, rfl⟩
          exact Or.inr (h old hold)
      | loadFor only =>
          cases full with
          | true => exact narrowInv_tick hi ht hsame fun room view hnext => by cases hnext
          | false =>
              refine narrowInv_tick hi ht hsame ?_
              intro room view hnext r hr
              cases hnext
              -- The view has just been narrowed to the room.
              exact of_decide_eq_true (List.mem_filter.1 hr).2
      | register room view =>
          refine narrowInv_tick hi ht ?_ fun only view' hnext => by cases hnext
          intro c hc
          simp only [ViewTask.advance, Registry.register] at hc
          split at hc
          · exact Or.inl hc
          · rcases List.mem_append.1 hc with hold | hnew
            · exact Or.inl hold
            · cases List.mem_singleton.1 hnew
              refine Or.inr fun only honly => hi.pending only view ?_
              have hroom : room = some only := honly
              rw [← hroom]
              exact List.mem_of_getElem? ht
      | unregister id =>
          exact narrowInv_tick hi ht (fun c hc => Or.inl (List.mem_filter.1 hc).1)
            fun room view hnext => by cases hnext
      | done => exact narrowInv_tick hi ht hsame fun room view hnext => by cases hnext

-- A step without the condition widens a view.
theorem narrowed_sharp (turn : Turn ViewCall Bool) (h : (p.step turn).Narrowed) :
    p.StoresNarrow turn := by
  unfold StoresNarrow
  cases turn with
  | start call => trivial
  | tick i full =>
      dsimp only
      split
      next view ht =>
        intro c hc room hroom r hr
        rw [step, Pool.step_tick ht] at h
        exact h { c with view := view } (List.mem_map_of_mem hc) room hroom r hr
      next => trivial

/-- A connection after a turn was there before, with the room it was opened for, or it is the one
    that has just been numbered. -/
theorem conns_step (turn : Turn ViewCall Bool) :
    p.shared.nextId ≤ (p.step turn).shared.nextId ∧
      ∃ fresh : Conn, fresh.id = p.shared.nextId ∧ ∀ c ∈ (p.step turn).shared.conns,
        (∃ old ∈ p.shared.conns, old.id = c.id ∧ old.room = c.room) ∨
          (c = fresh ∧ p.shared.nextId < (p.step turn).shared.nextId) := by
  have hkept : ∃ fresh : Conn, fresh.id = p.shared.nextId ∧ ∀ c ∈ p.shared.conns,
      (∃ old ∈ p.shared.conns, old.id = c.id ∧ old.room = c.room) ∨
        (c = fresh ∧ p.shared.nextId < p.shared.nextId) :=
    ⟨⟨p.shared.nextId, none, ⟨[], []⟩⟩, rfl, fun c hc => Or.inl ⟨c, hc, rfl, rfl⟩⟩
  cases turn with
  | start call => exact ⟨le_refl _, hkept⟩
  | tick i full =>
      rcases ht : p.procs[i]? with _ | t
      · rw [step, Pool.step_tick_none ht]
        exact ⟨le_refl _, hkept⟩
      rw [step, Pool.step_tick ht]
      cases t with
      | commit change => exact ⟨le_refl _, hkept⟩
      | load => exact ⟨le_refl _, hkept⟩
      | store view =>
          refine ⟨le_refl _, ⟨p.shared.nextId, none, ⟨[], []⟩⟩, rfl, fun c hc => ?_⟩
          rcases List.mem_map.1 hc with ⟨old, hold, rfl⟩
          exact Or.inl ⟨old, hold, rfl, rfl⟩
      | loadFor only => cases full <;> exact ⟨le_refl _, hkept⟩
      | register room view =>
          simp only [ViewTask.advance, Registry.register]
          split
          · exact ⟨Nat.le_succ _, ⟨p.shared.nextId, room, view⟩, rfl,
              fun c hc => Or.inl ⟨c, hc, rfl, rfl⟩⟩
          · refine ⟨Nat.le_succ _, ⟨p.shared.nextId, room, view⟩, rfl, fun c hc => ?_⟩
            rcases List.mem_append.1 hc with hold | hnew
            · exact Or.inl ⟨c, hold, rfl, rfl⟩
            · exact Or.inr ⟨List.mem_singleton.1 hnew, Nat.lt_succ_self _⟩
      | unregister id =>
          refine ⟨le_refl _, ⟨p.shared.nextId, none, ⟨[], []⟩⟩, rfl, fun c hc => ?_⟩
          exact Or.inl ⟨c, (List.mem_filter.1 hc).1, rfl, rfl⟩
      | done => exact ⟨le_refl _, hkept⟩

end Views

/-! ### What a stream delivers -/

namespace SseStream

variable (view : ConnView) (me : WalletAddress) (log : EventLog)

/-- The events that the task's first step delivers. -/
def replayed (s : SseStream) (refused : Bool) : List Envelope :=
  match s.phase with
  | .opening (some cursor) => (log.replaySince refused cursor view me).getD []
  | _ => []

/-- The event that a turn of the task's loop delivers. -/
def taken (s : SseStream) (tokenExpired suspended : Bool) : List Envelope :=
  if s.phase ≠ .live ∨ 0 < s.receiver.missed then []
  else (s.receiver.buffer.head?.filter fun env =>
    view.accepts env me && !tokenExpired && !suspended).toList

variable {view me log} {s : SseStream}

theorem published_map (sent : List Envelope) :
    (sent.map publishedFrame).filter (·.published) = sent.map publishedFrame := by
  refine List.filter_eq_self.2 fun f hf => ?_
  rcases List.mem_map.1 hf with ⟨env, -, rfl⟩
  rfl

-- A frame that the stream makes up is none of them.
theorem published_append {f : Frame} (hf : f.published = false) (frames : List Frame) :
    (frames ++ [f]).filter (·.published) = frames.filter (·.published) := by
  rw [List.filter_append, List.filter_cons_of_neg (by simp [hf]), List.filter_nil, List.append_nil]

theorem published_replay (refused : Bool) :
    (s.replay view me log refused).frames.filter (·.published) =
      s.frames.filter (·.published) ++ (s.replayed view me log refused).map publishedFrame := by
  unfold replay replayed
  cases s.phase with
  | opening cursor =>
      cases cursor with
      | none => exact (List.append_nil _).symm
      | some cursor =>
          dsimp only
          cases log.replaySince refused cursor view me with
          | none => exact (published_append rfl _).trans (List.append_nil _).symm
          | some sent =>
              exact (List.filter_append _ _).trans (congrArg (_ ++ ·) (published_map sent))
  | live => exact (List.append_nil _).symm
  | ended => exact (List.append_nil _).symm

theorem published_recv (tokenExpired suspended : Bool) :
    (s.recv view me log tokenExpired suspended).frames.filter (·.published) =
      s.frames.filter (·.published) ++
        (s.taken view me tokenExpired suspended).map publishedFrame := by
  unfold recv taken
  by_cases hlive : s.phase ≠ .live
  · rw [if_pos hlive, if_pos (Or.inl hlive)]
    exact (List.append_nil _).symm
  rw [if_neg hlive]
  by_cases hmissed : 0 < s.receiver.missed
  · rw [if_pos hmissed, if_pos (Or.inr hmissed)]
    exact (published_append rfl _).trans (List.append_nil _).symm
  · rw [if_neg hmissed, if_neg (not_or.2 ⟨hlive, hmissed⟩)]
    cases s.receiver.buffer with
    | nil => exact (List.append_nil _).symm
    | cons env rest =>
        -- Whatever is not delivered leaves no frame, or one that the stream makes up.
        cases haccepts : view.accepts env me with
        | false => simp [haccepts]
        | true =>
            cases tokenExpired with
            | true => simp [haccepts, emit]
            | false =>
                cases suspended <;> simp [haccepts, emit, publishedFrame, Option.filter_some]

-- What is delivered has been accepted by the view.
theorem accepts_of_replayed {refused : Bool} {env : Envelope}
    (h : env ∈ s.replayed view me log refused) : view.accepts env me = true := by
  unfold replayed at h
  split at h
  · unfold EventLog.replaySince at h
    dsimp only at h
    split at h
    · cases h
    · rcases List.mem_filterMap.1 h with ⟨r, -, hr⟩
      exact (Bool.and_eq_true_iff.1 (Option.filter_eq_some_iff.1 hr).2).2
  · cases h

theorem accepts_of_taken {tokenExpired suspended : Bool} {env : Envelope}
    (h : env ∈ s.taken view me tokenExpired suspended) : view.accepts env me = true := by
  unfold taken at h
  split at h
  · cases h
  · have hpass := (Option.filter_eq_some_iff.1 (Option.mem_toList.1 h)).2
    exact (Bool.and_eq_true_iff.1 (Bool.and_eq_true_iff.1 hpass).1).1

end SseStream

/-- A stream, the room it was asked for if it was asked for one, and what it has delivered. -/
structure RoomStream where
  id : Nat
  room : Option RoomId
  stream : SseStream
  delivered : List Envelope
deriving DecidableEq, Repr

/-- The connections of a wallet with the operations on them, the log, what has not been sent yet,
    and the tasks of the streams. -/
structure StreamSystem where
  views : Views
  log : EventLog
  unsent : List Envelope
  streams : List RoomStream

/-- What can happen. -/
inductive StreamInput where
  /-- A membership change, a block, a refresh, a connection or a disconnection takes a step. -/
  | views (turn : Turn ViewCall Bool)
  /-- A record is appended. A publisher goes on to send it. -/
  | append (publication : Option (Target × Option WalletAddress × ServerEvent))
  /-- A publisher sends its event to every subscriber. -/
  | send (publisher : Nat)
  /-- The task of a connection that has been registered subscribes. -/
  | subscribe (id : Nat) (cursor : Option Nat)
  /-- A stream replays what was missed, if there is a cursor. -/
  | replay (id : Nat) (refused : Bool)
  /-- A stream reads from its subscription. -/
  | recv (id : Nat) (tokenExpired suspended : Bool)

namespace StreamSystem

/-- A server that has just started. -/
def boot (db : Subscriptions) : StreamSystem := ⟨Pool.idle (Registry.boot db), .empty, [], []⟩

/-- The live connection of a number. -/
def conn (w : StreamSystem) (id : Nat) : Option Conn :=
  w.views.shared.conns.find? fun c => c.id = id

/-- The task of a stream takes a step with the view of the moment, as long as its connection is
    live. -/
def tick (w : StreamSystem) (id : Nat) (move : ConnView → SseStream → SseStream)
    (deliver : ConnView → SseStream → List Envelope) : StreamSystem :=
  match w.conn id with
  | none => w
  | some c =>
      { w with streams := w.streams.map fun s =>
          if s.id = id then
            { s with
              stream := move c.view s.stream
              delivered := s.delivered ++ deliver c.view s.stream }
          else s }

def step (me : WalletAddress) (w : StreamSystem) : StreamInput → StreamSystem
  | .views turn => { w with views := w.views.step turn }
  | .append publication =>
      { w with
        log := w.log.append publication
        unsent := w.unsent ++ (publication.map fun p =>
          (⟨w.log.nextSeq, p.1, p.2.1, p.2.2⟩ : Envelope)).toList }
  | .send publisher =>
      match w.unsent[publisher]? with
      | none => w
      | some env =>
          { w with
            unsent := w.unsent.eraseIdx publisher
            streams := w.streams.map fun s =>
              { s with stream := { s.stream with receiver := s.stream.receiver.push env } } }
  | .subscribe id cursor =>
      match w.conn id with
      | none => w
      | some c =>
          if w.streams.any (fun s => s.id = id) then w
          else { w with streams := w.streams ++ [⟨id, c.room, .opened cursor, []⟩] }
  | .replay id refused =>
      w.tick id (fun view s => s.replay view me w.log refused)
        fun view s => s.replayed view me w.log refused
  | .recv id tokenExpired suspended =>
      w.tick id (fun view s => s.recv view me w.log tokenExpired suspended)
        fun view s => s.taken view me tokenExpired suspended

/-- No stream has delivered what is for another room than the one it was asked for. -/
def Narrow (w : StreamSystem) : Prop :=
  ∀ s ∈ w.streams, ∀ room ∈ s.room, ∀ env ∈ s.delivered, env.target.elsewhere room = false

/-- The step does not widen a stream: a view that a refresh stores has no other room for the
    connections that were opened for one. -/
def KeepsNarrow (w : StreamSystem) : StreamInput → Prop
  | .views turn => w.views.StoresNarrow turn
  | _ => True

/-- What is kept. A stream was asked for the room that its connection was opened for. -/
structure Inv (w : StreamSystem) : Prop where
  views : w.views.NarrowInv
  conns : ∀ c ∈ w.views.shared.conns, c.id < w.views.shared.nextId
  distinct : ∀ c ∈ w.views.shared.conns, ∀ d ∈ w.views.shared.conns, c.id = d.id → c.room = d.room
  streams : ∀ s ∈ w.streams, s.id < w.views.shared.nextId
  room : ∀ s ∈ w.streams, ∀ c ∈ w.views.shared.conns, c.id = s.id → c.room = s.room
  narrow : w.Narrow
  wire : ∀ s ∈ w.streams, s.stream.frames.filter (·.published) =
    s.delivered.map SseStream.publishedFrame

section

variable {me : WalletAddress} {w : StreamSystem} {id : Nat}

theorem conn_mem {c : Conn} (h : w.conn id = some c) : c ∈ w.views.shared.conns ∧ c.id = id := by
  unfold conn at h
  exact ⟨List.mem_of_find?_eq_some h, by simpa using List.find?_some h⟩

-- Streams that keep their number, their room and what they have delivered stay sound.
theorem inv_of_map {f : RoomStream → RoomStream} {log : EventLog} {unsent : List Envelope}
    (hi : w.Inv) (hid : ∀ s, (f s).id = s.id) (hroom : ∀ s, (f s).room = s.room)
    (hnarrow : ∀ s ∈ w.streams, ∀ room ∈ s.room, ∀ env ∈ (f s).delivered,
      env.target.elsewhere room = false)
    (hwire : ∀ s ∈ w.streams, (f s).stream.frames.filter (·.published) =
      (f s).delivered.map SseStream.publishedFrame) :
    Inv { w with log := log, unsent := unsent, streams := w.streams.map f } := by
  refine ⟨hi.views, hi.conns, hi.distinct, ?_, ?_, ?_, ?_⟩
  · intro s hs
    rcases List.mem_map.1 hs with ⟨old, hold, rfl⟩
    rw [hid]
    exact hi.streams old hold
  · intro s hs c hc hcs
    rcases List.mem_map.1 hs with ⟨old, hold, rfl⟩
    rw [hid] at hcs
    rw [hroom]
    exact hi.room old hold c hc hcs
  · intro s hs room hr
    rcases List.mem_map.1 hs with ⟨old, hold, rfl⟩
    rw [hroom] at hr
    exact hnarrow old hold room hr
  · intro s hs
    rcases List.mem_map.1 hs with ⟨old, hold, rfl⟩
    exact hwire old hold

variable (me) in
-- What a task delivers is accepted by a view that has no room but the stream's own.
theorem inv_tick {move : ConnView → SseStream → SseStream}
    {deliver : ConnView → SseStream → List Envelope} (hi : w.Inv)
    (hmove : ∀ view s, (move view s).frames.filter (·.published) =
      s.frames.filter (·.published) ++ (deliver view s).map SseStream.publishedFrame)
    (hdeliver : ∀ view s, ∀ env ∈ deliver view s, view.accepts env me = true) :
    (w.tick id move deliver).Inv := by
  unfold tick
  cases hc : w.conn id with
  | none => exact hi
  | some c =>
      rcases conn_mem hc with ⟨hmem, hid⟩
      refine inv_of_map hi ?_ ?_ ?_ ?_
      · intro s
        split <;> rfl
      · intro s
        split <;> rfl
      · intro s hs room hr env henv
        by_cases hown : s.id = id
        · rw [if_pos hown] at henv
          rcases List.mem_append.1 henv with hold | hnew
          · exact hi.narrow s hs room hr env hold
          · have hroom : c.room = s.room := hi.room s hs c hmem (hid.trans hown.symm)
            have hview := hi.views.narrowed c hmem room (hroom ▸ hr)
            exact accepts_narrow hview (hdeliver c.view s.stream env hnew)
        · rw [if_neg hown] at henv
          exact hi.narrow s hs room hr env henv
      · intro s hs
        by_cases hown : s.id = id
        · rw [if_pos hown]
          dsimp only
          rw [hmove, hi.wire s hs, List.map_append]
        · rw [if_neg hown]
          exact hi.wire s hs

theorem inv_views (hi : w.Inv) (turn : Turn ViewCall Bool) (h : w.views.StoresNarrow turn) :
    Inv { w with views := w.views.step turn } := by
  rcases Views.conns_step (p := w.views) turn with ⟨hnext, fresh, hfresh, hconns⟩
  refine ⟨Views.narrowInv_step turn hi.views h, ?_, ?_, ?_, ?_, hi.narrow, hi.wire⟩
  · intro c hc
    rcases hconns c hc with ⟨old, hold, hid, -⟩ | ⟨rfl, hlt⟩
    · rw [← hid]
      exact lt_of_lt_of_le (hi.conns old hold) hnext
    · rw [hfresh]
      exact hlt
  · intro c hc d hd hcd
    rcases hconns c hc with ⟨old, hold, hid, hroom⟩ | ⟨rfl, -⟩
    · rcases hconns d hd with ⟨old', hold', hid', hroom'⟩ | ⟨rfl, -⟩
      · rw [← hroom, ← hroom']
        exact hi.distinct old hold old' hold' (by rw [hid, hid', hcd])
      · -- A number that is given out now is not in use.
        have hlt := hi.conns old hold
        omega
    · rcases hconns d hd with ⟨old', hold', hid', -⟩ | ⟨rfl, -⟩
      · have hlt := hi.conns old' hold'
        omega
      · rfl
  · exact fun s hs => lt_of_lt_of_le (hi.streams s hs) hnext
  · intro s hs c hc hcs
    rcases hconns c hc with ⟨old, hold, hid, hroom⟩ | ⟨rfl, -⟩
    · rw [← hroom]
      exact hi.room s hs old hold (hid.trans hcs)
    · have hlt := hi.streams s hs
      omega

theorem inv_subscribe (hi : w.Inv) (id : Nat) (cursor : Option Nat) :
    (w.step me (.subscribe id cursor)).Inv := by
  dsimp only [step]
  cases hc : w.conn id with
  | none => exact hi
  | some c =>
      dsimp only
      split
      · exact hi
      rcases conn_mem hc with ⟨hmem, hid⟩
      -- The new stream has delivered nothing, and it has the room of its connection.
      have hsplit : ∀ s ∈ w.streams ++ [⟨id, c.room, .opened cursor, []⟩], s ∈ w.streams ∨
          s = ⟨id, c.room, .opened cursor, []⟩ := by
        intro s hs
        rcases List.mem_append.1 hs with hold | hnew
        · exact Or.inl hold
        · exact Or.inr (List.mem_singleton.1 hnew)
      refine ⟨hi.views, hi.conns, hi.distinct, ?_, ?_, ?_, ?_⟩
      · intro s hs
        rcases hsplit s hs with hold | rfl
        · exact hi.streams s hold
        · rw [← hid]
          exact hi.conns c hmem
      · intro s hs d hd hds
        rcases hsplit s hs with hold | rfl
        · exact hi.room s hold d hd hds
        · exact hi.distinct d hd c hmem (hds.trans hid.symm)
      · intro s hs room hr env henv
        rcases hsplit s hs with hold | rfl
        · exact hi.narrow s hold room hr env henv
        · cases henv
      · intro s hs
        rcases hsplit s hs with hold | rfl
        · exact hi.wire s hold
        · rfl

/-- The step lemma. -/
theorem inv_step (w : StreamSystem) (input : StreamInput) (hi : w.Inv) (h : w.KeepsNarrow input) :
    (w.step me input).Inv := by
  cases input with
  | views turn => exact inv_views hi turn h
  | append publication => exact ⟨hi.views, hi.conns, hi.distinct, hi.streams, hi.room, hi.narrow,
      hi.wire⟩
  | send publisher =>
      dsimp only [step]
      cases w.unsent[publisher]? with
      | none => exact hi
      | some env => exact inv_of_map hi (fun _ => rfl) (fun _ => rfl) hi.narrow hi.wire
  | subscribe id cursor => exact inv_subscribe hi id cursor
  | replay id refused =>
      rw [step]
      refine inv_tick me hi ?_ ?_
      · intro view s
        exact SseStream.published_replay refused
      · intro view s env henv
        exact SseStream.accepts_of_replayed henv
  | recv id tokenExpired suspended =>
      rw [step]
      refine inv_tick me hi ?_ ?_
      · intro view s
        exact SseStream.published_recv tokenExpired suspended
      · intro view s env henv
        exact SseStream.accepts_of_taken henv

end

theorem inv_boot (db : Subscriptions) : (boot db).Inv where
  views := ⟨nofun, nofun⟩
  conns := nofun
  distinct := nofun
  streams := nofun
  room := nofun
  narrow := nofun
  wire := nofun

/-- The views of single-room streams, after every prefix of a run. -/
theorem narrowed_iff (db : Subscriptions) (me : WalletAddress) (inputs : List StreamInput) :
    Run.Throughout (step me) (fun w => w.views.Narrowed) (boot db) inputs ↔
      Run.Along (step me) KeepsNarrow (boot db) inputs := by
  refine Run.throughout_iff_along (J := Inv) (fun w input hi h => inv_step w input hi h)
    (fun w hi => hi.views.narrowed) ?_ _ inputs (inv_boot db)
  intro w input _ hnarrow
  cases input with
  | views turn => exact Views.narrowed_sharp turn hnarrow
  | append publication => trivial
  | send publisher => trivial
  | subscribe id cursor => trivial
  | replay id refused => trivial
  | recv id tokenExpired suspended => trivial

/-- **Single-room streams.** In a run in which no refresh stores a view with another room in a
    connection that was opened for one, no stream that was asked for one room ever delivers what is
    for another, live or replayed. These are the runs in which the views stay narrow. -/
theorem narrow_streams (db : Subscriptions) (me : WalletAddress) (inputs : List StreamInput) :
    (Run.Along (step me) KeepsNarrow (boot db) inputs →
      Run.Throughout (step me) Narrow (boot db) inputs) ∧
    (Run.Throughout (step me) (fun w => w.views.Narrowed) (boot db) inputs ↔
      Run.Along (step me) KeepsNarrow (boot db) inputs) := by
  refine ⟨fun h => ?_, narrowed_iff db me inputs⟩
  exact Run.throughout_mono (fun _ hi => hi.narrow) _ inputs
    (Run.throughout_of_along (fun w input hi h => inv_step w input hi h) _ inputs (inv_boot db) h)

end StreamSystem

namespace Sample

open StreamSystem

/-- Another channel. -/
def lounge : RoomId := ⟨"room_1749652739651_test"⟩

/-- Alice opens a stream for the channel, and Bob blocks her, which refreshes her views. Then
    somebody writes in the other channel. -/
def blockedWhileListening : List StreamInput :=
  [.views (.start (.connect (some team))), .views (.tick 0 false), .views (.tick 0 false),
    .subscribe 1 none, .replay 1 false, .views (.start (.change (.blockedBy bob))),
    .views (.tick 1 false), .views (.tick 1 false), .views (.tick 1 false),
    .append (some (.room lounge, some carol, .newMessage lounge 1)), .send 0, .recv 1 false false]

/-- Who is in one channel only has nothing to be widened to. -/
theorem narrow_streams_one :
    Run.Along (step alice) KeepsNarrow (boot ⟨[team], [], []⟩) blockedWhileListening ∧
      Run.Throughout (step alice) Narrow (boot ⟨[team], [], []⟩) blockedWhileListening := by
  have hkeeps : Run.Along (step alice) KeepsNarrow (boot ⟨[team], [], []⟩)
      blockedWhileListening := by
    simp [blockedWhileListening, KeepsNarrow, Views.StoresNarrow, step, boot, Views.step, Pool.step,
      Pool.idle, ViewTask.enter, ViewTask.advance, Registry.boot, Registry.register,
      Subscriptions.commit, Subscriptions.loadView, ConnView.narrow, maxPerWallet, conn, tick]
  exact ⟨hkeeps, (narrow_streams ⟨[team], [], []⟩ alice blockedWhileListening).1 hkeeps⟩

/-- Who is in both is delivered what is for the other one. -/
theorem widened_delivers : ¬ ∀ (db : Subscriptions) (me : WalletAddress)
    (inputs : List StreamInput), Run.Throughout (step me) Narrow (boot db) inputs := by
  intro h
  have hlast := Run.throughout_last _ _ (h ⟨[team, lounge], [], []⟩ alice blockedWhileListening)
  have hstreams : (Run.run (step alice) (boot ⟨[team, lounge], [], []⟩)
      blockedWhileListening).streams =
      [⟨1, some team, ⟨.live, ⟨[], 0⟩, [⟨1, .newMessage lounge 1, true⟩], []⟩,
        [⟨1, .room lounge, some carol, .newMessage lounge 1⟩]⟩] := by
    decide +kernel
  unfold Narrow at hlast
  rw [hstreams] at hlast
  revert hlast
  decide

end Sample

end PocketSkynet
