import PocketSkynet.Client.Convergence
import PocketSkynet.Web.Tasks

/-!
# Opening a Room

A room is opened from what is at hand: from memory, from the cache, or else with one page of
history. Then the events past a cursor are fetched, page after page, and at the end the
server is told how far the user has read. Resyncing forgets the room first and opens it with
a page of history.

The task reads the handle that it was started with. Its own dispatches do not show in there,
so both the cursor that the drain starts from and the one that is reported as read are those
of before.

## Main definitions

* `Answers`: What the server answers to each request.
* `drainPages`, `drainSync`: The drain, and what is reported at its end.
* `openRoom`, `resyncRoom`: The two tasks.
* `StreamCourse`: The stream of the room at the moment of each request.
* `arrival`, `drainsFrom`: What the drain starts with, and where.

## Theorems

* `drains_visit`: Before it drains, a task brings the room to its arrival.
* `stream_visit`: The room after a task: the pages folded into its arrival.
* `read_visit`: What is reported as read is the cursor of before the task.
-/

namespace PocketSkynet.Web

/-- The answers to the requests of one task: twice for keys, once for history, any number of
    times for events, and once for the read pointer. -/
structure Answers where
  keys : Nat → Except ApiError (List RoomKey)
  history : Except ApiError (List Message)
  sync : Nat → Nat → Except ApiError (List Message × Bool)
  markRead : Nat → Except ApiError Nat

/-- What a task has done: the pages it was sent, what it did to the device, the serial it
    reported as read, the errors on its way, and whether it came as far as the drain. -/
structure Opening (Secret : Type) where
  pages : List (List Message)
  effects : List (Effect Secret)
  read : Option Nat
  errors : List ApiError
  drained : Bool

/-- Requests for events that one drain may make. -/
def maxDrain : Nat := 64

/-- The pages from `since` on, with a bound on the requests, and the error that ends them. -/
def drainPages (a : Answers) : Nat → Nat → Nat → List (List Message) × Option ApiError
  | 0, _, _ => ([], none)
  | left + 1, n, since =>
      match a.sync n since with
      | .error e => ([], some e)
      | .ok (page, more) =>
          match nextSyncCursor since (highestSerial page) more page.length with
          | none => ([page], none)
          | some next =>
              let rest := drainPages a left (n + 1) next
              (page :: rest.1, rest.2)

section

variable {Secret Point : Type} (P : Primitives Secret Point)

/-- What is done when the pages are through: the server is told what has been read, if
    anything, and what it confirms is kept. -/
def finishDrain (room : RoomId) (a : Answers) (read : Option Nat) : List (Effect Secret) :=
  let confirmed := match read.map a.markRead with
    | some (.ok n) => [.dispatch (.setReadSerial room n)]
    | _ => []
  .dispatch (.roomLoaded room) :: confirmed ++ [.dispatch (.clearUnread room)]

/-- Drain the events of a room and report what has been read, both by the handle. -/
def drainSync (store : AppState Secret) (room : RoomId) (start : Nat) (a : Answers) :
    Opening Secret :=
  let since := match store.roomState room with
    | some st => max st.cursor start
    | none => start
  let drained := drainPages a maxDrain 0 since
  let syncs := drained.1.map fun page => Effect.dispatch (.sync room page)
  match drained.2 with
  | some e =>
      { pages := drained.1
        effects := syncs ++ (if e.isUnauthorized then [.signOut] else []) ++
          [.dispatch (.roomFailed room e.userMessage)]
        read := none
        errors := [e]
        drained := true }
  | none =>
      let read := ((store.roomState room).map RoomState.cursor).filter (0 < ·)
      { pages := drained.1
        effects := syncs ++ finishDrain room a read
        read := read
        errors := []
        drained := true }

/-- Open the keys that are cached, unless there are some already. -/
def hydrateKeysFromCache (store : AppState Secret) (l : LocalStorage) (room : RoomId) :
    List (Effect Secret) :=
  match store.bundle room, store.auth.session, l.wraps room with
  | none, some session, some wraps =>
      let bundle := (unwrapBundle P session.keys room wraps).1
      if wraps.isEmpty || bundle.isEmpty then [] else [.dispatch (.setBundle room bundle)]
  | _, _, _ => []

/-- A ciphertext comes with the means to open it. -/
def hasCryptoMetadata (m : Message) : Bool :=
  m.iv.any (fun v => !v.isEmpty) && m.hmac.any fun v => !v.isEmpty

/-- Some row of the handle needs a key that the handle does not have. -/
def needsKeys (store : AppState Secret) (room : RoomId) : Bool :=
  match store.roomState room with
  | none => false
  | some st => st.messages.any fun m =>
      m.isEncrypted && hasCryptoMetadata m &&
        (store.bundle room).all fun b => (b.get m.keyVersion).isNone

/-- What comes before, and then a drain. -/
def Opening.after (before : List (Effect Secret)) (errors : List ApiError)
    (o : Opening Secret) : Opening Secret :=
  { o with effects := before ++ o.effects, errors := errors ++ o.errors }

/-- A page of history and then the drain. Being told that one is no member does not end it
    here. -/
def openCold (store : AppState Secret) (room : RoomId) (start : Nat) (a : Answers) :
    Opening Secret :=
  let asked := .dispatch (.roomLoading room) :: refreshKeys P store room (a.keys 0)
  match a.history with
  | .ok page => (drainSync store room start a).after
      (asked ++ [.dispatch (.history room page (decide (pageSize ≤ page.length)))]) []
  | .error e =>
      let failed := asked ++ [.dispatch (.roomFailed room e.userMessage)]
      if e.isForbidden then (drainSync store room start a).after failed [e]
      else ⟨[], failed, none, [e], false⟩

/-- The tiers of opening, cheapest first: what is in memory, what is in the cache, and the
    server. -/
def openTiers (store : AppState Secret) (l : LocalStorage) (room : RoomId) (a : Answers) :
    Opening Secret :=
  let cachedCursor := l.loadCursor room
  let keys := hydrateKeysFromCache P store l room
  let inMemory := (store.roomState room).any fun st => !st.messages.isEmpty
  if inMemory then (drainSync store room cachedCursor a).after keys []
  else
    match l.msgs room with
    | some cached =>
        (drainSync store room cachedCursor a).after (keys ++ [.dispatch (.hydrate room cached)]) []
    | none => (openCold P store room cachedCursor a).after keys []

/-- Open a room, and fetch keys once more if a row asks for them. -/
def openRoom (store : AppState Secret) (l : LocalStorage) (room : RoomId) (a : Answers) :
    Opening Secret :=
  let opened := openTiers P store l room a
  let more := if opened.drained && needsKeys store room then
    refreshKeys P store room (a.keys 1) else []
  { opened with effects := opened.effects ++ more }

/-- Forget a room and open it cold. -/
def resyncRoom (store : AppState Secret) (room : RoomId) (a : Answers) : Opening Secret :=
  (openCold P store room (((store.roomState room).map RoomState.cursor).getD 0) a).after
    [.forgetCached room, .dispatch (.forgetRoom room)] []

/-- The two ways to a room that is complete. -/
inductive Visit where
  | opening
  | resync
deriving DecidableEq, Repr

/-- A task that is started on a device, with the handle of that moment. -/
def visit (v : Visit) (d : Device Secret) (room : RoomId) (a : Answers) : Opening Secret :=
  match v with
  | .opening => openRoom P d.state d.storage room a
  | .resync => resyncRoom P d.state room a

end

/-! ### The server's side -/

/-- The stream of the room at the request for history, and at each request for events. -/
structure StreamCourse where
  history : Stream
  sync : Nat → Stream

/-- What a server answers that hides some senders from the user. -/
def StreamCourse.answers (c : StreamCourse) (hides : WalletAddress → Bool)
    (keys : Nat → Except ApiError (List RoomKey)) (markRead : Nat → Except ApiError Nat) :
    Answers :=
  { keys := keys
    history := .ok (c.history.getMessages hides 0 pageSize)
    sync := fun n since => .ok ((c.sync n).syncMessages hides since)
    markRead := markRead }

section

variable {Secret : Type}

/-- The room as the store has it. -/
def Device.stream (d : Device Secret) (room : RoomId) : RoomState := (d.state.entry room).stream

/-- What the drain starts with: the room in memory or out of the cache, or one page of
    history. -/
def arrival (v : Visit) (d : Device Secret) (room : RoomId) (page : List Message) : RoomState :=
  match v with
  | .opening =>
      if (d.stream room).messages.isEmpty then
        match d.storage.msgs room with
        | some cached => RoomState.fromCached cached (d.storage.loadCursor room)
        | none => (d.stream room).takeHistory page (decide (pageSize ≤ page.length))
      else d.stream room
  | .resync => RoomState.empty.takeHistory page (decide (pageSize ≤ page.length))

/-- Where the drain starts. -/
def drainsFrom (v : Visit) (d : Device Secret) (room : RoomId) : Nat :=
  match v with
  | .opening => max (d.stream room).cursor (d.storage.loadCursor room)
  | .resync => (d.stream room).cursor

/-! ### What each effect does to the room -/

/-- An effect that leaves every stream alone, and the cursors that are kept. -/
def Effect.quiet : Effect Secret → Bool
  | .dispatch (.setBundle _ _) | .dispatch (.roomLoading _) | .dispatch (.roomLoaded _)
  | .dispatch (.setReadSerial _ _) | .dispatch (.clearUnread _) => true
  | .saveWraps _ _ | .forgetCached _ => true
  | _ => false

-- A room that is put is found, and every other room is as it was.
theorem entry_putEntry (s : AppState Secret) (room room' : RoomId) (e : RoomEntry) :
    (s.putEntry room e).entry room' = if room' = room then e else s.entry room' := by
  have hput : (s.putEntry room e).roomStates room' =
      if room' = room then some e else s.roomStates room' := Function.update_apply _ _ _ _
  rw [AppState.entry, hput]
  by_cases h : room' = room
  · rw [if_pos h, if_pos h]
    rfl
  · rw [if_neg h, if_neg h]
    rfl

-- An entry that is put with the stream that is there changes no stream.
theorem stream_putEntry {s : AppState Secret} {room : RoomId} {e : RoomEntry} (room' : RoomId)
    (h : e.stream = (s.entry room).stream) :
    ((s.putEntry room e).entry room').stream = (s.entry room').stream := by
  rw [entry_putEntry]
  by_cases hroom : room' = room
  · rw [if_pos hroom, hroom, h]
  · rw [if_neg hroom]

@[simp] theorem loadCursor_saveWraps (l : LocalStorage) (room room' : RoomId)
    (wraps : List RoomKey) : (l.saveWraps room wraps).loadCursor room' = l.loadCursor room' := by
  unfold LocalStorage.saveWraps LocalStorage.indexAdd
  dsimp only
  split <;> rfl

theorem Device.apply_quiet (d : Device Secret) {x : Effect Secret} (h : x.quiet = true) (room : RoomId) :
    (d.apply x).stream room = d.stream room ∧
      (d.apply x).storage.loadCursor room = d.storage.loadCursor room := by
  cases x with
  | dispatch a =>
      cases a with
      | setBundle | roomLoading => exact ⟨rfl, rfl⟩
      | roomLoaded r => exact ⟨stream_putEntry (s := d.state) room rfl, rfl⟩
      | setReadSerial r n => exact ⟨stream_putEntry (s := d.state) room rfl, rfl⟩
      | clearUnread r =>
          simp only [Device.apply, reduce]
          split <;> exact ⟨rfl, rfl⟩
      | _ => cases h
  | saveWraps r wraps => exact ⟨rfl, loadCursor_saveWraps d.storage r room wraps⟩
  | forgetCached r => exact ⟨rfl, rfl⟩
  | persist | remember | signOut => cases h

theorem Device.applyAll_quiet (d : Device Secret) {es : List (Effect Secret)}
    (h : ∀ x ∈ es, x.quiet = true) (room : RoomId) :
    (d.applyAll es).stream room = d.stream room ∧
      (d.applyAll es).storage.loadCursor room = d.storage.loadCursor room := by
  induction es generalizing d with
  | nil => exact ⟨rfl, rfl⟩
  | cons x es ih =>
      have hx := d.apply_quiet (h x List.mem_cons_self) room
      have hes := ih (d.apply x) fun y hy => h y (List.mem_cons_of_mem x hy)
      exact ⟨hes.1.trans hx.1, hes.2.trans hx.2⟩

theorem Device.applyAll_append (d : Device Secret) (es es' : List (Effect Secret)) :
    d.applyAll (es ++ es') = (d.applyAll es).applyAll es' := List.foldl_append

/-! ### What brings rows -/

-- The entry that has been put is the one to be found.
theorem stream_put (s : AppState Secret) (room : RoomId) (e : RoomEntry) :
    ((s.putEntry room e).entry room).stream = e.stream := by
  rw [entry_putEntry, if_pos rfl]

theorem stream_sync (d : Device Secret) (room : RoomId) (page : List Message) :
    (d.apply (.dispatch (.sync room page))).stream room = (d.stream room).fold page :=
  stream_put d.state room
    ⟨(d.stream room).fold page, true, (d.state.entry room).lastReadSerial⟩

theorem stream_syncs (d : Device Secret) (room : RoomId) (pages : List (List Message)) :
    (d.applyAll (pages.map fun page => .dispatch (.sync room page))).stream room =
      (d.stream room).fold pages.flatten := by
  induction pages generalizing d with
  | nil => rfl
  | cons page pages ih =>
      have hrest := ih (d.apply (.dispatch (.sync room page)))
      rw [stream_sync] at hrest
      rw [List.flatten_cons, RoomState.fold_append]
      exact hrest

theorem stream_history (d : Device Secret) (room : RoomId) (page : List Message) (more : Bool) :
    (d.apply (.dispatch (.history room page more))).stream room =
      (d.stream room).takeHistory page more :=
  stream_put d.state room
    ⟨(d.stream room).takeHistory page more, true, (d.state.entry room).lastReadSerial⟩

theorem stream_hydrate (d : Device Secret) (room : RoomId) (cached : CachedRoom) :
    (d.apply (.dispatch (.hydrate room cached))).stream room =
      if (d.stream room).messages.isEmpty then
        RoomState.fromCached cached (d.storage.loadCursor room)
      else d.stream room := by
  let e := d.state.entry room
  let e' : RoomEntry :=
    ⟨RoomState.fromCached cached (d.storage.loadCursor room), true, e.lastReadSerial⟩
  by_cases h : (d.stream room).messages.isEmpty = true
  · have hempty : reduceHydrate d room cached =
        d.withState (((d.state.putEntry room e).putEntry room e').putLoad room .ready) := if_pos h
    rw [if_pos h, Device.apply, reduce, hempty]
    exact stream_put (d.state.putEntry room e) room e'
  · have hheld : reduceHydrate d room cached = d.withState (d.state.putEntry room e) := if_neg h
    rw [if_neg h, Device.apply, reduce, hheld]
    exact stream_put d.state room e

theorem stream_forgetRoom (d : Device Secret) (room : RoomId) :
    (d.apply (.dispatch (.forgetRoom room))).stream room = RoomState.empty := by
  have hgone : Function.update d.state.roomStates room none room = none :=
    Function.update_self _ _ _
  show ((Function.update d.state.roomStates room none room).getD RoomEntry.empty).stream = _
  rw [hgone]
  rfl

/-! ### The drain -/

/-- A drain that has done its part after some effects: the pages from `since` on and then
    nothing that matters, with `cursor` as what is read. -/
structure Drains (a : Answers) (room : RoomId) (since cursor : Nat)
    (before : List (Effect Secret)) (o : Opening Secret) : Prop where
  pages : o.pages = (drainPages a maxDrain 0 since).1
  effects : ∃ rest, (∀ x ∈ rest, x.quiet = true) ∧
    o.effects = before ++ (o.pages.map fun page => .dispatch (.sync room page)) ++ rest
  read : o.read.getD 0 = cursor
  errors : o.errors = []
  drained : o.drained = true

theorem drains_after {a : Answers} {room : RoomId} {since cursor : Nat}
    {before es : List (Effect Secret)} {o : Opening Secret}
    (h : Drains a room since cursor es o) :
    Drains a room since cursor (before ++ es) (o.after before []) := by
  rcases h.effects with ⟨rest, hquiet, heffects⟩
  refine ⟨h.pages, ⟨rest, hquiet, ?_⟩, h.read, h.errors, h.drained⟩
  rw [Opening.after]
  simp only [heffects, List.append_assoc]

theorem stream_drains {a : Answers} {room : RoomId} {since cursor : Nat}
    {before : List (Effect Secret)} {o : Opening Secret} (h : Drains a room since cursor before o)
    (d : Device Secret) :
    (d.applyAll o.effects).stream room =
      ((d.applyAll before).stream room).fold o.pages.flatten := by
  rcases h.effects with ⟨rest, hquiet, heffects⟩
  rw [heffects, Device.applyAll_append, (Device.applyAll_quiet _ hquiet room).1,
    Device.applyAll_append, stream_syncs]

end

section

variable {Secret Point : Type} (P : Primitives Secret Point) (c : StreamCourse)
  (hides : WalletAddress → Bool) (keys : Nat → Except ApiError (List RoomKey))
  (markRead : Nat → Except ApiError Nat)

theorem quiet_finishDrain {Secret : Type} (room : RoomId) (a : Answers) (read : Option Nat) :
    ∀ x ∈ (finishDrain room a read : List (Effect Secret)), x.quiet = true := by
  intro x hx
  unfold finishDrain at hx
  dsimp only at hx
  split at hx <;> simp at hx <;> rcases hx with rfl | rfl | rfl <;> rfl

-- A cursor of zero counts as none.
theorem getD_positive (o : Option Nat) : (o.filter (0 < ·)).getD 0 = o.getD 0 := by
  cases o with
  | none => rfl
  | some n =>
      cases n with
      | zero => rfl
      | succ n => rfl

theorem cursor_roomState {Secret : Type} (store : AppState Secret) (room : RoomId) :
    ((store.roomState room).map RoomState.cursor).getD 0 = (store.entry room).stream.cursor := by
  unfold AppState.roomState AppState.entry
  cases store.roomStates room <;> rfl

-- A server that answers every request ends no drain.
theorem drainPages_served (left n since : Nat) :
    (drainPages (c.answers hides keys markRead) left n since).2 = none := by
  induction left generalizing n since with
  | zero => rfl
  | succ left ih =>
      unfold drainPages
      simp only [StreamCourse.answers]
      split
      · rfl
      · exact ih (n + 1) _

theorem drains_drainSync (store : AppState Secret) (room : RoomId) (start : Nat) :
    Drains (c.answers hides keys markRead) room (max (store.entry room).stream.cursor start)
      (store.entry room).stream.cursor [] (drainSync store room start
        (c.answers hides keys markRead)) := by
  -- A room without an entry is drained as an empty one.
  have hsince : (match store.roomState room with
      | some st => max st.cursor start
      | none => start) = max (store.entry room).stream.cursor start := by
    unfold AppState.roomState AppState.entry
    cases store.roomStates room with
    | none => exact (Nat.zero_max start).symm
    | some e => rfl
  have hread : (((store.roomState room).map RoomState.cursor).filter (0 < ·)).getD 0 =
      (store.entry room).stream.cursor :=
    (getD_positive _).trans (cursor_roomState store room)
  have hok := drainPages_served c hides keys markRead maxDrain 0
    (max (store.entry room).stream.cursor start)
  unfold drainSync
  simp only [hsince, hok]
  exact ⟨rfl, ⟨_, quiet_finishDrain room _ _, rfl⟩, hread, rfl, rfl⟩

theorem quiet_refreshKeys (store : AppState Secret) (room : RoomId)
    (answer : Except ApiError (List RoomKey)) :
    ∀ x ∈ refreshKeys P store room answer, x.quiet = true := by
  unfold refreshKeys
  split
  · split
    · simp
    · simp [Effect.quiet]
  · simp

theorem quiet_hydrateKeysFromCache (store : AppState Secret) (l : LocalStorage) (room : RoomId) :
    ∀ x ∈ hydrateKeysFromCache P store l room, x.quiet = true := by
  unfold hydrateKeysFromCache
  split
  · dsimp only
    split <;> simp [Effect.quiet]
  · simp

-- What comes after a drain and is quiet belongs to it.
theorem drains_more {a : Answers} {room : RoomId} {since cursor : Nat}
    {before more : List (Effect Secret)} {o : Opening Secret}
    (h : Drains a room since cursor before o) (hmore : ∀ x ∈ more, x.quiet = true) :
    Drains a room since cursor before { o with effects := o.effects ++ more } := by
  rcases h.effects with ⟨rest, hquiet, heffects⟩
  refine ⟨h.pages, ⟨rest ++ more, ?_, ?_⟩, h.read, h.errors, h.drained⟩
  · intro x hx
    rcases List.mem_append.1 hx with hx | hx
    · exact hquiet x hx
    · exact hmore x hx
  · simp only [heffects, List.append_assoc]

/-- The page of history that a new reader is sent. -/
def StreamCourse.page : List Message := c.history.getMessages hides 0 pageSize

/-- What is done to a cold room before it is drained. -/
def coldStart (store : AppState Secret) (room : RoomId) : List (Effect Secret) :=
  .dispatch (.roomLoading room) :: refreshKeys P store room (keys 0) ++
    [.dispatch (.history room (c.page hides) (decide (pageSize ≤ (c.page hides).length)))]

theorem drains_openCold (store : AppState Secret) (room : RoomId) (start : Nat) :
    Drains (c.answers hides keys markRead) room (max (store.entry room).stream.cursor start)
      (store.entry room).stream.cursor (coldStart P c hides keys store room)
      (openCold P store room start (c.answers hides keys markRead)) := by
  have hdrain := drains_drainSync c hides keys markRead store room start
  rw [← List.append_nil (coldStart P c hides keys store room)]
  exact drains_after hdrain

theorem stream_coldStart (d : Device Secret) (store : AppState Secret) (room : RoomId) :
    (d.applyAll (coldStart P c hides keys store room)).stream room =
      (d.stream room).takeHistory (c.page hides) (decide (pageSize ≤ (c.page hides).length)) := by
  have hquiet : ∀ x ∈ Effect.dispatch (.roomLoading room) :: refreshKeys P store room (keys 0),
      x.quiet = true := by
    intro x hx
    rcases List.mem_cons.1 hx with rfl | hx
    · rfl
    · exact quiet_refreshKeys P store room (keys 0) x hx
  rw [coldStart, Device.applyAll_append]
  refine (stream_history _ room _ _).trans ?_
  rw [(d.applyAll_quiet hquiet room).1]

theorem drains_resyncRoom (d : Device Secret) (room : RoomId) :
    Drains (c.answers hides keys markRead) room (d.stream room).cursor (d.stream room).cursor
      ([.forgetCached room, .dispatch (.forgetRoom room)] ++ coldStart P c hides keys d.state room)
      (resyncRoom P d.state room (c.answers hides keys markRead)) := by
  have hcold := drains_openCold P c hides keys markRead d.state room (d.stream room).cursor
  rw [Device.stream, max_self] at hcold
  have hstart : ((d.state.roomState room).map RoomState.cursor).getD 0 = (d.stream room).cursor :=
    cursor_roomState d.state room
  rw [resyncRoom, hstart]
  exact drains_after hcold

theorem inMemory_eq {Secret : Type} (store : AppState Secret) (room : RoomId) :
    ((store.roomState room).any fun st => !st.messages.isEmpty) =
      !(store.entry room).stream.messages.isEmpty := by
  unfold AppState.roomState AppState.entry
  cases store.roomStates room <;> rfl

-- Each tier brings its own room to the drain.
theorem drains_openTiers (d : Device Secret) (room : RoomId) :
    ∃ before, Drains (c.answers hides keys markRead) room (drainsFrom .opening d room)
        (d.stream room).cursor before
        (openTiers P d.state d.storage room (c.answers hides keys markRead)) ∧
      (d.applyAll before).stream room = arrival .opening d room (c.page hides) := by
  have hquiet := quiet_hydrateKeysFromCache P d.state d.storage room
  have hheld := d.applyAll_quiet hquiet room
  have hdrain := drains_drainSync c hides keys markRead d.state room (d.storage.loadCursor room)
  unfold openTiers arrival
  simp only [inMemory_eq]
  by_cases hempty : (d.stream room).messages.isEmpty = true
  · have hnot : ¬ (!(d.state.entry room).stream.messages.isEmpty) = true := by
      simpa [Device.stream] using hempty
    rw [if_neg hnot, if_pos hempty]
    cases d.storage.msgs room with
    | some cached =>
        refine ⟨_, drains_after hdrain, ?_⟩
        rw [List.append_nil, Device.applyAll_append]
        refine (stream_hydrate _ room cached).trans ?_
        rw [hheld.1, hheld.2, if_pos hempty]
    | none =>
        refine ⟨_, drains_after (drains_openCold P c hides keys markRead d.state room _), ?_⟩
        rw [Device.applyAll_append, stream_coldStart, hheld.1]
  · have hsome : (!(d.state.entry room).stream.messages.isEmpty) = true := by
      simpa [Device.stream] using hempty
    rw [if_pos hsome, if_neg hempty]
    refine ⟨_, drains_after hdrain, ?_⟩
    rw [List.append_nil]
    exact hheld.1

/-- Before it drains, a task has done what brings the room to its arrival. -/
theorem drains_visit (v : Visit) (d : Device Secret) (room : RoomId) :
    ∃ before, Drains (c.answers hides keys markRead) room (drainsFrom v d room)
        (d.stream room).cursor before (visit P v d room (c.answers hides keys markRead)) ∧
      (d.applyAll before).stream room = arrival v d room (c.page hides) := by
  cases v with
  | opening =>
      rcases drains_openTiers P c hides keys markRead d room with ⟨before, hdrains, hstream⟩
      refine ⟨before, drains_more hdrains ?_, hstream⟩
      split
      · exact quiet_refreshKeys P d.state room _
      · simp
  | resync =>
      refine ⟨_, drains_resyncRoom P c hides keys markRead d room, ?_⟩
      have hforgot : (d.applyAll [.forgetCached room, .dispatch (.forgetRoom room)]).stream room =
          RoomState.empty := stream_forgetRoom _ room
      rw [Device.applyAll_append, stream_coldStart, hforgot]
      rfl

/-- The room after a task: the pages folded into what the task started with. -/
theorem stream_visit (v : Visit) (d : Device Secret) (room : RoomId) :
    (d.applyAll (visit P v d room (c.answers hides keys markRead)).effects).stream room =
      (arrival v d room (c.page hides)).fold
        (visit P v d room (c.answers hides keys markRead)).pages.flatten := by
  rcases drains_visit P c hides keys markRead v d room with ⟨before, hdrains, hstream⟩
  rw [stream_drains hdrains, hstream]

theorem pages_visit (v : Visit) (d : Device Secret) (room : RoomId) :
    (visit P v d room (c.answers hides keys markRead)).pages =
      (drainPages (c.answers hides keys markRead) maxDrain 0 (drainsFrom v d room)).1 := by
  rcases drains_visit P c hides keys markRead v d room with ⟨before, hdrains, -⟩
  exact hdrains.pages

/-- What is reported is the cursor of before the task. -/
theorem read_visit (v : Visit) (d : Device Secret) (room : RoomId) :
    (visit P v d room (c.answers hides keys markRead)).read.getD 0 = (d.stream room).cursor := by
  rcases drains_visit P c hides keys markRead v d room with ⟨before, hdrains, -⟩
  exact hdrains.read

end

end PocketSkynet.Web
