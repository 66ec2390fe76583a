import PocketSkynet.Web.AppState

/-!
# The Reducer and the Effects of Tasks

An action takes a device to a device: the reducer computes the next state of the store, and
on its way it writes to the local storage what some actions make durable. Tasks run
elsewhere. They read the handle they were started with, and what they do to the device is a
list of effects: actions that they dispatch, writes to the storage, and signing out.

## Main definitions

* `Action`: Every mutation of the store.
* `Device`: The store and the local storage.
* `reduce`: What an action does.
* `Effect`, `Device.apply`: What a task can do to the device.
* `signOut`: The session is ended.
-/

namespace PocketSkynet.Web

/-- Every mutation the interface can make. -/
inductive Action (Secret : Type) where
  | setAuth (auth : Auth Secret)
  | setServerAdmin (isAdmin : Bool)
  | transferStarted (transfer : Transfer)
  | transferProgress (id done : Nat) (stage : TransferStage)
  | transferDone (id : Nat)
  | transferEnded (id : Nat)
  | stageBoot (session : Session Secret)
  | finishBoot
  | dissolve (id : MessageId)
  | undoDissolve (id : MessageId)
  | seedKnowledge (seed : KnowledgeSeed)
  | takeKnowledgeSeed
  | profileUpdated (user : User)
  | roomsLoading
  | roomsLoaded (rooms : List RoomWithMembers)
  | roomsFailed (message : String)
  | clearUnread (room : RoomId)
  | invitationsLoading
  | invitationsLoaded (invitations : List Invitation)
  | invitationsFailed (message : String)
  | blocksLoaded (blocked blockedBy : List BlockedUser)
  | roomLoading (room : RoomId)
  | roomLoaded (room : RoomId)
  | roomFailed (room : RoomId) (message : String)
  | sync (room : RoomId) (events : List Message)
  | history (room : RoomId) (page : List Message) (hasMore : Bool)
  | hydrate (room : RoomId) (cached : CachedRoom)
  | forgetRoom (room : RoomId)
  | setBundle (room : RoomId) (bundle : RoomKeyBundle)
  | setReadSerial (room : RoomId) (serial : Nat)
  | queueSend (room : RoomId) (localId : Nat) (text : String) (now : Int)
  | sendSucceeded (room : RoomId) (localId : Nat)
  | sendFailed (room : RoomId) (localId : Nat) (why : String)
  | discardPending (room : RoomId) (localId : Nat)
  | retryPending (room : RoomId) (localId : Nat)
  | setConn (conn : ConnStatus)
  | setOnline (online : Bool)
  | typing (room : RoomId) (who : WalletAddress) (now : Int)
  | sweepTyping (now : Int)
  | clearTyping (room : RoomId)
  | presence (who : WalletAddress) (status : PresenceStatus)
  | presenceSnapshot (entries : List (WalletAddress × PresenceStatus))
  | setMode (mode : ConnectionMode)
  | setClient (client : Client)
  | setTheme (theme : Theme)
  | setSkin (skin : Skin)
  | setShellLayout (layout : ShellLayout)
  | setFontFace (face : FontFace)
  | setFontScale (scale : FontScale)
  | setLanguage (language : Lang)
  | toast (kind : ToastKind) (title : String) (description : Option String)
  | dismissToast (id : Nat)
  | openModal (modal : Modal)
  | closeModal

/-- A browser tab and the local storage under it. -/
structure Device (Secret : Type) where
  state : AppState Secret
  storage : LocalStorage

section

variable {Secret : Type}

/-! ### The store alone -/

namespace AppState

/-- What an identity switch clears. -/
def clearIdentity (s : AppState Secret) : AppState Secret :=
  { s with
    rooms := []
    roomStates := fun _ => none
    bundles := fun _ => none
    pending := fun _ => none
    invitations := []
    blocks := ∅
    presence := fun _ => none
    isServerAdmin := false }

/-- Put an entry for a room. -/
def putEntry (s : AppState Secret) (room : RoomId) (e : RoomEntry) : AppState Secret :=
  { s with roomStates := Function.update s.roomStates room (some e) }

def putLoad (s : AppState Secret) (room : RoomId) (l : Load) : AppState Secret :=
  { s with roomLoad := Function.update s.roomLoad room (some l) }

/-- Change one transfer in place. One that has gone is not made up again. -/
def changeTransfer (s : AppState Secret) (id : Nat) (f : Transfer → Transfer) : AppState Secret :=
  match s.transfers.findIdx? fun t => t.id = id with
  | some n => { s with transfers := s.transfers.modify n f }
  | none => s

/-- Change one parked message in place. -/
def changePending (s : AppState Secret) (room : RoomId) (localId : Nat)
    (f : Pending → Pending) : AppState Secret :=
  match s.pending room with
  | none => s
  | some queue =>
      match queue.findIdx? fun p => p.localId = localId with
      | some n => { s with pending := Function.update s.pending room (some (queue.modify n f)) }
      | none => s

/-- Take a parked message out of its queue, and the queue out of the map with the last. -/
def dropPending (s : AppState Secret) (room : RoomId) (localId : Nat) : AppState Secret :=
  match s.pending room with
  | none => s
  | some queue =>
      let rest := queue.filter fun p => p.localId ≠ localId
      { s with pending :=
          Function.update s.pending room (if rest.isEmpty then none else some rest) }

end AppState

/-- The blocks of one viewer, each person once. -/
def dedupBlocked (blocked : List BlockedUser) : List BlockedUser :=
  blocked.foldl (fun kept b => Table.insertNew BlockedUser.blockedAddress b kept) []

/-- The entry a room takes its read pointer into. -/
def takeReadSerial (states : RoomId → Option RoomEntry) (r : RoomWithMembers) :
    RoomId → Option RoomEntry :=
  match r.lastReadSerial with
  | none => states
  | some serial =>
      let e := (states r.id).getD .empty
      Function.update states r.id (some { e with lastReadSerial := serial })

/-- The presence map a snapshot stands for. The last word about somebody counts. -/
def presenceOf (entries : List (WalletAddress × PresenceStatus)) (who : WalletAddress) :
    Option PresenceStatus :=
  ((entries.filter fun e => e.2 ≠ .offline).reverse.find? fun e => e.1 = who).map Prod.snd

/-! ### The reducer -/

/-- Change the store and leave the storage alone. -/
def Device.withState (d : Device Secret) (s : AppState Secret) : Device Secret :=
  { d with state := s }

/-- A profile that the server has taken over. -/
def profileUpdated (d : Device Secret) (user : User) : Device Secret :=
  match d.state.auth with
  | .unlocked session =>
      if session.user.walletAddress = user.walletAddress then
        let session := { session with user := user }
        { state := { d.state with auth := .unlocked session }
          storage := { d.storage with session := some session.persisted } }
      else d
  | .locked p =>
      if p.walletAddress = user.walletAddress then
        let p := { p with username := user.username, profileImage := user.profileImage }
        { state := { d.state with auth := .locked p }
          storage := { d.storage with session := some p } }
      else d
  | .signedOut => d

/-- A page of events. What is folded is saved at once, and so is the cursor. -/
def reduceSync (d : Device Secret) (room : RoomId) (events : List Message) : Device Secret :=
  let e := d.state.entry room
  let out := (e.stream.foldReport events).2
  let stream := e.stream.fold events
  let storage :=
    if 0 < out.maxSerial then d.storage.saveCursor room stream.cursor else d.storage
  let s := d.state.putEntry room { e with stream := stream, loaded := true }
  let s := { s with
    dissolving := s.dissolving.filter fun id => (stream.held id).isSome
    pending := if out.purged then Function.update s.pending room none else s.pending }
  { state := s.putLoad room .ready
    storage := storage.saveRoom room stream.toCached }

/-- A page of older messages. -/
def reduceHistory (d : Device Secret) (room : RoomId) (page : List Message) (hasMore : Bool) :
    Device Secret :=
  let e := d.state.entry room
  let stream := e.stream.takeHistory page hasMore
  { state := (d.state.putEntry room { e with stream := stream, loaded := true }).putLoad room .ready
    storage := d.storage.saveRoom room stream.toCached }

/-- A room out of the cache, unless something is held for it already. -/
def reduceHydrate (d : Device Secret) (room : RoomId) (cached : CachedRoom) : Device Secret :=
  let e := d.state.entry room
  let s := d.state.putEntry room e
  if e.stream.messages.isEmpty then
    let stream := RoomState.fromCached cached (d.storage.loadCursor room)
    d.withState <|
      (s.putEntry room ⟨stream, true, e.lastReadSerial⟩).putLoad room .ready
  else d.withState s

/-- What an action does to the device. -/
def reduce (d : Device Secret) : Action Secret → Device Secret
  | .setAuth a =>
      let s := if a.address ≠ d.state.auth.address then d.state.clearIdentity else d.state
      d.withState { s with client := s.client.withToken a.token, auth := a }
  | .setServerAdmin isAdmin => d.withState { d.state with isServerAdmin := isAdmin }
  | .stageBoot session => d.withState { d.state with pendingBoot := some session }
  | .finishBoot =>
      match d.state.pendingBoot with
      | none => d
      | some session => d.withState { d.state with
          pendingBoot := none
          client := d.state.client.withToken (some session.token)
          auth := .unlocked session }
  | .transferStarted t => d.withState { d.state with transfers := d.state.transfers ++ [t] }
  | .transferProgress id done stage =>
      d.withState (d.state.changeTransfer id fun t => { t with done := done, stage := stage })
  | .transferDone id =>
      d.withState (d.state.changeTransfer id fun t => { t with done := t.total, stage := .done })
  | .transferEnded id =>
      d.withState { d.state with transfers := d.state.transfers.filter fun t => t.id ≠ id }
  | .dissolve id => d.withState { d.state with dissolving := insert id d.state.dissolving }
  | .undoDissolve id => d.withState { d.state with dissolving := d.state.dissolving.erase id }
  | .seedKnowledge seed => d.withState { d.state with knowledgeSeed := some seed }
  | .takeKnowledgeSeed => d.withState { d.state with knowledgeSeed := none }
  | .profileUpdated user => profileUpdated d user
  | .roomsLoading => d.withState { d.state with roomsLoad := .loading }
  | .roomsLoaded rooms =>
      { state := { d.state with
          roomStates := rooms.foldl takeReadSerial d.state.roomStates
          rooms := rooms
          roomsLoad := .ready }
        storage := d.storage.saveRooms rooms }
  | .roomsFailed e => d.withState { d.state with roomsLoad := .error e }
  | .clearUnread room =>
      match d.state.rooms.findIdx? fun r => r.id = room with
      | some n => d.withState { d.state with
          rooms := d.state.rooms.modify n fun r => { r with unreadCount := some 0 } }
      | none => d
  | .invitationsLoading => d.withState { d.state with invitationsLoad := .loading }
  | .invitationsLoaded invitations =>
      d.withState { d.state with invitations := invitations, invitationsLoad := .ready }
  | .invitationsFailed e => d.withState { d.state with invitationsLoad := .error e }
  | .blocksLoaded blocked blockedBy => d.withState { d.state with
      blocks := (blocked.map BlockedUser.blockedAddress ++
        blockedBy.map BlockedUser.blockerAddress).toFinset
      blocked := dedupBlocked blocked }
  | .roomLoading room => d.withState (d.state.putLoad room .loading)
  | .roomLoaded room => d.withState
      ((d.state.putEntry room { d.state.entry room with loaded := true }).putLoad room .ready)
  | .roomFailed room e => d.withState (d.state.putLoad room (.error e))
  | .sync room events => reduceSync d room events
  | .history room page hasMore => reduceHistory d room page hasMore
  | .hydrate room cached => reduceHydrate d room cached
  | .forgetRoom room =>
      d.withState { d.state with roomStates := Function.update d.state.roomStates room none }
  | .setBundle room bundle =>
      d.withState { d.state with bundles := Function.update d.state.bundles room (some bundle) }
  | .setReadSerial room serial =>
      let e := d.state.entry room
      d.withState (d.state.putEntry room
        { e with lastReadSerial := max e.lastReadSerial serial })
  | .queueSend room localId text now => d.withState { d.state with
      pending := Function.update d.state.pending room
        (some ((d.state.pending room).getD [] ++ [⟨localId, text, none, now⟩])) }
  | .sendSucceeded room localId => d.withState (d.state.dropPending room localId)
  | .discardPending room localId => d.withState (d.state.dropPending room localId)
  | .sendFailed room localId why =>
      d.withState (d.state.changePending room localId fun p => { p with failed := some why })
  | .retryPending room localId =>
      d.withState (d.state.changePending room localId fun p => { p with failed := none })
  | .setConn c => d.withState { d.state with conn := c }
  | .setOnline o => d.withState { d.state with
      online := o, conn := if o then d.state.conn else .offline }
  | .typing room who now => d.withState { d.state with
      typing := Function.update d.state.typing room
        (Function.update (d.state.typing room) who (some now)) }
  | .sweepTyping now => d.withState { d.state with
      typing := fun room who => (d.state.typing room who).filter fun t => now - t < typingTtlMs }
  | .clearTyping room => d.withState { d.state with
      typing := Function.update d.state.typing room fun _ => none }
  | .presence who status => d.withState { d.state with
      presence := Function.update d.state.presence who
        (if status = .offline then none else some status) }
  | .presenceSnapshot entries => d.withState { d.state with presence := presenceOf entries }
  | .setMode m =>
      { state := { d.state with
          mode := m
          conn := match m with
            | .polling => .live .polling
            | .local => .local
            | _ => .syncing }
        storage := { d.storage with mode := some m } }
  | .setClient c => d.withState { d.state with client := c.withToken d.state.auth.token }
  | .setTheme t =>
      { state := { d.state with theme := t }, storage := { d.storage with theme := some t } }
  | .setSkin k =>
      { state := { d.state with skin := k }, storage := { d.storage with skin := some k } }
  | .setFontFace f =>
      { state := { d.state with fontFace := f }, storage := { d.storage with fontFace := some f } }
  | .setFontScale f =>
      { state := { d.state with fontScale := f }
        storage := { d.storage with fontScale := some f } }
  | .setShellLayout l =>
      { state := { d.state with shellLayout := l }
        storage := { d.storage with shellLayout := some l } }
  | .setLanguage l =>
      { state := { d.state with language := l }, storage := { d.storage with language := some l } }
  | .toast kind title description =>
      let toasts := d.state.toasts ++ [⟨d.state.nextId, kind, title, description⟩]
      -- Three are stacked at most.
      d.withState { d.state with
        nextId := d.state.nextId + 1, toasts := toasts.drop (toasts.length - 3) }
  | .dismissToast id =>
      d.withState { d.state with toasts := d.state.toasts.filter fun t => t.id ≠ id }
  | .openModal m => d.withState { d.state with modal := some m }
  | .closeModal => d.withState { d.state with modal := none }

/-! ### Effects -/

/-- What a task does to the device. -/
inductive Effect (Secret : Type) where
  | dispatch (action : Action Secret)
  | persist (session : PersistedSession)
  | remember (wallet : StoredWallet)
  | saveWraps (room : RoomId) (wraps : List RoomKey)
  | forgetCached (room : RoomId)
  | signOut

/-- The session is ended: the remembered wallet, the persisted session and the cache go, and
    the store is told. -/
def signOut (d : Device Secret) : Device Secret :=
  let storage := { d.storage with wallet := none, session := none }.clearAll
  reduce (reduce { d with storage := storage } (.setAuth .signedOut)) (.setConn .offline)

def Device.apply (d : Device Secret) : Effect Secret → Device Secret
  | .dispatch a => reduce d a
  | .persist session => { d with storage := { d.storage with session := some session } }
  | .remember wallet => { d with storage := { d.storage with wallet := some wallet } }
  | .saveWraps room wraps => { d with storage := d.storage.saveWraps room wraps }
  | .forgetCached room => { d with storage := d.storage.forgetRoom room }
  | .signOut => signOut d

/-- Some effects, one after the other. -/
def Device.applyAll (d : Device Secret) (es : List (Effect Secret)) : Device Secret :=
  es.foldl Device.apply d

end

end PocketSkynet.Web
