import Mathlib.Data.Finset.Image
import Mathlib.Data.List.MinMax
import Mathlib.Logic.Function.Basic
import PocketSkynet.Client.RoomState
import PocketSkynet.Core.Crypto
import PocketSkynet.Core.Events
import PocketSkynet.Server.Room

/-!
# The State of the Web Client

One store is shared by every screen of a browser tab. It is replaced as a whole by each
action, so that whoever holds a handle to it reads the state of the moment at which the
handle was taken. Beside it is the local storage of the device, which outlives the tab.

## Main definitions

* `Auth`, `Session`: Whose tab it is.
* `RoomKeyBundle`: The keys a client holds for one room.
* `AppState`: The store.
* `LocalStorage`: What is kept on the device, key by key.
-/

namespace PocketSkynet.Web

/-! ### Who is signed in -/

/-- A profile as the server sends it. -/
structure User where
  walletAddress : WalletAddress
  username : String
  profileImage : Option String
deriving DecidableEq, Repr

/-- The keys of an unlocked session. The legacy key is derived when it is asked for, which
    may fail. -/
structure SessionKeys (Secret : Type) where
  encryption : Secret
  legacy : Option Secret

structure Session (Secret : Type) where
  token : String
  user : User
  keys : SessionKeys Secret

/-- The part of a session that survives a reload. -/
structure PersistedSession where
  token : String
  walletAddress : WalletAddress
  username : String
  profileImage : Option String
deriving DecidableEq, Repr

def Session.persisted {Secret : Type} (s : Session Secret) : PersistedSession :=
  ⟨s.token, s.user.walletAddress, s.user.username, s.user.profileImage⟩

/-- Where the app is, authentication-wise. -/
inductive Auth (Secret : Type) where
  | signedOut
  | locked (session : PersistedSession)
  | unlocked (session : Session Secret)

namespace Auth

variable {Secret : Type}

def token : Auth Secret → Option String
  | signedOut => none
  | locked p => some p.token
  | unlocked s => some s.token

def address : Auth Secret → Option WalletAddress
  | signedOut => none
  | locked p => some p.walletAddress
  | unlocked s => some s.user.walletAddress

def session : Auth Secret → Option (Session Secret)
  | unlocked s => some s
  | _ => none

end Auth

/-- The client of the server's interface. -/
structure Client where
  base : String
  token : Option String
  isLocal : Bool
deriving DecidableEq, Repr

def Client.withToken (c : Client) (token : Option String) : Client := { c with token := token }

/-! ### Rooms -/

structure Room where
  id : RoomId
  name : String
  kind : String
  currentKeyVersion : Nat
  keyRotationPending : Bool
deriving DecidableEq, Repr

structure RoomWithMembers where
  room : Room
  hasEncryption : Bool
  unreadCount : Option Nat
  lastReadSerial : Option Nat
deriving DecidableEq, Repr

namespace RoomWithMembers

def id (r : RoomWithMembers) : RoomId := r.room.id

end RoomWithMembers

structure Invitation where
  roomId : RoomId
  roomName : String
  invitedBy : WalletAddress
deriving DecidableEq, Repr

structure BlockedUser where
  blockerAddress : WalletAddress
  blockedAddress : WalletAddress
deriving DecidableEq, Repr

/-- A room's stream and what the store keeps beside it. -/
structure RoomEntry where
  stream : RoomState
  loaded : Bool
  lastReadSerial : Nat
deriving DecidableEq

def RoomEntry.empty : RoomEntry := ⟨RoomState.empty, false, 0⟩

/-- Every epoch key this client holds for one room, and the epochs whose wrap could not be
    opened. -/
structure RoomKeyBundle where
  epochs : List (Nat × Bytes 32)
  failed : List Nat
  keyed : Table.Keyed Prod.fst epochs
deriving DecidableEq

namespace RoomKeyBundle

def empty : RoomKeyBundle := ⟨[], [], Table.keyed_nil⟩

def isEmpty (b : RoomKeyBundle) : Bool := b.epochs.isEmpty

/-- The highest epoch held. -/
def latest (b : RoomKeyBundle) : Option (Nat × Bytes 32) := b.epochs.argmax Prod.fst

/-- The key for a specific epoch. -/
def get (b : RoomKeyBundle) (version : Nat) : Option (Bytes 32) :=
  (Table.lookup Prod.fst version b.epochs).map Prod.snd

def insert (b : RoomKeyBundle) (version : Nat) (key : Bytes 32) : RoomKeyBundle where
  epochs := Table.upsert Prod.fst (version, key) b.epochs
  failed := b.failed.filter (· ≠ version)
  keyed := Table.keyed_upsert (version, key) b.keyed

/-- Note an epoch whose wrap could not be opened. -/
def fail (b : RoomKeyBundle) (version : Nat) : RoomKeyBundle :=
  { b with failed := b.failed ++ [version] }

@[simp] theorem get_empty (version : Nat) : empty.get version = none := rfl

@[simp] theorem get_fail (b : RoomKeyBundle) (version v : Nat) :
    (b.fail version).get v = b.get v := rfl

theorem get_insert (b : RoomKeyBundle) (version v : Nat) (key : Bytes 32) :
    (b.insert version key).get v = if v = version then some key else b.get v := by
  simp only [get, insert, Table.lookup_upsert]
  by_cases h : v = version
  · rw [if_pos h, if_pos h]
    rfl
  · rw [if_neg h, if_neg h]

-- The newest key is held under its own epoch.
theorem get_of_latest {b : RoomKeyBundle} {version : Nat} {key : Bytes 32}
    (h : b.latest = some (version, key)) : b.get version = some key := by
  have hmem : (version, key) ∈ b.epochs := List.argmax_mem h
  rw [get, Table.lookup_of_mem b.keyed hmem]
  rfl

end RoomKeyBundle

/-! ### The rest of the store -/

inductive Load where
  | idle
  | loading
  | ready
  | error (message : String)
deriving DecidableEq, Repr

/-- A message that has not been acknowledged yet. -/
structure Pending where
  localId : Nat
  plaintext : String
  failed : Option String
  createdMs : Int
deriving DecidableEq, Repr

inductive Transport where
  | webSocket
  | sse
  | polling
deriving DecidableEq, Repr

inductive ConnStatus where
  | live (transport : Transport)
  | syncing
  | offline
  | local
deriving DecidableEq, Repr

inductive ConnectionMode where
  | webSocket
  | sse
  | polling
  | local
deriving DecidableEq, Repr

inductive Theme where
  | system
  | light
  | dark
deriving DecidableEq, Repr

inductive Skin where
  | skynet
  | cute
  | human
deriving DecidableEq, Repr

inductive ShellLayout where
  | horizontal
  | vertical
deriving DecidableEq, Repr

inductive Lang where
  | en
  | ko
  | ja
  | yue
  | zh
  | cs
  | de
  | es
deriving DecidableEq, Repr

inductive FontFace where
  | system
  | skynet
  | mono
  | serif
deriving DecidableEq, Repr

inductive FontScale where
  | compact
  | standard
  | large
  | xLarge
deriving DecidableEq, Repr

inductive ToastKind where
  | neutral
  | success
  | error
  | warn
  | info
deriving DecidableEq, Repr

structure Toast where
  id : Nat
  kind : ToastKind
  title : String
  description : Option String
deriving DecidableEq, Repr

inductive ConfirmAction where
  | leaveRoom (room : RoomId)
  | exitAsAdmin (room : RoomId)
  | askRemoveAll
  | removeAllRooms
  | deleteRoom (room : RoomId)
  | hideRoom (room : RoomId)
  | deleteAllMessages (room : RoomId)
  | kickMember (room : RoomId) (target : WalletAddress)
  | blockUser (target : WalletAddress)
  | unblockUser (target : WalletAddress)
  | removeAdmin (room : RoomId) (target : WalletAddress)
  | eraseLocalData
  | forgetWallet
  | signOut
deriving DecidableEq, Repr

structure Confirm where
  title : String
  body : String
  confirmLabel : String
  action : ConfirmAction
  alternative : Option (String × ConfirmAction)
  challenge : Option String
deriving DecidableEq, Repr

/-- Which dialog is open, with what it shows. -/
inductive Modal where
  | createRoom
  | newDirectMessage
  | mentions
  | adminConsole
  | invite (room : RoomId)
  | inviteLinks (room : RoomId)
  | manageAdmins (room : RoomId)
  | webhooks (room : RoomId)
  | blocked
  | hiddenRooms
  | renameRoom (room : RoomId) (name : String)
  | confirm (confirm : Confirm)
  | deleteMessage (message : MessageId) (plaintext : Option String)
  | wallet
  | shout
  | serverInfo
  | more
  | assistant (room : RoomId)
  | files (room : RoomId)
deriving DecidableEq, Repr

inductive TransferStage where
  | checksum
  | moving
  | done
deriving DecidableEq, Repr

inductive TransferDirection where
  | upload
  | download
deriving DecidableEq, Repr

/-- A transfer under way, in bytes. -/
structure Transfer where
  id : Nat
  name : String
  direction : TransferDirection
  stage : TransferStage
  done : Nat
  total : Nat
deriving DecidableEq, Repr

/-- What the Knowledge page should open with. -/
inductive KnowledgeSeed where
  | search (query : String) (ask : Bool)
  | teach (content : String) (roomId : Option RoomId) (messageId : Option MessageId)
deriving DecidableEq, Repr

/-- How long a typing indicator survives its last event. -/
def typingTtlMs : Int := 4000

/-- The store. What a map has no entry for is `none`. -/
structure AppState (Secret : Type) where
  auth : Auth Secret
  client : Client
  isServerAdmin : Bool
  rooms : List RoomWithMembers
  roomsLoad : Load
  invitations : List Invitation
  invitationsLoad : Load
  blocked : List BlockedUser
  blocks : Finset WalletAddress
  roomStates : RoomId → Option RoomEntry
  roomLoad : RoomId → Option Load
  bundles : RoomId → Option RoomKeyBundle
  pending : RoomId → Option (List Pending)
  conn : ConnStatus
  online : Bool
  typing : RoomId → WalletAddress → Option Int
  presence : WalletAddress → Option PresenceStatus
  mode : ConnectionMode
  theme : Theme
  skin : Skin
  shellLayout : ShellLayout
  language : Lang
  fontFace : FontFace
  fontScale : FontScale
  toasts : List Toast
  modal : Option Modal
  pendingBoot : Option (Session Secret)
  dissolving : Finset MessageId
  transfers : List Transfer
  knowledgeSeed : Option KnowledgeSeed
  nextId : Nat

namespace AppState

variable {Secret : Type}

/-- The record of a room. -/
def room (s : AppState Secret) (id : RoomId) : Option RoomWithMembers :=
  s.rooms.find? fun r => r.id = id

def roomState (s : AppState Secret) (id : RoomId) : Option RoomState :=
  (s.roomStates id).map RoomEntry.stream

def bundle (s : AppState Secret) (id : RoomId) : Option RoomKeyBundle := s.bundles id

/-- What is kept for a room, made up if there is nothing. -/
def entry (s : AppState Secret) (id : RoomId) : RoomEntry := (s.roomStates id).getD .empty

end AppState

/-! ### Local storage -/

/-- A remembered account. -/
structure StoredWallet where
  username : String
  walletAddress : WalletAddress
  credential : String
deriving DecidableEq, Repr

/-- The keys of the local storage: `ps-session`, `ps-wallet`, `ps-cursor:*`, those of the
    cache, and the preferences. -/
structure LocalStorage where
  session : Option PersistedSession
  wallet : Option StoredWallet
  cursors : RoomId → Option Nat
  rooms : Option (List RoomWithMembers)
  msgs : RoomId → Option CachedRoom
  wraps : RoomId → Option (List RoomKey)
  index : Option (List RoomId)
  mode : Option ConnectionMode
  theme : Option Theme
  skin : Option Skin
  shellLayout : Option ShellLayout
  language : Option Lang
  fontFace : Option FontFace
  fontScale : Option FontScale

namespace LocalStorage

def loadCursor (l : LocalStorage) (room : RoomId) : Nat := (l.cursors room).getD 0

def saveCursor (l : LocalStorage) (room : RoomId) (serial : Nat) : LocalStorage :=
  { l with cursors := Function.update l.cursors room (some serial) }

def saveRooms (l : LocalStorage) (rooms : List RoomWithMembers) : LocalStorage :=
  { l with rooms := some rooms }

/-- Remember that a room has entries. -/
def indexAdd (l : LocalStorage) (room : RoomId) : LocalStorage :=
  let ids := l.index.getD []
  if ids.contains room then l else { l with index := some (ids ++ [room]) }

def saveRoom (l : LocalStorage) (room : RoomId) (cached : CachedRoom) : LocalStorage :=
  { l with msgs := Function.update l.msgs room (some cached) }.indexAdd room

def saveWraps (l : LocalStorage) (room : RoomId) (wraps : List RoomKey) : LocalStorage :=
  { l with wraps := Function.update l.wraps room (some wraps) }.indexAdd room

/-- Drop one room's cached stream and wraps. -/
def forgetRoom (l : LocalStorage) (room : RoomId) : LocalStorage :=
  { l with
    msgs := Function.update l.msgs room none
    wraps := Function.update l.wraps room none }

/-- Remove every cache entry of an indexed room, the index and the room list. -/
def clearAll (l : LocalStorage) : LocalStorage :=
  let ids := l.index.getD []
  { l with
    msgs := fun room => if ids.contains room then none else l.msgs room
    wraps := fun room => if ids.contains room then none else l.wraps room
    index := none
    rooms := none }

/-- A device on which nothing has been kept. -/
def empty : LocalStorage :=
  { session := none, wallet := none, cursors := fun _ => none, rooms := none,
    msgs := fun _ => none, wraps := fun _ => none, index := none, mode := none, theme := none,
    skin := none, shellLayout := none, language := none, fontFace := none, fontScale := none }

end LocalStorage

/-- The store of a tab that has just been opened, with the look the device remembers. The
    language is the browser's if none has been chosen. -/
def AppState.new {Secret : Type} (auth : Auth Secret) (client : Client) (l : LocalStorage)
    (browser : Option Lang) : AppState Secret :=
  { auth := auth, client := client, isServerAdmin := false, rooms := [], roomsLoad := .idle,
    invitations := [], invitationsLoad := .idle, blocked := [], blocks := ∅,
    roomStates := fun _ => none, roomLoad := fun _ => none, bundles := fun _ => none,
    pending := fun _ => none, conn := .offline, online := true, typing := fun _ _ => none,
    presence := fun _ => none, mode := .webSocket, theme := .system,
    skin := l.skin.getD .skynet, shellLayout := l.shellLayout.getD .horizontal,
    language := (l.language.or browser).getD .en, fontFace := l.fontFace.getD .system,
    fontScale := l.fontScale.getD .standard, toasts := [], modal := none, pendingBoot := none,
    dissolving := ∅, transfers := [], knowledgeSeed := none, nextId := 1 }

end PocketSkynet.Web
