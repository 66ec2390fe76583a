import PocketSkynet.Web.Tasks

/-!
# Sending a Message

A message for an encrypted room is sealed under an epoch of the room, and a server that is
at another epoch refuses it and says which one is current. The client then fetches the keys
and the room list and tries once more, under the epoch it was told.

Both fetches end in a dispatch, and the task that sends reads the handle it was started
with. The retry is therefore built from the keys that were held before the first attempt.

## Main definitions

* `sendMessage`: A message out of the composer.
* `writeMessage`: A message that the agent posts for its owner.
* `TaskLog`: What has been posted, how it was answered, and what was done to the device.
* `PostRun`: The server's side of one post.
* `PostRun.Accepts`: A room that takes messages of one epoch.
-/

namespace PocketSkynet.Web

/-- Where a message is going beyond the room. -/
structure SendExtras where
  parent : Option MessageId
  mentions : List WalletAddress
deriving DecidableEq, Repr

/-- What is posted for a message. -/
structure MessageBody where
  content : String
  msgHash : String
  isEncrypted : Bool
  iv : Option String
  hmac : Option String
  encVer : Nat
  keyVersion : Nat
  parentMessageId : Option MessageId
  mentions : List WalletAddress
deriving DecidableEq, Repr

def MessageBody.attach (extras : SendExtras) (b : MessageBody) : MessageBody :=
  { b with parentMessageId := extras.parent, mentions := extras.mentions }

/-- The texts of the user's language for a message that cannot be sent. -/
structure SendTexts where
  noRoomKeyYet : String
  noCurrentKey : String
  someoneLeftRotate : String

/-- The texts of the errors of sealing. -/
def sealErrorText : CryptoError → String
  | .decryptionFailed => "decryption failed"
  | .invalidPublicKey => "invalid public key"
  | .invalidEncoding => "malformed encoding"
  | .emptyPlaintext => "refusing to encrypt empty content"
  | .keyBindingFailed => "public key binding verification failed"
  | .unsupportedVersion version =>
      "unsupported encryption version " ++ String.ofList (Nat.toDigits 10 version.toNat)
  | .randomness => "secure random number generation failed"

/-- What the device and the server have to say to a task that sends. -/
structure SendInput where
  ivs : Nat → Option (Bytes 16)
  post : Nat → MessageBody → Except ApiError Message
  keys : Except ApiError (List RoomKey)
  rooms : Except ApiError (List RoomWithMembers)

/-- What a task has posted, with the answers, what it has done to the device, and what it
    returns. -/
structure TaskLog (Secret α : Type) where
  posts : List (MessageBody × Except ApiError Message)
  effects : List (Effect Secret)
  result : α

/-- The rows that the server has answered with. -/
def storedRows (posts : List (MessageBody × Except ApiError Message)) : List Message :=
  posts.filterMap fun p => p.2.toOption

section

variable {Secret Point : Type} (P : Primitives Secret Point) (sha256Hex : String → String)

def plaintextBody (content : String) : MessageBody :=
  { content := trimmed content, msgHash := sha256Hex (trimmed content), isEncrypted := false,
    iv := none, hmac := none, encVer := 1, keyVersion := 1, parentMessageId := none,
    mentions := [] }

/-- The ciphertext of a text, under an IV that is drawn first. -/
def encryptMessageV2 (plaintext : String) (roomKey : Bytes 32) (roomId : String)
    (iv : Option (Bytes 16)) : Except CryptoError EncryptedMessage :=
  match iv with
  | none => .error .randomness
  | some iv => encryptMessageV2With P plaintext roomKey roomId iv

def encryptedBody (roomKey : Bytes 32) (version : Nat) (room : RoomId) (plaintext : String)
    (iv : Option (Bytes 16)) : Except CryptoError MessageBody :=
  (encryptMessageV2 P (trimmed plaintext) roomKey room.str iv).map fun enc =>
    { content := enc.content, msgHash := sha256Hex enc.content, isEncrypted := true,
      iv := some enc.iv, hmac := some enc.hmac, encVer := 2, keyVersion := version,
      parentMessageId := none, mentions := [] }

/-- The body of one attempt. Room and keys are those of the handle. -/
def buildBody (texts : Lang → SendTexts) (store : AppState Secret) (room : RoomId)
    (text : String) (extras : SendExtras) (version : Nat) (iv : Option (Bytes 16)) :
    Except String MessageBody :=
  if (store.room room).any RoomWithMembers.hasEncryption then
    match store.bundle room with
    | none => .error (texts store.language).noRoomKeyYet
    | some bundle =>
        match bundle.get version with
        | none => .error (texts store.language).noCurrentKey
        | some key =>
            match encryptedBody P sha256Hex key version room text iv with
            | .ok body => .ok (body.attach extras)
            | .error e => .error ("Couldn't encrypt that message: " ++ sealErrorText e)
  else .ok ((plaintextBody sha256Hex text).attach extras)

/-- What is done after an attempt that is not retried. -/
def sendFailed (texts : Lang → SendTexts) (store : AppState Secret) (room : RoomId)
    (localId : Nat) (input : SendInput) (e : ApiError) : List (Effect Secret) :=
  if e.isKeyRotationRequired then
    .dispatch (.sendFailed room localId (texts store.language).someoneLeftRotate) ::
      refreshRooms input.rooms
  else [.dispatch (.sendFailed room localId e.userMessage)]

/-- The attempts, with what is left of retries. -/
def sendLoop (texts : Lang → SendTexts) (store : AppState Secret) (room : RoomId)
    (localId : Nat) (text : String) (extras : SendExtras) (input : SendInput) :
    Nat → Nat → Nat → TaskLog Secret Bool
  | retries, attempt, version =>
      match buildBody P sha256Hex texts store room text extras version (input.ivs attempt) with
      | .error why => ⟨[], [.dispatch (.sendFailed room localId why)], false⟩
      | .ok body =>
          match input.post attempt body with
          | .ok m => ⟨[(body, .ok m)],
              [.dispatch (.sync room [m]), .dispatch (.sendSucceeded room localId)], true⟩
          | .error e =>
              match retries with
              | 0 => ⟨[(body, .error e)], sendFailed texts store room localId input e, false⟩
              | retries + 1 =>
                  if e.isStaleKeyVersion then
                    let rest := sendLoop texts store room localId text extras input retries
                      (attempt + 1) (e.currentKeyVersion.getD (version + 1))
                    { posts := (body, .error e) :: rest.posts
                      effects := refreshKeys P store room input.keys ++
                        refreshRooms input.rooms ++ rest.effects
                      result := rest.result }
                  else ⟨[(body, .error e)], sendFailed texts store room localId input e, false⟩

/-- Send a message. An epoch that is not the current one is retried once. -/
def sendMessage (texts : Lang → SendTexts) (store : AppState Secret) (room : RoomId)
    (localId : Nat) (text : String) (extras : SendExtras) (input : SendInput) :
    TaskLog Secret Bool :=
  sendLoop P sha256Hex texts store room localId text extras input 1 0
    (((store.room room).map fun r => r.room.currentKeyVersion).getD 1)

/-- The text of an agent that has no key. -/
def keyNotOnDevice : String := "that room is encrypted and its key is not on this device"

/-- What the agent posts, from the keys of the handle. -/
def writeBody (store : AppState Secret) (room : RoomId) (text : String)
    (iv : Option (Bytes 16)) : Except String MessageBody :=
  if (store.room room).any RoomWithMembers.hasEncryption then
    match store.bundle room with
    | none => .error keyNotOnDevice
    | some bundle =>
        match bundle.latest with
        | none => .error keyNotOnDevice
        | some (version, key) =>
            match encryptedBody P sha256Hex key version room text iv with
            | .ok body => .ok body
            | .error e => .error (sealErrorText e)
  else .ok (plaintextBody sha256Hex text)

/-- Post as the owner, after the keys have been refreshed. -/
def writeMessage (store : AppState Secret) (room : RoomId) (text : String)
    (input : SendInput) : TaskLog Secret (Except String Unit) :=
  let refresh := if (store.room room).any RoomWithMembers.hasEncryption then
    refreshKeys P store room input.keys else []
  match writeBody P sha256Hex store room text (input.ivs 0) with
  | .error why => ⟨[], refresh, .error why⟩
  | .ok body =>
      match input.post 0 body with
      | .ok m => ⟨[(body, .ok m)], refresh ++ [.dispatch (.sync room [m])], .ok ()⟩
      | .error e => ⟨[(body, .error e)], refresh, .error e.userMessage⟩

end

/-! ### The server's side -/

/-- One post as the server handles it: the tables as each of its three statements finds
    them, the clock and the id of the row, and the root of the thread of a reply. -/
structure PostRun where
  now : Nat
  id : MessageId
  root : MessageId → MessageId
  member : Shared
  epoch : Shared
  create : Shared

namespace PostRun

/-- The post as a row to be created. -/
def request (t : PostRun) (me : WalletAddress) (b : MessageBody) : NewMessage :=
  { id := t.id, sender := me, content := b.content, msgHash := b.msgHash,
    isEncrypted := b.isEncrypted, iv := b.iv, hmac := b.hmac, encVer := b.encVer,
    keyVersion := b.keyVersion, parentMessageId := b.parentMessageId.map t.root }

/-- The handler, statement by statement. -/
def handled (t : PostRun) (room : RoomId) (new : NewMessage) : Proc :=
  (((Proc.enter (.send room new)).next t.now t.member).next t.now t.epoch).next t.now t.create

/-- What the client is told. -/
def answer (t : PostRun) (room : RoomId) (me : WalletAddress) (b : MessageBody) :
    Except ApiError Message :=
  match t.handled room (t.request me b) with
  | .replied (.ok (.row m)) => .ok m
  | .replied (.error e) => .error (received e)
  | _ => .error (.decode "no row")

/-- The room is at epoch `k` for a member, nobody has left it, and its stream takes the
    row. -/
structure Accepts (t : PostRun) (room : RoomId) (me : WalletAddress) (k : Nat) : Prop where
  member : t.member.server.isMember room me = true
  epoch : ∃ r, t.epoch.server.getRoom room = some r ∧ r.keyRotationPending = false ∧
    r.currentKeyVersion = k
  create : ∀ new : NewMessage, new.id = t.id → ∃ st,
    t.create.transact room (·.createMessage t.now new) = some st

end PostRun

end PocketSkynet.Web
