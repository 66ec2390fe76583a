import PocketSkynet.Core.Envelope
import PocketSkynet.Client.KeyWrap
import PocketSkynet.Web.Reducer

/-!
# Tasks of the Web Client

What the asynchronous operations have in common. A task reads the handle it was started
with: a snapshot of the store, in which its own dispatches never show. The answers of the
server come to it as values, an error in the form in which the client decodes it. What the
task does to the device is a list of effects, in the order in which they happen.

The keys of a room are fetched as wraps. Every wrap is opened with the key of the session,
or else with its legacy key, and one that cannot be opened is noted and left alone.

## Main definitions

* `ApiError`, `received`: What a refusal of the server becomes.
* `unwrapBundle`: The keys in a list of wraps.
* `refreshKeys`, `refreshRooms`: The two refreshes, as effects.
-/

namespace PocketSkynet.Web

/-! ### Errors -/

/-- What can go wrong on the way to the server, or back from it. -/
inductive ApiError where
  | network (cause : String)
  | status (status : Nat) (message : String) (code : Option String)
      (currentKeyVersion : Option Nat) (errors : List String)
  | decode (cause : String)
deriving DecidableEq, Repr

namespace ApiError

def statusCode : ApiError → Option Nat
  | status n _ _ _ _ => some n
  | _ => none

/-- The single line to show the user. -/
def userMessage : ApiError → String
  | network _ => "Can't reach the server. Check your connection and try again."
  | decode _ => "The server sent something this client couldn't read."
  | status _ message _ _ errors =>
      if errors.isEmpty then message else message ++ ": " ++ "; ".intercalate errors

def isUnauthorized (e : ApiError) : Bool := e.statusCode == some 401

def isForbidden (e : ApiError) : Bool := e.statusCode == some 403

def hasCode (code : String) : ApiError → Bool
  | status _ _ c _ _ => c == some code
  | _ => false

def isKeyRotationRequired (e : ApiError) : Bool := e.hasCode "KEY_ROTATION_REQUIRED"

def isStaleKeyVersion (e : ApiError) : Bool := e.hasCode "STALE_KEY_VERSION"

/-- The epoch the server says is current, when it told us. -/
def currentKeyVersion : ApiError → Option Nat
  | status _ _ _ v _ => v
  | _ => none

end ApiError

/-- The spelling of a code on the wire. -/
def codeName : ErrorCode → String
  | .keyRotationRequired => "KEY_ROTATION_REQUIRED"
  | .staleKeyVersion => "STALE_KEY_VERSION"

/-- A refusal of the server, as it is answered and decoded. -/
def received : PocketSkynet.ApiError → ApiError
  | .badRequest m => .status 400 m none none []
  | .validation errors => .status 400 "Validation failed" none none errors
  | .unauthorized m => .status 401 m none none []
  | .forbidden m => .status 403 m none none []
  | .notFound m => .status 404 m none none []
  | .conflict code m v => .status 409 m (code.map codeName) v []
  | .internal _ => .status 500 "Internal Server Error" none none []
  | .uncovered m _ => .status 400 m none none []

/-! ### Keys -/

section

variable {Secret Point : Type} (P : Primitives Secret Point)

/-- Open a wrap under whichever version it was written. One below the first is read as the
    first. -/
def unwrapRoomKeyByVersion (encVer : Nat) (wrap : WrappedRoomKey) (recipient : Secret)
    (roomId : String) : Except CryptoError (Bytes 32) :=
  if 2 ≤ max encVer 1 then unwrapRoomKeyV2 P wrap recipient roomId
  else unwrapRoomKeyV1 P wrap recipient

/-- What of a stored wrap is opened. -/
def wireOf (w : KeyWrap) : WrappedRoomKey :=
  ⟨w.encryptedSymmetricKey, w.ephemeralPublicKey, w.encryptionIv, w.hmac⟩

/-- Take one wrap into the bundle. The second component collects what only the legacy key
    opened. -/
def unwrapOne (keys : SessionKeys Secret) (room : RoomId)
    (acc : RoomKeyBundle × List Nat) (w : RoomKey) : RoomKeyBundle × List Nat :=
  match unwrapRoomKeyByVersion P w.wrap.encVer (wireOf w.wrap) keys.encryption room.str with
  | .ok key => (acc.1.insert w.keyVersion key, acc.2)
  | .error _ =>
      let recovered := keys.legacy.bind fun legacy =>
        (unwrapRoomKeyByVersion P w.wrap.encVer (wireOf w.wrap) legacy room.str).toOption
      match recovered with
      | some key => (acc.1.insert w.keyVersion key, acc.2 ++ [w.keyVersion])
      | none => (acc.1.fail w.keyVersion, acc.2)

/-- Every key in the wraps, and the epochs that the legacy key had to open. -/
def unwrapBundle (keys : SessionKeys Secret) (room : RoomId) (wraps : List RoomKey) :
    RoomKeyBundle × List Nat :=
  wraps.foldl (unwrapOne P keys room) (.empty, [])

/-! ### Refreshing -/

/-- What is done with the wraps of a room, in answer to a request for them. The wraps are
    cached as they came. -/
def refreshKeys (store : AppState Secret) (room : RoomId)
    (answer : Except ApiError (List RoomKey)) : List (Effect Secret) :=
  match store.auth.session, answer with
  | some session, .ok wraps =>
      if wraps.isEmpty then []
      else
        [.saveWraps room wraps,
          .dispatch (.setBundle room (unwrapBundle P session.keys room wraps).1)]
  | _, _ => []

end

/-- What is done with the room list. -/
def refreshRooms {Secret : Type} (answer : Except ApiError (List RoomWithMembers)) :
    List (Effect Secret) :=
  match answer with
  | .ok rooms => [.dispatch (.roomsLoaded rooms)]
  | .error e =>
      if e.isUnauthorized then [.signOut] else [.dispatch (.roomsFailed e.userMessage)]

end PocketSkynet.Web
