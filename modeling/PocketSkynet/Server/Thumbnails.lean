import PocketSkynet.Server.Attachments
import PocketSkynet.Server.UploadAssembly

/-!
# Thumbnails

There are two directories of media, one of attachments and one of pictures and videos that
messages link to. An original is named by the digest of its bytes and an extension, and beside
it lies its thumbnail, a sidecar named by the digest alone. The thumbnail of a picture is
rendered here when the picture is uploaded, or when it is asked for and missing. The one of a
video is a frame that a client has posted. Destroying a room unlinks the originals that nothing
names any more, each with its sidecar.

Who may write a sidecar depends on the extension, and its name does not. So when the same bytes
are stored under the names of a picture and a video, the frame posted for the video is the
thumbnail of the picture; and when one of two names is unlinked, the frame posted for the other
goes with it. `MediaStore.Apart` is the condition that keeps them apart.

## Main definitions

* `MediaDir`: A directory of originals and sidecars.
* `MediaStore`: The directories, and what names their originals.
* `MediaCall`, `MediaStore.act`: The requests.
* `MediaStore.Sound`: What a request does to thumbnails.
* `MediaStore.Apart`: The condition on a request.

## Theorems

* `faithful_place`, `faithful_store`, `faithful_accompany`: The writes to a directory.
* `MediaStore.thumbnails_sound`: In runs of such requests thumbnails show their originals.
* `Sample.thumbnails_crossed`: Two runs in which they do not.
-/

namespace PocketSkynet

def maxImageBytes : Nat := 5 * 1024 * 1024

/-- The ceiling for a video in one request. -/
def maxVideoBytes : Nat := 25 * 1024 * 1024

/-- What a video may reach when it arrives in chunks. -/
def maxVideoSessionBytes : Nat := maxUploadBytes

/-- The ceiling for an attachment in one request. -/
def maxFileBytes : Nat := 25 * 1024 * 1024

/-- The media types that are hosted, with their extensions. -/
def hostedMedia : List (String × String) :=
  [("image/png", "png"), ("image/jpeg", "jpg"), ("image/webp", "webp"), ("image/gif", "gif"),
    ("video/mp4", "mp4"), ("video/webm", "webm")]

/-- The media types an attachment may be served as, by its stored extension. -/
def inlineMedia : List (String × String) :=
  [("png", "image/png"), ("gif", "image/gif"), ("webp", "image/webp"), ("avif", "image/avif"),
    ("bmp", "image/bmp"), ("jpg", "image/jpeg"), ("jpeg", "image/jpeg"), ("mp4", "video/mp4"),
    ("m4v", "video/mp4"), ("webm", "video/webm"), ("ogv", "video/ogg"),
    ("mov", "video/quicktime")]

/-- The extension of a declared media type, whatever parameters stand after it. -/
def extensionFor (contentType : String) : Option String :=
  let base := (trim (contentType.toList.takeWhile fun c => c ≠ ';')).map Char.toLower
  (hostedMedia.find? fun m => m.1.toList = base).map Prod.snd

def mimeFor (ext : String) : Option String :=
  (hostedMedia.find? fun m => m.2 = ext).map Prod.fst

/-- The ceiling for one stored file, by media type. -/
def capFor (ext : String) : Nat :=
  if ["mp4", "webm"].contains ext then maxVideoBytes else maxImageBytes

/-- The same for a file that has arrived in chunks. -/
def sessionCapFor (ext : String) : Nat :=
  if ["mp4", "webm"].contains ext then maxVideoSessionBytes else maxImageBytes

def tooLarge (cap : Nat) : ApiError :=
  .badRequest ("File is larger than the " ++ toString (cap / (1024 * 1024)) ++
    " MB limit for this media type")

/-- The extensions that `render` decodes. -/
def isThumbableImage (ext : String) : Bool :=
  ["png", "jpg", "jpeg", "webp", "gif", "bmp"].contains ext

/-- The extensions that a captured frame may be posted for. -/
def isVideo (ext : String) : Bool := ["mp4", "m4v", "webm", "ogv", "mov"].contains ext

/-- The extensions that are shown as a still. -/
def isPicture (ext : String) : Bool :=
  inlineMedia.any fun m => m.1 == ext && "image/".toList.isPrefixOf m.2.toList

/-- A stored file. -/
structure Original (δ : Type) where
  name : StoredName δ
  bytes : List UInt8
deriving DecidableEq, Repr

/-- A stored thumbnail, and the video for which it was posted, if a client has posted it. -/
structure Sidecar (δ : Type) where
  stem : δ
  jpeg : List UInt8
  postedFor : Option (StoredName δ)
deriving DecidableEq, Repr

/-- A directory of media. -/
structure MediaDir (δ : Type) where
  originals : List (Original δ)
  sidecars : List (Sidecar δ)
deriving DecidableEq, Repr

namespace MediaDir

variable {δ : Type} [DecidableEq δ]

def original (d : MediaDir δ) (name : StoredName δ) : Option (Original δ) :=
  Table.lookup Original.name name d.originals

/-- The sidecar of an original. Its name is derived from the digest alone. -/
def sidecar (d : MediaDir δ) (name : StoredName δ) : Option (Sidecar δ) :=
  Table.lookup Sidecar.stem name.digest d.sidecars

/-- Write an original, unless it is there already. -/
def place (d : MediaDir δ) (name : StoredName δ) (bytes : List UInt8) : MediaDir δ :=
  { d with originals := Table.insertNew Original.name ⟨name, bytes⟩ d.originals }

/-- Write a thumbnail beside its original. The first writer wins. -/
def store (d : MediaDir δ) (name : StoredName δ) (jpeg : List UInt8)
    (postedFor : Option (StoredName δ)) : MediaDir δ :=
  { d with sidecars := Table.insertNew Sidecar.stem ⟨name.digest, jpeg, postedFor⟩ d.sidecars }

variable (render : List UInt8 → Option (List UInt8))

/-- Generate the thumbnail of a picture that has been written. -/
def accompany (d : MediaDir δ) (name : StoredName δ) (bytes : List UInt8) : MediaDir δ :=
  if ¬ isThumbableImage name.ext ∨ (d.sidecar name).isSome then d
  else
    match render bytes with
    | some jpeg => d.store name jpeg none
    | none => d

/-- The same for bytes that are read back from the disk, if there are not too many. -/
def accompanyFile (cap : Nat) (d : MediaDir δ) (name : StoredName δ) : MediaDir δ :=
  if ¬ isThumbableImage name.ext ∨ (d.sidecar name).isSome then d
  else
    match d.original name with
    | none => d
    | some o => if cap < o.bytes.length then d else d.accompany render name o.bytes

/-- Answer with a thumbnail, rebuilt if it is missing. -/
def serveThumbnail (missing : String) (cap : Nat) (d : MediaDir δ) (name : StoredName δ) :
    Except ApiError (MediaDir δ × List UInt8) := do
  let d := d.accompanyFile render cap name
  let s ← orRefuse (d.sidecar name) (.notFound missing)
  pure (d, s.jpeg)

/-- Take a frame that was captured from a video. -/
def acceptThumbnail (missing : String) (fits : Nat → Bool) (d : MediaDir δ)
    (name : StoredName δ) (body : List UInt8) : Except ApiError (MediaDir δ × String) := do
  ensure (isVideo name.ext)
    (.badRequest "Only a video takes a posted thumbnail; images get theirs at upload")
  ensure (d.original name).isSome (.notFound missing)
  ensure (!body.isEmpty && fits body.length) (.badRequest "A thumbnail must be a small image")
  if (d.sidecar name).isSome then pure (d, "Thumbnail already stored")
  else do
    let jpeg ← orRefuse (render body) (.badRequest "Not a decodable image")
    pure (d.store name jpeg (some name), "Thumbnail stored")

/-- Unlink an original, and then its sidecar. -/
def unlink (d : MediaDir δ) (name : StoredName δ) : MediaDir δ :=
  { originals := Table.erase Original.name name d.originals
    sidecars := Table.erase Sidecar.stem name.digest d.sidecars }

end MediaDir

/-- A row of `files`. -/
structure MediaRow (δ : Type) where
  id : Nat
  room : RoomId
  uploader : WalletAddress
  storedName : StoredName δ
deriving DecidableEq, Repr

/-- The directories. Attachments have rows, and of the media that messages link to it is only
    known where: in a room, or in a profile or a note. -/
structure MediaStore (δ : Type) where
  members : List (RoomId × WalletAddress)
  rows : List (MediaRow δ)
  shown : List (Option RoomId × StoredName δ)
  files : MediaDir δ
  images : MediaDir δ
  nextId : Nat
deriving DecidableEq, Repr

/-- A request. One whose body the router refuses for its length does not get here. -/
inductive MediaCall (δ : Type) where
  | join (room : RoomId) (wallet : WalletAddress)
  | leave (room : RoomId) (wallet : WalletAddress)
  -- a message, a profile or a note comes to name a file, or ceases to
  | refer (place : Option RoomId) (name : StoredName δ)
  | forget (place : Option RoomId) (name : StoredName δ)
  -- `POST /images`, and the end of an upload session of media
  | uploadImage (contentType : String) (body : List UInt8)
  | finishImage (mime : String) (body : List UInt8)
  -- `POST /images/{name}/thumbnail`, `GET /images/{name}/thumb`
  | postFrame (name : StoredName δ) (body : List UInt8)
  | thumb (name : StoredName δ)
  -- `POST /rooms/{roomId}/files`, and the end of an upload session of a room
  | uploadFile (caller : WalletAddress) (room : RoomId) (filename : String) (body : List UInt8)
  | finishFile (caller : WalletAddress) (room : RoomId) (filename : String) (body : List UInt8)
  -- `DELETE /files/{id}`
  | removeFile (id : Nat)
  -- `POST /files/{id}/thumbnail`, `GET /files/{id}/thumbnail`
  | postFileFrame (caller : WalletAddress) (id : Nat) (body : List UInt8)
  | fileThumb (caller : WalletAddress) (id : Nat)
  -- `DELETE /rooms/{roomId}`
  | destroyRoom (room : RoomId)
deriving DecidableEq, Repr

/-- What a request is answered with. -/
inductive MediaReply (δ : Type) where
  | url (name : StoredName δ)
  | file (id : Nat)
  | message (text : String)
  | jpeg (bytes : List UInt8)
  | done
deriving DecidableEq, Repr

namespace MediaStore

variable {δ : Type}

def empty : MediaStore δ := ⟨[], [], [], ⟨[], []⟩, ⟨[], []⟩, 0⟩

variable [DecidableEq δ]

/-- The files the rows of a room name. -/
def storedNamesForRoom (st : MediaStore δ) (room : RoomId) : List (StoredName δ) :=
  ((st.rows.filter fun row => row.room = room).map MediaRow.storedName).dedup

/-- The media that a room shows. -/
def namesForRoom (st : MediaStore δ) (room : RoomId) : List (StoredName δ) :=
  ((st.shown.filter fun r => r.1 = some room ∧ (mimeFor r.2.ext).isSome).map Prod.snd).dedup

/-- The rows, members and messages of a room go with it. -/
def deleteRoom (st : MediaStore δ) (room : RoomId) : MediaStore δ :=
  { st with
    members := st.members.filter fun m => m.1 ≠ room
    rows := st.rows.filter fun row => row.room ≠ room
    shown := st.shown.filter fun r => r.1 ≠ some room }

/-- The attachments that no row names when a room has gone. -/
def orphanFiles (st : MediaStore δ) (room : RoomId) : List (StoredName δ) :=
  (st.storedNamesForRoom room).filter fun name =>
    !((st.deleteRoom room).rows.map MediaRow.storedName).contains name

/-- The media that nothing links to when a room has gone. -/
def orphanMedia (st : MediaStore δ) (room : RoomId) : List (StoredName δ) :=
  (st.namesForRoom room).filter fun name =>
    !((st.deleteRoom room).shown.map Prod.snd).contains name

/-- Destroy a room and everything it was holding on disk. -/
def destroyRoom (st : MediaStore δ) (room : RoomId) : MediaStore δ :=
  { st.deleteRoom room with
    files := (st.orphanFiles room).foldl MediaDir.unlink st.files
    images := (st.orphanMedia room).foldl MediaDir.unlink st.images }

/-- The row of an attachment that the caller may see. -/
def visibleFile (st : MediaStore δ) (caller : WalletAddress) (id : Nat) :
    Except ApiError (MediaRow δ) := do
  let row ← orRefuse (st.rows.find? fun row => row.id = id) (.notFound "File not found")
  ensure (decide ((row.room, caller) ∈ st.members)) (.notFound "File not found")
  pure row

/-- A row for bytes that have been written. -/
def create (st : MediaStore δ) (caller : WalletAddress) (room : RoomId) (name : StoredName δ)
    (files : MediaDir δ) : MediaStore δ × MediaReply δ :=
  ({ st with
      rows := st.rows ++ [⟨st.nextId, room, caller, name⟩]
      files := files
      nextId := st.nextId + 1 }, .file st.nextId)

variable (sha256 : List UInt8 → δ) (render : List UInt8 → Option (List UInt8))

def uploadImage (st : MediaStore δ) (contentType : String) (body : List UInt8) :
    Except ApiError (MediaStore δ × MediaReply δ) := do
  let ext ← orRefuse (extensionFor contentType) (.badRequest ("Content-Type must be image/png, " ++
    "image/jpeg, image/webp, image/gif, video/mp4, or video/webm"))
  ensure (!body.isEmpty) (.badRequest "Empty file")
  ensure (decide (body.length ≤ capFor ext)) (tooLarge (capFor ext))
  let name := ⟨sha256 body, ext⟩
  pure ({ st with images := (st.images.place name body).accompany render name body }, .url name)

def finishImage (st : MediaStore δ) (mime : String) (body : List UInt8) :
    Except ApiError (MediaStore δ × MediaReply δ) := do
  let ext ← orRefuse (extensionFor mime) (.badRequest ("mime must be image/png, image/jpeg, " ++
    "image/webp, image/gif, video/mp4, or video/webm"))
  ensure (decide (body.length ≤ sessionCapFor ext)) (tooLarge (sessionCapFor ext))
  let name := ⟨sha256 body, ext⟩
  let images := (st.images.place name body).accompanyFile render maxImageBytes name
  pure ({ st with images := images }, .url name)

def postFrame (st : MediaStore δ) (name : StoredName δ) (body : List UInt8) :
    Except ApiError (MediaStore δ × MediaReply δ) := do
  ensure (mimeFor name.ext).isSome (.notFound "Image not found")
  let r ← st.images.acceptThumbnail render "Image not found"
    (fun length => decide (length ≤ maxImageBytes)) name body
  pure ({ st with images := r.1 }, .message r.2)

def thumb (st : MediaStore δ) (name : StoredName δ) :
    Except ApiError (MediaStore δ × MediaReply δ) := do
  ensure (mimeFor name.ext).isSome (.notFound "Image not found")
  let r ← st.images.serveThumbnail render "Image not found" maxImageBytes name
  pure ({ st with images := r.1 }, .jpeg r.2)

def uploadFile (st : MediaStore δ) (caller : WalletAddress) (room : RoomId) (filename : String)
    (body : List UInt8) : Except ApiError (MediaStore δ × MediaReply δ) := do
  ensure (decide ((room, caller) ∈ st.members)) .accessDenied
  ensure (!body.isEmpty) (.badRequest "Empty file")
  let name := ⟨sha256 body, extensionOf filename⟩
  pure (st.create caller room name ((st.files.place name body).accompany render name body))

def finishFile (st : MediaStore δ) (caller : WalletAddress) (room : RoomId) (filename : String)
    (body : List UInt8) : Except ApiError (MediaStore δ × MediaReply δ) := do
  ensure (decide ((room, caller) ∈ st.members)) .accessDenied
  let name := ⟨sha256 body, extensionOf filename⟩
  pure (st.create caller room name
    ((st.files.place name body).accompanyFile render maxFileBytes name))

def postFileFrame (st : MediaStore δ) (caller : WalletAddress) (id : Nat) (body : List UInt8) :
    Except ApiError (MediaStore δ × MediaReply δ) := do
  let row ← st.visibleFile caller id
  ensure (decide (row.uploader = caller)) (.forbidden "Only the uploader can attach a thumbnail")
  let r ← st.files.acceptThumbnail render "File not found" (fun _ => true) row.storedName body
  pure ({ st with files := r.1 }, .message r.2)

def fileThumb (st : MediaStore δ) (caller : WalletAddress) (id : Nat) :
    Except ApiError (MediaStore δ × MediaReply δ) := do
  let row ← st.visibleFile caller id
  let r ← st.files.serveThumbnail render "File not found" maxFileBytes row.storedName
  pure ({ st with files := r.1 }, .jpeg r.2)

/-- What becomes of a request that is not refused. -/
def perform (st : MediaStore δ) : MediaCall δ → Except ApiError (MediaStore δ × MediaReply δ)
  | .join room wallet => .ok ({ st with members := st.members.insert (room, wallet) }, .done)
  | .leave room wallet =>
      .ok ({ st with members := st.members.filter fun m => m ≠ (room, wallet) }, .done)
  | .refer place name => .ok ({ st with shown := st.shown.insert (place, name) }, .done)
  | .forget place name =>
      .ok ({ st with shown := st.shown.filter fun r => r ≠ (place, name) }, .done)
  | .uploadImage contentType body => st.uploadImage sha256 render contentType body
  | .finishImage mime body => st.finishImage sha256 render mime body
  | .postFrame name body => st.postFrame render name body
  | .thumb name => st.thumb render name
  | .uploadFile caller room filename body => st.uploadFile sha256 render caller room filename body
  | .finishFile caller room filename body => st.finishFile sha256 render caller room filename body
  | .removeFile id => .ok ({ st with rows := st.rows.filter fun row => row.id ≠ id }, .done)
  | .postFileFrame caller id body => st.postFileFrame render caller id body
  | .fileThumb caller id => st.fileThumb render caller id
  | .destroyRoom room => .ok (st.destroyRoom room, .done)

/-- The store after a request. A refused request leaves it as it was. -/
def act (st : MediaStore δ) (c : MediaCall δ) : MediaStore δ :=
  match st.perform sha256 render c with
  | .ok (st', _) => st'
  | .error _ => st

/-- The answer to a request. -/
def answer (st : MediaStore δ) (c : MediaCall δ) : Except ApiError (MediaReply δ) :=
  (st.perform sha256 render c).map Prod.snd

/-- The directory and the original of which a request asks the thumbnail. -/
def asks (st : MediaStore δ) : MediaCall δ → Option (MediaDir δ × StoredName δ)
  | .thumb name => some (st.images, name)
  | .fileThumb _ id =>
      (st.rows.find? fun row => row.id = id).map fun row => (st.files, row.storedName)
  | _ => none

/-- The answer is a 404. -/
def isNotFound : Except ApiError (MediaReply δ) → Bool
  | .error (.notFound _) => true
  | _ => false

/-- The thumbnail of a stored picture is rendered from its bytes, or not found. -/
def ShowsOriginal (st : MediaStore δ) (c : MediaCall δ) : Prop :=
  ∀ t ∈ st.asks c, isPicture t.2.ext = true → ∀ o ∈ t.1.original t.2,
    (∃ jpeg ∈ render o.bytes, st.answer sha256 render c = .ok (.jpeg jpeg)) ∨
      isNotFound (st.answer sha256 render c) = true

end MediaStore

namespace MediaDir

variable {δ : Type} [DecidableEq δ]

/-- What was posted for an original is still there if the original is. -/
def KeepsFrames (d d' : MediaDir δ) : Prop :=
  ∀ s ∈ d.sidecars, ∀ v ∈ s.postedFor, (d'.original v).isSome = true → s ∈ d'.sidecars

instance (d d' : MediaDir δ) : Decidable (d.KeepsFrames d') :=
  inferInstanceAs (Decidable (∀ s ∈ d.sidecars, ∀ v ∈ s.postedFor, _))

variable (render : List UInt8 → Option (List UInt8))

/-- A frame that would be stored for a video is not taken for that of a picture. -/
def TakesFrame (fits : Nat → Bool) (d : MediaDir δ) (name : StoredName δ)
    (body : List UInt8) : Prop :=
  isVideo name.ext = true → (d.original name).isSome = true → fits body.length = true →
    body ≠ [] → d.sidecar name = none → ∀ jpeg ∈ render body, ∀ o ∈ d.originals,
      o.name.digest = name.digest → isPicture o.name.ext = true → render o.bytes = some jpeg

instance (fits : Nat → Bool) (d : MediaDir δ) (name : StoredName δ) (body : List UInt8) :
    Decidable (d.TakesFrame render fits name body) :=
  inferInstanceAs (Decidable (_ → _ → _ → _ → _ → ∀ jpeg ∈ render body, _))

/-- A picture that is put there does not find a frame in the place of its thumbnail. -/
def TakesPicture (d : MediaDir δ) (name : StoredName δ) (body : List UInt8) : Prop :=
  isPicture name.ext = true → ∀ s ∈ d.sidecars, s.stem = name.digest → render body = some s.jpeg

instance (d : MediaDir δ) (name : StoredName δ) (body : List UInt8) :
    Decidable (d.TakesPicture render name body) :=
  inferInstanceAs (Decidable (_ → ∀ s ∈ d.sidecars, _))

/-- Of the names that are unlinked, none has the digest of a frame that was posted for an
    original that stays. -/
def Spares (d : MediaDir δ) (names : List (StoredName δ)) : Prop :=
  ∀ s ∈ d.sidecars, ∀ v ∈ s.postedFor, (d.original v).isSome = true → v ∉ names →
    ∀ name ∈ names, name.digest ≠ s.stem

instance (d : MediaDir δ) (names : List (StoredName δ)) : Decidable (d.Spares names) :=
  inferInstanceAs (Decidable (∀ s ∈ d.sidecars, ∀ v ∈ s.postedFor, _))

end MediaDir

namespace MediaStore

variable {δ : Type} [DecidableEq δ]
  (sha256 : List UInt8 → δ) (render : List UInt8 → Option (List UInt8))

instance (st : MediaStore δ) (c : MediaCall δ) : Decidable (st.ShowsOriginal sha256 render c) :=
  inferInstanceAs (Decidable (∀ t ∈ st.asks c, _))

/-- What a request does that bears on thumbnails: they show their originals, and the frames of
    originals that stay are kept. -/
def Sound (st : MediaStore δ) (c : MediaCall δ) : Prop :=
  st.ShowsOriginal sha256 render c ∧
    st.files.KeepsFrames (st.act sha256 render c).files ∧
    st.images.KeepsFrames (st.act sha256 render c).images

instance (st : MediaStore δ) (c : MediaCall δ) : Decidable (st.Sound sha256 render c) :=
  inferInstanceAs (Decidable (_ ∧ _ ∧ _))

/-- The names of pictures and of videos with the same bytes are kept apart. -/
def Apart (st : MediaStore δ) : MediaCall δ → Prop
  | .uploadImage contentType body =>
      ∀ ext ∈ extensionFor contentType, body ≠ [] → body.length ≤ capFor ext →
        st.images.TakesPicture render ⟨sha256 body, ext⟩ body
  | .finishImage mime body =>
      ∀ ext ∈ extensionFor mime, body.length ≤ sessionCapFor ext →
        st.images.TakesPicture render ⟨sha256 body, ext⟩ body
  | .postFrame name body =>
      (mimeFor name.ext).isSome = true →
        st.images.TakesFrame render (fun length => decide (length ≤ maxImageBytes)) name body
  | .uploadFile caller room filename body =>
      (room, caller) ∈ st.members → body ≠ [] →
        st.files.TakesPicture render ⟨sha256 body, extensionOf filename⟩ body
  | .finishFile caller room filename body =>
      (room, caller) ∈ st.members →
        st.files.TakesPicture render ⟨sha256 body, extensionOf filename⟩ body
  | .postFileFrame caller id body =>
      ∀ row ∈ st.rows.find? fun row => row.id = id, (row.room, caller) ∈ st.members →
        row.uploader = caller →
          st.files.TakesFrame render (fun _ => true) row.storedName body
  | .destroyRoom room =>
      st.files.Spares (st.orphanFiles room) ∧ st.images.Spares (st.orphanMedia room)
  | _ => True

instance (st : MediaStore δ) : DecidablePred (st.Apart sha256 render)
  | .uploadImage contentType _ =>
      inferInstanceAs (Decidable (∀ ext ∈ extensionFor contentType, _ → _ → _))
  | .finishImage mime _ => inferInstanceAs (Decidable (∀ ext ∈ extensionFor mime, _ → _))
  | .postFrame _ _ => inferInstanceAs (Decidable (_ → MediaDir.TakesFrame ..))
  | .uploadFile _ _ _ _ => inferInstanceAs (Decidable (_ → _ → MediaDir.TakesPicture ..))
  | .finishFile _ _ _ _ => inferInstanceAs (Decidable (_ → MediaDir.TakesPicture ..))
  | .postFileFrame caller id body =>
      inferInstanceAs (Decidable (∀ row ∈ st.rows.find? fun row => row.id = id,
        (row.room, caller) ∈ st.members → row.uploader = caller →
          st.files.TakesFrame render (fun _ => true) row.storedName body))
  | .destroyRoom _ => inferInstanceAs (Decidable (_ ∧ _))
  | .join .. | .leave .. | .refer .. | .forget .. | .thumb .. | .removeFile .. | .fileThumb .. =>
      inferInstanceAs (Decidable True)

end MediaStore

namespace MediaDir

variable {δ : Type} [DecidableEq δ] {sha256 : List UInt8 → δ}
  {render : List UInt8 → Option (List UInt8)} {d d' : MediaDir δ} {name : StoredName δ}
  {body : List UInt8}

/-- Originals are named by their digests, and what lies beside a picture is rendered from it. -/
structure Faithful (sha256 : List UInt8 → δ) (render : List UInt8 → Option (List UInt8))
    (d : MediaDir δ) : Prop where
  digest : ∀ o ∈ d.originals, o.name.digest = sha256 o.bytes
  sidecar : ∀ s ∈ d.sidecars, ∀ o ∈ d.originals, o.name.digest = s.stem →
    isPicture o.name.ext = true → render o.bytes = some s.jpeg

/-! ### The writes to a directory -/

theorem faithful_place (hd : d.Faithful sha256 render) (hname : name.digest = sha256 body)
    (htakes : d.TakesPicture render name body) : (d.place name body).Faithful sha256 render := by
  refine ⟨fun o ho => ?_, fun s hs o ho hstem hpic => ?_⟩
  · rcases Table.mem_of_mem_insertNew ho with rfl | ho
    · exact hname
    · exact hd.digest o ho
  · rcases Table.mem_of_mem_insertNew ho with rfl | ho
    · exact htakes hpic s hs hstem.symm
    · exact hd.sidecar s hs o ho hstem hpic

theorem faithful_store {jpeg : List UInt8} {postedFor : Option (StoredName δ)}
    (hd : d.Faithful sha256 render) (hpic : ∀ o ∈ d.originals, o.name.digest = name.digest →
      isPicture o.name.ext = true → render o.bytes = some jpeg) :
    (d.store name jpeg postedFor).Faithful sha256 render := by
  refine ⟨hd.digest, fun s hs o ho hstem hext => ?_⟩
  rcases Table.mem_of_mem_insertNew hs with rfl | hs
  · exact hpic o ho hstem hext
  · exact hd.sidecar s hs o ho hstem hext

-- Equal digests are those of equal bytes, so what is rendered here fits every picture there.
theorem faithful_accompany (hsha : Function.Injective sha256) (hd : d.Faithful sha256 render)
    (hname : name.digest = sha256 body) : (d.accompany render name body).Faithful sha256 render := by
  unfold accompany
  split
  · exact hd
  · cases hrender : render body with
    | none => exact hd
    | some jpeg =>
        refine faithful_store hd fun o ho hdigest _ => ?_
        have hbytes : o.bytes = body :=
          hsha ((hd.digest o ho).symm.trans (hdigest.trans hname))
        rw [hbytes, hrender]

theorem faithful_accompanyFile (hsha : Function.Injective sha256) (cap : Nat)
    (hd : d.Faithful sha256 render) : (d.accompanyFile render cap name).Faithful sha256 render := by
  unfold accompanyFile
  split
  · exact hd
  · cases ho : d.original name with
    | none => exact hd
    | some o =>
        dsimp only
        split
        · exact hd
        · refine faithful_accompany hsha hd ?_
          rw [← hd.digest o (Table.mem_of_lookup ho), Table.key_of_lookup ho]

theorem faithful_unlink (hd : d.Faithful sha256 render) (n : StoredName δ) :
    (d.unlink n).Faithful sha256 render :=
  ⟨fun o ho => hd.digest o (Table.mem_erase.1 ho).1,
    fun s hs o ho => hd.sidecar s (Table.mem_erase.1 hs).1 o (Table.mem_erase.1 ho).1⟩

theorem faithful_unlinks (names : List (StoredName δ)) (hd : d.Faithful sha256 render) :
    (names.foldl unlink d).Faithful sha256 render := by
  induction names generalizing d with
  | nil => exact hd
  | cons n names ih => exact ih (faithful_unlink hd n)

/-! ### What stays -/

theorem originals_accompany : (d.accompany render name body).originals = d.originals := by
  unfold accompany
  split
  · rfl
  · cases render body <;> rfl

theorem originals_accompanyFile (cap : Nat) :
    (d.accompanyFile render cap name).originals = d.originals := by
  unfold accompanyFile
  split
  · rfl
  · cases d.original name with
    | none => rfl
    | some o =>
        dsimp only
        split
        · rfl
        · exact originals_accompany

theorem sidecars_store (jpeg : List UInt8) (postedFor : Option (StoredName δ)) :
    d.sidecars ⊆ (d.store name jpeg postedFor).sidecars :=
  fun _ hs => Table.mem_insertNew_of_mem hs

theorem sidecars_accompany : d.sidecars ⊆ (d.accompany render name body).sidecars := by
  unfold accompany
  split
  · exact List.Subset.refl _
  · cases render body with
    | none => exact List.Subset.refl _
    | some jpeg => exact sidecars_store jpeg none

theorem sidecars_accompanyFile (cap : Nat) :
    d.sidecars ⊆ (d.accompanyFile render cap name).sidecars := by
  unfold accompanyFile
  split
  · exact List.Subset.refl _
  · cases d.original name with
    | none => exact List.Subset.refl _
    | some o =>
        dsimp only
        split
        · exact List.Subset.refl _
        · exact sidecars_accompany

theorem keepsFrames_of_subset (h : d.sidecars ⊆ d'.sidecars) : d.KeepsFrames d' :=
  fun _ hs _ _ _ => h hs

-- Putting an original there, with or without its thumbnail, takes no sidecar away.
theorem keepsFrames_accompany (bytes : List UInt8) :
    d.KeepsFrames ((d.place name body).accompany render name bytes) :=
  keepsFrames_of_subset (sidecars_accompany (d := d.place name body))

theorem keepsFrames_accompanyFile (cap : Nat) :
    d.KeepsFrames ((d.place name body).accompanyFile render cap name) :=
  keepsFrames_of_subset (sidecars_accompanyFile (d := d.place name body) cap)

theorem mem_sidecars_unlinks (names : List (StoredName δ)) {s : Sidecar δ} :
    s ∈ (names.foldl unlink d).sidecars ↔
      s ∈ d.sidecars ∧ ∀ n ∈ names, n.digest ≠ s.stem := by
  induction names generalizing d with
  | nil => simp
  | cons n names ih =>
      rw [List.foldl_cons, ih, unlink, Table.mem_erase, List.forall_mem_cons, and_assoc]
      exact and_congr_right fun _ => and_congr_left fun _ => ne_comm

theorem mem_originals_unlinks (names : List (StoredName δ)) {o : Original δ} :
    o ∈ (names.foldl unlink d).originals ↔ o ∈ d.originals ∧ o.name ∉ names := by
  induction names generalizing d with
  | nil => simp
  | cons n names ih =>
      rw [List.foldl_cons, ih, unlink, Table.mem_erase, List.mem_cons, not_or, and_assoc]

-- What is unlinked beside a frame is unlinked with what the frame was posted for.
theorem keepsFrames_unlinks {names : List (StoredName δ)} (h : d.Spares names) :
    d.KeepsFrames (names.foldl unlink d) := by
  intro s hs v hv hkept
  rcases Table.lookup_isSome.1 hkept with ⟨o, ho, hname⟩
  rcases (mem_originals_unlinks names).1 ho with ⟨ho, hnot⟩
  rw [hname] at hnot
  have hstored : (d.original v).isSome = true := Table.lookup_isSome.2 ⟨o, ho, hname⟩
  exact (mem_sidecars_unlinks names).2 ⟨hs, h s hs v hv hstored hnot⟩

/-! ### The answers -/

/-- A frame that is accepted is stored, or there was a thumbnail already. -/
theorem acceptThumbnail_ok {missing text : String} {fits : Nat → Bool}
    (h : d.acceptThumbnail render missing fits name body = .ok (d', text)) :
    d' = d ∨ ∃ jpeg ∈ render body, d' = d.store name jpeg (some name) ∧
      isVideo name.ext = true ∧ (d.original name).isSome = true ∧ fits body.length = true ∧
      body ≠ [] ∧ d.sidecar name = none := by
  simp only [acceptThumbnail, bind_eq_ok, ensure_eq_ok, exists_const] at h
  rcases h with ⟨hvideo, horiginal, hbody, h⟩
  rw [Bool.and_eq_true, Bool.not_eq_true', List.isEmpty_eq_false_iff] at hbody
  by_cases hside : (d.sidecar name).isSome = true
  · rw [if_pos hside] at h
    cases h
    exact Or.inl rfl
  · rw [if_neg hside] at h
    rcases (bind_eq_ok _ _ _).1 h with ⟨jpeg, hjpeg, h⟩
    cases h
    refine Or.inr ⟨jpeg, (orRefuse_eq_ok _ _ _).1 hjpeg, rfl, hvideo, horiginal, hbody.2,
      hbody.1, ?_⟩
    rwa [Option.isSome_iff_ne_none, not_not] at hside

theorem serveThumbnail_ok {missing : String} {cap : Nat} {jpeg : List UInt8}
    (h : d.serveThumbnail render missing cap name = .ok (d', jpeg)) :
    d' = d.accompanyFile render cap name ∧
      ∃ s ∈ d'.sidecars, s.stem = name.digest ∧ s.jpeg = jpeg := by
  simp only [serveThumbnail, bind_eq_ok, orRefuse_eq_ok] at h
  rcases h with ⟨s, hs, h⟩
  cases h
  exact ⟨rfl, s, Table.mem_of_lookup hs, Table.key_of_lookup hs, rfl⟩

theorem serveThumbnail_error {missing : String} {cap : Nat} {e : ApiError}
    (h : d.serveThumbnail render missing cap name = .error e) : e = .notFound missing := by
  unfold serveThumbnail at h
  dsimp only at h
  cases hs : (d.accompanyFile render cap name).sidecar name with
  | none =>
      rw [hs] at h
      cases h
      rfl
  | some s =>
      rw [hs] at h
      cases h

end MediaDir

namespace MediaStore

variable {δ : Type} [DecidableEq δ] {sha256 : List UInt8 → δ}
  {render : List UInt8 → Option (List UInt8)} {st st' : MediaStore δ} {reply : MediaReply δ}

/-- Both directories are faithful. -/
structure Inv (sha256 : List UInt8 → δ) (render : List UInt8 → Option (List UInt8))
    (st : MediaStore δ) : Prop where
  files : st.files.Faithful sha256 render
  images : st.images.Faithful sha256 render

omit [DecidableEq δ] in
theorem inv_empty : (empty : MediaStore δ).Inv sha256 render :=
  ⟨⟨fun _ h => (by cases h), fun _ h => (by cases h)⟩,
    ⟨fun _ h => (by cases h), fun _ h => (by cases h)⟩⟩

/-- What a request does to the directories, the invariant and the condition given. -/
structure Tends (sha256 : List UInt8 → δ) (render : List UInt8 → Option (List UInt8))
    (st st' : MediaStore δ) : Prop where
  inv : st'.Inv sha256 render
  files : st.files.KeepsFrames st'.files
  images : st.images.KeepsFrames st'.images

theorem tends_of_files (hi : st.Inv sha256 render) (himages : st'.images = st.images)
    (hfiles : st'.files.Faithful sha256 render) (hkeeps : st.files.KeepsFrames st'.files) :
    Tends sha256 render st st' := by
  refine ⟨⟨hfiles, ?_⟩, hkeeps, ?_⟩
  · rw [himages]
    exact hi.images
  · rw [himages]
    exact MediaDir.keepsFrames_of_subset (List.Subset.refl _)

theorem tends_of_images (hi : st.Inv sha256 render) (hfiles : st'.files = st.files)
    (himages : st'.images.Faithful sha256 render) (hkeeps : st.images.KeepsFrames st'.images) :
    Tends sha256 render st st' := by
  refine ⟨⟨?_, himages⟩, ?_, hkeeps⟩
  · rw [hfiles]
    exact hi.files
  · rw [hfiles]
    exact MediaDir.keepsFrames_of_subset (List.Subset.refl _)

-- A request that leaves the directories alone.
theorem tends_of_same (hi : st.Inv sha256 render) (hfiles : st'.files = st.files)
    (himages : st'.images = st.images) : Tends sha256 render st st' :=
  tends_of_files hi himages (hfiles ▸ hi.files)
    (hfiles ▸ MediaDir.keepsFrames_of_subset (List.Subset.refl _))

variable (hsha : Function.Injective sha256) (hi : st.Inv sha256 render)

include hsha hi in
theorem tends_uploadImage {contentType : String} {body : List UInt8}
    (ha : st.Apart sha256 render (.uploadImage contentType body))
    (h : st.uploadImage sha256 render contentType body = .ok (st', reply)) :
    Tends sha256 render st st' := by
  simp only [uploadImage, bind_eq_ok, ensure_eq_ok, orRefuse_eq_ok, exists_const] at h
  rcases h with ⟨ext, hext, hbody, hcap, h⟩
  cases h
  rw [Bool.not_eq_true', List.isEmpty_eq_false_iff] at hbody
  have hplace := MediaDir.faithful_place hi.images rfl
    (ha ext hext hbody (of_decide_eq_true hcap))
  exact tends_of_images hi rfl (MediaDir.faithful_accompany hsha hplace rfl)
    (MediaDir.keepsFrames_accompany body)

include hsha hi in
theorem tends_finishImage {mime : String} {body : List UInt8}
    (ha : st.Apart sha256 render (.finishImage mime body))
    (h : st.finishImage sha256 render mime body = .ok (st', reply)) :
    Tends sha256 render st st' := by
  simp only [finishImage, bind_eq_ok, ensure_eq_ok, orRefuse_eq_ok, exists_const] at h
  rcases h with ⟨ext, hext, hcap, h⟩
  cases h
  have hplace := MediaDir.faithful_place hi.images rfl (ha ext hext (of_decide_eq_true hcap))
  exact tends_of_images hi rfl (MediaDir.faithful_accompanyFile hsha _ hplace)
    (MediaDir.keepsFrames_accompanyFile _)

include hsha hi in
theorem tends_uploadFile {caller : WalletAddress} {room : RoomId} {filename : String}
    {body : List UInt8} (ha : st.Apart sha256 render (.uploadFile caller room filename body))
    (h : st.uploadFile sha256 render caller room filename body = .ok (st', reply)) :
    Tends sha256 render st st' := by
  simp only [uploadFile, bind_eq_ok, ensure_eq_ok, exists_const] at h
  rcases h with ⟨hmember, hbody, h⟩
  simp only [create, pure, Except.pure, Except.ok.injEq, Prod.mk.injEq] at h
  rcases h with ⟨rfl, -⟩
  rw [Bool.not_eq_true', List.isEmpty_eq_false_iff] at hbody
  have hplace := MediaDir.faithful_place hi.files rfl (ha (of_decide_eq_true hmember) hbody)
  exact tends_of_files hi rfl (MediaDir.faithful_accompany hsha hplace rfl)
    (MediaDir.keepsFrames_accompany body)

include hsha hi in
theorem tends_finishFile {caller : WalletAddress} {room : RoomId} {filename : String}
    {body : List UInt8} (ha : st.Apart sha256 render (.finishFile caller room filename body))
    (h : st.finishFile sha256 render caller room filename body = .ok (st', reply)) :
    Tends sha256 render st st' := by
  simp only [finishFile, bind_eq_ok, ensure_eq_ok, exists_const] at h
  rcases h with ⟨hmember, h⟩
  simp only [create, pure, Except.pure, Except.ok.injEq, Prod.mk.injEq] at h
  rcases h with ⟨rfl, -⟩
  have hplace := MediaDir.faithful_place hi.files rfl (ha (of_decide_eq_true hmember))
  exact tends_of_files hi rfl (MediaDir.faithful_accompanyFile hsha _ hplace)
    (MediaDir.keepsFrames_accompanyFile _)

omit hsha hi in
-- A frame that is taken is stored where no picture looks.
theorem faithful_accepted {missing text : String} {fits : Nat → Bool} {d d' : MediaDir δ}
    {name : StoredName δ} {body : List UInt8} (hd : d.Faithful sha256 render)
    (htakes : d.TakesFrame render fits name body)
    (h : d.acceptThumbnail render missing fits name body = .ok (d', text)) :
    d'.Faithful sha256 render ∧ d.KeepsFrames d' := by
  rcases MediaDir.acceptThumbnail_ok h with
    rfl | ⟨jpeg, hjpeg, rfl, hvideo, hstored, hfits, hbody, hnone⟩
  · exact ⟨hd, MediaDir.keepsFrames_of_subset (List.Subset.refl _)⟩
  · exact ⟨MediaDir.faithful_store hd (htakes hvideo hstored hfits hbody hnone jpeg hjpeg),
      MediaDir.keepsFrames_of_subset (MediaDir.sidecars_store jpeg (some name))⟩

omit hsha in
include hi in
theorem tends_postFrame {name : StoredName δ} {body : List UInt8}
    (ha : st.Apart sha256 render (.postFrame name body))
    (h : st.postFrame render name body = .ok (st', reply)) : Tends sha256 render st st' := by
  simp only [postFrame, bind_eq_ok, ensure_eq_ok, exists_const] at h
  rcases h with ⟨hmime, r, hr, h⟩
  cases h
  rcases faithful_accepted hi.images (ha hmime) hr with ⟨hfaithful, hkeeps⟩
  exact tends_of_images hi rfl hfaithful hkeeps

omit hsha hi [DecidableEq δ] in
theorem visibleFile_ok {caller : WalletAddress} {id : Nat} {row : MediaRow δ}
    (h : st.visibleFile caller id = .ok row) :
    (st.rows.find? fun row => row.id = id) = some row ∧ (row.room, caller) ∈ st.members := by
  simp only [visibleFile, bind_eq_ok, ensure_eq_ok, orRefuse_eq_ok, exists_const] at h
  rcases h with ⟨row, hrow, hmember, h⟩
  cases h
  exact ⟨hrow, of_decide_eq_true hmember⟩

omit hsha in
include hi in
theorem tends_postFileFrame {caller : WalletAddress} {id : Nat} {body : List UInt8}
    (ha : st.Apart sha256 render (.postFileFrame caller id body))
    (h : st.postFileFrame render caller id body = .ok (st', reply)) :
    Tends sha256 render st st' := by
  simp only [postFileFrame, bind_eq_ok, ensure_eq_ok, exists_const] at h
  rcases h with ⟨row, hrow, huploader, r, hr, h⟩
  cases h
  rcases visibleFile_ok hrow with ⟨hfind, hmember⟩
  have htakes := ha row hfind hmember (of_decide_eq_true huploader)
  rcases faithful_accepted hi.files htakes hr with ⟨hfaithful, hkeeps⟩
  exact tends_of_files hi rfl hfaithful hkeeps

include hsha hi in
theorem tends_thumb {name : StoredName δ} (h : st.thumb render name = .ok (st', reply)) :
    Tends sha256 render st st' := by
  simp only [thumb, bind_eq_ok, ensure_eq_ok, exists_const] at h
  rcases h with ⟨hmime, r, hr, h⟩
  cases h
  rw [(MediaDir.serveThumbnail_ok hr).1]
  exact tends_of_images hi rfl (MediaDir.faithful_accompanyFile hsha _ hi.images)
    (MediaDir.keepsFrames_of_subset (MediaDir.sidecars_accompanyFile _))

include hsha hi in
theorem tends_fileThumb {caller : WalletAddress} {id : Nat}
    (h : st.fileThumb render caller id = .ok (st', reply)) : Tends sha256 render st st' := by
  simp only [fileThumb, bind_eq_ok] at h
  rcases h with ⟨row, hrow, r, hr, h⟩
  cases h
  rw [(MediaDir.serveThumbnail_ok hr).1]
  exact tends_of_files hi rfl (MediaDir.faithful_accompanyFile hsha _ hi.files)
    (MediaDir.keepsFrames_of_subset (MediaDir.sidecars_accompanyFile _))

omit hsha in
include hi in
theorem tends_destroyRoom {room : RoomId} (ha : st.Apart sha256 render (.destroyRoom room)) :
    Tends sha256 render st (st.destroyRoom room) :=
  ⟨⟨MediaDir.faithful_unlinks _ hi.files, MediaDir.faithful_unlinks _ hi.images⟩,
    MediaDir.keepsFrames_unlinks ha.1, MediaDir.keepsFrames_unlinks ha.2⟩

include hsha hi in
/-- A request that meets the condition keeps the invariant, and the frames of originals that
    stay. -/
theorem tends_act (c : MediaCall δ) (ha : st.Apart sha256 render c) :
    Tends sha256 render st (st.act sha256 render c) := by
  unfold act
  cases hperform : st.perform sha256 render c with
  | error e => exact tends_of_same hi rfl rfl
  | ok r =>
      rcases r with ⟨st', reply⟩
      cases c with
      | uploadImage contentType body => exact tends_uploadImage hsha hi ha hperform
      | finishImage mime body => exact tends_finishImage hsha hi ha hperform
      | postFrame name body => exact tends_postFrame hi ha hperform
      | thumb name => exact tends_thumb hsha hi hperform
      | uploadFile caller room filename body => exact tends_uploadFile hsha hi ha hperform
      | finishFile caller room filename body => exact tends_finishFile hsha hi ha hperform
      | postFileFrame caller id body => exact tends_postFileFrame hi ha hperform
      | fileThumb caller id => exact tends_fileThumb hsha hi hperform
      | destroyRoom room =>
          cases hperform
          exact tends_destroyRoom hi ha
      | join | leave | refer | forget | removeFile =>
          cases hperform
          exact tends_of_same hi rfl rfl

/-! ### What is shown -/

omit hsha hi in
-- What lies beside a picture is rendered from it.
theorem serves_original {missing : String} {cap : Nat} {d d' : MediaDir δ} {jpeg : List UInt8}
    {name : StoredName δ} (hsha : Function.Injective sha256) (hd : d.Faithful sha256 render)
    (hpic : isPicture name.ext = true) {o : Original δ} (ho : d.original name = some o)
    (h : d.serveThumbnail render missing cap name = .ok (d', jpeg)) :
    render o.bytes = some jpeg := by
  rcases MediaDir.serveThumbnail_ok h with ⟨rfl, s, hs, hstem, rfl⟩
  have hname : o.name = name := Table.key_of_lookup ho
  have hmem : o ∈ (d.accompanyFile render cap name).originals := by
    rw [MediaDir.originals_accompanyFile]
    exact Table.mem_of_lookup ho
  refine (MediaDir.faithful_accompanyFile hsha cap hd).sidecar s hs o hmem ?_ ?_
  · rw [hname, hstem]
  · rw [hname]
    exact hpic

omit hsha hi in
-- Whom a row lets through is answered from the directory.
theorem fileThumb_of_member {caller : WalletAddress} {id : Nat} {row : MediaRow δ}
    (hrow : (st.rows.find? fun row => row.id = id) = some row)
    (hmember : (row.room, caller) ∈ st.members) :
    st.fileThumb render caller id =
      (st.files.serveThumbnail render "File not found" maxFileBytes row.storedName).map
        fun r => ({ st with files := r.1 }, .jpeg r.2) := by
  have hvisible : st.visibleFile caller id = .ok row := by
    simp [visibleFile, hrow, hmember, ensure, orRefuse, bind, Except.bind, pure, Except.pure]
  rw [fileThumb, hvisible]
  cases hserve : st.files.serveThumbnail render "File not found" maxFileBytes row.storedName <;>
    simp [hserve, bind, Except.bind, pure, Except.pure, Except.map]

omit hsha hi in
theorem thumb_of_media {name : StoredName δ} (hmime : (mimeFor name.ext).isSome = true) :
    st.thumb render name =
      (st.images.serveThumbnail render "Image not found" maxImageBytes name).map
        fun r => ({ st with images := r.1 }, .jpeg r.2) := by
  rw [thumb, hmime]
  cases hserve : st.images.serveThumbnail render "Image not found" maxImageBytes name <;>
    simp [ensure, bind, Except.bind, pure, Except.pure, Except.map]

include hsha hi in
theorem showsOriginal (c : MediaCall δ) : st.ShowsOriginal sha256 render c := by
  intro t ht hpic o ho
  cases c with
  | thumb name =>
      cases ht
      by_cases hmime : (mimeFor name.ext).isSome = true
      · rw [answer, perform, thumb_of_media hmime]
        cases hserve : st.images.serveThumbnail render "Image not found" maxImageBytes name with
        | error e =>
            rw [MediaDir.serveThumbnail_error hserve]
            exact Or.inr rfl
        | ok r => exact Or.inl ⟨r.2, serves_original hsha hi.images hpic ho hserve, rfl⟩
      · -- What is not a name of media is not found.
        rw [Bool.not_eq_true] at hmime
        rw [answer, perform, thumb, hmime]
        exact Or.inr rfl
  | fileThumb caller id =>
      rcases Option.map_eq_some_iff.1 ht with ⟨row, hrow, rfl⟩
      by_cases hmember : (row.room, caller) ∈ st.members
      · rw [answer, perform, fileThumb_of_member hrow hmember]
        cases hserve : st.files.serveThumbnail render "File not found" maxFileBytes
            row.storedName with
        | error e =>
            rw [MediaDir.serveThumbnail_error hserve]
            exact Or.inr rfl
        | ok r => exact Or.inl ⟨r.2, serves_original hsha hi.files hpic ho hserve, rfl⟩
      · -- Nor is an attachment of a room that the caller is not in.
        have hvisible : st.visibleFile caller id = .error (.notFound "File not found") := by
          simp [visibleFile, hrow, hmember, ensure, orRefuse, bind, Except.bind]
        rw [answer, perform, fileThumb, hvisible]
        exact Or.inr rfl
  | _ => cases ht

/-- A request that meets the condition, on a store with the invariant. -/
theorem sound_of_inv (hsha : Function.Injective sha256) (st : MediaStore δ) (c : MediaCall δ)
    (hi : st.Inv sha256 render) (ha : st.Apart sha256 render c) : st.Sound sha256 render c :=
  ⟨showsOriginal hsha hi c, (tends_act hsha hi c ha).files, (tends_act hsha hi c ha).images⟩

/-- Where the names of pictures and of videos with the same bytes are kept apart, thumbnails
    show their originals, and frames last as long as what they were posted for. -/
theorem thumbnails_sound (hsha : Function.Injective sha256) (calls : List (MediaCall δ))
    (ha : Run.Along (act sha256 render) (Apart sha256 render) empty calls) :
    Run.Along (act sha256 render) (Sound sha256 render) empty calls :=
  Run.along_of_inv (fun _ c hi ha => (tends_act hsha hi c ha).inv)
    (sound_of_inv hsha) empty calls inv_empty ha

end MediaStore

namespace Sample

def frame : List UInt8 := [0x89, 0x50, 0x4E, 0x47]

def clip : List UInt8 := [0, 0, 0, 0x18]

/-- A renderer that knows a portable network graphic when it sees one. -/
def renderer (bytes : List UInt8) : Option (List UInt8) :=
  if frame.isPrefixOf bytes then some ([0xFF, 0xD8, 0xFF] ++ bytes.drop 4) else none

/-- The same bytes in two rooms, under the names of a picture and of two videos. -/
def reels : List (MediaCall (List UInt8)) :=
  [.join team alice, .join lobby bob,
   .uploadImage "image/png" (frame ++ [1]), .thumb ⟨frame ++ [1], "png"⟩,
   .uploadFile alice team "clip.webm" clip, .uploadFile bob lobby "clip.mp4" clip]

/-- A frame is posted for a video, and then its bytes are uploaded as a picture. -/
def repainted : List (MediaCall (List UInt8)) :=
  [.uploadImage "video/mp4" clip, .postFrame ⟨clip, "mp4"⟩ frame, .uploadImage "image/png" clip,
   .thumb ⟨clip, "png"⟩]

/-- Of two videos with the same bytes one goes, and takes the frame of the other with it. -/
def robbed : List (MediaCall (List UInt8)) :=
  reels ++ [.postFileFrame bob 1 frame, .destroyRoom team]

open MediaStore in
theorem thumbnails_sound_reels :
    Run.Along (act id renderer) (MediaStore.Sound id renderer) empty
      (reels ++ [.destroyRoom lobby, .postFileFrame alice 0 frame, .fileThumb alice 0]) :=
  thumbnails_sound Function.injective_id _ (by decide +kernel)

open MediaStore in
/-- A picture for which a posted frame is served, and a frame that goes with another video. -/
theorem thumbnails_crossed :
    ¬ Run.Along (act id renderer) (MediaStore.Sound id renderer) empty repainted ∧
      ¬ Run.Along (act id renderer) (MediaStore.Sound id renderer) empty robbed := by
  decide +kernel

end Sample

end PocketSkynet
