import PocketSkynet.Core.Api
import PocketSkynet.Lib.Interleave

/-!
# A Chunked Upload Session

A large file arrives in chunks. The session is a row that counts the bytes it has
acknowledged and a temp file that holds them, and the two are not written in one
step. An append claims its offset with a conditional update and then writes to the
end of the temp file, wherever that is; a finish measures and hashes the file some
time after it has read the row. The requests on one session are processes that take
one database call or one file operation per step.

What may go wrong outside the program is the input of a step. A step may report an
error and have done nothing, a write may stop after any number of bytes, and a
write that was accepted may turn out not to have reached the file when it is
flushed. The checks a finaliser makes on other tables, the membership, the number
of sites and what the chain says of the payment among them, are such steps too.

## Main definitions

* `UploadSession`, `UploadStore`: The row, and everything the requests share.
* `Outcome`: What a step meets.
* `UploadCall`, `UploadTask`: A request, and how far it has got.
* `UploadTask.advance`: The next step of a request.
* `Uploads`: The session with the requests on it.

## Theorems

* `ownedSession_eq_ok`, `checkChunk_eq_ok`: What a request that goes on has found.
* `advance_of_moved`, `advance_of_not_moved`: What the conditional update does.
-/

namespace PocketSkynet

/-- What an upload becomes. -/
inductive UploadKind where
  | file
  | image
  | site
deriving DecidableEq, Repr

/-- The largest chunk. -/
def maxChunkBytes : Nat := 16 * 1024 * 1024

/-- What `begin` tells the client to use. -/
def suggestedChunkBytes : Nat := 500 * 1024

/-- A session row, as far as its requests read it. -/
structure UploadSession (δ : Type) where
  owner : WalletAddress
  kind : UploadKind
  declaredSize : Nat
  received : Nat
  sha256 : Option δ
deriving DecidableEq, Repr

/-- Where the upload stands, as the server tells it. -/
structure SessionView where
  offset : Nat
  size : Nat
  chunkSize : Nat
deriving DecidableEq, Repr

/-- What an upload has been turned into. An attachment row has an id of its own; an
    image is the file its digest names. -/
inductive Resource (δ : Type) where
  | attachment (id : Nat) (stored : δ)
  | image (stored : δ)
  | site
deriving DecidableEq, Repr

/-- What the requests on one session share: its row and its temp file, the digests
    stored where its kind goes, whether the payment of a site has been used, and
    what has been created from the session so far. -/
structure UploadStore (δ : Type) where
  row : Option (UploadSession δ)
  temp : Option (List UInt8)
  stored : List δ
  spent : Bool
  created : List (Resource δ)
deriving DecidableEq, Repr

/-- What a step meets. `fails` is an error of the database or of the disk and
    `refused` the answer of a check, and both have done nothing; `stops` and
    `unflushed` are writes of which only so many bytes reach the file, noticed at once
    or at the flush. -/
inductive Outcome where
  | ok
  | fails
  | refused (error : ApiError)
  | stops (written : Nat)
  | unflushed (written : Nat)
deriving DecidableEq, Repr

/-- What a request on a session is answered with. -/
inductive UploadReply (δ : Type) where
  | appended (offset size : Nat)
  | view (view : SessionView)
  | created (resource : Resource δ)
  | noContent
deriving DecidableEq, Repr

/-- A request on the session, or a round of the sweep. -/
inductive UploadCall where
  | append (caller : WalletAddress) (offset : Option Nat) (body : List UInt8)
  | status (caller : WalletAddress)
  | finish (caller : WalletAddress)
  | abort (caller : WalletAddress)
  | sweep
deriving DecidableEq, Repr

/-- How far a request has got, with what it has read. -/
inductive UploadTask (δ : Type) where
  -- `PATCH /uploads/{id}`
  | appendRead (caller : WalletAddress) (offset : Option Nat) (body : List UInt8)
  | appendAdvance (caller : WalletAddress) (session : UploadSession δ) (body : List UInt8)
  | appendReread (caller : WalletAddress)
  | appendWrite (session : UploadSession δ) (body : List UInt8)
  | appendRollback (session : UploadSession δ) (body : List UInt8)
  -- `GET /uploads/{id}`
  | statusRead (caller : WalletAddress)
  | statusTouch (session : UploadSession δ)
  -- `POST /uploads/{id}/finish`
  | finishRead (caller : WalletAddress)
  | finishHash (session : UploadSession δ)
  | finalCheck (session : UploadSession δ) (digest : δ)
  | finalPlace (session : UploadSession δ) (digest : δ)
  | finalInsert (session : UploadSession δ) (digest : δ)
  | siteUnpack (session : UploadSession δ)
  | siteVerify (session : UploadSession δ)
  | siteBurn (session : UploadSession δ)
  | siteWrite (session : UploadSession δ)
  | siteInsert (session : UploadSession δ)
  | siteIndex (session : UploadSession δ)
  -- the end of a session, with the answer that follows it
  | discardFile (answer : Except ApiError (UploadReply δ))
  | discardRow (answer : Except ApiError (UploadReply δ))
  -- `DELETE /uploads/{id}` and the sweep
  | abortRead (caller : WalletAddress)
  | sweepList
  | answered (answer : Except ApiError (UploadReply δ))
deriving DecidableEq

namespace UploadSession

variable {δ : Type}

/-- A 409 that carries the offset the client should resume from. -/
def offsetConflict (s : UploadSession δ) : ApiError :=
  .plainConflict ("Upload is at offset " ++ toString s.received ++ "; resume from there")

def view (s : UploadSession δ) : SessionView := ⟨s.received, s.declaredSize, suggestedChunkBytes⟩

/-- The checks on a chunk, made before anything is written. -/
def checkChunk (s : UploadSession δ) (offset : Option Nat) (body : List UInt8) :
    Except ApiError Unit := do
  ensure (!body.isEmpty) (.badRequest "Empty chunk")
  let offset ← orRefuse offset (.badRequest "offset is required")
  ensure (offset == s.received) s.offsetConflict
  ensure (decide (offset + body.length < 2 ^ 64)) (.badRequest "Chunk overflows the file")
  ensure (decide (offset + body.length ≤ s.declaredSize))
    (.badRequest "Chunk would write past the declared file size")

/-- The check on the row with which a finish begins. -/
def checkComplete (s : UploadSession δ) : Except ApiError Unit :=
  ensure (s.received == s.declaredSize)
    (.badRequest ("Upload is incomplete: " ++ toString s.received ++ " of " ++
      toString s.declaredSize ++ " bytes received"))

theorem checkChunk_eq_ok {s : UploadSession δ} {offset : Option Nat} {body : List UInt8}
    (h : s.checkChunk offset body = .ok ()) :
    body ≠ [] ∧ offset = some s.received ∧ s.received + body.length ≤ s.declaredSize := by
  simp only [checkChunk, bind_eq_ok, ensure_eq_ok, orRefuse_eq_ok] at h
  rcases h with ⟨-, hbody, o, ho, -, hoff, -, -, hend⟩
  have hreceived : o = s.received := by simpa using hoff
  subst hreceived
  refine ⟨?_, ho, by simpa using hend⟩
  rintro rfl
  simp at hbody

theorem checkChunk_ok {s : UploadSession δ} {body : List UInt8} (hne : body ≠ [])
    (hend : s.received + body.length ≤ s.declaredSize) (hsize : s.declaredSize < 2 ^ 64) :
    s.checkChunk (some s.received) body = .ok () := by
  have hbound : s.received + body.length < 2 ^ 64 := by omega
  cases body with
  | nil => exact absurd rfl hne
  | cons b bs =>
      simp only [List.length_cons, Nat.reducePow] at hend hbound
      simp [checkChunk, ensure, orRefuse, hend, hbound, bind, Except.bind]

end UploadSession

namespace UploadStore

variable {δ : Type}

/-- Load the session and prove that the caller owns it. -/
def ownedSession (st : UploadStore δ) (caller : WalletAddress) :
    Except ApiError (UploadSession δ) := do
  let session ← orRefuse st.row (.notFound "Upload not found")
  ensure (session.owner == caller) (.notFound "Upload not found")
  return session

/-- Move the offset, but only if it still is where it was. -/
def advance (st : UploadStore δ) (start : Nat) (written : Int) : UploadStore δ :=
  match st.row with
  | some s =>
      if s.received = start then
        { st with row := some { s with received := (s.received + written).toNat } }
      else st
  | none => st

/-- The row was where the update expected it. -/
def moved (st : UploadStore δ) (start : Nat) : Bool :=
  match st.row with
  | some s => s.received == start
  | none => false

theorem advance_of_moved {st : UploadStore δ} {start : Nat} (written : Int)
    (h : st.moved start = true) : ∃ s, st.row = some s ∧ s.received = start ∧
      st.advance start written =
        { st with row := some { s with received := (s.received + written).toNat } } := by
  cases hrow : st.row with
  | none => simp [moved, hrow] at h
  | some s =>
      have hstart : s.received = start := by simpa [moved, hrow] using h
      exact ⟨s, rfl, hstart, by simp [advance, hrow, hstart]⟩

theorem advance_of_not_moved {st : UploadStore δ} {start : Nat} (written : Int)
    (h : st.moved start = false) : st.advance start written = st := by
  cases hrow : st.row with
  | none => simp [advance, hrow]
  | some s =>
      have hstart : s.received ≠ start := by simpa [moved, hrow] using h
      simp [advance, hrow, hstart]

theorem ownedSession_eq_ok {st : UploadStore δ} {caller : WalletAddress} {s : UploadSession δ}
    (h : st.ownedSession caller = .ok s) : st.row = some s ∧ s.owner = caller := by
  simp only [ownedSession, bind_eq_ok, orRefuse_eq_ok, ensure_eq_ok, pure_eq_ok] at h
  rcases h with ⟨s', hrow, -, howner, rfl⟩
  exact ⟨hrow, by simpa using howner⟩

theorem ownedSession_ok {st : UploadStore δ} {s : UploadSession δ} (hrow : st.row = some s) :
    st.ownedSession s.owner = .ok s := by
  simp [ownedSession, hrow, orRefuse, ensure, bind, Except.bind, pure, Except.pure]

end UploadStore

namespace UploadTask

variable {δ : Type} [DecidableEq δ]

/-- Where a request starts. -/
def enter : UploadCall → UploadTask δ
  | .append caller offset body => appendRead caller offset body
  | .status caller => statusRead caller
  | .finish caller => finishRead caller
  | .abort caller => abortRead caller
  | .sweep => sweepList

/-- An error of the database or of the disk. -/
def broken : UploadTask δ := answered (.error (.internal "database or disk"))

/-- Go on with what a check has found, or answer with its error. -/
def orAnswer {α : Type} (x : Except ApiError α) (next : α → UploadTask δ) : UploadTask δ :=
  match x with
  | .ok a => next a
  | .error e => answered (.error e)

/-- What a write leaves in the temp file, and where the append goes from it. -/
def write (x : Outcome) (st : UploadStore δ) (s : UploadSession δ) (body : List UInt8) :
    UploadStore δ × UploadTask δ :=
  match st.temp, x with
  -- The file cannot be opened. The row stays where the claim has put it.
  | none, _ | some _, .fails | some _, .refused _ =>
      (st, answered (.error (.notFound "Upload not found")))
  | some bytes, .ok =>
      ({ st with temp := some (bytes ++ body) },
        answered (.ok (.appended (s.received + body.length) s.declaredSize)))
  | some bytes, .stops n =>
      ({ st with temp := some (bytes ++ body.take n) }, appendRollback s body)
  | some bytes, .unflushed n => ({ st with temp := some (bytes ++ body.take n) }, broken)

/-- What a finish does once it has the digest and the length of the temp file. -/
def judge (s : UploadSession δ) (digest : δ) (size : Nat) : UploadTask δ :=
  if size ≠ s.declaredSize then
    discardFile (.error (.internal ("assembled upload is " ++ toString size ++
      " bytes, expected " ++ toString s.declaredSize)))
  else if s.sha256.all (· = digest) then finalCheck s digest
  else discardFile (.error (.badRequest
    "Uploaded data does not match the declared sha256 checksum"))

/-- Move the temp file to where its digest names it. If a file is there already the
    temp file is removed instead, and whether that works is not looked at. -/
def place (x : Outcome) (st : UploadStore δ) (s : UploadSession δ) (digest : δ) :
    UploadStore δ × UploadTask δ :=
  if digest ∈ st.stored then
    ({ st with temp := if x = .ok then none else st.temp }, finalInsert s digest)
  else if x = .ok ∧ st.temp.isSome then
    ({ st with temp := none, stored := st.stored ++ [digest] }, finalInsert s digest)
  else (st, broken)

/-- Go on if a check has passed, or answer with what it refuses with. -/
def orRefusal (x : Outcome) (next : UploadTask δ) : UploadTask δ :=
  match x with
  | .ok => next
  | .refused e => answered (.error e)
  | _ => broken

/-- Make the attachment row, or report the image that the file is. -/
def insert (st : UploadStore δ) (s : UploadSession δ) (digest : δ) :
    UploadStore δ × UploadTask δ :=
  match s.kind with
  | .file =>
      let r := Resource.attachment st.created.length digest
      ({ st with created := st.created ++ [r] }, discardFile (.ok (.created r)))
  | _ =>
      let r := Resource.image digest
      ({ st with created := st.created.insert r }, discardFile (.ok (.created r)))

/-- The next step of a request that meets `x`. An error of the database or of the
    disk ends it, unless the source ignores the error or undoes a step first. -/
def advance (sha256 : List UInt8 → δ) (x : Outcome) (st : UploadStore δ) :
    UploadTask δ → UploadStore δ × UploadTask δ
  | appendRead caller offset body =>
      if x = .ok then
        (st, orAnswer (st.ownedSession caller) fun s =>
          orAnswer (s.checkChunk offset body) fun _ => appendAdvance caller s body)
      else (st, broken)
  | appendAdvance caller s body =>
      if x = .ok then
        (st.advance s.received body.length,
          if st.moved s.received then appendWrite s body else appendReread caller)
      else (st, broken)
  | appendReread caller =>
      if x = .ok then
        (st, orAnswer (st.ownedSession caller) fun s => answered (.error s.offsetConflict))
      else (st, broken)
  | appendWrite s body => write x st s body
  | appendRollback s body =>
      -- An error of the update is ignored, and so is a row that has moved on.
      (if x = .ok then st.advance (s.received + body.length) (-(body.length : Int)) else st,
        broken)
  | statusRead caller =>
      if x = .ok then (st, orAnswer (st.ownedSession caller) statusTouch) else (st, broken)
  | statusTouch s => (st, if x = .ok then answered (.ok (.view s.view)) else broken)
  | finishRead caller =>
      if x = .ok then
        (st, orAnswer (st.ownedSession caller) fun s =>
          orAnswer s.checkComplete fun _ => finishHash s)
      else (st, broken)
  | finishHash s =>
      match st.temp with
      | some bytes => (st, if x = .ok then judge s (sha256 bytes) bytes.length else broken)
      | none => (st, broken)
  | finalCheck s digest =>
      -- Membership, media type and size, or the title, the hash and the site count.
      (st, orRefusal x (if s.kind = .site then siteUnpack s else finalPlace s digest))
  | finalPlace s digest => place x st s digest
  | finalInsert s digest =>
      -- Only an attachment has a row, so only its insert can fail.
      if x = .ok ∨ s.kind ≠ .file then insert st s digest else (st, broken)
  | siteUnpack s => (st, if st.temp.isSome then orRefusal x (siteVerify s) else broken)
  | siteVerify s => (st, orRefusal x (siteBurn s))
  | siteBurn s =>
      if x ≠ .ok then (st, broken)
      else if st.spent then
        (st, answered (.error (.plainConflict
          "This transaction has already been used for a paid feature")))
      else ({ st with spent := true }, siteWrite s)
  | siteWrite s => (st, if x = .ok then siteInsert s else broken)
  | siteInsert s =>
      if x = .ok then ({ st with created := st.created ++ [.site] }, siteIndex s)
      else (st, broken)
  | siteIndex _ => (st, if x = .ok then discardFile (.ok (.created .site)) else broken)
  | discardFile answer =>
      ({ st with temp := if x = .ok then none else st.temp }, discardRow answer)
  | discardRow answer => ({ st with row := if x = .ok then none else st.row }, answered answer)
  | abortRead caller =>
      if x = .ok then
        (st, orAnswer (st.ownedSession caller) fun _ => discardFile (.ok .noContent))
      else (st, broken)
  | sweepList =>
      -- The row is listed only if it has been silent for long enough.
      match st.row with
      | some _ => (st, if x = .ok then discardFile (.ok .noContent) else answered (.ok .noContent))
      | none => (st, answered (.ok .noContent))
  | answered answer => (st, answered answer)

end UploadTask

/-- A session with the requests on it. -/
abbrev Uploads (δ : Type) := Pool (UploadStore δ) (UploadTask δ)

namespace Uploads

variable {δ : Type} [DecidableEq δ]

/-- The session after a turn. -/
abbrev step (sha256 : List UInt8 → δ) (p : Uploads δ) (turn : Turn UploadCall Outcome) :
    Uploads δ :=
  Pool.step UploadTask.enter (UploadTask.advance sha256) p turn

end Uploads

end PocketSkynet
