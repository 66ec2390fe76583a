import Mathlib.Data.List.Sort
import Mathlib.Data.Rat.Floor
import Mathlib.Tactic.Linarith
import PocketSkynet.Server.UploadSession

/-!
# The Client's Side of a Chunked Upload

The client sends a file chunk by chunk and sees nothing of the server but answers,
any of which may be lost. While an append is in flight it asks on the side where the
server is; when one has failed it asks again and goes on from there; and when the
answer of the finish has not come it looks in the room's list for what the upload has
become. Chunk sizes are halved and doubled as fractions, exactly, and a slice of the
file rounds its end to a whole byte.

The client and what it asks about are one system, driven by events: an answer to the
request that is outstanding, an answer to a status request on the side, and what
happens on the server meanwhile. An answer may be anything at all, except that a
finish reports only what the server has made of the session. Counters of requests and
of rounds are kept beside the state and nothing reads them.

## Main definitions

* `Upload`: What is uploaded, and where to.
* `NetReply`: What becomes of a request.
* `Transfer`, `TransferPhase`: The client at one moment, and the server's rows.
* `TransferEvent`, `Transfer.step`: What happens next.
* `Transfer.launch`: The start of `upload_in_chunks`.
-/

namespace PocketSkynet

/-- The ceiling, mirrored from the server. -/
def clientMaxUploadBytes : Nat := 4 * 1024 * 1024 * 1024 - 1

/-- The chunk size when the server does not name one. -/
def fallbackChunk : Nat := 500 * 1024

/-- Where the halving stops. -/
def minChunk : ℚ := 128 * 1024

/-- Where a transfer starts, before the link has proven anything. -/
def initialChunk : ℚ := 2 * 1024 * 1024

/-- How many times the client asks where the server is after a failed chunk. -/
def chunkAttempts : Nat := 4

/-- How many times a finish is attempted. -/
def finishAttempts : Nat := 3

def requestTimeoutMs : Nat := 45000

/-- How often the server is asked on the side. -/
def probeIntervalMs : Nat := 15000

/-- The clock of an append: the control bound and the body at the floor rate. -/
def appendTimeoutMs (bytes : Nat) : Nat := requestTimeoutMs + bytes / 131

/-- The clock of a finish. -/
def finishTimeoutMs (size : Nat) : Nat := requestTimeoutMs + size / 10485

/-- The message of a request that its clock has ended. -/
def timedOut : String := "The request timed out"

/-- What a request can fail with. -/
inductive ClientError where
  | network (message : String)
  | status (code : Nat)
  | decode
deriving DecidableEq, Repr

/-- What the server has made of an upload, as a list shows it. -/
structure UploadedRow (δ : Type) where
  id : Nat
  filename : String
  sizeBytes : Nat
  createdAt : Nat
  digest : δ
deriving DecidableEq, Repr

/-- What is uploaded, and where to. -/
structure Upload (δ : Type) where
  kind : UploadKind
  filename : String
  size : Nat
  digest : δ

/-- What becomes of a request: an answer that can be read, an error, or an answer whose
    body never comes. -/
inductive NetReply where
  | view (view : SessionView)
  | ack (offset : Nat)
  | created
  | listed
  | failed (error : ClientError)
  | hangs
deriving DecidableEq, Repr

/-- An append in flight: where its chunk begins and ends, how often the server has been
    asked since, and whether its clock is still running. -/
structure Attempt where
  offset : Nat
  stop : ℚ
  probes : Nat
  clock : Bool
deriving DecidableEq, Repr

/-- What the client is waiting for. -/
inductive TransferPhase (δ : Type) where
  | resuming
  | beginning
  | appending (attempt : Attempt)
  | recovering (tries : Nat) (error : ClientError)
  | finishing (attempts : Nat) (answerLost : Bool) (probes : Nat) (clock : Bool)
  | adopting
  | ended (result : Except ClientError (UploadedRow δ))
  | stuck
deriving DecidableEq

/-- The client, what the server has made of the session (`own`) and what is in the room
    (`listing`). `base` and `mark` are the offset the transfer began at and the highest
    one so far, `stale` the rounds since it rose. -/
structure Transfer (δ : Type) where
  phase : TransferPhase δ
  ceiling : Nat
  chunk : ℚ
  offset : Nat
  own : List (UploadedRow δ)
  listing : List (UploadedRow δ)
  requests : Nat
  base : Nat
  mark : Nat
  stale : Nat
deriving DecidableEq

/-- What happens next: to the request that is outstanding, to a status request on the
    side, or on the server. -/
inductive TransferEvent (δ : Type) where
  | answer (reply : NetReply)
  | probe (reply : NetReply)
  | commits (id createdAt : Nat)
  | others (row : UploadedRow δ)
  | removed (id : Nat)
deriving DecidableEq

/-- A slice's end as a whole number, rounded to the nearest one and to an even one from
    half way. -/
def clampLongLong (x : ℚ) : ℤ :=
  if x - ⌊x⌋ < 1 / 2 then ⌊x⌋
  else if 1 / 2 < x - ⌊x⌋ then ⌊x⌋ + 1
  else if ⌊x⌋ % 2 = 0 then ⌊x⌋
  else ⌊x⌋ + 1

/-- How many bytes the chunk of an append has. -/
def Attempt.part (a : Attempt) : Nat := (clampLongLong a.stop).toNat - a.offset

namespace NetReply

/-- Read the answer of a `begin` or a status request. -/
def asView : NetReply → Except ClientError SessionView
  | view v => .ok v
  | failed e => .error e
  | _ => .error .decode

/-- Read the answer of an append. -/
def asAck : NetReply → Except ClientError Nat
  | ack offset => .ok offset
  | failed e => .error e
  | _ => .error .decode

end NetReply

/-- The last of the newest rows. -/
def lastNewest {δ : Type} : List (UploadedRow δ) → Option (UploadedRow δ)
  | [] => none
  | row :: rows =>
      match lastNewest rows with
      | some best => if best.createdAt < row.createdAt then some row else some best
      | none => some row

namespace Upload

variable {δ : Type} (up : Upload δ)

/-- A row of the room that may be the one this upload has become. -/
def looksLike (row : UploadedRow δ) : Bool :=
  row.filename == up.filename && row.sizeBytes == up.size

/-- The last of the rows that look like the upload and are newest. -/
def newestMatch (rows : List (UploadedRow δ)) : Option (UploadedRow δ) :=
  lastNewest (rows.filter up.looksLike)

end Upload

namespace Transfer

variable {δ : Type} (up : Upload δ)

/-- The server's list of the room: the newest hundred attachments, newest first, and of
    the same time the one inserted last. -/
def page (t : Transfer δ) : List (UploadedRow δ) :=
  (t.listing.reverse.insertionSort fun a b => b.createdAt ≤ a.createdAt).take 100

/-- Wait for something else, without a request. -/
def goto (t : Transfer δ) (phase : TransferPhase δ) : Transfer δ := { t with phase := phase }

/-- Send a request and wait for its answer. -/
def send (t : Transfer δ) (phase : TransferPhase δ) : Transfer δ :=
  { t with phase := phase, requests := t.requests + 1 }

/-- The head of the loop: the next chunk, or the finish. -/
def loop (t : Transfer δ) : Transfer δ :=
  if t.offset < up.size then
    t.send (.appending ⟨t.offset, min (t.offset + t.chunk) up.size, 0, true⟩)
  else t.send (.finishing finishAttempts false 0 true)

/-- The transfer begins where the session stands. -/
def opened (t : Transfer δ) (v : SessionView) : Transfer δ :=
  let ceiling := if 0 < v.chunkSize then v.chunkSize else fallbackChunk
  loop up { t with
    ceiling := ceiling, chunk := min ceiling initialChunk, offset := v.offset,
    base := v.offset, mark := v.offset, stale := 0 }

/-- A round of the loop ends with the offset the server is at. -/
def land (t : Transfer δ) (offset : Nat) : Transfer δ :=
  loop up { t with
    offset := offset, mark := max t.mark offset,
    stale := if t.mark < offset then 0 else t.stale + 1 }

/-- An append has failed: ask for less if it has timed out, and ask the server where it
    is. -/
def failAppend (t : Transfer δ) (e : ClientError) : Transfer δ :=
  send
    { t with chunk :=
        if e = .network timedOut then min (max (t.chunk / 2) minChunk) t.ceiling else t.chunk }
    (.recovering chunkAttempts e)

/-- Look for what the upload has become in the room's list, if there is one. -/
def adopt (t : Transfer δ) : Transfer δ :=
  match up.kind with
  | .file => t.send .adopting
  | _ => t.goto (.ended (.error (.network
      "The upload finished, but its answer was lost — please try again")))

/-- A finish has failed. -/
def failFinish (t : Transfer δ) (attempts : Nat) (answerLost : Bool) : ClientError → Transfer δ
  | .network _ =>
      if attempts ≤ 1 then t.goto (.ended (.error (.network timedOut)))
      else t.send (.finishing (attempts - 1) true 0 true)
  | .status code =>
      if code = 404 ∧ answerLost then t.adopt up else t.goto (.ended (.error (.status code)))
  | .decode => t.goto (.ended (.error .decode))

/-- The request that is outstanding comes to something. -/
def answer (t : Transfer δ) (reply : NetReply) : Transfer δ :=
  match t.phase with
  | .resuming =>
      if reply = .hangs then t.goto .stuck
      else
        match reply.asView with
        | .ok v => if v.size = up.size then t.opened up v else t.send .beginning
        | .error _ => t.send .beginning
  | .beginning =>
      if reply = .hangs then t.goto .stuck
      else
        match reply.asView with
        | .ok v => t.opened up v
        | .error e => t.goto (.ended (.error e))
  | .appending a =>
      if reply = .hangs then t.goto (.appending { a with clock := false })
      else
        match reply.asAck with
        | .ok next => land up { t with chunk := min (t.chunk * 2) t.ceiling } next
        | .error e => t.failAppend e
  | .recovering tries e =>
      if reply = .hangs then t.goto .stuck
      else
        match reply.asView with
        | .ok v => t.land up v.offset
        | .error e' =>
            -- The session is gone, or it was the last try.
            if e' = .status 404 ∨ tries ≤ 1 then t.goto (.ended (.error e))
            else t.send (.recovering (tries - 1) e)
  | .finishing attempts answerLost probes _ =>
      match reply with
      | .hangs => t.goto (.finishing attempts answerLost probes false)
      -- The server reports what it has made of the session, and only that.
      | .created =>
          match t.own.getLast? with
          | some row => t.goto (.ended (.ok row))
          | none => t
      | .failed e => t.failFinish up attempts answerLost e
      | _ => t.failFinish up attempts answerLost .decode
  | .adopting =>
      match reply with
      | .hangs => t.goto .stuck
      | .listed =>
          match up.newestMatch t.page with
          | some row => t.goto (.ended (.ok row))
          | none => t.goto (.ended (.error (.network
              "The upload finished, but its record could not be found")))
      | .failed e => t.goto (.ended (.error e))
      | _ => t.goto (.ended (.error .decode))
  | .ended _ | .stuck => t

/-- Another status request is due before the clock has run out. -/
def due (clock : Bool) (probes timeout : Nat) : Bool :=
  !clock || (probes + 1) * probeIntervalMs ≤ timeout

/-- A status request on the side, or the clock that runs out before it is due. -/
def probe (t : Transfer δ) (reply : NetReply) : Transfer δ :=
  match t.phase with
  | .appending a =>
      if due a.clock a.probes (appendTimeoutMs a.part) then
        match reply.asView with
        | .ok v =>
            if a.stop ≤ v.offset then land up { t with requests := t.requests + 1 } v.offset
            else t.send (.appending { a with probes := a.probes + 1 })
        | .error _ => t.send (.appending { a with probes := a.probes + 1 })
      else t.failAppend (.network timedOut)
  | .finishing attempts answerLost probes clock =>
      if due clock probes (finishTimeoutMs up.size) then
        if reply.asView = .error (.status 404) then adopt up { t with requests := t.requests + 1 }
        else t.send (.finishing attempts answerLost (probes + 1) clock)
      else t.failFinish up attempts answerLost (.network timedOut)
  | _ => t

/-- What happens next. A commit makes a row of what the server has verified. -/
def step (t : Transfer δ) : TransferEvent δ → Transfer δ
  | .answer reply => t.answer up reply
  | .probe reply => t.probe up reply
  | .commits id createdAt =>
      let row : UploadedRow δ := ⟨id, up.filename, up.size, createdAt, up.digest⟩
      { t with
        own := t.own ++ [row]
        listing := if up.kind = .file then t.listing ++ [row] else t.listing }
  | .others row => { t with listing := t.listing ++ [row] }
  | .removed id => { t with listing := t.listing.filter fun row => row.id ≠ id }

/-- The start of an upload, with an earlier attempt to resume or without. -/
def launch (stored : Bool) (listing : List (UploadedRow δ)) : Transfer δ :=
  let t : Transfer δ := ⟨.beginning, 0, 0, 0, [], listing, 0, 0, 0, 0⟩
  if up.size = 0 then t.goto (.ended (.error (.network "The file is empty")))
  else if clientMaxUploadBytes < up.size then
    t.goto (.ended (.error (.network "The file is larger than the 4 GB limit")))
  else if stored then t.send .resuming
  else t.send .beginning

end Transfer

end PocketSkynet
