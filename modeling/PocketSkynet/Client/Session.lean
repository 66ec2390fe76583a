import PocketSkynet.Client.Drain
import PocketSkynet.Lib.Run

/-!
# A Room and One of Its Clients

The stream of a room beside the state of one client. The room takes writes from
anybody; the client asks for sync pages and for history pages, each answered by
the stream as it stands. What holds in every state of such a session, whatever
the writes are, is collected here.

## Main definitions

* `Session`: A stream and one client's state.
* `Session.Act`: A write, a sync page, or a history page.
* `Session.start`: A new room and a client that knows nothing of it.
* `Session.after`, `Session.drain`: A run, and the drain at its end.

## Theorems

* `sound_after`: Streams stay ordered and clients keep one row per id.
-/

namespace PocketSkynet

/-- A room's stream and one client of it. -/
structure Session where
  stream : Stream
  client : RoomState
deriving DecidableEq

/-- Blocking nobody. -/
def nobody : WalletAddress → Bool := fun _ => false

namespace Session

/-- What can happen: somebody writes, or the client asks for a page. -/
inductive Act where
  | write (m : Mutation)
  | sync
  | history (before limit : Nat) (hasMore : Bool)
deriving DecidableEq, Repr

/-- One act. The client is sent what `hides` lets through. -/
def step (hides : WalletAddress → Bool) (σ : Session) : Act → Session
  | .write m => { σ with stream := σ.stream.apply m }
  | .sync =>
      { σ with client := σ.client.fold (σ.stream.syncMessages hides σ.client.cursor).1 }
  | .history before limit hasMore =>
      { σ with client := σ.client.takeHistory (σ.stream.getMessages hides before limit) hasMore }

/-- A room created at `now` that the client has not looked at. -/
def start (now : Nat) : Session := ⟨Stream.create now, RoomState.empty⟩

/-- The session after some acts on a new room. -/
def after (hides : WalletAddress → Bool) (now : Nat) (acts : List Act) : Session :=
  Run.run (step hides) (start now) acts

/-- What the client has still to be sent. -/
def pending (σ : Session) (hides : WalletAddress → Bool) : List Message :=
  σ.stream.pending hides σ.client.cursor

/-- The client after a drain that nobody's writes come between. -/
def drain (σ : Session) (hides : WalletAddress → Bool) (requests : Nat) : RoomState :=
  drainSync σ.stream hides requests σ.client.cursor σ.client

/-- What every session keeps. -/
structure Sound (σ : Session) : Prop where
  ordered : σ.stream.WellFormed
  keyed : Table.Keyed Message.id σ.client.messages

theorem sound_start {now : Nat} (h : 0 < now) : (start now).Sound :=
  ⟨Stream.wellFormed_create h, Table.keyed_nil⟩

theorem sound_step {hides : WalletAddress → Bool} (σ : Session) (a : Act) (h : σ.Sound) :
    (step hides σ a).Sound := by
  cases a with
  | write m => exact ⟨σ.stream.wellFormed_apply m h.ordered, h.keyed⟩
  | sync => exact ⟨h.ordered, RoomState.keyed_fold _ _ h.keyed⟩
  | history before limit hasMore => exact ⟨h.ordered, RoomState.keyed_mergeHistory _ _ h.keyed⟩

/-- Every session of a room that was created at a positive time is sound. -/
theorem sound_after {hides : WalletAddress → Bool} {now : Nat} (h : 0 < now) (acts : List Act) :
    (after hides now acts).Sound :=
  Run.run_inv sound_step _ acts (sound_start h)

end Session

end PocketSkynet
