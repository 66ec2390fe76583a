import PocketSkynet.Server.Hub
import PocketSkynet.Server.Sample

/-!
# Delivery over a Resumable Stream

One client and the server it listens to, with any number of publishers. A
publisher that has appended its event and not sent it yet is its envelope. The
client subscribes, is replayed what it missed, and then follows what is sent;
frames travel in order and are lost when the connection goes. It resumes from the
id of the last frame it received that had one.

Beside the state a run keeps the numbers of the events that the client is to see
and has not received: those published after its first subscription, without
what a `resync_required` that it received covers. `Faithful` says that none is
left once everything has come to rest, and that the ids of a stream increase.

What can go wrong is all about numbers that overtake each other. An event sent
late arrives behind a greater id, and if the client resumes in between, it never
arrives. An event that is replayed while it is still buffered or unsent arrives
twice. The frames the server makes up carry the newest number, and overtake what
is buffered. `InTurn` is the condition that a step does none of these.

## Main definitions

* `Frame`: An event on the wire.
* `SseStream`, `Feed`: The connection and the system.
* `Feed.step`: The steps.
* `Feed.InTurn`: The condition on a step.
* `Feed.Faithful`: Everything arrives, and once.

## Theorems

* `pending_append`: What new frames do to what is on its way.
* `inv_step`: Steps in turn keep everything missing on its way.
* `delivered_in_turn`: Every event is delivered, or the client resyncs.
* `overtaken_is_lost`: Two publishers and a reconnect lose an event.
-/

namespace PocketSkynet

/-- An event framed for one stream. `published` says that it is the event of the
    record of that number, not one made up for the stream. -/
structure Frame where
  seq : Nat
  event : ServerEvent
  published : Bool
deriving DecidableEq, Repr

namespace Frame

/-- Transient events carry no id. -/
def id (f : Frame) : Option Nat := if f.event.isReplayable then some f.seq else none

/-- What the client no longer misses when it has this frame. -/
def settles (f : Frame) (seq : Nat) : Bool :=
  if f.published then f.seq == seq
  else match f.event with
    | .resyncRequired _ _ toSeq => decide (seq ≤ toSeq)
    | _ => false

end Frame

/-- How far the stream's task has got. -/
inductive Phase where
  | opening (cursor : Option Nat)
  | live
  | ended
deriving DecidableEq, Repr

/-- A connection: the task's subscription, the frames under way, and the ids that
    the client has received on it. -/
structure SseStream where
  phase : Phase
  receiver : Receiver
  frames : List Frame
  ids : List Nat
deriving DecidableEq, Repr

/-- The server and one client. `missing` are the numbers of what the client is to
    see and has not received. -/
structure Feed where
  log : EventLog
  unsent : List Envelope
  stream : Option SseStream
  lastEventId : Option Nat
  subscribed : Bool
  missing : List Nat
deriving DecidableEq, Repr

/-- What can happen. -/
inductive FeedInput where
  /-- A record is appended. A publisher goes on to send it. -/
  | append (publication : Option (Target × Option WalletAddress × ServerEvent))
  /-- A publisher sends its event. -/
  | send (publisher : Nat)
  /-- The client connects: the stream registers and subscribes. -/
  | connect
  /-- The stream replays what was missed, if there is a cursor. -/
  | replay (refused : Bool)
  /-- The stream reads from its subscription. -/
  | recv (tokenExpired suspended : Bool)
  /-- The stream has reached the end of its lifetime. -/
  | deadline
  /-- The next frame reaches the client. -/
  | receive
  /-- The connection is lost. -/
  | disconnect
deriving DecidableEq, Repr

namespace SseStream

variable (view : ConnView) (me : WalletAddress) (log : EventLog)

/-- A new connection. -/
def opened (cursor : Option Nat) : SseStream := ⟨.opening cursor, ⟨[], 0⟩, [], []⟩

/-- Put a frame on the wire. -/
def emit (s : SseStream) (f : Frame) : SseStream := { s with frames := s.frames ++ [f] }

/-- The frame of an event somebody published. -/
def publishedFrame (env : Envelope) : Frame := ⟨env.seq, env.event, true⟩

/-- The task's first step: replay what the client has missed, or tell it that this
    cannot be done. -/
def replay (s : SseStream) (refused : Bool) : SseStream :=
  match s.phase with
  | .opening none => { s with phase := .live }
  | .opening (some cursor) =>
      match log.replaySince refused cursor view me with
      | some envelopes =>
          { s with phase := .live, frames := s.frames ++ envelopes.map publishedFrame }
      | none =>
          { s.emit ⟨log.laggedSeq, .resyncRequired .cursorTooOld cursor log.laggedSeq, false⟩ with
            phase := .live }
  | _ => s

/-- One turn of the task's loop in which it reads from its subscription. -/
def recv (s : SseStream) (tokenExpired suspended : Bool) : SseStream :=
  if s.phase ≠ .live then s
  else if 0 < s.receiver.missed then
    { s.emit ⟨log.laggedSeq, .resyncRequired .lagged 0 log.laggedSeq, false⟩ with
      receiver := ⟨s.receiver.buffer, 0⟩ }
  else match s.receiver.buffer with
    | [] => s
    | env :: rest =>
        let s := { s with receiver := ⟨rest, 0⟩ }
        if !view.accepts env me then s
        else if tokenExpired then
          { s.emit ⟨env.seq, .sessionExpired "token_expired", false⟩ with phase := .ended }
        else if suspended then
          { s.emit ⟨env.seq, .sessionExpired "suspended", false⟩ with phase := .ended }
        else s.emit (publishedFrame env)

/-- The turn in which the lifetime is up. -/
def deadline (s : SseStream) : SseStream :=
  if s.phase ≠ .live then s
  else { s.emit ⟨log.laggedSeq, .sessionExpired "stream_lifetime", false⟩ with phase := .ended }

/-- The stream has a cursor to replay from. -/
def resuming (s : SseStream) : Bool :=
  match s.phase with
  | .opening (some _) => true
  | _ => false

/-- The id is above all that the client has received and all that are under way. -/
def Above (s : SseStream) (id : Nat) : Prop := ∀ x ∈ s.ids ++ s.frames.filterMap Frame.id, x < id

end SseStream

namespace Feed

variable (view : ConnView) (me : WalletAddress)

/-- A fresh server, and a client that has not connected. -/
def start : Feed := ⟨.empty, [], none, none, false, []⟩

/-- The client is to see this event. -/
def owed (env : Envelope) : Bool := view.accepts env me && env.event.isReplayable

/-- The next frame reaches the client, which remembers its id. -/
def receive (w : Feed) : Feed :=
  match w.stream with
  | some s =>
      match s.frames with
      | [] => w
      | f :: rest =>
          { w with
            stream := some { s with frames := rest, ids := s.ids ++ f.id.toList }
            lastEventId := f.id.or w.lastEventId
            missing := w.missing.filter fun seq => !f.settles seq }
  | none => w

def step (w : Feed) : FeedInput → Feed
  | .append publication =>
      let envelope := publication.map fun p => (⟨w.log.nextSeq, p.1, p.2.1, p.2.2⟩ : Envelope)
      { w with
        log := w.log.append publication
        unsent := w.unsent ++ envelope.toList
        missing := w.missing ++ if w.subscribed && envelope.any (owed view me)
          then [w.log.nextSeq] else [] }
  | .send publisher =>
      match w.unsent[publisher]? with
      | some env =>
          { w with
            unsent := w.unsent.eraseIdx publisher
            stream := w.stream.map fun s => { s with receiver := s.receiver.push env } }
      | none => w
  | .connect => { w with stream := some (.opened w.lastEventId), subscribed := true }
  | .replay refused => { w with stream := w.stream.map fun s => s.replay view me w.log refused }
  | .recv tokenExpired suspended =>
      { w with stream := w.stream.map fun s => s.recv view me w.log tokenExpired suspended }
  | .deadline => { w with stream := w.stream.map fun s => s.deadline w.log }
  | .receive => w.receive
  | .disconnect => { w with stream := none }

/-- Nothing the client is to see is buffered or unsent. -/
def Quiet (w : Feed) : Prop :=
  (∀ s ∈ w.stream, ∀ env ∈ s.receiver.buffer, owed view me env = false) ∧
    ∀ env ∈ w.unsent, owed view me env = false

/-- The step does not let one number overtake another. Events the client is to see
    are sent in order while it is connected. It connects without a cursor only if
    it misses nothing. A stream replays when nothing it owes is buffered or
    unsent; it makes up a frame only then, too, and with an id of its own. -/
def InTurn (w : Feed) : FeedInput → Prop
  | .send publisher => ∀ s ∈ w.stream, s.phase ≠ .ended → ∀ env ∈ w.unsent[publisher]?,
      owed view me env = true → ∀ other ∈ w.unsent.eraseIdx publisher,
        owed view me other = true → env.seq < other.seq
  | .connect => w.lastEventId = none → w.missing = []
  | .replay _ => ∀ s ∈ w.stream, s.resuming = true → w.Quiet view me
  | .recv tokenExpired suspended => ∀ s ∈ w.stream, s.phase = .live →
      if 0 < s.receiver.missed then w.Quiet view me ∧ s.Above w.log.laggedSeq
      else ∀ env ∈ s.receiver.buffer.head?, view.accepts env me = true →
        (tokenExpired || suspended) = true → w.Quiet view me ∧ s.Above env.seq
  | .deadline => ∀ s ∈ w.stream, s.phase = .live →
      w.Quiet view me ∧ s.receiver.missed = 0 ∧ s.Above w.log.laggedSeq
  | _ => True

instance (s : SseStream) (id : Nat) : Decidable (s.Above id) :=
  inferInstanceAs (Decidable (∀ x ∈ _, x < id))

instance (w : Feed) : Decidable (w.Quiet view me) := inferInstanceAs (Decidable (_ ∧ _))

instance (w : Feed) : ∀ input, Decidable (w.InTurn view me input)
  | .append _ => .isTrue trivial
  | .send _ => inferInstanceAs (Decidable (∀ s ∈ w.stream, _ → ∀ env ∈ _, _ → ∀ other ∈ _, _ → _))
  | .connect => inferInstanceAs (Decidable (_ → _))
  | .replay _ => inferInstanceAs (Decidable (∀ s ∈ w.stream, _ → _))
  | .recv _ _ => inferInstanceAs (Decidable (∀ s ∈ w.stream, _ → ite _ _ _))
  | .deadline => inferInstanceAs (Decidable (∀ s ∈ w.stream, _ → _ ∧ _ ∧ _))
  | .receive => .isTrue trivial
  | .disconnect => .isTrue trivial

/-- Everything has come to rest: the client is connected, and nothing is unsent,
    buffered or under way. -/
def Settled (w : Feed) : Prop :=
  w.unsent = [] ∧ ∃ s ∈ w.stream, s.phase = .live ∧ s.receiver = ⟨[], 0⟩ ∧ s.frames = []

/-- What the client was to see has arrived once everything has come to rest, and
    the ids of a stream increase. -/
structure Faithful (w : Feed) : Prop where
  delivered : w.Settled → w.missing = []
  increasing : ∀ s ∈ w.stream, s.ids.Pairwise (· < ·)

end Feed

/-! ### What is on its way -/

/-- The client will still get what it misses under this number: one of the frames
    settles it and no frame before that has its id above it, or no frame at all
    has and there is something else to wait for. -/
def Pending (seq : Nat) : List Frame → Prop → Prop
  | [], rest => rest
  | f :: fs, rest => f.settles seq = true ∨ (∀ x ∈ f.id, x < seq) ∧ Pending seq fs rest

section Pending

variable {seq : Nat} {fs : List Frame} {rest rest' : Prop}

theorem pending_mono (h : rest → rest') (hp : Pending seq fs rest) : Pending seq fs rest' := by
  induction fs with
  | nil => exact h hp
  | cons f fs ih =>
      rcases hp with hf | ⟨hlt, hp⟩
      · exact Or.inl hf
      · exact Or.inr ⟨hlt, ih hp⟩

theorem pending_append (gs : List Frame) :
    Pending seq (fs ++ gs) rest ↔ Pending seq fs (Pending seq gs rest) := by
  induction fs with
  | nil => exact Iff.rfl
  | cons f fs ih =>
      constructor
      · intro hp
        rcases hp with hf | ⟨hlt, hp⟩
        · exact Or.inl hf
        · exact Or.inr ⟨hlt, ih.1 hp⟩
      · intro hp
        rcases hp with hf | ⟨hlt, hp⟩
        · exact Or.inl hf
        · exact Or.inr ⟨hlt, ih.2 hp⟩

-- A frame put on the wire settles what was waiting, or lets it wait on.
theorem pending_emit {f : Frame} (hp : Pending seq fs rest)
    (h : rest → f.settles seq = true ∨ (∀ x ∈ f.id, x < seq) ∧ rest') :
    Pending seq (fs ++ [f]) rest' :=
  (pending_append [f]).2 (pending_mono h hp)

theorem pending_of_above (h : ∀ x ∈ fs.filterMap Frame.id, x < seq) (hrest : rest) :
    Pending seq fs rest := by
  induction fs with
  | nil => exact hrest
  | cons f fs ih =>
      refine Or.inr ⟨fun x hx => h x ?_, ih fun x hx => h x ?_⟩
      · rw [Option.mem_def] at hx
        rw [List.filterMap_cons_some hx]
        exact List.mem_cons_self
      · rcases hid : f.id with _ | y
        · rwa [List.filterMap_cons_none hid]
        · rw [List.filterMap_cons_some hid]
          exact List.mem_cons_of_mem y hx

-- In a list of frames with increasing ids, a frame is reached.
theorem pending_of_mem {f : Frame} (hsorted : (fs.filterMap Frame.id).Pairwise (· < ·))
    (hf : f ∈ fs) (hid : f.id = some seq) (hsettles : f.settles seq = true) :
    Pending seq fs rest := by
  induction fs with
  | nil => cases hf
  | cons g fs ih =>
      rcases List.mem_cons.1 hf with rfl | hf
      · exact Or.inl hsettles
      · have hmem : seq ∈ fs.filterMap Frame.id := List.mem_filterMap.2 ⟨f, hf, hid⟩
        rcases hg : g.id with _ | y
        · rw [List.filterMap_cons_none hg] at hsorted
          refine Or.inr ⟨fun x hx => ?_, ih hsorted hf⟩
          rw [hg] at hx
          cases hx
        · rw [List.filterMap_cons_some hg] at hsorted
          rcases List.pairwise_cons.1 hsorted with ⟨hlt, hsorted⟩
          refine Or.inr ⟨fun x hx => ?_, ih hsorted hf⟩
          rw [hg] at hx
          cases hx
          exact hlt seq hmem

end Pending

/-! ### The invariant -/

namespace Feed

section

variable (view : ConnView) (me : WalletAddress)

/-- The numbers of what the client is to see among some events. -/
def owedSeqs (l : List Envelope) : List Nat := (l.filter (owed view me)).map Envelope.seq

/-- What a missing event can wait for behind the frames: the buffer, a publisher,
    the news that the buffer has overflowed, or a replay. -/
def Rest (w : Feed) (s : SseStream) (seq : Nat) : Prop :=
  match s.phase with
  | .opening (some _) => True
  | .ended => True
  | _ => seq ∈ owedSeqs view me s.receiver.buffer ∨ seq ∈ owedSeqs view me w.unsent ∨
      0 < s.receiver.missed

/-- Ids increase along a stream, the buffer and what is unsent, and what is
    missing is on its way. -/
structure StreamInv (w : Feed) (s : SseStream) : Prop where
  ids : (s.ids ++ s.frames.filterMap Frame.id).Pairwise (· < ·)
  bounded : s.Above w.log.nextSeq
  buffered : ∀ env ∈ s.receiver.buffer, env.seq < w.log.nextSeq
  opening : ∀ cursor, s.phase = .opening cursor →
    s.frames = [] ∧ s.ids = [] ∧ cursor = w.lastEventId
  ahead : s.phase ≠ .ended → ∀ seq, seq ∈ owedSeqs view me s.receiver.buffer ∨
    seq ∈ owedSeqs view me w.unsent → s.Above seq
  sorted : s.phase ≠ .ended → (owedSeqs view me s.receiver.buffer).Pairwise (· < ·)
  later : s.phase ≠ .ended → ∀ x ∈ owedSeqs view me s.receiver.buffer,
    ∀ y ∈ owedSeqs view me w.unsent, x < y
  pending : ∀ seq ∈ w.missing, Pending seq s.frames (Rest view me w s seq)

/-- The log is in order, what is missing can be replayed, and the stream is sound. -/
structure Inv (w : Feed) : Prop where
  numbered : ∀ r ∈ w.log.records, r.seq < w.log.nextSeq ∧ ∀ env ∈ r.envelope, env.seq = r.seq
  ordered : w.log.records.Pairwise fun r r' => r.seq < r'.seq
  unsent : ∀ env ∈ w.unsent, env.seq < w.log.nextSeq
  logged : ∀ seq ∈ w.missing, ∃ r ∈ w.log.records, r.seq = seq ∧
    ∃ env ∈ r.envelope, owed view me env = true
  positive : 0 < w.log.nextSeq
  cursor : ∀ id ∈ w.lastEventId, id < w.log.nextSeq
  resumable : ∀ seq ∈ w.missing, ∀ id ∈ w.lastEventId, id < seq
  stream : ∀ s ∈ w.stream, StreamInv view me w s

end

section Steps

variable {view : ConnView} {me : WalletAddress} {w : Feed}

theorem owedSeqs_append (l m : List Envelope) :
    owedSeqs view me (l ++ m) = owedSeqs view me l ++ owedSeqs view me m := by
  simp only [owedSeqs, List.filter_append, List.map_append]

theorem mem_owedSeqs {l : List Envelope} {seq : Nat} :
    seq ∈ owedSeqs view me l ↔ ∃ env ∈ l, owed view me env = true ∧ env.seq = seq := by
  simp only [owedSeqs, List.mem_map, List.mem_filter, and_assoc]

theorem owedSeqs_quiet {l : List Envelope} (h : ∀ env ∈ l, owed view me env = false) :
    owedSeqs view me l = [] := by
  rw [owedSeqs, List.map_eq_nil_iff, List.filter_eq_nil_iff]
  intro env henv
  rw [h env henv]
  exact Bool.false_ne_true

theorem missing_lt (hi : w.Inv view me) {seq : Nat} (h : seq ∈ w.missing) :
    seq < w.log.nextSeq := by
  rcases hi.logged seq h with ⟨r, hr, rfl, -⟩
  exact (hi.numbered r hr).1

/-- Publishing: the new number is above everything. -/
theorem inv_append (hi : w.Inv view me)
    (publication : Option (Target × Option WalletAddress × ServerEvent)) :
    (w.step view me (.append publication)).Inv view me := by
  -- The new envelope, if there is one, has the next number.
  have hnew : ∀ env ∈ (publication.map fun p =>
      (⟨w.log.nextSeq, p.1, p.2.1, p.2.2⟩ : Envelope)), env.seq = w.log.nextSeq := by
    intro env henv
    rcases Option.map_eq_some_iff.1 henv with ⟨p, -, rfl⟩
    rfl
  generalize henvelope : (publication.map fun p =>
    (⟨w.log.nextSeq, p.1, p.2.1, p.2.2⟩ : Envelope)) = envelope at hnew
  have hstep : w.step view me (.append publication) =
      { w with
        log := ⟨w.log.records ++ [⟨w.log.nextSeq, envelope⟩], w.log.nextSeq + 1⟩
        unsent := w.unsent ++ envelope.toList
        missing := w.missing ++ if w.subscribed && envelope.any (owed view me)
          then [w.log.nextSeq] else [] } := by
    simp only [step, EventLog.append, henvelope]
  rw [hstep]
  have hmissing : ∀ seq ∈ w.missing ++ (if w.subscribed && envelope.any (owed view me)
      then [w.log.nextSeq] else []), seq ∈ w.missing ∨
        seq = w.log.nextSeq ∧ ∃ env ∈ envelope, owed view me env = true := by
    intro seq hseq
    rcases List.mem_append.1 hseq with hseq | hseq
    · exact Or.inl hseq
    · split at hseq
      · rename_i hany
        rw [Bool.and_eq_true, Option.any_eq_true] at hany
        exact Or.inr ⟨List.mem_singleton.1 hseq, hany.2⟩
      · cases hseq
  refine ⟨?_, ?_, ?_, ?_, Nat.succ_pos _, fun id hid => Nat.lt_succ_of_lt (hi.cursor id hid), ?_,
    fun s hs => ?_⟩
  · intro r hr
    rcases List.mem_append.1 hr with hr | hr
    · exact ⟨Nat.lt_succ_of_lt (hi.numbered r hr).1, (hi.numbered r hr).2⟩
    · cases List.mem_singleton.1 hr
      exact ⟨Nat.lt_succ_self _, hnew⟩
  · refine List.pairwise_append.2 ⟨hi.ordered, List.pairwise_singleton _ _, fun r hr r' hr' => ?_⟩
    cases List.mem_singleton.1 hr'
    exact (hi.numbered r hr).1
  · intro env henv
    rcases List.mem_append.1 henv with henv | henv
    · exact Nat.lt_succ_of_lt (hi.unsent env henv)
    · rw [hnew env (Option.mem_toList.1 henv)]
      exact Nat.lt_succ_self _
  · intro seq hseq
    rcases hmissing seq hseq with hseq | ⟨rfl, henv⟩
    · rcases hi.logged seq hseq with ⟨r, hr, hr'⟩
      exact ⟨r, List.mem_append_left _ hr, hr'⟩
    · exact ⟨⟨w.log.nextSeq, envelope⟩, List.mem_append_right _ (List.mem_singleton.2 rfl), rfl,
        henv⟩
  · intro seq hseq id hid
    rcases hmissing seq hseq with hseq | ⟨rfl, -⟩
    · exact hi.resumable seq hseq id hid
    · exact hi.cursor id hid
  · have hs := hi.stream s hs
    have hunsent : ∀ y ∈ owedSeqs view me (w.unsent ++ envelope.toList),
        y ∈ owedSeqs view me w.unsent ∨ y = w.log.nextSeq := by
      intro y hy
      rw [owedSeqs_append, List.mem_append] at hy
      rcases hy with hy | hy
      · exact Or.inl hy
      · rcases mem_owedSeqs.1 hy with ⟨env, henv, -, rfl⟩
        exact Or.inr (hnew env (Option.mem_toList.1 henv))
    refine ⟨hs.ids, fun x hx => Nat.lt_succ_of_lt (hs.bounded x hx),
      fun env henv => Nat.lt_succ_of_lt (hs.buffered env henv), hs.opening, ?_, hs.sorted, ?_, ?_⟩
    · intro hphase seq hseq
      rcases hseq with hseq | hseq
      · exact hs.ahead hphase seq (Or.inl hseq)
      · rcases hunsent seq hseq with hseq | rfl
        · exact hs.ahead hphase seq (Or.inr hseq)
        · exact hs.bounded
    · intro hphase x hx y hy
      rcases hunsent y hy with hy | rfl
      · exact hs.later hphase x hx y hy
      · rcases mem_owedSeqs.1 hx with ⟨env, henv, -, rfl⟩
        exact hs.buffered env henv
    · intro seq hseq
      rcases hmissing seq hseq with hseq | ⟨rfl, env, henv, howed⟩
      · refine pending_mono (fun hrest => ?_) (hs.pending seq hseq)
        unfold Rest at hrest ⊢
        split at hrest
        · trivial
        · trivial
        · rcases hrest with hrest | hrest | hrest
          · exact Or.inl hrest
          · rw [owedSeqs_append]
            exact Or.inr (Or.inl (List.mem_append_left _ hrest))
          · exact Or.inr (Or.inr hrest)
      · refine pending_of_above (fun x hx => hs.bounded x (List.mem_append_right _ hx)) ?_
        unfold Rest
        split
        · trivial
        · trivial
        · refine Or.inr (Or.inl (mem_owedSeqs.2 ⟨env, ?_, howed, hnew env henv⟩))
          exact List.mem_append_right _ (Option.mem_toList.2 henv)

-- A buffer that overflows loses its oldest event and says so.
theorem push_buffer (r : Receiver) (env : Envelope) :
    (r.push env).buffer = r.buffer ++ [env] ∧ (r.push env).missed = r.missed ∨
      (r.push env).buffer = r.buffer.tail ++ [env] ∧ 0 < (r.push env).missed := by
  unfold Receiver.push
  by_cases h : r.buffer.length < broadcastCapacity
  · rw [if_pos h]
    exact Or.inl ⟨rfl, rfl⟩
  · rw [if_neg h]
    exact Or.inr ⟨rfl, Nat.succ_pos _⟩

theorem push_sublist (r : Receiver) (env : Envelope) :
    (r.push env).buffer.Sublist (r.buffer ++ [env]) := by
  rcases push_buffer r env with ⟨h, -⟩ | ⟨h, -⟩
  · rw [h]
  · rw [h]
    exact (List.tail_sublist _).append_right _

theorem owedSeqs_sublist {l m : List Envelope} (h : l.Sublist m) :
    (owedSeqs view me l).Sublist (owedSeqs view me m) := (h.filter _).map _

-- What a publisher sends leaves the unsent events and enters the buffer.
theorem owedSeqs_unsent {publisher : Nat} {env : Envelope}
    (henv : w.unsent[publisher]? = some env) {seq : Nat} (h : seq ∈ owedSeqs view me w.unsent) :
    seq ∈ owedSeqs view me [env] ∨ seq ∈ owedSeqs view me (w.unsent.eraseIdx publisher) := by
  rcases mem_owedSeqs.1 h with ⟨x, hx, howed, rfl⟩
  rcases List.getElem?_eq_some_iff.1 henv with ⟨hlt, rfl⟩
  rw [← List.take_append_drop publisher w.unsent, ← List.getElem_cons_drop hlt, List.mem_append,
    List.mem_cons] at hx
  have hrest : x ∈ w.unsent.take publisher ∨ x ∈ w.unsent.drop (publisher + 1) →
      x ∈ w.unsent.eraseIdx publisher := by
    rw [List.eraseIdx_eq_take_drop_succ, List.mem_append]
    exact id
  rcases hx with hx | rfl | hx
  · exact Or.inr (mem_owedSeqs.2 ⟨x, hrest (Or.inl hx), howed, rfl⟩)
  · exact Or.inl (mem_owedSeqs.2 ⟨_, List.mem_singleton.2 rfl, howed, rfl⟩)
  · exact Or.inr (mem_owedSeqs.2 ⟨x, hrest (Or.inr hx), howed, rfl⟩)

/-- Sending: what is sent in order stays in order in the buffer. -/
theorem inv_send (hi : w.Inv view me) (publisher : Nat)
    (h : w.InTurn view me (.send publisher)) : (w.step view me (.send publisher)).Inv view me := by
  rcases henv : w.unsent[publisher]? with _ | env
  · simpa only [step, henv] using hi
  have hmem : env ∈ w.unsent := List.mem_of_getElem? henv
  have herase : ∀ x ∈ w.unsent.eraseIdx publisher, x ∈ w.unsent := fun x hx =>
    List.mem_of_mem_eraseIdx hx
  have hsub : ∀ y ∈ owedSeqs view me (w.unsent.eraseIdx publisher),
      y ∈ owedSeqs view me w.unsent := fun y hy =>
    (owedSeqs_sublist (List.eraseIdx_sublist _ _)).subset hy
  simp only [step, henv]
  refine ⟨hi.numbered, hi.ordered, fun x hx => hi.unsent x (herase x hx), hi.logged, hi.positive,
    hi.cursor, hi.resumable, fun s' hs' => ?_⟩
  rcases Option.map_eq_some_iff.1 hs' with ⟨s, hmems, rfl⟩
  have hs := hi.stream s hmems
  have hone : ∀ y ∈ owedSeqs view me [env], y = env.seq ∧ owed view me env = true := by
    intro y hy
    rcases mem_owedSeqs.1 hy with ⟨x, hx, howed, rfl⟩
    cases List.mem_singleton.1 hx
    exact ⟨rfl, howed⟩
  have hbuffer : ∀ y ∈ owedSeqs view me (s.receiver.push env).buffer,
      y ∈ owedSeqs view me s.receiver.buffer ∨ y = env.seq ∧ owed view me env = true := by
    intro y hy
    have hy := (owedSeqs_sublist (push_sublist s.receiver env)).subset hy
    rw [owedSeqs_append, List.mem_append] at hy
    rcases hy with hy | hy
    · exact Or.inl hy
    · exact Or.inr (hone y hy)
  have howes : owed view me env = true → env.seq ∈ owedSeqs view me w.unsent := fun howed =>
    mem_owedSeqs.2 ⟨env, hmem, howed, rfl⟩
  refine ⟨hs.ids, hs.bounded, fun x hx => ?_, hs.opening, fun hphase seq hseq => ?_,
    fun hphase => ?_, fun hphase x hx y hy => ?_, fun seq hseq => ?_⟩
  · rcases List.mem_append.1 ((push_sublist s.receiver env).subset hx) with hx | hx
    · exact hs.buffered x hx
    · cases List.mem_singleton.1 hx
      exact hi.unsent _ hmem
  · rcases hseq with hseq | hseq
    · rcases hbuffer seq hseq with hseq | ⟨rfl, howed⟩
      · exact hs.ahead hphase seq (Or.inl hseq)
      · exact hs.ahead hphase _ (Or.inr (howes howed))
    · exact hs.ahead hphase seq (Or.inr (hsub seq hseq))
  · refine List.Pairwise.sublist (owedSeqs_sublist (push_sublist s.receiver env)) ?_
    rw [owedSeqs_append]
    refine List.pairwise_append.2 ⟨hs.sorted hphase, ?_, fun x hx y hy => ?_⟩
    · exact (List.pairwise_singleton _ env.seq).sublist
        (List.filter_sublist.map Envelope.seq : (owedSeqs view me [env]).Sublist _)
    · rcases hone y hy with ⟨rfl, howed⟩
      exact hs.later hphase x hx _ (howes howed)
  · rcases hbuffer x hx with hx | ⟨rfl, howed⟩
    · exact hs.later hphase x hx y (hsub y hy)
    · -- The one that is sent is the first of those the client is to see.
      rcases mem_owedSeqs.1 hy with ⟨other, hother, hotherOwed, rfl⟩
      exact h s hmems hphase env henv howed other hother hotherOwed
  · refine pending_mono (fun hrest => ?_) (hs.pending seq hseq)
    unfold Rest at hrest ⊢
    dsimp only
    split at hrest
    · trivial
    · trivial
    · have hpushed : seq ∈ owedSeqs view me (s.receiver.buffer ++ [env]) →
          seq ∈ owedSeqs view me (s.receiver.push env).buffer ∨
            0 < (s.receiver.push env).missed := by
        intro hin
        rcases push_buffer s.receiver env with ⟨hb, -⟩ | ⟨-, hm⟩
        · rw [hb]
          exact Or.inl hin
        · exact Or.inr hm
      rw [owedSeqs_append, List.mem_append] at hpushed
      rcases hrest with hrest | hrest | hrest
      · rcases hpushed (Or.inl hrest) with hin | hm
        · exact Or.inl hin
        · exact Or.inr (Or.inr hm)
      · rcases owedSeqs_unsent henv hrest with hrest | hrest
        · rcases hpushed (Or.inr hrest) with hin | hm
          · exact Or.inl hin
          · exact Or.inr (Or.inr hm)
        · exact Or.inr (Or.inl hrest)
      · rcases push_buffer s.receiver env with ⟨-, hm⟩ | ⟨-, hm⟩
        · exact Or.inr (Or.inr (hm ▸ hrest))
        · exact Or.inr (Or.inr hm)

/-- Connecting: a cursor will be replayed from, and without one nothing is missing. -/
theorem inv_connect (hi : w.Inv view me) (h : w.InTurn view me .connect) :
    (w.step view me .connect).Inv view me := by
  refine ⟨hi.numbered, hi.ordered, hi.unsent, hi.logged, hi.positive, hi.cursor, hi.resumable,
    fun s hs => ?_⟩
  cases hs
  refine ⟨List.Pairwise.nil, nofun, nofun, fun cursor hcursor => ?_, fun _ _ _ => nofun,
    fun _ => List.Pairwise.nil, fun _ => nofun, fun seq hseq => ?_⟩
  · cases hcursor
    exact ⟨rfl, rfl, rfl⟩
  · rcases hid : w.lastEventId with _ | id
    · have hnone := h hid
      change seq ∈ w.missing at hseq
      rw [hnone] at hseq
      cases hseq
    · trivial

/-- The client receives a frame. -/
theorem inv_receive (hi : w.Inv view me) : w.receive.Inv view me := by
  unfold receive
  rcases hstream : w.stream with _ | s
  · exact hi
  dsimp only
  have hs := hi.stream s hstream
  rcases hframes : s.frames with _ | ⟨f, rest⟩
  · exact hi
  dsimp only
  have hkept : ∀ seq ∈ w.missing.filter (fun seq => !f.settles seq),
      seq ∈ w.missing ∧ f.settles seq = false := by
    intro seq hseq
    rcases List.mem_filter.1 hseq with ⟨hmem, hnot⟩
    exact ⟨hmem, by simpa using hnot⟩
  have hids : s.ids ++ f.id.toList ++ rest.filterMap Frame.id =
      s.ids ++ s.frames.filterMap Frame.id := by
    rw [hframes]
    rcases hid : f.id with _ | id
    · rw [List.filterMap_cons_none hid]
      simp
    · rw [List.filterMap_cons_some hid]
      simp
  have hwait : ∀ seq ∈ w.missing.filter (fun seq => !f.settles seq),
      (∀ x ∈ f.id, x < seq) ∧ Pending seq rest (Rest view me w s seq) := by
    intro seq hseq
    have hp := hs.pending seq (hkept seq hseq).1
    rw [hframes] at hp
    rcases hp with hsettles | hp
    · rw [(hkept seq hseq).2] at hsettles
      cases hsettles
    · exact hp
  have hphase : ∀ cursor, s.phase ≠ .opening cursor := by
    intro cursor hopening
    have := (hs.opening cursor hopening).1
    rw [hframes] at this
    cases this
  refine ⟨hi.numbered, hi.ordered, hi.unsent, fun seq hseq => hi.logged seq (hkept seq hseq).1,
    hi.positive, fun id hid => ?_, fun seq hseq id hid => ?_, fun s' hs' => ?_⟩
  · rcases hfid : f.id with _ | x
    · rw [hfid, Option.none_or] at hid
      exact hi.cursor id hid
    · rw [hfid, Option.some_or] at hid
      cases hid
      refine hs.bounded _ (List.mem_append_right _ ?_)
      rw [hframes, List.filterMap_cons_some hfid]
      exact List.mem_cons_self
  · rcases hfid : f.id with _ | x
    · rw [hfid, Option.none_or] at hid
      exact hi.resumable seq (hkept seq hseq).1 id hid
    · rw [hfid, Option.some_or] at hid
      cases hid
      exact (hwait seq hseq).1 _ hfid
  · cases hs'
    refine ⟨?_, ?_, hs.buffered, fun cursor hc => absurd hc (hphase cursor), fun hp seq hseq => ?_,
      hs.sorted, hs.later, fun seq hseq => ?_⟩
    · dsimp only
      rw [hids]
      exact hs.ids
    · unfold SseStream.Above
      dsimp only
      rw [hids]
      exact hs.bounded
    · have habove := hs.ahead hp seq hseq
      unfold SseStream.Above at habove ⊢
      dsimp only
      rw [hids]
      exact habove
    · exact (hwait seq hseq).2

-- What the stream's task does leaves everything else alone.
theorem inv_task (hi : w.Inv view me) {f : SseStream → SseStream}
    (h : ∀ s ∈ w.stream, StreamInv view me w (f s)) :
    Inv view me { w with stream := w.stream.map f } := by
  refine ⟨hi.numbered, hi.ordered, hi.unsent, hi.logged, hi.positive, hi.cursor, hi.resumable,
    fun s' hs' => ?_⟩
  rcases Option.map_eq_some_iff.1 hs' with ⟨s, hs, rfl⟩
  have hinv := h s hs
  exact ⟨hinv.ids, hinv.bounded, hinv.buffered, hinv.opening, hinv.ahead, hinv.sorted, hinv.later,
    hinv.pending⟩

/-- A frame that is made up while nothing the client is to see is behind it. -/
theorem inv_madeUp {s : SseStream} (hs : StreamInv view me w s) (hmem : s ∈ w.stream)
    (hquiet : w.Quiet view me) {f : Frame} (hid : f.id = some f.seq) (habove : s.Above f.seq)
    (hlt : f.seq < w.log.nextSeq) {phase : Phase} (hphase : ∀ cursor, phase ≠ .opening cursor)
    {receiver : Receiver} (hreceiver : receiver.buffer.Sublist s.receiver.buffer)
    (hpending : ∀ seq ∈ w.missing, Rest view me w s seq → f.settles seq = true) :
    StreamInv view me w { s.emit f with phase := phase, receiver := receiver } := by
  have hbuffer : owedSeqs view me receiver.buffer = [] :=
    owedSeqs_quiet fun env henv => hquiet.1 s hmem env (hreceiver.subset henv)
  have hunsent : owedSeqs view me w.unsent = [] := owedSeqs_quiet hquiet.2
  have hids : s.ids ++ (s.frames ++ [f]).filterMap Frame.id =
      (s.ids ++ s.frames.filterMap Frame.id) ++ [f.seq] := by
    rw [List.filterMap_append, ← List.append_assoc, List.filterMap_cons_some hid,
      List.filterMap_nil]
  refine ⟨?_, fun x hx => ?_, fun env henv => hs.buffered env (hreceiver.subset henv),
    fun cursor hcursor => absurd hcursor (hphase cursor), fun _ seq hseq => ?_, fun _ => ?_,
    fun _ x hx => ?_, fun seq hseq => ?_⟩
  · change (s.ids ++ (s.frames ++ [f]).filterMap Frame.id).Pairwise (· < ·)
    rw [hids]
    refine List.pairwise_append.2 ⟨hs.ids, List.pairwise_singleton _ _, fun x hx y hy => ?_⟩
    rw [List.mem_singleton.1 hy]
    exact habove x hx
  · change x ∈ s.ids ++ (s.frames ++ [f]).filterMap Frame.id at hx
    rw [hids, List.mem_append] at hx
    rcases hx with hx | hx
    · exact hs.bounded x hx
    · rw [List.mem_singleton.1 hx]
      exact hlt
  · rw [hbuffer, hunsent] at hseq
    rcases hseq with hseq | hseq <;> cases hseq
  · dsimp only
    rw [hbuffer]
    exact List.Pairwise.nil
  · dsimp only at hx
    rw [hbuffer] at hx
    cases hx
  · exact pending_emit (hs.pending seq hseq) fun hrest => Or.inl (hpending seq hseq hrest)

-- Behind a live stream that owes nothing there is nothing to wait for.
theorem not_rest {s : SseStream} (hmem : s ∈ w.stream) (hquiet : w.Quiet view me)
    (hlive : s.phase = .live) (hmissed : s.receiver.missed = 0) (seq : Nat) :
    ¬ Rest view me w s seq := by
  intro hrest
  simp only [Rest, hlive, hmissed, owedSeqs_quiet hquiet.2,
    owedSeqs_quiet fun env henv => hquiet.1 s hmem env henv, List.not_mem_nil,
    Nat.lt_irrefl, or_self] at hrest

theorem laggedSeq_lt (hi : w.Inv view me) : w.log.laggedSeq < w.log.nextSeq := by
  have := hi.positive
  unfold EventLog.laggedSeq
  omega

theorem le_laggedSeq (hi : w.Inv view me) {seq : Nat} (h : seq ∈ w.missing) :
    seq ≤ w.log.laggedSeq := by
  have := missing_lt hi h
  unfold EventLog.laggedSeq
  omega

-- What is replayed are events the client is to see, in order, and all of them.
theorem replaySince_spec (hi : w.Inv view me) {refused : Bool} {cursor : Nat}
    {envelopes : List Envelope}
    (h : w.log.replaySince refused cursor view me = some envelopes) :
    (envelopes.map Envelope.seq).Pairwise (· < ·) ∧
      (∀ env ∈ envelopes, env.seq < w.log.nextSeq ∧ env.event.isReplayable = true) ∧
      ∀ seq ∈ w.missing, cursor < seq → seq ∈ envelopes.map Envelope.seq := by
  unfold EventLog.replaySince at h
  dsimp only at h
  split at h
  · cases h
  cases h
  have hfound : ∀ (r : LogRecord) (env : Envelope),
      (r.envelope.filter fun e => e.event.isReplayable && view.accepts e me) = some env ↔
        env ∈ r.envelope ∧ owed view me env = true := by
    intro r env
    rw [Option.filter_eq_some_iff, owed, Bool.and_comm, Option.mem_def]
  refine ⟨?_, fun env henv => ?_, fun seq hseq hcursor => ?_⟩
  · rw [List.pairwise_map, List.pairwise_filterMap]
    refine (hi.ordered.filter _).imp_of_mem fun hr hr' hlt env henv env' henv' => ?_
    have hseq := (hi.numbered _ (List.mem_filter.1 hr).1).2 env ((hfound _ _).1 henv).1
    have hseq' := (hi.numbered _ (List.mem_filter.1 hr').1).2 env' ((hfound _ _).1 henv').1
    rw [hseq, hseq']
    exact hlt
  · rcases List.mem_filterMap.1 henv with ⟨r, hr, hfilter⟩
    rcases (hfound r env).1 hfilter with ⟨hmem, howed⟩
    have hnumber := hi.numbered r (List.mem_filter.1 hr).1
    rw [hnumber.2 env hmem]
    rw [owed, Bool.and_eq_true] at howed
    exact ⟨hnumber.1, howed.2⟩
  · rcases hi.logged seq hseq with ⟨r, hr, rfl, env, henv, howed⟩
    refine List.mem_map.2 ⟨env, List.mem_filterMap.2 ⟨r, ?_, (hfound r env).2 ⟨henv, howed⟩⟩, ?_⟩
    · exact List.mem_filter.2 ⟨hr, by simpa using hcursor⟩
    · exact (hi.numbered r hr).2 env henv

/-- Replaying: what the client missed is framed, or it is told to resync. -/
theorem inv_replay (hi : w.Inv view me) (refused : Bool)
    (h : w.InTurn view me (.replay refused)) :
    (w.step view me (.replay refused)).Inv view me := by
  refine inv_task hi fun s hmem => ?_
  have hs := hi.stream s hmem
  unfold SseStream.replay
  rcases hphase : s.phase with (_ | cursor) | _ | _
  · rcases hs.opening none hphase with ⟨hframes, hids, -⟩
    refine ⟨hs.ids, hs.bounded, hs.buffered, nofun, fun _ => hs.ahead (by rw [hphase]; nofun),
      fun _ => hs.sorted (by rw [hphase]; nofun), fun _ => hs.later (by rw [hphase]; nofun),
      fun seq hseq => ?_⟩
    refine pending_mono (fun hrest => ?_) (hs.pending seq hseq)
    simpa only [Rest, hphase] using hrest
  · -- Behind the replay there is nothing, so its ids are the greatest.
    have hquiet := h s hmem (by rw [SseStream.resuming, hphase])
    rcases hs.opening (some cursor) hphase with ⟨hframes, hids, hcursor⟩
    have hnil : s.ids ++ s.frames.filterMap Frame.id = [] := by rw [hids, hframes]; rfl
    dsimp only
    rcases hreplay : w.log.replaySince refused cursor view me with _ | envelopes
    · have habove : s.Above w.log.laggedSeq := by
        unfold SseStream.Above
        rw [hnil]
        exact fun x hx => absurd hx List.not_mem_nil
      have hlive : ∀ c, Phase.live ≠ .opening c := nofun
      refine inv_madeUp
        (f := ⟨w.log.laggedSeq, .resyncRequired .cursorTooOld cursor w.log.laggedSeq, false⟩)
        hs hmem hquiet rfl habove (laggedSeq_lt hi) hlive (List.Sublist.refl _)
        fun seq hseq _ => ?_
      simpa [Frame.settles] using le_laggedSeq hi hseq
    · rcases replaySince_spec hi hreplay with ⟨hsorted, hframed, hall⟩
      have hfid : ∀ env ∈ envelopes, (SseStream.publishedFrame env).id = some env.seq := by
        intro env henv
        simp only [Frame.id, SseStream.publishedFrame, (hframed env henv).2, if_true]
      have hids' : s.ids ++ (s.frames ++ envelopes.map SseStream.publishedFrame).filterMap
          Frame.id = envelopes.map Envelope.seq := by
        rw [hids, hframes, List.nil_append, List.nil_append, List.filterMap_map]
        have hsome : envelopes.filterMap (fun env => some env.seq) = envelopes.map Envelope.seq :=
          congrFun List.filterMap_eq_map' envelopes
        rw [← hsome]
        exact List.filterMap_congr hfid
      have hbuffer : owedSeqs view me s.receiver.buffer = [] :=
        owedSeqs_quiet fun env henv => hquiet.1 s hmem env henv
      have hunsent : owedSeqs view me w.unsent = [] := owedSeqs_quiet hquiet.2
      dsimp only
      refine ⟨?_, fun x hx => ?_, hs.buffered, nofun, fun _ seq hseq => ?_, fun _ => ?_,
        fun _ x hx => ?_, fun seq hseq => ?_⟩
      · dsimp only
        rw [hids']
        exact hsorted
      · dsimp only at hx
        rw [hids'] at hx
        rcases List.mem_map.1 hx with ⟨env, henv, rfl⟩
        exact (hframed env henv).1
      · dsimp only at hseq
        rw [hbuffer, hunsent] at hseq
        rcases hseq with hseq | hseq <;> cases hseq
      · dsimp only
        rw [hbuffer]
        exact List.Pairwise.nil
      · dsimp only at hx
        rw [hbuffer] at hx
        cases hx
      · have hafter := hi.resumable seq hseq cursor hcursor.symm
        rcases List.mem_map.1 (hall seq hseq hafter) with ⟨env, henv, rfl⟩
        refine pending_of_mem ?_ (List.mem_append_right _ (List.mem_map_of_mem henv))
          (hfid env henv) ?_
        · rw [hids, List.nil_append] at hids'
          rw [hids']
          exact hsorted
        · simp [Frame.settles, SseStream.publishedFrame]
  · exact hs
  · exact hs

-- What is made up when the stream ends tells the client nothing, and nothing is left.
theorem inv_ending (hi : w.Inv view me) {s : SseStream} (hmem : s ∈ w.stream)
    (hlive : s.phase = .live) (hmissed : s.receiver.missed = 0) (hquiet : w.Quiet view me)
    {seq : Nat} (hlt : seq < w.log.nextSeq) (habove : s.Above seq) (reason : String)
    {receiver : Receiver} (hreceiver : receiver.buffer.Sublist s.receiver.buffer) :
    StreamInv view me w { s.emit ⟨seq, .sessionExpired reason, false⟩ with
      phase := .ended, receiver := receiver } := by
  have hended : ∀ c, Phase.ended ≠ .opening c := nofun
  exact inv_madeUp (hi.stream s hmem) hmem hquiet rfl habove hlt hended hreceiver
    fun x _ hrest => absurd hrest (not_rest hmem hquiet hlive hmissed x)

/-- The lifetime is up. -/
theorem inv_deadline (hi : w.Inv view me) (h : w.InTurn view me .deadline) :
    (w.step view me .deadline).Inv view me := by
  refine inv_task hi fun s hmem => ?_
  unfold SseStream.deadline
  by_cases hlive : s.phase = .live
  · rw [if_neg (not_not.2 hlive)]
    rcases h s hmem hlive with ⟨hquiet, hmissed, habove⟩
    exact inv_ending hi hmem hlive hmissed hquiet (laggedSeq_lt hi) habove _ (List.Sublist.refl _)
  · rw [if_pos hlive]
    exact hi.stream s hmem

-- The task takes an event from its buffer, and sends it on if the view accepts it.
theorem inv_read (hi : w.Inv view me) {s : SseStream} (hmem : s ∈ w.stream)
    (hlive : s.phase = .live) (hmissed : s.receiver.missed = 0) {env : Envelope}
    {rest : List Envelope} (hbuffer : s.receiver.buffer = env :: rest) {fs : List Frame}
    (hfs : owed view me env = true ∧ fs = [SseStream.publishedFrame env] ∨
      owed view me env = false ∧ ∀ f ∈ fs, f.id = none) :
    StreamInv view me w { s with receiver := ⟨rest, 0⟩, frames := s.frames ++ fs } := by
  have hs := hi.stream s hmem
  have hphase : s.phase ≠ .ended := by rw [hlive]; nofun
  have hahead := hs.ahead hphase
  have hsorted := hs.sorted hphase
  have hlater := hs.later hphase
  rw [hbuffer] at hahead hsorted hlater
  have hsub : (owedSeqs view me rest).Sublist (owedSeqs view me (env :: rest)) :=
    owedSeqs_sublist (List.sublist_cons_self env rest)
  -- The new frame has the number of the event if the client is to see it, or none.
  have hnew : fs.filterMap Frame.id = if owed view me env then [env.seq] else [] := by
    rcases hfs with ⟨howed, rfl⟩ | ⟨howed, hnone⟩
    · have hreplayable : env.event.isReplayable = true := by
        rw [owed, Bool.and_eq_true] at howed
        exact howed.2
      simp [howed, Frame.id, SseStream.publishedFrame, hreplayable]
    · rw [howed]
      exact List.filterMap_eq_nil_iff.2 hnone
  have hids : ∀ x ∈ s.ids ++ (s.frames ++ fs).filterMap Frame.id,
      x ∈ s.ids ++ s.frames.filterMap Frame.id ∨ x = env.seq ∧ owed view me env = true := by
    intro x hx
    rw [List.filterMap_append, ← List.append_assoc, List.mem_append, hnew] at hx
    rcases hx with hx | hx
    · exact Or.inl hx
    · split at hx
      · exact Or.inr ⟨List.mem_singleton.1 hx, by assumption⟩
      · cases hx
  have hin : owed view me env = true → env.seq ∈ owedSeqs view me (env :: rest) := fun howed =>
    mem_owedSeqs.2 ⟨env, List.mem_cons_self, howed, rfl⟩
  have hfirst : owed view me env = true → ∀ y ∈ owedSeqs view me rest, env.seq < y := by
    intro howed y hy
    rw [owedSeqs, List.filter_cons_of_pos howed, List.map_cons] at hsorted
    exact (List.pairwise_cons.1 hsorted).1 y hy
  refine ⟨?_, fun x hx => ?_, fun x hx => hs.buffered x (hbuffer ▸ List.mem_cons_of_mem env hx),
    fun cursor hc => ?_, fun _ seq hseq x hx => ?_, fun _ => List.Pairwise.sublist hsub hsorted,
    fun _ x hx => hlater x (hsub.subset hx), fun seq hseq => ?_⟩
  · change (s.ids ++ (s.frames ++ fs).filterMap Frame.id).Pairwise (· < ·)
    rw [List.filterMap_append, ← List.append_assoc, hnew]
    refine List.pairwise_append.2 ⟨hs.ids, ?_, fun x hx y hy => ?_⟩
    · split
      · exact List.pairwise_singleton _ _
      · exact List.Pairwise.nil
    · split at hy
      · rw [List.mem_singleton.1 hy]
        exact hahead env.seq (Or.inl (hin (by assumption))) x hx
      · cases hy
  · rcases hids x hx with hx | ⟨rfl, -⟩
    · exact hs.bounded x hx
    · exact hs.buffered env (hbuffer ▸ List.mem_cons_self)
  · dsimp only at hc
    rw [hlive] at hc
    cases hc
  · rcases hids x hx with hx | ⟨rfl, howed⟩
    · rcases hseq with hseq | hseq
      · exact hahead seq (Or.inl (hsub.subset hseq)) x hx
      · exact hahead seq (Or.inr hseq) x hx
    · rcases hseq with hseq | hseq
      · exact hfirst howed seq hseq
      · exact hlater env.seq (hin howed) seq hseq
  · refine (pending_append fs).2 (pending_mono (fun hrest => ?_) (hs.pending seq hseq))
    simp only [Rest, hlive, hmissed, hbuffer, Nat.lt_irrefl, or_false] at hrest
    have hbehind : seq ∈ owedSeqs view me rest ∨ seq ∈ owedSeqs view me w.unsent →
        Rest view me w { s with receiver := ⟨rest, 0⟩, frames := s.frames ++ fs } seq := by
      intro hin
      simp only [Rest, hlive, Nat.lt_irrefl, or_false]
      exact hin
    rcases hfs with ⟨howed, rfl⟩ | ⟨howed, hnone⟩
    · rw [owedSeqs, List.filter_cons_of_pos howed, List.map_cons, List.mem_cons] at hrest
      have hfid : ∀ x ∈ (SseStream.publishedFrame env).id, x = env.seq := by
        intro x hx
        rw [Option.mem_def, Frame.id] at hx
        split at hx
        · cases hx
          rfl
        · cases hx
      rcases hrest with (rfl | hrest) | hrest
      · exact Or.inl (by simp [Frame.settles, SseStream.publishedFrame])
      · refine Or.inr ⟨fun x hx => ?_, hbehind (Or.inl hrest)⟩
        rw [hfid x hx]
        exact hfirst howed seq hrest
      · refine Or.inr ⟨fun x hx => ?_, hbehind (Or.inr hrest)⟩
        rw [hfid x hx]
        exact hlater env.seq (hin howed) seq hrest
    · rw [owedSeqs, List.filter_cons_of_neg (by rw [howed]; exact Bool.false_ne_true)] at hrest
      refine pending_of_above (fun x hx => ?_) (hbehind hrest)
      rw [List.filterMap_eq_nil_iff.2 hnone] at hx
      cases hx

/-- The task reads from its subscription. -/
theorem inv_recv (hi : w.Inv view me) (tokenExpired suspended : Bool)
    (h : w.InTurn view me (.recv tokenExpired suspended)) :
    (w.step view me (.recv tokenExpired suspended)).Inv view me := by
  refine inv_task hi fun s hmem => ?_
  have hs := hi.stream s hmem
  unfold SseStream.recv
  by_cases hlive : s.phase = .live
  · rw [if_neg (not_not.2 hlive)]
    have hturn := h s hmem hlive
    by_cases hmissed : 0 < s.receiver.missed
    · rw [if_pos hmissed] at hturn ⊢
      have hnot : ∀ c, s.phase ≠ .opening c := by rw [hlive]; nofun
      exact inv_madeUp
        (f := ⟨w.log.laggedSeq, .resyncRequired .lagged 0 w.log.laggedSeq, false⟩) hs hmem hturn.1
        rfl hturn.2 (laggedSeq_lt hi) hnot (List.Sublist.refl s.receiver.buffer) fun seq hseq _ =>
          by simpa [Frame.settles] using le_laggedSeq hi hseq
    · rw [if_neg hmissed] at hturn ⊢
      have hzero : s.receiver.missed = 0 := by omega
      rcases hbuffer : s.receiver.buffer with _ | ⟨env, rest⟩
      · exact hs
      have hturn := hturn env (by rw [hbuffer]; rfl)
      have hsub : rest.Sublist s.receiver.buffer := by
        rw [hbuffer]
        exact List.sublist_cons_self env rest
      have hlt := hs.buffered env (by rw [hbuffer]; exact List.mem_cons_self)
      dsimp only
      by_cases haccepts : view.accepts env me = true
      · have hnot : ¬ (!view.accepts env me) = true := by simp [haccepts]
        rw [if_neg hnot]
        by_cases hexpired : tokenExpired = true
        · rw [if_pos hexpired]
          rcases hturn haccepts (by simp [hexpired]) with ⟨hquiet, habove⟩
          exact inv_ending hi hmem hlive hzero hquiet hlt habove _ hsub
        · rw [if_neg hexpired]
          by_cases hsuspended : suspended = true
          · rw [if_pos hsuspended]
            rcases hturn haccepts (by simp [hsuspended]) with ⟨hquiet, habove⟩
            exact inv_ending hi hmem hlive hzero hquiet hlt habove _ hsub
          · rw [if_neg hsuspended]
            refine inv_read hi hmem hlive hzero hbuffer ?_
            by_cases hreplayable : env.event.isReplayable = true
            · exact Or.inl ⟨by rw [owed, haccepts, hreplayable]; rfl, rfl⟩
            · refine Or.inr ⟨by simp [owed, hreplayable], fun f hf => ?_⟩
              cases List.mem_singleton.1 hf
              exact if_neg hreplayable
      · have hnot : (!view.accepts env me) = true := by simp [haccepts]
        rw [if_pos hnot]
        have hread : StreamInv view me w
            { s with receiver := ⟨rest, 0⟩, frames := s.frames ++ [] } :=
          inv_read hi hmem hlive hzero hbuffer
            (Or.inr ⟨by simp [owed, haccepts], fun f hf => absurd hf List.not_mem_nil⟩)
        rw [List.append_nil] at hread
        exact hread
  · rw [if_pos hlive]
    exact hs

/-- The step lemma. -/
theorem inv_step (w : Feed) (input : FeedInput) (hi : w.Inv view me)
    (h : w.InTurn view me input) : (w.step view me input).Inv view me := by
  cases input with
  | append publication => exact inv_append hi publication
  | send publisher => exact inv_send hi publisher h
  | connect => exact inv_connect hi h
  | replay refused => exact inv_replay hi refused h
  | recv tokenExpired suspended => exact inv_recv hi tokenExpired suspended h
  | deadline => exact inv_deadline hi h
  | receive => exact inv_receive hi
  | disconnect =>
      exact ⟨hi.numbered, hi.ordered, hi.unsent, hi.logged, hi.positive, hi.cursor, hi.resumable,
        nofun⟩

theorem faithful_of_inv (w : Feed) (hi : w.Inv view me) : w.Faithful where
  delivered := by
    intro hsettled
    rcases hsettled with ⟨hunsent, s, hmem, hlive, hreceiver, hframes⟩
    rw [List.eq_nil_iff_forall_not_mem]
    intro seq hseq
    have hpending := (hi.stream s hmem).pending seq hseq
    rw [hframes] at hpending
    have hrest : Rest view me w s seq := hpending
    simp [Rest, hlive, hreceiver, hunsent, owedSeqs] at hrest
  increasing s hmem := (List.pairwise_append.1 (hi.stream s hmem).ids).1

theorem inv_start : (start).Inv view me where
  numbered := fun _ hr => absurd hr List.not_mem_nil
  ordered := List.Pairwise.nil
  unsent := fun _ he => absurd he List.not_mem_nil
  logged := fun _ hm => absurd hm List.not_mem_nil
  positive := Nat.one_pos
  cursor := nofun
  resumable := fun _ hm => absurd hm List.not_mem_nil
  stream := nofun

end Steps

/-- **Delivery across publishes and reconnects.** In a run of any publishers and one
    client whose steps are all in turn, everything the client is to see has been
    delivered, or covered by a resync, whenever the system has come to rest, and the
    ids on each stream are strictly increasing. -/
theorem delivered_in_turn (view : ConnView) (me : WalletAddress) (inputs : List FeedInput)
    (h : Run.Along (step view me) (InTurn view me) start inputs) :
    Run.Throughout (step view me) Faithful start inputs :=
  Run.throughout_mono faithful_of_inv start inputs
    (Run.throughout_of_along inv_step start inputs inv_start h)

end Feed

namespace Sample

/-- Alice's view of her channel. -/
def aliceView : ConnView := ⟨[team], []⟩

/-- Bob's message in the channel, by its serial. -/
def wakeUp (serial : Int) : Option (Target × Option WalletAddress × ServerEvent) :=
  some (.room team, some bob, .newMessage team serial)

/-- Alice hears one event live and misses the next two, which are replayed. -/
def resumed : List FeedInput :=
  [.connect, .replay false, .append (wakeUp 1), .send 0, .recv false false, .receive,
    .append (wakeUp 2), .append (wakeUp 3), .append none, .send 0, .disconnect, .send 0,
    .connect, .replay false, .receive, .receive, .deadline, .receive]

theorem resumed_faithful :
    Run.Throughout (Feed.step aliceView alice) Feed.Faithful Feed.start resumed :=
  Feed.delivered_in_turn aliceView alice resumed (by decide +kernel)

/-- Two publishers send in the other order than they were numbered, and Alice
    resumes between the two. -/
def overtaken : List FeedInput :=
  [.connect, .replay false, .append (wakeUp 1), .append (wakeUp 2), .send 1, .recv false false,
    .receive, .disconnect, .send 0, .connect, .replay false]

/-- The first event is never delivered. -/
theorem overtaken_is_lost :
    ¬ Run.Throughout (Feed.step aliceView alice) Feed.Faithful Feed.start overtaken := by
  intro h
  have hlast := (Run.throughout_last _ _ h).delivered
  have hend : Run.run (Feed.step aliceView alice) Feed.start overtaken =
      { log := ⟨[⟨1, some ⟨1, .room team, some bob, .newMessage team 1⟩⟩,
          ⟨2, some ⟨2, .room team, some bob, .newMessage team 2⟩⟩], 3⟩
        unsent := []
        stream := some ⟨.live, ⟨[], 0⟩, [], []⟩
        lastEventId := some 2
        subscribed := true
        missing := [1] } := by decide +kernel
  rw [hend] at hlast
  have hnone := hlast ⟨rfl, _, rfl, rfl, rfl, rfl⟩
  cases hnone

end Sample

end PocketSkynet
