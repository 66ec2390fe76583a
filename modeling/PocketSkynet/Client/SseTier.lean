import PocketSkynet.Server.Sample
import PocketSkynet.Server.Tickets

/-!
# The Event Source Tier

When no socket can be opened the client listens to an event source. The source reads the
frames of the server and comes back by itself when the connection drops, with the URL it
was made with and the id of the last frame it has read. The server frames every event
under the name of the event and hands out the stream for a ticket that is used up by it.

The client listens for messages. A frame with a name is none, so no event ever reaches
the app this way, and a source that comes back brings a ticket that is gone, so it is
refused and gives up. `delivers_iff` is the exact extent of it. What the source does keep
is its place: `presents_last_id` says that it comes back with the id of the last frame
that may be replayed.

## Main definitions

* `RealtimeSignal`, `onText`: What the app is told.
* `EventSource`: The source, as the standard has it.
* `SseTier`, `SseTier.step`: The server, the source and the app.
* `Delivers`: The app gets the events, and the source gets back in.
* `Silent`: The condition on a step.

## Theorems

* `step_frame`: A frame is read, and nothing is handed to the app.
* `SseTier.delivers_iff`: The runs in which the tier delivers.
* `SseTier.presents_last_id`: Where the source goes on from.
-/

namespace PocketSkynet

open EventStream

/-- What a transport tells the app. -/
inductive RealtimeSignal where
  | connected
  | healthy
  | event (event : ServerEvent)
  | dropped
  | exhausted
deriving DecidableEq, Repr

namespace RealtimeSignal

/-- The event in it. -/
def event? : RealtimeSignal → Option ServerEvent
  | event e => some e
  | _ => none

/-- The events among the signals. -/
def events (signals : List RealtimeSignal) : List ServerEvent := signals.filterMap event?

end RealtimeSignal

/-- What the text of an event becomes. One that cannot be read is ignored. -/
def onText (decode : List Char → Option ServerEvent) (text : List Char) : List RealtimeSignal :=
  (decode text).toList.map .event

/-- Where a source stands. -/
inductive ReadyState where
  | connecting
  | live
  | closed
deriving DecidableEq, Repr

/-- An event source: the ticket in its URL, what it has read, and the id it would come back
    with. -/
structure EventSource where
  ticket : String
  readyState : ReadyState
  reader : EventStream.Reader
  lastEventId : List Char
deriving DecidableEq, Repr

namespace EventSource

/-- A new source. It connects at once. -/
def new (ticket : String) : EventSource :=
  ⟨ticket, .connecting, EventStream.Reader.between [], []⟩

/-- The header it comes back with. An empty id is not sent. -/
def header (es : EventSource) : Option (List Char) :=
  if es.lastEventId = [] then none else some es.lastEventId

/-- What listeners for messages hear. -/
def heard (messages : List EventStream.Message) : List EventStream.Message :=
  messages.filter fun m => m.name = defaultName

end EventSource

/-- How a source came back after its stream had dropped. -/
structure Reopening where
  answer : StreamAnswer
  lastReplayable : Option Nat
deriving DecidableEq, Repr

/-- The tickets, the clock and the suspensions of the server, the source, what the app has
    been told, and, as a record, which events have come over a stream and how the source
    came back. -/
structure SseTier where
  tickets : TicketStore
  now : Int
  suspended : List WalletAddress
  source : EventSource
  cancelled : Bool
  app : List RealtimeSignal
  opened : Bool
  received : List (Nat × ServerEvent)
  reopenings : List Reopening
deriving DecidableEq, Repr

/-- What may happen. `connect` is a request of the source that reaches the server, from
    some address and with what the hub refuses it with, if it does; `unreachable` is one
    that does not. `frame` is an event that comes over the stream. The frames without data
    in between, a retry time and heartbeats, dispatch nothing. -/
inductive SseInput where
  | connect (ip : String) (hub : Option Nat)
  | unreachable
  | frame (seq : Nat) (event : ServerEvent)
  | drop
  | cancel
  | elapse (ms : Nat)
  | issue (id : String) (wallet : WalletAddress) (ip : String)
  | suspend (wallet : WalletAddress)
  | lift (wallet : WalletAddress)
deriving DecidableEq, Repr

namespace SseTier

/-- The client has just made its source. -/
def start (tickets : TicketStore) (now : Int) (suspended : List WalletAddress) (id : String) :
    SseTier :=
  ⟨tickets, now, suspended, EventSource.new id, false, [], false, [], []⟩

/-- The number of the last event received that may be replayed. -/
def lastReplayable (s : SseTier) : Option Nat :=
  ((s.received.filter fun r => r.2.isReplayable).getLast?).map Prod.fst

/-- `onerror`. A source that has given up is handed over to the next tier. -/
def onError (s : SseTier) : SseTier :=
  if s.cancelled then s
  else { s with app := s.app ++
    [if s.source.readyState = .closed then .exhausted else .dropped] }

/-- The record of how the source has come back, with one more answer to it. -/
def noted (s : SseTier) (answer : StreamAnswer) : List Reopening :=
  if s.opened then s.reopenings ++ [⟨answer, s.lastReplayable⟩] else s.reopenings

/-- The answer to a source that connects. It listens again, or gives up for good. -/
def connect (s : SseTier) (ip : String) (hub : Option Nat) : SseTier :=
  let answer := sseHandler s.tickets s.suspended s.source.ticket ip s.now s.source.header hub
  match answer.1 with
  | .accepted _ =>
      { s with
        tickets := answer.2
        reopenings := s.noted answer.1
        source := { s.source with
          readyState := .live, reader := EventStream.Reader.between s.source.lastEventId }
        opened := true
        app := s.app ++ [.connected, .healthy] }
  | .refused _ =>
      onError { s with
        tickets := answer.2
        reopenings := s.noted answer.1
        source := { s.source with readyState := .closed } }

/-- A frame is read, and what listeners for messages hear of it is handed to the app. -/
def frame (write : EventStream.Frame → List Char) (decode : List Char → Option ServerEvent)
    (s : SseTier) (seq : Nat) (event : ServerEvent) : SseTier :=
  let read := s.source.reader.feed (write (sseEvent seq event))
  { s with
    source := { s.source with reader := read.1, lastEventId := read.1.lastId }
    app := s.app ++ (EventSource.heard read.2).flatMap fun m => onText decode m.data
    received := s.received ++ [(seq, event)] }

/-- The tier after an input. -/
def step (write : EventStream.Frame → List Char) (decode : List Char → Option ServerEvent)
    (s : SseTier) : SseInput → SseTier
  | .connect ip hub => if s.source.readyState = .connecting then s.connect ip hub else s
  | .unreachable => if s.source.readyState = .connecting then s.onError else s
  | .frame seq event =>
      if s.source.readyState = .live then s.frame write decode seq event else s
  | .drop =>
      if s.source.readyState = .live then
        onError { s with source := { s.source with readyState := .connecting } }
      else s
  | .cancel =>
      { s with cancelled := true, source := { s.source with readyState := .closed } }
  | .elapse ms => { s with now := s.now + ms }
  | .issue id wallet ip => { s with tickets := s.tickets.issue id wallet ip s.now }
  | .suspend wallet => { s with suspended := s.suspended.insert wallet }
  | .lift wallet => { s with suspended := s.suspended.filter fun w => w ≠ wallet }

/-- The app has been handed exactly the events that came, in their order, and whenever the
    source came back it was let in and went on behind the last event that is replayed. -/
structure Delivers (s : SseTier) : Prop where
  handed : RealtimeSignal.events s.app = s.received.map Prod.snd
  resumed : ∀ r ∈ s.reopenings, r.answer = .accepted r.lastReplayable

/-- No event comes over the stream, and the source does not come back. -/
def Silent (s : SseTier) : SseInput → Prop
  | .frame _ _ => s.source.readyState ≠ .live
  | .connect _ _ => s.source.readyState = .connecting → s.opened = false
  | _ => True

/-- The server draws no ticket under this id again. -/
def Fresh (id : String) : SseInput → Prop
  | .issue id' _ _ => id' ≠ id
  | _ => True

end SseTier

section Frames

variable {write : EventStream.Frame → List Char} {decode : List Char → Option ServerEvent}

-- No event has the name of a message without one.
theorem name_ne_default (e : ServerEvent) : e.name.toList ≠ defaultName := by
  have hall : ∀ name ∈ ServerEvent.names, name.toList ≠ defaultName := by decide
  exact hall e.name e.name_mem_names

theorem oneLine_of_printable {text : List Char} (h : Printable text) : OneLine text :=
  ⟨fun hmem => absurd (h _ hmem) (by decide), fun hmem => absurd (h _ hmem) (by decide)⟩

theorem plain_sseEvent (seq : Nat) (e : ServerEvent) : (sseEvent seq e).Plain := by
  refine ⟨fun n hn => ?_, fun d hd => ?_, fun i hi => ?_⟩
  · cases hn
    have hall : ∀ name ∈ ServerEvent.names, Printable name.toList ∧ name.toList ≠ [] := by decide
    have hname := hall e.name e.name_mem_names
    exact ⟨oneLine_of_printable hname.1, hname.2⟩
  · cases hd
    exact oneLine_of_printable e.printable_toJson
  · have hdigits : i = Nat.toDigits 10 seq := by
      simp only [sseEvent, Option.mem_def, Option.ite_none_right_eq_some] at hi
      exact (Option.some.inj hi.2).symm
    rw [hdigits]
    refine ⟨oneLine_of_printable (printable_digits seq), fun hnull => ?_⟩
    exact absurd (printable_digits seq _ hnull) (by decide)

end Frames

namespace SseTier

section Steps

variable {write : EventStream.Frame → List Char} {decode : List Char → Option ServerEvent}
variable {s : SseTier}

/-- The source reads whole frames, and would come back with the last id among them. -/
structure Tracked (id : String) (s : SseTier) : Prop where
  ticket : s.source.ticket = id
  reading : s.source.reader = EventStream.Reader.between s.source.lastEventId
  place : s.source.lastEventId = (s.lastReplayable.map (Nat.toDigits 10)).getD []

-- An error tells the app that the connection has gone, and nothing else.
theorem onError_eq (s : SseTier) :
    ∃ signals, s.onError = { s with app := s.app ++ signals } ∧
      RealtimeSignal.events signals = [] := by
  by_cases hcancelled : s.cancelled = true
  · refine ⟨[], ?_, rfl⟩
    rw [onError, if_pos hcancelled, List.append_nil]
  · refine ⟨[if s.source.readyState = .closed then .exhausted else .dropped],
      by simp [onError, hcancelled], ?_⟩
    by_cases hclosed : s.source.readyState = .closed
    · rw [if_pos hclosed]
      rfl
    · rw [if_neg hclosed]
      rfl

theorem events_append (a b : List RealtimeSignal) :
    RealtimeSignal.events (a ++ b) = RealtimeSignal.events a ++ RealtimeSignal.events b :=
  List.filterMap_append

/-- A frame is read, and nothing is handed to the app. -/
theorem step_frame (hwrite : Faithful write) {seq : Nat} {event : ServerEvent}
    (hreading : s.source.reader = EventStream.Reader.between s.source.lastEventId) :
    s.frame write decode seq event =
      { s with
        source := { s.source with
          reader := EventStream.Reader.between ((sseEvent seq event).id.getD s.source.lastEventId)
          lastEventId := (sseEvent seq event).id.getD s.source.lastEventId }
        received := s.received ++ [(seq, event)] } := by
  have hread := hwrite (sseEvent seq event) s.source.lastEventId (plain_sseEvent seq event)
  -- The one message in it has a name, so listeners for messages hear nothing.
  have hheard : EventSource.heard ((sseEvent seq event).messages s.source.lastEventId) = [] := by
    simp [EventSource.heard, EventStream.Frame.messages, sseEvent, name_ne_default]
  simp only [frame, hreading, hread, hheard]
  simp [EventStream.Reader.between]

/-- Whatever the answer, the ticket is used up, the app hears of no event, and a source that
    has been refused has given up. -/
theorem connect_eq (s : SseTier) (ip : String) (hub : Option Nat) :
    ∃ answer tickets state reader signals,
      (answer, tickets) =
        sseHandler s.tickets s.suspended s.source.ticket ip s.now s.source.header hub ∧
      s.connect ip hub =
        { s with
          tickets := tickets
          reopenings := s.noted answer
          source := { s.source with readyState := state, reader := reader }
          opened := s.opened || decide (state = .live)
          app := s.app ++ signals } ∧
      RealtimeSignal.events signals = [] ∧
      (reader = s.source.reader ∨ reader = EventStream.Reader.between s.source.lastEventId) := by
  rcases hanswer : sseHandler s.tickets s.suspended s.source.ticket ip s.now s.source.header hub
    with ⟨answer, tickets⟩
  cases answer with
  | accepted cursor =>
      refine ⟨_, _, .live, EventStream.Reader.between s.source.lastEventId,
        [.connected, .healthy], rfl, ?_, rfl, Or.inr rfl⟩
      simp [connect, hanswer]
  | refused status =>
      rcases onError_eq { s with
        tickets := tickets
        reopenings := s.noted (.refused status)
        source := { s.source with readyState := .closed } } with ⟨signals, herror, hevents⟩
      refine ⟨_, _, .closed, s.source.reader, signals, rfl, ?_, hevents, Or.inl rfl⟩
      simp [connect, hanswer, herror]

-- A step whose time has not come changes nothing.
theorem keeps_ite {P : SseTier → Prop} {c : Prop} [Decidable c] {s s' : SseTier} (h : P s)
    (hmet : c → P s') : P (if c then s' else s) := by
  by_cases hc : c
  · rw [if_pos hc]
    exact hmet hc
  · rw [if_neg hc]
    exact h

-- An event that is replayed becomes the last one, and another one leaves it as it was.
theorem lastReplayable_append {t : SseTier} {seq : Nat} {event : ServerEvent}
    (h : t.received = s.received ++ [(seq, event)]) :
    t.lastReplayable = if event.isReplayable then some seq else s.lastReplayable := by
  by_cases hreplay : event.isReplayable = true
  · simp [lastReplayable, h, hreplay]
  · simp [lastReplayable, h, hreplay]

/-- Every step keeps track. -/
theorem tracked_step (hwrite : Faithful write) {id : String} (s : SseTier) (input : SseInput)
    (h : Tracked id s) : Tracked id (step write decode s input) := by
  cases input with
  | connect ip hub =>
      refine keeps_ite h fun _ => ?_
      rcases connect_eq s ip hub with ⟨_, _, _, reader, _, -, heq, -, hreader⟩
      rw [heq]
      refine ⟨h.ticket, ?_, h.place⟩
      rcases hreader with rfl | rfl
      · exact h.reading
      · rfl
  | unreachable =>
      refine keeps_ite h fun _ => ?_
      rcases s.onError_eq with ⟨_, heq, -⟩
      rw [heq]
      exact ⟨h.ticket, h.reading, h.place⟩
  | frame seq event =>
      refine keeps_ite h fun _ => ?_
      rw [step_frame hwrite h.reading]
      refine ⟨h.ticket, rfl, ?_⟩
      rw [lastReplayable_append rfl]
      by_cases hreplay : event.isReplayable = true
      · simp [sseEvent, hreplay]
      · simp [sseEvent, hreplay, h.place]
  | drop =>
      refine keeps_ite h fun _ => ?_
      rcases onError_eq { s with source := { s.source with readyState := .connecting } } with
        ⟨_, heq, -⟩
      rw [heq]
      exact ⟨h.ticket, h.reading, h.place⟩
  | _ => exact ⟨h.ticket, h.reading, h.place⟩

/-- A source that has been let in once has used its ticket up. -/
def Used (id : String) (s : SseTier) : Prop := s.opened = true → s.tickets.Absent id

theorem used_step (hwrite : Faithful write) {id : String} (s : SseTier) (input : SseInput)
    (hfresh : Fresh id input) (htracked : Tracked id s) (h : Used id s) :
    Used id (step write decode s input) := by
  cases input with
  | connect ip hub =>
      refine keeps_ite h fun _ => ?_
      rcases connect_eq s ip hub with ⟨answer, tickets, _, _, _, hanswer, heq, -, -⟩
      rw [heq]
      intro _
      have habsent := absent_sseHandler s.tickets s.suspended s.source.ticket ip s.now
        s.source.header hub
      rw [← hanswer, htracked.ticket] at habsent
      exact habsent
  | unreachable =>
      refine keeps_ite h fun _ => ?_
      rcases s.onError_eq with ⟨_, heq, -⟩
      rw [heq]
      exact h
  | frame seq event =>
      refine keeps_ite h fun _ => ?_
      rw [step_frame hwrite htracked.reading]
      exact h
  | drop =>
      refine keeps_ite h fun _ => ?_
      rcases onError_eq { s with source := { s.source with readyState := .connecting } } with
        ⟨_, heq, -⟩
      rw [heq]
      exact h
  | issue id' wallet ip => exact fun hopened => TicketStore.absent_issue (h hopened) hfresh
  | _ => exact h

/-- A silent step tells the app of no event, and lets nobody come back. -/
theorem delivers_step (s : SseTier) (input : SseInput) (hsilent : Silent s input)
    (h : Delivers s) : Delivers (step write decode s input) := by
  have hquiet : ∀ (t : SseTier) signals, t.app = s.app ++ signals →
      RealtimeSignal.events signals = [] → t.received = s.received →
        t.reopenings = s.reopenings → Delivers t := by
    intro t signals happ hevents hreceived hreopenings
    refine ⟨?_, ?_⟩
    · rw [happ, events_append, hevents, List.append_nil, hreceived]
      exact h.handed
    · rw [hreopenings]
      exact h.resumed
  cases input with
  | connect ip hub =>
      refine keeps_ite h fun hstate => ?_
      rcases connect_eq s ip hub with ⟨_, _, _, _, signals, -, heq, hevents, -⟩
      rw [heq]
      refine hquiet _ signals rfl hevents rfl ?_
      simp [noted, hsilent hstate]
  | unreachable =>
      refine keeps_ite h fun _ => ?_
      rcases s.onError_eq with ⟨signals, heq, hevents⟩
      rw [heq]
      exact hquiet _ signals rfl hevents rfl rfl
  | frame seq event =>
      refine keeps_ite h fun hstate => ?_
      exact absurd hstate hsilent
  | drop =>
      refine keeps_ite h fun _ => ?_
      rcases onError_eq { s with source := { s.source with readyState := .connecting } } with
        ⟨signals, heq, hevents⟩
      rw [heq]
      exact hquiet _ signals rfl hevents rfl rfl
  | _ => exact ⟨h.handed, h.resumed⟩

/-- A step that is not silent breaks the tier. -/
theorem silent_of_delivers (hwrite : Faithful write) {id : String} (s : SseTier)
    (input : SseInput) (htracked : Tracked id s) (hused : Used id s) (h : Delivers s)
    (hnext : Delivers (step write decode s input)) : Silent s input := by
  cases input with
  | frame seq event =>
      intro hstate
      -- The event is among those that came, and not among those the app was handed.
      rw [step, if_pos hstate, step_frame hwrite htracked.reading] at hnext
      have hlonger := hnext.handed
      simp only [h.handed, List.map_append, List.map_cons, List.map_nil] at hlonger
      exact absurd hlonger (by simp)
  | connect ip hub =>
      intro hstate
      by_contra hopened
      have hopened : s.opened = true := by simpa using hopened
      have hrefused := sseHandler_of_absent s.tickets s.suspended id ip s.now s.source.header hub
        (hused hopened)
      rcases connect_eq s ip hub with ⟨answer, tickets, _, _, signals, hanswer, heq, -, -⟩
      rw [htracked.ticket] at hanswer
      rw [← hanswer] at hrefused
      rw [step, if_pos hstate, heq] at hnext
      have hlast := hnext.resumed ⟨answer, s.lastReplayable⟩ (by simp [noted, hopened])
      simp only at hlast hrefused
      rw [hrefused] at hlast
      cases hlast
  | _ => trivial

theorem tracked_start (tickets : TicketStore) (now : Int) (suspended : List WalletAddress)
    (id : String) : Tracked id (start tickets now suspended id) := ⟨rfl, rfl, rfl⟩

end Steps

/-- The tier delivers in exactly the runs in which there is nothing to deliver: no event
    comes over the stream, and the source, once let in, does not come back. -/
theorem delivers_iff (write : EventStream.Frame → List Char)
    (decode : List Char → Option ServerEvent) (hwrite : Faithful write) (tickets : TicketStore) (now : Int)
    (suspended : List WalletAddress) (id : String) (inputs : List SseInput)
    (hfresh : ∀ input ∈ inputs, Fresh id input) :
    Run.Throughout (step write decode) Delivers (start tickets now suspended id) inputs ↔
      Run.Along (step write decode) Silent (start tickets now suspended id) inputs := by
  have hstart : Delivers (start tickets now suspended id) := ⟨rfl, fun _ h => nomatch h⟩
  refine Run.throughout_iff_along_of (G := Fresh id)
    (J := fun s => Tracked id s ∧ Used id s ∧ Delivers s) ?_ (fun s h => h.2.2) ?_ _ _ hfresh
    ⟨tracked_start tickets now suspended id, nofun, hstart⟩
  · rintro s input hinput ⟨htracked, hused, h⟩ hsilent
    exact ⟨tracked_step hwrite s input htracked, used_step hwrite s input hinput htracked hused,
      delivers_step s input hsilent h⟩
  · rintro s input - ⟨htracked, hused, h⟩ hnext
    exact silent_of_delivers hwrite s input htracked hused h hnext

/-- Wherever a run has led, the source would come back with the number of the last event
    it has received that is replayed, as a header the server understands. -/
theorem presents_last_id (write : EventStream.Frame → List Char)
    (decode : List Char → Option ServerEvent) (hwrite : Faithful write) (tickets : TicketStore) (now : Int)
    (suspended : List WalletAddress) (id : String) (inputs : List SseInput)
    (hseq : ∀ r ∈ (Run.run (step write decode) (start tickets now suspended id) inputs).received,
      r.1 < 2 ^ 64) :
    ((Run.run (step write decode) (start tickets now suspended id) inputs).source.header.bind
      parseCursor) =
        (Run.run (step write decode) (start tickets now suspended id) inputs).lastReplayable := by
  have hstep : ∀ (s : SseTier) (input : SseInput), Tracked id s →
      Tracked id (step write decode s input) := tracked_step hwrite
  have htracked := Run.run_inv hstep _ inputs (tracked_start tickets now suspended id)
  generalize Run.run (step write decode) (start tickets now suspended id) inputs = s at *
  have hplace := htracked.place
  cases hlast : s.lastReplayable with
  | none => simp [EventSource.header, hplace, hlast]
  | some seq =>
      have hsmall : seq < 2 ^ 64 := by
        rcases Option.map_eq_some_iff.1 hlast with ⟨r, hr, rfl⟩
        exact hseq r (List.mem_filter.1 (List.mem_of_getLast? hr)).1
      simp [EventSource.header, hplace, hlast, parseCursor_toDigits hsmall, Nat.toDigits_ne_nil]

end SseTier

namespace Sample

/-- The ticket Alice has just been issued. -/
def aliceTickets : TicketStore := TicketStore.issue [] "evt_1" alice "203.0.113.7" 0

/-- A client that knows one event. -/
def decodeRoomsUpdated (text : List Char) : Option ServerEvent :=
  if text = ServerEvent.roomsUpdated.toJson then some .roomsUpdated else none

/-- The stream is opened, an event comes, the connection drops and the source comes back. -/
def dropAndBack : List SseInput :=
  [.connect "203.0.113.7" none, .frame 7 .roomsUpdated, .drop, .elapse 3000,
    .connect "203.0.113.7" none]

theorem dropAndBack_delivers_iff :
    Run.Throughout (SseTier.step wire decodeRoomsUpdated) SseTier.Delivers
        (SseTier.start aliceTickets 0 [] "evt_1") dropAndBack ↔
      Run.Along (SseTier.step wire decodeRoomsUpdated) SseTier.Silent
        (SseTier.start aliceTickets 0 [] "evt_1") dropAndBack :=
  SseTier.delivers_iff wire decodeRoomsUpdated feed_wire aliceTickets 0 [] "evt_1" dropAndBack
    (by simp [dropAndBack, SseTier.Fresh])

/-- The app is handed nothing, although the client could read the event, and the source that
    comes back is refused. -/
theorem dropAndBack_delivers_nothing :
    ¬ Run.Throughout (SseTier.step wire decodeRoomsUpdated) SseTier.Delivers
        (SseTier.start aliceTickets 0 [] "evt_1") dropAndBack ∧
      (Run.run (SseTier.step wire decodeRoomsUpdated) (SseTier.start aliceTickets 0 [] "evt_1")
        dropAndBack).app = [.connected, .healthy, .dropped, .exhausted] := by
  refine ⟨fun h => ?_, by decide +kernel⟩
  have hlast := (Run.throughout_last _ _ h).handed
  revert hlast
  decide +kernel

end Sample

end PocketSkynet
