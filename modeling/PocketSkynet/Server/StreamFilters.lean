import PocketSkynet.Core.EventValue
import PocketSkynet.Server.Delivery
import PocketSkynet.Server.ViewFreshness

/-!
# The Two Filters of a Stream

An event reaches a stream by one of two ways. Live it is broadcast to every connection, which
tries its view on it. On a resume it is read back from the log, where it is a record among others,
and then the view is tried on it. The view is the same while memberships and blocks stay the same.

So the two ways agree, up to the transient events, which are not replayed on purpose, and up to
cursors that the log does not serve, for which the stream says so. `Permitted` says in terms of
the database whom an event is for.

## Main definitions

* `Record`, `Record.serverEvent`: A record of the log, and the event in it.
* `LogEntry`, `LogEntry.record`, `written`: What is appended, and the records of it.
* `hubReplaySince`: The records after a cursor that a viewer may see.
* `follow`: A live stream that keeps up.
* `Permitted`: Whom an event is for.

## Theorems

* `frames_follow`, `frames_resume`: What the two ways deliver.
* `replay_agrees_with_live`: They agree on the events that can be replayed.
* `typing_only_live`: A typing indicator is delivered live and not replayed.
-/

namespace PocketSkynet

/-- Which stream a record belongs to. -/
inductive RecordKind where
  | realtime
  | audit
  | system
deriving DecidableEq, Repr

/-- One line of the log. -/
structure Record where
  seq : Nat
  kind : RecordKind
  target : Option Target
  origin : Option WalletAddress
  event : JsonValue
  fanout : Option Nat

namespace Record

/-- The event of a record. Only what was fanned out is one. -/
def serverEvent (r : Record) : Option ServerEvent :=
  if r.kind ≠ .realtime then none else ServerEvent.ofValue r.event

/-- The envelope of a record, if there is an event in it that has a target. -/
def envelope (r : Record) : Option Envelope :=
  if r.kind ≠ .realtime then none
  else r.serverEvent.bind fun event => r.target.map fun target => ⟨r.seq, target, r.origin, event⟩

/-- The record as the hub sees it. -/
def logRecord (r : Record) : LogRecord := ⟨r.seq, r.envelope⟩

end Record

/-- What is appended to the log. -/
inductive LogEntry where
  | event (target : Target) (origin : Option WalletAddress) (event : ServerEvent) (fanout : Nat)
  | audit (action : String) (actor : Option WalletAddress) (detail : JsonValue)
  | system (action : String) (detail : JsonValue)

namespace LogEntry

/-- The record of an entry. -/
def record (seq : Nat) : LogEntry → Record
  | event target origin e fanout =>
      ⟨seq, .realtime, some target, origin, e.toValue, some fanout⟩
  | audit action actor detail =>
      ⟨seq, .audit, none, actor, .obj [("type", .str action), ("detail", detail)], none⟩
  | system action detail =>
      ⟨seq, .system, none, none, .obj [("type", .str action), ("detail", detail)], none⟩

/-- What is fanned out. -/
def publication : LogEntry → Option (Target × Option WalletAddress × ServerEvent)
  | event target origin e _ => some (target, origin, e)
  | _ => none

/-- The envelope that is broadcast. -/
def sent (seq : Nat) (entry : LogEntry) : Option Envelope :=
  entry.publication.map fun p => ⟨seq, p.1, p.2.1, p.2.2⟩

/-- What is broadcast is in the record. -/
theorem envelope_record (seq : Nat) (entry : LogEntry) :
    (entry.record seq).envelope = entry.sent seq := by
  cases entry with
  | event target origin e fanout =>
      have hread : ((event target origin e fanout).record seq).serverEvent = some e :=
        ServerEvent.ofValue_toValue e
      rw [Record.envelope, hread]
      rfl
  | audit action actor detail => rfl
  | system action detail => rfl

end LogEntry

/-- The entries with their numbers. -/
def numbered (entries : List LogEntry) : List (LogEntry × Nat) := entries.zipIdx 1

/-- The records of a log that was opened empty. -/
def written (entries : List LogEntry) : List Record :=
  (numbered entries).map fun e => e.1.record e.2

/-- The log as the hub sees it. -/
def logOf (entries : List LogEntry) : EventLog :=
  ⟨(written entries).map Record.logRecord, entries.length + 1⟩

/-- What was broadcast after a cursor. -/
def sentSince (entries : List LogEntry) (cursor : Nat) : List Envelope :=
  ((numbered entries).filter fun e => cursor < e.2).filterMap fun e => e.1.sent e.2

/-- One record of a replay. -/
def replayRecord (view : ConnView) (wallet : WalletAddress) (r : Record) : Option Envelope :=
  if r.kind ≠ .realtime then none
  else r.serverEvent.bind fun event => r.target.bind fun target =>
    if ¬ event.isReplayable then none
    else
      let envelope : Envelope := ⟨r.seq, target, r.origin, event⟩
      if view.accepts envelope wallet then some envelope else none

/-- Replay retained records after the cursor that this connection may see. -/
def hubReplaySince (records : List Record) (refused : Bool) (cursor : Nat) (view : ConnView)
    (wallet : WalletAddress) : Option (List Envelope) :=
  let after := records.filter fun r => cursor < r.seq
  if refused || maxReplay < after.length then none
  else some (after.filterMap (replayRecord view wallet))

section

variable {entries : List LogEntry} {entry : LogEntry} {view : ConnView} {me : WalletAddress}
  {cursor : Nat} {refused : Bool}

/-- An entry is appended as the hub appends it. -/
theorem logOf_concat : logOf (entries ++ [entry]) = (logOf entries).append entry.publication := by
  have hnumber : numbered (entries ++ [entry]) =
      numbered entries ++ [(entry, entries.length + 1)] := by
    rw [numbered, List.zipIdx_append, Nat.add_comm]
    rfl
  have hrecord : (entry.record (entries.length + 1)).logRecord =
      ⟨entries.length + 1, entry.sent (entries.length + 1)⟩ := by
    rw [Record.logRecord, LogEntry.envelope_record]
    cases entry <;> rfl
  rw [logOf, written, hnumber, List.map_append, List.map_append, List.length_append]
  refine congrArg (fun records : List LogRecord => (⟨records, _⟩ : EventLog)) ?_
  exact congrArg (fun r => _ ++ [r]) hrecord

theorem replayRecord_eq (r : Record) : replayRecord view me r =
    r.envelope.filter fun e => e.event.isReplayable && view.accepts e me := by
  unfold replayRecord Record.envelope
  by_cases hkind : r.kind ≠ .realtime
  · rw [if_pos hkind, if_pos hkind]
    rfl
  · rw [if_neg hkind, if_neg hkind]
    cases r.serverEvent with
    | none => rfl
    | some event =>
        cases r.target with
        | none => rfl
        | some target =>
            by_cases hreplay : event.isReplayable = true
            · simp [hreplay, Option.filter_some]
            · simp [hreplay, Option.filter_some]

/-- The hub replays what it has logged. -/
theorem replaySince_written : hubReplaySince (written entries) refused cursor view me =
    (logOf entries).replaySince refused cursor view me := by
  have hafter : (logOf entries).records.filter (fun r => decide (cursor < r.seq)) =
      ((written entries).filter fun r => decide (cursor < r.seq)).map Record.logRecord :=
    List.filter_map
  unfold hubReplaySince EventLog.replaySince
  dsimp only
  rw [hafter, List.length_map, List.filterMap_map]
  have heach : (fun r : LogRecord => r.envelope.filter fun e =>
      e.event.isReplayable && view.accepts e me) ∘ Record.logRecord = replayRecord view me :=
    funext fun r => (replayRecord_eq r).symm
  rw [heach]

theorem seq_record (seq : Nat) (entry : LogEntry) : (entry.record seq).seq = seq := by
  cases entry <;> rfl

-- The envelopes of the records after the cursor are what was broadcast.
theorem envelopes_since :
    ((logOf entries).records.filter fun r => decide (cursor < r.seq)).filterMap LogRecord.envelope =
      sentSince entries cursor := by
  have hseq : ∀ e : LogEntry × Nat, (e.1.record e.2).logRecord.seq = e.2 :=
    fun e => seq_record e.2 e.1
  have henvelope : ∀ e : LogEntry × Nat, (e.1.record e.2).logRecord.envelope = e.1.sent e.2 :=
    fun e => LogEntry.envelope_record e.2 e.1
  rw [logOf, written, List.map_map, List.filter_map, List.filterMap_map, sentSince]
  simp only [Function.comp_def, hseq, henvelope]

/-- What a replay delivers, if the cursor is served. -/
theorem replaySince_eq : (logOf entries).replaySince refused cursor view me =
    if refused || maxReplay < ((logOf entries).records.filter fun r => cursor < r.seq).length then
      none
    else some ((sentSince entries cursor).filter fun e =>
      e.event.isReplayable && view.accepts e me) := by
  rw [EventLog.replaySince, ← envelopes_since, List.filter_filterMap]

end

/-! ### The two ways -/

/-- A live stream that keeps up: each event is read as soon as it is broadcast. -/
def follow (view : ConnView) (me : WalletAddress) (log : EventLog) (s : SseStream)
    (sent : List Envelope) : SseStream :=
  sent.foldl
    (fun s env => { s with receiver := s.receiver.push env }.recv view me log false false) s

/-- A stream that has just gone live, and has read everything. -/
def liveStream : SseStream := ⟨.live, ⟨[], 0⟩, [], []⟩

/-- Whom a target is for, given the rooms somebody is in. -/
def Target.Reaches (inRoom : RoomId → Prop) (me : WalletAddress) : Target → Prop
  | .room roomId => inRoom roomId
  | .user wallet => wallet = me
  | .roomExcept roomId except => inRoom roomId ∧ except ≠ me
  | .rooms roomIds => ∃ roomId ∈ roomIds, inRoom roomId
  | .all => True

/-- The viewer hears from whoever made the event: neither has blocked the other. It is for a room
    the viewer is in, and asked for if it asked for one, or for the viewer, or for everyone. -/
structure Permitted (db : Subscriptions) (only : Option RoomId) (me : WalletAddress)
    (env : Envelope) : Prop where
  origin : ∀ wallet ∈ env.origin, wallet ∉ db.blocked ∧ wallet ∉ db.blockers
  target : env.target.Reaches (fun roomId => roomId ∈ db.memberOf ∧ ∀ room ∈ only, roomId = room) me

section

variable {db : Subscriptions} {only : Option RoomId} {entries : List LogEntry} {view : ConnView}
  {me : WalletAddress} {cursor : Nat} {refused : Bool} {log : EventLog}

theorem mem_rooms_narrow {roomId : RoomId} : roomId ∈ (db.loadView.narrow only).rooms ↔
    roomId ∈ db.memberOf ∧ ∀ room ∈ only, roomId = room := by
  cases only with
  | none => exact ⟨fun h => ⟨h, fun _ hroom => by cases hroom⟩, And.left⟩
  | some room =>
      refine (List.mem_filter (p := fun r => decide (r = room))).trans ?_
      rw [decide_eq_true_eq]
      refine and_congr_right fun _ => ⟨fun h r hr => ?_, fun h => h room rfl⟩
      exact h.trans (Option.some.inj hr)

theorem mem_blocks_narrow {wallet : WalletAddress} : wallet ∈ (db.loadView.narrow only).blocks ↔
    wallet ∈ db.blocked ∨ wallet ∈ db.blockers := by
  cases only <;> exact List.mem_union_iff

/-- A view accepts what its owner is permitted to see. -/
theorem accepts_iff_permitted (env : Envelope) :
    (db.loadView.narrow only).accepts env me = true ↔ Permitted db only me env := by
  have hblocked : env.origin.any ((db.loadView.narrow only).blocks.contains ·) = true ↔
      ¬ ∀ wallet ∈ env.origin, wallet ∉ db.blocked ∧ wallet ∉ db.blockers := by
    cases horigin : env.origin with
    | none => simp
    | some wallet => simp [mem_blocks_narrow, imp_iff_not_or]
  unfold ConnView.accepts
  by_cases hb : env.origin.any ((db.loadView.narrow only).blocks.contains ·) = true
  · rw [if_pos hb]
    exact iff_of_false Bool.false_ne_true fun h => hblocked.1 hb h.origin
  · rw [if_neg hb]
    have hfree := not_not.1 (mt hblocked.2 hb)
    have htarget : Permitted db only me env ↔ env.target.Reaches
        (fun roomId => roomId ∈ db.memberOf ∧ ∀ room ∈ only, roomId = room) me :=
      ⟨Permitted.target, fun h => ⟨hfree, h⟩⟩
    rw [htarget]
    -- What is left is the target, case by case.
    cases env.target with
    | room roomId =>
        dsimp only [Target.Reaches]
        rw [List.contains_iff_mem, mem_rooms_narrow]
    | user wallet => exact beq_iff_eq
    | roomExcept roomId except =>
        dsimp only [Target.Reaches]
        rw [Bool.and_eq_true, List.contains_iff_mem, mem_rooms_narrow, bne_iff_ne]
    | rooms roomIds =>
        dsimp only [Target.Reaches]
        rw [List.any_eq_true]
        simp only [List.contains_iff_mem, mem_rooms_narrow]
    | all => exact iff_of_true rfl trivial

/-- What a live stream that keeps up delivers. -/
theorem follow_eq (s : SseStream) (hlive : s.phase = .live) (hread : s.receiver = ⟨[], 0⟩)
    (sent : List Envelope) : follow view me log s sent =
      { s with frames :=
          s.frames ++ (sent.filter (view.accepts · me)).map SseStream.publishedFrame } := by
  induction sent generalizing s with
  | nil =>
      rw [List.filter_nil, List.map_nil, List.append_nil]
      rfl
  | cons env sent ih =>
      have hpush : s.receiver.push env = ⟨[env], 0⟩ := by
        rw [hread]
        rfl
      have hfollow : follow view me log s (env :: sent) = follow view me log
          ({ s with receiver := s.receiver.push env }.recv view me log false false) sent := rfl
      have hrecv : { s with receiver := s.receiver.push env }.recv view me log false false =
          if view.accepts env me then
            { s with frames := s.frames ++ [SseStream.publishedFrame env] }
          else s := by
        unfold SseStream.recv
        dsimp only
        rw [if_neg (not_not.2 hlive), hpush, if_neg (Nat.lt_irrefl 0)]
        dsimp only
        cases hview : view.accepts env me with
        | false => simp [← hread]
        | true => simp [SseStream.emit, ← hread]
      rw [hfollow, hrecv]
      by_cases hview : view.accepts env me = true
      · have hkept : (env :: sent).filter (view.accepts · me) =
            env :: sent.filter (view.accepts · me) :=
          List.filter_cons_of_pos (p := (view.accepts · me)) hview
        rw [if_pos hview, ih { s with frames := s.frames ++ [SseStream.publishedFrame env] } hlive
          hread, hkept, List.map_cons, List.append_assoc, List.singleton_append]
      · have hdropped : (env :: sent).filter (view.accepts · me) =
            sent.filter (view.accepts · me) :=
          List.filter_cons_of_neg (p := (view.accepts · me)) hview
        rw [if_neg hview, ih s hlive hread, hdropped]

/-- What a stream that resumes delivers first. -/
theorem frames_resume : ((SseStream.opened (some cursor)).replay view me log refused).frames =
    ((log.replaySince refused cursor view me).map fun sent =>
      sent.map SseStream.publishedFrame).getD
        [⟨log.laggedSeq, .resyncRequired .cursorTooOld cursor log.laggedSeq, false⟩] := by
  unfold SseStream.replay SseStream.opened
  dsimp only
  cases log.replaySince refused cursor view me with
  | none => rfl
  | some sent => rfl

/-- **The two filters agree.** Of what was broadcast after a cursor, a live stream delivers the
    events that its viewer is permitted to see. A stream that resumes from the cursor delivers the
    same events but for the transient ones, or says that it cannot. -/
theorem replay_agrees_with_live (entries : List LogEntry) (db : Subscriptions)
    (only : Option RoomId) (me : WalletAddress) (cursor : Nat) (refused : Bool) :
    (follow (db.loadView.narrow only) me (logOf entries) liveStream
        (sentSince entries cursor)).frames =
      ((sentSince entries cursor).filter fun env =>
        (db.loadView.narrow only).accepts env me).map SseStream.publishedFrame ∧
    (∀ env, (db.loadView.narrow only).accepts env me = true ↔ Permitted db only me env) ∧
    ((SseStream.opened (some cursor)).replay (db.loadView.narrow only) me (logOf entries)
        refused).frames =
      if refused || maxReplay < ((logOf entries).records.filter fun r => cursor < r.seq).length then
        [⟨(logOf entries).laggedSeq, .resyncRequired .cursorTooOld cursor (logOf entries).laggedSeq,
          false⟩]
      else
        (follow (db.loadView.narrow only) me (logOf entries) liveStream
          (sentSince entries cursor)).frames.filter fun f => f.event.isReplayable := by
  have hlive : (follow (db.loadView.narrow only) me (logOf entries) liveStream
      (sentSince entries cursor)).frames = ((sentSince entries cursor).filter fun env =>
        (db.loadView.narrow only).accepts env me).map SseStream.publishedFrame := by
    rw [follow_eq liveStream rfl rfl]
    rfl
  refine ⟨hlive, accepts_iff_permitted, ?_⟩
  rw [hlive, frames_resume, replaySince_eq]
  by_cases hold : (refused || decide (maxReplay <
      ((logOf entries).records.filter fun r => decide (cursor < r.seq)).length)) = true
  · rw [if_pos hold, if_pos hold]
    rfl
  · rw [if_neg hold, if_neg hold, List.filter_map, List.filter_filter]
    rfl

end

namespace Sample

/-- Bob types in the channel that Alice is in. -/
def bobTypes : List LogEntry := [.event (.room team) (some bob) (.typing team bob) 1]

/-- A typing indicator is delivered live, and it is not replayed. -/
theorem typing_only_live : ¬ ∀ (entries : List LogEntry) (db : Subscriptions)
    (only : Option RoomId) (me : WalletAddress) (cursor : Nat),
    ((logOf entries).records.filter fun r => cursor < r.seq).length ≤ maxReplay →
    ((SseStream.opened (some cursor)).replay (db.loadView.narrow only) me (logOf entries)
        false).frames =
      (follow (db.loadView.narrow only) me (logOf entries) liveStream
        (sentSince entries cursor)).frames := by
  intro h
  have hall := h bobTypes ⟨[team], [], []⟩ none alice 0 (by decide)
  have hlive : (follow ((⟨[team], [], []⟩ : Subscriptions).loadView.narrow none) alice
      (logOf bobTypes) liveStream (sentSince bobTypes 0)).frames = [⟨1, .typing team bob, true⟩] :=
    rfl
  have hreplayed : ((SseStream.opened (some 0)).replay
      ((⟨[team], [], []⟩ : Subscriptions).loadView.narrow none) alice (logOf bobTypes)
        false).frames = [] := by
    decide +kernel
  rw [hlive, hreplayed] at hall
  cases hall

end Sample

end PocketSkynet
