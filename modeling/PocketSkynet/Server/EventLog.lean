import PocketSkynet.Lib.Lines
import PocketSkynet.Lib.Run
import PocketSkynet.Lib.Table

/-!
# The Event Log

An append-only log in one segment a day, numbered by one counter. The counter
lives in memory. It is written to a marker file whenever a batch is synced, and
recovered at start from the marker and from the newest segment, whichever knows
more.

An operation is a list of effects on the disk, and a process can die after any
number of them: a line is written byte by byte, and the marker is truncated
before it is rewritten. Nothing that reached the disk is lost. An append answers
with its number only after its last effect.

What a record says besides its number is opaque, and so is how it is written
down: `Codec` is the serialiser, and `Codec.Lawful` what the log relies on.

## Main definitions

* `Codec`, `Codec.Lawful`: How records are written and read back.
* `Disk`, `Effect`, `Disk.perform`: The directory and what happens to it.
* `recoverNextSeq`: Where the counter left off.
* `Inner`, `Inner.rotate`, `Inner.append`: The open log.
* `Plan`, `plan`: An operation as the effects it has and the answer it gives.
-/

namespace PocketSkynet

/-- A UTC date. The names of the segments sort as their dates do. -/
abbrev Day := Nat

/-- The byte that ends a line. -/
def newline : UInt8 := 10

/-- What recovery makes of a line: bytes that are no text, a blank line, a text
    that is no record, or a record with its number. -/
inductive Line where
  | notText
  | blank
  | junk
  | record (seq : Nat)
deriving DecidableEq, Repr

/-- How records are written down and read back. `β` is everything a record holds
    besides its number. -/
structure Codec (β : Type) where
  encode : Nat → β → List UInt8
  read : List UInt8 → Line
  /-- The first record of a segment, which names the previous one. -/
  rotated : Day → β
  /-- The record a log writes about its own recovery. -/
  recovered : Nat → Bool → β

/-- A record is written on one line, and read back with the number it was given. -/
structure Codec.Lawful {β : Type} (c : Codec β) : Prop where
  oneLine : ∀ seq body, newline ∉ c.encode seq body
  read_encode : ∀ seq body, c.read (c.encode seq body) = .record seq

/-- Lines appended after which a batch is synced. -/
def syncEveryLines : Nat := 64

/-- The first sequence number ever handed out. -/
def firstSeq : Nat := 1

/-- The directory of the log: what `events.seq` holds, if it holds a number, and
    the segments. -/
structure Disk where
  marker : Option Nat
  segments : List (Day × List UInt8)
deriving DecidableEq, Repr

/-- One thing that happens to the disk. -/
inductive Effect where
  | create (day : Day)
  | write (day : Day) (byte : UInt8)
  | truncateMarker
  | writeMarker (seq : Nat)
deriving DecidableEq, Repr

namespace Disk

/-- The segment whose name sorts last. -/
def newest (d : Disk) : Option (Day × List UInt8) :=
  d.segments.foldl (fun best s => if best.all (·.1 < s.1) then some s else best) none

/-- The disk after an effect. A segment that exists is opened, not created. -/
def perform (d : Disk) : Effect → Disk
  | .create day => { d with segments := Table.insertNew Prod.fst (day, []) d.segments }
  | .write day byte =>
      { d with segments :=
          Table.modify Prod.fst day (fun s => (s.1, s.2 ++ [byte])) d.segments }
  | .truncateMarker => { d with marker := none }
  | .writeMarker seq => { d with marker := some seq }

end Disk

/-- What recovery found out. -/
structure Recovery where
  nextSeq : Nat
  recoveredFromScan : Bool
  discardedTornLine : Bool
deriving DecidableEq, Repr

/-- The number after the last record of a segment, and whether its last line that
    is not blank failed to parse. Bytes that are no text end the scan. -/
def scan {β : Type} (c : Codec β) (bytes : List UInt8) : Option (Nat × Bool) :=
  (Lines.lines newline bytes).foldlM (fun acc line =>
    match c.read line with
    | .notText => none
    | .blank => some acc
    | .junk => some (acc.1, true)
    | .record seq => some (max acc.1 (seq + 1), false)) (0, false)

/-- What the newest segment has to say, if there is one. -/
def scanNewest {β : Type} (c : Codec β) (d : Disk) : Option (Nat × Bool) :=
  match d.newest with
  | some s => scan c s.2
  | none => some (0, false)

/-- Work out where the sequence counter left off. -/
def recoverNextSeq {β : Type} (c : Codec β) (d : Disk) : Option Recovery :=
  (scanNewest c d).map fun files =>
    { nextSeq := max (max (d.marker.getD 0) files.1) firstSeq
      recoveredFromScan := decide (d.marker.getD 0 < files.1)
      discardedTornLine := files.2 }

/-- An open log. -/
structure Inner where
  nextSeq : Nat
  day : Day
  unsynced : Nat
deriving DecidableEq, Repr

/-- An append: the effects before its line, the line, the effects after it, the
    log it leaves and the number it answers with. -/
structure Append where
  before : List Effect
  line : List Effect
  after : List Effect
  inner : Inner
  seq : Nat

/-- A line in a segment, byte by byte. -/
def writeLine (day : Day) (text : List UInt8) : List Effect :=
  (text ++ [newline]).map (Effect.write day)

namespace Inner

/-- Record the watermark. -/
def sync (i : Inner) : List Effect := [.truncateMarker, .writeMarker i.nextSeq]

variable {β : Type} (c : Codec β)

/-- Go over to the segment of another day. Its first line points back at the old
    one; the line is buffered and reaches the disk with the next append. -/
def rotate (i : Inner) (day : Day) : List Effect × Inner :=
  (i.sync ++ .create day :: writeLine day (c.encode i.nextSeq (c.rotated i.day)),
    ⟨i.nextSeq + 1, day, 0⟩)

/-- Append a record. `elapsed` says that the last sync is long enough ago. -/
def append (i : Inner) (day : Day) (body : β) (elapsed : Bool) : Append :=
  let start := if day = i.day then ([], i) else i.rotate c day
  let inner : Inner := ⟨start.2.nextSeq + 1, start.2.day, start.2.unsynced + 1⟩
  let due := decide (syncEveryLines ≤ inner.unsynced) || elapsed
  { before := start.1
    line := writeLine start.2.day (c.encode start.2.nextSeq body)
    after := if due then inner.sync else []
    inner := if due then { inner with unsynced := 0 } else inner
    seq := start.2.nextSeq }

end Inner

/-- An operation on the log. -/
inductive LogOp (β : Type) where
  /-- `day` is the date when the log writes about its own recovery, if it does. -/
  | open (today day : Day) (elapsed : Bool)
  | append (day : Day) (body : β) (elapsed : Bool)
  | flush
  | close
deriving DecidableEq, Repr

/-- What an operation does: effects, a record of its own between them if it
    writes one, and the log it leaves. -/
structure Plan where
  before : List Effect
  line : List Effect
  after : List Effect
  inner : Option Inner
  returned : Option Nat

namespace Plan

/-- An operation that does nothing. -/
def idle (inner : Option Inner) : Plan := ⟨[], [], [], inner, none⟩

/-- An append, after some effects of its own. -/
def appending (first : List Effect) (a : Append) : Plan :=
  ⟨first ++ a.before, a.line, a.after, some a.inner, some a.seq⟩

/-- Everything the operation does to the disk. -/
def effects (p : Plan) : List Effect := p.before ++ (p.line ++ p.after)

/-- A crash after `cut` effects leaves the whole line of the operation's record. -/
def written (p : Plan) (cut : Nat) : Bool :=
  p.returned.isSome && decide (p.before.length + p.line.length ≤ cut)

end Plan

/-- What an operation does in a given state of the disk and the process. A log
    whose recovery fails does not open, and there is one process at a time. -/
def plan {β : Type} (c : Codec β) (d : Disk) : Option Inner → LogOp β → Plan
  | none, .open today day elapsed =>
      match recoverNextSeq c d with
      | none => Plan.idle none
      | some r =>
          let inner : Inner := ⟨r.nextSeq, today, 0⟩
          if r.recoveredFromScan then
            Plan.appending [.create today]
              (inner.append c day (c.recovered r.nextSeq r.discardedTornLine) elapsed)
          else ⟨[.create today], [], [], some inner, none⟩
  | some i, .append day body elapsed => Plan.appending [] (i.append c day body elapsed)
  | some i, .flush => ⟨i.sync, [], [], some { i with unsynced := 0 }, none⟩
  | some _, .close => Plan.idle none
  | inner, _ => Plan.idle inner

end PocketSkynet
