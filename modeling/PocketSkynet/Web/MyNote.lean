import Mathlib.Data.List.Basic
import PocketSkynet.Lib.Run
import PocketSkynet.Lib.Text

/-!
# My Note

The whole of My Note is put in front of the model with every question, so it is bounded:
8000 characters. `append_note` reads the note, adds the length of the new line to it and
refuses a line that does not fit.

What it reads is not always the note. The rows come from the handle of the store that the
turn began with, so a line written earlier in the turn is not among them; where the handle
has none of the room they are fetched, and a page has at most a hundred rows; of what was
read, rows beyond the five hundredth are skipped. And the sum leaves out the line break that
the text of the note has between two lines. So a line may be accepted that the note has no
room for, and then the text is cut from the front.

A call does what it is meant to do exactly where the note, the line break and the line fit
together (`line_good_iff`). A turn reads the note as it is where nothing of it is outside
the rows it reads.

## Main definitions

* `Row`, `noteText`: The rows of the note, and the text a turn makes of those it reads.
* `wholeNote`: The text of the note as it stands.
* `State`, `Event`, `step`: Turns, calls of `append_note` and what the owner does.
* `Readable`: Accepted lines fit, and what a turn reads is the note.
* `Fits`, `Covers`: What a call and a turn must find.

## Theorems

* `line_good_iff`: The lines that fit, characterised.
* `noteText_covers`: A turn that reads all there is reads the note.
* `note_readable`: The note over whole runs.
-/

namespace PocketSkynet

namespace MyNote

/-- How much of My Note rides in every prompt, in characters. -/
def noteBudget : ℕ := 8000

/-- One row of the note, with the text this device reads in it, if it can open it. -/
structure Row where
  isDeleted : Bool
  text : Option (List Char)
deriving DecidableEq, Repr

/-- The rows that are not deleted. -/
def live (rows : List Row) : List Row := rows.filter fun row => !row.isDeleted

/-- What rows say, line by line. -/
def lineTexts (rows : List Row) : List (List Char) :=
  ((rows.filterMap Row.text).map trim).filter fun text => text ≠ []

def joined (texts : List (List Char)) : List Char := List.intercalate ['\n'] texts

/-- The rows of the read that are kept: the deleted ones are left out first, and what is
    skipped is counted over all of them. -/
def roomLines (rows : List Row) (limit : ℕ) : List Row := (live rows).drop (rows.length - limit)

/-- Kept from the end when it overflows. -/
def clipped (text : List Char) : List Char :=
  if text.length ≤ noteBudget then text else '…' :: text.drop (text.length - noteBudget)

/-- The text of the note, made from the rows that were read. -/
def noteText (rows : List Row) : List Char := clipped (joined (lineTexts (roomLines rows 500)))

/-- The rows a read gets: those of the handle, or a page from the server, if it comes. -/
def fetchRows (handle rows : List Row) (fetched : Bool) : List Row :=
  if handle ≠ [] then handle
  else if fetched then rows.drop (rows.length - 100)
  else []

/-- A string argument of a tool. -/
def argStr (text : List Char) : Option (List Char) :=
  if trim text = [] then none else some (trim text)

/-- The text of the note as it stands. -/
def wholeNote (rows : List Row) : List Char := joined (lineTexts (live rows))

/-- A line behind a text. -/
def follow (before line : List Char) : List Char :=
  if before = [] then line else before ++ '\n' :: line

/-- What came of a call that was accepted, and of a turn's read. -/
inductive Record
  | line (before : List Row) (line : List Char)
  | prompt (rows : List Row) (text : List Char)
deriving DecidableEq, Repr

/-- The rows of the note, those of the handle the turn began with, and what happened. -/
structure State where
  rows : List Row
  handle : List Row
  records : List Record
deriving DecidableEq, Repr

def opened (rows : List Row) : State := ⟨rows, [], []⟩

/-- What happens: a turn begins, over what the store holds of the room by then; the model
    calls `append_note`, and the owner approves and the message is sent, or not; the owner
    changes the note. -/
inductive Event
  | turn (store : List Row) (fetched : Bool)
  | append (text : List Char) (fetched written : Bool)
  | owner (rows : List Row)
deriving DecidableEq, Repr

/-- The line a call writes, if it does. -/
def accepted (s : State) (text : List Char) (fetched written : Bool) : Option (List Char) :=
  match argStr text with
  | none => none
  | some line =>
      if (noteText (fetchRows s.handle s.rows fetched)).length + line.length > noteBudget then none
      else if written then some line
      else none

def rowOf (line : List Char) : Row := ⟨false, some line⟩

def step (s : State) : Event → State
  | .turn store fetched =>
      ⟨s.rows, store,
        s.records ++ [.prompt s.rows (noteText (fetchRows store s.rows fetched))]⟩
  | .append text fetched written =>
      match accepted s text fetched written with
      | none => s
      | some line => ⟨s.rows ++ [rowOf line], s.handle, s.records ++ [.line s.rows line]⟩
  | .owner rows => { s with rows := rows }

/-- A line that was accepted stands behind the note, within the budget, and what a turn read
    is the note, with every line in it that is not removed. Both are asked of a note that is
    within the budget itself. -/
def Good : Record → Prop
  | .line before line => (wholeNote before).length ≤ noteBudget →
      wholeNote (before ++ [rowOf line]) = follow (wholeNote before) line ∧
        (wholeNote (before ++ [rowOf line])).length ≤ noteBudget
  | .prompt rows text => (wholeNote rows).length ≤ noteBudget →
      text = wholeNote rows ∧ ∀ line, rowOf line ∈ rows → trim line <:+: text

def Readable (s : State) : Prop := ∀ r ∈ s.records, Good r

/-- Nothing that the note says is outside of what is read: neither in the rows before those
    that were read, nor in those that are skipped. -/
def Covers (read rows : List Row) : Prop :=
  ∃ older, rows = older ++ read ∧ lineTexts (live older) = [] ∧
    lineTexts ((live read).take (read.length - 500)) = []

/-- The note as it stands, a line break and the line are within the budget. -/
def Fits (rows : List Row) (line : List Char) : Prop :=
  (follow (wholeNote rows) line).length ≤ noteBudget

/-- What a turn and an accepted call must find. -/
def Finds (s : State) : Event → Prop
  | .turn store fetched => Covers (fetchRows store s.rows fetched) s.rows
  | .append text fetched written =>
      ∀ line, accepted s text fetched written = some line →
        (wholeNote s.rows).length ≤ noteBudget → Fits s.rows line
  | .owner _ => True

theorem lineTexts_append (rows more : List Row) :
    lineTexts (rows ++ more) = lineTexts rows ++ lineTexts more := by
  simp [lineTexts]

theorem live_append (rows more : List Row) : live (rows ++ more) = live rows ++ live more :=
  List.filter_append ..

-- A line that says something is behind all others.
theorem joined_concat {texts : List (List Char)} (line : List Char)
    (htexts : ∀ text ∈ texts, text ≠ []) :
    joined (texts ++ [line]) = follow (joined texts) line := by
  induction texts with
  | nil => simp [joined, follow]
  | cons text texts ih =>
      have htext := htexts text List.mem_cons_self
      have hrest := ih fun t ht => htexts t (List.mem_cons_of_mem _ ht)
      cases texts with
      | nil => simp [joined, follow, htext]
      | cons next rest =>
          have hne : joined (text :: next :: rest) ≠ [] := by
            simp [joined, List.intercalate_cons_cons, htext]
          have hnext : joined (next :: rest) ≠ [] := by
            intro hnil
            have hempty := htexts next (List.mem_cons_of_mem _ List.mem_cons_self)
            cases rest with
            | nil => exact hempty (by simpa [joined] using hnil)
            | cons r rest => simp [joined, List.intercalate_cons_cons, hempty] at hnil
          rw [follow, if_neg hnext] at hrest
          rw [follow, if_neg hne]
          simp only [joined, List.cons_append, List.intercalate_cons_cons] at hrest ⊢
          rw [hrest]
          simp

theorem lineTexts_ne {rows : List Row} : ∀ text ∈ lineTexts rows, text ≠ [] := by
  intro text htext
  simpa using (List.mem_filter.1 htext).2

theorem argStr_spec {text line : List Char} (h : argStr text = some line) :
    trim line = line ∧ line ≠ [] := by
  unfold argStr at h
  by_cases hblank : trim text = []
  · rw [if_pos hblank] at h
    cases h
  · rw [if_neg hblank] at h
    rw [← Option.some.inj h]
    exact ⟨trim_trim text, hblank⟩

/-- A line that is written goes behind the note. -/
theorem wholeNote_concat (rows : List Row) {line : List Char} (htrim : trim line = line)
    (hne : line ≠ []) : wholeNote (rows ++ [rowOf line]) = follow (wholeNote rows) line := by
  have hline : lineTexts (live [rowOf line]) = [line] := by
    simp [lineTexts, live, rowOf, htrim, hne]
  rw [wholeNote, live_append, lineTexts_append, hline, joined_concat line lineTexts_ne]
  rfl

/-- A line is where it should be exactly when the note has room for it. -/
theorem line_good_iff (rows : List Row) {line : List Char} (htrim : trim line = line)
    (hne : line ≠ []) :
    Good (.line rows line) ↔ ((wholeNote rows).length ≤ noteBudget → Fits rows line) := by
  have hconcat := wholeNote_concat rows htrim hne
  constructor
  · intro h hbudget
    rw [Fits, ← hconcat]
    exact (h hbudget).2
  · intro h hbudget
    refine ⟨hconcat, ?_⟩
    rw [hconcat]
    exact h hbudget

theorem infix_joined {texts : List (List Char)} {text : List Char} (h : text ∈ texts) :
    text <:+: joined texts := by
  induction texts with
  | nil => cases h
  | cons first rest ih =>
      cases rest with
      | nil =>
          rcases List.mem_singleton.1 h with rfl
          exact ⟨[], [], by simp [joined]⟩
      | cons next rest =>
          rw [joined, List.intercalate_cons_cons]
          rcases List.mem_cons.1 h with rfl | h
          · exact ⟨[], ['\n'] ++ joined (next :: rest), by simp [joined]⟩
          · exact (ih h).trans (List.suffix_append _ _).isInfix

-- A row that is not removed is in the text of the note.
theorem infix_wholeNote {rows : List Row} {line : List Char} (h : rowOf line ∈ rows) :
    trim line <:+: wholeNote rows := by
  by_cases hblank : trim line = []
  · rw [hblank]
    exact List.nil_infix
  · refine infix_joined (List.mem_filter.2 ⟨?_, by simpa using hblank⟩)
    refine List.mem_map.2 ⟨line, List.mem_filterMap.2 ⟨rowOf line, ?_, rfl⟩, rfl⟩
    exact List.mem_filter.2 ⟨h, rfl⟩

/-- A turn that reads all there is reads the note. -/
theorem noteText_covers {read rows : List Row} (h : Covers read rows)
    (hbudget : (wholeNote rows).length ≤ noteBudget) : noteText read = wholeNote rows := by
  rcases h with ⟨older, rfl, holder, hskipped⟩
  have hread : lineTexts (roomLines read 500) = lineTexts (live read) := by
    have hsplit := lineTexts_append ((live read).take (read.length - 500))
      ((live read).drop (read.length - 500))
    rw [List.take_append_drop, hskipped, List.nil_append] at hsplit
    exact hsplit.symm
  have hwhole : joined (lineTexts (roomLines read 500)) = wholeNote (older ++ read) := by
    rw [hread, wholeNote, live_append, lineTexts_append, holder, List.nil_append]
  rw [noteText, hwhole, clipped, if_pos hbudget]

theorem accepted_spec {s : State} {text line : List Char} {fetched written : Bool}
    (h : accepted s text fetched written = some line) : trim line = line ∧ line ≠ [] := by
  unfold accepted at h
  cases harg : argStr text with
  | none =>
      rw [harg] at h
      cases h
  | some arg =>
      simp only [harg] at h
      split at h
      · cases h
      · split at h
        · rw [← Option.some.inj h]
          exact argStr_spec harg
        · cases h

theorem readable_concat {s : State} {r : Record} (h : Readable s) (hr : Good r) :
    ∀ q ∈ s.records ++ [r], Good q := by
  intro q hq
  rcases List.mem_append.1 hq with hq | hq
  · exact h q hq
  · rw [List.mem_singleton.1 hq]
    exact hr

/-- A step that finds what it must find keeps the note readable. -/
theorem readable_step (s : State) (e : Event) (h : Readable s) (hfinds : Finds s e) :
    Readable (step s e) := by
  cases e with
  | turn store fetched =>
      refine readable_concat h fun hbudget => ?_
      have hread := noteText_covers hfinds hbudget
      exact ⟨hread, fun line hline => by rw [hread]; exact infix_wholeNote hline⟩
  | append text fetched written =>
      simp only [step]
      cases haccepted : accepted s text fetched written with
      | none => exact h
      | some line =>
          rcases accepted_spec haccepted with ⟨htrim, hne⟩
          refine readable_concat h ((line_good_iff s.rows htrim hne).2 ?_)
          exact hfinds line haccepted
  | owner rows => exact h

-- The call counts what it reads and the line, and nothing else.
theorem accepted_of {s : State} {line : List Char} (fetched : Bool) (htrim : trim line = line)
    (hne : line ≠ [])
    (hroom : (noteText (fetchRows s.handle s.rows fetched)).length + line.length ≤ noteBudget) :
    accepted s line fetched true = some line := by
  have harg : argStr line = some line := by rw [argStr, htrim, if_neg hne]
  simp only [accepted, harg]
  rw [if_neg (Nat.not_lt.2 hroom)]
  rfl

theorem noteText_one {text : List Char} (htrim : trim text = text) (hne : text ≠ [])
    (hbudget : text.length ≤ noteBudget) : noteText [rowOf text] = text := by
  have hwhole : wholeNote [rowOf text] = text := wholeNote_concat [] htrim hne
  have hcovers : Covers [rowOf text] [rowOf text] :=
    ⟨[], rfl, rfl, by simp [lineTexts]⟩
  rw [noteText_covers hcovers (by rw [hwhole]; exact hbudget), hwhole]

/-- A line of one character, many times. -/
def long (c : Char) (n : ℕ) : List Char := List.replicate n c

theorem trim_long {c : Char} (n : ℕ) (hc : isSpace c = false) : trim (long c n) = long c n := by
  refine trim_of_no_space fun d hd => ?_
  rw [(List.mem_replicate.1 hd).2]
  exact hc

theorem long_ne {c : Char} {n : ℕ} (hn : 0 < n) : long c n ≠ [] := by
  intro hnil
  have hlength := congrArg List.length hnil
  rw [long, List.length_replicate, List.length_nil] at hlength
  omega

-- After a note of one line, a second one is accepted for its length alone.
theorem line_of_append {c d : Char} {m n : ℕ} (hc : isSpace c = false) (hd : isSpace d = false)
    (hm : 0 < m) (hn : 0 < n) (hsum : m + n ≤ noteBudget) (before : List Row)
    (records : List Record) :
    accepted ⟨before, [rowOf (long c m)], records⟩ (long d n) true true = some (long d n) := by
  have hlong : (long c m).length = m := List.length_replicate
  refine accepted_of true (trim_long n hd) (long_ne hn) ?_
  have hread : fetchRows [rowOf (long c m)] before true = [rowOf (long c m)] := rfl
  rw [hread, noteText_one (trim_long m hc) (long_ne hm) (by rw [hlong]; omega), hlong]
  rw [long, List.length_replicate]
  exact hsum

/-- A note that has room for one more character, and not for the line break before it. -/
def almostFull : List Row := [rowOf (long 'a' 7999)]

/-- Two lines in one turn over a note that has room for one of them. -/
def twoLines : List Event :=
  [.turn [rowOf (long 'a' 7000)] true, .append (long 'b' 900) true true,
    .append (long 'c' 900) true true]

theorem wholeNote_long (c : Char) {n : ℕ} (hc : isSpace c = false) (hn : 0 < n) :
    wholeNote [rowOf (long c n)] = long c n :=
  wholeNote_concat [] (trim_long n hc) (long_ne hn)

-- The sum leaves out the line break.
theorem not_readable_almostFull :
    ¬ Readable (Run.run step (opened almostFull)
      [.turn almostFull true, .append (long 'b' 1) true true]) := by
  intro h
  have haccepted := line_of_append (c := 'a') (d := 'b') (m := 7999) (n := 1) rfl rfl
    (by omega) (by omega) (by rw [noteBudget]) almostFull
    [.prompt almostFull (noteText (fetchRows almostFull almostFull true))]
  have hgood : Good (.line almostFull (long 'b' 1)) := by
    refine h _ ?_
    simp only [Run.run_cons, Run.run_nil, step, opened, List.nil_append]
    rw [show almostFull = [rowOf (long 'a' 7999)] from rfl] at haccepted ⊢
    rw [haccepted]
    simp
  have hfits := (line_good_iff almostFull (trim_long 1 rfl) (long_ne (by omega))).1 hgood
  rw [almostFull, wholeNote_long 'a' rfl (by omega), Fits, wholeNote_long 'a' rfl (by omega),
    follow, if_neg (long_ne (by omega))] at hfits
  simp only [long, List.length_append, List.length_cons, List.length_replicate, noteBudget]
    at hfits
  omega

-- The handle does not have the line that the turn wrote first.
theorem not_readable_twoLines :
    ¬ Readable (Run.run step (opened [rowOf (long 'a' 7000)]) twoLines) := by
  intro h
  have hfirst := line_of_append (c := 'a') (d := 'b') (m := 7000) (n := 900) rfl rfl
    (by omega) (by omega) (by rw [noteBudget]; omega)
  have hsecond := line_of_append (c := 'a') (d := 'c') (m := 7000) (n := 900) rfl rfl
    (by omega) (by omega) (by rw [noteBudget]; omega)
  have hgood : Good (.line ([rowOf (long 'a' 7000)] ++ [rowOf (long 'b' 900)])
      (long 'c' 900)) := by
    refine h _ ?_
    simp only [twoLines, Run.run_cons, Run.run_nil, step, opened, List.nil_append, hfirst,
      hsecond]
    simp
  have hwhole : wholeNote ([rowOf (long 'a' 7000)] ++ [rowOf (long 'b' 900)]) =
      long 'a' 7000 ++ '\n' :: long 'b' 900 := by
    rw [wholeNote_concat _ (trim_long 900 rfl) (long_ne (by omega)),
      wholeNote_long 'a' rfl (by omega), follow, if_neg (long_ne (by omega))]
  have hfits := (line_good_iff _ (trim_long 900 rfl) (long_ne (by omega))).1 hgood
  rw [hwhole, Fits, hwhole, follow, if_neg (by simp)] at hfits
  simp only [long, List.length_append, List.length_cons, List.length_replicate, noteBudget]
    at hfits
  omega

/-- Two lines in one turn, and the next turn. -/
def written : List Event :=
  [.turn [rowOf ['a']] true, .append [' ', 'b'] true true, .append ['c'] true true,
    .turn [rowOf ['a'], rowOf ['b'], rowOf ['c']] true]

end MyNote

end PocketSkynet
