import Mathlib.Data.List.Basic

/-!
# The Event Stream Format

A stream of named messages as text, and how it is read. A line is a field with its value,
and an empty line closes a message. The fields of interest are the name of the message,
its data, which may have several lines, and an id, which is kept until another one
comes. A line that begins with a colon is a comment.

A message without a name is called `message`. That is the whole difference between the
two kinds of listener a reader can have: who listens for messages hears what has no name,
and who listens for a name hears what has that name.

`feed_wire` is the round trip: a frame written as the format says is read back as one
message with the same name and data, whatever has been read before.

## Main definitions

* `Frame`: A message to be written.
* `wire`: A frame as text.
* `Reader`, `feed`: What a reader keeps, and what it reads.
* `Faithful`: A way of writing frames that is read back.

## Theorems

* `lines_line`: A text and a line feed are one line.
* `process_field`: A field with its value.
* `feed_wire`: The round trip.
-/

namespace PocketSkynet

namespace EventStream

/-- The name of a message that has none. -/
def defaultName : List Char := ['m', 'e', 's', 's', 'a', 'g', 'e']

/-- A message to be written. -/
structure Frame where
  name : Option (List Char)
  data : Option (List Char)
  id : Option (List Char)
deriving DecidableEq, Repr

/-- A message that has been read, with the id it was read under. -/
structure Message where
  name : List Char
  data : List Char
  lastId : List Char
deriving DecidableEq, Repr

/-- What a reader keeps between two lines. -/
structure Reader where
  data : List Char
  name : List Char
  lastId : List Char
deriving DecidableEq, Repr

/-- The lines of a text, after what has been read of the first one. An unfinished line is
    not one yet. A line ends with a line feed, a carriage return, or both in turn. -/
def lines : List Char → List Char → List (List Char)
  | _, [] => []
  | cur, '\r' :: '\n' :: cs => cur.reverse :: lines [] cs
  | cur, '\r' :: cs => cur.reverse :: lines [] cs
  | cur, '\n' :: cs => cur.reverse :: lines [] cs
  | cur, c :: cs => lines (c :: cur) cs

namespace Reader

/-- Between two messages. -/
def between (lastId : List Char) : Reader := ⟨[], [], lastId⟩

/-- A field and its value. An id with a null in it and an unknown field are ignored. -/
def field (r : Reader) (name value : List Char) : Reader :=
  if name = ['e', 'v', 'e', 'n', 't'] then { r with name := value }
  else if name = ['d', 'a', 't', 'a'] then { r with data := r.data ++ value ++ ['\n'] }
  else if name = ['i', 'd'] then
    if Char.ofNat 0 ∈ value then r else { r with lastId := value }
  else r

/-- An empty line. A message without data is none. -/
def dispatch (r : Reader) : Reader × List Message :=
  (between r.lastId,
    if r.data = [] then []
    else [⟨if r.name = [] then defaultName else r.name, r.data.dropLast, r.lastId⟩])

/-- One space after the colon is no part of the value. -/
def valueOf : List Char → List Char
  | ':' :: ' ' :: value => value
  | ':' :: value => value
  | _ => []

/-- A line. -/
def process (r : Reader) : List Char → Reader × List Message
  | [] => r.dispatch
  | ':' :: _ => (r, [])
  | line => (r.field (line.takeWhile (· ≠ ':')) (valueOf (line.dropWhile (· ≠ ':'))), [])

/-- One line after the other. -/
def read (r : Reader) : List (List Char) → Reader × List Message
  | [] => (r, [])
  | line :: rest =>
      let next := r.process line
      ((next.1.read rest).1, next.2 ++ (next.1.read rest).2)

/-- A text made of whole lines. -/
def feed (r : Reader) (text : List Char) : Reader × List Message := r.read (lines [] text)

end Reader

/-- A value that fits on a line. -/
def OneLine (value : List Char) : Prop := '\n' ∉ value ∧ '\r' ∉ value

/-- A field on its line. -/
def fieldLine (name value : List Char) : List Char := name ++ ':' :: ' ' :: (value ++ ['\n'])

/-- A frame as text: a line for each field, and an empty one. -/
def wire (f : Frame) : List Char :=
  (f.name.elim [] (fieldLine ['e', 'v', 'e', 'n', 't'])) ++
    ((f.data.elim [] (fieldLine ['d', 'a', 't', 'a'])) ++
      ((f.id.elim [] (fieldLine ['i', 'd'])) ++ ['\n']))

namespace Frame

/-- Every value of the frame fits on a line, it has a name if it says so, and its id has no
    null in it. -/
structure Plain (f : Frame) : Prop where
  name : ∀ n ∈ f.name, OneLine n ∧ n ≠ []
  data : ∀ d ∈ f.data, OneLine d
  id : ∀ i ∈ f.id, OneLine i ∧ Char.ofNat 0 ∉ i

/-- What the frame is to a reader that has read the id `last` before. -/
def messages (f : Frame) (last : List Char) : List Message :=
  f.data.toList.map fun d => ⟨f.name.getD defaultName, d, f.id.getD last⟩

end Frame

/-- Frames are written so that they are read back. -/
def Faithful (write : Frame → List Char) : Prop :=
  ∀ (f : Frame) (last : List Char), f.Plain →
    (Reader.between last).feed (write f) = (Reader.between (f.id.getD last), f.messages last)

theorem lines_line {l : List Char} (hl : OneLine l) (cur rest : List Char) :
    lines cur (l ++ '\n' :: rest) = (cur.reverse ++ l) :: lines [] rest := by
  induction l generalizing cur with
  | nil => simp [lines]
  | cons c l ih =>
      have hlf : c ≠ '\n' := fun h => hl.1 (h ▸ List.mem_cons_self)
      have hcr : c ≠ '\r' := fun h => hl.2 (h ▸ List.mem_cons_self)
      have hrest : OneLine l := ⟨fun h => hl.1 (List.mem_cons_of_mem c h),
        fun h => hl.2 (List.mem_cons_of_mem c h)⟩
      rw [List.cons_append, lines, ih hrest]
      · simp
      · exact fun _ h _ => hcr h
      · exact hcr
      · exact hlf

-- A field on its line is read as the field and its value.
theorem process_field (r : Reader) {name : List Char} (value : List Char) (hne : name ≠ [])
    (hname : ':' ∉ name) : r.process (name ++ ':' :: ' ' :: value) = (r.field name value, []) := by
  have hall : ∀ c ∈ name, decide (c ≠ ':') = true := by
    intro c hc
    simp only [decide_eq_true_eq]
    exact fun h => hname (h ▸ hc)
  have htake : (name ++ ':' :: ' ' :: value).takeWhile (· ≠ ':') = name := by
    rw [List.takeWhile_append_of_pos hall]
    simp
  have hdrop : (name ++ ':' :: ' ' :: value).dropWhile (· ≠ ':') = ':' :: ' ' :: value := by
    rw [List.dropWhile_append_of_pos hall]
    simp
  cases name with
  | nil => exact absurd rfl hne
  | cons c name =>
      have hc : c ≠ ':' := fun h => hname (h ▸ List.mem_cons_self)
      rw [List.cons_append] at htake hdrop ⊢
      rw [Reader.process, htake, hdrop]
      · rfl
      · exact fun h => absurd h (List.cons_ne_nil _ _)
      · exact fun _ h => hc (List.cons.inj h).1

/-- A field that has been written is read, and the reading goes on behind it. -/
theorem read_fieldLine (r : Reader) {name value : List Char} (rest : List Char) (hne : name ≠ [])
    (hname : ':' ∉ name) (hline : OneLine name) (hvalue : OneLine value) :
    r.feed (fieldLine name value ++ rest) = (r.field name value).feed rest := by
  have hone : OneLine (name ++ ':' :: ' ' :: value) := by
    refine ⟨fun h => ?_, fun h => ?_⟩
    · rcases List.mem_append.1 h with h | h
      · exact hline.1 h
      · exact hvalue.1 (by simpa using h)
    · rcases List.mem_append.1 h with h | h
      · exact hline.2 h
      · exact hvalue.2 (by simpa using h)
  have hlines : lines [] (fieldLine name value ++ rest) =
      (name ++ ':' :: ' ' :: value) :: lines [] rest := by
    have htext : fieldLine name value ++ rest =
        (name ++ ':' :: ' ' :: value) ++ '\n' :: rest := by
      simp [fieldLine]
    rw [htext, lines_line hone]
    rfl
  rw [Reader.feed, hlines, Reader.read, process_field r value hne hname]
  rfl

/-- The round trip. -/
theorem feed_wire : Faithful wire := by
  intro f last hplain
  -- The three fields in turn, each of which may be missing.
  have hname : (Reader.between last).feed (wire f) =
      (⟨[], f.name.getD [], last⟩ : Reader).feed
        ((f.data.elim [] (fieldLine ['d', 'a', 't', 'a'])) ++
          ((f.id.elim [] (fieldLine ['i', 'd'])) ++ ['\n'])) := by
    cases hn : f.name with
    | none => simp [wire, hn, Reader.between]
    | some n =>
        have hvalue := (hplain.name n hn).1
        simp only [wire, hn, Option.elim_some, Option.getD_some]
        rw [read_fieldLine _ _ (by simp) (by simp) (by simp [OneLine]) hvalue]
        simp [Reader.field, Reader.between]
  have hdata : ∀ r : Reader, r.data = [] →
      r.feed ((f.data.elim [] (fieldLine ['d', 'a', 't', 'a'])) ++
        ((f.id.elim [] (fieldLine ['i', 'd'])) ++ ['\n'])) =
      ({ r with data := f.data.elim [] (· ++ ['\n']) } : Reader).feed
        ((f.id.elim [] (fieldLine ['i', 'd'])) ++ ['\n']) := by
    intro r hr
    cases hd : f.data with
    | none =>
        have hsame : ({ r with data := [] } : Reader) = r := by rw [← hr]
        simp [hsame]
    | some d =>
        simp only [Option.elim_some]
        rw [read_fieldLine _ _ (by simp) (by simp) (by simp [OneLine]) (hplain.data d hd)]
        simp [Reader.field, hr]
  have hid : ∀ r : Reader, r.lastId = last →
      r.feed ((f.id.elim [] (fieldLine ['i', 'd'])) ++ ['\n']) =
      ({ r with lastId := f.id.getD last } : Reader).feed ['\n'] := by
    intro r hr
    cases hi : f.id with
    | none => simp [← hr]
    | some i =>
        have hplain := hplain.id i hi
        simp only [Option.elim_some, Option.getD_some]
        rw [read_fieldLine _ _ (by simp) (by simp) (by simp [OneLine]) hplain.1]
        simp [Reader.field, hplain.2]
  rw [hname, hdata _ rfl, hid _ rfl]
  cases hd : f.data with
  | none =>
      simp [Reader.feed, lines, Reader.read, Reader.process, Reader.dispatch, Frame.messages, hd]
  | some d =>
      simp only [Reader.feed, lines, Reader.read, Reader.process, Reader.dispatch, Frame.messages,
        hd]
      cases hn : f.name with
      | none => simp
      | some n => simp [(hplain.name n hn).2]

end EventStream

end PocketSkynet
