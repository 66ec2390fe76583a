import PocketSkynet.Server.Written

/-!
# What Replay Delivers

A run of the log beside the records it has written through. A record is written
through once its whole text has reached the disk; an append that answers has
written its record through, and so has one that a crash kept from answering after
that. The log's own records count like any other. Segments can also be removed,
oldest first, by whoever looks after the directory.

`Complete` says that replay hands out exactly the records written through after
the cursor, or nothing. Three things can stand in the way of it. A record that is
written behind a torn line can be read back by nobody, and the one torn there is
lost with it when it lacked its newline only. A record written with a date before
the newest record's lands in an older segment, ahead of records with smaller
numbers. And a process that dies when neither the marker nor the newest segment
knows of the newest record lets its number be handed out again. `Orderly` is the
condition that a step does none of these.

## Main definitions

* `Archive`, `Archive.step`: The log and the records written through.
* `Archive.Orderly`: The condition on a step.
* `Archive.Complete`: Replay delivers what there is, or nothing.

## Theorems

* `answered_accepted`: An append that answers has written its record through.
* `inv_step`: Orderly steps keep every segment legible and in order.
* `replay_complete`: Replay delivers exactly the records after the cursor.
* `torn_line_swallows`: A record that replay passes over.
-/

namespace PocketSkynet

open Lines

/-- The log with the records that have been written through. -/
structure Archive (β : Type) where
  disk : Disk
  inner : Option Inner
  accepted : List (Entry β)
deriving DecidableEq, Repr

/-- An operation on the log, or the removal of the segments before a day. -/
inductive ArchiveInput (β : Type) where
  | log (input : LogInput β)
  | prune (before : Day)
deriving DecidableEq, Repr

/-- The operation that is carried out, to its end or not. -/
def LogInput.op {β : Type} : LogInput β → LogOp β
  | .run op => op
  | .crash op _ => op

namespace Archive

/-- An empty directory and no process. -/
def start {β : Type} : Archive β := ⟨⟨none, []⟩, none, []⟩

variable {β : Type} (c : Codec β)

/-- What happens to the disk. -/
def effects (w : Archive β) : LogInput β → List Effect
  | .run op => (plan c w.disk w.inner op).effects
  | .crash op cut => (plan c w.disk w.inner op).effects.take cut

/-- The log after an operation, or after the part of it that came before a crash.
    Records count as accepted once their text is on the disk. -/
def step (w : Archive β) : ArchiveInput β → Archive β
  | .log input =>
      { disk := w.disk.performAll (w.effects c input)
        inner := match input with
          | .run op => (plan c w.disk w.inner op).inner
          | .crash _ _ => none
        accepted := w.accepted ++ whole c (entries c w.disk w.inner input.op)
          ((w.effects c input).filterMap Effect.byte).length }
  | .prune before =>
      { w with disk := { w.disk with
          segments := w.disk.segments.filter fun s => decide (before ≤ s.1) } }

/-- The number after the newest record. -/
def next (w : Archive β) : Nat := (w.accepted.getLast?.map fun e => e.seq + 1).getD 0

/-- The marker is past the newest record, or the record is in the newest segment. -/
def Recoverable (w : Archive β) : Prop :=
  ∀ e ∈ w.accepted.getLast?,
    (∃ n ∈ w.disk.marker, e.seq < n) ∨ ∃ s ∈ w.disk.newest, s.1 = e.day

/-- The step writes to closed lines only and to no segment older than the newest
    record, or removes only segments older than the newest record and the open
    one; and if no process is left, recovery can know of the newest record. -/
def Orderly (w : Archive β) (input : ArchiveInput β) : Prop :=
  (match input with
    | .log input =>
        (∀ e ∈ w.effects c input, ∀ s ∈ w.disk.segments, e.target = some s.1 →
          Terminated newline s.2) ∧
        ∀ e ∈ w.effects c input, ∀ day ∈ e.segment, ∀ a ∈ w.accepted, a.day ≤ day
    | .prune before =>
        (∀ a ∈ w.accepted.getLast?, before ≤ a.day) ∧ ∀ i ∈ w.inner, before ≤ i.day) ∧
  ((w.step c input).inner = none → (w.step c input).Recoverable)

/-- The records with a number after a cursor. -/
def after (w : Archive β) (cursor : UInt64) : List (Nat × β) :=
  (w.accepted.filter fun e => cursor.toNat < e.seq).map Entry.record

/-- The records whose segments have not been removed. -/
def retained (w : Archive β) : List (Entry β) :=
  w.accepted.filter fun e => (w.disk.segment e.day).isSome

/-- Replay delivers exactly the records after the cursor, in order, or nothing,
    and nothing only if there are too many, the cursor is the last one, the first
    record left is not the next one, or bytes are no text. It does not panic. -/
structure Complete (c : Reader β) (w : Archive β) (checked : Bool) (cursor : UInt64)
    (max : Nat) : Prop where
  exact : ∀ rs, replaySince c w.disk checked cursor max = .records rs →
    rs = w.after cursor ∧ rs.Pairwise fun r s => r.1 < s.1
  refused : replaySince c w.disk checked cursor max = .refused →
    max < (w.after cursor).length ∨ cursor = -1 ∨
      ∃ first ∈ w.retained.head?, cursor.toNat + 1 < first.seq
  failed : replaySince c w.disk checked cursor max = .failed →
    ∃ l ∈ w.disk.lines, c.read l = .notText
  calm : replaySince c w.disk checked cursor max ≠ .panicked

/-- Every segment reads back as the records written to it, and they are in order. -/
structure Inv (c : Reader β) (w : Archive β) : Prop where
  kept : ∀ day bytes, w.disk.segment day = some bytes →
    c.records (lines newline bytes) = (w.accepted.filter (·.day = day)).map Entry.record
  keyed : Table.Keyed Prod.fst w.disk.segments
  removed : ∀ e ∈ w.accepted, w.disk.segment e.day = none →
    ∀ f ∈ w.accepted, (w.disk.segment f.day).isSome → e.day < f.day
  newest : ∀ e ∈ w.accepted.getLast?, (w.disk.segment e.day).isSome
  ordered : w.accepted.Pairwise fun e f => e.day ≤ f.day ∧ e.seq < f.seq
  ahead : ∀ i ∈ w.inner, w.next ≤ i.nextSeq
  opened : ∀ i ∈ w.inner, (w.disk.segment i.day).isSome
  recoverable : w.inner = none → w.Recoverable

section Invariant

variable {c : Reader β} {w : Archive β}

/-- Nothing comes after the newest record. -/
theorem le_newest (h : w.accepted.Pairwise fun e f => e.day ≤ f.day ∧ e.seq < f.seq) {e l : Entry β}
    (he : e ∈ w.accepted) (hl : w.accepted.getLast? = some l) : e.day ≤ l.day ∧ e.seq ≤ l.seq := by
  obtain ⟨pre, hpre⟩ := List.getLast?_eq_some_iff.1 hl
  rw [hpre] at h he
  rcases List.mem_append.1 he with he | he
  · have := (List.pairwise_append.1 h).2.2 e he l (List.mem_singleton.2 rfl)
    exact ⟨this.1, this.2.le⟩
  · cases List.mem_singleton.1 he
    exact ⟨le_rfl, le_rfl⟩

theorem exists_newest {e : Entry β} (he : e ∈ w.accepted) : ∃ l, w.accepted.getLast? = some l := by
  rcases hl : w.accepted.getLast? with _ | l
  · rw [List.getLast?_eq_none_iff] at hl
    rw [hl] at he
    cases he
  · exact ⟨l, rfl⟩

theorem lt_next (h : w.accepted.Pairwise fun e f => e.day ≤ f.day ∧ e.seq < f.seq) {e : Entry β}
    (he : e ∈ w.accepted) : e.seq < w.next := by
  obtain ⟨l, hl⟩ := exists_newest he
  have := (le_newest h he hl).2
  simp only [next, hl, Option.map_some, Option.getD_some]
  omega

theorem newest_mem {d : Disk} {s : Day × List UInt8} (h : d.newest = some s) : s ∈ d.segments := by
  unfold Disk.newest at h
  generalize d.segments = l at h
  suffices hgen : ∀ best : Option (Day × List UInt8),
      l.foldl (fun best s => if best.all (·.1 < s.1) then some s else best) best = some s →
      best = some s ∨ s ∈ l by
    rcases hgen none h with h | h
    · cases h
    · exact h
  clear h
  induction l with
  | nil => exact fun best h => Or.inl h
  | cons x l ih =>
      intro best h
      rcases ih _ h with h | h
      · dsimp only at h
        by_cases hb : best.all (·.1 < x.1) = true
        · rw [if_pos hb] at h
          cases h
          exact Or.inr List.mem_cons_self
        · rw [if_neg hb] at h
          exact Or.inl h
      · exact Or.inr (List.mem_cons_of_mem x h)

theorem segment_of_mem {d : Disk} (hd : Table.Keyed Prod.fst d.segments) {s : Day × List UInt8}
    (hs : s ∈ d.segments) : d.segment s.1 = some s.2 := by
  rw [Disk.segment, Table.lookup_of_mem hd hs]
  rfl

/-- What the scan of a segment counts past. -/
theorem read_of_mem_records {ls : List (List UInt8)} {r : Nat × β} (h : r ∈ c.records ls) :
    ∃ l ∈ ls, c.read l = .record r.1 := by
  obtain ⟨l, hl, hr⟩ := List.mem_filterMap.1 h
  refine ⟨l, hl, ?_⟩
  unfold Reader.decode at hr
  cases hread : c.read l with
  | record seq =>
      simp only [hread] at hr
      cases hr
      rfl
  | _ => simp [hread] at hr

/-- Where the newest record can be known of, recovery starts past it. -/
theorem next_le_recover (hi : w.Inv c) (hdead : w.inner = none) {r : Recovery}
    (hr : recoverNextSeq c.toCodec w.disk = some r) : w.next ≤ r.nextSeq := by
  unfold next
  rcases hl : w.accepted.getLast? with _ | e
  · exact Nat.zero_le _
  · rw [Option.map_some, Option.getD_some]
    rcases hi.recoverable hdead e hl with ⟨n, hn, hlt⟩ | ⟨s, hs, hday⟩
    · exact hlt.trans_le (marker_le_recover hr hn)
    · obtain ⟨files, hfiles, rfl⟩ := Option.map_eq_some_iff.1 hr
      have hrecords := hi.kept s.1 s.2 (segment_of_mem hi.keyed (newest_mem hs))
      have hmem : e.record ∈ c.records (lines newline s.2) := by
        rw [hrecords]
        refine List.mem_map_of_mem (List.mem_filter.2 ⟨?_, by simpa using hday.symm⟩)
        exact List.mem_of_getLast? hl
      obtain ⟨l, hline, hread⟩ := read_of_mem_records hmem
      rw [scanNewest, hs] at hfiles
      have hlt := le_scan hfiles hline hread
      change e.seq < files.1 at hlt
      dsimp only
      omega

/-- What a step of the log does to the disk and the records: some of what its
    operation writes, in one segment. -/
theorem effects_writes (hi : w.Inv c) (input : LogInput β) :
    ∃ day, (∀ e ∈ w.effects c.toCodec input, ∀ x ∈ e.target, x = day) ∧
      (∀ e ∈ entries c.toCodec w.disk w.inner input.op, e.day = day ∧ w.next ≤ e.seq) ∧
      w.disk.Grounded (w.effects c.toCodec input) ∧
      (w.effects c.toCodec input).filterMap Effect.byte =
        (textOf c.toCodec (entries c.toCodec w.disk w.inner input.op)).take
          ((w.effects c.toCodec input).filterMap Effect.byte).length := by
  have hwrites := plan_writes (c := c.toCodec) input.op
    (fun i hinner => ⟨hi.ahead i hinner, hi.opened i hinner⟩)
    fun hdead r hr => next_le_recover hi hdead hr
  obtain ⟨day, htarget, hdays⟩ := hwrites.days
  have hentries : ∀ e ∈ entries c.toCodec w.disk w.inner input.op, e.day = day ∧ w.next ≤ e.seq :=
    fun e he => ⟨hdays e he, (hwrites.counted e he).1⟩
  cases input with
  | run op =>
      refine ⟨day, htarget, hentries, hwrites.grounded, ?_⟩
      simp only [effects, LogInput.op] at hwrites ⊢
      rw [hwrites.text, List.take_length]
  | crash op cut =>
      refine ⟨day, fun e he => htarget e (List.mem_of_mem_take he), hentries,
        Disk.grounded_take hwrites.grounded cut, ?_⟩
      have hprefix := (List.take_prefix cut (plan c.toCodec w.disk w.inner op).effects).filterMap
        Effect.byte
      simp only [effects, LogInput.op] at hwrites ⊢
      rw [hwrites.text] at hprefix
      exact List.prefix_iff_eq_take.1 hprefix

/-- What is opened by a step of the log that keeps to the newest segment. -/
theorem le_of_opened (hi : w.Inv c) {es : List Effect}
    (hforward : ∀ e ∈ es, ∀ day ∈ e.segment, ∀ a ∈ w.accepted, a.day ≤ day) {x : Day}
    (hnone : w.disk.segment x = none) (h : ((w.disk.performAll es).segment x).isSome) {a : Entry β}
    (ha : a ∈ w.accepted) : a.day < x := by
  rcases Disk.segment_of_performAll h hnone with ⟨e, he, hx⟩
  -- The newest record has a segment, so its day is another one.
  obtain ⟨l, hl⟩ := exists_newest ha
  have hlx : l.day ≤ x := hforward e he x hx l (List.mem_of_getLast? hl)
  have hne : l.day ≠ x := by
    intro heq
    have hsome := hi.newest l hl
    rw [heq, hnone] at hsome
    cases hsome
  exact (le_newest hi.ordered ha hl).1.trans_lt (lt_of_le_of_ne hlx hne)

/-- Effects that write a byte write it to their segment. -/
theorem exists_write {es : List Effect} {day : Day}
    (htarget : ∀ e ∈ es, ∀ x ∈ e.target, x = day) (h : es.filterMap Effect.byte ≠ []) :
    ∃ e ∈ es, e.target = some day ∧ e.segment = some day := by
  obtain ⟨byte, hbyte⟩ := List.exists_mem_of_ne_nil _ h
  obtain ⟨e, he, hebyte⟩ := List.mem_filterMap.1 hbyte
  cases e with
  | write x b =>
      have hx : x = day := htarget _ he x rfl
      exact ⟨_, he, congrArg some hx, congrArg some hx⟩
  | _ => cases hebyte

/-- What a step of the log adds: some records in one segment, behind all others,
    and the bytes they are read back from. -/
structure Growth (c : Reader β) (w w' : Archive β) (day : Day) (new : List (Entry β)) : Prop where
  accepted : w'.accepted = w.accepted ++ new
  keyed : Table.Keyed Prod.fst w'.disk.segments
  stays : ∀ x, (w.disk.segment x).isSome → (w'.disk.segment x).isSome
  opens : ∀ x, w.disk.segment x = none → (w'.disk.segment x).isSome →
    ∀ a ∈ w.accepted, a.day < x
  records : ∀ x, c.records (lines newline ((w'.disk.segment x).getD [])) =
    c.records (lines newline ((w.disk.segment x).getD [])) ++
      if x = day then new.map Entry.record else []
  counted : ∀ e ∈ new, e.day = day ∧ w.next ≤ e.seq
  later : new ≠ [] → (w'.disk.segment day).isSome ∧ ∀ a ∈ w.accepted, a.day ≤ day
  increasing : new.Pairwise fun e f => e.seq < f.seq

/-- A step that writes to closed lines and to no older segment adds records. -/
theorem growth_log (hc : c.Lawful) (hi : w.Inv c) (input : LogInput β)
    (h : w.Orderly c.toCodec (.log input)) :
    ∃ day new, Growth c w (w.step c.toCodec (.log input)) day new := by
  obtain ⟨⟨hfresh, hforward⟩, -⟩ := h
  obtain ⟨day, htarget, hentries, hgrounded, hbytes⟩ := effects_writes hi input
  have hincreasing := (plan_writes (c := c.toCodec) input.op
    (fun i hinner => ⟨hi.ahead i hinner, hi.opened i hinner⟩)
    fun hdead r hr => next_le_recover hi hdead hr).increasing
  have hsegment := Disk.segment_performAll hgrounded htarget
  refine ⟨day, whole c.toCodec (entries c.toCodec w.disk w.inner input.op)
    ((w.effects c.toCodec input).filterMap Effect.byte).length, rfl, ?_, ?_, ?_, ?_, ?_, ?_,
    pairwise_whole c.toCodec _ hincreasing⟩
  · exact Disk.keyed_performAll _ hi.keyed
  · exact fun x hx => Disk.segment_performAll_isSome hx
  · exact fun x hnone hsome a ha => le_of_opened hi hforward hnone hsome ha
  · intro x
    have hcontent : ((w.step c.toCodec (.log input)).disk.segment x).getD [] = _ := hsegment x
    rw [hcontent]
    by_cases hx : x = day
    · subst hx
      rw [if_pos rfl, if_pos rfl]
      by_cases hnil : (w.effects c.toCodec input).filterMap Effect.byte = []
      · rw [hnil, List.length_nil, whole_zero hc, List.append_nil, List.map_nil, List.append_nil]
      · obtain ⟨e, he, hetarget, -⟩ := exists_write htarget hnil
        have hclosed : Terminated newline ((w.disk.segment x).getD []) := by
          rcases hs : Table.lookup Prod.fst x w.disk.segments with _ | s
          · simp only [Disk.segment, hs, Option.map_none, Option.getD_none]
            exact terminated_nil
          · have hmem := hfresh e he s (Table.mem_of_lookup hs)
              (hetarget.trans (congrArg some (Table.key_of_lookup hs).symm))
            simpa only [Disk.segment, hs, Option.map_some, Option.getD_some] using hmem
        have htake := records_take hc (entries c.toCodec w.disk w.inner input.op)
          ((w.effects c.toCodec input).filterMap Effect.byte).length
        rw [← hbytes] at htake
        rw [lines_append hclosed, Reader.records, List.filterMap_append]
        exact congrArg _ htake
    · rw [if_neg hx, if_neg hx, List.append_nil, List.append_nil]
  · exact fun e he => hentries e (mem_of_mem_whole _ he)
  · intro hne
    -- A record is added only where a byte is written.
    have hwritten : (w.effects c.toCodec input).filterMap Effect.byte ≠ [] := by
      intro hnil
      rw [hnil, List.length_nil, whole_zero hc] at hne
      exact hne rfl
    obtain ⟨e, he, -, hesegment⟩ := exists_write htarget hwritten
    refine ⟨?_, fun a ha => hforward e he day hesegment a ha⟩
    have hcontent : ((w.step c.toCodec (.log input)).disk.segment day).getD [] = _ := hsegment day
    rcases hs : (w.step c.toCodec (.log input)).disk.segment day with _ | b
    · rw [hs, if_pos rfl] at hcontent
      exact absurd (List.append_eq_nil_iff.1 hcontent.symm).2 hwritten
    · rfl

section Growth

variable {w' : Archive β} {day : Day} {new : List (Entry β)}

theorem kept_growth (hi : w.Inv c) (hg : Growth c w w' day new) (x : Day) {bytes : List UInt8}
    (hx : w'.disk.segment x = some bytes) :
    c.records (lines newline bytes) = (w'.accepted.filter (·.day = x)).map Entry.record := by
  have hrecords := hg.records x
  rw [hx, Option.getD_some] at hrecords
  -- What the segment held before the step reads back as before.
  have hold : c.records (lines newline ((w.disk.segment x).getD [])) =
      (w.accepted.filter (·.day = x)).map Entry.record := by
    rcases hs : w.disk.segment x with _ | b
    · have hnone : w.accepted.filter (·.day = x) = [] := by
        rw [List.filter_eq_nil_iff]
        intro a ha
        have := hg.opens x hs (hx ▸ rfl) a ha
        simpa using this.ne
      rw [hnone]
      rfl
    · exact hi.kept x b hs
  have hnew : (new.filter (·.day = x)).map Entry.record =
      if x = day then new.map Entry.record else [] := by
    by_cases hday : x = day
    · rw [if_pos hday]
      have hall : new.filter (·.day = x) = new :=
        List.filter_eq_self.2 fun e he => by simpa [hday] using (hg.counted e he).1
      rw [hall]
    · rw [if_neg hday]
      have hnone : new.filter (·.day = x) = [] := by
        rw [List.filter_eq_nil_iff]
        intro e he
        simpa using fun heq : e.day = x => hday (heq.symm.trans (hg.counted e he).1)
      rw [hnone]
      rfl
  rw [hrecords, hold, hg.accepted, List.filter_append, List.map_append, hnew]

theorem removed_growth (hi : w.Inv c) (hg : Growth c w w' day new) {e f : Entry β}
    (he : e ∈ w'.accepted) (hnone : w'.disk.segment e.day = none) (hf : f ∈ w'.accepted)
    (hsome : (w'.disk.segment f.day).isSome) : e.day < f.day := by
  rw [hg.accepted, List.mem_append] at he hf
  rcases he with he | he
  · have hgone : w.disk.segment e.day = none := by
      by_contra h
      have := hg.stays e.day (Option.isSome_iff_ne_none.2 h)
      rw [hnone] at this
      cases this
    rcases hf with hf | hf
    · by_cases h : (w.disk.segment f.day).isSome
      · exact hi.removed e he hgone f hf h
      · exact hg.opens f.day (by simpa using h) hsome e he
    · obtain ⟨hday, hle⟩ := hg.later (List.ne_nil_of_mem hf)
      have hne : e.day ≠ day := by
        intro heq
        rw [← heq, hnone] at hday
        cases hday
      rw [(hg.counted f hf).1]
      exact lt_of_le_of_ne (hle e he) hne
  · have hday := (hg.later (List.ne_nil_of_mem he)).1
    rw [← (hg.counted e he).1, hnone] at hday
    cases hday

theorem newest_growth (hi : w.Inv c) (hg : Growth c w w' day new) {l : Entry β}
    (hl : w'.accepted.getLast? = some l) : (w'.disk.segment l.day).isSome := by
  rw [hg.accepted, List.getLast?_append] at hl
  rcases hlast : new.getLast? with _ | e
  · rw [hlast, Option.none_or] at hl
    exact hg.stays l.day (hi.newest l hl)
  · rw [hlast, Option.some_or] at hl
    cases hl
    have hmem := List.mem_of_getLast? hlast
    rw [(hg.counted l hmem).1]
    exact (hg.later (List.ne_nil_of_mem hmem)).1

theorem ordered_growth (hi : w.Inv c) (hg : Growth c w w' day new) :
    w'.accepted.Pairwise fun e f => e.day ≤ f.day ∧ e.seq < f.seq := by
  rw [hg.accepted]
  refine List.pairwise_append.2 ⟨hi.ordered, ?_, fun a ha e he => ?_⟩
  · refine hg.increasing.imp_of_mem fun ha hb hlt => ⟨?_, hlt⟩
    rw [(hg.counted _ ha).1, (hg.counted _ hb).1]
  · rw [(hg.counted e he).1]
    have := lt_next hi.ordered ha
    have := (hg.counted e he).2
    exact ⟨(hg.later (List.ne_nil_of_mem he)).2 a ha, by omega⟩

end Growth

/-- The step lemma for steps of the log. -/
theorem inv_log (hc : c.Lawful) (hi : w.Inv c) (input : LogInput β)
    (h : w.Orderly c.toCodec (.log input)) : (w.step c.toCodec (.log input)).Inv c := by
  obtain ⟨day, new, hg⟩ := growth_log hc hi input h
  have hinner : ∀ i ∈ (w.step c.toCodec (.log input)).inner,
      (w.step c.toCodec (.log input)).next ≤ i.nextSeq ∧
      ((w.step c.toCodec (.log input)).disk.segment i.day).isSome := by
    intro i hinner
    cases input with
    | crash op cut => cases hinner
    | run op =>
        have hwrites := plan_writes (c := c.toCodec) op
          (fun i hinner => ⟨hi.ahead i hinner, hi.opened i hinner⟩)
          fun hdead r hr => next_le_recover hi hdead hr
        refine ⟨?_, (hwrites.opened i hinner).2⟩
        simp only [next, step, LogInput.op, List.getLast?_append]
        rcases hl : (whole c.toCodec (entries c.toCodec w.disk w.inner op)
            ((w.effects c.toCodec (.run op)).filterMap Effect.byte).length).getLast? with _ | l
        · rw [Option.none_or]
          exact (hwrites.opened i hinner).1
        · have hmem := mem_of_mem_whole _ (List.mem_of_getLast? hl)
          exact (hwrites.counted l hmem).2 i hinner
  exact
    { kept := fun x _ hx => kept_growth hi hg x hx
      keyed := hg.keyed
      removed := fun _ he hnone _ hf hsome => removed_growth hi hg he hnone hf hsome
      newest := fun _ hl => newest_growth hi hg hl
      ordered := ordered_growth hi hg
      ahead := fun i hi => (hinner i hi).1
      opened := fun i hi => (hinner i hi).2
      recoverable := h.2 }

/-- An append that answers has its record among those written through. -/
theorem answered_accepted (hi : w.Inv c) {op : LogOp β} {seq : Nat}
    (h : (plan c.toCodec w.disk w.inner op).returned = some seq) :
    ∃ e ∈ (w.step c.toCodec (.log (.run op))).accepted, e.seq = seq := by
  have hwrites := plan_writes (c := c.toCodec) op
    (fun i hinner => ⟨hi.ahead i hinner, hi.opened i hinner⟩)
    fun hdead r hr => next_le_recover hi hdead hr
  obtain ⟨e, he, hseq⟩ := returned_mem_entries h
  refine ⟨e, List.mem_append_right _ ?_, hseq⟩
  simp only [effects, LogInput.op]
  rw [hwrites.text, whole_all]
  exact he

theorem segment_prune (before x : Day) : (w.step c.toCodec (.prune before)).disk.segment x =
    if before ≤ x then w.disk.segment x else none := by
  have hlookup : Table.lookup Prod.fst x
      (w.disk.segments.filter fun s => decide (before ≤ s.1)) =
      if decide (before ≤ x) then Table.lookup Prod.fst x w.disk.segments else none :=
    Table.lookup_filter (fun day : Day => decide (before ≤ day)) x w.disk.segments
  simp only [step, Disk.segment, hlookup]
  by_cases h : before ≤ x <;> simp [h]

/-- The step lemma for removals. -/
theorem inv_prune (hi : w.Inv c) (before : Day) (h : w.Orderly c.toCodec (.prune before)) :
    (w.step c.toCodec (.prune before)).Inv c := by
  obtain ⟨⟨hnewest, hopen⟩, hends⟩ := h
  refine ⟨fun x bytes hx => ?_, ?_, fun e he hnone f hf hsome => ?_, fun l hl => ?_, hi.ordered,
    hi.ahead, fun i hinner => ?_, hends⟩
  · rw [segment_prune] at hx
    split at hx
    · exact hi.kept x bytes hx
    · cases hx
  · exact List.Nodup.sublist (List.Sublist.map Prod.fst List.filter_sublist) hi.keyed
  · rw [segment_prune] at hnone hsome
    by_cases hf' : before ≤ f.day
    · rw [if_pos hf'] at hsome
      by_cases he' : before ≤ e.day
      · rw [if_pos he'] at hnone
        exact hi.removed e he hnone f hf hsome
      · exact (not_le.1 he').trans_le hf'
    · rw [if_neg hf'] at hsome
      cases hsome
  · rw [segment_prune, if_pos (hnewest l hl)]
    exact hi.newest l hl
  · rw [segment_prune, if_pos (hopen i hinner)]
    exact hi.opened i hinner

end Invariant

/-- The step lemma. -/
theorem inv_step {c : Reader β} (hc : c.Lawful) (w : Archive β) (input : ArchiveInput β)
    (hi : w.Inv c) (h : w.Orderly c.toCodec input) : (w.step c.toCodec input).Inv c := by
  cases input with
  | log input => exact inv_log hc hi input h
  | prune before => exact inv_prune hi before h

section Replay

variable {c : Reader β} {w : Archive β}

theorem sorted_days (h : Table.Keyed Prod.fst w.disk.segments) :
    (w.disk.sorted.map Prod.fst).Pairwise (· < ·) := by
  have hperm := (List.mergeSort_perm w.disk.segments fun s t => decide (s.1 ≤ t.1)).map Prod.fst
  have hle : (w.disk.sorted.map Prod.fst).Pairwise (· ≤ ·) := by
    rw [List.pairwise_map]
    refine (List.pairwise_mergeSort ?_ ?_ w.disk.segments).imp fun h => by simpa using h
    · intro a b d hab hbd
      simp only [decide_eq_true_eq] at hab hbd ⊢
      exact hab.trans hbd
    · intro a b
      simpa using le_total a.1 b.1
  have hne : (w.disk.sorted.map Prod.fst).Nodup := hperm.nodup_iff.2 h
  exact hle.imp₂ (fun _ _ hab hne => lt_of_le_of_ne hab hne) hne

/-- What can be read back is what has been written to the segments that are left. -/
theorem records_lines (hi : w.Inv c) :
    c.records w.disk.lines = w.retained.map Entry.record := by
  have hmem : ∀ s ∈ w.disk.sorted, c.records (lines newline s.2) =
      (w.accepted.filter (·.day = s.1)).map Entry.record := by
    intro s hs
    have hs : s ∈ w.disk.segments := (List.mergeSort_perm _ _).mem_iff.1 hs
    exact hi.kept s.1 s.2 (segment_of_mem hi.keyed hs)
  have hclasses := Table.flatMap_classes (sorted_days hi.keyed)
    (hi.ordered.imp fun h => h.1)
  have hleft : (w.accepted.filter fun e => e.day ∈ w.disk.sorted.map Prod.fst) = w.retained := by
    refine List.filter_congr fun e _ => Bool.eq_iff_iff.2 ?_
    rw [decide_eq_true_eq, Disk.segment, Option.isSome_map, Table.lookup_isSome, List.mem_map]
    constructor
    · rintro ⟨s, hs, hday⟩
      exact ⟨s, (List.mergeSort_perm _ _).mem_iff.1 hs, hday⟩
    · rintro ⟨s, hs, hday⟩
      exact ⟨s, (List.mergeSort_perm _ _).mem_iff.2 hs, hday⟩
  have hflat : c.records w.disk.lines =
      w.disk.sorted.flatMap fun s => c.records (lines newline s.2) := by
    unfold Reader.records Disk.lines
    rw [List.filterMap_flatMap]
  rw [hflat, List.flatMap_congr hmem, ← hleft, ← hclasses, List.flatMap_map, List.map_flatMap]

/-- Nothing that has been removed comes after the first record that is left. -/
theorem removed_lt (hi : w.Inv c) {first e : Entry β} (hfirst : first ∈ w.retained.head?)
    (he : e ∈ w.accepted) (hgone : e ∉ w.retained) : e.seq < first.seq := by
  have hmem : first ∈ w.accepted ∧ (w.disk.segment first.day).isSome = true :=
    List.mem_filter.1 (List.mem_of_head? hfirst)
  have hnone : w.disk.segment e.day = none := by
    by_contra h
    exact hgone (List.mem_filter.2 ⟨he, Option.isSome_iff_ne_none.2 h⟩)
  have hlt := hi.removed e he hnone first hmem.1 hmem.2
  -- The one with the earlier day was written earlier.
  obtain ⟨i, hi', rfl⟩ := List.getElem_of_mem he
  obtain ⟨j, hj, rfl⟩ := List.getElem_of_mem hmem.1
  have hsorted := List.pairwise_iff_getElem.1 hi.ordered
  rcases Nat.lt_trichotomy i j with h | h | h
  · exact (hsorted i j hi' hj h).2
  · subst h
    exact absurd hlt (lt_irrefl _)
  · exact absurd ((hsorted j i hj hi' h).1) (not_le.2 hlt)

/-- Where every segment reads back and the cursor has a successor, replay is
    complete. -/
theorem complete_of_inv (hi : w.Inv c) {checked : Bool} {cursor : UInt64} (max : Nat)
    (hcursor : checked = true → cursor ≠ -1) : w.Complete c checked cursor max := by
  have hrecords := records_lines hi
  have hnil : w.retained = [] → w.accepted = [] := by
    intro hnil
    rcases hl : w.accepted.getLast? with _ | l
    · exact List.getLast?_eq_none_iff.1 hl
    · have hmem : l ∈ w.retained :=
        List.mem_filter.2 ⟨List.mem_of_getLast? hl, hi.newest l hl⟩
      rw [hnil] at hmem
      cases hmem
  have hfilter : ∀ es : List (Entry β), (es.map Entry.record).filter (cursor.toNat < ·.1) =
      (es.filter fun e => cursor.toNat < e.seq).map Entry.record := by
    intro es
    rw [List.filter_map]
    rfl
  refine ⟨fun rs hrs => ?_, fun hrefused => ?_, replaySince_failed, fun hpanic => ?_⟩
  · obtain ⟨rfl, hfirst⟩ := replaySince_records hrs
    rw [hrecords, hfilter]
    constructor
    · rcases hhead : w.retained.head? with _ | first
      · rw [List.head?_eq_none_iff] at hhead
        rw [after, hhead, hnil hhead]
      · obtain ⟨next, hnext, hle⟩ := hfirst first.record (by rw [hrecords, List.head?_map, hhead]; rfl)
        have hgone : ∀ e ∈ w.accepted, cursor.toNat < e.seq → e ∈ w.retained := by
          intro e he hafter
          by_contra hgone
          have hlt := removed_lt hi hhead he hgone
          change first.seq ≤ next.toNat at hle
          rcases successor_cases hnext with hnext | ⟨-, hnext⟩ <;> omega
        rw [after, retained, List.filter_filter]
        refine congrArg _ (List.filter_congr fun e he => ?_)
        by_cases hafter : cursor.toNat < e.seq
        · have hkept := (List.mem_filter.1 (hgone e he hafter)).2
          simp [hafter, hkept]
        · simp [hafter]
    · rw [List.pairwise_map]
      refine List.Pairwise.filter _ (List.Pairwise.filter _ ?_)
      exact hi.ordered.imp fun h => h.2
  · rcases replaySince_refused hrefused with hmany | ⟨first, hfirst, next, hnext, hlt⟩
    · left
      rw [hrecords, hfilter, List.length_map] at hmany
      rw [after, List.length_map]
      refine hmany.trans_le (List.Sublist.length_le ?_)
      exact List.filter_sublist.filter _
    · right
      rw [hrecords, List.head?_map] at hfirst
      obtain ⟨e, he, rfl⟩ := Option.map_eq_some_iff.1 hfirst
      rcases successor_cases hnext with hnext | ⟨hlast, -⟩
      · exact Or.inr ⟨e, he, hnext ▸ hlt⟩
      · exact Or.inl hlast
  · obtain ⟨hchecked, hlast⟩ := replaySince_panics hpanic
    exact hcursor hchecked hlast

end Replay

theorem inv_start {c : Reader β} : (start : Archive β).Inv c where
  kept := nofun
  keyed := List.nodup_nil
  removed := fun _ he => absurd he List.not_mem_nil
  newest := nofun
  ordered := List.Pairwise.nil
  ahead := nofun
  opened := nofun
  recoverable := fun _ => nofun

/-- **Replay completeness.** In a run of opens, appends on any days, flushes, closes,
    crashes at any effect and removals of old segments, replay delivers exactly the
    records after its cursor, or nothing, in every state, as long as no step writes
    behind a torn line, goes back to a day before the newest record's, or ends the
    process where recovery cannot know of the newest record; at any cursor, or at
    any but the last where arithmetic is checked. -/
theorem replay_complete {c : Reader β} (hc : c.Lawful) (inputs : List (ArchiveInput β))
    (h : Run.Along (step c.toCodec) (Orderly c.toCodec) start inputs) :
    Run.Throughout (step c.toCodec)
      (fun w => ∀ checked cursor max, (checked = true → cursor ≠ -1) →
        w.Complete c checked cursor max) start inputs :=
  Run.throughout_mono (fun _ hi _ _ max hcursor => complete_of_inv hi max hcursor) start inputs
    (Run.throughout_of_along (inv_step hc) start inputs inv_start h)

instance (w : Archive β) : Decidable w.Recoverable :=
  inferInstanceAs (Decidable (∀ e ∈ w.accepted.getLast?, (∃ n ∈ w.disk.marker, e.seq < n) ∨
    ∃ s ∈ w.disk.newest, s.1 = e.day))

instance (c : Codec β) (w : Archive β) : ∀ input, Decidable (w.Orderly c input)
  | .log _ => inferInstanceAs (Decidable ((_ ∧ _) ∧ _))
  | .prune _ => inferInstanceAs (Decidable ((_ ∧ _) ∧ _))

end Archive

namespace Sample

/-- The records of the sample codec with what they say. -/
def jsonReader : Reader Body :=
  { jsonCodec with
    contents := fun line =>
      match readJsonLine line with
      | .record seq => ([Body.event, .logRotated, .logRecovered].find? fun body =>
          line == jsonLine seq body).getD .event
      | _ => .event }

theorem text_inj {a b : Body} (h : a.text = b.text) : a = b := by
  cases a <;> cases b <;> first | rfl | exact absurd h (by decide)

theorem jsonLine_inj {seq : Nat} {a b : Body} (h : jsonLine seq a = jsonLine seq b) : a = b := by
  have hchars := congrArg (List.map fun b : UInt8 => Char.ofNat b.toNat) h
  unfold jsonLine at hchars
  rw [chars_asciiBytes fun ch hch => (ascii_line seq a hch).1,
    chars_asciiBytes fun ch hch => (ascii_line seq b hch).1] at hchars
  exact text_inj (List.append_cancel_left (List.append_cancel_left hchars))

theorem contents_jsonLine (seq : Nat) (body : Body) :
    jsonReader.contents (jsonLine seq body) = body := by
  have hread : readJsonLine (jsonLine seq body) = .record seq :=
    jsonCodec_lawful.read_encode seq body
  simp only [jsonReader, hread]
  rcases hfind : [Body.event, .logRotated, .logRecovered].find? fun b =>
      jsonLine seq body == jsonLine seq b with _ | b
  · have hself := List.find?_eq_none.1 hfind body (by cases body <;> simp)
    simp at hself
  · have hsame := List.find?_some hfind
    rw [beq_iff_eq] at hsame
    exact (jsonLine_inj hsame).symm

/-- A record ends with the second of its closing braces. -/
theorem braces_jsonLine (seq : Nat) (body : Body) :
    (jsonLine seq body).count 125 = 2 ∧ (jsonLine seq body).getLast? = some 125 := by
  have hdigits : (asciiBytes (Nat.toDigits 10 seq)).count 125 = 0 := by
    rw [List.count_eq_zero]
    intro h
    obtain ⟨ch, hch, hbrace⟩ := List.mem_map.1 h
    have hdigit := Char.isDigit_iff_toNat.1
      (Nat.isDigit_of_mem_toDigits (by decide) (by decide) hch)
    have hbyte := congrArg UInt8.toNat hbrace
    simp only [Nat.toUInt8_eq, UInt8.toNat_ofNat'] at hbyte
    have hlow : '0'.toNat = 48 := rfl
    have hhigh : '9'.toNat = 57 := rfl
    have : (125 : UInt8).toNat = 125 := rfl
    omega
  have hopen : (asciiBytes "\x7b\"seq\":".toList).count 125 = 0 := by decide
  have htext : (asciiBytes body.text).count 125 = 2 ∧
      (asciiBytes body.text).getLast? = some 125 := by cases body <;> decide +kernel
  have hsplit : jsonLine seq body = asciiBytes "\x7b\"seq\":".toList ++
      (asciiBytes (Nat.toDigits 10 seq) ++ asciiBytes body.text) := by
    simp only [jsonLine, asciiBytes, List.map_append]
  rw [hsplit]
  refine ⟨?_, ?_⟩
  · rw [List.count_append, List.count_append, hopen, hdigits, htext.1]
  · rw [List.getLast?_append, List.getLast?_append, htext.2]
    rfl

theorem jsonReader_lawful : jsonReader.Lawful where
  codec := jsonCodec_lawful
  read_nil := rfl
  contents_encode := contents_jsonLine
  read_torn seq body l hprefix hne n hread := by
    -- A line that reads as a record has two closing braces, and a torn one has lost one.
    obtain ⟨rest, hrest⟩ := hprefix
    change l ++ rest = jsonLine seq body at hrest
    obtain ⟨hcount, hlast⟩ := braces_jsonLine seq body
    have hrecord : ∃ b, l = jsonLine n b := by
      change readJsonLine l = .record n at hread
      unfold readJsonLine at hread
      dsimp only at hread
      split at hread
      · cases hread
      · split at hread
        · rename_i hany
          obtain ⟨b, -, hb⟩ := List.any_eq_true.1 hany
          cases hread
          exact ⟨b, by simpa using hb⟩
        · cases hread
    obtain ⟨b, hb⟩ := hrecord
    have htwo := (braces_jsonLine n b).1
    rw [← hb] at htwo
    have hrestne : rest ≠ [] := by
      rintro rfl
      rw [List.append_nil] at hrest
      exact hne hrest
    rw [← hrest, List.count_append, htwo] at hcount
    rw [← hrest, List.getLast?_append] at hlast
    have hmem : (125 : UInt8) ∈ rest := by
      rcases hr : rest.getLast? with _ | x
      · exact absurd (List.getLast?_eq_none_iff.1 hr) hrestne
      · rw [hr, Option.some_or] at hlast
        cases hlast
        exact List.mem_of_getLast? hr
    have := List.count_pos_iff.2 hmem
    omega

/-- Two records, a torn one, a new segment the next day with what the log has to
    say about it, another record, and the removal of the first segment. -/
def tornOvernight : List (ArchiveInput Body) :=
  [.log (.run (.open 0 0 false)), .log (.run (.append 0 .event false)),
    .log (.run (.append 0 .event true)), .log (.crash (.append 0 .event false) 5),
    .log (.run (.open 1 1 false)), .log (.run (.append 1 .event false)),
    .log (.run (.append 2 .event false)), .prune 1, .log (.run .close)]

theorem tornOvernight_complete :
    Run.Throughout (Archive.step jsonCodec)
      (fun w => ∀ checked cursor max, (checked = true → cursor ≠ -1) →
        w.Complete jsonReader checked cursor max) Archive.start tornOvernight :=
  Archive.replay_complete jsonReader_lawful tornOvernight (by decide +kernel)

/-- A record is torn, and the next process writes the record with its number
    behind it. -/
def tornAndGoneOn : List (ArchiveInput Body) :=
  [.log (.run (.open 0 0 false)), .log (.run (.append 0 .event true)),
    .log (.crash (.append 0 .event false) 5), .log (.run (.open 0 0 false)),
    .log (.run (.append 0 .event false)), .log (.run (.append 0 .event false))]

/-- Replay skips the second record, and says nothing. -/
theorem torn_line_swallows :
    ¬ Run.Throughout (Archive.step jsonCodec)
      (fun w => ∀ checked cursor max, (checked = true → cursor ≠ -1) →
        w.Complete jsonReader checked cursor max) Archive.start tornAndGoneOn := by
  intro h
  have hlast := Run.throughout_last _ _ h true 1 10 (by decide)
  generalize hw : Run.run (Archive.step jsonCodec) Archive.start tornAndGoneOn = w at hlast
  have hstate : w.disk.segments.length = 1 ∧ w.after 1 = [(2, .event), (3, .event)] := by
    rw [← hw]
    decide +kernel
  have hone : w.disk.sorted = w.disk.segments := by
    obtain ⟨s, hs⟩ := List.length_eq_one_iff.1 hstate.1
    rw [Disk.sorted, hs, List.mergeSort_singleton]
  have hreplay : replaySince jsonReader w.disk true 1 10 = .records [(3, .event)] := by
    unfold replaySince Disk.lines
    rw [hone, ← hw]
    decide +kernel
  have hexact := (hlast.exact _ hreplay).1
  rw [hstate.2] at hexact
  revert hexact
  decide

end Sample

end PocketSkynet
