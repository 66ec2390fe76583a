import PocketSkynet.Server.EventLogSafety
import PocketSkynet.Server.Replay

/-!
# What an Operation Writes

An operation of the log writes records to one segment, each on a line, and its
effects on that segment are the text of these records. A crash leaves a part of
the text. What a part reads back as is the records it holds whole; a record is
whole without its newline.

## Main definitions

* `Entry`: A record that has been written.
* `textOf`, `whole`: Some records as text, and the records that a part of it holds.
* `Disk.segment`, `Disk.Grounded`: What a segment holds, and effects on segments
  that exist.
* `entries`: The records an operation writes.
* `Writes`: Some effects write some records.

## Theorems

* `records_take`: A part of a text reads back as the records it holds.
* `segment_performAll`: What some effects leave in a segment.
* `append_writes`, `plan_writes`: What an append and an operation write.
* `returned_mem_entries`: What is answered is the number of a record.
-/

namespace PocketSkynet

open Lines

/-- A record that has been written: its segment, its number, and what else it says. -/
structure Entry (β : Type) where
  day : Day
  seq : Nat
  body : β
deriving DecidableEq, Repr

/-- The record as replay returns it. -/
def Entry.record {β : Type} (e : Entry β) : Nat × β := (e.seq, e.body)

section Text

variable {β : Type} (c : Codec β)

/-- The text of some records, one on each line. -/
def textOf (es : List (Entry β)) : List UInt8 :=
  es.flatMap fun e => c.encode e.seq e.body ++ [newline]

/-- The records that the first `k` bytes of their text hold. The newline is not
    part of a record. -/
def whole : List (Entry β) → Nat → List (Entry β)
  | [], _ => []
  | e :: es, k =>
      if (c.encode e.seq e.body).length ≤ k then
        e :: whole es (k - ((c.encode e.seq e.body).length + 1))
      else []

theorem mem_of_mem_whole {es : List (Entry β)} {k : Nat} {e : Entry β} (h : e ∈ whole c es k) :
    e ∈ es := by
  induction es generalizing k with
  | nil => cases h
  | cons x es ih =>
      rw [whole] at h
      by_cases hk : (c.encode x.seq x.body).length ≤ k
      · rw [if_pos hk] at h
        rcases List.mem_cons.1 h with rfl | h
        · exact List.mem_cons_self
        · exact List.mem_cons_of_mem x (ih h)
      · rw [if_neg hk] at h
        cases h

theorem pairwise_whole {r : Entry β → Entry β → Prop} {es : List (Entry β)} (k : Nat)
    (h : es.Pairwise r) : (whole c es k).Pairwise r := by
  induction es generalizing k with
  | nil => exact List.Pairwise.nil
  | cons x es ih =>
      rw [whole]
      by_cases hk : (c.encode x.seq x.body).length ≤ k
      · rw [if_pos hk]
        refine List.pairwise_cons.2 ⟨fun e he => ?_, ih _ (List.pairwise_cons.1 h).2⟩
        exact (List.pairwise_cons.1 h).1 e (mem_of_mem_whole c he)
      · rw [if_neg hk]
        exact List.Pairwise.nil

variable {c : Reader β}

theorem encode_ne_nil (hc : c.Lawful) (seq : Nat) (body : β) : c.encode seq body ≠ [] := by
  intro hnil
  have hread := hc.codec.read_encode seq body
  rw [hnil, hc.read_nil] at hread
  cases hread

/-- Without a byte there is no record. -/
theorem whole_zero (hc : c.Lawful) (es : List (Entry β)) : whole c.toCodec es 0 = [] := by
  cases es with
  | nil => rfl
  | cons e es =>
      have := List.length_pos_of_ne_nil (encode_ne_nil hc e.seq e.body)
      rw [whole, if_neg (by omega)]

/-- All of their text holds all of them. -/
theorem whole_all (es : List (Entry β)) :
    whole c.toCodec es (textOf c.toCodec es).length = es := by
  induction es with
  | nil => rfl
  | cons e es ih =>
      have hlen : (textOf c.toCodec (e :: es)).length =
          (c.encode e.seq e.body).length + 1 + (textOf c.toCodec es).length := by
        simp only [textOf, List.flatMap_cons, List.length_append, List.length_singleton]
      rw [whole, if_pos (by omega), hlen, Nat.add_sub_cancel_left, ih]

theorem decode_encode (hc : c.Lawful) (seq : Nat) (body : β) :
    c.decode (c.encode seq body) = some (seq, body) := by
  rw [Reader.decode, hc.codec.read_encode]
  dsimp only
  rw [hc.contents_encode]

/-- A part of the text of some records reads back as the records it holds. -/
theorem records_take (hc : c.Lawful) (es : List (Entry β)) (k : Nat) :
    c.records (lines newline ((textOf c.toCodec es).take k)) =
      (whole c.toCodec es k).map Entry.record := by
  induction es generalizing k with
  | nil => simp [textOf, lines, Reader.records, whole]
  | cons e es ih =>
      have hne := encode_ne_nil hc e.seq e.body
      have hline := hc.codec.oneLine e.seq e.body
      have htext : textOf c.toCodec (e :: es) =
          c.encode e.seq e.body ++ newline :: textOf c.toCodec es := by
        simp [textOf]
      rw [htext, whole]
      by_cases hk : (c.encode e.seq e.body).length ≤ k
      · rw [if_pos hk, List.take_append, List.take_of_length_le hk, List.map_cons]
        -- The cut is right behind the text of the record, or behind its newline.
        rcases hrest : k - (c.encode e.seq e.body).length with _ | n
        · have hdone : k - ((c.encode e.seq e.body).length + 1) = 0 := by omega
          rw [hdone, whole_zero hc, List.take_zero, List.append_nil, lines_open hline hne,
            records_cons_some (decode_encode hc e.seq e.body)]
          rfl
        · have hdone : k - ((c.encode e.seq e.body).length + 1) = n := by omega
          rw [List.take_succ_cons, lines_line hline,
            records_cons_some (decode_encode hc e.seq e.body), ih, hdone]
          rfl
      · rw [if_neg hk, List.take_append_of_le_length (by omega)]
        by_cases hnil : (c.encode e.seq e.body).take k = []
        · rw [hnil]
          rfl
        · -- A torn record is no record.
          have htorn : c.decode ((c.encode e.seq e.body).take k) = none := by
            have hlen : ((c.encode e.seq e.body).take k).length = k := by
              rw [List.length_take]
              omega
            have hneq : (c.encode e.seq e.body).take k ≠ c.encode e.seq e.body := by
              intro heq
              rw [heq] at hlen
              omega
            have hread := hc.read_torn e.seq e.body _ (List.take_prefix k _) hneq
            unfold Reader.decode
            cases hl : c.read ((c.encode e.seq e.body).take k) with
            | record n => exact absurd hl (hread n)
            | _ => rfl
          rw [lines_open (fun h => hline (List.mem_of_mem_take h)) hnil,
            records_cons_none htorn]
          rfl

end Text

/-! ### Effects -/

namespace Effect

/-- The segment an effect writes to. -/
def target : Effect → Option Day
  | .write day _ => some day
  | _ => none

/-- The segment an effect opens or writes to. -/
def segment : Effect → Option Day
  | .create day => some day
  | .write day _ => some day
  | _ => none

/-- The byte an effect writes. -/
def byte : Effect → Option UInt8
  | .write _ byte => some byte
  | _ => none

end Effect

namespace Disk

def performAll (d : Disk) (es : List Effect) : Disk := es.foldl perform d

/-- What a segment holds. -/
def segment (d : Disk) (day : Day) : Option (List UInt8) :=
  (Table.lookup Prod.fst day d.segments).map Prod.snd

/-- Nothing is written to a segment that does not exist. -/
def Grounded : Disk → List Effect → Prop
  | _, [] => True
  | d, e :: es => (∀ day ∈ e.target, (d.segment day).isSome) ∧ Grounded (d.perform e) es

theorem segment_create (d : Disk) (day x : Day) :
    (d.perform (.create day)).segment x =
      if x = day then some ((d.segment x).getD []) else d.segment x := by
  simp only [perform, segment, Table.lookup_insertNew]
  by_cases hx : x = day
  · rw [if_pos hx, if_pos hx]
    cases Table.lookup Prod.fst x d.segments <;> rfl
  · rw [if_neg hx, if_neg hx]

theorem segment_write (d : Disk) (day x : Day) (byte : UInt8) :
    (d.perform (.write day byte)).segment x =
      if x = day then (d.segment x).map (· ++ [byte]) else d.segment x := by
  have hkey : ∀ s : Day × List UInt8, (s.1, s.2 ++ [byte]).1 = s.1 := fun _ => rfl
  simp only [perform, segment, Table.lookup_modify day x _ hkey]
  by_cases hx : x = day
  · rw [if_pos hx, if_pos hx]
    cases Table.lookup Prod.fst x d.segments <;> rfl
  · rw [if_neg hx, if_neg hx]

/-- A segment that exists stays. -/
theorem segment_perform_isSome {d : Disk} {e : Effect} {x : Day} (h : (d.segment x).isSome) :
    ((d.perform e).segment x).isSome := by
  cases e with
  | create day =>
      rw [segment_create]
      by_cases hx : x = day
      · rw [if_pos hx]
        rfl
      · rwa [if_neg hx]
  | write day byte =>
      rw [segment_write]
      by_cases hx : x = day
      · rwa [if_pos hx, Option.isSome_map]
      · rwa [if_neg hx]
  | truncateMarker => exact h
  | writeMarker seq => exact h

theorem segment_performAll_isSome {d : Disk} {es : List Effect} {x : Day}
    (h : (d.segment x).isSome) : ((d.performAll es).segment x).isSome := by
  induction es generalizing d with
  | nil => exact h
  | cons e es ih => exact ih (segment_perform_isSome h)

/-- What some effects leave in a segment: what was there, and what they write if
    they write to it. -/
theorem segment_performAll {d : Disk} {es : List Effect} {day : Day} (hg : d.Grounded es)
    (htarget : ∀ e ∈ es, ∀ x ∈ e.target, x = day) (x : Day) :
    ((d.performAll es).segment x).getD [] =
      (d.segment x).getD [] ++ if x = day then es.filterMap Effect.byte else [] := by
  induction es generalizing d with
  | nil => simp [performAll]
  | cons e es ih =>
      have hrest := ih hg.2 fun f hf => htarget f (List.mem_cons_of_mem e hf)
      refine hrest.trans ?_
      cases e with
      | create day' =>
          have hnone : Effect.byte (.create day') = none := rfl
          rw [List.filterMap_cons_none hnone, segment_create]
          by_cases hx : x = day' <;> simp [hx]
      | write day' byte =>
          have hsome : Effect.byte (.write day' byte) = some byte := rfl
          have hday : day' = day := htarget (.write day' byte) List.mem_cons_self day' rfl
          subst hday
          rw [List.filterMap_cons_some hsome, segment_write]
          by_cases hx : x = day'
          · obtain ⟨b, hb⟩ := Option.isSome_iff_exists.1 (hg.1 day' rfl)
            subst hx
            simp [hb]
          · simp [hx]
      | truncateMarker => exact congrArg _ (if_congr Iff.rfl rfl rfl)
      | writeMarker seq => exact congrArg _ (if_congr Iff.rfl rfl rfl)

/-- A segment appears when it is opened. -/
theorem segment_of_performAll {d : Disk} {es : List Effect} {x : Day}
    (h : ((d.performAll es).segment x).isSome) (hnone : d.segment x = none) :
    ∃ e ∈ es, e.segment = some x := by
  induction es generalizing d with
  | nil =>
      rw [performAll, List.foldl_nil, hnone] at h
      cases h
  | cons e es ih =>
      by_cases he : e.segment = some x
      · exact ⟨e, List.mem_cons_self, he⟩
      · have hsame : (d.perform e).segment x = none := by
          cases e with
          | create day =>
              rw [segment_create, if_neg fun hx : x = day => he (hx ▸ rfl)]
              exact hnone
          | write day byte =>
              rw [segment_write, if_neg fun hx : x = day => he (hx ▸ rfl)]
              exact hnone
          | truncateMarker => exact hnone
          | writeMarker seq => exact hnone
        rcases ih h hsame with ⟨f, hf, hx⟩
        exact ⟨f, List.mem_cons_of_mem e hf, hx⟩

theorem keyed_performAll {d : Disk} (es : List Effect) (h : Table.Keyed Prod.fst d.segments) :
    Table.Keyed Prod.fst (d.performAll es).segments := by
  induction es generalizing d with
  | nil => exact h
  | cons e es ih =>
      refine ih ?_
      cases e with
      | create day => exact Table.keyed_insertNew _ h
      | write day byte =>
          have hkey : ∀ s : Day × List UInt8, (s.1, s.2 ++ [byte]).1 = s.1 := fun _ => rfl
          exact Table.keyed_modify day hkey h
      | truncateMarker => exact h
      | writeMarker seq => exact h

theorem performAll_append (d : Disk) (es fs : List Effect) :
    d.performAll (es ++ fs) = (d.performAll es).performAll fs := List.foldl_append

theorem grounded_append {d : Disk} {es fs : List Effect} (hes : d.Grounded es)
    (hfs : (d.performAll es).Grounded fs) : d.Grounded (es ++ fs) := by
  induction es generalizing d with
  | nil => exact hfs
  | cons e es ih => exact ⟨hes.1, ih hes.2 hfs⟩

theorem grounded_take {d : Disk} {es : List Effect} (h : d.Grounded es) (k : Nat) :
    d.Grounded (es.take k) := by
  induction es generalizing d k with
  | nil =>
      rw [List.take_nil]
      trivial
  | cons e es ih =>
      cases k with
      | zero => trivial
      | succ k => exact ⟨h.1, ih h.2 k⟩

/-- Effects that write nothing are grounded. -/
theorem grounded_of_silent {d : Disk} {es : List Effect} (h : ∀ e ∈ es, e.target = none) :
    d.Grounded es := by
  induction es generalizing d with
  | nil => trivial
  | cons e es ih =>
      refine ⟨fun day hday => ?_, ih fun f hf => h f (List.mem_cons_of_mem e hf)⟩
      rw [h e List.mem_cons_self] at hday
      cases hday

theorem grounded_writeLine {d : Disk} {day : Day} (text : List UInt8)
    (h : (d.segment day).isSome) : d.Grounded (writeLine day text) := by
  unfold writeLine
  generalize text ++ [newline] = bytes
  induction bytes generalizing d with
  | nil => trivial
  | cons x bytes ih =>
      refine ⟨fun y hy => ?_, ih (segment_perform_isSome h)⟩
      cases hy
      exact h

end Disk

/-! ### What an operation writes -/

/-- The records an append writes: the first of a new segment, and its own. -/
def Inner.entries {β : Type} (c : Codec β) (i : Inner) (day : Day) (body : β) :
    List (Entry β) :=
  if day = i.day then [⟨day, i.nextSeq, body⟩]
  else [⟨day, i.nextSeq, c.rotated i.day⟩, ⟨day, i.nextSeq + 1, body⟩]

/-- The records an operation writes. -/
def entries {β : Type} (c : Codec β) (d : Disk) : Option Inner → LogOp β → List (Entry β)
  | none, .open today day _ =>
      match recoverNextSeq c d with
      | none => []
      | some r =>
          if r.recoveredFromScan then
            (⟨r.nextSeq, today, 0⟩ : Inner).entries c day
              (c.recovered r.nextSeq r.discardedTornLine)
          else []
  | some i, .append day body _ => i.entries c day body
  | _, _ => []

/-- Some effects write these records to one segment, which exists by then, and
    the counter moves from `n` past them. -/
structure Writes {β : Type} (c : Codec β) (d : Disk) (n : Nat) (effects : List Effect)
    (es : List (Entry β)) (inner : Option Inner) : Prop where
  days : ∃ day, (∀ e ∈ effects, ∀ x ∈ e.target, x = day) ∧ ∀ e ∈ es, e.day = day
  text : effects.filterMap Effect.byte = textOf c es
  grounded : d.Grounded effects
  increasing : es.Pairwise fun a b => a.seq < b.seq
  counted : ∀ e ∈ es, n ≤ e.seq ∧ ∀ i ∈ inner, e.seq < i.nextSeq
  opened : ∀ i ∈ inner, n ≤ i.nextSeq ∧ ((d.performAll effects).segment i.day).isSome

section Plans

variable {β : Type} (c : Codec β)

theorem target_writeLine {day : Day} {text : List UInt8} {e : Effect}
    (h : e ∈ writeLine day text) : e.target = some day := by
  obtain ⟨byte, hbyte⟩ := mem_writeLine h
  obtain ⟨x, -, hx⟩ := List.mem_map.1 h
  rw [← hx]
  rfl

theorem byte_writeLine (day : Day) (text : List UInt8) :
    (writeLine day text).filterMap Effect.byte = text ++ [newline] := by
  unfold writeLine
  generalize text ++ [newline] = bytes
  induction bytes with
  | nil => rfl
  | cons x bytes ih =>
      have hsome : Effect.byte (.write day x) = some x := rfl
      rw [List.map_cons, List.filterMap_cons_some hsome, ih]

theorem byte_of_silent {es : List Effect} (h : ∀ e ∈ es, e.target = none) :
    es.filterMap Effect.byte = [] := by
  rw [List.filterMap_eq_nil_iff]
  intro e he
  cases e with
  | write day x => exact absurd (h _ he) (by simp [Effect.target])
  | _ => rfl

/-- Silent effects before a line and after it. -/
theorem writes_line {d : Disk} {n : Nat} {pre post : List Effect} {day : Day} {seq : Nat}
    {body : β} {inner : Inner} (hpre : ∀ e ∈ pre, e.target = none)
    (hpost : ∀ e ∈ post, e.target = none) (hn : n ≤ seq) (hinner : inner.nextSeq = seq + 1)
    (hday : inner.day = day) (hopen : ((d.performAll pre).segment day).isSome) :
    Writes c d n (pre ++ (writeLine day (c.encode seq body) ++ post)) [⟨day, seq, body⟩]
      (some inner) := by
  have htarget : ∀ e ∈ pre ++ (writeLine day (c.encode seq body) ++ post), ∀ x ∈ e.target,
      x = day := by
    intro e he x hx
    rcases List.mem_append.1 he with he | he
    · rw [hpre e he] at hx
      cases hx
    rcases List.mem_append.1 he with he | he
    · rw [target_writeLine he] at hx
      cases hx
      rfl
    · rw [hpost e he] at hx
      cases hx
  refine ⟨⟨day, htarget, by simp⟩, ?_, ?_, List.pairwise_singleton _ _, ?_, ?_⟩
  · rw [List.filterMap_append, List.filterMap_append, byte_of_silent hpre, byte_of_silent hpost,
      byte_writeLine]
    simp [textOf]
  · refine Disk.grounded_append (Disk.grounded_of_silent hpre) ?_
    exact Disk.grounded_append (Disk.grounded_writeLine _ hopen) (Disk.grounded_of_silent hpost)
  · intro e he
    cases List.mem_singleton.1 he
    refine ⟨hn, fun i hi => ?_⟩
    cases hi
    dsimp only
    omega
  · intro i hi
    cases hi
    rw [Disk.performAll_append, hday]
    exact ⟨by omega, Disk.segment_performAll_isSome hopen⟩

/-- Effects that write one record, and then some more. -/
theorem writes_append {d : Disk} {n : Nat} {first rest : List Effect} {e : Entry β}
    {es : List (Entry β)} {i : Inner} {inner : Option Inner}
    (hfirst : Writes c d n first [e] (some i))
    (hrest : Writes c (d.performAll first) i.nextSeq rest es inner)
    (hdays : ∀ f ∈ es, f.day = e.day) (htarget : ∀ f ∈ first ++ rest, ∀ x ∈ f.target, x = e.day) :
    Writes c d n (first ++ rest) (e :: es) inner := by
  have he := hfirst.counted e List.mem_cons_self
  have hnext := he.2 i rfl
  have hopen := hfirst.opened i rfl
  refine ⟨⟨e.day, htarget, ?_⟩, ?_, ?_, ?_, ?_, ?_⟩
  · intro f hf
    rcases List.mem_cons.1 hf with rfl | hf
    · rfl
    · exact hdays f hf
  · rw [List.filterMap_append, hfirst.text, hrest.text]
    simp [textOf]
  · exact Disk.grounded_append hfirst.grounded hrest.grounded
  · refine List.pairwise_cons.2 ⟨fun f hf => ?_, hrest.increasing⟩
    have := (hrest.counted f hf).1
    omega
  · intro f hf
    rcases List.mem_cons.1 hf with rfl | hf
    · refine ⟨he.1, fun j hj => ?_⟩
      have := (hrest.opened j hj).1
      omega
    · have := (hrest.counted f hf).1
      exact ⟨by omega, (hrest.counted f hf).2⟩
  · intro j hj
    rw [Disk.performAll_append]
    have := (hrest.opened j hj).1
    exact ⟨by omega, (hrest.opened j hj).2⟩

/-- An append writes its record, behind the first record of a segment if the day
    has changed. -/
theorem append_writes {d : Disk} {i : Inner} (day : Day) (body : β) (elapsed : Bool)
    (hopen : (d.segment i.day).isSome) :
    Writes c d i.nextSeq
      ((i.append c day body elapsed).before ++
        ((i.append c day body elapsed).line ++ (i.append c day body elapsed).after))
      (i.entries c day body) (some (i.append c day body elapsed).inner) := by
  obtain ⟨-, hnext, -, hline, hafter⟩ := append_spec c i day body elapsed
  have hpost : ∀ e ∈ (i.append c day body elapsed).after, e.target = none := by
    intro e he
    rcases hafter with h | h
    · rw [h] at he
      cases he
    · rw [h, List.mem_pair] at he
      rcases he with rfl | rfl <;> rfl
  have hday : (i.append c day body elapsed).inner.day = day := by
    unfold Inner.append Inner.rotate
    by_cases h : day = i.day
    · simp only [if_pos h]
      split <;> exact h.symm
    · simp only [if_neg h]
      split <;> rfl
  rw [hline, hday]
  by_cases h : day = i.day
  · have hseq : (i.append c day body elapsed).seq = i.nextSeq := by
      simp only [Inner.append, if_pos h]
    have hbefore : (i.append c day body elapsed).before = [] := by
      simp only [Inner.append, if_pos h]
    rw [hseq] at hnext
    rw [hbefore, hseq, Inner.entries, if_pos h]
    exact writes_line c (fun _ he => by cases he) hpost le_rfl hnext hday (h ▸ hopen)
  · have hseq : (i.append c day body elapsed).seq = i.nextSeq + 1 := by
      simp only [Inner.append, if_neg h, Inner.rotate]
    have hbefore : (i.append c day body elapsed).before =
        (i.sync ++ [.create day]) ++ (writeLine day (c.encode i.nextSeq (c.rotated i.day)) ++ []) := by
      simp only [Inner.append, if_neg h, Inner.rotate, List.append_nil, List.append_assoc,
        List.cons_append, List.nil_append]
    rw [hseq] at hnext
    rw [hbefore, hseq, Inner.entries, if_neg h]
    have hsilent : ∀ e ∈ i.sync ++ [.create day], e.target = none := by
      intro e he
      simp only [Inner.sync, List.cons_append, List.nil_append, List.mem_cons, List.not_mem_nil,
        or_false] at he
      rcases he with rfl | rfl | rfl <;> rfl
    have hcreated : ((d.performAll (i.sync ++ [.create day])).segment day).isSome := by
      rw [Disk.performAll_append]
      have hone := Disk.segment_create (d.performAll i.sync) day day
      rw [if_pos rfl] at hone
      exact hone ▸ rfl
    have hrotated : Writes c d i.nextSeq (i.sync ++ [.create day] ++
        (writeLine day (c.encode i.nextSeq (c.rotated i.day)) ++ []))
        [⟨day, i.nextSeq, c.rotated i.day⟩] (some ⟨i.nextSeq + 1, day, 0⟩) :=
      writes_line c hsilent (fun _ he => by cases he) le_rfl rfl rfl hcreated
    have hown : Writes c (d.performAll (i.sync ++ [.create day] ++
        (writeLine day (c.encode i.nextSeq (c.rotated i.day)) ++ []))) (i.nextSeq + 1)
        ([] ++ (writeLine day (c.encode (i.nextSeq + 1) body) ++
          (i.append c day body elapsed).after))
        [⟨day, i.nextSeq + 1, body⟩] (some (i.append c day body elapsed).inner) :=
      writes_line c (fun _ he => by cases he) hpost le_rfl hnext hday (hrotated.opened _ rfl).2
    refine writes_append c hrotated hown (fun f hf => ?_) fun f hf x hx => ?_
    · cases List.mem_singleton.1 hf
      rfl
    · rcases List.mem_append.1 hf with hf | hf
      · obtain ⟨day', htarget, hdays⟩ := hrotated.days
        rw [htarget f hf x hx]
        exact (hdays _ List.mem_cons_self).symm
      · obtain ⟨day', htarget, hdays⟩ := hown.days
        rw [htarget f hf x hx]
        exact (hdays _ List.mem_cons_self).symm

variable {c}

theorem Writes.mono {d : Disk} {m n : Nat} {effects : List Effect} {es : List (Entry β)}
    {inner : Option Inner} (hmn : m ≤ n) (h : Writes c d n effects es inner) :
    Writes c d m effects es inner where
  days := h.days
  text := h.text
  grounded := h.grounded
  increasing := h.increasing
  counted e he := ⟨hmn.trans (h.counted e he).1, (h.counted e he).2⟩
  opened i hi := ⟨hmn.trans (h.opened i hi).1, (h.opened i hi).2⟩

/-- Effects without a record. -/
theorem writes_silent {d : Disk} {n : Nat} {effects : List Effect} {inner : Option Inner}
    (hsilent : ∀ e ∈ effects, e.target = none)
    (hopened : ∀ i ∈ inner, n ≤ i.nextSeq ∧ ((d.performAll effects).segment i.day).isSome) :
    Writes c d n effects [] inner where
  days := by
    refine ⟨0, fun e he x hx => ?_, fun e he => absurd he List.not_mem_nil⟩
    rw [hsilent e he] at hx
    cases hx
  text := byte_of_silent hsilent
  grounded := Disk.grounded_of_silent hsilent
  increasing := List.Pairwise.nil
  counted e he := absurd he List.not_mem_nil
  opened := hopened

/-- The number an operation answers with is that of a record it writes. -/
theorem returned_mem_entries {d : Disk} {inner : Option Inner} {op : LogOp β} {seq : Nat}
    (h : (plan c d inner op).returned = some seq) : ∃ e ∈ entries c d inner op, e.seq = seq := by
  have happend : ∀ (i : Inner) (day : Day) (body : β) (elapsed : Bool),
      ∃ e ∈ i.entries c day body, e.seq = (i.append c day body elapsed).seq := by
    intro i day body elapsed
    unfold Inner.entries Inner.append Inner.rotate
    by_cases hday : day = i.day
    · simp [hday]
    · simp [hday]
  cases inner with
  | none =>
      cases op with
      | «open» today day elapsed =>
          simp only [plan, entries] at h ⊢
          cases hr : recoverNextSeq c d with
          | none => simp [hr, Plan.idle] at h
          | some r =>
              simp only [hr] at h
              by_cases hscan : r.recoveredFromScan = true
              · rw [if_pos hscan] at h
                dsimp only
                rw [if_pos hscan]
                cases h
                exact happend _ _ _ _
              · rw [if_neg hscan] at h
                cases h
      | append day body elapsed => cases h
      | flush => cases h
      | close => cases h
  | some i =>
      cases op with
      | append day body elapsed =>
          cases h
          exact happend _ _ _ _
      | «open» today day elapsed => cases h
      | flush => cases h
      | close => cases h

/-- What an operation writes, from a counter that is in memory or recovered. -/
theorem plan_writes {d : Disk} {inner : Option Inner} {n : Nat} (op : LogOp β)
    (hopen : ∀ i ∈ inner, n ≤ i.nextSeq ∧ (d.segment i.day).isSome)
    (hrec : inner = none → ∀ r ∈ recoverNextSeq c d, n ≤ r.nextSeq) :
    Writes c d n (plan c d inner op).effects (entries c d inner op) (plan c d inner op).inner := by
  have hidle : Writes c d n [] [] inner :=
    writes_silent (fun e he => absurd he List.not_mem_nil) hopen
  cases inner with
  | none =>
      cases op with
      | «open» today day elapsed =>
          simp only [plan, entries]
          cases hr : recoverNextSeq c d with
          | none => exact hidle
          | some r =>
              have hn := hrec rfl r hr
              have hcreated : ((d.performAll [.create today]).segment today).isSome := by
                have hone := Disk.segment_create d today today
                rw [if_pos rfl] at hone
                exact hone ▸ rfl
              have hcreate : ∀ e ∈ [Effect.create today], e.target = none := by
                intro e he
                cases List.mem_singleton.1 he
                rfl
              dsimp only
              by_cases hscan : r.recoveredFromScan = true
              · rw [if_pos hscan, if_pos hscan]
                have happend := append_writes c (i := ⟨r.nextSeq, today, 0⟩) day
                  (c.recovered r.nextSeq r.discardedTornLine) elapsed hcreated
                obtain ⟨target, htarget, hdays⟩ := happend.days
                refine (Writes.mono hn ?_ : Writes c d n _ _ _)
                simp only [Plan.appending, Plan.effects, List.append_assoc]
                refine ⟨⟨target, fun e he x hx => ?_, hdays⟩, ?_, ?_, happend.increasing,
                  happend.counted, happend.opened⟩
                · rcases List.mem_append.1 he with he | he
                  · rw [hcreate e he] at hx
                    cases hx
                  · exact htarget e he x hx
                · rw [List.filterMap_append, byte_of_silent hcreate, List.nil_append, happend.text]
                · exact Disk.grounded_append (Disk.grounded_of_silent hcreate) happend.grounded
              · rw [if_neg hscan, if_neg hscan]
                refine writes_silent hcreate fun i hi => ?_
                cases hi
                exact ⟨hn, hcreated⟩
      | append day body elapsed => exact hidle
      | flush => exact hidle
      | close => exact hidle
  | some i =>
      have hi := hopen i rfl
      cases op with
      | «open» today day elapsed => exact hidle
      | append day body elapsed =>
          exact Writes.mono hi.1 (append_writes c day body elapsed hi.2)
      | flush =>
          have hsilent : ∀ e ∈ i.sync ++ ([] ++ []), e.target = none := by
            intro e he
            simp only [Inner.sync, List.append_nil, List.mem_pair] at he
            rcases he with rfl | rfl <;> rfl
          refine writes_silent hsilent fun j hj => ?_
          cases hj
          exact hi
      | close =>
          -- A closed log has nothing open.
          refine writes_silent (fun e he => absurd he List.not_mem_nil) fun j hj => ?_
          cases hj

end Plans

end PocketSkynet
