import Mathlib.Order.Lattice
import PocketSkynet.Server.EventLog

/-!
# Sequence Numbers across Crashes

A run of the log is a list of operations, each carried out to its end or cut
short by a crash after any number of its effects. Beside the log the run keeps
the numbers that appends have answered with, and two marks on the newest of
them. It is `marked` once the marker has been rewritten after it, until the
marker is truncated for the next time. It is `anchored` if its record was begun
on a fresh line of the newest segment, until a newer segment is created.

Either mark is enough for recovery to start above every number handed out, and
one of them can be missing. An append after a crash runs on into the torn line
of the last process, and then its record cannot be read back; a log opened on a
new day creates its segment before it has written to it, and recovery reads no
other. `seqs_increase` says that nothing else goes wrong: as long as no process
ends while the newest number is neither marked nor anchored, the numbers handed
out are strictly increasing and recovery never falls behind them.

## Main definitions

* `LogRun`, `LogRun.step`: The system.
* `LogRun.Findable`: The newest number is marked or anchored.
* `LogRun.EndsFindable`: The condition on a step.
* `LogRun.InSequence`: Numbers increase, and the counter is past all of them.

## Theorems

* `inv_step`: Steps that end no process too early keep the counter ahead.
* `seqs_increase`: The numbers handed out are strictly increasing.
* `torn_line_reuses`: A number that is handed out twice.
-/

namespace PocketSkynet

open Lines

/-! ### The newest segment -/

namespace Disk

theorem newest_map (f : Day × List UInt8 → Day × List UInt8) (hf : ∀ s, (f s).1 = s.1)
    (l : List (Day × List UInt8)) (m : Option Nat) :
    (Disk.mk m (l.map f)).newest = (Disk.mk m l).newest.map f := by
  have hfold : ∀ best : Option (Day × List UInt8),
      (l.map f).foldl (fun best s => if best.all (·.1 < s.1) then some s else best)
        (best.map f) =
      (l.foldl (fun best s => if best.all (·.1 < s.1) then some s else best) best).map f := by
    induction l with
    | nil => exact fun _ => rfl
    | cons x l ih =>
        intro best
        rw [List.map_cons, List.foldl_cons, List.foldl_cons, ← ih]
        congr 1
        cases best with
        | none => rfl
        | some b =>
            simp only [Option.map_some, Option.all_some, hf]
            by_cases hlt : b.1 < x.1 <;> simp [hlt]
  exact hfold none

theorem newest_snoc (m : Option Nat) (l : List (Day × List UInt8)) (s : Day × List UInt8) :
    (Disk.mk m (l ++ [s])).newest =
      if (Disk.mk m l).newest.all (·.1 < s.1) then some s else (Disk.mk m l).newest := by
  unfold newest
  rw [List.foldl_append]
  rfl

/-- Writing a byte shows in the newest segment if it goes there. -/
theorem newest_write (d : Disk) (day : Day) (byte : UInt8) :
    (d.perform (.write day byte)).newest =
      d.newest.map fun s => if s.1 = day then (s.1, s.2 ++ [byte]) else s := by
  refine newest_map _ (fun s => ?_) d.segments d.marker
  by_cases h : s.1 = day <;> simp [h]

/-- Opening a segment leaves the newest one, unless it creates a newer one. -/
theorem newest_create (d : Disk) (day : Day) :
    (d.perform (.create day)).newest = d.newest ∨
      (d.newest.all (·.1 < day) = true ∧ (d.perform (.create day)).newest = some (day, [])) := by
  simp only [perform, Table.insertNew]
  by_cases hs : (Table.lookup Prod.fst day d.segments).isSome
  · rw [if_pos hs]
    exact Or.inl rfl
  · rw [if_neg hs, newest_snoc]
    by_cases hn : d.newest.all (·.1 < day)
    · exact Or.inr ⟨hn, if_pos hn⟩
    · exact Or.inl (if_neg hn)

end Disk

/-! ### Recovery -/

section Recovery

variable {β : Type} {c : Codec β}

/-- What a line adds to the scan of its segment. -/
def scanLine (c : Codec β) (acc : Nat × Bool) (line : List UInt8) : Option (Nat × Bool) :=
  match c.read line with
  | .notText => none
  | .blank => some acc
  | .junk => some (acc.1, true)
  | .record seq => some (max acc.1 (seq + 1), false)

theorem scan_eq (bytes : List UInt8) :
    scan c bytes = (lines newline bytes).foldlM (scanLine c) (0, false) := rfl

-- The count never goes down, and it goes past a record.
theorem scanLine_eq_some {acc next : Nat × Bool} {line : List UInt8}
    (h : scanLine c acc line = some next) :
    acc.1 ≤ next.1 ∧ ∀ seq, c.read line = .record seq → seq < next.1 := by
  unfold scanLine at h
  cases hread : c.read line with
  | notText => simp [hread] at h
  | blank =>
      simp only [hread, Option.some.injEq] at h
      subst h
      exact ⟨le_rfl, fun _ hseq => by cases hseq⟩
  | junk =>
      simp only [hread, Option.some.injEq] at h
      subst h
      exact ⟨le_rfl, fun _ hseq => by cases hseq⟩
  | record k =>
      simp only [hread, Option.some.injEq] at h
      subst h
      refine ⟨le_max_left _ _, fun seq hseq => ?_⟩
      cases hseq
      exact le_max_right acc.1 (k + 1)

-- Wherever the scan has come to, it goes on counting from there.
theorem le_foldlM_scanLine {ls : List (List UInt8)} {acc last : Nat × Bool}
    (h : ls.foldlM (scanLine c) acc = some last) :
    acc.1 ≤ last.1 ∧ ∀ l ∈ ls, ∀ seq, c.read l = .record seq → seq < last.1 := by
  induction ls generalizing acc with
  | nil =>
      cases h
      exact ⟨le_rfl, fun l hl => absurd hl List.not_mem_nil⟩
  | cons x ls ih =>
      rw [List.foldlM_cons] at h
      rcases Option.bind_eq_some_iff.1 h with ⟨next, hnext, hrest⟩
      have hline := scanLine_eq_some hnext
      have hlater := ih hrest
      refine ⟨hline.1.trans hlater.1, fun l hl seq hread => ?_⟩
      rcases List.mem_cons.1 hl with rfl | hl
      · exact lt_of_lt_of_le (hline.2 seq hread) hlater.1
      · exact hlater.2 l hl seq hread

/-- Recovery counts past every record that can be read on some line. -/
theorem le_scan {bytes : List UInt8} {n : Nat} {torn : Bool} (h : scan c bytes = some (n, torn))
    {l : List UInt8} (hl : l ∈ lines newline bytes) {seq : Nat} (hr : c.read l = .record seq) :
    seq < n := by
  rw [scan_eq] at h
  exact (le_foldlM_scanLine h).2 l hl seq hr

/-- The counter starts at the marker or above. -/
theorem marker_le_recover {d : Disk} {r : Recovery} (h : recoverNextSeq c d = some r) {n : Nat}
    (hn : d.marker = some n) : n ≤ r.nextSeq := by
  obtain ⟨files, -, rfl⟩ := Option.map_eq_some_iff.1 h
  simp [hn]

/-- The counter starts above every record on a line of its own in the newest segment. -/
theorem lt_recover (hc : c.Lawful) {d : Disk} {r : Recovery} (h : recoverNextSeq c d = some r)
    {s : Day × List UInt8} (hs : d.newest = some s) {seq : Nat} {body : β}
    (hl : OnOwnLine newline s.2 (c.encode seq body)) : seq < r.nextSeq := by
  obtain ⟨files, hfiles, rfl⟩ := Option.map_eq_some_iff.1 h
  rw [scanNewest, hs] at hfiles
  have hlt := le_scan hfiles hl.mem_lines (hc.read_encode seq body)
  dsimp only
  omega

end Recovery

/-! ### Appends -/

section Append

variable {β : Type} (c : Codec β)

theorem mem_writeLine {day : Day} {text : List UInt8} {e : Effect} (h : e ∈ writeLine day text) :
    ∃ byte, e = .write day byte := by
  obtain ⟨byte, -, rfl⟩ := List.mem_map.1 h
  exact ⟨byte, rfl⟩

/-- The marker is only ever rewritten to what the counter has reached. -/
def Marks (n : Nat) (es : List Effect) : Prop := ∀ k, .writeMarker k ∈ es → n ≤ k

theorem marks_append {n : Nat} {es fs : List Effect} (he : Marks n es) (hf : Marks n fs) :
    Marks n (es ++ fs) := by
  intro k hk
  rcases List.mem_append.1 hk with hk | hk
  · exact he k hk
  · exact hf k hk

theorem marks_writeLine (n : Nat) (day : Day) (text : List UInt8) :
    Marks n (writeLine day text) := by
  intro k hk
  obtain ⟨byte, hbyte⟩ := mem_writeLine hk
  cases hbyte

theorem marks_sync {n : Nat} {i : Inner} (h : n ≤ i.nextSeq) : Marks n i.sync := by
  intro k hk
  simp only [Inner.sync, List.mem_cons, List.not_mem_nil, or_false, reduceCtorEq, false_or] at hk
  cases hk
  exact h

theorem marks_rotate (i : Inner) (day : Day) : Marks i.nextSeq (i.rotate c day).1 := by
  refine marks_append (marks_sync le_rfl) fun k hk => ?_
  rcases List.mem_cons.1 hk with hk | hk
  · cases hk
  · exact marks_writeLine i.nextSeq day _ k hk

/-- An append answers with a number the counter has not passed, leaves the
    counter right after it, and syncs after its line or not at all. -/
theorem append_spec (i : Inner) (day : Day) (body : β) (elapsed : Bool) :
    let a := i.append c day body elapsed
    i.nextSeq ≤ a.seq ∧ a.inner.nextSeq = a.seq + 1 ∧ Marks i.nextSeq a.before ∧
      a.line = writeLine a.inner.day (c.encode a.seq body) ∧
      (a.after = [] ∨ a.after = [.truncateMarker, .writeMarker (a.seq + 1)]) := by
  have hstart : i.nextSeq ≤ (if day = i.day then ([], i) else i.rotate c day).2.nextSeq ∧
      Marks i.nextSeq (if day = i.day then ([], i) else i.rotate c day).1 := by
    split
    · exact ⟨le_rfl, fun k hk => by cases hk⟩
    · exact ⟨Nat.le_succ _, marks_rotate c i day⟩
  unfold Inner.append
  revert hstart
  generalize (if day = i.day then ([], i) else i.rotate c day) = start
  intro hstart
  refine ⟨hstart.1, ?_, hstart.2, ?_, ?_⟩
  · dsimp only
    split <;> rfl
  · dsimp only
    split <;> rfl
  · dsimp only
    split
    · exact Or.inr rfl
    · exact Or.inl rfl

end Append

/-! ### Runs -/

/-- The log with what it has answered. `marked` and `anchored` are about the
    newest of the numbers handed out. -/
structure LogRun where
  disk : Disk
  inner : Option Inner
  handed : List Nat
  marked : Bool
  anchored : Bool
deriving DecidableEq, Repr

/-- An operation, carried out or cut short after some of its effects. -/
inductive LogInput (β : Type) where
  | run (op : LogOp β)
  | crash (op : LogOp β) (cut : Nat)
deriving DecidableEq, Repr

namespace LogRun

/-- An empty directory and no process. -/
def start : LogRun := ⟨⟨none, []⟩, none, [], false, false⟩

/-- An effect on the disk, and on the marks: a truncated marker marks nothing,
    and under a newer segment nothing is anchored. -/
def perform (w : LogRun) (e : Effect) : LogRun :=
  { w with
    disk := w.disk.perform e
    marked := match e with
      | .truncateMarker => false
      | .writeMarker _ => true
      | _ => w.marked
    anchored := match e with
      | .create day => w.anchored && !w.disk.newest.all (·.1 < day)
      | _ => w.anchored }

def performAll (w : LogRun) (es : List Effect) : LogRun := es.foldl perform w

/-- What is written to the segment next starts a line of the newest segment. -/
def freshLine (w : LogRun) (day : Day) : Bool :=
  w.disk.newest.any fun s => s.1 == day && decide (Terminated newline s.2)

variable {β : Type} (c : Codec β)

/-- The log after an operation, or after the part of it that came before a crash. -/
def step (w : LogRun) : LogInput β → LogRun
  | .run op =>
      let p := plan c w.disk w.inner op
      let w' := w.performAll p.effects
      match p.inner, p.returned with
      | some i, some seq =>
          { w' with
            inner := some i
            handed := w.handed ++ [seq]
            marked := !p.after.isEmpty
            anchored := (w.performAll p.before).freshLine i.day }
      | inner, _ => { w' with inner := inner }
  | .crash op cut =>
      let p := plan c w.disk w.inner op
      let w' := w.performAll (p.effects.take cut)
      { w' with
        inner := none
        anchored := w'.anchored || p.written cut &&
          p.inner.any fun i => (w.performAll p.before).freshLine i.day }

/-- The newest number handed out is marked or anchored, if there is one. -/
def Findable (w : LogRun) : Prop := w.handed = [] ∨ w.marked = true ∨ w.anchored = true

/-- The step does not end the process while the newest number it has handed out
    is neither marked nor anchored. -/
def EndsFindable (w : LogRun) (input : LogInput β) : Prop :=
  (w.step c input).inner = none → (w.step c input).Findable

/-- The numbers handed out are strictly increasing. The counter of an open log is
    past all of them, and so is the one a closed log would recover. -/
structure InSequence (w : LogRun) : Prop where
  increasing : w.handed.Pairwise (· < ·)
  ahead : ∀ i, w.inner = some i → ∀ seq ∈ w.handed, seq < i.nextSeq
  recovered : w.inner = none → ∀ r, recoverNextSeq c w.disk = some r →
    ∀ seq ∈ w.handed, seq < r.nextSeq

/-- The marks are truthful. -/
structure Trail (w : LogRun) : Prop where
  marker : w.marked = true → ∃ n, w.disk.marker = some n ∧ ∀ seq ∈ w.handed, seq < n
  line : w.anchored = true → ∃ s, w.disk.newest = some s ∧ ∃ k body,
    OnOwnLine newline s.2 (c.encode k body) ∧ ∀ seq ∈ w.handed, seq ≤ k

/-- The marks are truthful, the counter is ahead, and no process has ended too
    early. -/
structure Inv (w : LogRun) : Prop where
  increasing : w.handed.Pairwise (· < ·)
  ahead : ∀ i, w.inner = some i → ∀ seq ∈ w.handed, seq < i.nextSeq
  trail : w.Trail c
  findable : w.inner = none → w.Findable

variable {c}

instance (w : LogRun) : Decidable w.Findable := inferInstanceAs (Decidable (_ ∨ _ ∨ _))

instance (w : LogRun) (input : LogInput β) : Decidable (w.EndsFindable c input) :=
  inferInstanceAs (Decidable (_ → _))

theorem performAll_append (w : LogRun) (es fs : List Effect) :
    w.performAll (es ++ fs) = (w.performAll es).performAll fs := List.foldl_append

@[simp] theorem perform_disk (w : LogRun) (e : Effect) :
    (w.perform e).disk = w.disk.perform e := rfl

theorem performAll_handed (w : LogRun) (es : List Effect) :
    (w.performAll es).handed = w.handed := by
  induction es generalizing w with
  | nil => rfl
  | cons e es ih => exact ih (w.perform e)

/-- Effects leave the marks truthful. -/
theorem trail_perform {w : LogRun} {e : Effect} (h : w.Trail c)
    (he : ∀ k, e = .writeMarker k → ∀ seq ∈ w.handed, seq < k) : (w.perform e).Trail c := by
  cases e with
  | create day =>
      refine ⟨h.marker, fun ha => ?_⟩
      simp only [perform, Bool.and_eq_true, Bool.not_eq_true'] at ha
      obtain ⟨s, hs, hline⟩ := h.line ha.1
      rcases w.disk.newest_create day with hn | ⟨hn, -⟩
      · exact ⟨s, hn.trans hs, hline⟩
      · rw [ha.2] at hn
        cases hn
  | write day byte =>
      refine ⟨h.marker, fun ha => ?_⟩
      obtain ⟨s, hs, k, body, hown, hle⟩ := h.line ha
      have hn := w.disk.newest_write day byte
      rw [hs, Option.map_some] at hn
      refine ⟨_, hn, k, body, ?_, hle⟩
      by_cases hday : s.1 = day
      · rw [if_pos hday]
        exact hown.append [byte]
      · rw [if_neg hday]
        exact hown
  | truncateMarker => exact ⟨(fun hm => by cases hm), h.line⟩
  | writeMarker k => exact ⟨fun _ => ⟨k, rfl, he k rfl⟩, h.line⟩

theorem trail_performAll {w : LogRun} {es : List Effect} (h : w.Trail c)
    (hes : ∀ k, .writeMarker k ∈ es → ∀ seq ∈ w.handed, seq < k) :
    (w.performAll es).Trail c := by
  induction es generalizing w with
  | nil => exact h
  | cons e es ih =>
      refine ih (trail_perform h fun k hk => hes k (hk ▸ List.mem_cons_self)) fun k hk => ?_
      exact hes k (List.mem_cons_of_mem e hk)

/-- A line that is written to the newest segment follows what was there. -/
theorem newest_writeLine {w : LogRun} {day : Day} {bytes : List UInt8} (text : List UInt8)
    (h : w.disk.newest = some (day, bytes)) :
    (w.performAll (text.map (Effect.write day))).disk.newest = some (day, bytes ++ text) := by
  induction text generalizing w bytes with
  | nil => simpa [performAll] using h
  | cons x text ih =>
      have hone : (w.perform (.write day x)).disk.newest = some (day, bytes ++ [x]) := by
        rw [perform_disk, Disk.newest_write, h]
        simp
      have hrest := ih hone
      rw [List.append_assoc] at hrest
      exact hrest

end LogRun

/-! ### Plans -/

/-- What an operation has to be for a run that has handed these numbers out: it
    marks only numbers past them, leaves the counter past them, and if it answers,
    then with a number past them, in a record it has written. -/
structure Plan.Sound {β : Type} (c : Codec β) (handed : List Nat) (p : Plan) : Prop where
  marks : ∀ k, .writeMarker k ∈ p.effects → ∀ seq ∈ handed, seq < k
  inner : ∀ i, p.inner = some i → ∀ seq ∈ handed, seq < i.nextSeq
  answer : ∀ seq, p.returned = some seq → ∃ i body, p.inner = some i ∧ i.nextSeq = seq + 1 ∧
    (∀ k ∈ handed, k < seq) ∧ p.line = writeLine i.day (c.encode seq body) ∧
    (p.after = [] ∨ p.after = [.truncateMarker, .writeMarker (seq + 1)])

section Plans

variable {β : Type} {c : Codec β} {handed : List Nat}

theorem sound_idle {inner : Option Inner}
    (h : ∀ i, inner = some i → ∀ seq ∈ handed, seq < i.nextSeq) :
    (Plan.idle inner).Sound c handed :=
  ⟨fun k hk => absurd hk List.not_mem_nil, h, fun seq hseq => by cases hseq⟩

theorem sound_appending {i : Inner} {first : List Effect} (day : Day) (body : β) (elapsed : Bool)
    (hi : ∀ seq ∈ handed, seq < i.nextSeq) (hfirst : Marks i.nextSeq first) :
    (Plan.appending first (i.append c day body elapsed)).Sound c handed := by
  obtain ⟨hseq, hnext, hbefore, hline, hafter⟩ := append_spec c i day body elapsed
  have hmarks : Marks i.nextSeq (Plan.appending first (i.append c day body elapsed)).effects := by
    refine marks_append (marks_append hfirst hbefore) (marks_append ?_ ?_)
    · rw [Plan.appending, hline]
      exact marks_writeLine _ _ _
    · rw [Plan.appending]
      rcases hafter with h | h
      · rw [h]
        exact fun k hk => absurd hk List.not_mem_nil
      · intro k hk
        simp only [h, List.mem_cons, List.not_mem_nil, or_false, reduceCtorEq, false_or] at hk
        cases hk
        omega
  refine ⟨fun k hk seq hs => (hi seq hs).trans_le (hmarks k hk), ?_, ?_⟩
  · intro j hj seq hs
    cases hj
    have := hi seq hs
    omega
  · intro seq hret
    cases hret
    exact ⟨_, body, rfl, hnext, fun k hk => (hi k hk).trans_le hseq, hline, hafter⟩

/-- What is planned is sound if the counter is ahead, recovered or in memory. -/
theorem sound_plan {d : Disk} {inner : Option Inner} (op : LogOp β)
    (hahead : ∀ i, inner = some i → ∀ seq ∈ handed, seq < i.nextSeq)
    (hrec : inner = none → ∀ r, recoverNextSeq c d = some r → ∀ seq ∈ handed, seq < r.nextSeq) :
    (plan c d inner op).Sound c handed := by
  cases inner with
  | none =>
      cases op with
      | «open» today day elapsed =>
          simp only [plan]
          cases hr : recoverNextSeq c d with
          | none => exact sound_idle hahead
          | some r =>
              have hi := hrec rfl r hr
              have hcreate : ∀ n, Marks n [.create today] := by
                intro n k hk
                cases List.mem_singleton.1 hk
              dsimp only
              split
              · exact sound_appending (i := ⟨r.nextSeq, today, 0⟩) day _ elapsed hi (hcreate _)
              · refine ⟨fun k hk => ?_, fun i hj => ?_, fun seq hseq => by cases hseq⟩
                · cases List.mem_singleton.1 hk
                · cases hj
                  exact hi
      | _ => exact sound_idle hahead
  | some i =>
      have hi := hahead i rfl
      cases op with
      | append day body elapsed =>
          exact sound_appending day body elapsed hi fun k hk => absurd hk List.not_mem_nil
      | flush =>
          refine ⟨fun k hk seq hs => ?_, fun j hj => ?_, fun seq hseq => by cases hseq⟩
          · have hk : .writeMarker k ∈ i.sync := by simpa [plan, Plan.effects] using hk
            exact (hi seq hs).trans_le (marks_sync (Nat.le_refl _) k hk)
          · cases hj
            exact hi
      | close => exact sound_idle fun j hj => by cases hj
      | _ => exact sound_idle hahead

end Plans

namespace LogRun

variable {β : Type} {c : Codec β}

/-- What is synced after a line leaves the segments alone. -/
theorem newest_after {w : LogRun} {es : List Effect}
    (h : ∀ e ∈ es, e = .truncateMarker ∨ ∃ k, e = .writeMarker k) :
    (w.performAll es).disk.newest = w.disk.newest := by
  induction es generalizing w with
  | nil => rfl
  | cons e es ih =>
      have hrest := ih (w := w.perform e) fun f hf => h f (List.mem_cons_of_mem e hf)
      refine hrest.trans ?_
      rcases h e List.mem_cons_self with rfl | ⟨k, rfl⟩ <;> rfl

/-- A record begun on a fresh line stands on a line of its own once the line has
    been written, whatever part of the sync that follows has been done. -/
theorem onOwnLine_written (hc : c.Lawful) {w : LogRun} {p : Plan} (hp : p.Sound c w.handed)
    {i : Inner} {seq : Nat} (hi : p.inner = some i) (hseq : p.returned = some seq)
    (hfresh : (w.performAll p.before).freshLine i.day = true) (k : Nat) :
    ∃ s, (w.performAll (p.before ++ (p.line ++ p.after.take k))).disk.newest = some s ∧
      ∃ body, OnOwnLine newline s.2 (c.encode seq body) := by
  obtain ⟨j, body, hj, -, -, hline, hafter⟩ := hp.answer seq hseq
  cases Option.some.inj (hi.symm.trans hj)
  obtain ⟨⟨day, bytes⟩, hs, hfresh⟩ := (Option.any_eq_true _ _).1 hfresh
  simp only [Bool.and_eq_true, beq_iff_eq, decide_eq_true_eq] at hfresh
  obtain ⟨rfl, hterm⟩ := hfresh
  have hmarks : ∀ e ∈ p.after.take k, e = .truncateMarker ∨ ∃ k, e = .writeMarker k := by
    intro e he
    have he := List.mem_of_mem_take he
    rcases hafter with ha | ha
    · rw [ha] at he
      cases he
    · rw [ha, List.mem_pair] at he
      rcases he with rfl | rfl
      · exact Or.inl rfl
      · exact Or.inr ⟨seq + 1, rfl⟩
  refine ⟨(i.day, bytes ++ (c.encode seq body ++ [newline])), ?_, body,
    onOwnLine_append (hc.oneLine seq body) hterm⟩
  rw [performAll_append, performAll_append, newest_after hmarks, hline]
  exact newest_writeLine _ hs

/-- The log after an answer: the new number is marked if the append synced, and
    anchored if its line was begun on a fresh line. -/
theorem trail_answered (hc : c.Lawful) {w : LogRun} {p : Plan} (hp : p.Sound c w.handed)
    {i : Inner} {seq : Nat} (hi : p.inner = some i) (hseq : p.returned = some seq) :
    Trail c
      { w.performAll p.effects with
        inner := some i
        handed := w.handed ++ [seq]
        marked := !p.after.isEmpty
        anchored := (w.performAll p.before).freshLine i.day } := by
  obtain ⟨j, body, hj, -, hlt, -, hafter⟩ := hp.answer seq hseq
  have hle : ∀ k ∈ w.handed ++ [seq], k ≤ seq := by
    intro k hk
    rcases List.mem_append.1 hk with hk | hk
    · exact (hlt k hk).le
    · exact (List.mem_singleton.1 hk).le
  constructor
  · intro hmarked
    dsimp only at hmarked ⊢
    rcases hafter with ha | ha
    · simp [ha] at hmarked
    · refine ⟨seq + 1, ?_, fun k hk => Nat.lt_succ_of_le (hle k hk)⟩
      rw [Plan.effects, ha, performAll_append, performAll_append]
      rfl
  · intro hanchored
    obtain ⟨s, hs, body, hown⟩ := onOwnLine_written hc hp hi hseq hanchored p.after.length
    rw [List.take_length] at hs
    exact ⟨s, hs, seq, body, hown, hle⟩

/-- The log after a crash: the effects before it leave the marks truthful, and a
    record that got to the end of a fresh line anchors what is older, too. -/
theorem trail_crashed (hc : c.Lawful) {w : LogRun} {p : Plan} (hp : p.Sound c w.handed)
    (h : w.Trail c) (cut : Nat) :
    Trail c
      { w.performAll (p.effects.take cut) with
        inner := none
        anchored := (w.performAll (p.effects.take cut)).anchored || p.written cut &&
          p.inner.any fun i => (w.performAll p.before).freshLine i.day } := by
  have htrail := trail_performAll h fun k hk => hp.marks k (List.mem_of_mem_take (i := cut) hk)
  refine ⟨htrail.marker, fun ha => ?_⟩
  rcases Bool.or_eq_true_iff.1 ha with ha | ha
  · exact htrail.line ha
  · obtain ⟨hwritten, hfresh⟩ := Bool.and_eq_true_iff.1 ha
    obtain ⟨i, hi, hfresh⟩ := (Option.any_eq_true _ _).1 hfresh
    simp only [Plan.written, Bool.and_eq_true, decide_eq_true_eq] at hwritten
    obtain ⟨seq, hseq⟩ := Option.isSome_iff_exists.1 hwritten.1
    obtain ⟨s, hs, body, hown⟩ := onOwnLine_written hc hp hi hseq hfresh
      (cut - p.before.length - p.line.length)
    have hcut : p.effects.take cut =
        p.before ++ (p.line ++ p.after.take (cut - p.before.length - p.line.length)) := by
      rw [Plan.effects, List.take_append, List.take_append, List.take_of_length_le (by omega),
        List.take_of_length_le (by omega)]
    rw [← hcut] at hs
    refine ⟨s, hs, seq, body, hown, fun k hk => ?_⟩
    rw [performAll_handed] at hk
    obtain ⟨-, -, -, -, hlt, -⟩ := hp.answer seq hseq
    exact (hlt k hk).le

/-- Where the marks are truthful and no process has ended too early, recovery
    starts past every number handed out. -/
theorem recovered_of_inv (hc : c.Lawful) {w : LogRun} (h : w.Inv c) (hdead : w.inner = none)
    {r : Recovery} (hr : recoverNextSeq c w.disk = some r) : ∀ seq ∈ w.handed, seq < r.nextSeq := by
  intro seq hseq
  rcases h.findable hdead with hnone | hmarked | hanchored
  · rw [hnone] at hseq
    cases hseq
  · obtain ⟨n, hn, hlt⟩ := h.trail.marker hmarked
    exact (hlt seq hseq).trans_le (marker_le_recover hr hn)
  · obtain ⟨s, hs, k, body, hown, hle⟩ := h.trail.line hanchored
    exact (hle seq hseq).trans_lt (lt_recover hc hr hs hown)

theorem step_silent {w : LogRun} {op : LogOp β} (h : (plan c w.disk w.inner op).returned = none) :
    w.step c (.run op) = { w.performAll (plan c w.disk w.inner op).effects with
      inner := (plan c w.disk w.inner op).inner } := by
  simp only [step, h]
  cases (plan c w.disk w.inner op).inner <;> rfl

theorem step_answered {w : LogRun} {op : LogOp β} {i : Inner} {seq : Nat}
    (hi : (plan c w.disk w.inner op).inner = some i)
    (hseq : (plan c w.disk w.inner op).returned = some seq) :
    w.step c (.run op) =
      { w.performAll (plan c w.disk w.inner op).effects with
        inner := some i
        handed := w.handed ++ [seq]
        marked := !(plan c w.disk w.inner op).after.isEmpty
        anchored := (w.performAll (plan c w.disk w.inner op).before).freshLine i.day } := by
  simp only [step, hi, hseq]

/-- The step lemma. -/
theorem inv_step (hc : c.Lawful) (w : LogRun) (input : LogInput β) (h : w.Inv c)
    (hends : w.EndsFindable c input) : (w.step c input).Inv c := by
  have hsound : ∀ op, (plan c w.disk w.inner op).Sound c w.handed := fun op =>
    sound_plan op h.ahead fun hdead r hr => recovered_of_inv hc h hdead hr
  cases input with
  | crash op cut =>
      refine ⟨?_, (fun i hi => by cases hi), trail_crashed hc (hsound op) h.trail cut, hends⟩
      simpa only [step, performAll_handed] using h.increasing
  | run op =>
      cases hseq : (plan c w.disk w.inner op).returned with
      | none =>
          have htrail := trail_performAll h.trail (hsound op).marks
          refine ⟨?_, ?_, ?_, hends⟩
          · simpa only [step_silent hseq, performAll_handed] using h.increasing
          · intro i hi
            rw [step_silent hseq] at hi ⊢
            simpa only [performAll_handed] using (hsound op).inner i hi
          · rw [step_silent hseq]
            exact ⟨htrail.marker, htrail.line⟩
      | some seq =>
          obtain ⟨i, body, hi, hnext, hlt, -⟩ := (hsound op).answer seq hseq
          refine ⟨?_, ?_, ?_, hends⟩
          · rw [step_answered hi hseq]
            refine List.pairwise_append.2 ⟨h.increasing, List.pairwise_singleton _ _, ?_⟩
            intro k hk x hx
            exact List.mem_singleton.1 hx ▸ hlt k hk
          · intro j hj k hk
            rw [step_answered hi hseq] at hj hk
            cases hj
            rcases List.mem_append.1 hk with hk | hk
            · have := hlt k hk
              omega
            · have := List.mem_singleton.1 hk
              omega
          · rw [step_answered hi hseq]
            exact trail_answered hc (hsound op) hi hseq

theorem inSequence_of_inv (hc : c.Lawful) (w : LogRun) (h : w.Inv c) : w.InSequence c where
  increasing := h.increasing
  ahead := h.ahead
  recovered hdead _ hr := recovered_of_inv hc h hdead hr

theorem inv_start : (start).Inv c where
  increasing := List.Pairwise.nil
  ahead := fun _ hi => by cases hi
  trail := ⟨(fun hm => by cases hm), fun ha => by cases ha⟩
  findable := fun _ => Or.inl rfl

/-- **Sequence numbers across crashes.** In a run of opens, appends on any days,
    flushes, closes and crashes at any effect, the numbers handed out are strictly
    increasing and the counter, open or recovered, is past all of them, as long as
    no process ends while the newest number is neither marked nor anchored. -/
theorem seqs_increase (hc : c.Lawful) (inputs : List (LogInput β))
    (hends : Run.Along (step c) (EndsFindable c) start inputs) :
    Run.Throughout (step c) (InSequence c) start inputs :=
  Run.throughout_mono (fun w h => inSequence_of_inv hc w h) start inputs
    (Run.throughout_of_along (inv_step hc) start inputs inv_start hends)

end LogRun

namespace Sample

/-- The records of the sample runs: an event, or one of the log's own. -/
inductive Body where
  | event
  | logRotated
  | logRecovered
deriving DecidableEq, Repr

def asciiBytes (cs : List Char) : List UInt8 := cs.map fun c => c.toNat.toUInt8

/-- What follows the number on the line of a record. -/
def Body.text : Body → List Char
  | event => ",\"ts\":\"2026-01-01T00:00:00.000Z\",\"at_ms\":1767225600000,\"kind\":\"audit\",".toList ++
      "\"event\":\x7b\"type\":\"login\"\x7d\x7d".toList
  | logRotated => ",\"ts\":\"2026-01-01T00:00:00.000Z\",\"at_ms\":1767225600000,".toList ++
      "\"kind\":\"system\",\"event\":\x7b\"type\":\"log_rotated\"\x7d\x7d".toList
  | logRecovered => ",\"ts\":\"2026-01-01T00:00:00.000Z\",\"at_ms\":1767225600000,".toList ++
      "\"kind\":\"system\",\"event\":\x7b\"type\":\"log_recovered\"\x7d\x7d".toList

def jsonLine (seq : Nat) (body : Body) : List UInt8 :=
  asciiBytes ("\x7b\"seq\":".toList ++ (Nat.toDigits 10 seq ++ body.text))

/-- The number on the line of a record, if the line is one. -/
def readJsonLine (line : List UInt8) : Line :=
  let chars := line.map fun b => Char.ofNat b.toNat
  let seq := Nat.ofDigitChars 10 ((chars.drop 7).takeWhile Char.isDigit) 0
  if line = [] then .blank
  else if [Body.event, .logRotated, .logRecovered].any fun body => line == jsonLine seq body then
    .record seq
  else .junk

/-- Records as compact JSON objects. -/
def jsonCodec : Codec Body :=
  { encode := jsonLine, read := readJsonLine, rotated := fun _ => .logRotated,
    recovered := fun _ _ => .logRecovered }

/-- The text of a line is ASCII and holds no newline. -/
theorem ascii_line (seq : Nat) (body : Body) {ch : Char}
    (h : ch ∈ "\x7b\"seq\":".toList ++ (Nat.toDigits 10 seq ++ body.text)) :
    ch.toNat < 128 ∧ ch.toNat ≠ 10 := by
  have hopen : "\x7b\"seq\":".toList.all fun ch => ch.toNat < 128 ∧ ch.toNat ≠ 10 := by decide
  have htext : body.text.all fun ch => ch.toNat < 128 ∧ ch.toNat ≠ 10 := by
    cases body <;> decide +kernel
  rcases List.mem_append.1 h with h | h
  · exact of_decide_eq_true (List.all_eq_true.1 hopen ch h)
  rcases List.mem_append.1 h with h | h
  · have hdigit := Char.isDigit_iff_toNat.1
      (Nat.isDigit_of_mem_toDigits (by decide) (by decide) h)
    have hlow : '0'.toNat = 48 := rfl
    have hhigh : '9'.toNat = 57 := rfl
    omega
  · exact of_decide_eq_true (List.all_eq_true.1 htext ch h)

theorem chars_asciiBytes {cs : List Char} (h : ∀ ch ∈ cs, ch.toNat < 128) :
    (asciiBytes cs).map (fun b => Char.ofNat b.toNat) = cs := by
  rw [asciiBytes, List.map_map]
  refine (List.map_congr_left fun ch hch => ?_).trans (List.map_id cs)
  have hbyte : ch.toNat.toUInt8.toNat = ch.toNat := by
    have := h ch hch
    simp only [Nat.toUInt8_eq, UInt8.toNat_ofNat']
    omega
  rw [Function.comp_apply, hbyte, Char.ofNat_toNat, id]

theorem jsonCodec_lawful : jsonCodec.Lawful where
  oneLine seq body h := by
    obtain ⟨ch, hch, hnl⟩ := List.mem_map.1 h
    have hascii := ascii_line seq body hch
    have hbyte := congrArg UInt8.toNat hnl
    simp only [Nat.toUInt8_eq, UInt8.toNat_ofNat', newline] at hbyte
    have : (10 : UInt8).toNat = 10 := rfl
    omega
  read_encode seq body := by
    have hchars : (jsonLine seq body).map (fun b => Char.ofNat b.toNat) =
        "\x7b\"seq\":".toList ++ (Nat.toDigits 10 seq ++ body.text) :=
      chars_asciiBytes fun ch hch => (ascii_line seq body hch).1
    have hdrop : ("\x7b\"seq\":".toList ++ (Nat.toDigits 10 seq ++ body.text)).drop 7 =
        Nat.toDigits 10 seq ++ body.text := rfl
    have htext : body.text.takeWhile Char.isDigit = [] := by cases body <;> rfl
    have hdigits : (Nat.toDigits 10 seq ++ body.text).takeWhile Char.isDigit =
        Nat.toDigits 10 seq := by
      rw [List.takeWhile_append_of_pos, htext, List.append_nil]
      exact fun ch hch => Nat.isDigit_of_mem_toDigits (by decide) (by decide) hch
    have hne : jsonLine seq body ≠ [] := by
      intro hnil
      rw [hnil] at hchars
      cases hchars
    have hknown : ([Body.event, .logRotated, .logRecovered].any fun b =>
        jsonLine seq body == jsonLine seq b) = true := by
      cases body <;> simp
    change readJsonLine (jsonLine seq body) = .record seq
    simp only [readJsonLine]
    rw [hchars, hdrop, hdigits, Nat.ofDigitChars_toDigits (by decide) (by decide), if_neg hne,
      if_pos hknown]

/-- A process is cut off in its second record. The next one writes a record of its
    own into the torn line and then another before it is closed. -/
def tornThenTwo : List (LogInput Body) :=
  [.run (.open 0 0 false), .run (.append 0 .event false), .crash (.append 0 .event false) 5,
    .run (.open 0 0 false), .run (.append 0 .event false), .run .close]

theorem tornThenTwo_inSequence :
    Run.Throughout (LogRun.step jsonCodec) (LogRun.InSequence jsonCodec) LogRun.start
      tornThenTwo :=
  LogRun.seqs_increase jsonCodec_lawful tornThenTwo (by decide +kernel)

/-- A process syncs its first record and is cut off in its second. The next one
    hands out the second number, into the torn line, and is closed. -/
def tornThenOne : List (LogInput Body) :=
  [.run (.open 0 0 false), .run (.append 0 .event true), .crash (.append 0 .event false) 5,
    .run (.open 0 0 false), .run (.append 0 .event false), .run .close,
    .run (.open 0 0 false), .run (.append 0 .event false)]

/-- The third process hands the second number out again. -/
theorem torn_line_reuses :
    ¬ Run.Throughout (LogRun.step jsonCodec) (LogRun.InSequence jsonCodec) LogRun.start
      tornThenOne := by
  intro h
  have hlast := (Run.throughout_last _ _ h).increasing
  have hhanded : (Run.run (LogRun.step jsonCodec) LogRun.start tornThenOne).handed = [1, 2, 2] := by
    decide +kernel
  rw [hhanded] at hlast
  revert hlast
  decide

end Sample

end PocketSkynet
