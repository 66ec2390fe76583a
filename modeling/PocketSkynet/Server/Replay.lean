import PocketSkynet.Server.EventLog

/-!
# Replaying the Event Log

What the log hands to a client that asks for everything after a cursor. The
segments are read in the order of their names and every line that parses is a
record; a line that does not is passed over. The scan stops as soon as it has
collected more than was asked for. A gap can only be noticed at the front: the
first record that is read has to be no later than the one after the cursor.

The cursor is an unsigned 64-bit number and the successor of the last one is not.
In a build that checks arithmetic this is a panic, otherwise it is zero.

## Main definitions

* `Reader`, `Reader.Lawful`: A codec that reads whole records back.
* `Scan`, `Scan.line`: The scan over the lines.
* `successor`: The next cursor.
* `replaySince`: The records after a cursor.

## Theorems

* `replaySince_cases`: What a replay can answer.
* `replaySince_records`: What a replay that succeeds returns.
* `replaySince_refused`, `replaySince_failed`: Why a replay returns nothing.
* `replaySince_panics`: A replay panics at the last cursor only.
-/

namespace PocketSkynet

open Lines

/-- A codec that also gives back what a record holds besides its number. -/
structure Reader (β : Type) extends Codec β where
  contents : List UInt8 → β

/-- Records are read back as they were written, an empty line is blank, and the
    beginning of a record is none. -/
structure Reader.Lawful {β : Type} (c : Reader β) : Prop where
  codec : c.toCodec.Lawful
  read_nil : c.read [] = .blank
  contents_encode : ∀ seq body, c.contents (c.encode seq body) = body
  read_torn : ∀ seq body l, l <+: c.encode seq body → l ≠ c.encode seq body →
    ∀ n, c.read l ≠ .record n

/-- How a replay ends. `failed` is an error of the log and `refused` the answer
    that the cursor is too old. -/
inductive Replay (β : Type) where
  | records (rs : List (Nat × β))
  | refused
  | failed
  | panicked
deriving DecidableEq, Repr

/-- The scan so far: the records after the cursor, and the first number read. -/
structure Scan (β : Type) where
  out : List (Nat × β)
  oldestSeen : Option Nat

section

variable {β : Type} (c : Reader β)

/-- One line of the scan. An early return is an error. -/
def Scan.line (after max : Nat) (s : Scan β) (line : List UInt8) : Except (Replay β) (Scan β) :=
  match c.read line with
  | .notText => .error .failed
  | .record seq =>
      let oldestSeen := some (s.oldestSeen.getD seq)
      if after < seq then
        let out := s.out ++ [(seq, c.contents line)]
        if max < out.length then .error .refused else .ok ⟨out, oldestSeen⟩
      else .ok { s with oldestSeen }
  | _ => .ok s

/-- The segments in the order of their names. -/
def Disk.sorted (d : Disk) : List (Day × List UInt8) :=
  d.segments.mergeSort fun s t => decide (s.1 ≤ t.1)

/-- The lines of all segments. -/
def Disk.lines (d : Disk) : List (List UInt8) := d.sorted.flatMap fun s => Lines.lines newline s.2

/-- `after + 1`, where arithmetic may be checked. -/
def successor (checked : Bool) (after : UInt64) : Option UInt64 :=
  if checked && after == -1 then none else some (after + 1)

/-- Replay retained records with a number after the cursor, oldest first. -/
def replaySince (d : Disk) (checked : Bool) (after : UInt64) (max : Nat) : Replay β :=
  match d.lines.foldlM (Scan.line c after.toNat max) ⟨[], none⟩ with
  | .error e => e
  | .ok s =>
      match s.oldestSeen with
      | none => .records s.out
      | some oldest =>
          match successor checked after with
          | none => .panicked
          | some next => if next.toNat < oldest then .refused else .records s.out

/-- The record on a line, if there is one. -/
def Reader.decode (line : List UInt8) : Option (Nat × β) :=
  match c.read line with
  | .record seq => some (seq, c.contents line)
  | _ => none

/-- The records that can be read on some lines. -/
def Reader.records (ls : List (List UInt8)) : List (Nat × β) := ls.filterMap c.decode

variable {c}

/-- What the scan does with a line: it fails on bytes that are no text, passes over
    what is no record, and goes on after a record. -/
theorem line_cases (l : List UInt8) :
    (c.read l = .notText ∧ ∀ after max (s : Scan β), Scan.line c after max s l = .error .failed) ∨
      (c.decode l = none ∧ c.read l ≠ .notText ∧
        ∀ after max (s : Scan β), Scan.line c after max s l = .ok s) ∨
      ∃ seq, c.read l = .record seq ∧ c.decode l = some (seq, c.contents l) := by
  cases hl : c.read l with
  | notText => exact Or.inl ⟨rfl, fun _ _ _ => by simp only [Scan.line, hl]⟩
  | blank =>
      refine Or.inr (Or.inl ⟨by simp only [Reader.decode, hl], nofun, fun _ _ _ => ?_⟩)
      simp only [Scan.line, hl]
  | junk =>
      refine Or.inr (Or.inl ⟨by simp only [Reader.decode, hl], nofun, fun _ _ _ => ?_⟩)
      simp only [Scan.line, hl]
  | record seq => exact Or.inr (Or.inr ⟨seq, rfl, by simp only [Reader.decode, hl]⟩)

theorem records_cons_none {l : List UInt8} (h : c.decode l = none) (ls : List (List UInt8)) :
    c.records (l :: ls) = c.records ls := List.filterMap_cons_none h

theorem records_cons_some {l : List UInt8} {r : Nat × β} (h : c.decode l = some r)
    (ls : List (List UInt8)) : c.records (l :: ls) = r :: c.records ls :=
  List.filterMap_cons_some h

/-- The scan goes through with the records after the cursor and the first record
    of all. -/
theorem scan_ok {after max : Nat} {ls : List (List UInt8)} {s s' : Scan β}
    (h : ls.foldlM (Scan.line c after max) s = .ok s') :
    s' = ⟨s.out ++ (c.records ls).filter (after < ·.1),
      s.oldestSeen.or ((c.records ls).head?.map Prod.fst)⟩ := by
  induction ls generalizing s with
  | nil =>
      cases h
      simp [Reader.records]
  | cons l ls ih =>
      rw [List.foldlM_cons] at h
      rcases line_cases (c := c) l with ⟨-, hline⟩ | ⟨hl, -, hline⟩ | ⟨seq, hl, hdecode⟩
      · rw [hline] at h
        cases h
      · rw [hline] at h
        rw [ih h, records_cons_none hl]
      · -- The first record that is read stays the oldest one seen.
        have hfirst : s.oldestSeen.or (some seq) = some (s.oldestSeen.getD seq) := by
          cases s.oldestSeen <;> rfl
        simp only [Scan.line, hl] at h
        rw [records_cons_some hdecode]
        by_cases hafter : after < seq
        · rw [if_pos hafter] at h
          by_cases hmax : max < (s.out ++ [(seq, c.contents l)]).length
          · rw [if_pos hmax] at h
            cases h
          · rw [if_neg hmax] at h
            rw [ih h]
            simp [hafter, hfirst]
        · rw [if_neg hafter] at h
          rw [ih h]
          simp [hafter, hfirst]

/-- The scan stops early on a line that is no text or on too many records. -/
theorem scan_error {after max : Nat} {ls : List (List UInt8)} {s : Scan β} {e : Replay β}
    (h : ls.foldlM (Scan.line c after max) s = .error e) :
    (e = .failed ∧ ∃ l ∈ ls, c.read l = .notText) ∨
      (e = .refused ∧ max < s.out.length + ((c.records ls).filter (after < ·.1)).length) := by
  induction ls generalizing s with
  | nil => cases h
  | cons l ls ih =>
      have hlater : ∀ {s : Scan β}, ls.foldlM (Scan.line c after max) s = .error e →
          (e = .failed ∧ ∃ x ∈ l :: ls, c.read x = .notText) ∨
            (e = .refused ∧
              max < s.out.length + ((c.records ls).filter (after < ·.1)).length) := by
        intro s hs
        rcases ih hs with ⟨he, x, hx, hread⟩ | hmany
        · exact Or.inl ⟨he, x, List.mem_cons_of_mem l hx, hread⟩
        · exact Or.inr hmany
      rw [List.foldlM_cons] at h
      rcases line_cases (c := c) l with ⟨hl, hline⟩ | ⟨hl, -, hline⟩ | ⟨seq, hl, hdecode⟩
      · rw [hline] at h
        cases h
        exact Or.inl ⟨rfl, l, List.mem_cons_self, hl⟩
      · rw [hline] at h
        rw [records_cons_none hl]
        exact hlater h
      · simp only [Scan.line, hl] at h
        rw [records_cons_some hdecode]
        by_cases hafter : after < seq
        · rw [if_pos hafter] at h
          rw [List.filter_cons_of_pos (by simpa using hafter), List.length_cons]
          by_cases hmax : max < (s.out ++ [(seq, c.contents l)]).length
          · rw [if_pos hmax] at h
            cases h
            rw [List.length_append, List.length_singleton] at hmax
            exact Or.inr ⟨rfl, by omega⟩
          · rw [if_neg hmax] at h
            rcases hlater h with hfailed | ⟨he, hmany⟩
            · exact Or.inl hfailed
            · rw [List.length_append, List.length_singleton] at hmany
              exact Or.inr ⟨he, by omega⟩
        · rw [if_neg hafter] at h
          rw [List.filter_cons_of_neg (by simpa using hafter)]
          have hrest := hlater (s := ⟨s.out, some (s.oldestSeen.getD seq)⟩) h
          exact hrest

/-- The next cursor is one more, or zero after the last one. -/
theorem successor_cases {checked : Bool} {after next : UInt64}
    (h : successor checked after = some next) :
    next.toNat = after.toNat + 1 ∨ (after = -1 ∧ next.toNat = 0) := by
  unfold successor at h
  by_cases hpanic : (checked && after == -1) = true
  · rw [if_pos hpanic] at h
    cases h
  · rw [if_neg hpanic] at h
    cases h
    by_cases hlast : after = -1
    · right
      subst hlast
      exact ⟨rfl, rfl⟩
    · left
      have hle := after.toNat_lt
      have hne : after.toNat ≠ (-1 : UInt64).toNat := fun he => hlast (UInt64.toNat_inj.1 he)
      have hmax : (-1 : UInt64).toNat = 2 ^ 64 - 1 := by decide
      have hone : (1 : UInt64).toNat = 1 := rfl
      rw [UInt64.toNat_add]
      omega

/-- What a replay can answer: it fails on bytes that are no text, is refused for too many records
    or for a gap at the front, panics where the cursor has no successor, or returns the records
    after the cursor. -/
theorem replaySince_cases (d : Disk) (checked : Bool) (after : UInt64) (max : Nat) :
    (replaySince c d checked after max = .failed ∧ ∃ l ∈ d.lines, c.read l = .notText) ∨
      (replaySince c d checked after max = .refused ∧
        (max < ((c.records d.lines).filter (after.toNat < ·.1)).length ∨
          ∃ first ∈ (c.records d.lines).head?, ∃ next, successor checked after = some next ∧
            next.toNat < first.1)) ∨
      (replaySince c d checked after max = .panicked ∧ successor checked after = none) ∨
      (replaySince c d checked after max =
          .records ((c.records d.lines).filter (after.toNat < ·.1)) ∧
        ∀ first ∈ (c.records d.lines).head?, ∃ next, successor checked after = some next ∧
          first.1 ≤ next.toNat) := by
  unfold replaySince
  cases hscan : d.lines.foldlM (Scan.line c after.toNat max) ⟨[], none⟩ with
  | error e =>
      dsimp only
      rcases scan_error hscan with ⟨rfl, hl⟩ | ⟨rfl, hmany⟩
      · exact Or.inl ⟨rfl, hl⟩
      · rw [List.length_nil, Nat.zero_add] at hmany
        exact Or.inr (Or.inl ⟨rfl, Or.inl hmany⟩)
  | ok s =>
      have hs := scan_ok hscan
      rw [Option.none_or, List.nil_append] at hs
      subst hs
      cases hfirst : (c.records d.lines).head? with
      | none => exact Or.inr (Or.inr (Or.inr ⟨rfl, nofun⟩))
      | some first =>
          simp only [Option.map_some]
          cases hnext : successor checked after with
          | none => exact Or.inr (Or.inr (Or.inl ⟨rfl, rfl⟩))
          | some next =>
              dsimp only
              by_cases hold : next.toNat < first.1
              · rw [if_pos hold]
                exact Or.inr (Or.inl ⟨rfl, Or.inr ⟨first, rfl, next, rfl, hold⟩⟩)
              · rw [if_neg hold]
                refine Or.inr (Or.inr (Or.inr ⟨rfl, fun x hx => ⟨next, rfl, ?_⟩⟩))
                cases hx
                omega

/-- A replay that succeeds returns the records after the cursor, and the first
    record that could be read is no later than the one after the cursor. -/
theorem replaySince_records {d : Disk} {checked : Bool} {after : UInt64} {max : Nat}
    {rs : List (Nat × β)} (h : replaySince c d checked after max = .records rs) :
    rs = (c.records d.lines).filter (after.toNat < ·.1) ∧
      ∀ first ∈ (c.records d.lines).head?, ∃ next, successor checked after = some next ∧
        first.1 ≤ next.toNat := by
  rcases replaySince_cases d checked after max with
    ⟨hr, -⟩ | ⟨hr, -⟩ | ⟨hr, -⟩ | ⟨hr, hfirst⟩ <;> rw [hr] at h <;> cases h
  exact ⟨rfl, hfirst⟩

/-- A replay is refused for too many records, or for a gap at the front. -/
theorem replaySince_refused {d : Disk} {checked : Bool} {after : UInt64} {max : Nat}
    (h : replaySince c d checked after max = .refused) :
    max < ((c.records d.lines).filter (after.toNat < ·.1)).length ∨
      ∃ first ∈ (c.records d.lines).head?, ∃ next, successor checked after = some next ∧
        next.toNat < first.1 := by
  rcases replaySince_cases d checked after max with
    ⟨hr, -⟩ | ⟨hr, hwhy⟩ | ⟨hr, -⟩ | ⟨hr, -⟩ <;> rw [hr] at h <;> cases h
  exact hwhy

/-- A replay fails on bytes that are no text. -/
theorem replaySince_failed {d : Disk} {checked : Bool} {after : UInt64} {max : Nat}
    (h : replaySince c d checked after max = .failed) : ∃ l ∈ d.lines, c.read l = .notText := by
  rcases replaySince_cases d checked after max with
    ⟨hr, hl⟩ | ⟨hr, -⟩ | ⟨hr, -⟩ | ⟨hr, -⟩ <;> rw [hr] at h <;> cases h
  exact hl

/-- A replay panics at the last cursor only, where arithmetic is checked. -/
theorem replaySince_panics {d : Disk} {checked : Bool} {after : UInt64} {max : Nat}
    (h : replaySince c d checked after max = .panicked) : checked = true ∧ after = -1 := by
  rcases replaySince_cases d checked after max with
    ⟨hr, -⟩ | ⟨hr, -⟩ | ⟨hr, hnext⟩ | ⟨hr, -⟩ <;> rw [hr] at h <;> cases h
  by_contra hne
  rw [successor, if_neg (by simpa using hne)] at hnext
  cases hnext

end

end PocketSkynet
