import Mathlib.Data.List.Nodup
import Mathlib.Tactic.Common

/-!
# Fixed Windows

Calls that come one after the other are counted in windows of a fixed width. A window opens with
a call, and takes the calls that follow until it has expired. Then the next call opens another
one. So a window begins where a call is, and not at the multiples of the width.

The calls of a window are numbered from one. A rule that lets a call pass by its number can be
judged for one window, and a span that is not longer than a window meets two of them at most.

## Main definitions

* `Windows.Call`: A call, with the start of its window and its number in that.
* `Windows.calls`: The calls at some times.
* `Windows.inWindow`: The calls of one window.
* `Windows.passed`: How many of the first numbers a rule lets pass.

## Theorems

* `Windows.indices_window`: The calls of a window are numbered from one.
* `Windows.index_of_expired`: A call is the first of its window when the others have expired.
* `Windows.span_two`: A span meets two windows at most.
* `Windows.passed_le_iff`: A counter that wraps lets too many pass when it has wrapped.
-/

namespace PocketSkynet

namespace Windows

/-- A call, with the start of its window and its number in that. -/
structure Call where
  time : Nat
  start : Nat
  index : Nat
deriving DecidableEq, Repr

variable (width : Nat)

/-- The window of a call, after the one that is open. -/
def next (open_ : Option (Nat × Nat)) (t : Nat) : Nat × Nat :=
  match open_ with
  | none => (t, 1)
  | some (s, k) => if width ≤ t - s then (t, 1) else (s, k + 1)

/-- The calls at some times, in their order. -/
def calls : Option (Nat × Nat) → List Nat → List Call
  | _, [] => []
  | open_, t :: ts =>
      ⟨t, (next width open_ t).1, (next width open_ t).2⟩ :: calls (some (next width open_ t)) ts

/-- The calls of a window. -/
def inWindow (w : Nat) (cs : List Call) : List Call := cs.filter fun c => c.start = w

/-- How many of the first numbers a rule lets pass. -/
def passed (rule : Nat → Bool) (n : Nat) : Nat := (List.range' 1 n).countP rule

variable {width}

theorem next_cases (width s k t : Nat) (hs : s ≤ t) :
    (next width (some (s, k)) t = (t, 1) ∧ s + width ≤ t) ∨
      (next width (some (s, k)) t = (s, k + 1) ∧ t < s + width) := by
  unfold next
  by_cases h : width ≤ t - s
  · exact .inl ⟨if_pos h, by omega⟩
  · exact .inr ⟨if_neg h, by omega⟩

-- A window that is not the open one opens when that has expired.
theorem start_calls {s k : Nat} {ts : List Nat} (hts : (s :: ts).Pairwise (· ≤ ·)) :
    ∀ c ∈ calls width (some (s, k)) ts,
      (c.start = s ∨ s + width ≤ c.start) ∧ c.start ≤ c.time ∧
        (0 < width → c.time < c.start + width) := by
  induction ts generalizing s k with
  | nil =>
      intro c hc
      cases hc
  | cons t ts ih =>
      rw [List.pairwise_cons] at hts
      have hst : s ≤ t := hts.1 t List.mem_cons_self
      intro c hc
      rw [calls, List.mem_cons] at hc
      rcases next_cases width s k t hst with ⟨hnext, hexp⟩ | ⟨hnext, hin⟩
      · rw [hnext] at hc
        rcases hc with rfl | hc
        · exact ⟨.inr hexp, Nat.le_refl t, fun h => by simpa using h⟩
        · rcases ih hts.2 c hc with ⟨hstart, hle, hlt⟩
          refine ⟨.inr ?_, hle, hlt⟩
          omega
      · rw [hnext] at hc
        rcases hc with rfl | hc
        · exact ⟨.inl rfl, hst, fun _ => hin⟩
        · refine ih ?_ c hc
          refine List.pairwise_cons.2 ⟨fun x hx => ?_, (List.pairwise_cons.1 hts.2).2⟩
          exact hts.1 x (List.mem_cons_of_mem _ hx)

-- The times behind one that is passed over come after it as well.
theorem pairwise_skip {s t : Nat} {ts : List Nat} (hts : (s :: t :: ts).Pairwise (· ≤ ·)) :
    (s :: ts).Pairwise (· ≤ ·) := by
  rw [List.pairwise_cons, List.pairwise_cons] at hts
  refine List.pairwise_cons.2 ⟨fun x hx => ?_, hts.2.2⟩
  exact hts.1 x (List.mem_cons_of_mem _ hx)

theorem inWindow_cons (w : Nat) (c : Call) (cs : List Call) : inWindow w (c :: cs) =
    if c.start = w then c :: inWindow w cs else inWindow w cs := by
  unfold inWindow
  by_cases h : c.start = w
  · rw [if_pos h]
    exact List.filter_cons_of_pos (decide_eq_true h)
  · rw [if_neg h]
    exact List.filter_cons_of_neg (by simpa using h)

-- No call comes back to a window that has expired.
theorem inWindow_old {s k w : Nat} {ts : List Nat} (hts : (s :: ts).Pairwise (· ≤ ·))
    (hw : w < s) : inWindow w (calls width (some (s, k)) ts) = [] := by
  refine List.filter_eq_nil_iff.2 fun c hc => ?_
  rw [decide_eq_true_eq]
  have hstart := (start_calls hts c hc).1
  omega

theorem indices_open (hwidth : 0 < width) {s k : Nat} {ts : List Nat}
    (hts : (s :: ts).Pairwise (· ≤ ·)) (w : Nat) :
    (inWindow w (calls width (some (s, k)) ts)).map Call.index =
      List.range' (if w = s then k + 1 else 1)
        (inWindow w (calls width (some (s, k)) ts)).length := by
  induction ts generalizing s k with
  | nil => rfl
  | cons t ts ih =>
      have hst : s ≤ t := (List.pairwise_cons.1 hts).1 t List.mem_cons_self
      have hrest : (t :: ts).Pairwise (· ≤ ·) := (List.pairwise_cons.1 hts).2
      rw [calls, inWindow_cons]
      rcases next_cases width s k t hst with ⟨hnext, hexp⟩ | ⟨hnext, hin⟩
      · rw [hnext]
        have hlater := ih (k := 1) hrest
        by_cases hw : w = t
        · have hne : w ≠ s := by omega
          rw [if_pos hw] at hlater
          rw [if_pos hw.symm, List.map_cons, hlater, if_neg hne, List.length_cons,
            List.range'_succ]
        · rw [if_neg hw] at hlater
          rw [if_neg (Ne.symm hw), hlater]
          by_cases hws : w = s
          · rw [inWindow_old hrest (by omega)]
            rfl
          · rw [if_neg hws]
      · rw [hnext]
        have hlater := ih (k := k + 1) (pairwise_skip hts)
        by_cases hw : w = s
        · rw [if_pos hw] at hlater
          rw [if_pos hw.symm, List.map_cons, hlater, if_pos hw, List.length_cons,
            List.range'_succ]
        · rw [if_neg hw] at hlater
          rw [if_neg (Ne.symm hw), hlater, if_neg hw]

/-- The calls of a window are numbered from one. -/
theorem indices_window (hwidth : 0 < width) {ts : List Nat} (hts : ts.Pairwise (· ≤ ·))
    (w : Nat) : (inWindow w (calls width none ts)).map Call.index =
      List.range' 1 (inWindow w (calls width none ts)).length := by
  cases ts with
  | nil => rfl
  | cons t ts =>
      have hlater := indices_open hwidth (k := 1) hts w
      rw [calls, inWindow_cons, next]
      by_cases hw : w = t
      · rw [if_pos hw] at hlater
        rw [if_pos hw.symm, List.map_cons, hlater, List.length_cons, List.range'_succ]
      · rw [if_neg hw] at hlater
        rw [if_neg (Ne.symm hw), hlater]

/-- A call is the first of its window when all windows before it have expired. -/
theorem index_of_expired {open_ : Option (Nat × Nat)} {ts : List Nat} {front back : List Call}
    {c : Call} (h : calls width open_ ts = front ++ c :: back)
    (hopen : ∀ p, open_ = some p → width ≤ c.time - p.1)
    (hfront : ∀ d ∈ front, width ≤ c.time - d.start) : c.index = 1 := by
  induction front generalizing open_ ts with
  | nil =>
      cases ts with
      | nil => cases h
      | cons t ts =>
          rcases List.cons.inj h with ⟨rfl, -⟩
          cases open_ with
          | none => rfl
          | some p =>
              have hexp := hopen p rfl
              simp only [next, if_pos hexp]
  | cons d front ih =>
      cases ts with
      | nil => cases h
      | cons t ts =>
          rcases List.cons.inj h with ⟨hd, hrest⟩
          refine ih hrest (fun p hp => ?_) fun e he => hfront e (List.mem_cons_of_mem _ he)
          have hexp := hfront d List.mem_cons_self
          rw [← hd] at hexp
          rw [← Option.some.inj hp]
          exact hexp

-- Calls at one instant are in one window.
theorem length_inWindow_replicate (hwidth : 0 < width) (t n k : Nat) :
    (inWindow t (calls width (some (t, k)) (List.replicate n t))).length = n := by
  induction n generalizing k with
  | zero => rfl
  | succ n ih =>
      have hnext : next width (some (t, k)) t = (t, k + 1) := if_neg (by omega)
      rw [List.replicate_succ, calls, inWindow_cons, hnext, if_pos rfl, List.length_cons, ih]

/-! ### Spans -/

-- When a window opens, the one before it has expired.
theorem pairwise_open {s k : Nat} {ts : List Nat}
    (hts : (s :: ts).Pairwise (· ≤ ·)) : (calls width (some (s, k)) ts).Pairwise fun c d =>
      c.start = d.start ∨ c.start + width ≤ d.start := by
  induction ts generalizing s k with
  | nil => exact List.Pairwise.nil
  | cons t ts ih =>
      have hst : s ≤ t := (List.pairwise_cons.1 hts).1 t List.mem_cons_self
      have hrest : (t :: ts).Pairwise (· ≤ ·) := (List.pairwise_cons.1 hts).2
      have hhead : ((next width (some (s, k)) t).1 :: ts).Pairwise (· ≤ ·) := by
        rcases next_cases width s k t hst with ⟨hnext, -⟩ | ⟨hnext, -⟩
        · rw [hnext]
          exact hrest
        · rw [hnext]
          exact pairwise_skip hts
      rw [calls, List.pairwise_cons]
      refine ⟨fun d hd => ?_, ih hhead⟩
      exact (start_calls hhead d hd).1.imp Eq.symm id

/-- The windows at some times: each call is in its window, and of two windows one has expired when
    the other opens. -/
theorem apart_calls (hwidth : 0 < width) {ts : List Nat} (hts : ts.Pairwise (· ≤ ·)) :
    (∀ c ∈ calls width none ts, c.start ≤ c.time ∧ c.time < c.start + width) ∧
    ∀ c ∈ calls width none ts, ∀ d ∈ calls width none ts,
      c.start = d.start ∨ c.start + width ≤ d.start ∨ d.start + width ≤ c.start := by
  cases ts with
  | nil => exact ⟨fun c hc => absurd hc List.not_mem_nil, fun c hc => absurd hc List.not_mem_nil⟩
  | cons t ts =>
      have hpair : (calls width none (t :: ts)).Pairwise fun c d =>
          c.start = d.start ∨ c.start + width ≤ d.start := by
        rw [calls, next, List.pairwise_cons]
        exact ⟨fun d hd => (start_calls hts d hd).1.imp Eq.symm id, pairwise_open hts⟩
      constructor
      · intro c hc
        rw [calls, next, List.mem_cons] at hc
        rcases hc with rfl | hc
        · exact ⟨Nat.le_refl t, Nat.lt_add_of_pos_right hwidth⟩
        · have hstart := start_calls hts c hc
          exact ⟨hstart.2.1, hstart.2.2 hwidth⟩
      · refine List.Pairwise.forall_of_forall_of_flip (fun c _ => .inl rfl) (hpair.imp ?_)
          (hpair.imp ?_)
        · exact fun h => h.imp id Or.inl
        · exact fun h => h.imp Eq.symm Or.inr

/-- A span that is not longer than a window meets two of them at most. -/
theorem span_two (hwidth : 0 < width) {ts : List Nat} (hts : ts.Pairwise (· ≤ ·)) (t : Nat) :
    ∃ v w, ∀ c ∈ calls width none ts, t ≤ c.time → c.time ≤ t + width →
      c.start = v ∨ c.start = w := by
  rcases apart_calls hwidth hts with ⟨hin, hapart⟩
  by_cases hsome : ∃ c ∈ calls width none ts, t ≤ c.time ∧ c.time ≤ t + width
  · rcases hsome with ⟨c, hc, hct⟩
    by_cases hmore : ∃ d ∈ calls width none ts, (t ≤ d.time ∧ d.time ≤ t + width) ∧
        d.start ≠ c.start
    · -- With a third window the span would be longer.
      rcases hmore with ⟨d, hd, hdt, hne⟩
      refine ⟨c.start, d.start, fun e he hle hge => ?_⟩
      have hcin := hin c hc
      have hdin := hin d hd
      have hein := hin e he
      have hcd := hapart c hc d hd
      have hce := hapart c hc e he
      have hde := hapart d hd e he
      omega
    · refine ⟨c.start, c.start, fun e he hle hge => .inl ?_⟩
      by_contra hne
      exact hmore ⟨e, he, ⟨hle, hge⟩, hne⟩
  · exact ⟨0, 0, fun e he hle hge => absurd ⟨e, he, hle, hge⟩ hsome⟩

/-! ### Rules -/

-- What is of one of two kinds is counted with one of them.
theorem countP_le_add {α : Type*} {p q r : α → Bool} {l : List α}
    (h : ∀ x ∈ l, p x = true → q x = true ∨ r x = true) :
    l.countP p ≤ l.countP q + l.countP r := by
  induction l with
  | nil => exact Nat.le_refl 0
  | cons x l ih =>
      have hrest := ih fun y hy => h y (List.mem_cons_of_mem _ hy)
      have hhead := h x List.mem_cons_self
      rw [List.countP_cons, List.countP_cons, List.countP_cons]
      by_cases hp : p x = true
      · rcases hhead hp with hq | hr
        · rw [if_pos hp, if_pos hq]
          omega
        · rw [if_pos hp, if_pos hr]
          omega
      · rw [if_neg hp]
        omega

theorem passed_succ (rule : Nat → Bool) (n : Nat) :
    passed rule (n + 1) = passed rule n + if rule (n + 1) then 1 else 0 := by
  rw [passed, List.range'_concat, List.countP_append, passed, List.countP_singleton,
    Nat.one_mul, Nat.add_comm 1 n]

theorem passed_mono (rule : Nat → Bool) {m n : Nat} (h : m ≤ n) :
    passed rule m ≤ passed rule n := by
  induction h with
  | refl => exact Nat.le_refl _
  | step _ ih =>
      rw [passed_succ]
      omega

-- A rule that lets everything pass counts all of it.
theorem passed_all {rule : Nat → Bool} (h : ∀ j, rule j = true) (n : Nat) : passed rule n = n := by
  induction n with
  | zero => rfl
  | succ n ih => rw [passed_succ, ih, if_pos (h _)]

theorem passed_of_lt {limit m n : Nat} (h : n < m) :
    passed (fun j => decide (j % m ≤ limit)) n = min n limit := by
  induction n with
  | zero => rw [passed, Nat.zero_min]; rfl
  | succ n ih =>
      rw [passed_succ, ih (by omega), Nat.mod_eq_of_lt h]
      by_cases hle : n + 1 ≤ limit
      · rw [if_pos (decide_eq_true hle)]
        omega
      · rw [if_neg (by simpa using hle)]
        omega

/-- A counter that wraps lets too many pass if it has wrapped, and only then. -/
theorem passed_le_iff {limit m n : Nat} (h : limit < m) :
    passed (fun j => decide (j % m ≤ limit)) n ≤ limit ↔ n < m := by
  constructor
  · intro hle
    by_contra hge
    have hwrapped : passed (fun j => decide (j % m ≤ limit)) m = limit + 1 := by
      have hm : m = m - 1 + 1 := by omega
      rw [hm, passed_succ, ← hm, Nat.mod_self, passed_of_lt (by omega)]
      simp only [Nat.zero_le, decide_true, if_true]
      omega
    have hmono := passed_mono (fun j => decide (j % m ≤ limit)) (Nat.le_of_not_lt hge)
    omega
  · intro hlt
    rw [passed_of_lt hlt]
    exact Nat.min_le_right n limit

end Windows

end PocketSkynet
