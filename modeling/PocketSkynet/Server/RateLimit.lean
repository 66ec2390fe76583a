import Mathlib.Algebra.Order.Ring.Nat
import PocketSkynet.Lib.IpAddr
import PocketSkynet.Lib.Table
import PocketSkynet.Lib.Windows

/-!
# Rate Limits

Every request draws from the budget of its scope and its address. The limiter counts the requests
of each pair in windows of a minute, and a request beyond the limit is refused but counted all
the same. A window is reset when the next request of its pair finds it expired. When there are
many pairs, the expired windows are swept.

Sweeps and other pairs make no difference to a pair: it is judged by its own requests alone. The
count has 32 bits and wraps, so a window with 2^32 requests gives the budget away a second time.

## Main definitions

* `RateLimiter`: The windows of all pairs.
* `RateLimiter.checkAt`: Consume one slot.
* `Limits.verdictsOf`: The verdicts that a run gives one pair.
* `Limits.Fair`: What is asked of these.

## Theorems

* `Limits.verdictsOf_eq`: A pair is judged by the windows and numbers of its own requests.
* `Limits.fair_iff`: The limits hold when no window has too many requests.
-/

namespace PocketSkynet

/-- Which budget a request draws from. -/
inductive Scope where
  | general
  | media
  | upload
  | challenge
  | login
  | webhook
deriving DecidableEq, Repr

def Scope.maxPerMinute : Scope → Nat
  | .general => 100
  | .media => 3000
  | .upload => 1200
  | .challenge => 10
  | .login => 5
  | .webhook => 60

/-- A count of requests, from the instant of the first one on. -/
structure Window where
  start : Nat
  count : Nat
deriving DecidableEq, Repr

/-- The outcome of a check. -/
structure Verdict where
  limit : Nat
  remaining : Nat
  reset : Nat
  allowed : Bool
deriving DecidableEq, Repr

/-- The windows of all pairs. -/
structure RateLimiter where
  enabled : Bool
  windows : List ((Scope × IpAddr) × Window)
  checks : Nat
  keyed : Table.Keyed Prod.fst windows

namespace RateLimiter

def nanos : Nat := 1000000000

/-- The width of a window, in nanoseconds. -/
def windowWidth : Nat := 60 * nanos

def sweepThreshold : Nat := 10000

def new (enabled : Bool) : RateLimiter where
  enabled := enabled
  windows := []
  checks := 0
  keyed := Table.keyed_nil

/-- Drop the windows that have expired. -/
def sweep (l : RateLimiter) (now : Nat) : RateLimiter where
  enabled := l.enabled
  windows := l.windows.filter fun w => now - w.2.start < windowWidth
  checks := l.checks
  keyed := Table.keyed_filter _ l.keyed

def put (l : RateLimiter) (pair : Scope × IpAddr) (w : Window) : RateLimiter where
  enabled := l.enabled
  windows := Table.upsert Prod.fst (pair, w) l.windows
  checks := l.checks
  keyed := Table.keyed_upsert (pair, w) l.keyed

def find (l : RateLimiter) (pair : Scope × IpAddr) : Option Window :=
  (Table.lookup Prod.fst pair l.windows).map Prod.snd

/-- Consume one slot, at the instant `now`. -/
def checkAt (l : RateLimiter) (scope : Scope) (ip : IpAddr) (now : Nat) : Verdict × RateLimiter :=
  let limit := scope.maxPerMinute
  if !l.enabled then (⟨limit, limit, windowWidth / nanos, true⟩, l)
  else
    let counted := { l with checks := (l.checks + 1) % 2 ^ 64 }
    let l := if l.checks % 1024 = 0 ∧ sweepThreshold < l.windows.length then counted.sweep now
      else counted
    let entry := (l.find (scope, ip)).getD ⟨now, 0⟩
    let entry := if windowWidth ≤ now - entry.start then ⟨now, 0⟩ else entry
    -- also when the request is refused
    let entry := { entry with count := (entry.count + 1) % 2 ^ 32 }
    (⟨limit, limit - entry.count, (windowWidth - (now - entry.start)) / nanos,
      entry.count ≤ limit⟩, l.put (scope, ip) entry)

end RateLimiter

namespace Limits

open Windows RateLimiter

/-! ### Runs -/

/-- A request, or a sweep by itself. -/
inductive Event where
  | check (scope : Scope) (ip : IpAddr) (now : Nat)
  | sweep (now : Nat)
deriving DecidableEq, Repr

def Event.now : Event → Nat
  | .check _ _ now => now
  | .sweep now => now

/-- The request is one of the pair. -/
def Event.isOf (pair : Scope × IpAddr) : Event → Bool
  | .check scope ip _ => (scope, ip) == pair
  | .sweep _ => false

def step (l : RateLimiter) : Event → RateLimiter
  | .check scope ip now => (l.checkAt scope ip now).2
  | .sweep now => l.sweep now

/-- The verdict on a request, if it is one of the pair. -/
def verdictOf (pair : Scope × IpAddr) (l : RateLimiter) : Event → List Verdict
  | .check scope ip now => if (scope, ip) = pair then [(l.checkAt scope ip now).1] else []
  | .sweep _ => []

/-- The verdicts on the requests of a pair. -/
def verdictsOf (pair : Scope × IpAddr) : RateLimiter → List Event → List Verdict
  | _, [] => []
  | l, e :: es => verdictOf pair l e ++ verdictsOf pair (step l e) es

/-- The instants of the requests of a pair. -/
def timesOf (pair : Scope × IpAddr) (events : List Event) : List Nat :=
  (events.filter (Event.isOf pair)).map Event.now

/-- The requests of a pair, with the windows they fall into, and the verdicts on them. -/
def judged (enabled : Bool) (events : List Event) (pair : Scope × IpAddr) :
    List (Call × Verdict) :=
  (calls windowWidth none (timesOf pair events)).zip (verdictsOf pair (new enabled) events)

/-- What is asked of a limiter for one pair, in a run that begins with it. -/
structure Fair (enabled : Bool) (events : List Event) (pair : Scope × IpAddr) : Prop where
  perWindow : ∀ w, ((judged enabled events pair).countP fun j =>
    decide (j.1.start = w) && j.2.allowed) ≤ pair.1.maxPerMinute
  perSpan : ∀ t, ((judged enabled events pair).countP fun j =>
    decide (t ≤ j.1.time ∧ j.1.time ≤ t + windowWidth) && j.2.allowed) ≤
      2 * pair.1.maxPerMinute
  reopens : ∀ front j back, judged enabled events pair = front ++ j :: back →
    (∀ i ∈ front, windowWidth ≤ j.1.time - i.1.start) → j.2.allowed = true
  apart : verdictsOf pair (new enabled) events =
    verdictsOf pair (new enabled) (events.filter (Event.isOf pair))

/-- How many requests a window may have before the budget is given away. -/
def capacity (enabled : Bool) (scope : Scope) : Nat :=
  if enabled then 2 ^ 32 else scope.maxPerMinute + 1

/-! ### One pair -/

/-- The verdict on a request, by its window and its number in that. -/
def verdictOn (enabled : Bool) (limit : Nat) (c : Call) : Verdict :=
  if enabled then ⟨limit, limit - c.index % 2 ^ 32,
    (windowWidth - (c.time - c.start)) / nanos, decide (c.index % 2 ^ 32 ≤ limit)⟩
  else ⟨limit, limit, windowWidth / nanos, true⟩

/-- The limiter has the window of the pair, or has lost it when it had expired. -/
def Tracks (l : RateLimiter) (pair : Scope × IpAddr) (now : Nat) (open_ : Option (Nat × Nat)) :
    Prop :=
  l.find pair = open_.map (fun p => ⟨p.1, p.2 % 2 ^ 32⟩) ∨
    (l.find pair = none ∧ ∃ p, open_ = some p ∧ windowWidth ≤ now - p.1)

theorem find_sweep (l : RateLimiter) (pair : Scope × IpAddr) (now : Nat) :
    (l.sweep now).find pair = (l.find pair).filter fun w => now - w.start < windowWidth := by
  unfold find sweep
  rw [Table.lookup_filter_of_keyed l.keyed]
  cases Table.lookup Prod.fst pair l.windows with
  | none => rfl
  | some row => simp only [Option.map_some, Option.filter_some, apply_ite (Option.map Prod.snd),
      Option.map_none]

theorem find_put (l : RateLimiter) (pair pair' : Scope × IpAddr) (w : Window) :
    (l.put pair w).find pair' = if pair' = pair then some w else l.find pair' := by
  unfold find put
  rw [Table.lookup_upsert]
  split
  · rfl
  · rfl

variable {l : RateLimiter} {pair : Scope × IpAddr} {now later : Nat} {open_ : Option (Nat × Nat)}

theorem tracks_later (h : Tracks l pair now open_) (hle : now ≤ later) :
    Tracks l pair later open_ := by
  rcases h with h | ⟨hnone, p, hp, hexp⟩
  · exact .inl h
  · exact .inr ⟨hnone, p, hp, by omega⟩

/-- A sweep takes expired windows only. -/
theorem tracks_sweep (h : Tracks l pair now open_) : Tracks (l.sweep now) pair now open_ := by
  rcases h with h | ⟨hnone, hlost⟩
  · rw [Tracks, find_sweep, h]
    cases open_ with
    | none => exact .inl rfl
    | some p =>
        rw [Option.map_some, Option.filter_some]
        by_cases hin : now - p.1 < windowWidth
        · exact .inl (if_pos (decide_eq_true hin))
        · refine .inr ⟨if_neg (by simpa using hin), p, rfl, by omega⟩
  · refine .inr ⟨?_, hlost⟩
    rw [find_sweep, hnone]
    rfl

/-- What is left when a check has swept, if it does. -/
def swept (l : RateLimiter) (now : Nat) : RateLimiter :=
  let counted := { l with checks := (l.checks + 1) % 2 ^ 64 }
  if l.checks % 1024 = 0 ∧ sweepThreshold < l.windows.length then counted.sweep now else counted

theorem tracks_swept (h : Tracks l pair now open_) : Tracks (swept l now) pair now open_ := by
  have hcounted : Tracks { l with checks := (l.checks + 1) % 2 ^ 64 } pair now open_ := h
  unfold swept
  split
  · exact tracks_sweep hcounted
  · exact hcounted

/-- The window of a pair after a request. -/
def entered (l : RateLimiter) (pair : Scope × IpAddr) (now : Nat) : Window :=
  let entry := (l.find pair).getD ⟨now, 0⟩
  let entry := if windowWidth ≤ now - entry.start then ⟨now, 0⟩ else entry
  { entry with count := (entry.count + 1) % 2 ^ 32 }

theorem checkAt_eq (henabled : l.enabled = true) (scope : Scope) (ip : IpAddr) (now : Nat) :
    l.checkAt scope ip now =
      let w := entered (swept l now) (scope, ip) now
      (⟨scope.maxPerMinute, scope.maxPerMinute - w.count,
        (windowWidth - (now - w.start)) / nanos, w.count ≤ scope.maxPerMinute⟩,
        (swept l now).put (scope, ip) w) := by
  unfold checkAt
  rw [if_neg (by simp [henabled])]
  rfl

/-- A request of a pair falls into the window that is open, or opens the next one. -/
theorem entered_eq (h : Tracks l pair now open_) : entered l pair now =
    ⟨(next windowWidth open_ now).1, (next windowWidth open_ now).2 % 2 ^ 32⟩ := by
  have hwidth : ¬ windowWidth ≤ now - now := by
    rw [Nat.sub_self]
    decide
  rcases h with h | ⟨hnone, p, rfl, hexp⟩
  · cases open_ with
    | none =>
        rw [Option.map_none] at h
        simp only [entered, h, Option.getD_none, if_neg hwidth, next]
    | some p =>
        rw [Option.map_some] at h
        by_cases hexp : windowWidth ≤ now - p.1
        · simp only [entered, h, Option.getD_some, if_pos hexp, next]
        · simp only [entered, h, Option.getD_some, if_neg hexp, next, Nat.mod_add_mod]
  · -- A window that was swept would have been reset.
    simp only [entered, hnone, Option.getD_none, if_neg hwidth, next, if_pos hexp]

/-- The verdict on a request of the pair, and what is known of the pair after it. -/
theorem check_same (henabled : l.enabled = true) (h : Tracks l pair now open_) :
    (l.checkAt pair.1 pair.2 now).1 = verdictOn true pair.1.maxPerMinute
        ⟨now, (next windowWidth open_ now).1, (next windowWidth open_ now).2⟩ ∧
      Tracks (l.checkAt pair.1 pair.2 now).2 pair now (some (next windowWidth open_ now)) := by
  rw [checkAt_eq henabled, entered_eq (tracks_swept h)]
  refine ⟨rfl, .inl ?_⟩
  simp only [find_put, if_true, Option.map_some]

/-- A request of another pair changes nothing for the pair. -/
theorem check_other {scope : Scope} {ip : IpAddr} (henabled : l.enabled = true)
    (hother : (scope, ip) ≠ pair) (h : Tracks l pair now open_) :
    Tracks (l.checkAt scope ip now).2 pair now open_ := by
  have hfind : ∀ w, ((swept l now).put (scope, ip) w).find pair = (swept l now).find pair := by
    intro w
    rw [find_put, if_neg (Ne.symm hother)]
  rw [checkAt_eq henabled, Tracks, hfind]
  exact tracks_swept h

theorem enabled_step (l : RateLimiter) (e : Event) : (step l e).enabled = l.enabled := by
  cases e with
  | sweep now => rfl
  | check scope ip now =>
      by_cases henabled : l.enabled = true
      · rw [step, checkAt_eq henabled]
        change (swept l now).enabled = l.enabled
        unfold swept
        split
        · rfl
        · rfl
      · simp [step, checkAt, henabled]

theorem timesOf_cons (e : Event) (es : List Event) : timesOf pair (e :: es) =
    if e.isOf pair then e.now :: timesOf pair es else timesOf pair es := by
  unfold timesOf
  by_cases h : e.isOf pair = true
  · rw [List.filter_cons_of_pos h, List.map_cons, if_pos h]
  · rw [List.filter_cons_of_neg h, if_neg h]

/-- A pair is judged by the windows and numbers of its own requests. -/
theorem verdictsOf_eq {events : List Event} (henabled : l.enabled = true)
    (hsorted : (now :: events.map Event.now).Pairwise (· ≤ ·)) (h : Tracks l pair now open_) :
    verdictsOf pair l events =
      (calls windowWidth open_ (timesOf pair events)).map
        (verdictOn true pair.1.maxPerMinute) := by
  induction events generalizing l now open_ with
  | nil => rfl
  | cons e es ih =>
      rw [List.map_cons, List.pairwise_cons] at hsorted
      have hnow := tracks_later h (hsorted.1 e.now List.mem_cons_self)
      have hstep : (step l e).enabled = true := (enabled_step l e).trans henabled
      rw [verdictsOf, timesOf_cons]
      cases e with
      | sweep later =>
          exact ih hstep hsorted.2 (tracks_sweep hnow)
      | check scope ip later =>
          by_cases hpair : (scope, ip) = pair
          · subst hpair
            rcases check_same henabled hnow with ⟨hverdict, htracks⟩
            have hof : (Event.check scope ip later).isOf (scope, ip) = true := beq_self_eq_true _
            rw [if_pos hof, calls, List.map_cons, ← ih hstep hsorted.2 htracks, verdictOf,
              if_pos rfl]
            exact congrArg (· :: verdictsOf (scope, ip) _ es) hverdict
          · have hof : ¬ (Event.check scope ip later).isOf pair = true := by
              simpa [Event.isOf] using hpair
            rw [if_neg hof, ← ih hstep hsorted.2 (check_other henabled hpair hnow), verdictOf,
              if_neg hpair, List.nil_append]

/-- A limiter that is off lets everything pass. -/
theorem verdictsOf_off {events : List Event} (hoff : l.enabled = false)
    (open_ : Option (Nat × Nat)) : verdictsOf pair l events =
      (calls windowWidth open_ (timesOf pair events)).map
        (verdictOn false pair.1.maxPerMinute) := by
  induction events generalizing l open_ with
  | nil => rfl
  | cons e es ih =>
      have hstep : (step l e).enabled = false := (enabled_step l e).trans hoff
      rw [verdictsOf, timesOf_cons]
      cases e with
      | sweep later => exact ih hstep open_
      | check scope ip later =>
          by_cases hpair : (scope, ip) = pair
          · subst hpair
            have hof : (Event.check scope ip later).isOf (scope, ip) = true := beq_self_eq_true _
            have hverdict : (l.checkAt scope ip later).1 = verdictOn false scope.maxPerMinute
                ⟨later, (next windowWidth open_ later).1, (next windowWidth open_ later).2⟩ := by
              unfold checkAt
              rw [if_pos (by simp [hoff])]
              rfl
            rw [if_pos hof, calls, List.map_cons, ← ih hstep, verdictOf, if_pos rfl, hverdict]
            rfl
          · have hof : ¬ (Event.check scope ip later).isOf pair = true := by
              simpa [Event.isOf] using hpair
            rw [if_neg hof, ← ih hstep, verdictOf, if_neg hpair, List.nil_append]

/-! ### The limits -/

section Fairness

variable {enabled : Bool} {events : List Event}

theorem windowWidth_pos : 0 < windowWidth := by decide

/-- Whether the requests with a number pass. -/
def rule (enabled : Bool) (limit : Nat) (j : Nat) : Bool := !enabled || decide (j % 2 ^ 32 ≤ limit)

theorem allowed_verdictOn (limit : Nat) (c : Call) :
    (verdictOn enabled limit c).allowed = rule enabled limit c.index := by
  cases enabled with
  | true => rfl
  | false => rfl

-- The instants of a pair come in their order too.
theorem sorted_timesOf (hsorted : (events.map Event.now).Pairwise (· ≤ ·)) :
    (timesOf pair events).Pairwise (· ≤ ·) :=
  hsorted.sublist (List.filter_sublist.map Event.now)

/-- Every request of the pair has the verdict that its window and its number give. -/
theorem verdictsOf_new (hsorted : (events.map Event.now).Pairwise (· ≤ ·)) :
    verdictsOf pair (new enabled) events = (calls windowWidth none (timesOf pair events)).map
      (verdictOn enabled pair.1.maxPerMinute) := by
  cases enabled with
  | true =>
      have hfirst : (0 :: events.map Event.now).Pairwise (· ≤ ·) :=
        List.pairwise_cons.2 ⟨fun _ _ => Nat.zero_le _, hsorted⟩
      exact verdictsOf_eq rfl hfirst (.inl rfl)
  | false => exact verdictsOf_off rfl none

theorem judged_eq (hsorted : (events.map Event.now).Pairwise (· ≤ ·)) :
    judged enabled events pair = (calls windowWidth none (timesOf pair events)).map fun c =>
      (c, verdictOn enabled pair.1.maxPerMinute c) := by
  rw [judged, verdictsOf_new hsorted]
  conv_lhs => rw [← List.map_id (calls windowWidth none (timesOf pair events))]
  rw [List.map_map]
  exact List.zip_map'

/-- How many requests pass in a window. -/
theorem count_window (hsorted : (events.map Event.now).Pairwise (· ≤ ·)) (w : Nat) :
    ((judged enabled events pair).countP fun j => decide (j.1.start = w) && j.2.allowed) =
      passed (rule enabled pair.1.maxPerMinute)
        (inWindow w (calls windowWidth none (timesOf pair events))).length := by
  rw [passed, ← indices_window windowWidth_pos (sorted_timesOf hsorted), List.countP_map,
    inWindow, List.countP_filter, judged_eq hsorted, List.countP_map]
  refine congrArg (fun p => List.countP p _) (funext fun c => ?_)
  simp only [Function.comp_apply, allowed_verdictOn, Bool.and_comm]

-- A limit is one that a window can exceed before the count wraps.
theorem limit_bounds (scope : Scope) : 1 ≤ scope.maxPerMinute ∧ scope.maxPerMinute < 2 ^ 32 := by
  cases scope <;> decide

theorem passed_rule_le_iff (scope : Scope) (n : Nat) :
    passed (rule enabled scope.maxPerMinute) n ≤ scope.maxPerMinute ↔
      n < capacity enabled scope := by
  cases enabled with
  | true => exact passed_le_iff (limit_bounds scope).2
  | false =>
      have hall : ∀ j, rule false scope.maxPerMinute j = true := fun _ => rfl
      rw [passed_all hall]
      exact Nat.lt_succ_iff.symm

/-- A window gives no more than the budget as long as it has not too many requests. -/
theorem perWindow_iff (hsorted : (events.map Event.now).Pairwise (· ≤ ·)) (w : Nat) :
    ((judged enabled events pair).countP fun j => decide (j.1.start = w) && j.2.allowed) ≤
        pair.1.maxPerMinute ↔
      (inWindow w (calls windowWidth none (timesOf pair events))).length <
        capacity enabled pair.1 := by
  rw [count_window hsorted, passed_rule_le_iff]

/-- The limits hold for a pair as long as no window of it has too many requests. -/
theorem fair_iff (enabled : Bool) (events : List Event) (pair : Scope × IpAddr)
    (hsorted : (events.map Event.now).Pairwise (· ≤ ·)) : Fair enabled events pair ↔
      ∀ w, (inWindow w (calls windowWidth none (timesOf pair events))).length <
        capacity enabled pair.1 := by
  refine ⟨fun h w => (perWindow_iff hsorted w).1 (h.perWindow w), fun h => ?_⟩
  have hwindow := fun w => (perWindow_iff hsorted w).2 (h w)
  refine ⟨hwindow, fun t => ?_, fun front j back hj hexpired => ?_, ?_⟩
  · -- A span meets two windows, and each of them gives the budget once.
    have htimes : (timesOf pair events).Pairwise (· ≤ ·) := sorted_timesOf hsorted
    rcases span_two windowWidth_pos htimes t with ⟨v, w, hspan⟩
    have hsplit : ((judged enabled events pair).countP fun j =>
        decide (t ≤ j.1.time ∧ j.1.time ≤ t + windowWidth) && j.2.allowed) ≤
        ((judged enabled events pair).countP fun j => decide (j.1.start = v) && j.2.allowed) +
          (judged enabled events pair).countP fun j => decide (j.1.start = w) && j.2.allowed := by
      refine countP_le_add fun j hj hpass => ?_
      rw [judged_eq hsorted] at hj
      rcases List.mem_map.1 hj with ⟨c, hc, rfl⟩
      rw [Bool.and_eq_true, decide_eq_true_eq] at hpass
      rw [Bool.and_eq_true, Bool.and_eq_true, decide_eq_true_eq, decide_eq_true_eq]
      exact (hspan c hc hpass.1.1 hpass.1.2).imp (⟨·, hpass.2⟩) (⟨·, hpass.2⟩)
    have hv := hwindow v
    have hw := hwindow w
    omega
  · rw [judged_eq hsorted] at hj
    rcases List.map_eq_append_iff.1 hj with ⟨before, rest, hcalls, rfl, hrest⟩
    rcases List.map_eq_cons_iff.1 hrest with ⟨c, after, rfl, rfl, -⟩
    have hfirst : c.index = 1 := by
      refine index_of_expired hcalls (fun p hp => absurd hp (Option.some_ne_none p).symm) ?_
      exact fun d hd => hexpired _ (List.mem_map.2 ⟨d, hd, rfl⟩)
    rw [allowed_verdictOn, hfirst, rule, Bool.or_eq_true, decide_eq_true_eq]
    exact .inr (limit_bounds pair.1).1
  · have hagain : timesOf pair (events.filter (Event.isOf pair)) = timesOf pair events := by
      rw [timesOf, timesOf, List.filter_filter]
      simp only [Bool.and_self]
    rw [verdictsOf_new hsorted, verdictsOf_new, hagain]
    exact hsorted.sublist (List.filter_sublist.map Event.now)

/-- A login, a sweep, another request, and a login when the first one has expired. -/
def twoLogins : List Event :=
  [.check .login IpAddr.localhost 0, .sweep 5, .check .general IpAddr.localhost 7,
    .check .login IpAddr.localhost 60000000000]

theorem fair_twoLogins : Fair true twoLogins (.login, IpAddr.localhost) ↔
    ∀ w, (inWindow w (calls windowWidth none
      (timesOf (.login, IpAddr.localhost) twoLogins))).length < capacity true .login :=
  fair_iff true twoLogins (.login, IpAddr.localhost) (by decide)

/-- So many requests at one instant. -/
def burst (n : Nat) : List Event := List.replicate n (.check .login IpAddr.localhost 0)

theorem sorted_burst (n : Nat) : ((burst n).map Event.now).Pairwise (· ≤ ·) := by
  rw [burst, List.map_replicate, List.pairwise_replicate]
  exact .inr (Nat.le_refl _)

-- They are all in one window.
theorem length_burst (n : Nat) : (inWindow 0 (calls windowWidth none
    (timesOf (.login, IpAddr.localhost) (burst (n + 1))))).length = n + 1 := by
  have hof : (Event.check .login IpAddr.localhost 0).isOf (.login, IpAddr.localhost) = true := by
    decide
  have htimes : timesOf (.login, IpAddr.localhost) (burst (n + 1)) = 0 :: List.replicate n 0 := by
    rw [timesOf, burst, List.filter_replicate, if_pos hof, List.map_replicate,
      List.replicate_succ]
    rfl
  rw [htimes, calls, next, inWindow_cons, if_pos rfl, List.length_cons,
    length_inWindow_replicate windowWidth_pos]

/-- The last of 2^32 logins at one instant passes, as if it were the first. -/
theorem budget_again : ((burst (4294967295 + 1)).map Event.now).Pairwise (· ≤ ·) ∧
    ¬ Fair true (burst (4294967295 + 1)) (.login, IpAddr.localhost) := by
  refine ⟨sorted_burst _, fun h => ?_⟩
  have hlt := (perWindow_iff (sorted_burst _) 0).1 (h.perWindow 0)
  rw [length_burst] at hlt
  exact absurd hlt (by decide)

end Fairness

end Limits

end PocketSkynet
