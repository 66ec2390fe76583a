import Mathlib.Algebra.Order.BigOperators.Group.List
import Mathlib.Algebra.Order.Group.Nat
import PocketSkynet.Core.Api
import PocketSkynet.Lib.Interleave

/-!
# The Pool of Connections

A query runs on a connection that is taken from a pool, by a task that a caller waits for.
The caller can go away at any time, and the task then goes on without it; a task can panic; and
a connection that has been lost is replaced when the next call finds none idle. So the number of
connections is not fixed, and what keeps two tasks apart is only that each connection is in one
place.

`pool_run` says what holds in any interleaving. Every connection that was ever opened is idle,
with one call, or lost with one call, and nothing that is lost comes back. The permits are all
there: at most four callers wait for a task at a time, and none of the ways in which a call ends
leaks one. A permit is given up before the connection is put back, so a call that comes in
between opens one more; there are at most as many too many as calls have stood at this point
together.

## Main definitions

* `Inner`, `checkout`: The pool, and how a connection is taken.
* `Call`, `advance`: Where a call stands, and its next step.
* `Call.conn`, `Call.lost`: The connection of a call, and whether it is gone.
* `Placed`, `Permitted`: Every connection is in one place; every permit is accounted for.

## Theorems

* `balance_advance`: What a step gives and takes.
* `placed_step`, `permitted_step`, `counted_step`: What every turn keeps.
* `pooled_step`: When the pool grows.
* `spent_apart`: A connection that is lost is with nobody else.
* `moves_of_waiting`, `exists_drain`: No state is stuck.
* `pool_run`: What holds in any interleaving.
-/

namespace PocketSkynet

namespace Database

/-- How many database tasks may be waited for at a time. -/
def poolSize : Nat := 4

/-- The pool. Connections are named in the order in which they are opened; `opened` is how many
    there have been. -/
structure Inner where
  idle : List Nat
  permits : Nat
  opened : Nat
deriving DecidableEq, Repr

/-- The pool with its first connections. -/
def openUri : Inner := ⟨List.range poolSize, poolSize, poolSize⟩

/-- Take the connection that was put back last, or open one. -/
def checkout (opens : Bool) (s : Inner) : Inner × Except ApiError Nat :=
  match s.idle.getLast? with
  | some conn => ({ s with idle := s.idle.dropLast }, .ok conn)
  | none =>
      if opens then ({ s with opened := s.opened + 1 }, .ok s.opened)
      else (s, .error (.internal "reopening connection"))

/-- Where a call stands. A `joining` call has a task that has ended, with what it returned or
    with a panic; a `detached` one has a task that runs on and a caller that has gone. The calls
    that are over keep the name of the connection that was lost with them. -/
inductive Call (α : Type) where
  | acquiring
  | admitted
  | working (conn : Nat)
  | joining (conn : Nat) (joined : Option (Except ApiError α))
  | returning (conn : Nat) (out : Except ApiError α)
  | detached (conn : Nat)
  | answered (lost : Option Nat) (answer : Except ApiError α)
  | dropped (lost : Option Nat)
deriving Repr

/-- What a step meets: how the task ends if it ends now, whether a connection can be opened, and
    whether the caller goes away. -/
structure Moment (α : Type) where
  result : Option (Except ApiError α)
  opens : Bool
  drops : Bool

variable {α : Type}

/-- The next step of a call. A caller can only go away where it waits. -/
def advance (x : Moment α) (s : Inner) : Call α → Inner × Call α
  | .acquiring =>
      if x.drops then (s, .dropped none)
      else if 0 < s.permits then ({ s with permits := s.permits - 1 }, .admitted)
      else (s, .acquiring)
  | .admitted =>
      match checkout x.opens s with
      | (s, .ok conn) => (s, .working conn)
      | (s, .error e) => ({ s with permits := s.permits + 1 }, .answered none (.error e))
  | .working conn =>
      if x.drops then ({ s with permits := s.permits + 1 }, .detached conn)
      else (s, .joining conn x.result)
  | .joining conn joined =>
      if x.drops then ({ s with permits := s.permits + 1 }, .dropped (some conn))
      else
        match joined with
        | some out => ({ s with permits := s.permits + 1 }, .returning conn out)
        | none =>
            ({ s with permits := s.permits + 1 },
              .answered (some conn) (.error (.internal "database task panicked")))
  | .returning conn out => ({ s with idle := s.idle ++ [conn] }, .answered none out)
  | .detached conn => (s, .dropped (some conn))
  | .answered lost answer => (s, .answered lost answer)
  | .dropped lost => (s, .dropped lost)

/-- The pool and the calls. -/
abbrev Calls (α : Type) := Pool Inner (Call α)

/-- The pool and the calls after a turn. -/
def step (p : Calls α) (turn : Turn Unit (Moment α)) : Calls α :=
  p.step (fun _ => .acquiring) advance turn

/-- The pool and the calls behind some turns. -/
def after (turns : List (Turn Unit (Moment α))) : Calls α := Run.run step (Pool.idle openUri) turns

namespace Call

/-- The connection that a call has, or that was lost with it. -/
def conn : Call α → Option Nat
  | working conn | joining conn _ | returning conn _ | detached conn => some conn
  | answered lost _ | dropped lost => lost
  | _ => none

/-- The call holds a permit. -/
def permit : Call α → Nat
  | admitted | working _ | joining _ _ => 1
  | _ => 0

/-- The call is about to take a connection. -/
def entering : Call α → Nat
  | admitted => 1
  | _ => 0

/-- The connection of the call goes back to the pool, unless the task panics or the caller goes
    away. -/
def pooled : Call α → Nat
  | working _ | joining _ (some _) | returning _ _ => 1
  | _ => 0

/-- The call has given up its permit, and has yet to put its connection back. -/
def parting : Call α → Nat
  | returning _ _ => 1
  | _ => 0

/-- The connection does not go back to the pool: the task has panicked, or the caller has gone. -/
def lost : Call α → Nat
  | joining _ none | detached _ => 1
  | answered lost _ | dropped lost => lost.toList.length
  | _ => 0

/-- The call is over. -/
def ended : Call α → Bool
  | answered _ _ | dropped _ => true
  | _ => false

/-- How many steps a call has before it. -/
def rank : Call α → Nat
  | acquiring => 5
  | admitted => 4
  | working _ => 3
  | joining _ _ => 2
  | returning _ _ | detached _ => 1
  | _ => 0

/-- The call has this connection. -/
def holds (c : Nat) (q : Call α) : Nat := if q.conn = some c then 1 else 0

end Call

/-- Every connection that was opened is in one place: idle, or with one call. -/
def Placed (p : Calls α) : Prop :=
  ∀ c, p.shared.idle.count c + p.total (Call.holds c) = if c < p.shared.opened then 1 else 0

/-- Every permit is free or with a call. -/
def Permitted (p : Calls α) : Prop := p.shared.permits + p.total Call.permit = poolSize

/-- The connections that are in the pool or go back to it. -/
def inPool (p : Calls α) : Nat := p.shared.idle.length + p.total Call.pooled

/-! ### One step -/

section Steps

variable (x : Moment α) (s : Inner) (q : Call α)

-- What is taken out of the pool is the last entry.
theorem count_dropLast {l : List Nat} {conn : Nat} (h : l.getLast? = some conn) (c : Nat) :
    l.dropLast.count c + (if conn = c then 1 else 0) = l.count c := by
  have hl : l = l.dropLast ++ [conn] := by
    rw [List.dropLast_append_getLast? conn h]
  conv_rhs => rw [hl]
  rw [List.count_append, List.count_singleton]
  simp

theorem length_dropLast {l : List Nat} {conn : Nat} (h : l.getLast? = some conn) :
    l.dropLast.length + 1 = l.length := by
  have hl : l = l.dropLast ++ [conn] := by
    rw [List.dropLast_append_getLast? conn h]
  conv_rhs => rw [hl]
  simp

/-- What a checkout does: it takes an idle connection, opens one, or fails. -/
theorem checkout_cases (opens : Bool) (s : Inner) :
    (∃ conn, s.idle.getLast? = some conn ∧
      checkout opens s = ({ s with idle := s.idle.dropLast }, .ok conn)) ∨
    (s.idle = [] ∧ opens = true ∧
      checkout opens s = ({ s with opened := s.opened + 1 }, .ok s.opened)) ∨
    (s.idle = [] ∧ opens = false ∧
      checkout opens s = (s, .error (.internal "reopening connection"))) := by
  unfold checkout
  cases hlast : s.idle.getLast? with
  | some conn => exact Or.inl ⟨conn, rfl, rfl⟩
  | none =>
      have hidle : s.idle = [] := List.getLast?_eq_none_iff.1 hlast
      cases opens with
      | true => exact Or.inr (Or.inl ⟨hidle, rfl, rfl⟩)
      | false => exact Or.inr (Or.inr ⟨hidle, rfl, rfl⟩)

/-- What a step of a call does to the pool and to the call. -/
structure Balanced (s : Inner) (q : Call α) (s' : Inner) (q' : Call α) : Prop where
  permits : s'.permits + q'.permit = s.permits + q.permit
  placed : ∀ c, s'.idle.count c + q'.holds c + (if c < s.opened then 1 else 0) =
    s.idle.count c + q.holds c + (if c < s'.opened then 1 else 0)
  counted : s'.idle.length + q'.pooled + q'.lost + s.opened =
    s.idle.length + q.pooled + q.lost + s'.opened
  pooled : s'.idle.length + q'.pooled ≤ s.idle.length + q.pooled ∨
    (q = .admitted ∧ s'.idle.length + q'.pooled = 1)

-- The pool and the connection of the call stay as they are.
theorem balanced_same {s s' : Inner} {q q' : Call α} (hidle : s'.idle = s.idle)
    (hopened : s'.opened = s.opened) (hconn : q'.conn = q.conn)
    (hpermits : s'.permits + q'.permit = s.permits + q.permit)
    (hsum : q'.pooled + q'.lost = q.pooled + q.lost) (hpooled : q'.pooled ≤ q.pooled) :
    Balanced s q s' q' where
  permits := hpermits
  placed := fun c => by simp only [Call.holds, hidle, hopened, hconn]
  counted := by rw [hidle, hopened]; omega
  pooled := by rw [hidle]; exact Or.inl (Nat.add_le_add_left hpooled _)

/-- What a step gives and takes. -/
theorem balance_advance : Balanced s q (advance x s q).1 (advance x s q).2 := by
  cases q with
  | acquiring =>
      rw [advance]
      by_cases hdrops : x.drops = true
      · rw [if_pos hdrops]
        exact balanced_same rfl rfl rfl rfl rfl (Nat.le_refl _)
      · rw [if_neg hdrops]
        by_cases hfree : 0 < s.permits
        · rw [if_pos hfree]
          refine balanced_same rfl rfl rfl ?_ rfl (Nat.le_refl _)
          simp only [Call.permit]
          omega
        · rw [if_neg hfree]
          exact balanced_same rfl rfl rfl rfl rfl (Nat.le_refl _)
  | admitted =>
      rw [advance]
      rcases checkout_cases x.opens s with ⟨conn, hlast, hout⟩ | ⟨hidle, -, hout⟩ | ⟨hidle, -, hout⟩
      · -- An idle connection moves to the call.
        rw [hout]
        have hlength := length_dropLast hlast
        refine ⟨rfl, fun c => ?_, ?_, Or.inl ?_⟩
        · have hcount := count_dropLast hlast c
          simp only [Call.holds, Call.conn, Option.some.injEq, reduceCtorEq, if_false]
          omega
        · simp only [Call.pooled, Call.lost]
          omega
        · simp only [Call.pooled]
          omega
      · -- A connection is opened, since none is idle.
        rw [hout]
        refine ⟨rfl, fun c => ?_, ?_, Or.inr ⟨rfl, ?_⟩⟩
        · simp only [Call.holds, Call.conn, Option.some.injEq, reduceCtorEq, if_false]
          rcases Nat.lt_trichotomy c s.opened with h | h | h
          · rw [if_neg (by omega), if_pos h, if_pos (by omega)]
          · rw [if_pos h.symm, if_neg (by omega), if_pos (by omega)]
          · rw [if_neg (by omega), if_neg (by omega), if_neg (by omega)]
        · simp only [Call.pooled, Call.lost]
          omega
        · simp only [Call.pooled, hidle, List.length_nil]
      · rw [hout]
        exact balanced_same rfl rfl rfl rfl rfl (Nat.le_refl _)
  | working conn =>
      rw [advance]
      by_cases hdrops : x.drops = true
      · rw [if_pos hdrops]
        exact balanced_same rfl rfl rfl rfl rfl (Nat.zero_le _)
      · rw [if_neg hdrops]
        cases x.result with
        | none => exact balanced_same rfl rfl rfl rfl rfl (Nat.zero_le _)
        | some out => exact balanced_same rfl rfl rfl rfl rfl (Nat.le_refl _)
  | joining conn joined =>
      cases joined with
      | none =>
          rw [advance]
          by_cases hdrops : x.drops = true
          · rw [if_pos hdrops]
            exact balanced_same rfl rfl rfl rfl rfl (Nat.le_refl _)
          · rw [if_neg hdrops]
            exact balanced_same rfl rfl rfl rfl rfl (Nat.le_refl _)
      | some out =>
          rw [advance]
          by_cases hdrops : x.drops = true
          · rw [if_pos hdrops]
            exact balanced_same rfl rfl rfl rfl rfl (Nat.zero_le _)
          · rw [if_neg hdrops]
            exact balanced_same rfl rfl rfl rfl rfl (Nat.le_refl _)
  | returning conn out =>
      rw [advance]
      refine ⟨rfl, fun c => ?_, ?_, Or.inl ?_⟩
      · simp only [Call.holds, Call.conn, List.count_append, List.count_singleton, beq_iff_eq,
          Option.some.injEq, reduceCtorEq, if_false]
        omega
      · simp only [Call.pooled, Call.lost, List.length_append, List.length_singleton,
          Option.toList_none, List.length_nil]
      · simp only [Call.pooled, List.length_append, List.length_singleton]
        omega
  | detached conn => exact balanced_same rfl rfl rfl rfl rfl (Nat.le_refl _)
  | answered lost answer => exact balanced_same rfl rfl rfl rfl rfl (Nat.le_refl _)
  | dropped lost => exact balanced_same rfl rfl rfl rfl rfl (Nat.le_refl _)

end Steps

/-! ### Any interleaving -/

section Turns

variable {p : Calls α}

-- A call that comes in brings nothing with it.
theorem total_start (w : Call α → Nat) (hw : w .acquiring = 0) (p : Calls α) :
    (step p (.start ())).total w = p.total w := by
  rw [step, Pool.total_start, hw, Nat.add_zero]

/-- A tick of nobody changes nothing, and every other turn is a call that comes in or a step. -/
theorem step_cases (p : Calls α) (turn : Turn Unit (Moment α)) :
    step p turn = p ∨ turn = .start () ∨
      ∃ i x q, turn = .tick i x ∧ p.procs[i]? = some q := by
  cases turn with
  | start call => exact Or.inr (Or.inl rfl)
  | tick i x =>
      cases hq : p.procs[i]? with
      | none => exact Or.inl (Pool.step_tick_none hq)
      | some q => exact Or.inr (Or.inr ⟨i, x, q, rfl, hq⟩)

theorem shared_tick {i : Nat} {x : Moment α} {q : Call α} (hq : p.procs[i]? = some q) :
    (step p (.tick i x)).shared = (advance x p.shared q).1 := by
  rw [step, Pool.step_tick hq]

theorem total_tick (w : Call α → Nat) {i : Nat} {q : Call α} (hq : p.procs[i]? = some q)
    (x : Moment α) :
    (step p (.tick i x)).total w + w q = p.total w + w (advance x p.shared q).2 :=
  Pool.total_tick w hq

theorem placed_step (p : Calls α) (turn : Turn Unit (Moment α)) (h : Placed p) :
    Placed (step p turn) := by
  rcases step_cases p turn with hsame | rfl | ⟨i, x, q, rfl, hq⟩
  · rw [hsame]
    exact h
  · intro c
    rw [total_start (Call.holds c) rfl]
    exact h c
  · intro c
    have htotal := total_tick (Call.holds c) hq x
    have hbalance := (balance_advance x p.shared q).placed c
    have hc := h c
    rw [← shared_tick hq] at hbalance
    omega

theorem placed_idle : Placed (Pool.idle openUri : Calls α) := by
  intro c
  rw [Pool.total_idle, Nat.add_zero]
  show (List.range poolSize).count c = if c < poolSize then 1 else 0
  by_cases hc : c < poolSize
  · rw [if_pos hc, List.nodup_range.count, if_pos (List.mem_range.2 hc)]
  · rw [if_neg hc]
    exact List.count_eq_zero.2 fun hmem => hc (List.mem_range.1 hmem)

theorem permitted_step (p : Calls α) (turn : Turn Unit (Moment α)) (h : Permitted p) :
    Permitted (step p turn) := by
  rcases step_cases p turn with hsame | rfl | ⟨i, x, q, rfl, hq⟩
  · rw [hsame]
    exact h
  · unfold Permitted
    rw [total_start Call.permit rfl]
    exact h
  · have htotal := total_tick Call.permit hq x
    have hbalance := (balance_advance x p.shared q).permits
    unfold Permitted at h ⊢
    rw [← shared_tick hq] at hbalance
    omega

/-- Every connection that was opened is in the pool, goes back to it, or is lost. -/
def Counted (p : Calls α) : Prop := p.shared.opened = inPool p + p.total Call.lost

theorem counted_step (p : Calls α) (turn : Turn Unit (Moment α)) (h : Counted p) :
    Counted (step p turn) := by
  rcases step_cases p turn with hsame | rfl | ⟨i, x, q, rfl, hq⟩
  · rw [hsame]
    exact h
  · unfold Counted inPool
    rw [total_start Call.pooled rfl, total_start Call.lost rfl]
    exact h
  · have hpooled := total_tick Call.pooled hq x
    have hlost := total_tick Call.lost hq x
    have hbalance := (balance_advance x p.shared q).counted
    unfold Counted inPool at h ⊢
    rw [← shared_tick hq] at hbalance
    omega

-- A call whose connection goes back holds a permit, or has just given it up.
theorem pooled_le (q : Call α) : q.pooled + q.entering ≤ q.permit + q.parting := by
  cases q with
  | joining conn joined => cases joined <;> simp [Call.pooled, Call.entering, Call.permit]
  | _ => simp [Call.pooled, Call.entering, Call.permit, Call.parting]

theorem total_pooled_le (p : Calls α) :
    p.total Call.pooled + p.total Call.entering ≤ p.total Call.permit + p.total Call.parting := by
  simp only [Pool.total, ← List.sum_map_add]
  exact List.sum_le_sum fun q _ => pooled_le q

/-- The pool grows only by a call that finds none idle, and then all that is in the pool is with
    calls that hold a permit or have just given it up. -/
theorem pooled_step {w : Nat} (p : Calls α) (turn : Turn Unit (Moment α)) (h : Permitted p)
    (hparting : p.total Call.parting ≤ w) (hpool : inPool p ≤ poolSize + w) :
    inPool (step p turn) ≤ poolSize + w := by
  rcases step_cases p turn with hsame | rfl | ⟨i, x, q, rfl, hq⟩
  · rw [hsame]
    exact hpool
  · unfold inPool
    rw [total_start Call.pooled rfl]
    exact hpool
  · have hpooled := total_tick Call.pooled hq x
    have hbalance := (balance_advance x p.shared q).pooled
    rw [← shared_tick hq] at hbalance
    unfold inPool at hpool ⊢
    unfold Permitted at h
    rcases hbalance with hless | ⟨rfl, hone⟩
    · omega
    · -- The call that opens a connection holds a permit and no connection yet.
      have hentering : 1 ≤ p.total Call.entering :=
        Pool.le_total Call.entering (Pool.mem_of_getElem? hq)
      have hall := total_pooled_le p
      have hnone : (Call.admitted : Call α).pooled = 0 := rfl
      omega

theorem pooled_run {w : Nat} (p : Calls α) (turns : List (Turn Unit (Moment α)))
    (h : Permitted p) (hpool : inPool p ≤ poolSize + w)
    (hparting : Run.Throughout step (fun p => p.total Call.parting ≤ w) p turns) :
    inPool (Run.run step p turns) ≤ poolSize + w := by
  induction turns generalizing p with
  | nil => exact hpool
  | cons turn turns ih =>
      exact ih (step p turn) (permitted_step p turn h) (pooled_step p turn h hparting.1 hpool)
        hparting.2

/-! ### No connection that is lost comes back -/

/-- A task on this connection has panicked, or its caller has gone. -/
def Spent (p : Calls α) (c : Nat) : Prop := ∃ q ∈ p.procs, q.conn = some c ∧ q.lost = 1

-- A call whose connection is lost keeps its name.
theorem spent_advance (x : Moment α) (s : Inner) {q : Call α} {c : Nat} (hconn : q.conn = some c)
    (hlost : q.lost = 1) :
    (advance x s q).2.conn = some c ∧ (advance x s q).2.lost = 1 := by
  cases q with
  | joining conn joined =>
      cases joined with
      | none =>
          rw [advance]
          by_cases hdrops : x.drops = true
          · rw [if_pos hdrops]
            exact ⟨hconn, rfl⟩
          · rw [if_neg hdrops]
            exact ⟨hconn, rfl⟩
      | some out => cases hlost
  | detached conn => exact ⟨hconn, rfl⟩
  | answered lost answer => exact ⟨hconn, hlost⟩
  | dropped lost => exact ⟨hconn, hlost⟩
  | acquiring | admitted | working | returning => cases hlost

theorem spent_step {c : Nat} (p : Calls α) (turn : Turn Unit (Moment α)) (h : Spent p c) :
    Spent (step p turn) c := by
  rcases step_cases p turn with hsame | rfl | ⟨i, x, q, rfl, hq⟩
  · rw [hsame]
    exact h
  · rcases h with ⟨d, hd, hc⟩
    exact ⟨d, List.mem_append_left _ hd, hc⟩
  · rw [step, Pool.step_tick hq]
    exact Pool.exists_mem_set hq (fun hc => spent_advance x p.shared hc.1 hc.2) (fun d hd => hd) h

theorem spent_apart {c : Nat} (h : Placed p) (hspent : Spent p c) :
    c ∉ p.shared.idle ∧ ∀ q ∈ p.procs, q.conn = some c → q.pooled = 0 := by
  rcases hspent with ⟨q, hq, hconn, hlost⟩
  have hplace : p.shared.idle.count c + p.total (Call.holds c) ≤ 1 := by
    rw [h c]
    split <;> omega
  have hone : q.holds c = 1 := if_pos hconn
  refine ⟨fun hidle => ?_, fun d hd hdc => ?_⟩
  · have hle := Pool.le_total (Call.holds c) hq
    have hcount : 0 < p.shared.idle.count c := List.count_pos_iff.2 hidle
    omega
  · -- No two calls have one connection.
    rcases List.getElem?_of_mem hq with ⟨i, hi⟩
    rcases List.getElem?_of_mem hd with ⟨j, hj⟩
    have htwo : d.holds c = 1 := if_pos hdc
    by_cases hij : i = j
    · subst hij
      rw [hi] at hj
      cases hj
      cases q with
      | joining conn joined =>
          cases joined with
          | none => rfl
          | some out => cases hlost
      | working | returning => cases hlost
      | _ => rfl
    · have hle := Pool.add_le_total (Call.holds c) hij hi hj
      omega

/-! ### No state is stuck -/

theorem rank_advance (x : Moment α) (s : Inner) {q : Call α} (hended : q.ended = false)
    (hfree : q = .acquiring → 0 < s.permits) : (advance x s q).2.rank < q.rank := by
  cases q with
  | acquiring =>
      rw [advance]
      by_cases hdrops : x.drops = true
      · rw [if_pos hdrops]
        exact Nat.zero_lt_succ 4
      · rw [if_neg hdrops, if_pos (hfree rfl)]
        exact Nat.lt_succ_self 4
  | admitted =>
      rw [advance]
      rcases checkout_cases x.opens s with ⟨conn, -, hout⟩ | ⟨-, -, hout⟩ | ⟨-, -, hout⟩
      · rw [hout]
        exact Nat.lt_succ_self 3
      · rw [hout]
        exact Nat.lt_succ_self 3
      · rw [hout]
        exact Nat.zero_lt_succ 3
  | working conn =>
      rw [advance]
      by_cases hdrops : x.drops = true
      · rw [if_pos hdrops]
        exact Nat.lt_of_sub_eq_succ rfl
      · rw [if_neg hdrops]
        exact Nat.lt_succ_self 2
  | joining conn joined =>
      cases joined with
      | none =>
          rw [advance]
          by_cases hdrops : x.drops = true
          · rw [if_pos hdrops]
            exact Nat.zero_lt_succ 1
          · rw [if_neg hdrops]
            exact Nat.zero_lt_succ 1
      | some out =>
          rw [advance]
          by_cases hdrops : x.drops = true
          · rw [if_pos hdrops]
            exact Nat.zero_lt_succ 1
          · rw [if_neg hdrops]
            exact Nat.lt_succ_self 1
  | returning conn out => exact Nat.zero_lt_one
  | detached conn => exact Nat.zero_lt_one
  | answered lost answer => cases hended
  | dropped lost => cases hended

/-- Where a call is not over, one of the calls can go on, however its step goes. -/
theorem moves_of_waiting (h : Permitted p) (hsome : ∃ q ∈ p.procs, q.ended = false) :
    ∃ (i : Nat) (q : Call α), p.procs[i]? = some q ∧
      ∀ x, (advance x p.shared q).2.rank < q.rank := by
  by_cases hpast : ∃ q ∈ p.procs, q.ended = false ∧ q ≠ .acquiring
  · rcases hpast with ⟨q, hq, hended, hne⟩
    rcases List.getElem?_of_mem hq with ⟨i, hi⟩
    exact ⟨i, q, hi, fun x => rank_advance x p.shared hended fun heq => absurd heq hne⟩
  · -- All of them wait for a permit, so the permits are free.
    rcases hsome with ⟨q, hq, hended⟩
    rcases List.getElem?_of_mem hq with ⟨i, hi⟩
    have hnone : p.total Call.permit = 0 := by
      refine (Pool.total_eq_zero Call.permit).2 fun d hd => ?_
      by_contra hd'
      refine hpast ⟨d, hd, ?_, ?_⟩
      · cases d with
        | answered | dropped => exact absurd rfl hd'
        | _ => rfl
      · rintro rfl
        exact hd' rfl
    refine ⟨i, q, hi, fun x => rank_advance x p.shared hended fun _ => ?_⟩
    unfold Permitted at h
    rw [hnone, Nat.add_zero] at h
    rw [h]
    exact Nat.zero_lt_succ 3

/-- The calls that there are can all be brought to an end, however their steps go. -/
theorem exists_drain (x : Moment α) (p : Calls α) (h : Permitted p) :
    ∃ ticks : List (Turn Unit (Moment α)), (∀ t ∈ ticks, ∃ i, t = .tick i x) ∧
      ∀ q ∈ (Run.run step p ticks).procs, q.ended = true := by
  induction hn : p.total Call.rank using Nat.strong_induction_on generalizing p with
  | _ n ih =>
      by_cases hsome : ∃ q ∈ p.procs, q.ended = false
      · rcases moves_of_waiting h hsome with ⟨i, q, hq, hrank⟩
        have htotal := total_tick Call.rank hq x
        have hless : (step p (.tick i x)).total Call.rank < n := by
          have hx := hrank x
          have hle := Pool.le_total Call.rank (Pool.mem_of_getElem? hq)
          omega
        rcases ih _ hless (step p (.tick i x)) (permitted_step p _ h) rfl with
          ⟨ticks, hticks, hended⟩
        refine ⟨.tick i x :: ticks, fun t ht => ?_, hended⟩
        rcases List.mem_cons.1 ht with rfl | ht
        · exact ⟨i, rfl⟩
        · exact hticks t ht
      · refine ⟨[], fun t ht => absurd ht List.not_mem_nil, fun q hq => ?_⟩
        by_contra hended
        exact hsome ⟨q, hq, by simpa using hended⟩

/-- What holds in any interleaving of the calls of the database, with tasks that panic,
    connections that cannot be opened and callers that go away. -/
theorem pool_run (turns : List (Turn Unit (Moment α))) :
    -- Every connection that was opened is in one place, and every permit is accounted for.
    Placed (after turns) ∧ Permitted (after turns) ∧
    -- A connection whose task panicked, or whose caller went, is never used by another call.
    (∀ c late, Spent (after turns) c → c ∉ (after (turns ++ late)).shared.idle ∧
      ∀ q ∈ (after (turns ++ late)).procs, q.conn = some c → q.pooled = 0) ∧
    -- There are as many connections as the pool has and calls have lost, and the pool has at most
    -- one more for each call that has stood between its permit and its connection.
    (after turns).shared.opened = inPool (after turns) + (after turns).total Call.lost ∧
    (∀ w, Run.Throughout step (fun p => p.total Call.parting ≤ w) (Pool.idle openUri) turns →
      inPool (after turns) ≤ poolSize + w) ∧
    -- The calls can all end from here, and then the permits are all free.
    ∀ x, ∃ ticks : List (Turn Unit (Moment α)), (∀ t ∈ ticks, ∃ i, t = .tick i x) ∧
      (∀ q ∈ (after (turns ++ ticks)).procs, q.ended = true) ∧
      (after (turns ++ ticks)).shared.permits = poolSize := by
  have hplaced : ∀ turns : List (Turn Unit (Moment α)), Placed (after turns) := fun turns =>
    Run.run_inv placed_step _ turns placed_idle
  have hpermitted : ∀ turns : List (Turn Unit (Moment α)), Permitted (after turns) := fun turns =>
    Run.run_inv permitted_step _ turns rfl
  refine ⟨hplaced turns, hpermitted turns, fun c late hspent => ?_,
    Run.run_inv counted_step _ turns rfl, fun w hw => ?_, fun x => ?_⟩
  · refine spent_apart (hplaced (turns ++ late)) ?_
    rw [after, Run.run_append]
    exact Run.run_inv (fun p turn => spent_step p turn) _ late hspent
  · exact pooled_run _ turns rfl (Nat.le_add_right poolSize w) hw
  · rcases exists_drain x (after turns) (hpermitted turns) with ⟨ticks, hticks, hended⟩
    rw [after, ← Run.run_append] at hended
    refine ⟨ticks, hticks, hended, ?_⟩
    -- A call that is over holds no permit.
    have hnone : (after (turns ++ ticks)).total Call.permit = 0 := by
      refine (Pool.total_eq_zero Call.permit).2 fun q hq => ?_
      have hq' := hended q hq
      cases q with
      | answered | dropped => rfl
      | _ => cases hq'
    have hall := hpermitted (turns ++ ticks)
    unfold Permitted at hall
    omega

/-- Five calls: the last one comes in while the first has given up its permit and still has its
    connection. -/
def overtaken : List (Turn Unit (Moment Unit)) :=
  List.replicate 5 (.start ()) ++
    [0, 1, 2, 3, 0, 1, 2, 3, 0, 0, 4, 4].map fun i => .tick i ⟨some (.ok ()), true, false⟩

-- The pool then has one connection more than it has permits, as `pool_run` allows.
theorem pool_run_overtaken : inPool (after overtaken) = 5 ∧ inPool (after overtaken) ≤ 4 + 1 :=
  ⟨by decide, (pool_run overtaken).2.2.2.2.1 1 (by decide)⟩

end Turns

end Database

end PocketSkynet
