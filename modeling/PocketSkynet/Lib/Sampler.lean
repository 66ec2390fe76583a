import Mathlib.Algebra.BigOperators.Option
import Mathlib.Algebra.BigOperators.Fin
import Mathlib.Algebra.Order.BigOperators.Group.Finset
import Mathlib.Data.Fintype.BigOperators

/-!
# Programs That Draw Numbers

A program that asks for numbers below given bounds and ends with a result. It is run on a tape
of symbols, from which a drawing routine reads as many as it needs, some of them in vain. If the
routine gives every number to as many symbols as any other, and the bounds do not depend on what
was drawn before, then the tapes that lead to a result are counted by the ways in which the
program can draw it.

## Main definitions

* `Sampler`: A program that draws numbers.
* `Sampler.run`, `Sampler.ways`: The program on a tape, and the ways to a result.
* `Sampler.Asks`: The bounds the program asks for, one after the other.
* `tapes`: How many tapes of a length have a property.
* `EvenDraw`: Every number has the same share of the symbols.

## Theorems

* `ways_pos_of_run`: What a program ends with can be drawn.
* `run_of_enough`: It ends if the tape holds enough symbols that are always accepted.
* `tapes_run`: The tapes that lead to a result are as many as its ways, times a weight.
* `weight_pos`: The weight of a tape with one symbol for every number is positive.
-/

namespace PocketSkynet

/-- A program that draws numbers below bounds. -/
inductive Sampler (α : Type) where
  | done (a : α)
  | draw (n : ℕ) (next : Fin n → Sampler α)

namespace Sampler

variable {α β γ ε : Type}

/-- One program behind the other. -/
def andThen : Sampler α → (α → Sampler γ) → Sampler γ
  | done a, f => f a
  | draw n next, f => draw n fun v => (next v).andThen f

/-- The program on a tape, with a routine that draws a number. -/
def run (routine : (n : ℕ) → List β → Except ε (Fin n × List β)) :
    Sampler α → List β → Except ε (α × List β)
  | done a, tape => .ok (a, tape)
  | draw n next, tape =>
      match routine n tape with
      | .ok (v, rest) => (next v).run routine rest
      | .error e => .error e

/-- In how many ways the program can draw a result. -/
def ways [DecidableEq α] : Sampler α → α → ℕ
  | done a, b => if a = b then 1 else 0
  | draw _ next, b => ∑ v, (next v).ways b

/-- The program asks for numbers below these bounds, whatever it draws. -/
def Asks : List ℕ → Sampler α → Prop
  | [], done _ => True
  | m :: bounds, draw n next => m = n ∧ ∀ v, Asks bounds (next v)
  | _, _ => False

/-- What a program ends with can be drawn. -/
theorem ways_pos_of_run [DecidableEq α]
    {routine : (n : ℕ) → List β → Except ε (Fin n × List β)} {p : Sampler α} {tape rest : List β}
    {a : α} (h : p.run routine tape = .ok (a, rest)) : 0 < p.ways a := by
  induction p generalizing tape with
  | done b =>
      cases h
      rw [ways, if_pos rfl]
      exact Nat.one_pos
  | draw n next ih =>
      rw [run] at h
      split at h
      · rename_i v after _
        have hle : (next v).ways a ≤ ∑ v, (next v).ways a :=
          Finset.single_le_sum (f := fun v => (next v).ways a) (fun _ _ => Nat.zero_le _)
            (Finset.mem_univ v)
        exact Nat.lt_of_lt_of_le (ih v h) hle
      · cases h

/-- The program ends if the tape holds a symbol for every number that is never passed over. -/
theorem run_of_enough {routine : (n : ℕ) → List β → Except ε (Fin n × List β)}
    {bounds : List ℕ} {good : β → Bool}
    (hroutine : ∀ n ∈ bounds, ∀ tape, 0 < tape.countP good → ∃ v rest,
      routine n tape = .ok (v, rest) ∧ tape.countP good ≤ rest.countP good + 1)
    {p : Sampler α} (hasks : p.Asks bounds) {tape : List β}
    (htape : bounds.length ≤ tape.countP good) :
    ∃ a rest, p.run routine tape = .ok (a, rest) := by
  induction p generalizing bounds tape with
  | done a => exact ⟨a, tape, rfl⟩
  | draw n next ih =>
      cases bounds with
      | nil => exact hasks.elim
      | cons m bounds =>
          rcases hasks with ⟨rfl, hnext⟩
          rw [List.length_cons] at htape
          rcases hroutine m List.mem_cons_self tape (by omega) with ⟨v, rest, hv, hrest⟩
          have henough : bounds.length ≤ rest.countP good := by omega
          rcases ih v (fun n hn => hroutine n (List.mem_cons_of_mem _ hn)) (hnext v)
            henough with ⟨a, after, hrun⟩
          exact ⟨a, after, by rw [Sampler.run, hv]; exact hrun⟩

end Sampler

variable {α β ε : Type} [Fintype β]

open Classical in
/-- How many tapes of a length have a property. -/
noncomputable def tapes (N : ℕ) (p : List β → Prop) : ℕ :=
  (Finset.univ.filter fun t : Fin N → β => p (List.ofFn t)).card

theorem tapes_zero (p : List β → Prop) [Decidable (p [])] :
    tapes 0 p = if p [] then 1 else 0 := by
  rw [tapes, Finset.card_filter, Fintype.sum_unique]
  have hnil : List.ofFn (default : Fin 0 → β) = [] := List.ofFn_zero
  by_cases hp : p []
  · rw [if_pos hp, if_pos (hnil ▸ hp)]
  · rw [if_neg hp, if_neg (hnil ▸ hp)]

theorem tapes_succ (N : ℕ) (p : List β → Prop) :
    tapes (N + 1) p = ∑ b, tapes N fun rest => p (b :: rest) := by
  classical
  simp only [tapes, Finset.card_filter]
  rw [← (Fin.consEquiv fun _ => β).sum_comp, Fintype.sum_prod_type]
  refine Finset.sum_congr rfl fun b _ => Finset.sum_congr rfl fun t _ => ?_
  simp [Fin.consEquiv, List.ofFn_succ]

theorem tapes_congr {N : ℕ} {p q : List β → Prop} (h : ∀ tape, p tape ↔ q tape) :
    tapes N p = tapes N q := by
  rw [funext fun tape => propext (h tape)]

/-- A routine gives every number below a bound to as many symbols, and passes over the others. -/
structure EvenDraw {n : ℕ} (routine : List β → Except ε (Fin n × List β)) (share spill : ℕ) :
    Prop where
  stops : ∃ e, routine [] = .error e
  reads : ∃ value : β → Option (Fin n),
    (∀ b rest, routine (b :: rest) =
      match value b with
      | some v => .ok (v, rest)
      | none => routine rest) ∧
    (∀ v, (Finset.univ.filter fun b => value b = some v).card = share) ∧
    (Finset.univ.filter fun b => value b = none).card = spill

/-- The weight of the tapes of a length for a program that draws one more number. -/
def spread (share spill : ℕ) (weight : ℕ → ℕ) : ℕ → ℕ
  | 0 => 0
  | N + 1 => share * weight N + spill * spread share spill weight N

/-- The weight of the tapes of a length for a program with these bounds. -/
def weight (symbols : ℕ) (share spill : ℕ → ℕ) : List ℕ → ℕ → ℕ
  | [] => fun N => symbols ^ N
  | n :: bounds => spread (share n) (spill n) (weight symbols share spill bounds)

variable [DecidableEq α] {routine : (n : ℕ) → List β → Except ε (Fin n × List β)}
  {share spill : ℕ → ℕ}

-- A sum over symbols goes by the number that each stands for.
theorem sum_value {n : ℕ} {value : β → Option (Fin n)} {q r : ℕ}
    (hshare : ∀ v, (Finset.univ.filter fun b => value b = some v).card = q)
    (hspill : (Finset.univ.filter fun b => value b = none).card = r) (f : Option (Fin n) → ℕ) :
    ∑ b, f (value b) = q * ∑ v, f (some v) + r * f none := by
  rw [← Finset.sum_fiberwise Finset.univ value]
  have hone : ∀ o, ∑ b with value b = o, f (value b) =
      (Finset.univ.filter fun b => value b = o).card * f o := by
    intro o
    rw [Finset.sum_congr rfl fun b hb => by rw [(Finset.mem_filter.1 hb).2], Finset.sum_const,
      smul_eq_mul]
  simp only [hone]
  rw [Fintype.sum_option, hspill, Finset.mul_sum, Nat.add_comm]
  simp only [hshare]

/-- The tapes that lead to a result are as many as its ways, times a weight that depends on the
    bounds only. -/
theorem tapes_run {bounds : List ℕ}
    (hroutine : ∀ n ∈ bounds, EvenDraw (routine n) (share n) (spill n)) {p : Sampler α}
    (hasks : p.Asks bounds) (N : ℕ) (a : α) :
    tapes N (fun tape => ∃ rest, p.run routine tape = .ok (a, rest)) =
      p.ways a * weight (Fintype.card β) share spill bounds N := by
  induction p generalizing bounds N with
  | done b =>
      cases bounds with
      | cons m bounds => exact hasks.elim
      | nil =>
          by_cases hab : b = a
          · have hall : ∀ tape : List β, (∃ rest, (Sampler.done b).run routine tape =
                .ok (a, rest)) ↔ True := fun tape => iff_true_intro ⟨tape, by rw [hab]; rfl⟩
            rw [tapes_congr hall, Sampler.ways, if_pos hab, tapes]
            simp [weight]
          · have hnone : ∀ tape : List β, (∃ rest, (Sampler.done b).run routine tape =
                .ok (a, rest)) ↔ False := by
              refine fun tape => iff_false_intro ?_
              rintro ⟨rest, hrun⟩
              cases hrun
              exact hab rfl
            rw [tapes_congr hnone, Sampler.ways, if_neg hab, tapes]
            simp
  | draw n next ih =>
      cases bounds with
      | nil => exact hasks.elim
      | cons m bounds =>
          rcases hasks with ⟨rfl, hnext⟩
          rcases hroutine m List.mem_cons_self with ⟨⟨e, hstops⟩, value, hreads, hshare, hspill⟩
          rw [weight]
          -- The tape gets shorter with every symbol, whether it is accepted or not.
          induction N with
          | zero =>
              classical
              rw [tapes_zero, spread, Nat.mul_zero, if_neg]
              rintro ⟨rest, hrun⟩
              rw [Sampler.run, hstops] at hrun
              cases hrun
          | succ N ihN =>
              have hsymbol : ∀ b, tapes N (fun tape => ∃ rest,
                  (Sampler.draw m next).run routine (b :: tape) = .ok (a, rest)) =
                  match value b with
                  | some v => (next v).ways a * weight (Fintype.card β) share spill bounds N
                  | none => (Sampler.draw m next).ways a * spread (share m) (spill m)
                      (weight (Fintype.card β) share spill bounds) N := by
                intro b
                cases hvalue : value b with
                | some v =>
                    have hrest := ih v (fun n hn => hroutine n (List.mem_cons_of_mem _ hn))
                      (hnext v) N
                    refine (tapes_congr fun tape => ?_).trans hrest
                    rw [Sampler.run, hreads, hvalue]
                | none =>
                    refine (tapes_congr fun tape => ?_).trans ihN
                    rw [Sampler.run, Sampler.run, hreads, hvalue]
              rw [tapes_succ, Finset.sum_congr rfl fun b _ => hsymbol b,
                sum_value hshare hspill fun o =>
                  match o with
                  | some v => (next v).ways a * weight (Fintype.card β) share spill bounds N
                  | none => (Sampler.draw m next).ways a * spread (share m) (spill m)
                      (weight (Fintype.card β) share spill bounds) N]
              simp only [spread, Sampler.ways, ← Finset.sum_mul]
              rw [Nat.mul_add, Nat.mul_left_comm, Nat.mul_left_comm (spill m)]

/-- The tapes with one symbol for every number have a positive weight, if every number has a
    share. -/
theorem weight_pos {symbols : ℕ} {bounds : List ℕ} (hshare : ∀ n ∈ bounds, 0 < share n) :
    0 < weight symbols share spill bounds bounds.length := by
  induction bounds with
  | nil => exact Nat.one_pos
  | cons n bounds ih =>
      have hone := hshare n List.mem_cons_self
      have hrest := ih fun m hm => hshare m (List.mem_cons_of_mem _ hm)
      exact Nat.add_pos_left (Nat.mul_pos hone hrest) _

end PocketSkynet
