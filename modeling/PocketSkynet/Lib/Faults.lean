import Mathlib.Logic.Basic

/-!
# Statements that may Fail

A closure that is handed to a database runs one statement after another, and each of them
commits on its own. Where one fails the closure stops with its error, and what was written
before it stays written. A transaction is the exception: what fails inside it is undone.

A closure is told beforehand which of its statements fails, if any of them does, so that a
theorem about all closures and all failures is a theorem about all names. The rules below say
where a closure ends: with an answer, or with an error, and in which state. There is one rule
for each way a closure is put together.

## Main definitions

* `Closure`: A sequence of statements, given the one that fails.
* `Closure.statement`: One statement.
* `Closure.transaction`: Statements that are undone together.
* `Closure.Triple`: Where a closure ends that starts in a state with some property.

## Theorems

* `run_bind`: Two parts of a closure, one after the other.
* `triple_pure`, `triple_throw`, `triple_bind`, `triple_ite`: The rules of the language.
* `triple_statement`, `triple_execute`, `triple_query`: A statement fails and writes nothing, or
  does what it says.
* `triple_transaction`: What fails inside a transaction ends where it started.
-/

namespace PocketSkynet

/-- A sequence of statements on tables `σ`, which are named by `ν`. It is given the name of
    the one that fails. -/
abbrev Closure (ν σ ε : Type) := ReaderT (Option ν) (ExceptT ε (StateM σ))

namespace Closure

variable {ν σ ε α β : Type}

/-- Where a closure ends: its answer or its error, and the tables as it leaves them. -/
def run (m : Closure ν σ ε α) (failing : Option ν) (s : σ) : Except ε α × σ := m failing s

/-- A statement that reads and writes at once. If it is the one that fails it does nothing. -/
def statement [DecidableEq ν] (name : ν) (fault : ε) (f : σ → α × σ) : Closure ν σ ε α :=
  fun failing s => if failing = some name then (.error fault, s) else (.ok (f s).1, (f s).2)

/-- A statement that only reads. -/
def query [DecidableEq ν] (name : ν) (fault : ε) (f : σ → α) : Closure ν σ ε α :=
  statement name fault fun s => (f s, s)

/-- A statement that only writes. -/
def execute [DecidableEq ν] (name : ν) (fault : ε) (f : σ → σ) : Closure ν σ ε Unit :=
  statement name fault fun s => ((), f s)

/-- Run statements in a transaction: where one of them fails they are all undone. -/
def transaction (m : Closure ν σ ε α) : Closure ν σ ε α :=
  fun failing s =>
    match m.run failing s with
    | (.ok a, s') => (.ok a, s')
    | (.error e, _) => (.error e, s)

/-- A closure has ended well in a state with `Q`, or with an error in a state with `E`. -/
def Ends (Q : α → σ → Prop) (E : ε → σ → Prop) : Except ε α × σ → Prop
  | (.ok a, s) => Q a s
  | (.error e, s) => E e s

/-- Wherever a closure starts with `P`, it ends with `Q` or with `E`. -/
def Triple (failing : Option ν) (P : σ → Prop) (m : Closure ν σ ε α) (Q : α → σ → Prop)
    (E : ε → σ → Prop) : Prop :=
  ∀ s, P s → Ends Q E (m.run failing s)

/-- Where two parts of a closure end, one after the other. -/
theorem run_bind (m : Closure ν σ ε α) (k : α → Closure ν σ ε β) (failing : Option ν) (s : σ) :
    (m >>= k).run failing s =
      match m.run failing s with
      | (.ok a, s') => (k a).run failing s'
      | (.error e, s') => (.error e, s') := by
  change (ExceptT.bind (m failing) fun a => k a failing) s = _
  unfold run ExceptT.bind ExceptT.mk
  simp only [bind, StateT.bind]
  rcases m failing s with ⟨reply, s'⟩
  cases reply <;> rfl

section Rules

variable {failing : Option ν} {P P' : σ → Prop} {Q Q' : α → σ → Prop} {E E' : ε → σ → Prop}

theorem triple_pure {a : α} (h : ∀ s, P s → Q a s) :
    Triple failing P (pure a : Closure ν σ ε α) Q E := h

theorem triple_throw {e : ε} (h : ∀ s, P s → E e s) :
    Triple failing P (throw e : Closure ν σ ε α) Q E := h

/-- What the first part leaves, the second part starts from. An error of either is an error of
    both. -/
theorem triple_bind {m : Closure ν σ ε α} {k : α → Closure ν σ ε β} {R : α → σ → Prop}
    {Q : β → σ → Prop} (hm : Triple failing P m R E) (hk : ∀ a, Triple failing (R a) (k a) Q E) :
    Triple failing P (m >>= k) Q E := by
  intro s hs
  have hfirst := hm s hs
  rw [run_bind]
  rcases hr : m.run failing s with ⟨reply, s'⟩
  rw [hr] at hfirst
  cases reply with
  | ok a => exact hk a s' hfirst
  | error e => exact hfirst

theorem triple_ite {c : Prop} [Decidable c] {m m' : Closure ν σ ε α}
    (hm : c → Triple failing P m Q E) (hm' : ¬ c → Triple failing P m' Q E) :
    Triple failing P (if c then m else m') Q E := by
  by_cases h : c
  · rw [if_pos h]
    exact hm h
  · rw [if_neg h]
    exact hm' h

theorem triple_mono {m : Closure ν σ ε α} (h : Triple failing P m Q E) (hP : ∀ s, P' s → P s)
    (hQ : ∀ a s, Q a s → Q' a s) (hE : ∀ e s, E e s → E' e s) : Triple failing P' m Q' E' := by
  intro s hs
  have hends := h s (hP s hs)
  rcases hr : m.run failing s with ⟨reply, s'⟩
  rw [hr] at hends
  cases reply with
  | ok a => exact hQ a s' hends
  | error e => exact hE e s' hends

/-- A statement fails and has done nothing, or it does what it says. -/
theorem triple_statement [DecidableEq ν] {name : ν} {fault : ε} {f : σ → α × σ}
    (hfails : ∀ s, P s → failing = some name → E fault s)
    (hworks : ∀ s, P s → failing ≠ some name → Q (f s).1 (f s).2) :
    Triple failing P (statement name fault f) Q E := by
  intro s hs
  unfold run statement
  by_cases h : failing = some name
  · rw [if_pos h]
    exact hfails s hs h
  · rw [if_neg h]
    exact hworks s hs h

/-- From one state a statement that writes leads to one state, or fails and stays there. -/
theorem triple_execute [DecidableEq ν] {name : ν} {fault : ε} {f : σ → σ} {s : σ}
    (hfails : failing = some name → E fault s) :
    Triple failing (fun s' => s' = s) (execute name fault f) (fun _ s' => s' = f s) E := by
  refine triple_statement (fun s' hs hname => ?_) fun s' hs _ => congrArg f hs
  rw [hs]
  exact hfails hname

/-- A statement that reads leads back to where it started, with what it has read. -/
theorem triple_query [DecidableEq ν] {name : ν} {fault : ε} {f : σ → α} {s : σ}
    (hfails : failing = some name → E fault s) :
    Triple failing (fun s' => s' = s) (query name fault f) (fun a s' => a = f s ∧ s' = s) E := by
  refine triple_statement (fun s' hs hname => ?_) fun s' hs _ => ⟨congrArg f hs, hs⟩
  rw [hs]
  exact hfails hname

/-- What fails inside a transaction ends where the transaction started. -/
theorem triple_transaction {m : Closure ν σ ε α}
    (h : ∀ s₀, P s₀ → Triple failing (fun s => s = s₀) m Q fun e _ => E e s₀) :
    Triple failing P (transaction m) Q E := by
  intro s hs
  have hends := h s hs s rfl
  unfold run transaction
  rcases hr : m.run failing s with ⟨reply, s'⟩
  rw [hr] at hends
  cases reply with
  | ok a => exact hends
  | error e => exact hends

end Rules

end Closure

end PocketSkynet
