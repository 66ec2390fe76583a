import Mathlib.Algebra.Ring.Nat
import PocketSkynet.Lib.Run

/-!
# Interleaved Processes over Shared State

Any number of sequential processes take turns on one shared state. A process is
a value that says where it stands; `advance` takes its next atomic step, which
may read and change the shared state. A scheduler picks who goes next: a turn
starts a process for a call, or ticks one that is running. Every list of turns
is a run, so what holds along every run holds of every interleaving.

The invariant rule is the one for interference freedom. A global invariant and
an assertion about each process hold throughout when the process that ticks
keeps the global invariant and establishes its own next assertion, and does not
falsify the assertion of any other process. Where that is so only because the two
processes have different roles, as only one of them holds a lock, or as each has a name of
its own, the roles are a relation between any two of the processes (`Coheres`).

A step may also fail, or be the last of a process that is cut off. `Chance` says which,
and `Chance.meet` is where the step then leads.

Some global facts are about how many processes stand somewhere, or about what all
of them hold together. `total` adds a number up over the processes, and a tick
changes it by what the process that moves gives up and takes on.

A system can be watched without being disturbed: `map_step` says that a mapping
of states and processes that commutes with `advance` carries runs to runs, so a
system with history added runs exactly as the system without it.

## Main definitions

* `Chance`, `Chance.meet`: What a step meets, and where it leads.
* `Turn`: What the scheduler does next.
* `Pool`: The shared state and the processes.
* `Pool.step`: The pool after a turn.
* `Pool.Holds`: A global invariant with an assertion about each process.
* `Pool.Coheres`: The same, with a relation between any two processes.
* `Pool.total`: A number added up over the processes.

## Theorems

* `mem_tick`, `mem_start`: Where the processes after a turn come from.
* `mem_set_of_ne`, `exists_mem_set`: The processes that do not move are still there.
* `holds_step`: The interference freedom rule.
* `Coheres.start`, `Coheres.tick`: The same rule, where the others are set apart.
* `total_start`, `total_tick`: What a turn does to a total.
* `total_eq_zero`, `le_total`: What a total says about each process.
* `map_step`, `map_run`: Runs of a system with history are runs of the system.
-/

namespace PocketSkynet

/-- What a step meets. It goes well; or it fails, has done nothing, and the process is
    told; or the process is cut off at it, so that the step is done and nothing follows. -/
inductive Chance where
  | ok
  | fails
  | cutOff
deriving DecidableEq, Repr

/-- Where a step leads that goes `onward`, with what becomes of a process that fails and
    of one that is cut off. -/
def Chance.meet {σ π : Type*} (x : Chance) (s : σ) (onward : σ × π) (failed gone : π) : σ × π :=
  match x with
  | ok => onward
  | fails => (s, failed)
  | cutOff => (onward.1, gone)

section Chances

variable {σ π : Type*} (s : σ) (onward : σ × π) (failed gone : π)

@[simp] theorem Chance.meet_ok : ok.meet s onward failed gone = onward := rfl

@[simp] theorem Chance.meet_fails : fails.meet s onward failed gone = (s, failed) := rfl

@[simp] theorem Chance.meet_cutOff : cutOff.meet s onward failed gone = (onward.1, gone) := rfl

-- What holds however a step goes holds of where it leads.
theorem Chance.meet_of {motive : σ × π → Prop} {s : σ} {onward : σ × π} {failed gone : π}
    (x : Chance) (hok : motive onward) (hfails : motive (s, failed))
    (hcutOff : motive (onward.1, gone)) :
    motive (x.meet s onward failed gone) := by
  cases x with
  | ok => exact hok
  | fails => exact hfails
  | cutOff => exact hcutOff

end Chances

/-- What the scheduler does next: admit a call, or let the `i`-th process take
    its next step with some input. -/
inductive Turn (κ ι : Type*) where
  | start (call : κ)
  | tick (i : Nat) (input : ι)
deriving DecidableEq, Repr

/-- The shared state and the processes, in the order they were started. -/
structure Pool (σ π : Type*) where
  shared : σ
  procs : List π

namespace Pool

variable {σ π κ ι : Type*} (enter : κ → π) (advance : ι → σ → π → σ × π)

/-- The pool after a turn. A tick of nobody changes nothing. -/
def step (p : Pool σ π) : Turn κ ι → Pool σ π
  | .start call => { p with procs := p.procs ++ [enter call] }
  | .tick i x =>
      match p.procs[i]? with
      | some c => ⟨(advance x p.shared c).1, p.procs.set i (advance x p.shared c).2⟩
      | none => p

/-- The pool before anything has been started. -/
def idle (s : σ) : Pool σ π := ⟨s, []⟩

/-- The shared state satisfies `I`, and each process its assertion `J`. -/
def Holds (I : σ → Prop) (J : σ → π → Prop) (p : Pool σ π) : Prop :=
  I p.shared ∧ ∀ c ∈ p.procs, J p.shared c

variable {enter advance}

theorem step_tick {p : Pool σ π} {i : Nat} {x : ι} {c : π} (h : p.procs[i]? = some c) :
    p.step enter advance (.tick i x) =
      ⟨(advance x p.shared c).1, p.procs.set i (advance x p.shared c).2⟩ := by
  simp [step, h]

theorem step_tick_none {p : Pool σ π} {i : Nat} {x : ι} (h : p.procs[i]? = none) :
    p.step enter advance (.tick i x) = p := by
  simp [step, h]

-- The process that was started last moves, and nobody else.
theorem step_tick_last (s : σ) (cs : List π) (c : π) (x : ι) :
    Pool.step enter advance ⟨s, cs ++ [c]⟩ (.tick cs.length x) =
      ⟨(advance x s c).1, cs ++ [(advance x s c).2]⟩ := by
  rw [step_tick (c := c) (by simp)]
  simp

/-- After a tick, a process is the one that moved or one that was there before. -/
theorem mem_tick {p : Pool σ π} {i : Nat} {x : ι} {c d : π} (h : p.procs[i]? = some c)
    (hd : d ∈ (p.step enter advance (.tick i x)).procs) :
    d = (advance x p.shared c).2 ∨ d ∈ p.procs := by
  rw [step_tick h] at hd
  exact (List.mem_or_eq_of_mem_set hd).symm

theorem mem_start {p : Pool σ π} {call : κ} {d : π}
    (hd : d ∈ (p.step enter advance (.start call)).procs) : d ∈ p.procs ∨ d = enter call := by
  simpa [step] using hd

theorem mem_of_getElem? {p : Pool σ π} {i : Nat} {c : π} (h : p.procs[i]? = some c) :
    c ∈ p.procs := List.mem_of_getElem? h

-- A process that does not move stays.
theorem mem_set_of_ne {cs : List π} {i j : Nat} {c' d : π} (hj : cs[j]? = some d) (hne : j ≠ i) :
    d ∈ cs.set i c' := by
  refine List.mem_of_getElem? (i := j) ?_
  rw [List.getElem?_set_ne hne.symm]
  exact hj

/-- A process that something holds of is still there after another one has moved. -/
theorem exists_mem_set {P Q : π → Prop} {cs : List π} {i : Nat} {c c' : π}
    (hc : cs[i]? = some c) (hmoved : P c → Q c') (hrest : ∀ d, P d → Q d)
    (h : ∃ d ∈ cs, P d) : ∃ d ∈ cs.set i c', Q d := by
  rcases h with ⟨d, hd, hP⟩
  rcases List.getElem?_of_mem hd with ⟨j, hj⟩
  by_cases hji : j = i
  · -- It is the one that moves.
    subst hji
    rw [hc] at hj
    cases hj
    exact ⟨c', List.mem_set (List.getElem?_eq_some_iff.1 hc).1 c', hmoved hP⟩
  · exact ⟨d, mem_set_of_ne hj hji, hrest d hP⟩

section Interference

variable {I : σ → Prop} {J : σ → π → Prop}

theorem holds_idle {s : σ} (h : I s) : Holds I J (idle s) :=
  ⟨h, fun _ hc => absurd hc List.not_mem_nil⟩

/-- The interference freedom rule, one step. -/
theorem holds_step (arrives : ∀ s call, I s → J s (enter call))
    (moves : ∀ x s c, I s → J s c → I (advance x s c).1 ∧ J (advance x s c).1 (advance x s c).2)
    (spares : ∀ x s c d, I s → J s c → J s d → J (advance x s c).1 d)
    (p : Pool σ π) (e : Turn κ ι) (h : p.Holds I J) : (p.step enter advance e).Holds I J := by
  cases e with
  | start call =>
      refine ⟨h.1, fun d hd => ?_⟩
      rcases mem_start hd with hd | rfl
      · exact h.2 d hd
      · exact arrives p.shared call h.1
  | tick i x =>
      cases hc : p.procs[i]? with
      | none =>
          rw [step_tick_none hc]
          exact h
      | some c =>
          have hJ : J p.shared c := h.2 c (mem_of_getElem? hc)
          have hmove := moves x p.shared c h.1 hJ
          rw [step_tick hc]
          refine ⟨hmove.1, fun d hd => ?_⟩
          rcases List.mem_or_eq_of_mem_set hd with hd | rfl
          · exact spares x p.shared c d h.1 hJ (h.2 d hd)
          · exact hmove.2

end Interference

section Apart

variable {I : σ → Prop} {J : σ → π → Prop} {K : π → π → Prop}

/-- The shared state satisfies `I`, each process its assertion `J`, and any two of them
    are related by `K`. -/
structure Coheres (I : σ → Prop) (J : σ → π → Prop) (K : π → π → Prop) (p : Pool σ π) :
    Prop where
  shared : I p.shared
  each : ∀ c ∈ p.procs, J p.shared c
  apart : p.procs.Pairwise K

theorem coheres_idle {s : σ} (h : I s) : Coheres I J K (idle s) :=
  ⟨h, fun _ hc => absurd hc List.not_mem_nil, List.Pairwise.nil⟩

-- What is left where one entry is replaced stands apart from the entry that was there.
theorem mem_set_apart {cs : List π} {i : Nat} {c c' d : π} (hsymm : ∀ a b, K a b → K b a)
    (hc : cs[i]? = some c) (hcs : cs.Pairwise K) (hd : d ∈ cs.set i c') :
    d = c' ∨ d ∈ cs ∧ K c d := by
  induction cs generalizing i with
  | nil => cases hc
  | cons b cs ih =>
      rcases List.pairwise_cons.1 hcs with ⟨hb, hrest⟩
      cases i with
      | zero =>
          cases hc
          rcases List.mem_cons.1 hd with hd | hd
          · exact Or.inl hd
          · exact Or.inr ⟨List.mem_cons_of_mem _ hd, hb d hd⟩
      | succ i =>
          rcases List.mem_cons.1 hd with hd | hd
          · rw [hd]
            exact Or.inr ⟨List.mem_cons_self, hsymm b c (hb c (List.mem_of_getElem? hc))⟩
          · rcases ih hc hrest hd with hd | ⟨hd, hK⟩
            · exact Or.inl hd
            · exact Or.inr ⟨List.mem_cons_of_mem b hd, hK⟩

-- An entry can be replaced by one that is related to all the others.
theorem pairwise_set {cs : List π} {i : Nat} {c c' : π} (hsymm : ∀ a b, K a b → K b a)
    (hc : cs[i]? = some c) (hcs : cs.Pairwise K) (hnew : ∀ d ∈ cs, K c d → K c' d) :
    (cs.set i c').Pairwise K := by
  induction cs generalizing i with
  | nil => cases hc
  | cons b cs ih =>
      rcases List.pairwise_cons.1 hcs with ⟨hb, hrest⟩
      cases i with
      | zero =>
          cases hc
          exact List.pairwise_cons.2
            ⟨fun d hd => hnew d (List.mem_cons_of_mem _ hd) (hb d hd), hrest⟩
      | succ i =>
          have hbc : K c b := hsymm b c (hb c (List.mem_of_getElem? hc))
          refine List.pairwise_cons.2 ⟨fun d hd => ?_,
            ih hc hrest fun d hd => hnew d (List.mem_cons_of_mem b hd)⟩
          rcases List.mem_or_eq_of_mem_set hd with hd | rfl
          · exact hb d hd
          · exact hsymm _ _ (hnew b List.mem_cons_self hbc)

/-- A process that comes in has an assertion, and is set apart from those there are. -/
theorem Coheres.start {p : Pool σ π} {call : κ} (h : p.Coheres I J K)
    (hJ : J p.shared (enter call)) (hK : ∀ d ∈ p.procs, K d (enter call)) :
    (p.step enter advance (.start call)).Coheres I J K := by
  refine ⟨h.shared, fun d hd => ?_, ?_⟩
  · rcases mem_start hd with hd | rfl
    · exact h.each d hd
    · exact hJ
  · refine List.pairwise_append.2 ⟨h.apart, List.pairwise_singleton _ _, fun d hd e he => ?_⟩
    rw [List.mem_singleton.1 he]
    exact hK d hd

/-- A process that moves keeps the global invariant and has its own next assertion. The
    processes that are set apart from it keep theirs, and stay apart. -/
theorem Coheres.tick {p : Pool σ π} {i : Nat} {x : ι} {c : π} (h : p.Coheres I J K)
    (hsymm : ∀ a b, K a b → K b a) (hc : p.procs[i]? = some c)
    (hI : I (advance x p.shared c).1) (hJ : J (advance x p.shared c).1 (advance x p.shared c).2)
    (hothers : ∀ d ∈ p.procs, K c d →
      J (advance x p.shared c).1 d ∧ K (advance x p.shared c).2 d) :
    (p.step enter advance (.tick i x)).Coheres I J K := by
  rw [step_tick hc]
  refine ⟨hI, fun d hd => ?_, pairwise_set hsymm hc h.apart fun d hd hK => (hothers d hd hK).2⟩
  rcases mem_set_apart hsymm hc h.apart hd with rfl | ⟨hd, hK⟩
  · exact hJ
  · exact (hothers d hd hK).1

end Apart

section Totals

variable (w : π → Nat)

/-- The weight of the processes together. -/
def total (p : Pool σ π) : Nat := (p.procs.map w).sum

@[simp] theorem total_idle (s : σ) : (idle s : Pool σ π).total w = 0 := rfl

theorem total_start (p : Pool σ π) (call : κ) :
    (p.step enter advance (.start call)).total w = p.total w + w (enter call) := by
  simp [total, step]

-- Replacing one entry trades its weight for the new one's.
theorem sum_map_set (cs : List π) (i : Nat) (c d : π) (h : cs[i]? = some c) :
    ((cs.set i d).map w).sum + w c = (cs.map w).sum + w d := by
  induction cs generalizing i with
  | nil => simp at h
  | cons b cs ih =>
      cases i with
      | zero =>
          have hb : b = c := by simpa using h
          simp only [hb, List.set_cons_zero, List.map_cons, List.sum_cons]
          omega
      | succ i =>
          have hi := ih i (by simpa using h)
          simp only [List.set_cons_succ, List.map_cons, List.sum_cons]
          omega

theorem total_tick {p : Pool σ π} {i : Nat} {x : ι} {c : π} (h : p.procs[i]? = some c) :
    (p.step enter advance (.tick i x)).total w + w c =
      p.total w + w (advance x p.shared c).2 := by
  rw [step_tick h]
  exact sum_map_set w p.procs i c _ h

theorem le_total {p : Pool σ π} {c : π} (h : c ∈ p.procs) : w c ≤ p.total w := by
  rcases List.append_of_mem h with ⟨before, after, hprocs⟩
  simp only [total, hprocs, List.map_append, List.map_cons, List.sum_append_nat, List.sum_cons]
  omega

theorem le_sum_map {cs : List π} {i : Nat} {c : π} (h : cs[i]? = some c) :
    w c ≤ (cs.map w).sum :=
  le_total (σ := Unit) w (p := ⟨(), cs⟩) (List.mem_of_getElem? h)

-- Two entries weigh no more than all of them.
theorem add_le_sum_map {cs : List π} {i j : Nat} {c d : π} (hne : i ≠ j)
    (hi : cs[i]? = some c) (hj : cs[j]? = some d) : w c + w d ≤ (cs.map w).sum := by
  induction cs generalizing i j with
  | nil => cases hi
  | cons b cs ih =>
      rw [List.map_cons, List.sum_cons]
      cases i with
      | zero =>
          cases j with
          | zero => exact absurd rfl hne
          | succ j =>
              cases hi
              have hrest := @le_sum_map _ w cs j _ hj
              omega
      | succ i =>
          cases j with
          | zero =>
              cases hj
              have hrest := @le_sum_map _ w cs i _ hi
              omega
          | succ j =>
              have hrest := ih (i := i) (j := j) (by omega) hi hj
              omega

theorem add_le_total {p : Pool σ π} {i j : Nat} {c d : π} (hne : i ≠ j)
    (hi : p.procs[i]? = some c) (hj : p.procs[j]? = some d) : w c + w d ≤ p.total w :=
  add_le_sum_map w hne hi hj

theorem total_eq_zero {p : Pool σ π} : p.total w = 0 ↔ ∀ c ∈ p.procs, w c = 0 := by
  rw [total, List.sum_eq_zero_iff_forall_eq_nat]
  simp

end Totals

section Watching

variable {σ' π' : Type*} {enter' : κ → π'} {advance' : ι → σ' → π' → σ' × π'}
  {f : σ' → σ} {g : π' → π}

/-- Map the shared state and each process. -/
def map (f : σ' → σ) (g : π' → π) (p : Pool σ' π') : Pool σ π := ⟨f p.shared, p.procs.map g⟩

/-- What commutes with entering and advancing commutes with every turn. -/
theorem map_step (henter : ∀ call, g (enter' call) = enter call)
    (hadvance : ∀ x s c, Prod.map f g (advance' x s c) = advance x (f s) (g c))
    (p : Pool σ' π') (e : Turn κ ι) :
    (p.step enter' advance' e).map f g = (p.map f g).step enter advance e := by
  cases e with
  | start call => simp [step, map, henter]
  | tick i x =>
      cases hc : p.procs[i]? with
      | none =>
          have hnone : (p.map f g).procs[i]? = none := by simp [map, hc]
          rw [step_tick_none hc, step_tick_none hnone]
      | some c =>
          have hsome : (p.map f g).procs[i]? = some (g c) := by simp [map, hc]
          rw [step_tick hc, step_tick hsome]
          have hmove := hadvance x p.shared c
          simp only [map, ← hmove, Prod.map, List.map_set]

theorem map_run (henter : ∀ call, g (enter' call) = enter call)
    (hadvance : ∀ x s c, Prod.map f g (advance' x s c) = advance x (f s) (g c))
    (p : Pool σ' π') (es : List (Turn κ ι)) :
    (Run.run (step enter' advance') p es).map f g =
      Run.run (step enter advance) (p.map f g) es := by
  induction es generalizing p with
  | nil => rfl
  | cons e es ih => rw [Run.run_cons, Run.run_cons, ih, map_step henter hadvance]

end Watching

end Pool

end PocketSkynet
