import Mathlib.Data.List.Basic

/-!
# Runs of a Total Step Function

A system here is a state type, an input type and a total function from one
state and one input to the next state. A refused input is an input that leaves
the state where it was, so a run is a fold of the step over a list of inputs
and every list of inputs is a run.

Two predicates on runs carry the development. `Throughout` says that a property
of states holds of every state the run passes through, its first one included.
`Along` says that a condition on a state and an input holds of every step the
run takes, judged in the state that step starts from.

The rules below turn facts about one step into facts about runs. `along_inv`
and `throughout_of_along` are the invariant rule. `throughout_iff_along` is its
sharp form: when the condition is also necessary for a step to keep the
property, the runs that keep the property throughout are exactly the ones that
meet the condition along the way. `along_congr` exchanges one condition on
steps for another that agrees with it under an invariant.

## Main definitions

* `run`: The state a list of inputs leads to.
* `Along`: A condition met by every step of a run.
* `Throughout`: A property of every state of a run.

## Theorems

* `along_append`, `throughout_append`: Both predicates split at any point.
* `along_inv`: An invariant kept by every allowed step holds at the end.
* `run_inv`: The same for an invariant every step keeps.
* `along_congr`: Conditions that agree under an invariant agree along runs.
* `along_of_inv`: What a condition entails under an invariant is met with it.
* `throughout_of_along`: An invariant kept by every allowed step holds
  throughout.
* `throughout_iff_along`, `throughout_iff_along_of`: The runs that keep a
  property, characterised.
* `throughout_iff_prefix`: Throughout a run is after each of its prefixes.
-/

namespace PocketSkynet

namespace Run

variable {σ ι : Type*}

/-- The state reached from `s` by feeding the inputs in order. -/
def run (step : σ → ι → σ) (s : σ) (is : List ι) : σ := is.foldl step s

/-- Every step of the run meets `C` in the state it starts from. -/
def Along (step : σ → ι → σ) (C : σ → ι → Prop) : σ → List ι → Prop
  | _, [] => True
  | s, i :: is => C s i ∧ Along step C (step s i) is

/-- Every state of the run has `P`, the first one included. -/
def Throughout (step : σ → ι → σ) (P : σ → Prop) : σ → List ι → Prop
  | s, [] => P s
  | s, i :: is => P s ∧ Throughout step P (step s i) is

@[simp] theorem run_nil (step : σ → ι → σ) (s : σ) : run step s [] = s := rfl

@[simp] theorem run_cons (step : σ → ι → σ) (s : σ) (i : ι) (is : List ι) :
    run step s (i :: is) = run step (step s i) is := rfl

@[simp] theorem run_append (step : σ → ι → σ) (s : σ) (is js : List ι) :
    run step s (is ++ js) = run step (run step s is) js := List.foldl_append

@[simp] theorem along_nil (step : σ → ι → σ) (C : σ → ι → Prop) (s : σ) :
    Along step C s [] := trivial

@[simp] theorem along_cons (step : σ → ι → σ) (C : σ → ι → Prop) (s : σ) (i : ι)
    (is : List ι) : Along step C s (i :: is) ↔ C s i ∧ Along step C (step s i) is := Iff.rfl

@[simp] theorem throughout_nil (step : σ → ι → σ) (P : σ → Prop) (s : σ) :
    Throughout step P s [] ↔ P s := Iff.rfl

@[simp] theorem throughout_cons (step : σ → ι → σ) (P : σ → Prop) (s : σ) (i : ι)
    (is : List ι) :
    Throughout step P s (i :: is) ↔ P s ∧ Throughout step P (step s i) is := Iff.rfl

instance decidableAlong (step : σ → ι → σ) (C : σ → ι → Prop)
    [∀ s i, Decidable (C s i)] : ∀ s is, Decidable (Along step C s is)
  | _, [] => .isTrue trivial
  | s, i :: is =>
      have := decidableAlong step C (step s i) is
      inferInstanceAs (Decidable (C s i ∧ Along step C (step s i) is))

instance decidableThroughout (step : σ → ι → σ) (P : σ → Prop)
    [∀ s, Decidable (P s)] : ∀ s is, Decidable (Throughout step P s is)
  | s, [] => inferInstanceAs (Decidable (P s))
  | s, i :: is =>
      have := decidableThroughout step P (step s i) is
      inferInstanceAs (Decidable (P s ∧ Throughout step P (step s i) is))

variable {step : σ → ι → σ} {C D : σ → ι → Prop} {P J : σ → Prop}

theorem along_append (s : σ) (is js : List ι) :
    Along step C s (is ++ js) ↔ Along step C s is ∧ Along step C (run step s is) js := by
  induction is generalizing s with
  | nil => simp
  | cons i is ih => simp [ih, and_assoc]

-- What holds of every input of a run may be asked of each of its steps.
theorem along_and {G : ι → Prop} (s : σ) (is : List ι) (hG : ∀ i ∈ is, G i)
    (hc : Along step C s is) : Along step (fun s i => G i ∧ C s i) s is := by
  induction is generalizing s with
  | nil => trivial
  | cons i is ih =>
      refine ⟨⟨hG i List.mem_cons_self, hc.1⟩, ih (step s i) (fun j hj => ?_) hc.2⟩
      exact hG j (List.mem_cons_of_mem i hj)

theorem along_both (s : σ) (is : List ι) (hc : Along step C s is) (hd : Along step D s is) :
    Along step (fun s i => C s i ∧ D s i) s is := by
  induction is generalizing s with
  | nil => trivial
  | cons i is ih => exact ⟨⟨hc.1, hd.1⟩, ih (step s i) hc.2 hd.2⟩

/-- The invariant rule: what every allowed step keeps holds where an allowed run ends. -/
theorem along_inv (keep : ∀ s i, J s → C s i → J (step s i)) (s : σ) (is : List ι)
    (h : J s) (hc : Along step C s is) : J (run step s is) := by
  induction is generalizing s with
  | nil => exact h
  | cons i is ih => exact ih (step s i) (keep s i h hc.1) hc.2

/-- What every step keeps holds where any run ends. -/
theorem run_inv (keep : ∀ s i, J s → J (step s i)) (s : σ) (is : List ι) (h : J s) :
    J (run step s is) := by
  induction is generalizing s with
  | nil => exact h
  | cons i is ih => exact ih (step s i) (keep s i h)

/-- Two conditions that agree wherever the invariant holds allow the same runs. -/
theorem along_congr (keep : ∀ s i, J s → C s i → J (step s i))
    (same : ∀ s i, J s → (D s i ↔ C s i)) (s : σ) (is : List ι) (h : J s) :
    Along step D s is ↔ Along step C s is := by
  induction is generalizing s with
  | nil => simp
  | cons i is ih =>
      rw [along_cons, along_cons, same s i h]
      exact and_congr_right fun hc => ih (step s i) (keep s i h hc)

/-- Under an invariant, steps that meet `C` meet whatever it entails there. -/
theorem along_of_inv (keep : ∀ s i, J s → C s i → J (step s i))
    (entails : ∀ s i, J s → C s i → D s i) (s : σ) (is : List ι) (h : J s)
    (hc : Along step C s is) : Along step D s is := by
  induction is generalizing s with
  | nil => trivial
  | cons i is ih =>
      exact ⟨entails s i h hc.1, ih (step s i) (keep s i h hc.1) hc.2⟩

-- Where every step keeps the invariant, every run has it and what it entails.
theorem throughout_of_step (keep : ∀ s i, J s → J (step s i)) (s : σ) (is : List ι) (h : J s) :
    Throughout step J s is := by
  induction is generalizing s with
  | nil => exact h
  | cons i is ih => exact ⟨h, ih (step s i) (keep s i h)⟩

theorem along_of_step (keep : ∀ s i, J s → J (step s i)) (entails : ∀ s i, J s → D s i) (s : σ)
    (is : List ι) (h : J s) : Along step D s is := by
  induction is generalizing s with
  | nil => trivial
  | cons i is ih => exact ⟨entails s i h, ih (step s i) (keep s i h)⟩

theorem throughout_head (s : σ) (is : List ι) (h : Throughout step P s is) : P s := by
  cases is with
  | nil => exact h
  | cons i is => exact h.1

theorem throughout_last (s : σ) (is : List ι) (h : Throughout step P s is) :
    P (run step s is) := by
  induction is generalizing s with
  | nil => exact h
  | cons i is ih => exact ih (step s i) h.2

theorem throughout_append (s : σ) (is js : List ι) :
    Throughout step P s (is ++ js) ↔
      Throughout step P s is ∧ Throughout step P (run step s is) js := by
  induction is generalizing s with
  | nil =>
      constructor
      · exact fun h => ⟨throughout_head s js h, h⟩
      · exact fun h => h.2
  | cons i is ih => simp [ih, and_assoc]

theorem throughout_mono {P' : σ → Prop} (h : ∀ s, P s → P' s) :
    ∀ s is, Throughout step P s is → Throughout step P' s is
  | s, [], hp => h s hp
  | s, i :: is, hp => ⟨h s hp.1, throughout_mono h (step s i) is hp.2⟩

/-- Throughout a run is the same as at the end of each of its prefixes. -/
theorem throughout_iff_prefix (s : σ) (is : List ι) :
    Throughout step P s is ↔ ∀ pre, pre <+: is → P (run step s pre) := by
  constructor
  · rintro h pre ⟨rest, rfl⟩
    exact throughout_last s pre ((throughout_append s pre rest).1 h).1
  · intro h
    induction is generalizing s with
    | nil => exact h [] (List.prefix_refl [])
    | cons i is ih =>
        refine ⟨h [] List.nil_prefix, ih (step s i) fun pre hpre => ?_⟩
        exact h (i :: pre) ((List.prefix_cons_inj i).2 hpre)

theorem throughout_of_along (keep : ∀ s i, J s → C s i → J (step s i)) (s : σ)
    (is : List ι) (h : J s) (hc : Along step C s is) : Throughout step J s is := by
  induction is generalizing s with
  | nil => exact h
  | cons i is ih => exact ⟨h, ih (step s i) (keep s i h hc.1) hc.2⟩

/-- The sharp invariant rule, for inputs of a kind. `C` is what a step needs in
    order to keep the invariant, and a step without it breaks the property at
    once; then the runs with the property throughout are the runs with `C` along
    them. -/
theorem throughout_iff_along_of {G : ι → Prop}
    (keep : ∀ s i, G i → J s → C s i → J (step s i)) (holds : ∀ s, J s → P s)
    (sharp : ∀ s i, G i → J s → P (step s i) → C s i) (s : σ) (is : List ι)
    (hG : ∀ i ∈ is, G i) (h : J s) : Throughout step P s is ↔ Along step C s is := by
  induction is generalizing s with
  | nil => simp [holds s h]
  | cons i is ih =>
      have hi := hG i List.mem_cons_self
      have his := fun j hj => hG j (List.mem_cons_of_mem i hj)
      rw [throughout_cons, along_cons]
      constructor
      · rintro ⟨-, ht⟩
        have hc : C s i := sharp s i hi h (throughout_head (step s i) is ht)
        exact ⟨hc, (ih (step s i) his (keep s i hi h hc)).1 ht⟩
      · rintro ⟨hc, ha⟩
        exact ⟨holds s h, (ih (step s i) his (keep s i hi h hc)).2 ha⟩

/-- The sharp invariant rule, for all inputs. -/
theorem throughout_iff_along (keep : ∀ s i, J s → C s i → J (step s i))
    (holds : ∀ s, J s → P s) (sharp : ∀ s i, J s → P (step s i) → C s i) (s : σ)
    (is : List ι) (h : J s) : Throughout step P s is ↔ Along step C s is :=
  throughout_iff_along_of (G := fun _ => True) (fun s i _ => keep s i) holds
    (fun s i _ => sharp s i) s is (fun _ _ => trivial) h

end Run

end PocketSkynet
