import PocketSkynet.Lib.Table

/-!
# Sparse Maps

A map that gives nearly every key the same value is kept as a table of the other keys. To put the
common value under a key is to delete its row. The table is in order if it has one row for a key
and no row with the common value, and then the rows are exactly the keys with another value.

What a statement on the table answers, the row it has deleted or overwritten, tells whether the
value has changed.

## Main definitions

* `value`, `put`: A value read, and a value put in place.
* `moves`: Whether a value put in place is a new one, as the table has it.
* `Proper`: The table is in order.

## Theorems

* `value_put`, `proper_put`: What becomes of the values and the table.
* `mem_iff`: The rows are the keys that do not have the common value.
* `moves_iff`: The table is right about what is new.
-/

namespace PocketSkynet

namespace Sparse

variable {κ α : Type*} [DecidableEq κ] [DecidableEq α] (d : α)

/-- The value of a key. A key without a row has the common value. -/
def value (k : κ) (l : List (κ × α)) : α := ((Table.lookup Prod.fst k l).map Prod.snd).getD d

def put (k : κ) (v : α) (l : List (κ × α)) : List (κ × α) :=
  if v = d then Table.erase Prod.fst k l else Table.upsert Prod.fst (k, v) l

/-- A row was deleted, or it was not there before as it is now. -/
def moves (k : κ) (v : α) (l : List (κ × α)) : Bool :=
  if v = d then (Table.lookup Prod.fst k l).isSome
  else (Table.lookup Prod.fst k l).map Prod.snd ≠ some v

/-- One row for a key, and none with the common value. -/
structure Proper (l : List (κ × α)) : Prop where
  keyed : Table.Keyed Prod.fst l
  uncommon : ∀ row ∈ l, row.2 ≠ d

variable {d} {k k' : κ} {v : α} {l : List (κ × α)}

theorem value_put : value d k' (put d k v l) = if k' = k then v else value d k' l := by
  unfold value put
  by_cases hv : v = d
  · rw [if_pos hv, Table.lookup_erase]
    by_cases hk : k' = k
    · rw [if_pos hk, if_pos hk, hv]
      rfl
    · rw [if_neg hk, if_neg hk]
  · rw [if_neg hv, Table.lookup_upsert]
    by_cases hk : k' = k
    · rw [if_pos hk, if_pos hk]
      rfl
    · rw [if_neg hk, if_neg hk]

omit [DecidableEq κ] [DecidableEq α] in
theorem proper_nil : Proper d ([] : List (κ × α)) where
  keyed := Table.keyed_nil
  uncommon := fun _ h => absurd h List.not_mem_nil

theorem proper_put (h : Proper d l) : Proper d (put d k v l) := by
  unfold put
  by_cases hv : v = d
  · rw [if_pos hv]
    exact ⟨Table.keyed_erase k h.keyed, fun row hrow => h.uncommon row (Table.mem_erase.1 hrow).1⟩
  · rw [if_neg hv]
    refine ⟨Table.keyed_upsert _ h.keyed, fun row hrow => ?_⟩
    rcases Table.mem_of_mem_upsert hrow with hnew | hold
    · rw [hnew]
      exact hv
    · exact h.uncommon row hold

omit [DecidableEq α] in
/-- The rows are the keys that do not have the common value. -/
theorem mem_iff (h : Proper d l) : (k, v) ∈ l ↔ value d k l = v ∧ v ≠ d := by
  rw [Table.mem_iff_lookup h.keyed, value]
  constructor
  · intro hfind
    have hv : v ≠ d := h.uncommon (k, v) (Table.mem_of_lookup hfind)
    rw [hfind]
    exact ⟨rfl, hv⟩
  · rintro ⟨hvalue, hv⟩
    cases hfind : Table.lookup Prod.fst k l with
    | none =>
        rw [hfind] at hvalue
        exact absurd hvalue.symm hv
    | some row =>
        rw [hfind] at hvalue
        have hk : row.1 = k := Table.key_of_lookup hfind
        rw [← hk, ← hvalue]
        rfl

/-- The table is right about what is new. -/
theorem moves_iff (h : Proper d l) : moves d k v l = true ↔ value d k l ≠ v := by
  unfold moves value
  cases hfind : Table.lookup Prod.fst k l with
  | none =>
      by_cases hv : v = d
      · rw [if_pos hv, hv]
        exact iff_of_false Bool.false_ne_true (fun hne => hne rfl)
      · rw [if_neg hv]
        exact iff_of_true rfl (Ne.symm hv)
  | some row =>
      have hrow : row.2 ≠ d := h.uncommon row (Table.mem_of_lookup hfind)
      by_cases hv : v = d
      · rw [if_pos hv, hv]
        exact iff_of_true rfl hrow
      · rw [if_neg hv]
        simp

end Sparse

end PocketSkynet
