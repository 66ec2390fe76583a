import Mathlib.Algebra.Ring.Nat
import Mathlib.Data.List.Basic
import Mathlib.Data.List.TakeWhile

/-!
# Joined Fields

Fields that are written one after the other with a separator between them and nothing else,
neither a length nor an escape. Two such texts can be the same although their fields are
not, as a field may have separators in it. If they have equally many fields, though, it is
enough that the fields of *one* of them are free of separators: the other text then has too
few for any of them to be inside a field.

## Main definitions

* `splitOnce`: What is before and behind the first separator.

## Theorems

* `splitOnce_spec`, `splitOnce_append`: A text that is split joins again.
* `intercalate_cons_inj`: A free field is read off the front.
* `count_intercalate`: The separators of a joined text.
* `intercalate_inj`: Free fields are told from any others of that number.
-/

namespace PocketSkynet

namespace Joined

variable {α : Type} {sep : α}

-- Up to the first separator, both texts are the same.
theorem append_sep_inj {x y xs ys : List α} (hx : sep ∉ x) (hy : sep ∉ y)
    (h : x ++ sep :: xs = y ++ sep :: ys) : x = y ∧ xs = ys := by
  induction x generalizing y with
  | nil =>
      cases y with
      | nil => exact ⟨rfl, (List.cons.inj h).2⟩
      | cons d y => exact absurd ((List.cons.inj h).1 ▸ List.mem_cons_self) hy
  | cons c x ih =>
      cases y with
      | nil => exact absurd ((List.cons.inj h).1 ▸ List.mem_cons_self) hx
      | cons d y =>
          rcases List.cons.inj h with ⟨rfl, hrest⟩
          rcases ih (fun hc => hx (List.mem_cons_of_mem _ hc))
            (fun hd => hy (List.mem_cons_of_mem _ hd)) hrest with ⟨rfl, rfl⟩
          exact ⟨rfl, rfl⟩

/-- What comes before the first separator is the first field, if that is free. -/
theorem intercalate_cons_inj {x y : List α} {xs ys : List (List α)} (hx : sep ∉ x)
    (hy : sep ∉ y) (hxs : xs ≠ []) (hys : ys ≠ [])
    (h : List.intercalate [sep] (x :: xs) = List.intercalate [sep] (y :: ys)) :
    x = y ∧ List.intercalate [sep] xs = List.intercalate [sep] ys := by
  rw [List.intercalate_cons_of_ne_nil hxs, List.intercalate_cons_of_ne_nil hys,
    List.append_assoc, List.append_assoc] at h
  exact append_sep_inj hx hy h

variable [DecidableEq α]

/-- What is before and behind the first separator. -/
def splitOnce (sep : α) (cs : List α) : Option (List α × List α) :=
  if cs.contains sep then some (cs.takeWhile (· != sep), (cs.dropWhile (· != sep)).drop 1)
  else none

-- What is split joins to the text again.
theorem splitOnce_spec {cs first last : List α}
    (h : splitOnce sep cs = some (first, last)) : cs = first ++ sep :: last := by
  unfold splitOnce at h
  split at h
  · rename_i hmem
    simp only [Option.some.injEq, Prod.mk.injEq] at h
    have hsplit := (List.takeWhile_append_dropWhile (p := (· != sep)) (l := cs)).symm
    cases hdrop : cs.dropWhile (· != sep) with
    | nil =>
        have hall := List.dropWhile_eq_nil_iff.1 hdrop sep (by simpa using hmem)
        simp at hall
    | cons c rest =>
        have hc : c = sep := by
          have hhead := List.head?_dropWhile_not (· != sep) cs
          simpa [hdrop] using hhead
        rw [hdrop, List.drop_succ_cons, List.drop_zero] at h
        rw [hdrop, h.1, h.2, hc] at hsplit
        exact hsplit
  · cases h

-- The first half has no separator.
theorem splitOnce_free {cs : List α} {halves : List α × List α}
    (h : splitOnce sep cs = some halves) : sep ∉ halves.1 := by
  unfold splitOnce at h
  split at h
  · cases h
    intro hmem
    have hne := List.mem_takeWhile_imp hmem
    simp at hne
  · cases h

theorem splitOnce_append {first last : List α} (h : sep ∉ first) :
    splitOnce sep (first ++ sep :: last) = some (first, last) := by
  have hkeep : ∀ c ∈ first, (c != sep) = true := by
    intro c hc
    refine bne_iff_ne.2 ?_
    rintro rfl
    exact h hc
  have hmem : (first ++ sep :: last).contains sep = true := by simp
  rw [splitOnce, if_pos hmem, List.takeWhile_append_of_pos hkeep,
    List.dropWhile_append_of_pos hkeep]
  simp

/-- A joined text has the separators between its fields and those inside them. -/
theorem count_intercalate {fields : List (List α)} (hne : fields ≠ []) :
    (List.intercalate [sep] fields).count sep + 1 =
      fields.length + (fields.map fun field => field.count sep).sum := by
  induction fields with
  | nil => exact absurd rfl hne
  | cons field fields ih =>
      by_cases hlast : fields = []
      · subst hlast
        simp [List.intercalate_singleton, Nat.add_comm]
      · have hrest := ih hlast
        rw [List.intercalate_cons_of_ne_nil hlast, List.count_append, List.count_append,
          List.count_singleton_self, List.length_cons, List.map_cons, List.sum_cons]
        omega

-- Fields without a separator are counted by the separators alone.
theorem sum_count_eq_zero {fields : List (List α)} :
    (fields.map fun field => field.count sep).sum = 0 ↔ ∀ field ∈ fields, sep ∉ field := by
  induction fields with
  | nil => simp
  | cons field fields ih =>
      rw [List.map_cons, List.sum_cons, Nat.add_eq_zero_iff, ih, List.count_eq_zero,
        List.forall_mem_cons]

/-- Fields that are free of the separator are read off a joined text, whatever the fields
    of the other text are, if there are as many. -/
theorem intercalate_inj {xs ys : List (List α)} (hfree : ∀ x ∈ xs, sep ∉ x)
    (hlength : xs.length = ys.length)
    (h : List.intercalate [sep] xs = List.intercalate [sep] ys) : xs = ys := by
  by_cases hnil : xs = []
  · rw [hnil, List.length_nil] at hlength
    rw [hnil, List.length_eq_zero_iff.1 hlength.symm]
  · have hnil' : ys ≠ [] := by
      rintro rfl
      exact hnil (List.length_eq_zero_iff.1 hlength)
    -- There are no more separators than go between the fields.
    have hfree' : ∀ y ∈ ys, sep ∉ y := by
      have hx : (List.intercalate [sep] xs).count sep + 1 = _ := count_intercalate hnil
      have hy : (List.intercalate [sep] ys).count sep + 1 = _ := count_intercalate hnil'
      rw [sum_count_eq_zero.2 hfree, h] at hx
      exact sum_count_eq_zero.1 (by omega)
    rw [← List.splitOn_intercalate sep hfree hnil, h, List.splitOn_intercalate sep hfree' hnil']

end Joined

end PocketSkynet
