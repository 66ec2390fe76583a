import Mathlib.Data.List.Sort

/-!
# Longest First

The first match in a list that was sorted by falling keys. The sort keeps the order of what
has the same key, so the match is the first of the list among the matches with the highest
key.

## Main definitions

* `descending`: A list sorted by falling keys.

## Theorems

* `filter_descending`: Those of one key stay in order.
* `find?_descending`: The match is the first among those with the highest key.
* `le_of_find?_descending`: No match has a higher key.
-/

namespace PocketSkynet

/-- A list sorted by falling keys, and otherwise as it was. -/
def descending (key : α → ℕ) (l : List α) : List α :=
  l.insertionSort fun a b => key b ≤ key a

variable {key : α → ℕ} {l : List α} {p : α → Bool} {a b : α}

@[simp] theorem mem_descending : a ∈ descending key l ↔ a ∈ l := List.mem_insertionSort _

theorem pairwise_descending (key : α → ℕ) (l : List α) :
    (descending key l).Pairwise fun a b => key b ≤ key a := by
  have htotal : Std.Total fun a b : α => key b ≤ key a := ⟨fun a b => Nat.le_total _ _⟩
  have htrans : IsTrans α fun a b => key b ≤ key a := ⟨fun _ _ _ hab hbc => hbc.trans hab⟩
  exact List.pairwise_insertionSort _ _

/-- Those of one key stay in order. -/
theorem filter_descending (key : α → ℕ) (l : List α) (k : ℕ) :
    (descending key l).filter (key · = k) = l.filter (key · = k) := by
  have hsub : (l.filter (key · = k)).Sublist (descending key l) := by
    refine List.sublist_insertionSort ?_ List.filter_sublist
    refine List.pairwise_of_forall_mem_list fun a ha b hb => ?_
    rw [of_decide_eq_true (List.mem_filter.1 ha).2, of_decide_eq_true (List.mem_filter.1 hb).2]
  have hkept := hsub.filter (key · = k)
  simp only [List.filter_filter, Bool.and_self] at hkept
  have hlength := ((List.perm_insertionSort (fun a b => key b ≤ key a) l).filter
    (key · = k)).length_eq
  exact (hkept.eq_of_length hlength.symm).symm

-- No match has a higher key than the one that is found.
theorem le_of_find?_descending (h : (descending key l).find? p = some a) (hb : b ∈ l)
    (hpb : p b = true) : key b ≤ key a := by
  rcases List.find?_eq_some_iff_append.1 h with ⟨-, front, rest, heq, hfront⟩
  have hmem : b ∈ descending key l := mem_descending.2 hb
  have hpairwise := pairwise_descending key l
  rw [heq] at hmem hpairwise
  rcases List.mem_append.1 hmem with hmem | hmem
  · have hnot := hfront b hmem
    rw [hpb] at hnot
    cases hnot
  · rcases List.mem_cons.1 hmem with rfl | hmem
    · exact Nat.le_refl _
    · exact List.rel_of_pairwise_cons (List.pairwise_append.1 hpairwise).2.1 hmem

/-- The match is the first among those with the highest key. -/
theorem find?_descending (ha : a ∈ l) (hpa : p a = true)
    (hmax : ∀ b ∈ l, p b = true → key b ≤ key a) :
    (descending key l).find? p = l.find? fun b => key b = key a && p b := by
  have hsome : ((descending key l).find? p).isSome := by
    rw [List.find?_isSome]
    exact ⟨a, mem_descending.2 ha, hpa⟩
  rcases Option.isSome_iff_exists.1 hsome with ⟨first, hfirst⟩
  have hkey : key first = key a := by
    have hmem := mem_descending.1 (List.mem_of_find?_eq_some hfirst)
    have hle := hmax first hmem (List.find?_some hfirst)
    have hge := le_of_find?_descending hfirst ha hpa
    omega
  -- What is found has the key, so nothing is lost to those without it.
  have hkept : (descending key l).find? (fun b => key b = key a && p b) = some first := by
    rcases List.find?_eq_some_iff_append.1 hfirst with ⟨hp, front, rest, heq, hfront⟩
    refine List.find?_eq_some_iff_append.2 ⟨by simp [hkey, hp], front, rest, heq, ?_⟩
    intro b hb
    have hnot := hfront b hb
    rw [Bool.not_eq_true'] at hnot
    simp [hnot]
  have hfilter := congrArg (List.find? p) (filter_descending key l (key a))
  rw [List.find?_filter, List.find?_filter] at hfilter
  rw [hfirst, ← hkept]
  simpa using hfilter

end PocketSkynet
