import PocketSkynet.Lib.Sampler
import Mathlib.Algebra.BigOperators.Group.List.Basic
import Mathlib.Algebra.BigOperators.Group.Multiset.Basic
import Mathlib.Algebra.Order.BigOperators.Group.List
import Mathlib.Algebra.Order.Group.Multiset
import Mathlib.Algebra.Order.Sub.Basic
import Mathlib.Data.Nat.Factorial.Basic

/-!
# Picking and Shuffling

The shuffle of Fisher and Yates exchanges every place, from the last one down, with one that does
not come behind it. It leads to every order of a list in the same number of ways, which depends
only on how often each element occurs. So if one element is picked from each of several lists and
the picks are shuffled, the ways to a result are counted by the picks that have its elements.

## Main definitions

* `swapAt`, `shuffle`: The shuffle.
* `picks`: One element of each list.
* `repeats`: The orders of a list that look the same.
* `selections`: The picks that have given elements.

## Theorems

* `ways_shuffle`: The shuffle leads to every order in the same number of ways.
* `ways_picks_shuffle`: The ways to a result are counted by the picks that have its elements.
* `repeats_mul_selections`: What they come to if the lists are disjoint and the rest is free.
-/

namespace PocketSkynet

open Nat

variable {α : Type}

/-- Two places of a list exchanged. -/
def swapAt (l : List α) (i j : ℕ) : List α :=
  match l[i]?, l[j]? with
  | some a, some b => (l.set i b).set j a
  | _, _ => l

/-- The turns of the shuffle for the places up to one. -/
def shuffleFrom : ℕ → List α → Sampler (List α)
  | 0, out => .done out
  | i + 1, out => .draw (i + 2) fun j => shuffleFrom i (swapAt out (i + 1) j)

/-- Every place, from the last one down, is exchanged with one that does not come behind it. -/
def shuffle (out : List α) : Sampler (List α) := shuffleFrom (out.length - 1) out

/-- One element of each list, behind those there are. -/
def picks : List (List α) → List α → Sampler (List α)
  | [], out => .done out
  | c :: cs, out => .draw c.length fun v => picks cs (out ++ [c.get v])

variable [DecidableEq α]

/-- The orders of these elements that look like any one of them. -/
def repeats (s : Multiset α) : ℕ := ∏ a ∈ s.toFinset, (s.count a)!

/-- The picks from the lists that have these elements. -/
def selections : List (List α) → Multiset α → ℕ
  | [], s => if s = 0 then 1 else 0
  | c :: cs, s => (c.map fun a => if a ∈ s then selections cs (s.erase a) else 0).sum

/-! ### The shuffle -/

omit [DecidableEq α] in
theorem swapAt_lt {f back : List α} {y : α} {j : ℕ} (hj : j < f.length) :
    swapAt (f ++ y :: back) f.length j = f.set j y ++ f[j] :: back := by
  have hlast : (f ++ y :: back)[f.length]? = some y := by simp
  have hplace : (f ++ y :: back)[j]? = some f[j] := by
    rw [List.getElem?_append_left hj, List.getElem?_eq_getElem hj]
  rw [swapAt, hlast, hplace]
  simp only []
  rw [List.set_append_right _ _ (Nat.le_refl _), Nat.sub_self, List.set_cons_zero,
    List.set_append_left _ _ hj]

omit [DecidableEq α] in
theorem swapAt_self (f back : List α) (y : α) :
    swapAt (f ++ y :: back) f.length f.length = f ++ y :: back := by
  have hlast : (f ++ y :: back)[f.length]? = some y := by simp
  rw [swapAt, hlast]
  simp

omit [DecidableEq α] in
-- What is put at a place and what it takes the place of.
theorem set_perm {f : List α} {y : α} {j : ℕ} (hj : j < f.length) :
    (f[j] :: f.set j y).Perm (y :: f) := by
  induction f generalizing j with
  | nil => cases hj
  | cons a f ih =>
      cases j with
      | zero => exact List.Perm.swap _ _ _
      | succ j =>
          have hrest := ih (Nat.lt_of_succ_lt_succ hj)
          exact (List.Perm.swap _ _ _).trans ((hrest.cons a).trans (List.Perm.swap _ _ _))

-- Places that hold nothing do not count, so any set of elements that has them all will do.
theorem prod_repeats {s : Multiset α} {t : Finset α} (h : s.toFinset ⊆ t) :
    ∏ a ∈ t, (s.count a)! = repeats s := by
  refine (Finset.prod_subset h fun a _ ha => ?_).symm
  rw [Multiset.mem_toFinset] at ha
  rw [Multiset.count_eq_zero_of_notMem ha, Nat.factorial_zero]

/-- One more element can stand wherever it stands already, and at the new place. -/
theorem repeats_cons (a : α) (s : Multiset α) :
    repeats (a ::ₘ s) = (a ::ₘ s).count a * repeats s := by
  have hsub : s.toFinset ⊆ insert a s.toFinset := Finset.subset_insert _ _
  have hmem : a ∈ insert a s.toFinset := Finset.mem_insert_self _ _
  rw [← prod_repeats hsub, repeats, Multiset.toFinset_cons,
    ← Finset.mul_prod_erase _ _ hmem, ← Finset.mul_prod_erase _ _ hmem, ← Nat.mul_assoc,
    Multiset.count_cons_self, Nat.factorial_succ]
  refine congrArg _ (Finset.prod_congr rfl fun b hb => ?_)
  rw [Multiset.count_cons_of_ne (Finset.ne_of_mem_erase hb)]

theorem sum_map_eq (l : List α) (x : α) (n : ℕ) :
    (l.map fun a => if a = x then n else 0).sum = l.count x * n := by
  induction l with
  | nil => simp
  | cons a l ih =>
      rw [List.map_cons, List.sum_cons, ih, List.count_cons, Nat.add_mul, Nat.add_comm]
      by_cases ha : a = x <;> simp [ha]

/-- The turns lead to every order of the places they reach. -/
theorem ways_shuffleFrom {i : ℕ} {front back s rest : List α} (hfront : front.length = i + 1)
    (hs : s.length = i + 1) : (shuffleFrom i (front ++ back)).ways (s ++ rest) =
      if front.Perm s ∧ back = rest then repeats (s : Multiset α) else 0 := by
  induction i generalizing front back s rest with
  | zero =>
      rcases List.length_eq_one_iff.1 hfront with ⟨c, rfl⟩
      rcases List.length_eq_one_iff.1 hs with ⟨x, rfl⟩
      have hone : repeats ([x] : Multiset α) = 1 := by simp [repeats]
      rw [shuffleFrom, Sampler.ways, hone]
      simp
  | succ i ih =>
      rcases List.eq_nil_or_concat front with rfl | ⟨f, y, rfl⟩
      · cases hfront
      rcases List.eq_nil_or_concat s with rfl | ⟨s, x, rfl⟩
      · cases hs
      rw [List.concat_eq_append, List.length_append, List.length_singleton,
        Nat.add_right_cancel_iff] at hfront hs
      rw [List.concat_eq_append, List.concat_eq_append, List.append_assoc, List.append_assoc,
        List.singleton_append, List.singleton_append]
      -- Whatever place is taken, the rest has to be an order of the rest.
      have hturn : ∀ (c : α) (out : List α), (c :: out).Perm (y :: f) → out.length = i + 1 →
          (shuffleFrom i (out ++ c :: back)).ways (s ++ x :: rest) =
            if c = x then (if (f ++ [y]).Perm (s ++ [x]) ∧ back = rest then
              repeats (s : Multiset α) else 0) else 0 := by
        intro c out hperm hout
        rw [ih hout hs]
        by_cases hc : c = x
        · subst hc
          have hiff : out.Perm s ↔ (f ++ [y]).Perm (s ++ [c]) := by
            rw [← List.perm_cons c, (List.perm_append_singleton y f).congr_left,
              (List.perm_append_singleton c s).congr_right, hperm.congr_left]
          simp [hiff]
        · simp [hc]
      have hplace : ∀ j : Fin f.length, (shuffleFrom i
          (swapAt (f ++ y :: back) f.length j)).ways (s ++ x :: rest) =
          if f[j.1] = x then (if (f ++ [y]).Perm (s ++ [x]) ∧ back = rest then
            repeats (s : Multiset α) else 0) else 0 := by
        intro j
        rw [swapAt_lt j.2]
        exact hturn _ _ (set_perm j.2) (by rw [List.length_set, hfront])
      have hself : (shuffleFrom i (swapAt (f ++ y :: back) f.length f.length)).ways
          (s ++ x :: rest) = if y = x then (if (f ++ [y]).Perm (s ++ [x]) ∧ back = rest then
            repeats (s : Multiset α) else 0) else 0 := by
        rw [swapAt_self]
        exact hturn y f (List.Perm.refl _) hfront
      rw [shuffleFrom, Sampler.ways, Fin.sum_univ_eq_sum_range fun j => (shuffleFrom i
        (swapAt (f ++ y :: back) (i + 1) j)).ways (s ++ x :: rest),
        Finset.sum_range_succ, ← hfront, hself, ← Fin.sum_univ_eq_sum_range,
        Finset.sum_congr rfl fun j _ => hplace j,
        Fin.sum_univ_fun_getElem f fun a => if a = x then (if (f ++ [y]).Perm (s ++ [x]) ∧
          back = rest then repeats (s : Multiset α) else 0) else 0, sum_map_eq]
      by_cases hall : (f ++ [y]).Perm (s ++ [x]) ∧ back = rest
      · have hcount : f.count x + (if y = x then 1 else 0) = (s ++ [x]).count x := by
          rw [← hall.1.count_eq, List.count_append, List.count_singleton]
          simp only [beq_iff_eq]
        have hlast : ((s ++ [x] : List α) : Multiset α) = x ::ₘ (s : Multiset α) :=
          Multiset.coe_eq_coe.2 (List.perm_append_singleton x s)
        rw [if_pos hall, if_pos hall, hlast, repeats_cons, ← hlast, Multiset.coe_count, ← hcount,
          Nat.add_mul]
        split <;> simp
      · rw [if_neg hall, if_neg hall]
        simp

-- A program that only moves things around keeps their number.
theorem length_of_ways_shuffleFrom {i : ℕ} {out s : List α}
    (h : (shuffleFrom i out).ways s ≠ 0) : s.length = out.length := by
  have hswap : ∀ (l : List α) i j, (swapAt l i j).length = l.length := by
    intro l i j
    rw [swapAt]
    split
    · rw [List.length_set, List.length_set]
    · rfl
  induction i generalizing out with
  | zero =>
      rw [shuffleFrom, Sampler.ways] at h
      by_cases hout : out = s
      · rw [hout]
      · exact absurd (if_neg hout) h
  | succ i ih =>
      rw [shuffleFrom, Sampler.ways] at h
      rcases Finset.exists_ne_zero_of_sum_ne_zero h with ⟨j, -, hj⟩
      exact (ih hj).trans (hswap _ _ _)

/-- The shuffle leads to every order in the same number of ways. -/
theorem ways_shuffle {out s : List α} (hout : out ≠ []) :
    (shuffle out).ways s = if out.Perm s then repeats (s : Multiset α) else 0 := by
  have hlength : out.length = out.length - 1 + 1 :=
    (Nat.sub_add_cancel (List.length_pos_iff.2 hout)).symm
  by_cases hs : s.length = out.length
  · have hways := @ways_shuffleFrom _ _ _ out [] s [] hlength (hs.trans hlength)
    rw [shuffle]
    simpa using hways
  · have hperm : ¬ out.Perm s := fun h => hs h.length_eq.symm
    rw [if_neg hperm]
    by_contra h
    exact hs (length_of_ways_shuffleFrom h)

/-! ### The picks -/

/-- The ways to a result are counted by the picks that have its elements. -/
theorem ways_picks_shuffle {cs : List (List α)} {out s : List α} (hne : out ≠ [] ∨ cs ≠ []) :
    ((picks cs out).andThen shuffle).ways s =
      if (out : Multiset α) ≤ s then repeats (s : Multiset α) * selections cs (s - out) else 0 := by
  induction cs generalizing out with
  | nil =>
      rw [picks, Sampler.andThen, ways_shuffle (hne.resolve_right fun h => h rfl), selections]
      by_cases hperm : out.Perm s
      · have heq : (out : Multiset α) = s := Multiset.coe_eq_coe.2 hperm
        rw [if_pos hperm, if_pos heq.le, heq, tsub_self, if_pos rfl, Nat.mul_one]
      · rw [if_neg hperm]
        by_cases hle : (out : Multiset α) ≤ s
        · have hrest : (s : Multiset α) - out ≠ 0 := by
            intro hzero
            exact hperm (Multiset.coe_eq_coe.1
              (le_antisymm hle (tsub_eq_zero_iff_le.1 hzero)))
          rw [if_pos hle, if_neg hrest, Nat.mul_zero]
        · rw [if_neg hle]
  | cons c cs ih =>
      have hone : ∀ a, ((picks cs (out ++ [a])).andThen shuffle).ways s =
          if (out : Multiset α) ≤ s then repeats (s : Multiset α) *
            (if a ∈ (s : Multiset α) - out then selections cs ((s - out : Multiset α).erase a)
              else 0) else 0 := by
        intro a
        have hmore : ((out ++ [a] : List α) : Multiset α) = a ::ₘ (out : Multiset α) :=
          Multiset.coe_eq_coe.2 (List.perm_append_singleton a out)
        rw [ih (Or.inl (by simp)), hmore, ← Multiset.singleton_add, add_comm]
        by_cases hle : (out : Multiset α) ≤ s
        · have hiff : (out : Multiset α) + {a} ≤ s ↔ a ∈ (s : Multiset α) - out := by
            rw [add_comm, ← Multiset.singleton_le, le_tsub_iff_right hle]
          rw [if_pos hle, ← Multiset.sub_singleton, tsub_add_eq_tsub_tsub]
          simp only [hiff]
          split <;> simp
        · rw [if_neg hle, if_neg fun h => hle ((Multiset.le_add_right _ _).trans h)]
      rw [picks, Sampler.andThen, Sampler.ways]
      simp only [List.get_eq_getElem]
      rw [Finset.sum_congr rfl fun v _ => hone _, Fin.sum_univ_fun_getElem c fun a =>
        if (out : Multiset α) ≤ s then repeats (s : Multiset α) *
          (if a ∈ (s : Multiset α) - out then selections cs ((s - out : Multiset α).erase a)
            else 0) else 0]
      by_cases hle : (out : Multiset α) ≤ s
      · simp only [if_pos hle, selections, List.sum_map_mul_left]
      · simp only [if_neg hle, List.map_const', List.sum_replicate, nsmul_zero]

/-- What is picked has an element of every list, and no other. -/
theorem of_selections {cs : List (List α)} {s : Multiset α} (h : selections cs s ≠ 0) :
    s.card = cs.length ∧ ∀ a ∈ s, ∃ c ∈ cs, a ∈ c := by
  induction cs generalizing s with
  | nil =>
      by_cases hs : s = 0
      · rw [hs]
        exact ⟨rfl, fun a ha => absurd ha (Multiset.notMem_zero a)⟩
      · exact absurd (if_neg hs) h
  | cons c cs ih =>
      have hsome : ∃ a ∈ c, a ∈ s ∧ selections cs (s.erase a) ≠ 0 := by
        by_contra hnone
        refine h (List.sum_eq_zero fun n hn => ?_)
        rcases List.mem_map.1 hn with ⟨a, ha, rfl⟩
        by_contra hne
        by_cases has : a ∈ s
        · rw [if_pos has] at hne
          exact hnone ⟨a, ha, has, hne⟩
        · exact hne (if_neg has)
      rcases hsome with ⟨a, ha, has, hrest⟩
      rcases ih hrest with ⟨hcard, hmem⟩
      rw [← Multiset.cons_erase has]
      refine ⟨by rw [Multiset.card_cons, hcard, List.length_cons], fun b hb => ?_⟩
      rcases Multiset.mem_cons.1 hb with rfl | hb
      · exact ⟨c, List.mem_cons_self, ha⟩
      · rcases hmem b hb with ⟨d, hd, hbd⟩
        exact ⟨d, List.mem_cons_of_mem _ hd, hbd⟩

/-- One pick: any of the elements there are in the list. -/
theorem repeats_mul_selections_cons (c : List α) (cs : List (List α)) (s : Multiset α) :
    repeats s * selections (c :: cs) s =
      (c.map fun a => s.count a * (repeats (s.erase a) * selections cs (s.erase a))).sum := by
  rw [selections, ← List.sum_map_mul_left]
  refine congrArg List.sum (List.map_congr_left fun a _ => ?_)
  by_cases ha : a ∈ s
  · have hrepeats := repeats_cons a (s.erase a)
    rw [Multiset.cons_erase ha] at hrepeats
    rw [if_pos ha, hrepeats, Nat.mul_assoc]
  · rw [if_neg ha, Multiset.count_eq_zero_of_notMem ha, Nat.mul_zero, Nat.zero_mul]

theorem countP_mem_cons {a : α} {c : List α} (ha : a ∉ c) (s : Multiset α) :
    s.countP (· ∈ a :: c) = s.count a + s.countP (· ∈ c) := by
  induction s using Multiset.induction_on with
  | empty => rfl
  | cons b s ih =>
      rw [Multiset.countP_cons, Multiset.countP_cons, Multiset.count_cons, ih]
      by_cases hb : b = a
      · rw [hb, if_pos List.mem_cons_self, if_pos rfl, if_neg ha]
        omega
      · have hiff : b ∈ a :: c ↔ b ∈ c := by simp [hb]
        rw [if_neg (Ne.symm hb), if_congr hiff rfl rfl]
        omega

-- The elements of a list without repetitions, one after the other.
theorem sum_count {c : List α} (hc : c.Nodup) (s : Multiset α) :
    (c.map fun a => s.count a).sum = s.countP (· ∈ c) := by
  induction c with
  | nil => simp
  | cons a c ih =>
      rw [List.nodup_cons] at hc
      rw [List.map_cons, List.sum_cons, ih hc.2, countP_mem_cons hc.1]

/-- If the lists are disjoint and whatever is left is free, the ways are the product of what each
    list has of the elements, times the orders of the rest. -/
theorem repeats_mul_selections {cs : List (List α)} {alphabet : List α} {m : ℕ}
    (hnodup : ∀ c ∈ cs, c.Nodup) (hdisjoint : cs.Pairwise List.Disjoint)
    (halphabet : alphabet.Nodup) {s : Multiset α} (hs : ∀ a ∈ s, a ∈ alphabet)
    (hcard : s.card = cs.length + m) :
    repeats s * selections (cs ++ List.replicate m alphabet) s =
      (cs.map fun c => s.countP (· ∈ c)).prod * m ! := by
  induction cs generalizing s with
  | nil =>
      rw [List.length_nil, Nat.zero_add] at hcard
      rw [List.nil_append, List.map_nil, List.prod_nil, Nat.one_mul]
      induction m generalizing s with
      | zero =>
          rw [Multiset.card_eq_zero.1 hcard]
          rfl
      | succ m ih =>
          have hone : ∀ a ∈ alphabet, s.count a * (repeats (s.erase a) *
              selections (List.replicate m alphabet) (s.erase a)) = s.count a * m ! := by
            intro a _
            by_cases ha : a ∈ s
            · rw [ih (fun b hb => hs b (Multiset.mem_of_mem_erase hb))
                (by rw [Multiset.card_erase_of_mem ha, hcard]; rfl)]
            · rw [Multiset.count_eq_zero_of_notMem ha, Nat.zero_mul, Nat.zero_mul]
          rw [List.replicate_succ, repeats_mul_selections_cons, List.map_congr_left hone,
            List.sum_map_mul_right, sum_count halphabet,
            Multiset.countP_eq_card.2 hs, hcard, Nat.factorial_succ]
  | cons c cs ih =>
      rw [List.pairwise_cons] at hdisjoint
      have hone : ∀ a ∈ c, s.count a * (repeats (s.erase a) *
          selections (cs ++ List.replicate m alphabet) (s.erase a)) =
          s.count a * ((cs.map fun d => s.countP (· ∈ d)).prod * m !) := by
        intro a hac
        by_cases ha : a ∈ s
        · have hothers : ∀ d ∈ cs, (s.erase a).countP (· ∈ d) = s.countP (· ∈ d) := by
            intro d hd
            have had : a ∉ d := fun h => hdisjoint.1 d hd hac h
            rw [← Multiset.cons_erase ha, Multiset.erase_cons_head,
              Multiset.countP_cons_of_neg _ had]
          rw [ih (fun d hd => hnodup d (List.mem_cons_of_mem _ hd)) hdisjoint.2
            (fun b hb => hs b (Multiset.mem_of_mem_erase hb))
            (by rw [Multiset.card_erase_of_mem ha, hcard, List.length_cons, Nat.pred_eq_sub_one]
                omega),
            List.map_congr_left hothers]
        · rw [Multiset.count_eq_zero_of_notMem ha, Nat.zero_mul, Nat.zero_mul]
      rw [List.cons_append, repeats_mul_selections_cons, List.map_congr_left hone,
        List.sum_map_mul_right, sum_count (hnodup c List.mem_cons_self), List.map_cons,
        List.prod_cons, Nat.mul_assoc]

end PocketSkynet
