import PocketSkynet.Lib.Keyset

/-!
# Sources That Are Cut Before They Are Merged

Several sorted lists are merged and the first entries of the result are wanted. Then it is enough
to take as many from each of them beforehand: an entry behind that many others of its own source
has them in front of it in the result as well.

The merge is a stable sort of what the sources have, one after the other. An entry that is put
in somewhere leaves what comes before it as it was, so the entries that are cut off can be taken
out of the sort one by one.

## Theorems

* `insertionSort_insert`: Where an entry of a list stands after sorting.
* `take_insertionSort_insert`: An entry with many in front of it does not matter.
* `take_sources`: Two sources that are cut and merged.
* `mem_page_or`: What the next page leaves out is not in front of its last item.
-/

namespace PocketSkynet

namespace Keyset

variable {α : Type*} (r : α → α → Prop) [DecidableRel r]

-- Where an entry goes depends on the first entries only, as far as these are concerned.
theorem take_orderedInsert_congr (a : α) {n : Nat} {l l' : List α} (h : l.take n = l'.take n) :
    (l.orderedInsert r a).take n = (l'.orderedInsert r a).take n := by
  induction n generalizing l l' with
  | zero => rfl
  | succ n ih =>
      cases l with
      | nil =>
          cases l' with
          | nil => rfl
          | cons b l' => cases h
      | cons b l =>
          cases l' with
          | nil => cases h
          | cons b' l' =>
              rw [List.take_succ_cons, List.take_succ_cons, List.cons.injEq] at h
              rcases h with ⟨rfl, htail⟩
              by_cases hab : r a b
              · have hshort := congrArg (List.take (n - 1)) htail
                rw [List.take_take, List.take_take, Nat.min_eq_left (Nat.sub_le n 1)] at hshort
                rw [List.orderedInsert_cons, List.orderedInsert_cons, if_pos hab, if_pos hab,
                  List.take_succ_cons, List.take_succ_cons]
                cases n with
                | zero => rfl
                | succ n =>
                    rw [Nat.add_sub_cancel] at hshort
                    rw [List.take_succ_cons, List.take_succ_cons, hshort]
              · rw [List.orderedInsert_cons, List.orderedInsert_cons, if_neg hab, if_neg hab,
                  List.take_succ_cons, List.take_succ_cons, ih htail]

-- The second source may be cut.
theorem take_insertionSort_append (l : List α) {m : List α} (hm : m.Pairwise r) {n k : Nat}
    (hnk : n ≤ k) :
    ((l ++ m.take k).insertionSort r).take n = ((l ++ m).insertionSort r).take n := by
  induction l with
  | nil =>
      have hcut : (m.take k).Pairwise r := hm.sublist (List.take_sublist k m)
      rw [List.nil_append, List.nil_append, hcut.insertionSort_eq, hm.insertionSort_eq,
        List.take_take, Nat.min_eq_left hnk]
  | cons a l ih =>
      rw [List.cons_append, List.cons_append, List.insertionSort_cons, List.insertionSort_cons]
      exact take_orderedInsert_congr r a ih

-- An entry goes in front of the first one that it is related to.
theorem orderedInsert_append {a : α} {u : List α} (v : List α) :
    (u ++ v).orderedInsert r a = if ∃ b ∈ u, r a b then u.orderedInsert r a ++ v
      else u ++ v.orderedInsert r a := by
  induction u with
  | nil => simp
  | cons b u ih =>
      by_cases hab : r a b
      · simp [hab]
      · simp only [List.cons_append, List.orderedInsert_cons, ih, List.exists_mem_cons_iff, hab,
          false_or, if_false]
        by_cases h : ∃ b ∈ u, r a b
        · rw [if_pos h, if_pos h]
        · rw [if_neg h, if_neg h]

variable [IsTrans α r] [Std.Total r]

/-- An entry of a list stands, after sorting, behind all those that were in front of it and are
    related to it, and without it the others are sorted the same. -/
theorem insertionSort_insert (y : α) (front back : List α) : ∃ u v,
    (front ++ y :: back).insertionSort r = u ++ y :: v ∧
      (front ++ back).insertionSort r = u ++ v ∧
      front.countP (fun x => decide (r x y)) ≤ u.length := by
  induction front with
  | nil =>
      refine ⟨(back.insertionSort r).takeWhile fun b => ¬ r y b,
        (back.insertionSort r).dropWhile fun b => ¬ r y b, ?_, ?_, Nat.zero_le _⟩
      · rw [List.nil_append, List.insertionSort_cons, List.orderedInsert_eq_take_drop]
      · rw [List.nil_append, List.takeWhile_append_dropWhile]
  | cons x front ih =>
      rcases ih with ⟨u, v, hwith, hwithout, hcount⟩
      have hsorted : (u ++ y :: v).Pairwise r := by
        rw [← hwith]
        exact List.pairwise_insertionSort r _
      rw [List.cons_append, List.cons_append, List.insertionSort_cons, List.insertionSort_cons,
        hwith, hwithout, orderedInsert_append, orderedInsert_append, List.countP_cons]
      by_cases hu : ∃ b ∈ u, r x b
      · refine ⟨u.orderedInsert r x, v, if_pos hu, if_pos hu, ?_⟩
        rw [List.orderedInsert_length]
        split <;> omega
      · rw [if_neg hu, if_neg hu]
        by_cases hxy : r x y
        · have hyv := (List.pairwise_cons.1 (List.pairwise_append.1 hsorted).2.1).1
          have hxv : v.orderedInsert r x = x :: v :=
            orderedInsert_eq_cons r fun z hz => IsTrans.trans _ _ _ hxy (hyv z hz)
          refine ⟨u ++ [x], v, ?_, ?_, ?_⟩
          · rw [List.orderedInsert_cons, if_pos hxy, List.append_assoc, List.singleton_append]
          · rw [hxv, List.append_assoc, List.singleton_append]
          · rw [if_pos (decide_eq_true hxy), List.length_append, List.length_singleton]
            omega
        · refine ⟨u, v.orderedInsert r x, ?_, rfl, ?_⟩
          · rw [List.orderedInsert_cons, if_neg hxy]
          · rw [if_neg (by simpa using hxy)]
            exact hcount

/-- An entry that has enough others in front of it is not among the first ones. -/
theorem take_insertionSort_insert {y : α} {front : List α} (back : List α) {n : Nat}
    (h : n ≤ front.countP fun x => decide (r x y)) :
    ((front ++ y :: back).insertionSort r).take n =
      ((front ++ back).insertionSort r).take n := by
  rcases insertionSort_insert r y front back with ⟨u, v, hwith, hwithout, hcount⟩
  have hn : n ≤ u.length := h.trans hcount
  rw [hwith, hwithout, List.take_append_of_le_length hn, List.take_append_of_le_length hn]

-- The first source may be cut.
theorem take_insertionSort_behind {front gone : List α} (back : List α) {n : Nat}
    (hfront : n ≤ front.length) (h : ∀ x ∈ front, ∀ y ∈ gone, r x y) :
    ((front ++ (gone ++ back)).insertionSort r).take n =
      ((front ++ back).insertionSort r).take n := by
  induction gone with
  | nil => rfl
  | cons y gone ih =>
      have hall : front.countP (fun x => decide (r x y)) = front.length :=
        List.countP_eq_length.2 fun x hx => decide_eq_true (h x hx y List.mem_cons_self)
      rw [List.cons_append, take_insertionSort_insert r _ (hall ▸ hfront)]
      exact ih fun x hx z hz => h x hx z (List.mem_cons_of_mem y hz)

/-- The first entries of two sorted sources that are merged are found if as many are taken of
    each. -/
theorem take_sources {l m : List α} (hl : l.Pairwise r) (hm : m.Pairwise r) {n k : Nat}
    (hnk : n ≤ k) :
    ((l.take k ++ m.take k).insertionSort r).take n = ((l ++ m).insertionSort r).take n := by
  rw [take_insertionSort_append r _ hm hnk]
  by_cases hlong : k ≤ l.length
  · have hsplit : l.take k ++ (l.drop k ++ m) = l ++ m := by
      rw [← List.append_assoc, List.take_append_drop]
    have hbehind : ∀ x ∈ l.take k, ∀ y ∈ l.drop k, r x y := by
      have hpair := hl
      rw [← List.take_append_drop k l] at hpair
      exact (List.pairwise_append.1 hpair).2.2
    rw [← hsplit, take_insertionSort_behind r m ?_ hbehind]
    rw [List.length_take, Nat.min_eq_left hlong]
    exact hnk
  · rw [List.take_of_length_le (Nat.le_of_not_le hlong)]

omit [IsTrans α r] [Std.Total r] in
-- Whether there are more of them is seen if one more is taken of each.
theorem lt_length_sources (l m : List α) (n : Nat) :
    n < ((l.take (n + 1) ++ m.take (n + 1)).insertionSort r).length ↔ n < (l ++ m).length := by
  rw [List.length_insertionSort, List.length_append, List.length_append, List.length_take,
    List.length_take]
  omega

/-! ### What is passed over -/

section

variable {β : Type*} [LinearOrder β] {f : α → β} {l : List α} {limit : Nat}

variable (f l) in
theorem past_sublist (cursor : Option β) : (past f l cursor).Sublist l := by
  cases cursor with
  | none => exact List.Sublist.refl l
  | some key => exact List.filter_sublist

/-- What is past the cursor is on the next page, or its last item is not behind it. -/
theorem mem_page_or (hl : Falling f l) (hlimit : 1 ≤ limit) {cursor : Option β} {x : α}
    (hx : x ∈ past f l cursor) :
    x ∈ page f l limit cursor ∨ ∃ last ∈ (page f l limit cursor).getLast?, f x ≤ f last := by
  have hfalling : Falling f (past f l cursor) := hl.sublist (past_sublist f l cursor)
  rw [← List.take_append_drop limit (past f l cursor)] at hx hfalling
  rcases List.mem_append.1 hx with hon | hbehind
  · exact Or.inl hon
  · right
    cases hlast : (page f l limit cursor).getLast? with
    | none =>
        have hnone : (past f l cursor).take limit = [] := List.getLast?_eq_none_iff.1 hlast
        rcases List.take_eq_nil_iff.1 hnone with hzero | hnil
        · omega
        · rw [hnil, List.drop_nil] at hbehind
          cases hbehind
    | some last =>
        exact ⟨last, rfl, (List.pairwise_append.1 hfalling).2.2 last
          (List.mem_of_getLast? hlast) x hbehind⟩

end

end Keyset

end PocketSkynet
