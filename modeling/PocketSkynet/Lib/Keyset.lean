import Mathlib.Algebra.Order.Ring.Nat
import Mathlib.Data.List.Sort
import Mathlib.Logic.Function.Iterate

/-!
# Paging by Key

A list is sorted by falling keys and read in pages. The cursor is not a place in the list but the
key of the last item received: a page is cut from the items with smaller keys. Where keys repeat,
the items that share the key of the last one of a page are passed over, unless they were on the
same page.

`exists_gather_iff` says when nothing is passed over. It speaks of the numbers of items with a
greater and with a smaller key only, so it needs no order of the list and no page to be drawn up:
for each key that occurs, the first and the last item of that key fall into the same page.

## Main definitions

* `Falling`: Sorted by falling keys.
* `above`, `notBelow`: How many items have a greater key, or one that is not smaller.
* `past`, `page`: The items past a cursor, and the first of them.
* `fetch`: One page more.
* `Unsplit`: No two pages share a key.

## Theorems

* `unsplit_iff_clean`: No two pages share a key if the key falls at every boundary.
* `gather_sublist`: Nothing is received twice or out of order.
* `gather_take`: Where no two pages share a key, the pages follow one another.
* `exists_gather_iff`, `exists_mem_gather_iff`: Everything is received exactly then.
-/

namespace PocketSkynet

namespace Keyset

variable {α β : Type*}

section Sorting

variable (r : α → α → Prop) [DecidableRel r]

-- An item goes in front of items that it is related to.
theorem orderedInsert_eq_cons {a : α} {m : List α} (h : ∀ x ∈ m, r a x) :
    m.orderedInsert r a = a :: m := by
  cases m with
  | nil => rfl
  | cons b m => rw [List.orderedInsert_cons, if_pos (h b List.mem_cons_self)]

variable [IsTrans α r]

theorem orderedInsert_filter (p : α → Bool) (a : α) {m : List α} (hm : m.Pairwise r) :
    (m.orderedInsert r a).filter p =
      if p a then (m.filter p).orderedInsert r a else m.filter p := by
  induction m with
  | nil => by_cases ha : p a <;> simp [ha]
  | cons b m ih =>
      rcases List.pairwise_cons.1 hm with ⟨hb, hrest⟩
      by_cases hab : r a b
      · rw [List.orderedInsert_cons, if_pos hab, List.filter_cons]
        by_cases ha : p a
        · rw [if_pos ha, if_pos ha]
          refine (orderedInsert_eq_cons r fun x hx => ?_).symm
          rcases List.mem_cons.1 (List.mem_filter.1 hx).1 with rfl | hx
          · exact hab
          · exact IsTrans.trans _ _ _ hab (hb x hx)
        · rw [if_neg ha, if_neg ha]
      · rw [List.orderedInsert_cons, if_neg hab, List.filter_cons, ih hrest]
        by_cases hpb : p b
        · by_cases ha : p a <;> simp [hpb, ha, hab]
        · by_cases ha : p a <;> simp [hpb, ha]

/-- Sorting keeps what passes a test in the order it has after sorting. -/
theorem insertionSort_filter [Std.Total r] (p : α → Bool) (l : List α) :
    (l.filter p).insertionSort r = (l.insertionSort r).filter p := by
  induction l with
  | nil => rfl
  | cons a l ih =>
      rw [List.insertionSort_cons,
        orderedInsert_filter r p a (List.pairwise_insertionSort r l), ← ih, List.filter_cons]
      by_cases ha : p a
      · rw [if_pos ha, if_pos ha, List.insertionSort_cons]
      · rw [if_neg ha, if_neg ha]

end Sorting

variable [LinearOrder β] (f : α → β) (l : List α) (limit : Nat)

/-- Sorted by falling keys. -/
def Falling : Prop := l.Pairwise fun a b => f b ≤ f a

/-- How many items have a greater key. -/
def above (key : β) : Nat := l.countP fun x => decide (key < f x)

/-- How many items have a key that is not smaller. -/
def notBelow (key : β) : Nat := l.countP fun x => decide (key ≤ f x)

/-- The items past a cursor. -/
def past : Option β → List α
  | none => l
  | some key => l.filter fun x => decide (f x < key)

/-- The first items past a cursor. -/
def page (cursor : Option β) : List α := (past f l cursor).take limit

/-- One page more, past the key of the last item received. -/
def fetch (got : List α) : List α := got ++ page f l limit (got.getLast?.map f)

/-- What is received with so many pages. -/
def gather (n : Nat) : List α := (fetch f l limit)^[n] []

/-- The items of a key fall into one page, so that no two pages share a key. -/
def Unsplit : Prop := ∀ a ∈ l, above f l (f a) / limit = (notBelow f l (f a) - 1) / limit

instance : Decidable (Unsplit f l limit) := inferInstanceAs (Decidable (∀ a ∈ l, _))

/-- The key falls at every boundary of pages. -/
def Clean : Prop := ∀ i x y, 0 < i → l[i * limit - 1]? = some x → l[i * limit]? = some y → f y < f x

variable {f l limit}

/-! ### Falling keys -/

-- A test that is passed by what comes before whatever passes it is passed by a first part.
theorem lt_countP_iff {p : α → Bool} (h : l.Pairwise fun a b => p b = true → p a = true) {i : Nat}
    {x : α} (hx : l[i]? = some x) : i < l.countP p ↔ p x = true := by
  induction l generalizing i with
  | nil => cases hx
  | cons a l ih =>
      rcases List.pairwise_cons.1 h with ⟨ha, hl⟩
      rw [List.countP_cons]
      by_cases hpa : p a = true
      · rw [if_pos hpa]
        cases i with
        | zero =>
            cases hx
            exact ⟨fun _ => hpa, fun _ => by omega⟩
        | succ i =>
            rw [← ih hl hx]
            omega
      · have hnone : ∀ b ∈ l, ¬ p b = true := fun b hb hpb => hpa (ha b hb hpb)
        rw [if_neg hpa, List.countP_eq_zero.2 hnone]
        refine ⟨fun hlt => by omega, fun hpx => ?_⟩
        rcases List.mem_cons.1 (List.mem_of_getElem? hx) with rfl | hmem
        · exact absurd hpx hpa
        · exact absurd hpx (hnone x hmem)

theorem lt_notBelow_iff (hl : Falling f l) {i : Nat} {x : α} (hx : l[i]? = some x) (key : β) :
    i < notBelow f l key ↔ key ≤ f x := by
  rw [notBelow, lt_countP_iff (hl.imp fun {a b} hab hb => ?_) hx, decide_eq_true_eq]
  rw [decide_eq_true_eq] at hb ⊢
  exact hb.trans hab

theorem lt_above_iff (hl : Falling f l) {i : Nat} {x : α} (hx : l[i]? = some x) (key : β) :
    i < above f l key ↔ key < f x := by
  rw [above, lt_countP_iff (hl.imp fun {a b} hab hb => ?_) hx, decide_eq_true_eq]
  rw [decide_eq_true_eq] at hb ⊢
  exact lt_of_lt_of_le hb hab

/-- The items past a cursor come behind the others. -/
theorem filter_append_past (hl : Falling f l) (key : β) :
    l.filter (fun x => decide (key ≤ f x)) ++ past f l (some key) = l := by
  induction l with
  | nil => rfl
  | cons a l ih =>
      rcases List.pairwise_cons.1 hl with ⟨ha, hrest⟩
      have ih := ih hrest
      rw [past] at ih ⊢
      by_cases hkey : key ≤ f a
      · simp only [List.filter_cons, hkey, not_lt.2 hkey, decide_true, decide_false, if_true,
          Bool.false_eq_true, if_false, List.cons_append, ih]
      · have hlt : f a < key := lt_of_not_ge hkey
        have hnone : l.filter (fun x => decide (key ≤ f x)) = [] := by
          refine List.filter_eq_nil_iff.2 fun b hb hle => ?_
          exact hkey ((of_decide_eq_true hle).trans (ha b hb))
        rw [hnone, List.nil_append] at ih
        simp only [List.filter_cons, hkey, hlt, decide_true, decide_false, if_true,
          Bool.false_eq_true, if_false, hnone, List.nil_append, ih]

/-- The items past a cursor are an end of the list. -/
theorem past_eq_drop (hl : Falling f l) (key : β) :
    past f l (some key) = l.drop (notBelow f l key) := by
  have hsplit := filter_append_past hl key
  rw [notBelow, List.countP_eq_length_filter]
  calc past f l (some key)
      = (l.filter (fun x => decide (key ≤ f x)) ++ past f l (some key)).drop
          (l.filter fun x => decide (key ≤ f x)).length := List.drop_left.symm
    _ = l.drop (l.filter fun x => decide (key ≤ f x)).length := by rw [hsplit]

/-! ### Boundaries -/

/-- No two pages share a key if the key falls at every boundary, and only then. -/
theorem unsplit_iff_clean (hl : Falling f l) (hlimit : 0 < limit) :
    Unsplit f l limit ↔ Clean f l limit := by
  constructor
  · intro h i x y hi hx hy
    by_contra hnot
    have hge : f x ≤ f y := le_of_not_gt hnot
    have hpos : 0 < i * limit := Nat.mul_pos hi hlimit
    -- The items on both sides have one key, whose first item is before the boundary.
    have hfirst : ¬ i * limit - 1 < above f l (f y) := by
      rw [lt_above_iff hl hx]
      exact not_lt.2 hge
    have hlast : i * limit < notBelow f l (f y) := (lt_notBelow_iff hl hy _).2 le_rfl
    have hbefore : above f l (f y) / limit < i := (Nat.div_lt_iff_lt_mul hlimit).2 (by omega)
    have hbehind : i ≤ (notBelow f l (f y) - 1) / limit :=
      (Nat.le_div_iff_mul_le hlimit).2 (by omega)
    have hsame := h y (List.mem_of_getElem? hy)
    omega
  · intro h a ha
    have hle : above f l (f a) ≤ notBelow f l (f a) - 1 := by
      rcases List.mem_iff_getElem?.1 ha with ⟨j, hj⟩
      have hlast : j < notBelow f l (f a) := (lt_notBelow_iff hl hj _).2 le_rfl
      by_contra hlt
      -- The item before the last of its key has that key, and no greater one.
      have hprev : notBelow f l (f a) - 1 < above f l (f a) := by omega
      have hlen : notBelow f l (f a) ≤ l.length := List.countP_le_length
      have hfirst : ¬ j < above f l (f a) := by
        rw [lt_above_iff hl hj]
        exact lt_irrefl _
      omega
    refine le_antisymm (Nat.div_le_div_right hle) ?_
    by_contra hle
    have hlt := lt_of_not_ge hle
    have hi : 0 < (notBelow f l (f a) - 1) / limit := Nat.zero_lt_of_lt hlt
    have hpos := Nat.mul_pos hi hlimit
    have hfirst : above f l (f a) < (notBelow f l (f a) - 1) / limit * limit :=
      (Nat.div_lt_iff_lt_mul hlimit).1 hlt
    have hlast := Nat.div_mul_le_self (notBelow f l (f a) - 1) limit
    have hlen : notBelow f l (f a) ≤ l.length := List.countP_le_length
    -- The boundary that lies between them has the key on both sides.
    rcases hx : l[(notBelow f l (f a) - 1) / limit * limit - 1]? with _ | x
    · have := List.getElem?_eq_none_iff.1 hx
      omega
    rcases hy : l[(notBelow f l (f a) - 1) / limit * limit]? with _ | y
    · have := List.getElem?_eq_none_iff.1 hy
      omega
    have hfall := h _ x y hi hx hy
    have hxa : ¬ f a < f x := by
      rw [← lt_above_iff hl hx]
      omega
    have hya : f a ≤ f y := by
      rw [← lt_notBelow_iff hl hy]
      omega
    exact hxa (lt_of_le_of_lt hya hfall)

/-! ### Fetching -/

theorem fetch_nil : fetch f l limit [] = l.take limit := rfl

/-- Where the key falls, the next page begins where the last one has ended. -/
theorem fetch_take (hl : Falling f l) {j : Nat} {x y : α} (hj : 0 < j)
    (hx : l[j - 1]? = some x) (hy : l[j]? = some y) (hfall : f y < f x) :
    fetch f l limit (l.take j) = l.take (j + limit) := by
  have hlast : (l.take j).getLast? = some x := by
    rw [List.getLast?_take, if_neg (by omega), hx]
    rfl
  have hupper : j - 1 < notBelow f l (f x) := (lt_notBelow_iff hl hx _).2 le_rfl
  have hlower : ¬ j < notBelow f l (f x) := by
    rw [lt_notBelow_iff hl hy]
    exact not_le.2 hfall
  have hplace : notBelow f l (f x) = j := by omega
  rw [fetch, hlast, Option.map_some, page, past_eq_drop hl, hplace, List.take_add]

/-- There is nothing past the last item. -/
theorem fetch_self (hl : Falling f l) : fetch f l limit l = l := by
  rcases hlast : l.getLast? with _ | x
  · rw [List.getLast?_eq_none_iff.1 hlast, fetch_nil, List.take_nil]
  rw [List.getLast?_eq_getElem?] at hlast
  have hlen := (List.getElem?_eq_some_iff.1 hlast).1
  have hupper : l.length - 1 < notBelow f l (f x) := (lt_notBelow_iff hl hlast _).2 le_rfl
  rw [fetch, List.getLast?_eq_getElem?, hlast, Option.map_some, page, past_eq_drop hl,
    List.drop_eq_nil_of_le (by omega), List.take_nil, List.append_nil]

theorem gather_succ (n : Nat) : gather f l limit (n + 1) = fetch f l limit (gather f l limit n) :=
  Function.iterate_succ_apply' _ _ _

-- Only items of the list are received.
theorem mem_of_gather {n : Nat} {x : α} (h : x ∈ gather f l limit n) : x ∈ l := by
  induction n with
  | zero => cases h
  | succ n ih =>
      rw [gather_succ, fetch] at h
      rcases List.mem_append.1 h with h | h
      · exact ih h
      · have hpast := List.mem_of_mem_take h
        cases hcursor : (gather f l limit n).getLast?.map f with
        | none => rwa [hcursor] at hpast
        | some key =>
            rw [hcursor] at hpast
            exact (List.mem_filter.1 hpast).1

-- Past a smaller key there is the same, whether or not the list is cut at a greater one before.
theorem past_past {key key' : β} (h : key' ≤ key) :
    past f (past f l (some key)) (some key') = past f l (some key') := by
  rw [past, past, past, List.filter_filter]
  refine List.filter_congr fun x _ => ?_
  by_cases hx : f x < key'
  · rw [decide_eq_true hx, decide_eq_true (lt_of_lt_of_le hx h), Bool.and_self]
  · rw [decide_eq_false hx, Bool.false_and]

/-- What is received later is what paging receives that starts past the last item. -/
theorem iterate_fetch {got : List α} {z : α} (hlast : got.getLast? = some z) (n : Nat) :
    (fetch f l limit)^[n] got = got ++ gather f (past f l (some (f z))) limit n := by
  induction n with
  | zero => rw [gather, Function.iterate_zero_apply, Function.iterate_zero_apply, List.append_nil]
  | succ n ih =>
      rw [Function.iterate_succ_apply', ih, gather_succ, fetch, fetch, List.append_assoc]
      refine congrArg (got ++ ·) (congrArg (gather f (past f l (some (f z))) limit n ++ ·) ?_)
      -- The cursor stands at an item received since, or still at the last one before.
      rw [List.getLast?_append]
      rcases hw : (gather f (past f l (some (f z))) limit n).getLast? with _ | w
      · rw [hlast]
        rfl
      · rw [Option.some_or, Option.map_some, page, page, past_past]
        have hmem := mem_of_gather (List.mem_of_getLast? hw)
        exact le_of_lt (of_decide_eq_true (List.mem_filter.1 hmem).2)

/-- What is received later has smaller keys than what has been received. -/
theorem older_of_iterate {got : List α} {z : α} (hlast : got.getLast? = some z) (n : Nat) :
    ∃ rest, (fetch f l limit)^[n] got = got ++ rest ∧ ∀ x ∈ rest, f x < f z := by
  refine ⟨_, iterate_fetch hlast n, fun x hx => ?_⟩
  exact of_decide_eq_true (List.mem_filter.1 (mem_of_gather hx)).2

-- The pages follow one another as long as the key falls at each boundary that is reached.
theorem gather_take_of (hl : Falling f l) (hlimit : 0 < limit) (n : Nat)
    (hfalls : ∀ i x y, i < n → gather f l limit i = l.take (i * limit) → 0 < i →
      l[i * limit - 1]? = some x → l[i * limit]? = some y → f y < f x) :
    gather f l limit n = l.take (n * limit) := by
  induction n with
  | zero => rw [Nat.zero_mul, List.take_zero, gather, Function.iterate_zero_apply]
  | succ n ih =>
      have hn := ih fun i x y hi => hfalls i x y (by omega)
      rw [gather_succ, hn, Nat.succ_mul]
      rcases Nat.eq_zero_or_pos n with rfl | hpos
      · rw [Nat.zero_mul, List.take_zero, Nat.zero_add, fetch_nil]
      · have hp := Nat.mul_pos hpos hlimit
        rcases hy : l[n * limit]? with _ | y
        · -- Everything has been received.
          have hlen := List.getElem?_eq_none_iff.1 hy
          rw [List.take_of_length_le hlen, fetch_self hl, List.take_of_length_le (by omega)]
        · have hlen := (List.getElem?_eq_some_iff.1 hy).1
          rcases hx : l[n * limit - 1]? with _ | x
          · have := List.getElem?_eq_none_iff.1 hx
            omega
          · exact fetch_take hl hp hx hy (hfalls n x y (by omega) hn hpos hx hy)

/-- Where the key falls at every boundary, the pages follow one another. -/
theorem gather_take (hl : Falling f l) (hlimit : 0 < limit) (hclean : Clean f l limit) (n : Nat) :
    gather f l limit n = l.take (n * limit) :=
  gather_take_of hl hlimit n fun i x y _ _ hi hx hy => hclean i x y hi hx hy

/-- What has been received all the same is received page by page, and the key falls between. -/
theorem clean_of_gather (hl : Falling f l) (hlimit : 0 < limit) {m : Nat}
    (h : gather f l limit m = l) : Clean f l limit := by
  -- If the pages have followed one another so far, the key falls at the next boundary.
  have hfalls : ∀ i x y, i ≤ m → gather f l limit i = l.take (i * limit) → 0 < i →
      l[i * limit - 1]? = some x → l[i * limit]? = some y → f y < f x := by
    intro i x y him hi hpos hx hy
    have hp := Nat.mul_pos hpos hlimit
    have hlast : (gather f l limit i).getLast? = some x := by
      rw [hi, List.getLast?_take, if_neg (by omega), hx]
      rfl
    have hlater : ∃ rest, (fetch f l limit)^[m - i] (gather f l limit i) =
        gather f l limit i ++ rest ∧ ∀ z ∈ rest, f z < f x := older_of_iterate hlast (m - i)
    rcases hlater with ⟨rest, hrest, hold⟩
    have hall : (fetch f l limit)^[m - i] (gather f l limit i) = l := by
      rw [gather, ← Function.iterate_add_apply, Nat.sub_add_cancel him]
      exact h
    rw [hall, hi] at hrest
    have hdrop : rest = l.drop (i * limit) := by
      have hsame : l.take (i * limit) ++ rest = l.take (i * limit) ++ l.drop (i * limit) := by
        rw [← hrest, List.take_append_drop]
      exact List.append_cancel_left hsame
    refine hold y ?_
    rw [hdrop]
    exact List.mem_iff_getElem?.2 ⟨0, by rw [List.getElem?_drop, Nat.add_zero, hy]⟩
  have hpages : ∀ i, i ≤ m → gather f l limit i = l.take (i * limit) := fun i him =>
    gather_take_of hl hlimit i fun i' x y hi' => hfalls i' x y (by omega)
  intro i x y hi hx hy
  -- All boundaries have been passed.
  have hlen := (List.getElem?_eq_some_iff.1 hy).1
  have hm := hpages m le_rfl
  rw [h] at hm
  have hcut := congrArg List.length hm
  rw [List.length_take] at hcut
  have him : i < m := Nat.lt_of_mul_lt_mul_right (hlen.trans_le (by omega))
  exact hfalls i x y him.le (hpages i him.le) hi hx hy

/-! ### Receiving everything -/

-- Nothing is received twice or out of order.
theorem fetch_sublist (hl : Falling f l) {got : List α} (hgot : got.Sublist l) :
    (fetch f l limit got).Sublist l := by
  rcases hlast : got.getLast? with _ | z
  · rw [List.getLast?_eq_none_iff.1 hlast, fetch_nil]
    exact List.take_sublist limit l
  rw [fetch, hlast, Option.map_some]
  -- What has been received is not past the cursor.
  have hkept : got.filter (fun x => decide (f z ≤ f x)) = got := by
    refine List.filter_eq_self.2 fun x hx => decide_eq_true ?_
    have hfall : got.Pairwise fun a b => f b ≤ f a := hl.sublist hgot
    rcases List.getLast?_eq_some_iff.1 hlast with ⟨init, rfl⟩
    rcases List.mem_append.1 hx with hx | hx
    · exact (List.pairwise_append.1 hfall).2.2 x hx z (List.mem_singleton_self z)
    · rw [List.mem_singleton.1 hx]
  have hfront : got.Sublist (l.filter fun x => decide (f z ≤ f x)) := by
    rw [← hkept]
    exact hgot.filter _
  have hback : (page f l limit (some (f z))).Sublist (past f l (some (f z))) :=
    List.take_sublist limit _
  have hboth := hfront.append hback
  rwa [filter_append_past hl (f z)] at hboth

theorem gather_sublist (hl : Falling f l) (n : Nat) : (gather f l limit n).Sublist l := by
  induction n with
  | zero => exact List.nil_sublist l
  | succ n ih =>
      rw [gather_succ]
      exact fetch_sublist hl ih

/-- Everything is received if no two pages share a key, and only then. -/
theorem exists_gather_iff (hl : Falling f l) (hlimit : 0 < limit) :
    (∃ n, gather f l limit n = l) ↔ Unsplit f l limit := by
  rw [unsplit_iff_clean hl hlimit]
  constructor
  · rintro ⟨n, hn⟩
    exact clean_of_gather hl hlimit hn
  · intro hclean
    refine ⟨l.length, ?_⟩
    rw [gather_take hl hlimit hclean]
    exact List.take_of_length_le (Nat.le_mul_of_pos_right _ hlimit)

/-- The same, item by item. -/
theorem exists_mem_gather_iff (hl : Falling f l) (hlimit : 0 < limit) (hnodup : l.Nodup) :
    (∃ n, ∀ a ∈ l, a ∈ gather f l limit n) ↔ Unsplit f l limit := by
  rw [← exists_gather_iff hl hlimit]
  refine exists_congr fun n => ⟨fun h => ?_, fun h a ha => by rwa [h]⟩
  refine (gather_sublist hl n).eq_of_length_le ?_
  exact (List.subperm_of_subset hnodup h).length_le

-- The condition does not depend on the order of the list.
theorem unsplit_perm {l' : List α} (h : l.Perm l') : Unsplit f l limit ↔ Unsplit f l' limit := by
  unfold Unsplit above notBelow
  simp only [h.mem_iff, h.countP_eq]

end Keyset

end PocketSkynet
