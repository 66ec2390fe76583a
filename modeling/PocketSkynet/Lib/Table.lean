import Mathlib.Data.List.Basic
import Mathlib.Data.List.Nodup
import Mathlib.Order.Lattice

/-!
# Keyed Tables

A table is a list of rows in insertion order whose key is read off the row
itself. The operations are the statements a store runs: look a key up, insert
or overwrite (`upsert`), insert unless present (`insertNew`), update in place
(`modify`) and delete (`erase`). Each is characterised by what it does to every
lookup, so that later arguments never look inside the list.

`Keyed` is the primary key constraint. Lookups need it in one direction only:
to say that every row of the table is the one its key finds.

## Main definitions

* `lookup`: The row stored under a key.
* `upsert`: Insert a row, or overwrite the row that has its key.
* `insertNew`: Insert a row unless its key is taken.
* `modify`: Update the row under a key in place.
* `erase`: Delete the row under a key.
* `Keyed`: No two rows share a key.

## Theorems

* `lookup_upsert`, `lookup_insertNew`, `lookup_modify`, `lookup_erase`: Each
  operation by its effect on every lookup.
* `keyed_upsert`, `keyed_insertNew`, `keyed_modify`, `keyed_erase`: Each
  operation keeps the key constraint.
* `lookup_filter_of_keyed`: Under the constraint a filter acts on lookups.
* `flatMap_classes`: Rows sorted by a key are its classes, one after the other.
-/

namespace PocketSkynet

namespace Table

variable {α κ : Type*} [DecidableEq κ] (key : α → κ)

/-- The first row stored under `k`. -/
def lookup (k : κ) (l : List α) : Option α := l.find? fun x => key x = k

/-- Overwrite the row with the key of `x`, or append `x`. -/
def upsert (x : α) (l : List α) : List α :=
  if (lookup key (key x) l).isSome then l.map fun y => if key y = key x then x else y
  else l ++ [x]

/-- Append `x` unless its key is taken. -/
def insertNew (x : α) (l : List α) : List α :=
  if (lookup key (key x) l).isSome then l else l ++ [x]

/-- Apply `f` to the row under `k`. -/
def modify (k : κ) (f : α → α) (l : List α) : List α :=
  l.map fun x => if key x = k then f x else x

/-- Delete the row under `k`. -/
def erase (k : κ) (l : List α) : List α := l.filter fun x => key x ≠ k

/-- No two rows share a key. -/
def Keyed (l : List α) : Prop := (l.map key).Nodup

instance (l : List α) : Decidable (Keyed key l) := inferInstanceAs (Decidable (l.map key).Nodup)

@[simp] theorem lookup_nil (k : κ) : lookup key k [] = none := rfl

@[simp] theorem lookup_cons (k : κ) (x : α) (l : List α) :
    lookup key k (x :: l) = if key x = k then some x else lookup key k l := by
  by_cases h : key x = k <;> simp [lookup, h]

theorem lookup_append (k : κ) (l m : List α) :
    lookup key k (l ++ m) = (lookup key k l).or (lookup key k m) := by
  simp [lookup, List.find?_append]

variable {key}

theorem mem_of_lookup {k : κ} {x : α} {l : List α} (h : lookup key k l = some x) : x ∈ l :=
  List.mem_of_find?_eq_some h

theorem key_of_lookup {k : κ} {x : α} {l : List α} (h : lookup key k l = some x) :
    key x = k := by
  simpa using List.find?_some h

theorem lookup_eq_none {k : κ} {l : List α} :
    lookup key k l = none ↔ ∀ x ∈ l, key x ≠ k := by
  simp [lookup]

theorem lookup_isSome {k : κ} {l : List α} :
    (lookup key k l).isSome ↔ ∃ x ∈ l, key x = k := by
  simp [lookup]

/-- Under the key constraint a row is found by its own key. -/
theorem lookup_of_mem {l : List α} (hl : Keyed key l) {x : α} (hx : x ∈ l) :
    lookup key (key x) l = some x := by
  induction l with
  | nil => cases hx
  | cons y l ih =>
      have hy : key y ∉ l.map key ∧ Keyed key l := List.nodup_cons.1 hl
      rcases List.mem_cons.1 hx with rfl | hx
      · simp
      · have hne : key y ≠ key x := fun he => hy.1 (he ▸ List.mem_map_of_mem hx)
        rw [lookup_cons, if_neg hne, ih hy.2 hx]

theorem mem_iff_lookup {l : List α} (hl : Keyed key l) {x : α} :
    x ∈ l ↔ lookup key (key x) l = some x :=
  ⟨fun hx => lookup_of_mem hl hx, mem_of_lookup⟩

theorem lookup_map_key {k : κ} {f : α → α} (hf : ∀ x, key (f x) = key x) (l : List α) :
    lookup key k (l.map f) = (lookup key k l).map f := by
  induction l with
  | nil => rfl
  | cons x l ih =>
      by_cases h : key x = k <;> simp [hf, h, ih]

theorem lookup_upsert (k : κ) (x : α) (l : List α) :
    lookup key k (upsert key x l) = if k = key x then some x else lookup key k l := by
  unfold upsert
  by_cases hs : (lookup key (key x) l).isSome
  · have hkey : ∀ y, key (if key y = key x then x else y) = key y := by
      intro y
      by_cases hy : key y = key x <;> simp [hy]
    rw [if_pos hs, lookup_map_key hkey]
    by_cases hk : k = key x
    · obtain ⟨y, hy⟩ := Option.isSome_iff_exists.1 hs
      rw [hk, hy, if_pos rfl, Option.map_some, if_pos (key_of_lookup hy)]
    · rw [if_neg hk]
      cases hy : lookup key k l with
      | none => rfl
      | some y =>
          have hne : key y ≠ key x := fun he => hk ((key_of_lookup hy).symm.trans he)
          rw [Option.map_some, if_neg hne]
  · have hn : lookup key (key x) l = none := by simpa using hs
    rw [if_neg hs, lookup_append, lookup_cons, lookup_nil]
    by_cases hk : k = key x
    · subst hk
      simp [hn]
    · simp [hk, Ne.symm hk]

theorem lookup_insertNew (k : κ) (x : α) (l : List α) :
    lookup key k (insertNew key x l) =
      if k = key x then (lookup key k l).or (some x) else lookup key k l := by
  unfold insertNew
  by_cases hs : (lookup key (key x) l).isSome
  · rw [if_pos hs]
    by_cases hk : k = key x
    · obtain ⟨y, hy⟩ := Option.isSome_iff_exists.1 hs
      simp [hk, hy]
    · rw [if_neg hk]
  · rw [if_neg hs, lookup_append, lookup_cons, lookup_nil]
    by_cases hk : k = key x
    · simp [hk]
    · simp [hk, Ne.symm hk]

theorem lookup_modify (k k' : κ) (f : α → α) (hf : ∀ x, key (f x) = key x) (l : List α) :
    lookup key k' (modify key k f l) =
      if k' = k then (lookup key k' l).map f else lookup key k' l := by
  have hkey : ∀ x, key (if key x = k then f x else x) = key x := by
    intro x
    by_cases hx : key x = k <;> simp [hx, hf]
  unfold modify
  rw [lookup_map_key hkey]
  cases hx : lookup key k' l with
  | none => simp
  | some x =>
      have hkx : key x = k' := key_of_lookup hx
      by_cases hk : k' = k <;> simp [hkx, hk]

theorem lookup_erase (k k' : κ) (l : List α) :
    lookup key k' (erase key k l) = if k' = k then none else lookup key k' l := by
  induction l with
  | nil => simp [erase]
  | cons x l ih =>
      unfold erase at ih ⊢
      by_cases hx : key x = k
      · simp only [List.filter_cons, hx, ne_eq, not_true_eq_false, decide_false,
          Bool.false_eq_true, if_false, ih, lookup_cons]
        by_cases hk : k' = k
        · simp [hk]
        · simp [hk, Ne.symm hk]
      · simp only [List.filter_cons, hx, ne_eq, not_false_eq_true, decide_true, if_true,
          lookup_cons, ih]
        by_cases hk : k' = k
        · subst hk
          simp [hx]
        · simp [hk]

/-- Keeping the rows with some keys. -/
theorem lookup_filter (p : κ → Bool) (k : κ) (l : List α) :
    lookup key k (l.filter fun x => p (key x)) = if p k then lookup key k l else none := by
  induction l with
  | nil => simp
  | cons x l ih =>
      by_cases hx : key x = k
      · subst hx
        by_cases hp : p (key x) = true <;> simp [hp, ih]
      · by_cases hp : p (key x) = true <;> simp [hp, hx, ih]

theorem mem_of_mem_upsert {x y : α} {l : List α} (h : y ∈ upsert key x l) : y = x ∨ y ∈ l := by
  unfold upsert at h
  split at h
  · obtain ⟨z, hz, rfl⟩ := List.mem_map.1 h
    by_cases hk : key z = key x
    · exact Or.inl (if_pos hk)
    · exact Or.inr (by rwa [if_neg hk])
  · rcases List.mem_append.1 h with h | h
    · exact Or.inr h
    · exact Or.inl (List.mem_singleton.1 h)

-- What is inserted unless it is there is there.
theorem exists_insertNew (key : α → κ) (x : α) (l : List α) :
    ∃ y ∈ insertNew key x l, key y = key x := by
  unfold insertNew
  by_cases h : (lookup key (key x) l).isSome
  · rw [if_pos h]
    exact lookup_isSome.1 h
  · rw [if_neg h]
    exact ⟨x, List.mem_append_right _ (List.mem_singleton_self x), rfl⟩

theorem insertNew_of_exists {x : α} {l : List α} (h : ∃ y ∈ l, key y = key x) :
    insertNew key x l = l :=
  if_pos (lookup_isSome.2 h)

theorem mem_of_mem_insertNew {x y : α} {l : List α} (h : y ∈ insertNew key x l) :
    y = x ∨ y ∈ l := by
  unfold insertNew at h
  split at h
  · exact Or.inr h
  · rcases List.mem_append.1 h with h | h
    · exact Or.inr h
    · exact Or.inl (List.mem_singleton.1 h)

theorem mem_insertNew_of_mem {x y : α} {l : List α} (h : y ∈ l) : y ∈ insertNew key x l := by
  unfold insertNew
  split
  · exact h
  · exact List.mem_append_left _ h

theorem mem_erase {k : κ} {l : List α} {x : α} : x ∈ erase key k l ↔ x ∈ l ∧ key x ≠ k := by
  simp [erase]

theorem mem_modify {k : κ} {f : α → α} {l : List α} {x : α} :
    x ∈ modify key k f l ↔ ∃ y ∈ l, (if key y = k then f y else y) = x := List.mem_map

omit [DecidableEq κ] in
theorem keyed_nil : Keyed key ([] : List α) := List.nodup_nil

theorem keyed_append_one {x : α} {l : List α} (hl : Keyed key l)
    (hx : lookup key (key x) l = none) : Keyed key (l ++ [x]) := by
  unfold Keyed
  rw [List.map_append, List.nodup_append]
  refine ⟨hl, by simp, ?_⟩
  intro a ha b hb
  obtain ⟨y, hy, rfl⟩ := List.mem_map.1 ha
  simp only [List.map_cons, List.map_nil, List.mem_singleton] at hb
  exact hb ▸ lookup_eq_none.1 hx y hy

omit [DecidableEq κ] in
theorem keyed_map {f : α → α} (hf : ∀ x, key (f x) = key x) {l : List α}
    (hl : Keyed key l) : Keyed key (l.map f) := by
  have hmap : (l.map f).map key = l.map key := by simp [hf]
  unfold Keyed
  rw [hmap]
  exact hl

theorem keyed_upsert (x : α) {l : List α} (hl : Keyed key l) : Keyed key (upsert key x l) := by
  unfold upsert
  by_cases hs : (lookup key (key x) l).isSome
  · rw [if_pos hs]
    refine keyed_map (fun y => ?_) hl
    by_cases hy : key y = key x <;> simp [hy]
  · rw [if_neg hs]
    exact keyed_append_one hl (by simpa using hs)

theorem keyed_insertNew (x : α) {l : List α} (hl : Keyed key l) :
    Keyed key (insertNew key x l) := by
  unfold insertNew
  by_cases hs : (lookup key (key x) l).isSome
  · rw [if_pos hs]
    exact hl
  · rw [if_neg hs]
    exact keyed_append_one hl (by simpa using hs)

theorem keyed_modify (k : κ) {f : α → α} (hf : ∀ x, key (f x) = key x) {l : List α}
    (hl : Keyed key l) : Keyed key (modify key k f l) := by
  refine keyed_map (fun x => ?_) hl
  by_cases hx : key x = k <;> simp [hx, hf]

omit [DecidableEq κ] in
theorem keyed_filter (p : α → Bool) {l : List α} (hl : Keyed key l) : Keyed key (l.filter p) :=
  List.Nodup.sublist (List.Sublist.map key List.filter_sublist) hl

theorem keyed_erase (k : κ) {l : List α} (hl : Keyed key l) : Keyed key (erase key k l) :=
  keyed_filter _ hl

-- Deleting a row that is there makes the table shorter by one.
theorem length_erase {k : κ} {x : α} {l : List α} (hl : Keyed key l)
    (hx : lookup key k l = some x) : (erase key k l).length + 1 = l.length := by
  induction l with
  | nil => cases hx
  | cons y l ih =>
      have hy : key y ∉ l.map key ∧ Keyed key l := List.nodup_cons.1 hl
      by_cases h : key y = k
      · have hrest : erase key k l = l := by
          refine List.filter_eq_self.2 fun z hz => ?_
          have hne : key z ≠ k := fun he => hy.1 (h ▸ he ▸ List.mem_map_of_mem hz)
          simpa using hne
        have hgone : erase key k (y :: l) = erase key k l := by simp [erase, h]
        rw [hgone, hrest, List.length_cons]
      · rw [lookup_cons, if_neg h] at hx
        have hkept : erase key k (y :: l) = y :: erase key k l := by simp [erase, h]
        rw [hkept, List.length_cons, ih hy.2 hx, List.length_cons]

-- What is deleted is no longer counted.
theorem countP_erase {k : κ} {x : α} {l : List α} (p : α → Bool) (hx : lookup key k l = some x) :
    (erase key k l).countP p + (if p x then 1 else 0) ≤ l.countP p := by
  induction l with
  | nil => cases hx
  | cons y l ih =>
      by_cases h : key y = k
      · have hy : y = x := by
          rw [lookup_cons, if_pos h] at hx
          exact Option.some.inj hx
        have hgone : erase key k (y :: l) = erase key k l := by simp [erase, h]
        have hrest : (erase key k l).countP p ≤ l.countP p :=
          List.Sublist.countP_le List.filter_sublist
        rw [hgone, hy, List.countP_cons]
        omega
      · have hkept : erase key k (y :: l) = y :: erase key k l := by simp [erase, h]
        rw [lookup_cons, if_neg h] at hx
        have hrest := ih hx
        rw [hkept, List.countP_cons, List.countP_cons]
        omega

/-- A row that is overwritten may agree with the new one in a second key, which is then
    kept unique as well. -/
theorem keyed_upsert_of {κ' : Type*} [DecidableEq κ'] {key' : α → κ'} {x : α} {l : List α}
    (hl : Keyed key' l) (hsame : ∀ y ∈ l, key y = key x → key' y = key' x)
    (hfresh : lookup key (key x) l = none → lookup key' (key' x) l = none) :
    Keyed key' (upsert key x l) := by
  unfold upsert
  by_cases hs : (lookup key (key x) l).isSome
  · have hmap : (l.map fun y => if key y = key x then x else y).map key' = l.map key' := by
      rw [List.map_map]
      refine List.map_congr_left fun y hy => ?_
      by_cases hk : key y = key x
      · simp [hk, hsame y hy hk]
      · simp [hk]
    rw [if_pos hs]
    unfold Keyed
    rw [hmap]
    exact hl
  · rw [if_neg hs]
    exact keyed_append_one hl (hfresh (by simpa using hs))

/-- Under the constraint a filter keeps the row under a key or loses it. -/
theorem lookup_filter_of_keyed {l : List α} (hl : Keyed key l) (p : α → Bool) (k : κ) :
    lookup key k (l.filter p) = (lookup key k l).filter p := by
  cases hx : lookup key k l with
  | none =>
      rw [Option.filter_none, lookup_eq_none]
      exact fun y hy => lookup_eq_none.1 hx y (List.mem_of_mem_filter hy)
  | some x =>
      rw [Option.filter_some]
      split
      next hp =>
        rw [← key_of_lookup hx]
        exact lookup_of_mem (keyed_filter p hl) (List.mem_filter.2 ⟨mem_of_lookup hx, hp⟩)
      next hp =>
        rw [lookup_eq_none]
        intro y hy he
        have hsame := lookup_of_mem hl (List.mem_of_mem_filter hy)
        rw [he, hx] at hsame
        exact hp ((Option.some.inj hsame) ▸ (List.mem_filter.1 hy).2)

/-- Rows sorted by a key are the classes of the key, one after the other. -/
theorem flatMap_classes {ν : Type*} [LinearOrder ν] {key : α → ν} {ks : List ν}
    (hks : ks.Pairwise (· < ·)) {l : List α}
    (hl : l.Pairwise fun x y => key x ≤ key y) :
    (ks.flatMap fun k => l.filter fun x => key x = k) = l.filter fun x => key x ∈ ks := by
  induction l with
  | nil => simp
  | cons x l ih =>
      have hlater := (List.pairwise_cons.1 hl).1
      have hrest := ih (List.pairwise_cons.1 hl).2
      by_cases hx : key x ∈ ks
      · -- Classes before that of `x` are empty, for every row comes after `x`.
        obtain ⟨pre, post, rfl⟩ := List.append_of_mem hx
        have hpre : ∀ k ∈ pre, k < key x := fun k hk =>
          (List.pairwise_append.1 hks).2.2 k hk (key x) List.mem_cons_self
        have hpost : ∀ k ∈ post, key x < k := fun k hk =>
          (List.pairwise_cons.1 (List.pairwise_append.1 hks).2.1).1 k hk
        have hnone : ∀ m : List α, (∀ y ∈ m, key x ≤ key y) →
            (pre.flatMap fun k => m.filter fun y => key y = k) = [] := by
          intro m hm
          rw [List.flatMap_eq_nil_iff]
          intro k hk
          rw [List.filter_eq_nil_iff]
          intro y hy
          have := (hpre k hk).trans_le (hm y hy)
          simpa using this.ne'
        have hskip : (post.flatMap fun k => (x :: l).filter fun y => key y = k) =
            post.flatMap fun k => l.filter fun y => key y = k := by
          refine List.flatMap_congr fun k hk => ?_
          rw [List.filter_cons_of_neg (by simpa using (hpost k hk).ne)]
        rw [List.filter_cons_of_pos (by simp [hx]), ← hrest, List.flatMap_append,
          List.flatMap_append, hnone l hlater, List.flatMap_cons, List.flatMap_cons, hskip,
          hnone (x :: l) (by simpa using hlater)]
        simp
      · have hsame : (ks.flatMap fun k => (x :: l).filter fun y => key y = k) =
            ks.flatMap fun k => l.filter fun y => key y = k := by
          refine List.flatMap_congr fun k hk => ?_
          rw [List.filter_cons_of_neg (by simpa using fun he : key x = k => hx (he ▸ hk))]
        rw [hsame, hrest, List.filter_cons_of_neg (by simpa using hx)]

end Table

end PocketSkynet
