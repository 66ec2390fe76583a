import Mathlib.Data.List.Dedup
import Mathlib.Data.List.Sort

/-!
# The First Entry of Every Key

A list with several entries for one key, of which the first one counts. A stable sort keeps
the entries of one key in their order, so it is enough to sort the list and to drop every
entry that has the key of the one kept before it.

## Main definitions

* `keysUp`: The keys of a list, each once, in order.
* `firsts`: For every key the first entry that has it, in the order of the keys.
* `keepUnseen`: The same in the order of the list.

## Theorems

* `keysUp_congr`: The keys depend on which ones there are.
* `map_firsts`: Every key once, in order.
* `mem_firsts`: What is kept is the first entry of its key.
* `mem_keepUnseen`: Where every key has one entry, every entry is kept.
-/

namespace PocketSkynet

section Firsts

variable {α κ : Type} [DecidableEq κ] (r : κ → κ → Prop) [DecidableRel r] (key : α → κ)

/-- The keys of a list, each once, in order. -/
def keysUp (keys : List κ) : List κ := keys.dedup.insertionSort r

/-- Keep an entry, unless the last one that was kept has its key. -/
def keepFirst (chosen : List α) (a : α) : List α :=
  if chosen.getLast?.map key ≠ some (key a) then chosen ++ [a] else chosen

/-- For every key the first entry that has it, in the order of the keys. -/
def firsts (l : List α) : List α :=
  (l.insertionSort fun a b => r (key a) (key b)).foldl (keepFirst key) []

/-- Keep every entry whose key has not been seen yet. -/
def keepUnseen : List κ → List α → List α
  | _, [] => []
  | seen, a :: l =>
      if key a ∈ seen then keepUnseen seen l else a :: keepUnseen (key a :: seen) l

variable {r key}

-- An entry that is alone with its key is kept, unless its key has been seen.
theorem mem_keepUnseen (seen : List κ) (l : List α)
    (halone : ∀ a ∈ l, ∀ b ∈ l, key a = key b → a = b) (a : α) :
    a ∈ keepUnseen key seen l ↔ a ∈ l ∧ key a ∉ seen := by
  induction l generalizing seen with
  | nil => simp [keepUnseen]
  | cons b l ih =>
      have hrest : ∀ a ∈ l, ∀ b ∈ l, key a = key b → a = b := fun a ha b hb =>
        halone a (List.mem_cons_of_mem _ ha) b (List.mem_cons_of_mem _ hb)
      by_cases hb : key b ∈ seen
      · rw [keepUnseen, if_pos hb, ih seen hrest, List.mem_cons]
        constructor
        · exact fun h => ⟨Or.inr h.1, h.2⟩
        · rintro ⟨rfl | ha, hseen⟩
          · exact absurd hb hseen
          · exact ⟨ha, hseen⟩
      · rw [keepUnseen, if_neg hb, List.mem_cons, List.mem_cons, ih _ hrest, List.mem_cons]
        constructor
        · rintro (rfl | ⟨ha, hseen⟩)
          · exact ⟨Or.inl rfl, hb⟩
          · exact ⟨Or.inr ha, fun h => hseen (Or.inr h)⟩
        · rintro ⟨rfl | ha, hseen⟩
          · exact Or.inl rfl
          · by_cases hkey : key a = key b
            · exact Or.inl (halone a (List.mem_cons_of_mem _ ha) b List.mem_cons_self hkey)
            · exact Or.inr ⟨ha, fun h => h.elim hkey hseen⟩

-- No key is kept twice.
theorem nodup_keepUnseen (seen : List κ) (l : List α) :
    ((keepUnseen key seen l).map key).Nodup ∧
      ∀ k ∈ (keepUnseen key seen l).map key, k ∉ seen := by
  induction l generalizing seen with
  | nil => exact ⟨List.nodup_nil, fun _ h => absurd h List.not_mem_nil⟩
  | cons b l ih =>
      by_cases hb : key b ∈ seen
      · rw [keepUnseen, if_pos hb]
        exact ih seen
      · rw [keepUnseen, if_neg hb, List.map_cons, List.nodup_cons]
        rcases ih (key b :: seen) with ⟨hnodup, hfresh⟩
        refine ⟨⟨fun h => hfresh _ h List.mem_cons_self, hnodup⟩, fun k hk => ?_⟩
        rcases List.mem_cons.1 hk with rfl | hk
        · exact hb
        · exact fun h => hfresh k hk (List.mem_cons_of_mem _ h)

-- Only which keys have been seen matters.
theorem keepUnseen_congr {seen seen' : List κ} (h : ∀ k, k ∈ seen ↔ k ∈ seen') (l : List α) :
    keepUnseen key seen l = keepUnseen key seen' l := by
  induction l generalizing seen seen' with
  | nil => rfl
  | cons a l ih =>
      rw [keepUnseen, keepUnseen]
      refine if_ctx_congr (h (key a)) (fun _ => ih h) fun _ => congrArg (a :: ·) (ih fun k => ?_)
      rw [List.mem_cons, List.mem_cons, h]

-- A list in which every key is new stays as it is.
theorem keepUnseen_of_nodup {seen : List κ} {l : List α} (hnodup : (l.map key).Nodup)
    (hnew : ∀ a ∈ l, key a ∉ seen) : keepUnseen key seen l = l := by
  induction l generalizing seen with
  | nil => rfl
  | cons a l ih =>
      rw [List.map_cons, List.nodup_cons] at hnodup
      rw [keepUnseen, if_neg (hnew a List.mem_cons_self), ih hnodup.2 fun b hb hseen => ?_]
      rcases List.mem_cons.1 hseen with heq | hseen
      · exact hnodup.1 (List.mem_map.2 ⟨b, hb, heq⟩)
      · exact hnew b (List.mem_cons_of_mem a hb) hseen

section Total

variable [Std.Total r]

-- An entry is put in front of the entries of its own key.
theorem find?_orderedInsert (a : α) (l : List α) (k : κ) :
    (l.orderedInsert (fun a b => r (key a) (key b)) a).find? (fun b => key b = k) =
      (a :: l).find? fun b => key b = k := by
  induction l with
  | nil => rfl
  | cons b l ih =>
      by_cases hab : r (key a) (key b)
      · rw [List.orderedInsert, if_pos hab]
      · rw [List.orderedInsert, if_neg hab]
        by_cases hb : key b = k
        · have ha : ¬ key a = k := by
            intro ha
            rw [ha, hb] at hab
            exact hab (refl_of r k)
          simp [hb, ha]
        · by_cases ha : key a = k
          · simp [hb, ha, ih]
          · simp [hb, ha, ih]

/-- A stable sort does not change which entry of a key is the first. -/
theorem find?_insertionSort (l : List α) (k : κ) :
    (l.insertionSort fun a b => r (key a) (key b)).find? (fun b => key b = k) =
      l.find? fun b => key b = k := by
  induction l with
  | nil => rfl
  | cons a l ih =>
      rw [List.insertionSort_cons, find?_orderedInsert, List.find?_cons, List.find?_cons, ih]

end Total

variable [Std.Total r] [IsTrans κ r] [Std.Antisymm r]

/-- What has been kept of the entries read so far: each key once, in order, and of each key
    the first entry. -/
structure KeptFirsts (r : κ → κ → Prop) (key : α → κ) (read chosen : List α) : Prop where
  sorted : chosen.Pairwise fun a b => r (key a) (key b) ∧ key a ≠ key b
  find : ∀ k, chosen.find? (fun b => key b = k) = read.find? fun b => key b = k

omit [DecidableRel r] [Std.Total r] [IsTrans κ r] in
theorem keptFirsts_keepFirst {read chosen : List α} {a : α} (h : KeptFirsts r key read chosen)
    (hsorted : ∀ b ∈ read, r (key b) (key a)) :
    KeptFirsts r key (read ++ [a]) (keepFirst key chosen a) := by
  unfold keepFirst
  by_cases hlast : chosen.getLast?.map key = some (key a)
  · -- The key has an entry already, and it stays the first one.
    rw [if_neg (not_not_intro hlast)]
    rcases Option.map_eq_some_iff.1 hlast with ⟨b, hb, hkey⟩
    refine ⟨h.sorted, fun k => ?_⟩
    rw [h.find, List.find?_append]
    by_cases hk : key a = k
    · have hfound : (read.find? fun b => key b = k).isSome := by
        rw [← h.find, List.find?_isSome]
        exact ⟨b, List.mem_of_getLast? hb, by simp [hkey, hk]⟩
      rw [Option.or_of_isSome hfound]
    · simp [hk]
  · rw [if_pos hlast]
    have hread : ∀ b ∈ chosen, r (key b) (key a) := by
      intro b hb
      have hfound : (read.find? fun c => key c = key b).isSome := by
        rw [← h.find, List.find?_isSome]
        exact ⟨b, hb, by simp⟩
      rcases Option.isSome_iff_exists.1 hfound with ⟨c, hc⟩
      have hckey : key c = key b := by simpa using List.find?_some hc
      rw [← hckey]
      exact hsorted c (List.mem_of_find?_eq_some hc)
    refine ⟨List.pairwise_append.2 ⟨h.sorted, List.pairwise_singleton _ _, ?_⟩, fun k => ?_⟩
    · intro b hb c hc
      rw [List.mem_singleton.1 hc]
      refine ⟨hread b hb, fun hkey => ?_⟩
      rcases hchosen : chosen.getLast? with _ | last
      · rw [List.getLast?_eq_none_iff] at hchosen
        rw [hchosen] at hb
        cases hb
      · have hne : key last ≠ key a := fun hlastkey =>
          hlast (by rw [hchosen, Option.map_some, hlastkey])
        rcases List.getLast?_eq_some_iff.1 hchosen with ⟨before, rfl⟩
        rcases List.mem_append.1 hb with hb' | hb'
        · -- An earlier entry lies below the last one, so the new key would as well.
          have hbelow := (List.pairwise_append.1 h.sorted).2.2 b hb' last List.mem_cons_self
          have habove := hread last (List.mem_append_right before List.mem_cons_self)
          rw [← hkey] at habove
          exact hbelow.2 (antisymm_of r hbelow.1 habove)
        · rw [List.mem_singleton.1 hb'] at hkey
          exact hne hkey
    · rw [List.find?_append, List.find?_append, h.find]

omit [DecidableRel r] [Std.Total r] [IsTrans κ r] in
-- The whole list is read by reading one entry after the other.
theorem keptFirsts_foldl {l : List α} (hsorted : l.Pairwise fun a b => r (key a) (key b))
    {read chosen : List α} (h : KeptFirsts r key read chosen)
    (hread : ∀ a ∈ read, ∀ b ∈ l, r (key a) (key b)) :
    KeptFirsts r key (read ++ l) (l.foldl (keepFirst key) chosen) := by
  induction l generalizing read chosen with
  | nil => rwa [List.append_nil]
  | cons a l ih =>
      rcases List.pairwise_cons.1 hsorted with ⟨hfirst, hsorted⟩
      have hstep := keptFirsts_keepFirst h fun b hb => hread b hb a List.mem_cons_self
      rw [List.foldl_cons, ← List.singleton_append, ← List.append_assoc]
      refine ih hsorted hstep fun b hb c hc => ?_
      rcases List.mem_append.1 hb with hb | hb
      · exact hread b hb c (List.mem_cons_of_mem a hc)
      · rw [List.mem_singleton.1 hb]
        exact hfirst c hc

theorem keptFirsts_firsts (l : List α) : KeptFirsts r key l (firsts r key l) := by
  have htotal : Std.Total fun a b : α => r (key a) (key b) :=
    ⟨fun a b => Std.Total.total (key a) (key b)⟩
  have htrans : IsTrans α fun a b => r (key a) (key b) :=
    ⟨fun _ _ _ => IsTrans.trans _ _ _⟩
  have hsorted := List.pairwise_insertionSort (fun a b => r (key a) (key b)) l
  have hnil : KeptFirsts r key [] [] := ⟨List.Pairwise.nil, fun _ => rfl⟩
  have hkept := keptFirsts_foldl hsorted hnil fun a ha => absurd ha List.not_mem_nil
  exact ⟨hkept.sorted, fun k => (hkept.find k).trans (find?_insertionSort l k)⟩

/-- What is kept is the first entry of its key. -/
theorem mem_firsts {l : List α} {a : α} :
    a ∈ firsts r key l ↔ l.find? (fun b => key b = key a) = some a := by
  have hkept : KeptFirsts r key l (firsts r key l) := keptFirsts_firsts l
  rw [← hkept.find]
  constructor
  · intro ha
    rcases hfound : (firsts r key l).find? (fun b => key b = key a) with _ | b
    · have hnone := List.find?_eq_none.1 hfound a ha
      simp at hnone
    · have hkey : key b = key a := by simpa using List.find?_some hfound
      rcases List.mem_iff_getElem.1 ha with ⟨i, hi, rfl⟩
      rcases List.mem_iff_getElem.1 (List.mem_of_find?_eq_some hfound) with ⟨j, hj, rfl⟩
      -- Two entries with one key are one entry, for the keys increase.
      rcases Nat.lt_trichotomy i j with hij | rfl | hij
      · exact absurd hkey.symm (List.pairwise_iff_getElem.1 hkept.sorted i j hi hj hij).2
      · rfl
      · exact absurd hkey (List.pairwise_iff_getElem.1 hkept.sorted j i hj hi hij).2
  · exact List.mem_of_find?_eq_some

omit [Std.Total r] [IsTrans κ r] [Std.Antisymm r] in
theorem mem_keysUp {keys : List κ} {k : κ} : k ∈ keysUp r keys ↔ k ∈ keys := by
  rw [keysUp, List.mem_insertionSort, List.mem_dedup]

omit [Std.Antisymm r] in
theorem sorted_keysUp (keys : List κ) :
    (keysUp r keys).Pairwise fun a b => r a b ∧ a ≠ b := by
  have hnodup : (keysUp r keys).Nodup :=
    (List.perm_insertionSort r keys.dedup).nodup_iff.2 keys.nodup_dedup
  exact (List.pairwise_insertionSort r keys.dedup).and hnodup

/-- The keys of a list depend on which keys there are, and on nothing else. -/
theorem keysUp_congr {keys keys' : List κ} (h : ∀ k, k ∈ keys ↔ k ∈ keys') :
    keysUp r keys = keysUp r keys' := by
  have hanti : Std.Antisymm fun a b => r a b ∧ a ≠ b :=
    ⟨fun a b hab hba => antisymm_of r hab.1 hba.1⟩
  have hirrefl : Std.Irrefl fun a b => r a b ∧ a ≠ b := ⟨fun a h => h.2 rfl⟩
  refine List.Pairwise.eq_of_mem_iff (sorted_keysUp keys) (sorted_keysUp keys') fun k => ?_
  rw [mem_keysUp, mem_keysUp, h]

/-- Every key once, in order. -/
theorem map_firsts (l : List α) : (firsts r key l).map key = keysUp r (l.map key) := by
  have hkept : KeptFirsts r key l (firsts r key l) := keptFirsts_firsts l
  have hanti : Std.Antisymm fun a b => r a b ∧ a ≠ b :=
    ⟨fun a b hab hba => antisymm_of r hab.1 hba.1⟩
  have hirrefl : Std.Irrefl fun a b => r a b ∧ a ≠ b := ⟨fun a h => h.2 rfl⟩
  refine List.Pairwise.eq_of_mem_iff (List.pairwise_map.2 hkept.sorted)
    (sorted_keysUp (l.map key)) fun k => ?_
  rw [mem_keysUp, List.mem_map, List.mem_map]
  have hmem : ∀ m : List α, (∃ a ∈ m, key a = k) ↔ (m.find? fun b => key b = k).isSome := by
    intro m
    simp [List.find?_isSome]
  rw [hmem, hmem, hkept.find]

end Firsts

end PocketSkynet
