import Mathlib.Data.List.Infix

/-!
# Marked Runs

A text in which a marker announces what follows it. All occurrences of the marker may overlap. A
reader that goes from left to right, and goes on behind the marker it has found, takes the
leftmost ones that do not.

Behind a marker the reader may also skip a run of items with which no marker begins: it does not
miss a marker by that.

## Main definitions

* `afterFirst`: What stands behind the first marker.
* `posts`: What stands behind every marker.
* `takenPosts`: What stands behind the markers that a reader takes.
* `longest`: The longest beginning that is of a kind.

## Theorems

* `takenPosts_eq`: A reader takes the first marker, and then reads on behind it.
* `takenPosts_skip`: A run may be skipped.
* `mem_posts`: Every occurrence of the marker is one.
* `longest_eq_some_iff`: What the longest beginning is.
-/

namespace PocketSkynet

section Markers

variable {α : Type} [DecidableEq α] (marker : List α)

/-- What stands behind the first marker. -/
def afterFirst : List α → Option (List α)
  | [] => none
  | c :: cs =>
      if marker.isPrefixOf (c :: cs) then some ((c :: cs).drop marker.length) else afterFirst cs

/-- What stands behind every marker, also behind one that begins inside another. -/
def posts : List α → List (List α)
  | [] => []
  | c :: cs =>
      if marker.isPrefixOf (c :: cs) then (c :: cs).drop marker.length :: posts cs else posts cs

/-- What stands behind the markers that are taken, when the first of so many items belong to the
    one that was taken last. -/
def takenPosts : Nat → List α → List (List α)
  | _, [] => []
  | 0, c :: cs =>
      if marker.isPrefixOf (c :: cs) then
        (c :: cs).drop marker.length :: takenPosts (marker.length - 1) cs
      else takenPosts 0 cs
  | busy + 1, _ :: cs => takenPosts busy cs

variable {marker}

-- A marker takes some of the text, so less of it is left.
theorem length_afterFirst {cs after : List α} (hmarker : marker ≠ [])
    (h : afterFirst marker cs = some after) : after.length < cs.length := by
  have hpos := List.length_pos_iff.2 hmarker
  induction cs with
  | nil => cases h
  | cons c cs ih =>
      rw [afterFirst] at h
      by_cases hhere : marker.isPrefixOf (c :: cs) = true
      · rw [if_pos hhere, Option.some.injEq] at h
        rw [← h, List.length_drop, List.length_cons]
        omega
      · rw [if_neg hhere] at h
        exact Nat.lt_succ_of_lt (ih h)

theorem takenPosts_drop (busy : Nat) (cs : List α) :
    takenPosts marker busy cs = takenPosts marker 0 (cs.drop busy) := by
  induction cs generalizing busy with
  | nil => rw [List.drop_nil, takenPosts, takenPosts]
  | cons c cs ih =>
      cases busy with
      | zero => rw [List.drop_zero]
      | succ busy => rw [takenPosts, ih, List.drop_succ_cons]

/-- A reader takes the first marker, and then reads on behind it. -/
theorem takenPosts_eq (hmarker : marker ≠ []) (cs : List α) : takenPosts marker 0 cs =
    (afterFirst marker cs).elim [] fun after => after :: takenPosts marker 0 after := by
  have hpos := List.length_pos_iff.2 hmarker
  induction cs with
  | nil => rfl
  | cons c cs ih =>
      rw [takenPosts, afterFirst]
      by_cases hhere : marker.isPrefixOf (c :: cs) = true
      · have hrest : (c :: cs).drop marker.length = cs.drop (marker.length - 1) := by
          conv_lhs => rw [← Nat.sub_add_cancel hpos]
          exact List.drop_succ_cons
        rw [if_pos hhere, if_pos hhere, takenPosts_drop, Option.elim_some, hrest]
      · rw [if_neg hhere, if_neg hhere, ih]

-- A marker that is taken is one.
theorem mem_posts_of_taken {busy : Nat} {cs post : List α} (h : post ∈ takenPosts marker busy cs) :
    post ∈ posts marker cs := by
  induction cs generalizing busy with
  | nil =>
      rw [takenPosts] at h
      cases h
  | cons c cs ih =>
      have hskip : ∀ n, post ∈ takenPosts marker n cs → post ∈ posts marker (c :: cs) := by
        intro n hn
        rw [posts]
        split
        · exact List.mem_cons_of_mem _ (ih hn)
        · exact ih hn
      cases busy with
      | succ busy => exact hskip busy h
      | zero =>
          rw [takenPosts] at h
          by_cases hhere : marker.isPrefixOf (c :: cs) = true
          · rw [if_pos hhere] at h
            rcases List.mem_cons.1 h with rfl | h
            · rw [posts, if_pos hhere]
              exact List.mem_cons_self
            · exact hskip _ h
          · rw [if_neg hhere] at h
            exact hskip _ h

/-- Where no marker begins, nothing is missed. -/
theorem takenPosts_skip {run rest : List α} (h : ∀ c ∈ run, marker.head? ≠ some c)
    (hmarker : marker ≠ []) :
    takenPosts marker 0 (run ++ rest) = takenPosts marker 0 rest := by
  induction run with
  | nil => rfl
  | cons c run ih =>
      have hnot : ¬ marker.isPrefixOf (c :: (run ++ rest)) = true := by
        intro hhere
        cases marker with
        | nil => exact hmarker rfl
        | cons m marker =>
            rw [List.isPrefixOf_cons_cons, Bool.and_eq_true, beq_iff_eq] at hhere
            exact h c List.mem_cons_self (congrArg some hhere.1)
      rw [List.cons_append, takenPosts, if_neg hnot]
      exact ih fun c hc => h c (List.mem_cons_of_mem _ hc)

/-- What stands behind a marker stands behind an occurrence of it. -/
theorem mem_posts {cs post : List α} (hmarker : marker ≠ []) :
    post ∈ posts marker cs ↔ ∃ front, cs = front ++ marker ++ post := by
  induction cs with
  | nil =>
      refine iff_of_false List.not_mem_nil ?_
      rintro ⟨front, h⟩
      exact hmarker (List.append_eq_nil_iff.1 (List.append_eq_nil_iff.1 h.symm).1).2
  | cons c cs ih =>
      have hrest : (∃ front, c :: cs = front ++ marker ++ post) ↔
          (c :: cs = marker ++ post) ∨ post ∈ posts marker cs := by
        rw [ih]
        constructor
        · rintro ⟨front, h⟩
          cases front with
          | nil => exact .inl h
          | cons b front => exact .inr ⟨front, (List.cons.inj h).2⟩
        · rintro (h | ⟨front, h⟩)
          · exact ⟨[], h⟩
          · exact ⟨c :: front, by rw [h]; rfl⟩
      rw [hrest, posts]
      by_cases hhere : marker.isPrefixOf (c :: cs) = true
      · rcases List.isPrefixOf_iff_prefix.1 hhere with ⟨after, hafter⟩
        rw [if_pos hhere, List.mem_cons, ← hafter, List.drop_left]
        exact or_congr ⟨fun h => by rw [h], fun h => (List.append_cancel_left h).symm⟩ Iff.rfl
      · rw [if_neg hhere]
        refine ⟨.inr, fun h => h.resolve_left fun hcs => hhere ?_⟩
        exact List.isPrefixOf_iff_prefix.2 ⟨post, hcs.symm⟩

end Markers

section Longest

variable {α : Type} (valid : List α → Bool)

/-- The longest beginning of at most so many items that is of a kind. -/
def longestUpTo (cs : List α) : Nat → Option (List α)
  | 0 => if valid [] then some [] else none
  | n + 1 => if valid (cs.take (n + 1)) then some (cs.take (n + 1)) else longestUpTo cs n

/-- The longest beginning that is of a kind. -/
def longest (cs : List α) : Option (List α) := longestUpTo valid cs cs.length

variable {valid}

theorem longestUpTo_of_valid {cs name : List α} {n : Nat} (hn : n ≤ cs.length)
    (hname : name <+: cs) (hle : name.length ≤ n) (hvalid : valid name = true)
    (hlongest : ∀ other, other <+: cs → valid other = true → other.length ≤ name.length) :
    longestUpTo valid cs n = some name := by
  have htake : cs.take name.length = name := (List.prefix_iff_eq_take.1 hname).symm
  induction n with
  | zero =>
      have hnil : name = [] := List.length_eq_zero_iff.1 (Nat.le_zero.1 hle)
      rw [longestUpTo, if_pos (hnil ▸ hvalid), hnil]
  | succ n ih =>
      rw [longestUpTo]
      by_cases hlast : name.length = n + 1
      · rw [← hlast, htake, if_pos hvalid]
      · have hnot : ¬ valid (cs.take (n + 1)) = true := by
          intro h
          have hmore := hlongest _ (List.take_prefix _ _) h
          rw [List.length_take] at hmore
          omega
        rw [if_neg hnot]
        exact ih (by omega) (by omega)

theorem valid_of_longestUpTo {cs name : List α} {n : Nat} (hn : n ≤ cs.length)
    (h : longestUpTo valid cs n = some name) :
    name <+: cs ∧ valid name = true ∧
      ∀ other, other <+: cs → other.length ≤ n → valid other = true →
        other.length ≤ name.length := by
  induction n with
  | zero =>
      rw [longestUpTo] at h
      by_cases hnil : valid ([] : List α) = true
      · rw [if_pos hnil, Option.some.injEq] at h
        subst h
        exact ⟨List.nil_prefix, hnil, fun _ _ hle _ => hle⟩
      · rw [if_neg hnil] at h
        cases h
  | succ n ih =>
      rw [longestUpTo] at h
      by_cases hhere : valid (cs.take (n + 1)) = true
      · rw [if_pos hhere, Option.some.injEq] at h
        subst h
        refine ⟨List.take_prefix _ _, hhere, fun other _ hle _ => ?_⟩
        rw [List.length_take]
        omega
      · rw [if_neg hhere] at h
        rcases ih (by omega) h with ⟨hname, hvalid, hlongest⟩
        refine ⟨hname, hvalid, fun other hother hle hov => ?_⟩
        by_cases hlast : other.length = n + 1
        · rw [List.prefix_iff_eq_take.1 hother, hlast] at hov
          exact absurd hov hhere
        · exact hlongest other hother (by omega) hov

/-- What the longest beginning is. -/
theorem longest_eq_some_iff {cs name : List α} : longest valid cs = some name ↔
    name <+: cs ∧ valid name = true ∧
      ∀ other, other <+: cs → valid other = true → other.length ≤ name.length := by
  constructor
  · intro h
    rcases valid_of_longestUpTo (Nat.le_refl _) h with ⟨hname, hvalid, hlongest⟩
    exact ⟨hname, hvalid, fun other hother => hlongest other hother hother.length_le⟩
  · rintro ⟨hname, hvalid, hlongest⟩
    exact longestUpTo_of_valid (Nat.le_refl _) hname hname.length_le hvalid hlongest

end Longest

end PocketSkynet
