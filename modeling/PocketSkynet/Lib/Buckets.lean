import Mathlib.Data.List.Dedup
import Mathlib.Logic.Function.Basic

/-!
# Indexes with Buckets

An index maps a key to the bucket of what is filed under it. A bucket comes into being with
its first entry and is dropped with its last one, so that there are never empty buckets. The
operations file an entry under one key or under several, and take it out again; each is
characterised by what it does to the membership of every bucket.

To drop an entry is to take it out, to see whether the bucket has become empty, and to close
it then. Where these are steps of their own, a bucket may be empty for a while, and what has
been put into it before it is closed is lost.

## Main definitions

* `Buckets`: An index.
* `push`, `file`, `drop`: An entry is put into a bucket, filed unless it is there, or taken
  out.
* `fileAll`, `dropAll`: The same for several keys.
* `take`, `empties`, `close`: The steps in which an entry is dropped.
* `Tidy`: No bucket is empty, and none has an entry twice.

## Theorems

* `mem_push`, `mem_file`, `mem_drop`, `mem_take`, `mem_close`, `mem_fileAll`, `mem_dropAll`:
  Each operation by its effect on every bucket.
* `tidy_push`, `tidy_file`, `tidy_drop`, `tidy_fileAll`, `tidy_dropAll`: Each operation keeps
  an index tidy.
-/

namespace PocketSkynet

/-- What is filed under each key. -/
structure Buckets (κ α : Type*) where
  find : κ → Option (List α)

namespace Buckets

variable {κ α : Type*} [DecidableEq κ] [DecidableEq α]

/-- An index in which nothing is filed. -/
def empty : Buckets κ α := ⟨fun _ => none⟩

/-- What is filed under a key. -/
def bucket (m : Buckets κ α) (k : κ) : List α := (m.find k).getD []

/-- Put an entry at the end of a bucket. -/
def push (m : Buckets κ α) (x : α) (k : κ) : Buckets κ α :=
  ⟨Function.update m.find k (some (m.bucket k ++ [x]))⟩

/-- File an entry under a key, unless it is there. -/
def file (m : Buckets κ α) (x : α) (k : κ) : Buckets κ α :=
  if x ∈ m.bucket k then m else m.push x k

/-- A bucket without an entry. The last entry takes the bucket with it. -/
def shrink (x : α) (b : List α) : Option (List α) :=
  let rest := b.filter fun y => y ≠ x
  if rest.isEmpty then none else some rest

/-- Take an entry out from under a key. -/
def drop (m : Buckets κ α) (x : α) (k : κ) : Buckets κ α :=
  ⟨Function.update m.find k ((m.find k).bind (shrink x))⟩

/-- Take an entry out and leave the bucket, empty or not. -/
def take (m : Buckets κ α) (x : α) (k : κ) : Buckets κ α :=
  ⟨Function.update m.find k ((m.find k).map fun b => b.filter fun y => y ≠ x)⟩

/-- There is a bucket, and it is empty once the entry is out. -/
def empties (m : Buckets κ α) (x : α) (k : κ) : Bool :=
  (m.find k).any fun b => (b.filter fun y => y ≠ x).isEmpty

/-- Remove a bucket, with what is in it. -/
def close (m : Buckets κ α) (k : κ) : Buckets κ α := ⟨Function.update m.find k none⟩

def fileAll (m : Buckets κ α) (x : α) (ks : List κ) : Buckets κ α :=
  ks.foldl (fun m k => m.file x k) m

def dropAll (m : Buckets κ α) (x : α) (ks : List κ) : Buckets κ α :=
  ks.foldl (fun m k => m.drop x k) m

/-- No bucket is empty, and none has an entry twice. -/
structure Tidy (m : Buckets κ α) : Prop where
  nonempty : ∀ k, m.find k ≠ some []
  nodup : ∀ k, (m.bucket k).Nodup

variable {m : Buckets κ α} {x y : α} {k k' : κ}

/-! ### One key -/

omit [DecidableEq α] in
theorem find_push : (m.push x k).find k' =
    if k' = k then some (m.bucket k ++ [x]) else m.find k' :=
  Function.update_apply _ _ _ _

theorem find_drop : (m.drop x k).find k' =
    if k' = k then (m.find k).bind (shrink x) else m.find k' :=
  Function.update_apply _ _ _ _

omit [DecidableEq α] in
theorem bucket_push : (m.push x k).bucket k' =
    if k' = k then m.bucket k ++ [x] else m.bucket k' := by
  rw [bucket, find_push]
  by_cases h : k' = k
  · rw [if_pos h, if_pos h]
    rfl
  · rw [if_neg h, if_neg h]
    rfl

theorem getD_shrink (b : List α) : (shrink x b).getD [] = b.filter fun y => y ≠ x := by
  unfold shrink
  by_cases h : (b.filter fun y => y ≠ x).isEmpty = true
  · rw [if_pos h]
    exact (List.isEmpty_iff.1 h).symm
  · rw [if_neg h]
    rfl

theorem shrink_ne_nil (b : List α) : shrink x b ≠ some [] := by
  unfold shrink
  by_cases h : (b.filter fun y => y ≠ x).isEmpty = true
  · rw [if_pos h]
    exact fun hnil => by cases hnil
  · rw [if_neg h]
    exact fun hnil => h (List.isEmpty_iff.2 (Option.some.inj hnil))

theorem bucket_drop : (m.drop x k).bucket k' =
    if k' = k then (m.bucket k).filter fun y => y ≠ x else m.bucket k' := by
  rw [bucket, find_drop]
  by_cases h : k' = k
  · rw [if_pos h, if_pos h, bucket]
    cases m.find k with
    | none => rfl
    | some b => exact getD_shrink b
  · rw [if_neg h, if_neg h]
    rfl

omit [DecidableEq α] in
theorem mem_push : y ∈ (m.push x k).bucket k' ↔ y ∈ m.bucket k' ∨ (y = x ∧ k' = k) := by
  rw [bucket_push]
  by_cases h : k' = k
  · rw [if_pos h, List.mem_append, List.mem_singleton, h]
    simp
  · rw [if_neg h]
    simp [h]

omit [DecidableEq α] in
theorem tidy_push (h : m.Tidy) (hx : x ∉ m.bucket k) : (m.push x k).Tidy := by
  constructor
  · intro k' hnil
    rw [find_push] at hnil
    by_cases hk : k' = k
    · rw [if_pos hk] at hnil
      simp at hnil
    · rw [if_neg hk] at hnil
      exact h.nonempty k' hnil
  · intro k'
    rw [bucket_push]
    by_cases hk : k' = k
    · rw [if_pos hk]
      refine List.nodup_append.2 ⟨h.nodup k, List.nodup_singleton x, ?_⟩
      intro a ha b hb
      rw [List.mem_singleton.1 hb]
      exact fun he => hx (he ▸ ha)
    · rw [if_neg hk]
      exact h.nodup k'

theorem mem_file : y ∈ (m.file x k).bucket k' ↔ y ∈ m.bucket k' ∨ (y = x ∧ k' = k) := by
  unfold file
  by_cases hx : x ∈ m.bucket k
  · rw [if_pos hx]
    refine ⟨Or.inl, ?_⟩
    rintro (hy | ⟨rfl, rfl⟩)
    · exact hy
    · exact hx
  · rw [if_neg hx]
    exact mem_push

theorem tidy_file (h : m.Tidy) : (m.file x k).Tidy := by
  unfold file
  by_cases hx : x ∈ m.bucket k
  · rw [if_pos hx]
    exact h
  · rw [if_neg hx]
    exact tidy_push h hx

theorem mem_drop : y ∈ (m.drop x k).bucket k' ↔ y ∈ m.bucket k' ∧ ¬ (y = x ∧ k' = k) := by
  rw [bucket_drop]
  by_cases h : k' = k
  · subst h
    simp [List.mem_filter]
  · simp [h]

theorem tidy_drop (h : m.Tidy) : (m.drop x k).Tidy := by
  constructor
  · intro k' hnil
    rw [find_drop] at hnil
    by_cases hk : k' = k
    · rw [if_pos hk] at hnil
      cases hb : m.find k with
      | none =>
          rw [hb] at hnil
          cases hnil
      | some b =>
          rw [hb] at hnil
          exact shrink_ne_nil b hnil
    · rw [if_neg hk] at hnil
      exact h.nonempty k' hnil
  · intro k'
    rw [bucket_drop]
    by_cases hk : k' = k
    · rw [if_pos hk]
      exact (h.nodup k).filter _
    · rw [if_neg hk]
      exact h.nodup k'

/-! ### Step by step -/

theorem find_take : (m.take x k).find k' =
    if k' = k then (m.find k).map (fun b => b.filter fun y => y ≠ x) else m.find k' :=
  Function.update_apply _ _ _ _

omit [DecidableEq α] in
theorem find_close : (m.close k).find k' = if k' = k then none else m.find k' :=
  Function.update_apply _ _ _ _

theorem mem_take : y ∈ (m.take x k).bucket k' ↔ y ∈ m.bucket k' ∧ ¬ (y = x ∧ k' = k) := by
  rw [bucket, find_take]
  by_cases h : k' = k
  · subst h
    rw [if_pos rfl, bucket]
    cases m.find k' with
    | none => simp
    | some b => simp [List.mem_filter]
  · rw [if_neg h, bucket]
    simp [h]

omit [DecidableEq α] in
theorem mem_close : y ∈ (m.close k).bucket k' ↔ y ∈ m.bucket k' ∧ k' ≠ k := by
  rw [bucket, find_close]
  by_cases h : k' = k
  · simp [h]
  · rw [if_neg h, bucket]
    simp [h]

omit [DecidableEq α] in
-- Nothing is lost with a bucket that is empty.
theorem mem_close_of_empty (h : m.bucket k = []) :
    y ∈ (m.close k).bucket k' ↔ y ∈ m.bucket k' := by
  rw [mem_close]
  refine ⟨fun hy => hy.1, fun hy => ⟨hy, ?_⟩⟩
  rintro rfl
  rw [h] at hy
  cases hy

/-! ### Several keys -/

theorem mem_fileAll {ks : List κ} :
    y ∈ (m.fileAll x ks).bucket k ↔ y ∈ m.bucket k ∨ (y = x ∧ k ∈ ks) := by
  induction ks generalizing m with
  | nil => simp [fileAll]
  | cons k' ks ih =>
      rw [fileAll, List.foldl_cons]
      refine ih.trans ?_
      rw [mem_file, List.mem_cons]
      tauto

theorem mem_dropAll {ks : List κ} :
    y ∈ (m.dropAll x ks).bucket k ↔ y ∈ m.bucket k ∧ ¬ (y = x ∧ k ∈ ks) := by
  induction ks generalizing m with
  | nil => simp [dropAll]
  | cons k' ks ih =>
      rw [dropAll, List.foldl_cons]
      refine ih.trans ?_
      rw [mem_drop, List.mem_cons]
      tauto

theorem tidy_fileAll {ks : List κ} (h : m.Tidy) : (m.fileAll x ks).Tidy := by
  induction ks generalizing m with
  | nil => exact h
  | cons k ks ih => exact ih (tidy_file h)

theorem tidy_dropAll {ks : List κ} (h : m.Tidy) : (m.dropAll x ks).Tidy := by
  induction ks generalizing m with
  | nil => exact h
  | cons k ks ih => exact ih (tidy_drop h)

omit [DecidableEq κ] [DecidableEq α] in
theorem tidy_empty : (empty : Buckets κ α).Tidy := by
  refine ⟨fun k h => ?_, fun _ => List.nodup_nil⟩
  cases h

end Buckets

end PocketSkynet
