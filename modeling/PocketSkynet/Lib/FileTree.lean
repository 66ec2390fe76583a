import Mathlib.Data.List.Infix

/-!
# Files and Directories

A tree has a file, a directory or nothing at each path, and a path is the list of its segments.
To put a file somewhere makes the directories above it first. It fails if one of them is a file
already, or if there is a directory in the place of the file.

Files can be put below a directory one after the other if none of them is above another.

## Main definitions

* `FileTree`, `FileTree.Node`: What is at a path.
* `FileTree.createDirAll`, `FileTree.write`, `FileTree.put`, `FileTree.read`: The operations.
* `FileTree.Holds`: What is below a directory are some files, and the directories they need.

## Theorems

* `put_of_free`: A file can be put where nothing is in its way.
* `holds_put`: One more file, neither above nor below the others.
* `read_of_holds`: What has been put is read.
-/

namespace PocketSkynet

/-- What can be at a path. -/
inductive FileTree.Node (α : Type) where
  | file (content : α)
  | dir

/-- What is at each path. -/
def FileTree (σ α : Type) := List σ → Option (FileTree.Node α)

namespace FileTree

def Node.isDir {α : Type} : Node α → Bool
  | file _ => false
  | dir => true

variable {σ α : Type}

def read (d : FileTree σ α) (path : List σ) : Option α :=
  match d path with
  | some (.file content) => some content
  | _ => none

/-- What is below a directory: the files, and the directories above them. Nothing above it is a
    file. -/
structure Holds (d : FileTree σ α) (base : List σ) (files : List (List σ × α)) : Prop where
  above : ∀ q, q <+: base → ∀ c, d q ≠ some (.file c)
  file : ∀ p ≠ [], ∀ c, d (base ++ p) = some (.file c) ↔ (p, c) ∈ files
  dir : ∀ p ≠ [], d (base ++ p) = some .dir → ∃ f ∈ files, p <+: f.1 ∧ p ≠ f.1

/-- What has been put is read. -/
theorem read_of_holds {d : FileTree σ α} {base p : List σ} {files : List (List σ × α)} {content : α}
    (h : d.Holds base files) (hne : p ≠ []) (hmem : (p, content) ∈ files) :
    d.read (base ++ p) = some content := by
  rw [read, (h.file p hne content).2 hmem]

variable [DecidableEq σ]

/-- Make a directory and all directories above it, unless there is a file in the way. -/
def createDirAll (d : FileTree σ α) (path : List σ) : Option (FileTree σ α) :=
  if path.inits.any fun q => (d q).any fun node => !node.isDir then none
  else some fun q => if q.isPrefixOf path then some .dir else d q

/-- Write a file into a directory, unless there is a directory in its place. -/
def write (d : FileTree σ α) (path : List σ) (content : α) : Option (FileTree σ α) :=
  if (d path.dropLast).any Node.isDir && !(d path).any Node.isDir then
    some fun q => if q = path then some (.file content) else d q
  else none

/-- Write a file, with the directories it needs. -/
def put (d : FileTree σ α) (path : List σ) (content : α) : Option (FileTree σ α) :=
  (d.createDirAll path.dropLast).bind fun d => d.write path content

theorem createDirAll_of_free {d : FileTree σ α} {path : List σ}
    (habove : ∀ q, q <+: path → ∀ c, d q ≠ some (.file c)) :
    d.createDirAll path = some fun q => if q.isPrefixOf path then some .dir else d q := by
  refine if_neg ?_
  rw [Bool.not_eq_true, List.any_eq_false]
  intro q hq
  have hnot := habove q (List.mem_inits _ _ |>.1 hq)
  cases hd : d q with
  | none => simp
  | some node =>
      cases node with
      | file c => exact absurd hd (hnot c)
      | dir => simp [Node.isDir]

/-- A file can be put where nothing is in its way. -/
theorem put_of_free {d : FileTree σ α} {path : List σ} {content : α}
    (habove : ∀ q, q <+: path.dropLast → ∀ c, d q ≠ some (.file c)) (hdir : d path ≠ some .dir)
    (hne : path ≠ []) : d.put path content = some fun q =>
      if q = path then some (.file content)
      else if q.isPrefixOf path.dropLast then some .dir else d q := by
  -- A path is not above itself.
  have hself : path.isPrefixOf path.dropLast = false := by
    rw [Bool.eq_false_iff]
    intro hprefix
    have hle := (List.isPrefixOf_iff_prefix.1 hprefix).length_le
    have hpos := List.length_pos_iff.2 hne
    rw [List.length_dropLast] at hle
    omega
  have hplace : (d path).any Node.isDir = false := by
    cases hd : d path with
    | none => rfl
    | some node =>
        cases node with
        | file c => rfl
        | dir => exact absurd hd hdir
  have hparent : path.dropLast.isPrefixOf path.dropLast = true :=
    List.isPrefixOf_iff_prefix.2 (List.prefix_refl _)
  rw [put, createDirAll_of_free habove]
  refine if_pos ?_
  simp only [hself, hparent, if_true, Bool.false_eq_true, if_false, hplace]
  rfl

/-- One more file, neither above nor below the others. -/
theorem holds_put {d : FileTree σ α} {base p : List σ} {files : List (List σ × α)} (content : α)
    (h : d.Holds base files) (hne : p ≠ [])
    (hapart : ∀ f ∈ files, ¬ f.1 <+: p ∧ ¬ p <+: f.1) :
    ∃ d', d.put (base ++ p) content = some d' ∧ d'.Holds base (files ++ [(p, content)]) := by
  have hlast : (base ++ p).dropLast = base ++ p.dropLast := List.dropLast_append_of_ne_nil hne
  have hdirs : ∀ q, q <+: (base ++ p).dropLast → ∀ c, d q ≠ some (.file c) := by
    intro q hq c hfile
    rw [hlast] at hq
    rcases List.prefix_or_prefix_of_prefix hq (List.prefix_append base p.dropLast) with hup | hdown
    · exact h.above q hup c hfile
    · rcases hdown with ⟨r, rfl⟩
      have hr : r <+: p := ((List.prefix_append_right_inj base).1 hq).trans (List.dropLast_prefix p)
      by_cases hnil : r = []
      · subst hnil
        rw [List.append_nil] at hfile
        exact h.above base (List.prefix_refl base) c hfile
      · exact (hapart _ ((h.file r hnil c).1 hfile)).1 hr
  have hplace : d (base ++ p) ≠ some .dir := by
    intro hdir
    rcases h.dir p hne hdir with ⟨f, hf, hprefix, -⟩
    exact (hapart f hf).2 hprefix
  refine ⟨_, put_of_free hdirs hplace (List.append_ne_nil_of_right_ne_nil base hne), ?_⟩
  have hbelow : ∀ r : List σ, (base ++ r).isPrefixOf (base ++ p).dropLast = true ↔
      r <+: p.dropLast := by
    intro r
    rw [hlast, List.isPrefixOf_iff_prefix, List.prefix_append_right_inj]
  constructor
  · intro q hq c
    have hother : q ≠ base ++ p := by
      rintro rfl
      have hle := hq.length_le
      have hpos := List.length_pos_iff.2 hne
      rw [List.length_append] at hle
      omega
    simp only [if_neg hother]
    split
    · exact fun h => by cases h
    · exact h.above q hq c
  · intro r hr c
    by_cases hself : r = p
    · -- In the place of the file there was none.
      subst hself
      simp only [if_true, Option.some.injEq, Node.file.injEq, List.mem_append, List.mem_singleton,
        Prod.mk.injEq, true_and]
      constructor
      · exact fun hc => Or.inr hc.symm
      · intro hc
        rcases hc with hc | hc
        · exact absurd (List.prefix_refl r) (hapart _ hc).1
        · exact hc.symm
    · have hother : base ++ r ≠ base ++ p := fun heq => hself (List.append_cancel_left heq)
      simp only [if_neg hother, List.mem_append, List.mem_singleton, Prod.mk.injEq, hself,
        false_and, or_false]
      by_cases hup : r <+: p.dropLast
      · rw [if_pos ((hbelow r).2 hup)]
        constructor
        · exact fun h => by cases h
        · exact fun hc => absurd (hup.trans (List.dropLast_prefix p)) (hapart _ hc).1
      · rw [if_neg (fun hc => hup ((hbelow r).1 hc))]
        exact h.file r hr c
  · intro r hr
    by_cases hself : r = p
    · subst hself
      simp only [if_true]
      exact fun h => by cases h
    · have hother : base ++ r ≠ base ++ p := fun heq => hself (List.append_cancel_left heq)
      simp only [if_neg hother]
      by_cases hup : r <+: p.dropLast
      · exact fun _ => ⟨(p, content), by simp, hup.trans (List.dropLast_prefix p), hself⟩
      · rw [if_neg (fun hc => hup ((hbelow r).1 hc))]
        intro hdir
        rcases h.dir r hr hdir with ⟨f, hf, hprefix⟩
        exact ⟨f, List.mem_append_left _ hf, hprefix⟩

end FileTree

end PocketSkynet
