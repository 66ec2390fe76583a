import Mathlib.Data.List.Infix

/-!
# Names that Are Joined to a Directory

A path is a list of names, from the root on. A text that is joined to a directory is read piece
by piece between its slashes: a piece may stay in the directory, leave it, or name something in
it, and a text that begins with a slash starts at the root.

A text is plain if it consists of one component, and that is a name. What it leads to lies
directly in the directory. It may still end in a slash or in a slash and a dot, and then leads to
no file.

## Main definitions

* `Component`, `components`: What the pieces of a text stand for.
* `resolve`: Where a text leads from a directory.
* `isPlain`, `endsOpen`: A text of one name, and a text that only leads to directories.
* `IsEntry`: A name of something in a directory.

## Theorems

* `entry_of_plain`: A plain text that can lead to a file is a name.
* `components_of_entry`: A name stands for itself.
-/

namespace PocketSkynet

namespace Paths

/-- A step on the way along a path. -/
inductive Component where
  | root
  | curDir
  | parentDir
  | normal (name : List Char)
deriving DecidableEq, Repr

/-- What a piece between two slashes stands for. -/
def component (piece : List Char) : Option Component :=
  if piece = [] ∨ piece = ['.'] then none
  else if piece = ['.', '.'] then some .parentDir
  else some (.normal piece)

/-- The steps of a text. A dot is a step only in front. -/
def components (text : List Char) : List Component :=
  (if text.head? = some '/' then [.root]
    else if (text.splitOn '/').head? = some ['.'] then [.curDir] else []) ++
      (text.splitOn '/').filterMap component

def walk (path : List (List Char)) : Component → List (List Char)
  | .root => []
  | .curDir => path
  | .parentDir => path.dropLast
  | .normal name => path ++ [name]

/-- Where a text leads from a directory. -/
def resolve (dir : List (List Char)) (text : List Char) : List (List Char) :=
  (components text).foldl walk dir

/-- One component, and an ordinary one. -/
def isPlain (text : List Char) : Bool :=
  match components text with
  | [.normal _] => true
  | _ => false

/-- The last piece is none that could be a file. -/
def endsOpen (text : List Char) : Bool :=
  (text.splitOn '/').getLast?.any fun piece => decide (piece = [] ∨ piece = ['.'])

/-- A name of something in a directory. -/
def IsEntry (name : List Char) : Prop :=
  name ≠ [] ∧ '/' ∉ name ∧ name ≠ ['.'] ∧ name ≠ ['.', '.']

theorem component_eq_normal {piece name : List Char} (h : component piece = some (.normal name)) :
    piece = name ∧ piece ≠ [] ∧ piece ≠ ['.'] ∧ piece ≠ ['.', '.'] := by
  unfold component at h
  by_cases hnone : piece = [] ∨ piece = ['.']
  · rw [if_pos hnone] at h
    cases h
  · rw [if_neg hnone] at h
    by_cases hup : piece = ['.', '.']
    · rw [if_pos hup] at h
      cases h
    · rw [if_neg hup] at h
      rw [not_or] at hnone
      cases h
      exact ⟨rfl, hnone.1, hnone.2, hup⟩

theorem component_isSome {piece : List Char} :
    (component piece).isSome = true ↔ piece ≠ [] ∧ piece ≠ ['.'] := by
  unfold component
  by_cases hnone : piece = [] ∨ piece = ['.']
  · rw [if_pos hnone]
    exact iff_of_false (by simp) fun h => hnone.elim h.1 h.2
  · rw [if_neg hnone]
    rw [not_or] at hnone
    refine iff_of_true ?_ hnone
    by_cases hup : piece = ['.', '.']
    · rw [if_pos hup]
      rfl
    · rw [if_neg hup]
      rfl

theorem isPlain_iff {text : List Char} :
    isPlain text = true ↔ ∃ name, components text = [.normal name] := by
  unfold isPlain
  split
  · next name h => exact iff_of_true rfl ⟨name, h⟩
  · next h => exact iff_of_false (by simp) fun ⟨name, hname⟩ => h name hname

-- No piece holds a slash.
theorem not_mem_piece {text piece : List Char} (h : piece ∈ text.splitOn '/') : '/' ∉ piece := by
  induction text generalizing piece with
  | nil =>
      rw [List.splitOn_nil, List.mem_singleton] at h
      rw [h]
      exact List.not_mem_nil
  | cons c text ih =>
      rw [List.splitOn_cons_eq_if_modifyHead] at h
      by_cases hslash : (c == '/') = true
      · rw [if_pos hslash, List.mem_cons] at h
        rcases h with rfl | h
        · exact List.not_mem_nil
        · exact ih h
      · rw [if_neg hslash] at h
        cases hpieces : text.splitOn '/' with
        | nil =>
            rw [hpieces] at h
            exact absurd h List.not_mem_nil
        | cons first rest =>
            rw [hpieces, List.modifyHead_cons, List.mem_cons] at h
            rcases h with rfl | h
            · have hfirst : '/' ∉ first := ih (hpieces ▸ List.mem_cons_self)
              rw [List.mem_cons, not_or]
              exact ⟨fun hc => hslash (beq_iff_eq.2 hc.symm), hfirst⟩
            · exact ih (hpieces ▸ List.mem_cons_of_mem _ h)

/-- A text of one component does not begin with a slash or a dot alone. -/
theorem pieces_of_components {text name : List Char} (h : components text = [.normal name]) :
    text.head? ≠ some '/' ∧ (text.splitOn '/').head? ≠ some ['.'] ∧
      (text.splitOn '/').filterMap component = [.normal name] := by
  unfold components at h
  by_cases hroot : text.head? = some '/'
  · rw [if_pos hroot, List.singleton_append] at h
    cases h
  · rw [if_neg hroot] at h
    by_cases hdot : (text.splitOn '/').head? = some ['.']
    · rw [if_pos hdot, List.singleton_append] at h
      cases h
    · rw [if_neg hdot, List.nil_append] at h
      exact ⟨hroot, hdot, h⟩

/-- A name stands for itself. -/
theorem components_of_entry {name : List Char} (h : IsEntry name) :
    components name = [.normal name] ∧ endsOpen name = false := by
  rcases h with ⟨hempty, hslash, hdot, hup⟩
  have hpieces : name.splitOn '/' = [name] := List.splitOn_eq_singleton hslash
  have hcomponent : component name = some (.normal name) := by
    rw [component, if_neg (not_or.2 ⟨hempty, hdot⟩), if_neg hup]
  have hroot : name.head? ≠ some '/' := fun hhead => hslash (List.mem_of_head? hhead)
  constructor
  · have hfront : ¬ some name = some ['.'] := fun hname => hdot (Option.some.inj hname)
    rw [components, hpieces, if_neg hroot, List.head?_cons, if_neg hfront, List.nil_append,
      List.filterMap_cons_some hcomponent, List.filterMap_nil]
  · simp [endsOpen, hpieces, hempty, hdot]

theorem resolve_of_entry {name : List Char} (h : IsEntry name) (dir : List (List Char)) :
    resolve dir name = dir ++ [name] := by
  rw [resolve, (components_of_entry h).1]
  rfl

theorem isPlain_of_entry {name : List Char} (h : IsEntry name) : isPlain name = true :=
  isPlain_iff.2 ⟨name, (components_of_entry h).1⟩

/-- A plain text that can lead to a file is a name. -/
theorem entry_of_plain {text : List Char} (h : isPlain text = true)
    (hclosed : endsOpen text = false) : IsEntry text := by
  rcases isPlain_iff.1 h with ⟨name, hname⟩
  rcases pieces_of_components hname with ⟨hroot, hdot, hpieces⟩
  have hjoin : ['/'].intercalate (text.splitOn '/') = text := List.intercalate_splitOn '/'
  rw [endsOpen] at hclosed
  cases hsplit : text.splitOn '/' with
  | nil => exact absurd hsplit (List.splitOn_ne_nil _ _)
  | cons first rest =>
      cases rest with
      | nil =>
          rw [hsplit] at hjoin hpieces
          have hfirst : first = text := by simpa using hjoin
          rw [hfirst, List.filterMap_cons] at hpieces
          cases hcomponent : component text with
          | none => simp [hcomponent] at hpieces
          | some c =>
              simp only [hcomponent, List.filterMap_nil, List.cons.injEq, and_true] at hpieces
              rw [hpieces] at hcomponent
              have hentry := component_eq_normal hcomponent
              have hmem : text ∈ text.splitOn '/' := by
                rw [hsplit, hfirst]
                exact List.mem_singleton_self _
              have hslash : '/' ∉ text := not_mem_piece hmem
              exact ⟨hentry.2.1, hslash, hentry.2.2.1, hentry.2.2.2⟩
      | cons second rest =>
          -- The first and the last piece would be two components.
          exfalso
          rw [hsplit] at hjoin hpieces hdot
          have hempty : first ≠ [] := by
            rintro rfl
            rw [List.intercalate_cons_cons] at hjoin
            exact hroot (hjoin ▸ rfl)
          have hfirst := component_isSome.2 ⟨hempty, fun heq => hdot (congrArg some heq)⟩
          rcases Option.isSome_iff_exists.1 hfirst with ⟨c, hc⟩
          rw [List.filterMap_cons_some hc, List.cons.injEq, List.filterMap_eq_nil_iff] at hpieces
          rcases List.getLast?_isSome.2 (List.cons_ne_nil second rest) |>
            Option.isSome_iff_exists.1 with ⟨last, hlast⟩
          have hnone := hpieces.2 last (List.mem_of_getLast? hlast)
          rw [hsplit, List.getLast?_cons_cons, hlast, Option.any_some, decide_eq_false_iff_not,
            not_or] at hclosed
          rw [← Option.not_isSome_iff_eq_none] at hnone
          exact hnone (component_isSome.2 hclosed)

end Paths

end PocketSkynet
