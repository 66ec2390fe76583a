import Mathlib.Data.List.Basic

/-!
# Lines of a File

A file is a list of symbols and its lines are what stands between separators,
the way a buffered reader hands them out: a separator at the very end closes
the last line and opens none, and what is left without a separator at the end is
a line too.

A file that is only ever appended to keeps every line that has been closed. What
is written next starts a line of its own exactly when the file is terminated,
that is, empty or closed by a separator; otherwise it runs on into whatever the
last writer left behind.

## Main definitions

* `lines`: The lines of a file.
* `Terminated`: The file is empty or its last line is closed.
* `OnOwnLine`: A text is a closed line of the file.

## Theorems

* `lines_append`: What follows a terminated file starts a line.
* `lines_line`: A text and a separator are one line.
* `OnOwnLine.mem_lines`: A text on its own line is one of the lines.
* `OnOwnLine.append`: Appending to a file keeps its closed lines.
* `onOwnLine_append`: A text written to a terminated file is on its own line.
-/

namespace PocketSkynet

namespace Lines

variable {α : Type*} (sep : α)

/-- The lines of a file, without their separators. -/
def lines [DecidableEq α] : List α → List (List α)
  | [] => []
  | x :: xs =>
      if x = sep then [] :: lines xs
      else match lines xs with
        | [] => [[x]]
        | l :: ls => (x :: l) :: ls

/-- The file is empty, or ends with a separator. -/
def Terminated (xs : List α) : Prop := ∀ x ∈ xs.getLast?, x = sep

instance [DecidableEq α] (xs : List α) : Decidable (Terminated sep xs) :=
  inferInstanceAs (Decidable (∀ x ∈ xs.getLast?, x = sep))

/-- The text is a line of the file, closed by a separator. -/
def OnOwnLine (xs l : List α) : Prop :=
  sep ∉ l ∧ ∃ pre post, xs = pre ++ (l ++ sep :: post) ∧ Terminated sep pre

variable {sep}

theorem terminated_nil : Terminated sep ([] : List α) := by simp [Terminated]

theorem terminated_cons {x : α} {xs : List α} (h : Terminated sep (x :: xs)) :
    Terminated sep xs := by
  cases xs with
  | nil => exact terminated_nil
  | cons y ys => simpa [Terminated, List.getLast?_cons_cons] using h

section

variable [DecidableEq α]

theorem lines_sep (xs : List α) : lines sep (sep :: xs) = [] :: lines sep xs := by
  simp [lines]

/-- A symbol that is no separator joins the line that follows it. -/
theorem lines_cons {x : α} (hx : x ≠ sep) (xs : List α) :
    lines sep (x :: xs) = (x :: (lines sep xs).headD []) :: (lines sep xs).tail := by
  rw [lines, if_neg hx]
  cases lines sep xs <;> rfl

theorem lines_line {l : List α} (hl : sep ∉ l) (xs : List α) :
    lines sep (l ++ sep :: xs) = l :: lines sep xs := by
  induction l with
  | nil => exact lines_sep xs
  | cons x l ih =>
      obtain ⟨hx, hl⟩ := not_or.1 (List.mem_cons.not.1 hl)
      rw [List.cons_append, lines_cons (Ne.symm hx), ih hl]
      rfl

/-- What has no separator is one line, if it is anything. -/
theorem lines_open {l : List α} (hl : sep ∉ l) (hne : l ≠ []) : lines sep l = [l] := by
  induction l with
  | nil => exact absurd rfl hne
  | cons x l ih =>
      obtain ⟨hx, hl⟩ := not_or.1 (List.mem_cons.not.1 hl)
      rw [lines_cons (Ne.symm hx)]
      by_cases hnil : l = []
      · rw [hnil]
        rfl
      · rw [ih hl hnil]
        rfl

theorem lines_ne_nil {xs : List α} (h : xs ≠ []) : lines sep xs ≠ [] := by
  cases xs with
  | nil => exact absurd rfl h
  | cons x xs =>
      by_cases hx : x = sep
      · simp [lines, hx]
      · simp [lines_cons hx]

theorem lines_append {xs : List α} (h : Terminated sep xs) (ys : List α) :
    lines sep (xs ++ ys) = lines sep xs ++ lines sep ys := by
  induction xs with
  | nil => rfl
  | cons x xs ih =>
      have hxs := ih (terminated_cons h)
      by_cases hx : x = sep
      · subst hx
        rw [List.cons_append, lines_sep, lines_sep, hxs, List.cons_append]
      · -- A terminated file that starts a line goes on, so the head is in `xs`.
        have hne : xs ≠ [] := by
          rintro rfl
          exact hx (h x (by simp))
        rw [List.cons_append, lines_cons hx, lines_cons hx, hxs]
        cases hl : lines sep xs with
        | nil => exact absurd hl (lines_ne_nil hne)
        | cons l ls => rfl

theorem OnOwnLine.mem_lines {xs l : List α} (h : OnOwnLine sep xs l) : l ∈ lines sep xs := by
  obtain ⟨hl, pre, post, rfl, hpre⟩ := h
  rw [lines_append hpre, lines_line hl]
  exact List.mem_append_right _ List.mem_cons_self

end

theorem OnOwnLine.append {xs l : List α} (h : OnOwnLine sep xs l) (ys : List α) :
    OnOwnLine sep (xs ++ ys) l := by
  obtain ⟨hl, pre, post, rfl, hpre⟩ := h
  exact ⟨hl, pre, post ++ ys, by simp, hpre⟩

theorem onOwnLine_append {xs l : List α} (hl : sep ∉ l) (h : Terminated sep xs) :
    OnOwnLine sep (xs ++ (l ++ [sep])) l := ⟨hl, xs, [], rfl, h⟩

end Lines

end PocketSkynet
