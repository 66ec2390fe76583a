import Mathlib.Data.List.Basic

/-!
# Runs without a Stop

Some elements of a list are stops. A run is a stretch without stops that cannot be made longer
on either side. Where a list is written down block by block, each block being free of stops or
made of them, and no two free blocks side by side, the runs are the free blocks: this carries
what is known of the blocks over to the list, where no blocks can be seen.

## Main definitions

* `IsRun`: A stretch without a stop between stops or ends.
* `Pieced`: Blocks that are free or made of stops, no two free ones side by side.

## Theorems

* `isRun_map`: Runs of a list whose elements are seen through a map.
* `isRun_block`: A free block is a run.
* `exists_block`: A run is a block.
* `append_of_flatMap`: Where an element of a joined list comes from.
-/

namespace PocketSkynet

namespace Runs

variable {α β : Type}

/-- A stretch without a stop, with a stop or nothing on both sides. -/
structure IsRun (p : α → Bool) (front run rest : List α) : Prop where
  free : ∀ x ∈ run, p x = false
  before : ∀ x ∈ front.getLast?, p x = true
  behind : ∀ x ∈ rest.head?, p x = true

/-- Every block is free of stops and stands in front of a stop, or it is made of stops. -/
def Pieced (p : α → Bool) : List (List α) → Prop
  | [] => True
  | b :: bs =>
      ((∀ x ∈ b, p x = false) ∧ (∀ x ∈ bs.flatten.head?, p x = true) ∨
        b ≠ [] ∧ ∀ x ∈ b, p x = true) ∧ Pieced p bs

variable {p : α → Bool}

theorem isRun_map {q : β → Bool} {f : β → α} (hq : ∀ x, q x = p (f x)) {front run rest : List β} :
    IsRun p (front.map f) (run.map f) (rest.map f) ↔ IsRun q front run rest := by
  constructor
  · intro h
    refine ⟨fun x hx => ?_, fun x hx => ?_, fun x hx => ?_⟩
    · rw [hq]
      exact h.free _ (List.mem_map_of_mem hx)
    · rw [hq]
      refine h.before _ ?_
      rw [List.getLast?_map, Option.mem_def.1 hx]
      rfl
    · rw [hq]
      refine h.behind _ ?_
      rw [List.head?_map, Option.mem_def.1 hx]
      rfl
  · intro h
    refine ⟨fun x hx => ?_, fun x hx => ?_, fun x hx => ?_⟩
    · rcases List.mem_map.1 hx with ⟨y, hy, rfl⟩
      rw [← hq]
      exact h.free y hy
    · rw [List.getLast?_map] at hx
      rcases Option.map_eq_some_iff.1 hx with ⟨y, hy, rfl⟩
      rw [← hq]
      exact h.before y hy
    · rw [List.head?_map] at hx
      rcases Option.map_eq_some_iff.1 hx with ⟨y, hy, rfl⟩
      rw [← hq]
      exact h.behind y hy

-- The last of two lists is the last of the second, unless that is empty.
theorem before_append {a b : List α} (ha : b = [] → ∀ x ∈ a.getLast?, p x = true)
    (hb : ∀ x ∈ b.getLast?, p x = true) : ∀ x ∈ (a ++ b).getLast?, p x = true := by
  intro x hx
  by_cases hnil : b = []
  · rw [hnil, List.append_nil] at hx
    exact ha hnil x hx
  · rw [List.getLast?_append_of_ne_nil _ hnil] at hx
    exact hb x hx

/-- A free block that is not empty is a run. -/
theorem isRun_block {pre post : List (List α)} {b : List α} (h : Pieced p (pre ++ b :: post))
    (hne : b ≠ []) (hfree : ∀ x ∈ b, p x = false) : IsRun p pre.flatten b post.flatten := by
  induction pre with
  | nil =>
      rcases h.1 with ⟨-, hbehind⟩ | ⟨-, hstops⟩
      · exact ⟨hfree, fun x hx => absurd hx (by simp), hbehind⟩
      · have hhead := List.head_mem hne
        exact absurd (hstops _ hhead) (ne_true_of_eq_false (hfree _ hhead))
  | cons c pre ih =>
      have hrest := ih h.2
      refine ⟨hfree, ?_, hrest.behind⟩
      rw [List.flatten_cons]
      refine before_append (fun hnil x hx => ?_) hrest.before
      rcases h.1 with ⟨-, hbehind⟩ | ⟨-, hstops⟩
      · -- The block in front would be free too.
        exfalso
        have hflat : (pre ++ b :: post).flatten = b ++ post.flatten := by
          rw [List.flatten_append, hnil, List.nil_append, List.flatten_cons]
        have hstop : p (b.head hne) = true := by
          refine hbehind _ ?_
          change (pre ++ b :: post).flatten.head? = _
          rw [hflat, List.head?_append_of_ne_nil b hne, List.head?_eq_some_head hne]
        exact absurd hstop (ne_true_of_eq_false (hfree _ (List.head_mem hne)))
      · exact hstops x (List.mem_of_getLast? hx)

-- The run at the beginning of a list ends where the first stop is.
theorem extra_eq_nil (run : List α) {extra rest tail : List α}
    (hfree : ∀ x ∈ run ++ extra, p x = false) (hbehind : ∀ x ∈ rest.head?, p x = true) (hrest : rest = extra ++ tail) : extra = [] := by
  cases extra with
  | nil => rfl
  | cons x extra =>
      have hstop := hbehind x (by rw [hrest]; rfl)
      have hmem : x ∈ run ++ x :: extra := List.mem_append_right _ List.mem_cons_self
      exact absurd hstop (ne_true_of_eq_false (hfree x hmem))

theorem first_run {a b r s : List α} (ha : IsRun p [] a r) (hb : IsRun p [] b s)
    (h : a ++ r = b ++ s) : a = b ∧ r = s := by
  rcases List.append_eq_append_iff.1 h with ⟨extra, hlong, hrest⟩ | ⟨extra, hlong, hrest⟩
  · have hnil := extra_eq_nil a (by rw [← hlong]; exact hb.free) ha.behind hrest
    rw [hnil, List.append_nil] at hlong
    rw [hnil, List.nil_append] at hrest
    exact ⟨hlong.symm, hrest⟩
  · have hnil := extra_eq_nil b (by rw [← hlong]; exact ha.free) hb.behind hrest
    rw [hnil, List.append_nil] at hlong
    rw [hnil, List.nil_append] at hrest
    exact ⟨hlong, hrest.symm⟩

/-- A run that is not empty is a block. -/
theorem exists_block {bs : List (List α)} (h : Pieced p bs) {front run rest : List α}
    (hlist : bs.flatten = front ++ (run ++ rest)) (hrun : IsRun p front run rest)
    (hne : run ≠ []) :
    ∃ pre post, bs = pre ++ run :: post ∧ front = pre.flatten ∧ rest = post.flatten := by
  induction bs generalizing front with
  | nil => exact absurd (List.append_eq_nil_iff.1 (List.append_eq_nil_iff.1 hlist.symm).2).1 hne
  | cons b bs ih =>
      rw [List.flatten_cons] at hlist
      -- A run that does not begin in the first block is found by induction.
      have hskip : ∀ more, front = b ++ more → ∃ pre post, b :: bs = pre ++ run :: post ∧
          front = pre.flatten ∧ rest = post.flatten := by
        intro more hfront
        have hbefore : ∀ x ∈ more.getLast?, p x = true := by
          intro x hx
          refine hrun.before x ?_
          rw [hfront, List.getLast?_append_of_ne_nil]
          · exact hx
          · rintro rfl
            cases hx
        rw [hfront, List.append_assoc] at hlist
        rcases ih h.2 (List.append_cancel_left hlist) ⟨hrun.free, hbefore, hrun.behind⟩ with
          ⟨pre, post, hbs, hmore, hrest⟩
        exact ⟨b :: pre, post, by rw [hbs]; rfl, by rw [hfront, hmore]; rfl, hrest⟩
      rcases List.append_eq_append_iff.1 hlist with ⟨more, hfront, -⟩ | ⟨more, hb, hmore⟩
      · exact hskip more hfront
      rcases h.1 with ⟨hfree, hbehind⟩ | ⟨-, hstops⟩
      · by_cases hnil : front = []
        · -- It is the run at the beginning, and so is the block.
          rw [hnil, List.nil_append] at hlist
          rw [hnil] at hrun
          rcases first_run ⟨hfree, hrun.before, hbehind⟩ hrun hlist with ⟨rfl, rfl⟩
          exact ⟨[], bs, rfl, hnil, rfl⟩
        · -- A stop stands in front of it, and there is none in the block.
          have hlast := hrun.before _ (List.getLast?_eq_getLast_of_ne_nil hnil)
          have hmem : front.getLast hnil ∈ b := by
            rw [hb]
            exact List.mem_append_left _ (List.getLast_mem hnil)
          exact absurd hlast (ne_true_of_eq_false (hfree _ hmem))
      · cases more with
        | nil =>
            rw [List.append_nil] at hb
            exact hskip [] (by rw [hb, List.append_nil])
        | cons x more =>
            -- It would begin with a stop.
            cases run with
            | nil => exact absurd rfl hne
            | cons y run =>
                have hxy : y = x := (List.cons.inj hmore).1
                have hstop := hstops x (by
                  rw [hb]
                  exact List.mem_append_right _ List.mem_cons_self)
                rw [← hxy] at hstop
                exact absurd hstop (ne_true_of_eq_false (hrun.free y List.mem_cons_self))

/-- Where an element of a joined list comes from. -/
theorem append_of_flatMap {f : β → List α} {xs : List β} {before after : List α} {y : α}
    (h : xs.flatMap f = before ++ y :: after) :
    ∃ pre x post inner outer, xs = pre ++ x :: post ∧ f x = inner ++ y :: outer ∧
      before = pre.flatMap f ++ inner ∧ after = outer ++ post.flatMap f := by
  induction xs generalizing before with
  | nil => simp at h
  | cons x xs ih =>
      rw [List.flatMap_cons] at h
      rcases List.append_eq_append_iff.1 h with ⟨more, hbefore, htail⟩ | ⟨more, hhere, htail⟩
      · rcases ih htail with ⟨pre, z, post, inner, outer, hxs, hz, hmore, hafter⟩
        refine ⟨x :: pre, z, post, inner, outer, by rw [hxs]; rfl, hz, ?_, hafter⟩
        rw [hbefore, hmore, List.flatMap_cons, List.append_assoc]
      · cases more with
        | nil =>
            rw [List.append_nil] at hhere
            rcases @ih [] htail.symm with
              ⟨pre, z, post, inner, outer, hxs, hz, hmore, hafter⟩
            refine ⟨x :: pre, z, post, inner, outer, by rw [hxs]; rfl, hz, ?_, hafter⟩
            rw [List.flatMap_cons, List.append_assoc, ← hmore, List.append_nil, hhere]
        | cons z more =>
            rcases List.cons.inj htail with ⟨rfl, hafter⟩
            exact ⟨[], x, xs, before, more, rfl, hhere, rfl, hafter⟩

theorem length_flatMap_le {f g : β → List α} (hle : ∀ x, (f x).length ≤ (g x).length)
    (xs : List β) : (xs.flatMap f).length ≤ (xs.flatMap g).length := by
  induction xs with
  | nil => exact Nat.le_refl 0
  | cons x xs ih =>
      rw [List.flatMap_cons, List.flatMap_cons, List.length_append, List.length_append]
      exact Nat.add_le_add (hle x) ih

-- If none of the parts is longer than another by which it is told, joined lists are told part by
-- part.
theorem eq_of_flatMap_eq {f g : β → List α} {xs : List β}
    (hle : ∀ x, (f x).length ≤ (g x).length) (h : xs.flatMap f = xs.flatMap g) :
    ∀ x ∈ xs, f x = g x := by
  induction xs with
  | nil => exact fun x hx => absurd hx List.not_mem_nil
  | cons y xs ih =>
      rw [List.flatMap_cons, List.flatMap_cons] at h
      have hlength := congrArg List.length h
      rw [List.length_append, List.length_append] at hlength
      have hone := hle y
      have hothers := length_flatMap_le hle xs
      rcases List.append_inj h (by omega) with ⟨hy, hxs⟩
      exact List.forall_mem_cons.2 ⟨hy, ih hxs⟩

-- What a list is split at is in none of its parts.
theorem not_mem_of_mem_splitOn [DecidableEq α] {a : α} {cs t : List α} (h : t ∈ cs.splitOn a) :
    a ∉ t := by
  induction cs generalizing t with
  | nil =>
      rw [List.splitOn_nil, List.mem_singleton] at h
      rw [h]
      exact List.not_mem_nil
  | cons c cs ih =>
      rw [List.splitOn_cons_eq_if_modifyHead] at h
      by_cases hc : c = a
      · rw [if_pos (beq_iff_eq.2 hc)] at h
        rcases List.mem_cons.1 h with rfl | h
        · exact List.not_mem_nil
        · exact ih h
      · rw [if_neg (mt beq_iff_eq.1 hc)] at h
        cases hsplit : cs.splitOn a with
        | nil => exact absurd hsplit (List.splitOn_ne_nil a cs)
        | cons first parts =>
            rw [hsplit] at ih h
            rcases List.mem_cons.1 h with rfl | h
            · rw [List.mem_cons, not_or]
              exact ⟨Ne.symm hc, ih List.mem_cons_self⟩
            · exact ih (List.mem_cons_of_mem _ h)

end Runs

end PocketSkynet
