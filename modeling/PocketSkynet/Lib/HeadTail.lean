import Mathlib.Data.List.Basic

/-!
# Heads and Tails

A list of pieces is written in two halves. In front every piece has a slot, and all slots are of
one width. A piece that fits has its word there, and a longer one the place of its block, which
stands behind all slots. The blocks follow each other in the order of their pieces, so the place
of a block depends on the number of the slots and on every block before it.

## Main definitions

* `HeadTail.Piece`: A word for a slot, or a block behind the slots.
* `HeadTail.layout`: The slots, and the blocks behind them.
* `HeadTail.place`: Where the block of a piece begins.

## Theorems

* `slot_layout`: What is in each slot.
* `block_layout`: Each block is at its place.
* `place_apart`, `place_le`: Blocks do not overlap, and stand behind the slots.
* `word_flatten`: Words of one width are read by their number.
-/

namespace PocketSkynet

namespace HeadTail

variable {α : Type}

/-- What is written of one value. -/
inductive Piece (α : Type) where
  | word (w : List α)
  | block (b : List α)

/-- What stands behind the slots for a piece. -/
def Piece.behind : Piece α → List α
  | word _ => []
  | block b => b

/-- What is in the slot of a piece, if its block begins at `n`. -/
def Piece.slot (number : Nat → List α) (n : Nat) : Piece α → List α
  | word w => w
  | block _ => number n

/-- The words of the slots, if the next block begins at `n`. -/
def slots (number : Nat → List α) : Nat → List (Piece α) → List (List α)
  | _, [] => []
  | n, piece :: pieces => piece.slot number n :: slots number (n + piece.behind.length) pieces

/-- The slots, and the blocks behind them. -/
def layout (width : Nat) (number : Nat → List α) (pieces : List (Piece α)) : List α :=
  (slots number (width * pieces.length) pieces).flatten ++ pieces.flatMap Piece.behind

/-- Where the block of a piece begins. -/
def place (width : Nat) (pieces : List (Piece α)) (i : Nat) : Nat :=
  width * pieces.length + ((pieces.take i).flatMap Piece.behind).length

/-! ### Words of one width -/

theorem length_flatten_words {width : Nat} {words : List (List α)}
    (h : ∀ w ∈ words, w.length = width) : words.flatten.length = width * words.length := by
  induction words with
  | nil => rfl
  | cons w words ih =>
      rw [List.flatten_cons, List.length_append, h w List.mem_cons_self,
        ih fun v hv => h v (List.mem_cons_of_mem w hv), List.length_cons, Nat.mul_succ,
        Nat.add_comm]

-- Each word is read by its number.
theorem word_flatten {width : Nat} {words : List (List α)} {rest : List α} {i : Nat} {w : List α}
    (h : ∀ w ∈ words, w.length = width) (hi : words[i]? = some w) :
    ((words.flatten ++ rest).drop (width * i)).take width = w := by
  induction words generalizing i with
  | nil => cases hi
  | cons v words ih =>
      have hv : v.length = width := h v List.mem_cons_self
      rw [List.flatten_cons, List.append_assoc]
      cases i with
      | zero =>
          rw [List.getElem?_cons_zero, Option.some.injEq] at hi
          rw [Nat.mul_zero, List.drop_zero, ← hi, ← hv, List.take_left]
      | succ i =>
          rw [List.getElem?_cons_succ] at hi
          have hskip : width * (i + 1) = v.length + width * i := by
            rw [hv, Nat.mul_succ, Nat.add_comm]
          rw [hskip, List.drop_length_add_append]
          exact ih (fun u hu => h u (List.mem_cons_of_mem v hu)) hi

/-! ### The slots -/

theorem length_slots (number : Nat → List α) (n : Nat) (pieces : List (Piece α)) :
    (slots number n pieces).length = pieces.length := by
  induction pieces generalizing n with
  | nil => rfl
  | cons piece pieces ih => rw [slots, List.length_cons, List.length_cons, ih]

-- What is in a slot is the word of its piece, or the number of the place of its block.
theorem getElem?_slots {number : Nat → List α} {n i : Nat} {pieces : List (Piece α)}
    {piece : Piece α} (h : pieces[i]? = some piece) : (slots number n pieces)[i]? = some
      (piece.slot number (n + ((pieces.take i).flatMap Piece.behind).length)) := by
  induction pieces generalizing n i with
  | nil => cases h
  | cons p pieces ih =>
      cases i with
      | zero =>
          rw [List.getElem?_cons_zero, Option.some.injEq] at h
          subst h
          rfl
      | succ i =>
          rw [List.getElem?_cons_succ] at h
          rw [slots, List.getElem?_cons_succ, ih h, List.take_succ_cons, List.flatMap_cons,
            List.length_append, Nat.add_assoc]

theorem width_slots {width : Nat} {number : Nat → List α} (hnumber : ∀ n, (number n).length = width)
    {n : Nat} {pieces : List (Piece α)} (hword : ∀ w, Piece.word w ∈ pieces → w.length = width) :
    ∀ w ∈ slots number n pieces, w.length = width := by
  induction pieces generalizing n with
  | nil => exact fun w hw => absurd hw List.not_mem_nil
  | cons piece pieces ih =>
      intro w hw
      rcases List.mem_cons.1 hw with rfl | hw
      · cases piece with
        | word v => exact hword v List.mem_cons_self
        | block b => exact hnumber n
      · exact ih (fun v hv => hword v (List.mem_cons_of_mem piece hv)) w hw

section Layout

variable {width : Nat} {number : Nat → List α} {pieces : List (Piece α)}

/-- What is in each slot. -/
theorem slot_layout (hnumber : ∀ n, (number n).length = width)
    (hword : ∀ w, Piece.word w ∈ pieces → w.length = width) {i : Nat} {piece : Piece α}
    (h : pieces[i]? = some piece) : ((layout width number pieces).drop (width * i)).take width =
      piece.slot number (place width pieces i) :=
  word_flatten (width_slots hnumber hword) (getElem?_slots h)

theorem length_layout (hnumber : ∀ n, (number n).length = width)
    (hword : ∀ w, Piece.word w ∈ pieces → w.length = width) :
    (layout width number pieces).length = place width pieces pieces.length := by
  rw [layout, List.length_append, length_flatten_words (width_slots hnumber hword), length_slots,
    place, List.take_length]

/-- Each block is at its place. -/
theorem block_layout (hnumber : ∀ n, (number n).length = width)
    (hword : ∀ w, Piece.word w ∈ pieces → w.length = width) {i : Nat} {piece : Piece α}
    (h : pieces[i]? = some piece) :
    ((layout width number pieces).drop (place width pieces i)).take piece.behind.length =
      piece.behind := by
  have hhead : (slots number (width * pieces.length) pieces).flatten.length =
      width * pieces.length := by
    rw [length_flatten_words (width_slots hnumber hword), length_slots]
  -- The blocks before it, the block, and the blocks behind it.
  have hsplit : pieces.flatMap Piece.behind = (pieces.take i).flatMap Piece.behind ++
      (piece.behind ++ (pieces.drop (i + 1)).flatMap Piece.behind) := by
    rcases List.getElem?_eq_some_iff.1 h with ⟨hi, rfl⟩
    conv_lhs => rw [← List.take_append_drop i pieces]
    rw [List.flatMap_append, List.drop_eq_getElem_cons hi, List.flatMap_cons]
  rw [layout, place]
  generalize (slots number (width * pieces.length) pieces).flatten = front at hhead ⊢
  rw [← hhead, List.drop_length_add_append, hsplit, List.drop_left, List.take_left]

-- A piece takes the room of its block.
theorem place_succ {i : Nat} {piece : Piece α} (h : pieces[i]? = some piece) :
    place width pieces (i + 1) = place width pieces i + piece.behind.length := by
  rw [place, place, List.take_add_one, h, Option.toList_some, List.flatMap_append,
    List.length_append, List.flatMap_singleton, Nat.add_assoc]

theorem place_mono {i j : Nat} (h : i ≤ j) : place width pieces i ≤ place width pieces j := by
  induction j with
  | zero =>
      exact Nat.le_of_eq (congrArg _ (Nat.le_zero.1 h))
  | succ j ih =>
      rcases Nat.lt_or_eq_of_le h with hlt | rfl
      · refine Nat.le_trans (ih (Nat.le_of_lt_succ hlt)) ?_
        cases hj : pieces[j]? with
        | none =>
            refine Nat.le_of_eq ?_
            rw [place, place, List.take_add_one, hj, Option.toList_none, List.append_nil]
        | some piece =>
            rw [place_succ hj]
            exact Nat.le_add_right _ _
      · exact Nat.le_refl _

/-- A block ends before the next one begins. -/
theorem place_apart {i j : Nat} {piece : Piece α} (h : pieces[i]? = some piece) (hij : i < j) :
    place width pieces i + piece.behind.length ≤ place width pieces j := by
  rw [← place_succ h]
  exact place_mono hij

/-- Blocks stand behind the slots. -/
theorem place_le (i : Nat) : width * pieces.length ≤ place width pieces i := Nat.le_add_right _ _

end Layout

end HeadTail

end PocketSkynet
