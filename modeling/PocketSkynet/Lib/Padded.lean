import Mathlib.Data.Char
import Mathlib.Data.List.Lex
import PocketSkynet.Lib.Decimal

/-!
# Padded Keys

Keys whose order as texts is meant to be an order of numbers. Numerals padded with zeros to
one width are ordered as their numbers. A key made of a name, a separator and a numeral is
ordered within its name by the numeral, and no key of another name lies between two keys of
one name, be the other name longer or shorter, as long as no name has the separator in it.

## Main definitions

* `padded`: A number with zeros in front.
* `composite`: A name, a separator and a text.

## Theorems

* `padded_lt_iff`: So are numbers padded to one width.
* `composite_lt_iff`: Keys of one name.
* `composite_lt_congr`: Keys of two names, whatever stands behind them.
* `between_iff`: What lies between two keys of a name is of that name.
-/

namespace PocketSkynet

namespace Padded

open Decimal

/-- A number with zeros in front, up to a width. -/
def padded (width n : ℕ) : List Char := padLeft width (Nat.toDigits 10 n)

/-- A name, a separator and a text. -/
def composite (sep : Char) (name text : List Char) : List Char := name ++ sep :: text

-- A digit is worth what it is above zero.
theorem digitsValue_cons (c : Char) (cs : List Char) (hc : c.isDigit = true) :
    digitsValue (c :: cs) = (c.toNat - 48) * 10 ^ cs.length + digitsValue cs ∧ 48 ≤ c.toNat := by
  have hone : digitsValue [c] = c.toNat - 48 := by
    simp [digitsValue, Nat.ofDigitChars_cons]
  have hsplit := digitsValue_append [c] cs
  rw [List.singleton_append, hone] at hsplit
  simp only [Char.isDigit, Bool.and_eq_true, decide_eq_true_eq, UInt32.le_iff_toNat_le] at hc
  exact ⟨hsplit, hc.1⟩

theorem char_lt_iff (c d : Char) : c < d ↔ c.toNat < d.toNat := UInt32.lt_iff_toNat_lt

/-- Texts of equally many digits are ordered as their numbers. -/
theorem digits_lt_iff {cs ds : List Char} (hlength : cs.length = ds.length)
    (hcs : ∀ c ∈ cs, c.isDigit = true) (hds : ∀ d ∈ ds, d.isDigit = true) :
    cs < ds ↔ digitsValue cs < digitsValue ds := by
  induction cs generalizing ds with
  | nil =>
      rw [List.length_nil] at hlength
      rw [List.eq_nil_of_length_eq_zero hlength.symm]
      exact iff_of_false (List.not_lt_nil []) (Nat.lt_irrefl _)
  | cons c cs ih =>
      cases ds with
      | nil => cases hlength
      | cons d ds =>
          have hrest := ih (Nat.succ.inj hlength) (fun x hx => hcs x (List.mem_cons_of_mem _ hx))
            fun x hx => hds x (List.mem_cons_of_mem _ hx)
          have hc := digitsValue_cons c cs (hcs c List.mem_cons_self)
          have hd := digitsValue_cons d ds (hds d List.mem_cons_self)
          have hcless := digitsValue_lt fun x hx => hcs x (List.mem_cons_of_mem _ hx)
          have hdless := digitsValue_lt fun x hx => hds x (List.mem_cons_of_mem _ hx)
          rw [← Nat.succ.inj hlength] at hd hdless
          rw [List.cons_lt_cons_iff, hc.1, hd.1, hrest, char_lt_iff]
          constructor
          · rintro (hlt | ⟨rfl, hlt⟩)
            · have hmul := Nat.mul_le_mul_right (10 ^ cs.length)
                (show c.toNat - 48 + 1 ≤ d.toNat - 48 by omega)
              rw [Nat.add_mul, Nat.one_mul] at hmul
              omega
            · omega
          · intro hlt
            rcases Nat.lt_trichotomy c.toNat d.toNat with h | h | h
            · exact Or.inl h
            · refine Or.inr ⟨Char.toNat_inj.1 h, ?_⟩
              rw [h] at hlt
              omega
            · have hmul := Nat.mul_le_mul_right (10 ^ cs.length)
                (show d.toNat - 48 + 1 ≤ c.toNat - 48 by omega)
              rw [Nat.add_mul, Nat.one_mul] at hmul
              omega

theorem isDigit_padded {width n : ℕ} : ∀ c ∈ padded width n, c.isDigit = true := by
  intro c hc
  rcases List.mem_append.1 hc with hc | hc
  · rw [(List.mem_replicate.1 hc).2]
    rfl
  · exact Nat.isDigit_of_mem_toDigits (by decide) (by decide) hc

theorem digitsValue_padded (width n : ℕ) : digitsValue (padded width n) = n := by
  rw [padded, padLeft, digitsValue_append, digitsValue_zeros, digitsValue_toDigits]
  omega

theorem length_padded {width n : ℕ} (hwidth : 0 < width) (h : n < 10 ^ width) :
    (padded width n).length = width := by
  have hdigits := (Nat.length_toDigits_le_iff (by decide) hwidth).2 h
  rw [padded, padLeft, List.length_append, List.length_replicate]
  omega

/-- Numbers padded to one width are ordered as numbers. -/
theorem padded_lt_iff {width m n : ℕ} (hwidth : 0 < width) (hm : m < 10 ^ width)
    (hn : n < 10 ^ width) : padded width m < padded width n ↔ m < n := by
  have hlength : (padded width m).length = (padded width n).length := by
    rw [length_padded hwidth hm, length_padded hwidth hn]
  rw [digits_lt_iff hlength isDigit_padded isDigit_padded, digitsValue_padded,
    digitsValue_padded]

variable {sep : Char}

/-- The keys of one name are ordered by what stands behind the separator. -/
theorem composite_lt_iff (name x y : List Char) :
    composite sep name x < composite sep name y ↔ x < y := by
  have hfront : ∀ front : List Char, front ++ x < front ++ y ↔ x < y := by
    intro front
    induction front with
    | nil => exact Iff.rfl
    | cons c front ih => rw [List.cons_append, List.cons_append, List.cons_lt_cons_self, ih]
  have h := hfront (name ++ [sep])
  rw [List.append_assoc, List.append_assoc] at h
  exact h

/-- Whatever stands behind them, keys of two names are ordered one way. -/
theorem composite_lt_congr {name other : List Char} (hname : sep ∉ name) (hother : sep ∉ other)
    (hne : name ≠ other) (x y x' y' : List Char) :
    composite sep name x < composite sep other y ↔
      composite sep name x' < composite sep other y' := by
  simp only [composite]
  induction name generalizing other with
  | nil =>
      cases other with
      | nil => exact absurd rfl hne
      | cons d other =>
          have hd : sep ≠ d := fun h => hother (h ▸ List.mem_cons_self)
          simp [List.cons_lt_cons_iff, hd]
  | cons c name ih =>
      cases other with
      | nil =>
          have hc : c ≠ sep := fun h => hname (h ▸ List.mem_cons_self)
          simp [List.cons_lt_cons_iff, hc]
      | cons d other =>
          rw [List.cons_append, List.cons_append, List.cons_append, List.cons_append,
            List.cons_lt_cons_iff, List.cons_lt_cons_iff]
          refine or_congr_right (and_congr_right fun hcd => ?_)
          refine ih (fun h => hname (List.mem_cons_of_mem c h))
            (fun h => hother (List.mem_cons_of_mem d h)) fun h => hne ?_
          rw [hcd, h]

/-- A key between two keys of a name is a key of that name. -/
theorem between_iff {name other : List Char} (hname : sep ∉ name) (hother : sep ∉ other)
    (x low high : List Char) :
    (composite sep name low ≤ composite sep other x ∧
        composite sep other x ≤ composite sep name high) ↔
      other = name ∧ low ≤ x ∧ x ≤ high := by
  by_cases hne : other = name
  · subst hne
    rw [← not_lt, ← not_lt, composite_lt_iff, composite_lt_iff, not_lt, not_lt]
    simp
  · refine iff_of_false (fun h => ?_) (fun h => hne h.1)
    -- The key is on one side of every key of the name.
    have hlow := h.1
    have hhigh := h.2
    rw [← not_lt, composite_lt_congr hother hname hne x low x x] at hlow
    rw [← not_lt, composite_lt_congr hname hother (Ne.symm hne) high x x x] at hhigh
    have hsame := le_antisymm (not_lt.1 hhigh) (not_lt.1 hlow)
    exact hne (List.append_cancel_right hsame)

end Padded

end PocketSkynet
