import Mathlib.Algebra.Order.Field.Rat
import Mathlib.Data.List.DropRight
import PocketSkynet.Lib.Text

/-!
# Decimal Numerals

Texts of digits, with a dot or without one, and the number they stand for. Digits in front of
others are worth a power of ten for each of them, so that zeros in front are worth nothing and
zeros at the end multiply by ten.

## Main definitions

* `splitOnce`: The two sides of the first separator.
* `digitsValue`, `decimalValue`: The number a numeral stands for.
* `padLeft`, `trimZeros`: A fraction of a fixed width, and without the zeros at its end.

## Theorems

* `splitOnce_append`: A separator that does not occur before splits where it stands.
* `digitsValue_append`: Digits in front of others.
* `digitsValue_lt`: Some digits are less than the power of ten after their last place.
* `digitsValue_trimZeros`: Zeros at the end of a numeral multiply it by ten.
-/

namespace PocketSkynet

namespace Decimal

/-- The two sides of the first separator. -/
def splitOnce (sep : Char) (cs : List Char) : Option (List Char × List Char) :=
  match cs.dropWhile fun c => c ≠ sep with
  | [] => none
  | _ :: rest => some (cs.takeWhile (fun c => c ≠ sep), rest)

/-- The number some digits stand for. -/
def digitsValue (cs : List Char) : Nat := Nat.ofDigitChars 10 cs 0

/-- The number with these digits before and after the dot. -/
def decimalValue (whole frac : List Char) : ℚ := digitsValue (whole ++ frac) / 10 ^ frac.length

/-- Digits with zeros in front, up to a width. -/
def padLeft (width : Nat) (cs : List Char) : List Char :=
  List.replicate (width - cs.length) '0' ++ cs

/-- Digits without the zeros at their end. -/
def trimZeros (cs : List Char) : List Char := cs.rdropWhile fun c => c = '0'

-- A separator that does not occur before splits where it stands.
theorem splitOnce_append {sep : Char} {before after : List Char} (h : sep ∉ before) :
    splitOnce sep (before ++ sep :: after) = some (before, after) := by
  have hbefore : ∀ c ∈ before, (decide (c ≠ sep)) = true := by
    intro c hc
    exact decide_eq_true fun heq => h (heq ▸ hc)
  rw [splitOnce, List.dropWhile_append_of_pos hbefore, List.takeWhile_append_of_pos hbefore,
    List.dropWhile_cons_of_neg (by simp), List.takeWhile_cons_of_neg (by simp), List.append_nil]

theorem splitOnce_eq_none {sep : Char} {cs : List Char} (h : sep ∉ cs) :
    splitOnce sep cs = none := by
  have hdrop : (cs.dropWhile fun c => c ≠ sep) = [] := List.dropWhile_eq_nil_iff.2 fun c hc =>
    decide_eq_true fun heq => h (heq ▸ hc)
  rw [splitOnce, hdrop]

-- The sides are what stands around the separator.
theorem splitOnce_eq_some {sep : Char} {cs before after : List Char}
    (h : splitOnce sep cs = some (before, after)) :
    cs = before ++ sep :: after ∧ sep ∉ before := by
  have hsplit := List.takeWhile_append_dropWhile (p := fun c => decide (c ≠ sep)) (l := cs)
  unfold splitOnce at h
  cases hdrop : cs.dropWhile fun c => c ≠ sep with
  | nil =>
      rw [hdrop] at h
      cases h
  | cons c rest =>
      rw [hdrop] at h
      cases h
      have hhead := List.head?_dropWhile_not (fun c => decide (c ≠ sep)) cs
      rw [hdrop] at hhead
      have hc : c = sep := by simpa using hhead
      rw [hdrop, hc] at hsplit
      refine ⟨hsplit.symm, fun hmem => ?_⟩
      simpa using List.mem_takeWhile_imp hmem

theorem digitsValue_append (a b : List Char) :
    digitsValue (a ++ b) = digitsValue a * 10 ^ b.length + digitsValue b := by
  rw [digitsValue, Nat.ofDigitChars_append, Nat.ofDigitChars_eq_ofDigitChars_zero, Nat.mul_comm]
  rfl

theorem digitsValue_zeros (n : Nat) : digitsValue (List.replicate n '0') = 0 := by
  rw [digitsValue, Nat.ofDigitChars_replicate_zero, Nat.mul_zero]

theorem digitsValue_toDigits (n : Nat) : digitsValue (Nat.toDigits 10 n) = n :=
  Nat.ofDigitChars_toDigits (by decide) (by decide)

-- Digits are less than what follows their last place.
theorem digitsValue_lt {cs : List Char} (h : ∀ c ∈ cs, c.isDigit = true) :
    digitsValue cs < 10 ^ cs.length := by
  induction cs with
  | nil => exact Nat.one_pos
  | cons c cs ih =>
      have hc := h c List.mem_cons_self
      have hrest := ih fun d hd => h d (List.mem_cons_of_mem c hd)
      have hone : digitsValue [c] ≤ 9 := by
        simp only [Char.isDigit, Bool.and_eq_true, decide_eq_true_eq,
          UInt32.le_iff_toNat_le] at hc
        have hhigh : c.toNat ≤ 57 := hc.2
        have hvalue : digitsValue [c] = c.toNat - '0'.toNat := by
          simp [digitsValue, Nat.ofDigitChars_cons]
        have hzero : '0'.toNat = 48 := rfl
        omega
      have hsplit := digitsValue_append [c] cs
      rw [List.singleton_append] at hsplit
      rw [hsplit, List.length_cons, Nat.pow_succ]
      have hle := Nat.mul_le_mul_right (10 ^ cs.length) hone
      omega

-- What is taken off at the end are zeros.
theorem trimZeros_append (cs : List Char) :
    ∃ k, cs = trimZeros cs ++ List.replicate k '0' := by
  refine ⟨(cs.rtakeWhile fun c => c = '0').length, ?_⟩
  have hzeros : (cs.rtakeWhile fun c => c = '0') =
      List.replicate (cs.rtakeWhile fun c => c = '0').length '0' :=
    List.eq_replicate_iff.2 ⟨rfl, fun c hc => by simpa using List.mem_rtakeWhile_imp hc⟩
  conv_lhs => rw [← List.rdropWhile_append_rtakeWhile (p := fun c => decide (c = '0')) (l := cs)]
  rw [← hzeros, trimZeros]

/-- Zeros at the end of a numeral multiply it by ten. -/
theorem digitsValue_trimZeros (cs : List Char) :
    digitsValue cs = digitsValue (trimZeros cs) * 10 ^ (cs.length - (trimZeros cs).length) ∧
      (trimZeros cs).length ≤ cs.length := by
  rcases trimZeros_append cs with ⟨k, hk⟩
  have hlength := congrArg List.length hk
  have hvalue := congrArg digitsValue hk
  rw [List.length_append, List.length_replicate] at hlength
  rw [digitsValue_append, digitsValue_zeros, List.length_replicate, Nat.add_zero] at hvalue
  have hcount : cs.length - (trimZeros cs).length = k := by omega
  rw [hcount]
  exact ⟨hvalue, by omega⟩

theorem padLeft_length {width : Nat} {cs : List Char} (h : cs.length ≤ width) :
    (padLeft width cs).length = width := by
  rw [padLeft, List.length_append, List.length_replicate]
  omega

theorem digitsValue_padLeft (width : Nat) (cs : List Char) :
    digitsValue (padLeft width cs) = digitsValue cs := by
  rw [padLeft, digitsValue_append, digitsValue_zeros, Nat.zero_mul, Nat.zero_add]

end Decimal

end PocketSkynet
