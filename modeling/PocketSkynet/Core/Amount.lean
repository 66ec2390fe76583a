import Mathlib.Tactic.NormNum
import Mathlib.Tactic.Ring
import PocketSkynet.Core.Api
import PocketSkynet.Lib.Decimal

/-!
# Amounts

An amount is typed as a decimal numeral and moved as an integer of base units, the smallest
there are at the decimals of its token. Nothing is rounded between the two: a numeral with
more places than the token has is refused.

Base units are 128 bits wide. Reading a numeral checks the power of ten it scales by, and once
that power fits nothing after it leaves the width unnoticed. Printing scales by the same power
and does not check it: a build with checks ends there, and one without goes on with what is
left of the power, or divides by zero. A program that ends is told apart from one that
answers, as `none`.

## Main definitions

* `narrow`: What an operation in 128 bits gives.
* `parseAmount`, `formatAmount`: A numeral as base units, and base units as a numeral.
* `Numeral`: A plain decimal number, and its value.

## Theorems

* `parseAmount_cases`: Everything reading can come to.
* `parse_format`: What is printed is read back as it was.
* `amounts_exact_iff`: Both ways are exact where the power of ten fits.
-/

namespace PocketSkynet

open Decimal

/-- The width of an amount. -/
def amountBound : Nat := 2 ^ 128

/-- The chain errors that are about amounts: why a numeral is none. -/
inductive AmountError where
  | invalidAmount
  | tooManyDecimals
  | overflow
deriving DecidableEq, Repr

def AmountError.message : AmountError → String
  | invalidAmount => "invalid amount"
  | tooManyDecimals => "too many decimal places"
  | overflow => "amount out of range"

/-- What an operation in 128 bits gives whose result would be `n`: a build with checks ends
    where it does not fit, and one without wraps around. -/
def narrow (checked : Bool) (n : Nat) : Option Nat :=
  if n < amountBound then some n else if checked then none else some (n % amountBound)

/-- Digits as a number of 128 bits. No digits are zero. -/
def parseDigits (cs : List Char) : Except AmountError Nat :=
  if digitsValue cs < amountBound then .ok (digitsValue cs) else .error .overflow

/-- The digits before the dot and the digits behind it. -/
def amountParts (cs : List Char) : List Char × List Char := (splitOnce '.' cs).getD (cs, [])

/-- Parse a decimal numeral into base units. -/
def parseAmount (checked : Bool) (input : String) (decimals : Nat) :
    Option (Except AmountError Nat) :=
  let trimmed := trim input.toList
  let whole := (amountParts trimmed).1
  let frac := (amountParts trimmed).2
  if trimmed = [] then some (.error .invalidAmount)
  else if whole = [] ∧ frac = [] ∨ frac.contains '.' then some (.error .invalidAmount)
  else if ¬ (whole.all Char.isDigit ∧ frac.all Char.isDigit) then some (.error .invalidAmount)
  else if decimals < frac.length then some (.error .tooManyDecimals)
  -- The power that is scaled by is checked, and so is the last sum.
  else if amountBound ≤ 10 ^ decimals then some (.error .overflow)
  else
    match parseDigits whole, parseDigits frac with
    | .ok units, .ok fracUnits => do
        let places ← narrow checked (10 ^ (decimals - frac.length))
        let fracUnits ← narrow checked (fracUnits * places)
        if amountBound ≤ units * 10 ^ decimals + fracUnits then some (.error .overflow)
        else some (.ok (units * 10 ^ decimals + fracUnits))
    | _, _ => some (.error .overflow)

/-- Format base units back into a trimmed decimal numeral. -/
def formatAmount (checked : Bool) (value decimals : Nat) : Option String := do
  let scale ← narrow checked (10 ^ decimals)
  -- To divide by zero ends the program in every build.
  if scale = 0 then none
  else
    let whole := Nat.toDigits 10 (value / scale)
    let frac := value % scale
    if frac = 0 then some (String.ofList whole)
    else some (String.ofList
      (whole ++ '.' :: trimZeros (padLeft decimals (Nat.toDigits 10 frac))))

/-- A plain decimal number: digits, with or without a dot among them, and the number that they
    stand for. -/
def Numeral (cs : List Char) (q : ℚ) : Prop :=
  ∃ whole frac, (cs = whole ++ '.' :: frac ∨ cs = whole ∧ frac = []) ∧
    (∀ c ∈ whole, c.isDigit = true) ∧ (∀ c ∈ frac, c.isDigit = true) ∧
    (whole ≠ [] ∨ frac ≠ []) ∧ q = decimalValue whole frac

theorem narrow_of_lt {checked : Bool} {n : Nat} (h : n < amountBound) :
    narrow checked n = some n := if_pos h

-- The two sides of a numeral.
theorem amountParts_eq (cs : List Char) :
    cs = (amountParts cs).1 ++ '.' :: (amountParts cs).2 ∨ amountParts cs = (cs, []) := by
  cases hsplit : splitOnce '.' cs with
  | none => exact Or.inr (by rw [amountParts, hsplit, Option.getD_none])
  | some parts =>
      left
      rw [amountParts, hsplit, Option.getD_some]
      exact (splitOnce_eq_some hsplit).1

/-- Everything reading can come to: an error, or the units that the numeral stands for at the
    decimals of the token. A program that reads an amount never ends. -/
theorem parseAmount_cases (checked : Bool) (input : String) (decimals : Nat) :
    (∃ e, parseAmount checked input decimals = some (.error e)) ∨
    ∃ units q, parseAmount checked input decimals = some (.ok units) ∧
      Numeral (trim input.toList) q ∧ (units : ℚ) = q * 10 ^ decimals ∧
      units < amountBound ∧ 10 ^ decimals < amountBound := by
  unfold parseAmount
  simp only
  generalize htrimmed : trim input.toList = cs
  generalize hwhole : (amountParts cs).1 = whole
  generalize hfrac : (amountParts cs).2 = frac
  by_cases hempty : cs = []
  · exact Or.inl ⟨_, if_pos hempty⟩
  rw [if_neg hempty]
  by_cases hform : whole = [] ∧ frac = [] ∨ frac.contains '.' = true
  · exact Or.inl ⟨_, if_pos hform⟩
  rw [if_neg hform]
  by_cases hdigits : whole.all Char.isDigit = true ∧ frac.all Char.isDigit = true
  swap
  · exact Or.inl ⟨_, if_pos hdigits⟩
  rw [if_neg (not_not.2 hdigits)]
  by_cases hplaces : decimals < frac.length
  · exact Or.inl ⟨_, if_pos hplaces⟩
  rw [if_neg hplaces]
  by_cases hscale : amountBound ≤ 10 ^ decimals
  · exact Or.inl ⟨_, if_pos hscale⟩
  rw [if_neg hscale]
  have hdecimals := Nat.not_lt.1 hplaces
  have hfits := Nat.not_le.1 hscale
  have hfracDigits := List.all_eq_true.1 hdigits.2
  -- The fraction is less than one unit of the token, so that nothing in it leaves the width.
  have hsum : 10 ^ decimals = 10 ^ frac.length * 10 ^ (decimals - frac.length) := by
    rw [← Nat.pow_add, Nat.add_sub_of_le hdecimals]
  have hpad : 10 ^ (decimals - frac.length) < amountBound :=
    (Nat.pow_le_pow_right (by decide) (Nat.sub_le decimals frac.length)).trans_lt hfits
  have hunits : digitsValue frac * 10 ^ (decimals - frac.length) < 10 ^ decimals := by
    rw [hsum]
    exact Nat.mul_lt_mul_of_pos_right (digitsValue_lt hfracDigits) (Nat.pow_pos (by decide))
  have hsmall : digitsValue frac < amountBound :=
    (Nat.le_mul_of_pos_right _ (Nat.pow_pos (by decide))).trans_lt (hunits.trans hfits)
  by_cases hlarge : digitsValue whole < amountBound
  swap
  · refine Or.inl ⟨.overflow, ?_⟩
    rw [parseDigits, if_neg hlarge]
  rw [parseDigits, parseDigits, if_pos hlarge, if_pos hsmall]
  simp only [narrow_of_lt hpad, narrow_of_lt (hunits.trans hfits), Option.bind_eq_bind,
    Option.bind_some]
  by_cases hover : amountBound ≤ digitsValue whole * 10 ^ decimals +
      digitsValue frac * 10 ^ (decimals - frac.length)
  · exact Or.inl ⟨_, if_pos hover⟩
  rw [if_neg hover]
  refine Or.inr ⟨_, decimalValue whole frac, rfl, ⟨whole, frac, ?_, List.all_eq_true.1 hdigits.1,
    hfracDigits, ?_, rfl⟩, ?_, Nat.not_le.1 hover, hfits⟩
  · rcases amountParts_eq cs with hsplit | hnone
    · rw [hwhole, hfrac] at hsplit
      exact Or.inl hsplit
    · rw [hnone] at hwhole hfrac
      exact Or.inr ⟨hwhole, hfrac.symm⟩
  · by_contra hnot
    rw [not_or, not_not, not_not] at hnot
    exact hform (Or.inl hnot)
  · -- To scale up by the places that are missing is to divide by those that are there.
    have hsumQ : (10 : ℚ) ^ decimals = 10 ^ frac.length * 10 ^ (decimals - frac.length) := by
      exact_mod_cast hsum
    have hpos : (10 : ℚ) ^ frac.length ≠ 0 := pow_ne_zero _ (by norm_num)
    rw [decimalValue, digitsValue_append, div_mul_eq_mul_div, eq_div_iff hpos]
    push_cast
    rw [hsumQ]
    ring

-- A numeral of digits with at most a dot has no white space at its ends.
theorem trim_of_digits {cs : List Char} (h : ∀ c ∈ cs, c.isDigit = true ∨ c = '.') :
    trim cs = cs := by
  refine trim_of_no_space fun c hc => ?_
  rcases h c hc with hdigit | rfl
  · exact isSpace_of_isDigit hdigit
  · decide

/-- A numeral with its places is taken if it fits. -/
theorem parseAmount_of_parts {checked : Bool} {input : String} {decimals units : Nat}
    {whole frac : List Char} (hne : trim input.toList ≠ [])
    (hparts : amountParts (trim input.toList) = (whole, frac)) (hsome : whole ≠ [])
    (hwhole : ∀ c ∈ whole, c.isDigit = true) (hfrac : ∀ c ∈ frac, c.isDigit = true)
    (hplaces : frac.length ≤ decimals) (hscale : 10 ^ decimals < amountBound)
    (hunits : units = digitsValue whole * 10 ^ decimals +
      digitsValue frac * 10 ^ (decimals - frac.length)) (hfits : units < amountBound) :
    parseAmount checked input decimals = some (.ok units) := by
  have hnodot : frac.contains '.' = false := by
    by_contra hnot
    rw [Bool.not_eq_false, List.contains_iff_mem] at hnot
    exact absurd (hfrac _ hnot) (by decide)
  have hbefore := Nat.le_mul_of_pos_right (digitsValue whole)
    (Nat.pow_pos (n := decimals) (by decide : 0 < 10))
  have hbehind := Nat.le_mul_of_pos_right (digitsValue frac)
    (Nat.pow_pos (n := decimals - frac.length) (by decide : 0 < 10))
  have hpad : 10 ^ (decimals - frac.length) < amountBound :=
    (Nat.pow_le_pow_right (by decide) (Nat.sub_le decimals frac.length)).trans_lt hscale
  have hlarge : digitsValue whole < amountBound := by omega
  have hsmall : digitsValue frac < amountBound := by omega
  have hscaled : digitsValue frac * 10 ^ (decimals - frac.length) < amountBound := by omega
  have hform : ¬ (whole = [] ∧ frac = [] ∨ frac.contains '.' = true) := by
    rintro (⟨hnil, -⟩ | hdot)
    · exact hsome hnil
    · rw [hnodot] at hdot
      cases hdot
  unfold parseAmount
  simp only [hparts]
  rw [if_neg hne, if_neg hform,
    if_neg (not_not.2 ⟨List.all_eq_true.2 hwhole, List.all_eq_true.2 hfrac⟩),
    if_neg (Nat.not_lt.2 hplaces), if_neg (Nat.not_le.2 hscale), parseDigits, parseDigits,
    if_pos hlarge, if_pos hsmall]
  simp only [narrow_of_lt hpad, narrow_of_lt hscaled, Option.bind_eq_bind, Option.bind_some]
  rw [← hunits, if_neg (Nat.not_le.2 hfits)]

/-- What is printed is read back as it was, and printing does not end the program. -/
theorem parse_format (checked : Bool) {value decimals : Nat} (hvalue : value < amountBound)
    (hdecimals : 10 ^ decimals < amountBound) :
    ∃ text, formatAmount checked value decimals = some text ∧
      parseAmount checked text decimals = some (.ok value) := by
  have hscale : 0 < 10 ^ decimals := Nat.pow_pos (by decide)
  have hsplit := Nat.div_add_mod value (10 ^ decimals)
  have hwhole : ∀ c ∈ Nat.toDigits 10 (value / 10 ^ decimals), c.isDigit = true := fun c hc =>
    Nat.isDigit_of_mem_toDigits (by decide) (by decide) hc
  have hnodot : '.' ∉ Nat.toDigits 10 (value / 10 ^ decimals) := fun hmem =>
    absurd (hwhole _ hmem) (by decide)
  unfold formatAmount
  simp only [narrow_of_lt hdecimals, Option.bind_eq_bind, Option.bind_some, if_neg hscale.ne']
  by_cases hfrac : value % 10 ^ decimals = 0
  · rw [if_pos hfrac]
    refine ⟨_, rfl, ?_⟩
    have htrim : trim (String.ofList (Nat.toDigits 10 (value / 10 ^ decimals))).toList =
        Nat.toDigits 10 (value / 10 ^ decimals) := by
      rw [String.toList_ofList, trim_of_digits fun c hc => Or.inl (hwhole c hc)]
    have hparts : amountParts (Nat.toDigits 10 (value / 10 ^ decimals)) =
        (Nat.toDigits 10 (value / 10 ^ decimals), []) := by
      rw [amountParts, splitOnce_eq_none hnodot, Option.getD_none]
    refine parseAmount_of_parts (by rw [htrim]; exact Nat.toDigits_ne_nil)
      (by rw [htrim]; exact hparts) Nat.toDigits_ne_nil hwhole (by simp) (Nat.zero_le _)
      hdecimals ?_ hvalue
    have hzero : digitsValue [] = 0 := rfl
    rw [digitsValue_toDigits, hzero, Nat.zero_mul, Nat.mul_comm]
    omega
  · rw [if_neg hfrac]
    refine ⟨_, rfl, ?_⟩
    -- The fraction has as many places as the token, and the zeros at its end are left out.
    have hrest : value % 10 ^ decimals < 10 ^ decimals := Nat.mod_lt _ hscale
    have hplaces : (Nat.toDigits 10 (value % 10 ^ decimals)).length ≤ decimals := by
      cases decimals with
      | zero => simp [Nat.mod_one] at hfrac
      | succ n => exact (Nat.length_toDigits_le_iff (by decide) n.succ_pos).2 hrest
    have hpadded := padLeft_length hplaces
    have hpaddedDigits : ∀ c ∈ padLeft decimals (Nat.toDigits 10 (value % 10 ^ decimals)),
        c.isDigit = true := by
      intro c hc
      rcases List.mem_append.1 hc with hzero | hdigit
      · rw [(List.mem_replicate.1 hzero).2]
        decide
      · exact Nat.isDigit_of_mem_toDigits (by decide) (by decide) hdigit
    rcases digitsValue_trimZeros (padLeft decimals (Nat.toDigits 10 (value % 10 ^ decimals)))
      with ⟨hvalueOf, hshort⟩
    rcases trimZeros_append (padLeft decimals (Nat.toDigits 10 (value % 10 ^ decimals)))
      with ⟨k, hk⟩
    rw [digitsValue_padLeft, digitsValue_toDigits, hpadded] at hvalueOf
    rw [hpadded] at hshort
    have hfracDigits : ∀ c ∈ trimZeros (padLeft decimals
        (Nat.toDigits 10 (value % 10 ^ decimals))), c.isDigit = true := fun c hc =>
      hpaddedDigits c (by rw [hk]; exact List.mem_append_left _ hc)
    generalize trimZeros (padLeft decimals (Nat.toDigits 10 (value % 10 ^ decimals))) = frac
      at hvalueOf hshort hfracDigits ⊢
    have htrim : trim (String.ofList
        (Nat.toDigits 10 (value / 10 ^ decimals) ++ '.' :: frac)).toList =
        Nat.toDigits 10 (value / 10 ^ decimals) ++ '.' :: frac := by
      rw [String.toList_ofList, trim_of_digits]
      intro c hc
      rcases List.mem_append.1 hc with hc | hc
      · exact Or.inl (hwhole c hc)
      · rcases List.mem_cons.1 hc with rfl | hc
        · exact Or.inr rfl
        · exact Or.inl (hfracDigits c hc)
    have hparts : amountParts (Nat.toDigits 10 (value / 10 ^ decimals) ++ '.' :: frac) =
        (Nat.toDigits 10 (value / 10 ^ decimals), frac) := by
      rw [amountParts, splitOnce_append hnodot, Option.getD_some]
    refine parseAmount_of_parts (by rw [htrim]; simp) (by rw [htrim]; exact hparts)
      Nat.toDigits_ne_nil hwhole hfracDigits hshort hdecimals ?_ hvalue
    rw [digitsValue_toDigits, ← hvalueOf, Nat.mul_comm]
    exact hsplit.symm

/-- Thirty-eight places are as many as 128 bits hold. -/
theorem pow_lt_amountBound {decimals : Nat} : 10 ^ decimals < amountBound ↔ decimals ≤ 38 := by
  have hlow : 10 ^ 38 < amountBound := by decide
  have hhigh : amountBound ≤ 10 ^ 39 := by decide
  constructor
  · intro h
    by_contra hlarge
    have hle := Nat.pow_le_pow_right (by decide : 0 < 10) (by omega : 39 ≤ decimals)
    omega
  · intro h
    exact (Nat.pow_le_pow_right (by decide) h).trans_lt hlow

/-- Reading is exact and never ends the program, at any decimals. Printing does neither end it
    nor lose anything if and only if the decimals are no more than thirty-eight. -/
theorem amounts_exact_iff (checked : Bool) (decimals : UInt8) :
    ((∀ input, ∃ reply, parseAmount checked input decimals.toNat = some reply ∧
        ∀ units, reply = .ok units → units < amountBound ∧
          ∃ q, Numeral (trim input.toList) q ∧ (units : ℚ) = q * 10 ^ decimals.toNat) ∧
      ∀ value : Fin amountBound, ∃ text,
        formatAmount checked value decimals.toNat = some text ∧
          parseAmount checked text decimals.toNat = some (.ok value)) ↔
      decimals.toNat ≤ 38 := by
  constructor
  · rintro ⟨-, hformat⟩
    -- What is read at all is read at decimals whose power fits.
    rcases hformat ⟨0, by decide⟩ with ⟨text, -, hparse⟩
    rcases parseAmount_cases checked text decimals.toNat with ⟨e, herror⟩ | ⟨_, _, _, _, _, _, h⟩
    · rw [herror] at hparse
      cases hparse
    · exact pow_lt_amountBound.1 h
  · intro h
    refine ⟨fun input => ?_, fun value => ?_⟩
    · rcases parseAmount_cases checked input decimals.toNat with
        ⟨e, herror⟩ | ⟨units, q, hok, hnumeral, hvalue, hfits, -⟩
      · exact ⟨_, herror, fun units hunits => by cases hunits⟩
      · refine ⟨_, hok, fun units' hunits => ?_⟩
        cases hunits
        exact ⟨hfits, q, hnumeral, hvalue⟩
    · exact parse_format checked value.isLt (pow_lt_amountBound.2 h)

/-- At thirty-nine decimals a build with checks ends, and one without prints what is not read
    back. At a hundred and twenty-eight both end. -/
theorem format_panics :
    formatAmount true 1 39 = none ∧
    (formatAmount false 1 39).map (fun text => parseAmount false text 39) =
      some (some (.error .overflow)) ∧
    formatAmount false 1 128 = none := by
  decide +kernel

end PocketSkynet
