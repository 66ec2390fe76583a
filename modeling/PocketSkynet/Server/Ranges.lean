import Mathlib.Data.List.Infix
import PocketSkynet.Lib.Hex
import PocketSkynet.Lib.Joined
import PocketSkynet.Lib.Text

/-!
# Partial Downloads

A download can ask for a part of a file in its `Range` header: the bytes from one to another,
the bytes from one on, or so many bytes at the end. A part is clamped to the file. One that is
outside it is refused with the status 416, since the whole file in its place would be appended
to what a client already has.

The numbers of the header are read in 64 bits, and the unit in lower case only. The standard
sets no bound to the numbers, and does not tell a unit by its case.

## Main definitions

* `parseRange`, `download`: The answer to a request.
* `rfcRange`, `RangeForm.within`: What the standard reads in a header, and the part it means.
* `RangeForm.Small`, `Readable`: The numbers that decide something fit 64 bits, and the unit is
  in lower case.
* `resume`: A client that goes on behind what it has.

## Theorems

* `parseRange_of_rfc`: What the code makes of a range of the standard.
* `resume_keeps`, `resume_whole`: Resumed downloads put the file together.
* `range_contract_iff`: The answer is as it should be exactly for the readable headers.
-/

namespace PocketSkynet

namespace Ranges

/-- Text behind a prefix. -/
def stripPrefix (front cs : List Char) : Option (List Char) :=
  if front.isPrefixOf cs then some (cs.drop front.length) else none

def stripPlus : List Char → List Char
  | '+' :: cs => cs
  | cs => cs

/-- A number of 64 bits, with or without a plus sign. -/
def parseU64 (cs : List Char) : Option Nat :=
  let digits := stripPlus cs
  if digits ≠ [] ∧ digits.all Char.isDigit ∧ Nat.ofDigitChars 10 digits 0 < 2 ^ 64 then
    some (Nat.ofDigitChars 10 digits 0)
  else none

/-! ### The answer to a request -/

/-- The value of a header as a text, if it is visible ASCII. -/
def headerText (value : List UInt8) : Option (List Char) :=
  if value.all fun b => b = 9 || (32 ≤ b && b < 127) then some (Hex.ascii value) else none

/-- What is read of a `Range` header: none, a part with both its ends, or one that cannot be
    served. An overflow is a panic. -/
inductive RangeAnswer where
  | whole
  | part (first last : Nat)
  | unsatisfiable
  | panicked
deriving DecidableEq, Repr

/-- A difference in 64 bits. -/
def checkedSub (a b : Nat) : Option Nat := if b ≤ a then some (a - b) else none

/-- The last check: a part begins inside the file. -/
def settle (total start : Nat) : Option Nat → RangeAnswer
  | none => .panicked
  | some last => if total ≤ start then .unsatisfiable else .part start last

/-- The two texts around the dash of a single range. -/
def parseBounds (total : Nat) (first last : List Char) : RangeAnswer :=
  -- An empty file can satisfy no range at all, including a suffix one.
  if total = 0 then .unsatisfiable
  else
    match first.isEmpty, last.isEmpty with
    | true, false =>
        match parseU64 last with
        | none => .unsatisfiable
        | some n => if n = 0 then .unsatisfiable else settle total (total - n) (checkedSub total 1)
    | false, true =>
        match parseU64 first with
        | none => .unsatisfiable
        | some s => settle total s (checkedSub total 1)
    | false, false =>
        match parseU64 first with
        | none => .unsatisfiable
        | some s =>
            match parseU64 last with
            | none => .unsatisfiable
            | some e =>
                if e < s then .unsatisfiable
                else settle total s ((checkedSub total 1).map fun n => min e n)
    | true, true => .unsatisfiable

/-- Parse a `Range` header into an inclusive byte range. -/
def parseRange (header : Option (List UInt8)) (total : Nat) : RangeAnswer :=
  match header.bind headerText with
  | none => .whole
  | some raw =>
      match stripPrefix "bytes=".toList (trim raw) with
      | none => .whole
      | some spec =>
          if spec.contains ',' then .whole
          else
            match Joined.splitOnce '-' spec with
            | none => .unsatisfiable
            | some (first, last) => parseBounds total (trim first) (trim last)

/-- What is sent of a file. -/
structure FileResponse where
  status : Nat
  contentLength : Option Nat
  contentRange : Option String
  body : List UInt8
deriving DecidableEq, Repr

/-- The part of a file with both its ends. Its length is computed in 64 bits, and nothing is
    sent if it overflows. -/
def sendPart (content : List UInt8) (status start last : Nat) (contentRange : Option String) :
    Option FileResponse :=
  let length :=
    if content.length = 0 then some 0
    else (checkedSub last start).bind fun n => if n + 1 < 2 ^ 64 then some (n + 1) else none
  length.map fun length =>
    ⟨status, some length, contentRange, (content.drop start).take length⟩

/-- `GET /api/files/{id}/raw`, once the file is open. -/
def download (header : Option (List UInt8)) (content : List UInt8) : Option FileResponse :=
  let total := content.length
  match parseRange header total with
  | .panicked => none
  | .unsatisfiable => some ⟨416, none, some ("bytes */" ++ toString total), []⟩
  | .whole => sendPart content 200 0 (total - 1) none
  | .part start last =>
      sendPart content 206 start last
        (some ("bytes " ++ toString start ++ "-" ++ toString last ++ "/" ++ toString total))

/-! ### What the standard says -/

/-- The forms of a single range. -/
inductive RangeForm where
  | suffix (length : Nat)
  | openEnded (first : Nat)
  | closed (first last : Nat)
deriving DecidableEq, Repr

/-- The part of a file that a range means, with both its ends. None is outside the file. -/
def RangeForm.within (total : Nat) : RangeForm → Option (Nat × Nat)
  | suffix n => if n = 0 ∨ total = 0 then none else some (total - n, total - 1)
  | openEnded first => if first < total then some (first, total - 1) else none
  | closed first last => if first < total then some (first, min last (total - 1)) else none

/-- What the texts around the dash mean. Both are digits, and one of them may be missing. -/
def rfcBounds (first last : List Char) : Option RangeForm :=
  if first.all Char.isDigit && last.all Char.isDigit then
    match first.isEmpty, last.isEmpty with
    | true, false => some (.suffix (Nat.ofDigitChars 10 last 0))
    | false, true => some (.openEnded (Nat.ofDigitChars 10 first 0))
    | false, false =>
        if Nat.ofDigitChars 10 first 0 ≤ Nat.ofDigitChars 10 last 0 then
          some (.closed (Nat.ofDigitChars 10 first 0) (Nat.ofDigitChars 10 last 0))
        else none
    | true, true => none
  else none

/-- The single range in a header. The unit is told without its case, and the numbers are of any
    length. A range that ends before it begins is none. -/
def rfcRange (header : List UInt8) : Option RangeForm :=
  match headerText header with
  | none => none
  | some raw =>
      if ((trim raw).take 6).map Char.toLower = "bytes=".toList then
        (Joined.splitOnce '-' ((trim raw).drop 6)).bind fun bounds => rfcBounds bounds.1 bounds.2
      else none

/-- The answer that the standard asks for. -/
def RangeForm.answer (total : Nat) (form : RangeForm) : RangeAnswer :=
  match form.within total with
  | some bounds => .part bounds.1 bounds.2
  | none => .unsatisfiable

/-! ### The condition -/

/-- The unit is in lower case. -/
def LowerUnit (header : List UInt8) : Prop :=
  (headerText header).any (fun raw => "bytes=".toList.isPrefixOf (trim raw)) = true

instance (header : List UInt8) : Decidable (LowerUnit header) := inferInstanceAs (Decidable (_ = _))

/-- A number that is clamped to the file fits 64 bits. Where there is nothing to clamp, the
    numbers may be of any length. -/
def RangeForm.Small (total : Nat) : RangeForm → Prop
  | suffix n => total = 0 ∨ n < 2 ^ 64
  | openEnded _ => True
  | closed first last => total ≤ first ∨ last < 2 ^ 64

/-- If there is a range in a header, its unit is in lower case and its numbers are small. -/
def Readable (header : List UInt8) (total : Nat) : Prop :=
  ∀ form, rfcRange header = some form → LowerUnit header ∧ form.Small total

/-! ### A client that goes on -/

/-- One more request for what follows. It may name a last byte, and so many bytes arrive before
    the connection breaks. -/
structure Resumption where
  last : Option Nat
  arrived : Nat

/-- The header of a request for what follows `n` bytes. -/
def resumeHeader (n : Nat) (last : Option Nat) : List UInt8 :=
  Hex.ofAscii ("bytes=".toList ++
    (Nat.toDigits 10 n ++ '-' :: (last.map (Nat.toDigits 10)).getD []))

/-- What a client has after one more request. A part is appended, and a whole file takes the
    place of what there was. -/
def resume (content held : List UInt8) (r : Resumption) : List UInt8 :=
  match download (some (resumeHeader held.length r.last)) content with
  | none => held
  | some response =>
      if response.status = 206 then held ++ response.body.take r.arrived
      else if response.status = 200 then response.body.take r.arrived
      else held

/-! ### Texts -/

theorem isSpace_of_digits {cs : List Char} (h : cs.all Char.isDigit = true) :
    ∀ c ∈ cs, isSpace c = false := fun c hc => isSpace_of_isDigit (List.all_eq_true.1 h c hc)

-- Digits are read as their number, if it fits.
theorem parseU64_digits {cs : List Char} (hdigits : cs.all Char.isDigit = true) (hsome : cs ≠ []) :
    parseU64 cs = if Nat.ofDigitChars 10 cs 0 < 2 ^ 64 then some (Nat.ofDigitChars 10 cs 0)
      else none := by
  have hplus : stripPlus cs = cs := by
    unfold stripPlus
    split
    · rename_i ds
      have hdigit := List.all_eq_true.1 hdigits '+' List.mem_cons_self
      exact absurd hdigit (by decide)
    · rfl
  simp only [parseU64, hplus, hdigits, ne_eq, hsome, not_false_eq_true, true_and]

/-! ### Parts lie inside the file -/

/-- A part lies inside the file, and nothing overflows. -/
theorem parseBounds_bounds (total : Nat) (first last : List Char) :
    parseBounds total first last ≠ .panicked ∧ parseBounds total first last ≠ .whole ∧
      ∀ s e, parseBounds total first last = .part s e → s ≤ e ∧ e < total := by
  by_cases hempty : total = 0
  · simp [parseBounds, hempty]
  · have hsub : checkedSub total 1 = some (total - 1) := if_pos (by omega)
    have hsettle : ∀ start finish, (start < total → start ≤ finish) → finish < total →
        settle total start (some finish) ≠ .panicked ∧ settle total start (some finish) ≠ .whole ∧
        ∀ s e, settle total start (some finish) = .part s e → s ≤ e ∧ e < total := by
      intro start finish hle hlt
      by_cases hout : total ≤ start
      · simp [settle, hout]
      · simp only [settle, if_neg hout]
        refine ⟨RangeAnswer.noConfusion, RangeAnswer.noConfusion, ?_⟩
        intro s e h
        cases h
        exact ⟨hle (Nat.lt_of_not_le hout), hlt⟩
    unfold parseBounds
    rw [if_neg hempty, hsub]
    cases first.isEmpty with
    | true =>
        cases last.isEmpty with
        | true => simp
        | false =>
            cases parseU64 last with
            | none => simp
            | some n =>
                by_cases hn : n = 0
                · simp [hn]
                · simp only [if_neg hn]
                  exact hsettle _ _ (fun _ => by omega) (by omega)
    | false =>
        cases last.isEmpty with
        | true =>
            cases parseU64 first with
            | none => simp
            | some s => exact hsettle _ _ (fun _ => by omega) (by omega)
        | false =>
            cases parseU64 first with
            | none => simp
            | some s =>
                cases parseU64 last with
                | none => simp
                | some e =>
                    by_cases hback : e < s
                    · simp [hback]
                    · simp only [if_neg hback, Option.map_some]
                      exact hsettle _ _ (fun _ => by omega) (by omega)

/-- A part of a file is inside it, and nothing overflows. -/
theorem parseRange_bounds (header : Option (List UInt8)) (total : Nat) :
    parseRange header total ≠ .panicked ∧
      ∀ s e, parseRange header total = .part s e → s ≤ e ∧ e < total := by
  unfold parseRange
  split
  · simp
  · split
    · simp
    · split
      · simp
      · split
        · simp
        · rename_i first last _
          rcases parseBounds_bounds total (trim first) (trim last) with ⟨hpanic, -, hpart⟩
          exact ⟨hpanic, hpart⟩

/-! ### Headers of the standard -/

-- The texts around the dash are digits, and not both are missing.
theorem rfcBounds_spec {first last : List Char} {form : RangeForm}
    (h : rfcBounds first last = some form) :
    first.all Char.isDigit = true ∧ last.all Char.isDigit = true := by
  unfold rfcBounds at h
  split at h
  · rename_i hall
    simpa [Bool.and_eq_true] using hall
  · cases h

section Forms

variable {total : Nat}

-- Nothing is inside an empty file.
theorem answer_empty (form : RangeForm) : form.answer 0 = .unsatisfiable ∧ form.Small 0 := by
  cases form with
  | suffix n => simp [RangeForm.answer, RangeForm.within, RangeForm.Small]
  | openEnded first => simp [RangeForm.answer, RangeForm.within, RangeForm.Small]
  | closed first last => simp [RangeForm.answer, RangeForm.within, RangeForm.Small]

theorem parseBounds_suffix {last : List Char} (hpos : total ≠ 0)
    (hdigits : last.all Char.isDigit = true) (hsome : last ≠ []) :
    parseBounds total [] last = (RangeForm.suffix (Nat.ofDigitChars 10 last 0)).answer total ↔
      (RangeForm.suffix (Nat.ofDigitChars 10 last 0)).Small total := by
  have hsub : checkedSub total 1 = some (total - 1) := if_pos (by omega)
  have hlast : last.isEmpty = false := by simpa using hsome
  simp only [parseBounds, hpos, if_false, List.isEmpty_nil, hlast, parseU64_digits hdigits hsome,
    hsub, RangeForm.answer, RangeForm.within, RangeForm.Small, or_false, false_or]
  generalize Nat.ofDigitChars 10 last 0 = n
  by_cases hn : n < 2 ^ 64
  · refine iff_of_true ?_ hn
    by_cases hzero : n = 0
    · simp only [hzero, if_true]
      rfl
    · have hin : ¬ total ≤ total - n := by omega
      simp only [hn, hzero, if_true, if_false, settle, hin]
  · have hzero : n ≠ 0 := by omega
    refine iff_of_false ?_ hn
    simp only [hn, hzero, if_false]
    exact RangeAnswer.noConfusion

theorem parseBounds_openEnded {first : List Char} (hpos : total ≠ 0) (htotal : total < 2 ^ 64)
    (hdigits : first.all Char.isDigit = true) (hsome : first ≠ []) :
    parseBounds total first [] =
      (RangeForm.openEnded (Nat.ofDigitChars 10 first 0)).answer total := by
  have hsub : checkedSub total 1 = some (total - 1) := if_pos (by omega)
  have hfirst : first.isEmpty = false := by simpa using hsome
  simp only [parseBounds, if_neg hpos, List.isEmpty_nil, hfirst, parseU64_digits hdigits hsome,
    hsub, RangeForm.answer, RangeForm.within]
  generalize Nat.ofDigitChars 10 first 0 = s
  by_cases hin : s < total
  · have hs : s < 2 ^ 64 := Nat.lt_trans hin htotal
    simp only [if_pos hs, if_pos hin, settle, if_neg (Nat.not_le.2 hin)]
  · by_cases hs : s < 2 ^ 64
    · simp only [if_pos hs, if_neg hin, settle, if_pos (Nat.not_lt.1 hin)]
    · simp only [if_neg hs, if_neg hin]

theorem parseBounds_closed {first last : List Char} (hpos : total ≠ 0) (htotal : total < 2 ^ 64)
    (hfirst : first.all Char.isDigit = true) (hlast : last.all Char.isDigit = true)
    (hsomeFirst : first ≠ []) (hsomeLast : last ≠ [])
    (hle : Nat.ofDigitChars 10 first 0 ≤ Nat.ofDigitChars 10 last 0) :
    parseBounds total first last = (RangeForm.closed (Nat.ofDigitChars 10 first 0)
        (Nat.ofDigitChars 10 last 0)).answer total ↔
      (RangeForm.closed (Nat.ofDigitChars 10 first 0)
        (Nat.ofDigitChars 10 last 0)).Small total := by
  have hsub : checkedSub total 1 = some (total - 1) := if_pos (by omega)
  have hf : first.isEmpty = false := by simpa using hsomeFirst
  have hl : last.isEmpty = false := by simpa using hsomeLast
  simp only [parseBounds, if_neg hpos, hf, hl, parseU64_digits hfirst hsomeFirst,
    parseU64_digits hlast hsomeLast, hsub, RangeForm.answer, RangeForm.within, RangeForm.Small]
  generalize Nat.ofDigitChars 10 first 0 = s at hle ⊢
  generalize Nat.ofDigitChars 10 last 0 = e at hle ⊢
  by_cases hin : s < total
  · have hs : s < 2 ^ 64 := Nat.lt_trans hin htotal
    have hinside : ¬ total ≤ s := Nat.not_le.2 hin
    by_cases he : e < 2 ^ 64
    · refine iff_of_true ?_ (Or.inr he)
      simp only [hs, he, hin, if_true, if_neg (Nat.not_lt.2 hle), Option.map_some, settle,
        if_neg hinside]
    · refine iff_of_false ?_ fun h => h.elim hinside he
      simp only [hs, he, hin, if_true, if_false]
      exact RangeAnswer.noConfusion
  · -- Outside the file it is refused for one reason or another.
    have hout : total ≤ s := Nat.not_lt.1 hin
    refine iff_of_true ?_ (Or.inl hout)
    by_cases hs : s < 2 ^ 64
    · by_cases he : e < 2 ^ 64
      · simp only [if_pos hs, if_pos he, if_neg hin, if_neg (Nat.not_lt.2 hle), Option.map_some,
          settle, if_pos hout]
      · simp only [if_pos hs, if_neg he, if_neg hin]
    · simp only [if_neg hs, if_neg hin]

/-- What the code makes of the texts around a dash that the standard understands. -/
theorem parseBounds_of_rfc {first last : List Char} {form : RangeForm} (htotal : total < 2 ^ 64)
    (h : rfcBounds first last = some form) :
    parseBounds total first last = form.answer total ↔ form.Small total := by
  rcases rfcBounds_spec h with ⟨hfirst, hlast⟩
  by_cases hpos : total = 0
  · subst hpos
    rcases answer_empty form with ⟨hanswer, hsmall⟩
    rw [parseBounds, if_pos rfl, hanswer]
    exact iff_of_true rfl hsmall
  · simp only [rfcBounds, hfirst, hlast, Bool.and_self, if_true] at h
    cases first with
    | nil =>
        cases last with
        | nil => cases h
        | cons d last =>
            cases h
            exact parseBounds_suffix hpos hlast (List.cons_ne_nil d last)
    | cons c first =>
        cases last with
        | nil =>
            cases h
            exact iff_of_true
              (parseBounds_openEnded hpos htotal hfirst (List.cons_ne_nil c first)) trivial
        | cons d last =>
            simp only [List.isEmpty_cons] at h
            split at h
            · rename_i hle
              cases h
              exact parseBounds_closed hpos htotal hfirst hlast (List.cons_ne_nil c first)
                (List.cons_ne_nil d last) hle
            · cases h

end Forms

/-! ### The text of a header -/

theorem mem_bounds {first last : List Char} (hfirst : first.all Char.isDigit = true)
    (hlast : last.all Char.isDigit = true) {c : Char} (hc : c ∈ first ++ '-' :: last) :
    c.isDigit = true ∨ c = '-' := by
  rcases List.mem_append.1 hc with hc | hc
  · exact Or.inl (List.all_eq_true.1 hfirst c hc)
  · rcases List.mem_cons.1 hc with rfl | hc
    · exact Or.inr rfl
    · exact Or.inl (List.all_eq_true.1 hlast c hc)

-- Once the unit is off, digits around a dash are read as they are.
theorem parse_spec {total : Nat} {raw first last : List Char}
    (hraw : stripPrefix "bytes=".toList (trim raw) = some (first ++ '-' :: last))
    (hfirst : first.all Char.isDigit = true) (hlast : last.all Char.isDigit = true)
    {header : List UInt8} (htext : headerText header = some raw) :
    parseRange (some header) total = parseBounds total first last := by
  have hcomma : (first ++ '-' :: last).contains ',' = false := by
    rw [Bool.eq_false_iff]
    intro hmem
    rcases mem_bounds hfirst hlast (List.contains_iff_mem.1 hmem) with hdigit | hdash
    · exact absurd hdigit (by decide)
    · exact absurd hdash (by decide)
  have hdash : '-' ∉ first := by
    intro hmem
    exact absurd (List.all_eq_true.1 hfirst '-' hmem) (by decide)
  have hbind : (some header).bind headerText = some raw := htext
  simp only [parseRange, hbind, hraw, hcomma, Bool.false_eq_true, if_false, Joined.splitOnce_append hdash,
    trim_of_no_space (isSpace_of_digits hfirst), trim_of_no_space (isSpace_of_digits hlast)]

/-- What the code makes of a header that the standard understands. -/
theorem parseRange_of_rfc {total : Nat} {header : List UInt8} {form : RangeForm}
    (htotal : total < 2 ^ 64) (h : rfcRange header = some form) :
    parseRange (some header) total = form.answer total ↔
      LowerUnit header ∧ form.Small total := by
  unfold rfcRange at h
  cases htext : headerText header with
  | none =>
      rw [htext] at h
      cases h
  | some raw =>
      simp only [htext] at h
      split at h
      · rcases Option.bind_eq_some_iff.1 h with ⟨⟨first, last⟩, hsplit, hform⟩
        rcases rfcBounds_spec hform with ⟨hfirst, hlast⟩
        have hspec := Joined.splitOnce_spec hsplit
        by_cases hunit : "bytes=".toList.isPrefixOf (trim raw) = true
        · have hlower : LowerUnit header := by
            rw [LowerUnit, htext]
            exact hunit
          have hstrip : stripPrefix "bytes=".toList (trim raw) = some (first ++ '-' :: last) := by
            rw [stripPrefix, if_pos hunit, ← hspec]
            rfl
          rw [parse_spec hstrip hfirst hlast htext, parseBounds_of_rfc htotal hform]
          exact (and_iff_right hlower).symm
        · -- A unit in another case is taken for one that is not spoken.
          have hlower : ¬ LowerUnit header := by
            rw [LowerUnit, htext]
            exact hunit
          have hbind : (some header).bind headerText = some raw := htext
          have hwhole : parseRange (some header) total = .whole := by
            simp only [parseRange, hbind, stripPrefix, if_neg hunit]
          have hanswer : form.answer total ≠ .whole := by
            unfold RangeForm.answer
            split
            · exact RangeAnswer.noConfusion
            · exact RangeAnswer.noConfusion
          rw [hwhole]
          exact iff_of_false hanswer.symm fun h => hlower h.1
      · cases h

/-! ### The client -/

-- A part begins at the number in front of the dash.
theorem part_start {total start s e : Nat} {first last : List Char}
    (hstart : parseU64 first = some start) (hsome : first ≠ [])
    (h : parseBounds total first last = .part s e) : s = start := by
  have hsettle : ∀ finish, settle total start finish = .part s e → s = start := by
    intro finish h
    cases finish with
    | none => cases h
    | some n =>
        by_cases hout : total ≤ start
        · rw [settle, if_pos hout] at h
          cases h
        · rw [settle, if_neg hout] at h
          cases h
          rfl
  have hfirst : first.isEmpty = false := by simpa using hsome
  unfold parseBounds at h
  rw [hfirst, hstart] at h
  split at h
  · cases h
  · cases hl : last.isEmpty with
    | true =>
        rw [hl] at h
        exact hsettle _ h
    | false =>
        rw [hl] at h
        cases hlast : parseU64 last with
        | none =>
            rw [hlast] at h
            cases h
        | some n =>
            simp only [hlast] at h
            split at h
            · cases h
            · exact hsettle _ h

theorem all_toDigits (n : Nat) : (Nat.toDigits 10 n).all Char.isDigit = true :=
  List.all_eq_true.2 fun _ hc => Nat.isDigit_of_mem_toDigits (by decide) (by decide) hc

theorem parseU64_toDigits {n : Nat} (h : n < 2 ^ 64) : parseU64 (Nat.toDigits 10 n) = some n := by
  rw [parseU64_digits (all_toDigits n) Nat.toDigits_ne_nil, Nat.ofDigitChars_ten_toDigits, if_pos h]

theorem all_last (last : Option Nat) :
    ((last.map (Nat.toDigits 10)).getD []).all Char.isDigit = true := by
  cases last with
  | none => rfl
  | some n => exact all_toDigits n

/-- A client's header is read as its numbers. -/
theorem parse_resumeHeader (total n : Nat) (last : Option Nat) :
    parseRange (some (resumeHeader n last)) total =
      parseBounds total (Nat.toDigits 10 n) ((last.map (Nat.toDigits 10)).getD []) := by
  generalize hspec : Nat.toDigits 10 n ++ '-' :: (last.map (Nat.toDigits 10)).getD [] = spec
  have hchars : ∀ c ∈ "bytes=".toList ++ spec,
      isSpace c = false ∧ 32 ≤ c.toNat ∧ c.toNat < 127 := by
    intro c hc
    rcases List.mem_append.1 hc with hc | hc
    · have hall : ("bytes=".toList.all fun c =>
          !isSpace c && decide (32 ≤ c.toNat ∧ c.toNat < 127)) = true := by decide
      have hvisible := List.all_eq_true.1 hall c hc
      simpa only [Bool.and_eq_true, Bool.not_eq_true', decide_eq_true_eq] using hvisible
    · rw [← hspec] at hc
      rcases mem_bounds (all_toDigits n) (all_last last) hc with hdigit | rfl
      · refine ⟨isSpace_of_isDigit hdigit, ?_⟩
        have hcode := Char.isDigit_iff_toNat.1 hdigit
        have h0 : '0'.toNat = 48 := rfl
        have h9 : '9'.toNat = 57 := rfl
        omega
      · decide
  have hbytes : ∀ b ∈ resumeHeader n last, (b = 9 || (32 ≤ b && b < 127)) = true := by
    intro b hb
    rw [resumeHeader, hspec] at hb
    rcases List.mem_map.1 hb with ⟨c, hc, rfl⟩
    have hcode := (hchars c hc).2
    simp only [Bool.or_eq_true, Bool.and_eq_true, decide_eq_true_eq]
    refine Or.inr ⟨UInt8.le_iff_toNat_le.2 ?_, UInt8.lt_iff_toNat_lt.2 ?_⟩
    · rw [UInt8.toNat_ofNat']
      have h32 : (32 : UInt8).toNat = 32 := rfl
      omega
    · rw [UInt8.toNat_ofNat']
      have h127 : (127 : UInt8).toNat = 127 := rfl
      omega
  have htext : headerText (resumeHeader n last) = some ("bytes=".toList ++ spec) := by
    rw [headerText, if_pos (List.all_eq_true.2 hbytes), resumeHeader, hspec,
      Hex.ascii_ofAscii fun c hc => by have := (hchars c hc).2; omega]
  refine parse_spec ?_ (all_toDigits n) (all_last last) htext
  rw [hspec, trim_of_no_space fun c hc => (hchars c hc).1, stripPrefix,
    if_pos (List.isPrefixOf_iff_prefix.2 (List.prefix_append _ _)), List.drop_left]

theorem checkedSub_of_le {a b : Nat} (h : b ≤ a) : checkedSub a b = some (a - b) := if_pos h

-- A part inside the file is sent as it is.
theorem sendPart_of_bounds {content : List UInt8} {status s e : Nat} {contentRange : Option String}
    (hcontent : content.length < 2 ^ 64) (hle : s ≤ e) (hlt : e < content.length) :
    sendPart content status s e contentRange =
      some ⟨status, some (e - s + 1), contentRange, (content.drop s).take (e - s + 1)⟩ := by
  have hpos : content.length ≠ 0 := by omega
  have hfits : e - s + 1 < 2 ^ 64 := by omega
  simp only [sendPart, if_neg hpos, checkedSub_of_le hle, Option.bind_some, if_pos hfits,
    Option.map_some]

section Resume

variable {content : List UInt8} (hcontent : content.length < 2 ^ 64)
include hcontent

/-- One more request appends what follows, or nothing. -/
theorem resume_cases {held : List UInt8} (hheld : held <+: content) (r : Resumption) :
    resume content held r = held ∨
      ∃ e, parseRange (some (resumeHeader held.length r.last)) content.length =
          .part held.length e ∧ resume content held r =
        held ++ ((content.drop held.length).take (e - held.length + 1)).take r.arrived := by
  have hn : held.length < 2 ^ 64 := Nat.lt_of_le_of_lt hheld.length_le hcontent
  have hparse := parse_resumeHeader content.length held.length r.last
  rcases parseBounds_bounds content.length (Nat.toDigits 10 held.length)
    ((r.last.map (Nat.toDigits 10)).getD []) with ⟨hpanic, hwhole, hbounds⟩
  rw [← hparse] at hpanic hwhole hbounds
  cases hanswer : parseRange (some (resumeHeader held.length r.last)) content.length with
  | whole => exact absurd hanswer hwhole
  | panicked => exact absurd hanswer hpanic
  | unsatisfiable =>
      refine Or.inl ?_
      simp [resume, download, hanswer]
  | part s e =>
      have hstart : s = held.length :=
        part_start (parseU64_toDigits hn) Nat.toDigits_ne_nil (hparse.symm.trans hanswer)
      rcases hbounds s e hanswer with ⟨hle, hlt⟩
      subst hstart
      refine Or.inr ⟨e, rfl, ?_⟩
      simp only [resume, download, hanswer, sendPart_of_bounds hcontent hle hlt, if_true]

/-- A client never has anything but the beginning of the file. -/
theorem resume_keeps {held : List UInt8} (hheld : held <+: content) (r : Resumption) :
    resume content held r <+: content := by
  rcases resume_cases hcontent hheld r with heq | ⟨e, -, heq⟩
  · rwa [heq]
  · rw [heq]
    rcases hheld with ⟨rest, rfl⟩
    rw [List.drop_left, List.take_take]
    exact List.prefix_append_right_inj held |>.2 (List.take_prefix _ _)

theorem foldl_resume_keeps {held : List UInt8} (hheld : held <+: content)
    (requests : List Resumption) : requests.foldl (resume content) held <+: content := by
  induction requests generalizing held with
  | nil => exact hheld
  | cons r requests ih => exact ih (resume_keeps hcontent hheld r)

/-- If the connection holds, it has the whole file. -/
theorem resume_whole {held : List UInt8} (hheld : held <+: content) {n : Nat}
    (hn : content.length ≤ n) : resume content held ⟨none, n⟩ = content := by
  have hshort : held.length < 2 ^ 64 := Nat.lt_of_le_of_lt hheld.length_le hcontent
  by_cases hin : held.length < content.length
  · have hparse : parseRange (some (resumeHeader held.length none)) content.length =
        .part held.length (content.length - 1) := by
      rw [parse_resumeHeader]
      refine (parseBounds_openEnded (by omega) hcontent (all_toDigits _)
        Nat.toDigits_ne_nil).trans ?_
      simp only [Nat.ofDigitChars_ten_toDigits, RangeForm.answer, RangeForm.within, if_pos hin]
    have hlast : held.length ≤ content.length - 1 := by omega
    simp only [resume, download, hparse, sendPart_of_bounds hcontent hlast (by omega), if_true,
      List.take_take]
    rcases hheld with ⟨rest, rfl⟩
    rw [List.drop_left, List.take_of_length_le]
    rw [List.length_append] at hin hn ⊢
    omega
  · -- Nothing is left, and nothing is appended.
    have heq : held = content := hheld.eq_of_length_le (Nat.not_lt.1 hin)
    subst heq
    rcases resume_cases hcontent hheld ⟨none, n⟩ with hsame | ⟨e, -, happend⟩
    · exact hsame
    · rw [happend, List.drop_length, List.take_nil, List.take_nil, List.append_nil]

end Resume

/-- What is asked of the answer to a header: nothing overflows, a part is inside the file and
    sent as it is, a range that cannot be satisfied is refused, the forms of the standard are
    read as it says, and resumed downloads put the file together. -/
structure RangeContract (header content : List UInt8) : Prop where
  computed : parseRange (some header) content.length ≠ .panicked ∧
    (download (some header) content).isSome
  served : ∀ s e, parseRange (some header) content.length = .part s e →
    s ≤ e ∧ e < content.length ∧ ((content.drop s).take (e - s + 1)).length = e - s + 1 ∧
      download (some header) content = some ⟨206, some (e - s + 1),
        some ("bytes " ++ toString s ++ "-" ++ toString e ++ "/" ++ toString content.length),
        (content.drop s).take (e - s + 1)⟩
  refused : parseRange (some header) content.length = .unsatisfiable →
    download (some header) content =
      some ⟨416, none, some ("bytes */" ++ toString content.length), []⟩
  rfc : ∀ form, rfcRange header = some form →
    parseRange (some header) content.length = form.answer content.length
  resumed : ∀ held, held <+: content → ∀ requests : List Resumption,
    requests.foldl (resume content) held <+: content ∧
      ∀ n ≥ content.length,
        resume content (requests.foldl (resume content) held) ⟨none, n⟩ = content

/-- The answer is as it should be exactly for the readable headers. -/
theorem range_contract_iff (header : List UInt8) {content : List UInt8}
    (hcontent : content.length < 2 ^ 64) :
    RangeContract header content ↔ Readable header content.length := by
  constructor
  · intro h form hform
    exact (parseRange_of_rfc hcontent hform).1 (h.rfc form hform)
  · intro h
    rcases parseRange_bounds (some header) content.length with ⟨hpanic, hbounds⟩
    have hserved : ∀ s e, parseRange (some header) content.length = .part s e →
        download (some header) content = some ⟨206, some (e - s + 1),
          some ("bytes " ++ toString s ++ "-" ++ toString e ++ "/" ++ toString content.length),
          (content.drop s).take (e - s + 1)⟩ := by
      intro s e hpart
      rcases hbounds s e hpart with ⟨hle, hlt⟩
      simp only [download, hpart, sendPart_of_bounds hcontent hle hlt]
    refine ⟨⟨hpanic, ?_⟩, ?_, ?_, ?_, ?_⟩
    · cases hanswer : parseRange (some header) content.length with
      | panicked => exact absurd hanswer hpanic
      | unsatisfiable => simp [download, hanswer]
      | part s e => rw [hserved s e hanswer, Option.isSome_some]
      | whole =>
          by_cases hempty : content.length = 0
          · simp only [download, hanswer, sendPart, if_pos hempty, Option.map_some,
              Option.isSome_some]
          · have hlast : content.length - 1 < content.length := by omega
            simp only [download, hanswer, sendPart_of_bounds hcontent (Nat.zero_le _) hlast,
              Option.isSome_some]
    · intro s e hpart
      rcases hbounds s e hpart with ⟨hle, hlt⟩
      refine ⟨hle, hlt, ?_, hserved s e hpart⟩
      rw [List.length_take, List.length_drop]
      omega
    · intro hrefused
      simp only [download, hrefused]
    · intro form hform
      exact (parseRange_of_rfc hcontent hform).2 (h form hform)
    · intro held hheld requests
      have hkept := foldl_resume_keeps hcontent hheld requests
      exact ⟨hkept, fun n hn => resume_whole hcontent hkept hn⟩

theorem range_contract_iff_tail :
    (RangeContract (Hex.ofAscii "bytes=-2".toList) [1, 2, 3] ↔
      Readable (Hex.ofAscii "bytes=-2".toList) 3) :=
  range_contract_iff (Hex.ofAscii "bytes=-2".toList) (by decide)

/-- A last byte that does not fit 64 bits is not clamped, and a unit in another case is answered
    with the whole file, where nothing can be satisfied. -/
theorem range_contract_large :
    ¬ RangeContract (Hex.ofAscii "bytes=0-18446744073709551616".toList) [1, 2, 3, 4, 5] ∧
      ¬ RangeContract (Hex.ofAscii "Bytes=9-".toList) [1, 2, 3, 4, 5] := by
  constructor
  · intro h
    have hanswer := h.rfc (.closed 0 18446744073709551616) (by decide +kernel)
    exact absurd hanswer (by decide +kernel)
  · intro h
    have hanswer := h.rfc (.openEnded 9) (by decide +kernel)
    exact absurd hanswer (by decide +kernel)

end Ranges

end PocketSkynet
