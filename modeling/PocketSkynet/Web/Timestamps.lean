import Mathlib.Data.Int.Bitwise
import PocketSkynet.Lib.Padded
import PocketSkynet.Lib.Utf8
import PocketSkynet.Web.CivilDates

/-!
# Timestamps

Instants are milliseconds since the beginning of 1970. The local backend writes them as
timestamps, the client reads timestamps and shows an instant as a date and a time of day in
the viewer's zone.

What is written is read back, and what is shown is the date of the calendar. The reader checks
less than it promises, though. It looks at the two dashes, at the `T` and at the ranges of the
month and the day, and reads six numbers, which may have signs. The colons, the `Z` at the
end, the days of the month and the ranges of the time are not looked at, and a fraction of one
or two digits, or behind a comma, is taken for nothing. `parse_sound_iff` says of which texts
the reading is right: those it refuses, and the timestamps whose fraction it reads.

## Main definitions

* `iso8601Ms`, `civilFromMs`, `parseIso8601Ms`: The writer, the date shown and the reader.
* `Safe`: The reader comes to an end on a text.
* `IsCivil`: What a date and time of day must be for an instant.
* `Stamp`: A timestamp, as the parts it is written from.
* `Stamp.ReadWell`: A fraction that the reader reads.

## Theorems

* `parse_iso8601`: What is written is read back.
* `safe`: The reader comes to an end on every text.
* `timestamps_exact`: All of it together.
-/

namespace PocketSkynet

namespace Timestamps

open Calendar CivilDates Utf8

/-- The numbers of 64 bits. -/
def InI64 (n : ℤ) : Prop := -(2 ^ 63) ≤ n ∧ n < 2 ^ 63

/-- A number as one of 32 bits, with a sign or without one. -/
def asI32 (n : ℤ) : ℤ := Int.bmod n (2 ^ 32)

def asU32 (n : ℤ) : ℤ := n % 2 ^ 32

/-! ### What is shown -/

/-- A civil date and time, already shifted into the viewer's zone. -/
structure Civil where
  year : ℤ
  month : ℤ
  day : ℤ
  hour : ℤ
  minute : ℤ
  epochDay : ℤ
  weekday : ℤ
deriving DecidableEq, Repr

def dayMs : ℤ := 86400000

/-- Convert epoch milliseconds to a local civil date. -/
def civilFromMs (ms tzOffsetMinutes : ℤ) : Civil :=
  let shifted := ms + tzOffsetMinutes * 60000
  let epochDay := shifted / dayMs
  let timeOfDay := shifted % dayMs
  let date := civilFromDays epochDay
  ⟨asI32 date.1, asU32 date.2.1, asU32 date.2.2, asU32 (timeOfDay / 3600000),
    asU32 (timeOfDay % 3600000 / 60000), epochDay, asU32 ((epochDay + 3) % 7)⟩

/-- The date, the time of day to the minute and the day of the week of an instant. -/
structure IsCivil (c : Civil) (instant : ℤ) : Prop where
  date : ∃ date : Date, date.number = c.epochDay ∧ c.year = date.year ∧ c.month = date.month ∧
    c.day = date.day
  hour : 0 ≤ c.hour ∧ c.hour < 24
  minute : 0 ≤ c.minute ∧ c.minute < 60
  time : c.epochDay * dayMs + c.hour * 3600000 + c.minute * 60000 ≤ instant ∧
    instant < c.epochDay * dayMs + c.hour * 3600000 + c.minute * 60000 + 60000
  weekday : c.weekday = Calendar.weekday c.epochDay

theorem asU32_eq {n : ℤ} (hlow : 0 ≤ n) (hhigh : n < 2 ^ 32) : asU32 n = n :=
  Int.emod_eq_of_lt hlow hhigh

-- An instant of 64 bits is in a year of 32 bits.
theorem asI32_year (date : Date) {n : ℤ} (hn : InI64 n) (hdate : date.number = n / dayMs) :
    asI32 date.year = date.year := by
  have hbounds := date.year_bounds
  rw [hdate] at hbounds
  unfold InI64 at hn
  unfold yearStart dayMs at hbounds
  refine Int.bmod_eq_of_le ?_ ?_ <;> omega

/-- The date and the time of day shown are those of the shifted instant. -/
theorem civilFromMs_spec (ms tzOffsetMinutes : ℤ)
    (h : InI64 (ms + tzOffsetMinutes * 60000)) :
    IsCivil (civilFromMs ms tzOffsetMinutes) (ms + tzOffsetMinutes * 60000) := by
  obtain ⟨n, hn⟩ : ∃ n, ms + tzOffsetMinutes * 60000 = n := ⟨_, rfl⟩
  rw [hn] at h ⊢
  rcases civilFromDays_spec (n / dayMs) with ⟨date, hnumber, hdate⟩
  have hmonth := date.month_le
  have hday := date.day_le
  have hlong : daysInMonth date.year date.month ≤ 31 := by
    have hleap := leapDays_le date.year
    unfold daysInMonth
    split <;> omega
  have htod : 0 ≤ n % dayMs ∧ n % dayMs < 86400000 :=
    ⟨Int.emod_nonneg _ (by decide), Int.emod_lt_of_pos _ (by decide)⟩
  have hsplit : n / dayMs * dayMs + n % dayMs = n := by
    rw [Int.mul_comm]
    exact Int.mul_ediv_add_emod n dayMs
  simp only [civilFromMs, hn, hdate]
  rw [asI32_year date h hnumber, asU32_eq (by omega) (by omega), asU32_eq (by omega) (by omega),
    asU32_eq (by omega) (by omega), asU32_eq (by omega) (by omega),
    asU32_eq (by omega) (by omega)]
  refine ⟨⟨date, hnumber, rfl, rfl, rfl⟩, ?_, ?_, ?_, rfl⟩ <;> simp only <;> omega

/-! ### What is written -/

/-- A number with zeros in front, up to a width. -/
def pad (width : ℕ) (n : ℤ) : List Char := Padded.padded width n.toNat

/-- Milliseconds since the epoch as a timestamp. -/
def iso8601Ms (ms : ℤ) : List Char :=
  let ms := max ms 0
  let secs := ms / 1000
  let millis := ms % 1000
  let days := secs / 86400
  let rem := secs % 86400
  let hour := rem / 3600
  let minute := rem % 3600 / 60
  let second := rem % 60
  let date := civilFromDays days
  pad 4 date.1 ++ '-' :: (pad 2 date.2.1 ++ '-' :: (pad 2 date.2.2 ++ 'T' :: (pad 2 hour ++
    ':' :: (pad 2 minute ++ ':' :: (pad 2 second ++ '.' :: (pad 3 millis ++ ['Z']))))))

/-! ### What is read -/

/-- The sign of a number, and what is behind it. -/
def signOf : List Char → Bool × List Char
  | '+' :: digits => (false, digits)
  | '-' :: digits => (true, digits)
  | digits => (false, digits)

/-- A number of 64 bits, with a sign or without one. -/
def parseI64 (cs : List Char) : Option ℤ :=
  let signed := signOf cs
  if signed.2 ≠ [] ∧ signed.2.all Char.isDigit = true then
    let n : ℤ := Decimal.digitsValue signed.2
    let n := if signed.1 then -n else n
    if -(2 ^ 63) ≤ n ∧ n < 2 ^ 63 then some n else none
  else none

/-- A number written from one byte up to another. -/
def num (s : List Char) (start stop : ℕ) : Option ℤ := (slice s start stop).bind parseI64

structure Fields where
  year : ℤ
  month : ℤ
  day : ℤ
  hour : ℤ
  minute : ℤ
  second : ℤ
deriving DecidableEq, Repr

/-- The six numbers of a text that passes the checks. -/
def fieldsOf (s : List Char) : Option Fields :=
  let b := bytesOf s
  if b.length < 20 ∨ b[4]? ≠ some 45 ∨ b[7]? ≠ some 45 ∨ b[10]? ≠ some 84 then none
  else do
    let year ← num s 0 4
    let month ← num s 5 7
    let day ← num s 8 10
    let hour ← num s 11 13
    let minute ← num s 14 16
    let second ← num s 17 19
    if (1 ≤ month ∧ month ≤ 12) ∧ 1 ≤ day ∧ day ≤ 31 then
      some ⟨year, month, day, hour, minute, second⟩
    else none

def millisOf (s : List Char) : ℤ :=
  if (bytesOf s)[19]? = some 46 then (num s 20 23).getD 0 else 0

/-- The instant of a day and a time of day. -/
def instantOf (days hour minute second millis : ℤ) : ℤ :=
  days * dayMs + hour * 3600000 + minute * 60000 + second * 1000 + millis

/-- Parse a timestamp into epoch milliseconds. -/
def parseIso8601Ms (s : List Char) : Option ℤ :=
  (fieldsOf s).map fun f =>
    instantOf (daysFromCivil f.year f.month f.day) f.hour f.minute f.second (millisOf s)

/-- The text of a fraction: a dot or a comma, and digits. -/
def fractionText : Option (Char × List Char) → List Char
  | none => []
  | some f => f.1 :: f.2

/-- The milliseconds of a fraction: its first three digits. -/
def fractionMs : Option (Char × List Char) → ℕ
  | none => 0
  | some f => Decimal.digitsValue ((f.2 ++ ['0', '0', '0']).take 3)

/-- A timestamp of universal time, as the parts it is written from: a date that exists, a time
    of day and a fraction of a second, if there is one. -/
structure Stamp where
  date : Date
  hour : ℕ
  minute : ℕ
  second : ℕ
  fraction : Option (Char × List Char)
  year_nonneg : 0 ≤ date.year
  year_le : date.year ≤ 9999
  hour_lt : hour < 24
  minute_lt : minute < 60
  second_lt : second < 60
  fraction_ok : ∀ f ∈ fraction, (f.1 = '.' ∨ f.1 = ',') ∧ f.2 ≠ [] ∧
    ∀ c ∈ f.2, c.isDigit = true

def Stamp.text (t : Stamp) : List Char :=
  pad 4 t.date.year ++ '-' :: (pad 2 t.date.month ++ '-' :: (pad 2 t.date.day ++
    'T' :: (pad 2 t.hour ++ ':' :: (pad 2 t.minute ++ ':' :: (pad 2 t.second ++
      (fractionText t.fraction ++ ['Z']))))))

def Stamp.instant (t : Stamp) : ℤ :=
  instantOf t.date.number t.hour t.minute t.second (fractionMs t.fraction)

/-- A text is a timestamp of an instant. -/
def IsTimestamp (s : List Char) (instant : ℤ) : Prop :=
  ∃ t : Stamp, s = t.text ∧ t.instant = instant

/-- The fraction is one that the reader reads: behind a dot and of three digits at least. A
    fraction of no milliseconds need not be read. -/
def Stamp.ReadWell (t : Stamp) : Prop :=
  fractionMs t.fraction = 0 ∨ ∀ f ∈ t.fraction, f.1 = '.' ∧ 3 ≤ f.2.length

/-! ### Reading what is written -/

theorem small_of_isDigit {c : Char} (h : c.isDigit = true) : c.toNat < 128 := by
  simp only [Char.isDigit, Bool.and_eq_true, decide_eq_true_eq, UInt32.le_iff_toNat_le] at h
  have hhigh : c.toNat ≤ 57 := h.2
  omega

theorem isDigit_pad {width : ℕ} {n : ℤ} : ∀ c ∈ pad width n, c.isDigit = true :=
  Padded.isDigit_padded

theorem length_pad {width : ℕ} {n : ℤ} (hwidth : 0 < width) (h : n < 10 ^ width) :
    (pad width n).length = width := by
  refine Padded.length_padded hwidth ?_
  have hcast : (10 : ℤ) ^ width = ((10 ^ width : ℕ) : ℤ) := by push_cast; rfl
  have hpos : 0 < 10 ^ width := Nat.pow_pos (by decide)
  omega

theorem size_pad {width : ℕ} {n : ℤ} (hwidth : 0 < width) (h : n < 10 ^ width) :
    size (pad width n) = width := by
  rw [size_ascii fun c hc => small_of_isDigit (isDigit_pad c hc), length_pad hwidth h]

theorem signOf_digits {cs : List Char} (hdigits : ∀ c ∈ cs, c.isDigit = true) :
    signOf cs = (false, cs) := by
  unfold signOf
  split
  · exact absurd (hdigits '+' List.mem_cons_self) (by decide)
  · exact absurd (hdigits '-' List.mem_cons_self) (by decide)
  · rfl

-- Digits are read as their number.
theorem parseI64_digits {cs : List Char} (hne : cs ≠ []) (hdigits : ∀ c ∈ cs, c.isDigit = true)
    (hsmall : Decimal.digitsValue cs < 2 ^ 63) :
    parseI64 cs = some (Decimal.digitsValue cs : ℤ) := by
  have hall : cs.all Char.isDigit = true := List.all_eq_true.2 hdigits
  rw [parseI64, signOf_digits hdigits]
  simp only
  rw [if_pos ⟨hne, hall⟩]
  simp only [Bool.false_eq_true, if_false]
  rw [if_pos (by omega)]

theorem parseI64_pad {width : ℕ} {n : ℤ} (hwidth : 0 < width) (hnonneg : 0 ≤ n)
    (h : n < 10 ^ width) (hsmall : n < 2 ^ 63) : parseI64 (pad width n) = some n := by
  have hvalue : Decimal.digitsValue (pad width n) = n.toNat := Padded.digitsValue_padded width _
  have hne : pad width n ≠ [] := by
    intro hnil
    have hlength := length_pad hwidth h
    rw [hnil, List.length_nil] at hlength
    omega
  rw [parseI64_digits hne isDigit_pad (by rw [hvalue]; omega), hvalue]
  exact congrArg some (Int.toNat_of_nonneg hnonneg)

/-- A number that is written between two bytes is read there. -/
theorem num_pad {front rest : List Char} {width : ℕ} {n : ℤ} {start stop : ℕ}
    (hwidth : 0 < width) (hnonneg : 0 ≤ n) (h : n < 10 ^ width) (hsmall : n < 2 ^ 63)
    (hstart : size front = start) (hstop : start + width = stop) :
    num (front ++ (pad width n ++ rest)) start stop = some n := by
  have hslice := slice_append front (pad width n) rest
  rw [size_pad hwidth h, hstart, hstop] at hslice
  rw [num, hslice, Option.bind_some, parseI64_pad hwidth hnonneg h hsmall]

/-- The text of a date and a time of day. -/
def stampText (f : Fields) (rest : List Char) : List Char :=
  pad 4 f.year ++ '-' :: (pad 2 f.month ++ '-' :: (pad 2 f.day ++ 'T' :: (pad 2 f.hour ++
    ':' :: (pad 2 f.minute ++ ':' :: (pad 2 f.second ++ rest)))))

/-- Numbers of the width of their fields, with a month and a day that the checks allow. -/
structure Fields.Writable (f : Fields) : Prop where
  year : 0 ≤ f.year ∧ f.year ≤ 9999
  month : 1 ≤ f.month ∧ f.month ≤ 12
  day : 1 ≤ f.day ∧ f.day ≤ 31
  hour : 0 ≤ f.hour ∧ f.hour ≤ 99
  minute : 0 ≤ f.minute ∧ f.minute ≤ 99
  second : 0 ≤ f.second ∧ f.second ≤ 99

theorem Fields.Writable.sizes {f : Fields} (h : f.Writable) :
    size (pad 4 f.year) = 4 ∧ size (pad 2 f.month) = 2 ∧ size (pad 2 f.day) = 2 ∧
      size (pad 2 f.hour) = 2 ∧ size (pad 2 f.minute) = 2 ∧ size (pad 2 f.second) = 2 := by
  rcases h with ⟨hy, hmo, hd, hh, hmi, hs⟩
  refine ⟨size_pad ?_ ?_, size_pad ?_ ?_, size_pad ?_ ?_, size_pad ?_ ?_, size_pad ?_ ?_,
    size_pad ?_ ?_⟩ <;> omega

/-- What stands in front of each part of a date and a time of day. -/
def frontOf (f : Fields) : ℕ → List Char
  | 0 => pad 4 f.year
  | 1 => pad 4 f.year ++ '-' :: pad 2 f.month
  | 2 => pad 4 f.year ++ '-' :: (pad 2 f.month ++ '-' :: pad 2 f.day)
  | 3 => pad 4 f.year ++ '-' :: (pad 2 f.month ++ '-' :: (pad 2 f.day ++ 'T' :: pad 2 f.hour))
  | 4 => pad 4 f.year ++ '-' :: (pad 2 f.month ++ '-' :: (pad 2 f.day ++ 'T' :: (pad 2 f.hour ++
      ':' :: pad 2 f.minute)))
  | _ => pad 4 f.year ++ '-' :: (pad 2 f.month ++ '-' :: (pad 2 f.day ++ 'T' :: (pad 2 f.hour ++
      ':' :: (pad 2 f.minute ++ ':' :: pad 2 f.second))))

theorem Fields.Writable.fronts {f : Fields} (h : f.Writable) :
    size (frontOf f 0) = 4 ∧ size (frontOf f 1) = 7 ∧ size (frontOf f 2) = 10 ∧
      size (frontOf f 3) = 13 ∧ size (frontOf f 4) = 16 ∧ size (frontOf f 5) = 19 := by
  rcases h.sizes with ⟨hy, hmo, hd, hh, hmi, hs⟩
  have hdash : Char.utf8Size '-' = 1 := rfl
  have htee : Char.utf8Size 'T' = 1 := rfl
  have hcolon : Char.utf8Size ':' = 1 := rfl
  simp only [frontOf, size_append, size_cons, hy, hmo, hd, hh, hmi, hs, hdash, htee, hcolon]
  decide

-- A mark, and then a number: the number is read.
theorem num_behind {front rest : List Char} {mark : Char} {width : ℕ} {n : ℤ} {start stop : ℕ}
    (hwidth : 0 < width) (hnonneg : 0 ≤ n) (h : n < 10 ^ width) (hsmall : n < 2 ^ 63)
    (hmark : mark.utf8Size = 1) (hstart : size front + 1 = start) (hstop : start + width = stop) :
    num (front ++ mark :: (pad width n ++ rest)) start stop = some n := by
  have hcut : front ++ mark :: (pad width n ++ rest) =
      (front ++ [mark]) ++ (pad width n ++ rest) := by simp
  rw [hcut]
  refine num_pad hwidth hnonneg h hsmall ?_ hstop
  rw [size_append, size_cons, size_nil, hmark]
  exact hstart

/-- The six numbers are read as they were written. -/
theorem fieldsOf_stampText {f : Fields} (h : f.Writable) {rest : List Char} (hrest : rest ≠ []) :
    fieldsOf (stampText f rest) = some f := by
  rcases h.fronts with ⟨h0, h1, h2, h3, h4, h5⟩
  rcases h with ⟨hy, hmo, hd, hh, hmi, hs⟩
  -- The text, cut behind each number.
  have hcut1 : stampText f rest = frontOf f 0 ++ '-' :: (pad 2 f.month ++ ('-' :: (pad 2 f.day ++
      'T' :: (pad 2 f.hour ++ ':' :: (pad 2 f.minute ++ ':' :: (pad 2 f.second ++ rest)))))) := by
    simp [stampText, frontOf]
  have hcut2 : stampText f rest = frontOf f 1 ++ '-' :: (pad 2 f.day ++ ('T' :: (pad 2 f.hour ++
      ':' :: (pad 2 f.minute ++ ':' :: (pad 2 f.second ++ rest))))) := by
    simp [stampText, frontOf]
  have hcut3 : stampText f rest = frontOf f 2 ++ 'T' :: (pad 2 f.hour ++ (':' :: (pad 2 f.minute ++
      ':' :: (pad 2 f.second ++ rest)))) := by
    simp [stampText, frontOf]
  have hcut4 : stampText f rest = frontOf f 3 ++ ':' :: (pad 2 f.minute ++ (':' ::
      (pad 2 f.second ++ rest))) := by
    simp [stampText, frontOf]
  have hcut5 : stampText f rest = frontOf f 4 ++ ':' :: (pad 2 f.second ++ rest) := by
    simp [stampText, frontOf]
  have hcut6 : stampText f rest = frontOf f 5 ++ rest := by
    simp [stampText, frontOf]
  have hyear : num (stampText f rest) 0 4 = some f.year :=
    @num_pad [] _ 4 f.year 0 4 (by omega) hy.1 (by omega) (by omega) rfl rfl
  have hmonth : num (stampText f rest) 5 7 = some f.month := by
    rw [hcut1]
    exact num_behind (by omega) (by omega) (by omega) (by omega) rfl (by omega) (by omega)
  have hday : num (stampText f rest) 8 10 = some f.day := by
    rw [hcut2]
    exact num_behind (by omega) (by omega) (by omega) (by omega) rfl (by omega) (by omega)
  have hhour : num (stampText f rest) 11 13 = some f.hour := by
    rw [hcut3]
    exact num_behind (by omega) (by omega) (by omega) (by omega) rfl (by omega) (by omega)
  have hminute : num (stampText f rest) 14 16 = some f.minute := by
    rw [hcut4]
    exact num_behind (by omega) (by omega) (by omega) (by omega) rfl (by omega) (by omega)
  have hsecond : num (stampText f rest) 17 19 = some f.second := by
    rw [hcut5]
    exact num_behind (by omega) (by omega) (by omega) (by omega) rfl (by omega) (by omega)
  have hb4 : (bytesOf (stampText f rest))[4]? = some 45 := by
    rw [hcut1, ← h0]
    exact getElem?_bytesOf (by decide)
  have hb7 : (bytesOf (stampText f rest))[7]? = some 45 := by
    rw [hcut2, ← h1]
    exact getElem?_bytesOf (by decide)
  have hb10 : (bytesOf (stampText f rest))[10]? = some 84 := by
    rw [hcut3, ← h2]
    exact getElem?_bytesOf (by decide)
  have hlength : ¬(bytesOf (stampText f rest)).length < 20 := by
    have hpos := List.length_pos_iff.2 hrest
    have hle := length_le_size rest
    rw [length_bytesOf, hcut6, size_append, h5]
    omega
  simp only [fieldsOf]
  rw [if_neg (by simp [hlength, hb4, hb7, hb10]), hyear, hmonth, hday, hhour, hminute, hsecond]
  simp only [Option.bind_eq_bind, Option.bind_some]
  rw [if_pos ⟨hmo, hd⟩]

/-- The milliseconds the reader finds in a fraction: none in a short one or behind a comma. -/
def millisRead : Option (Char × List Char) → ℕ
  | none => 0
  | some f => if f.1 = '.' ∧ 3 ≤ f.2.length then Decimal.digitsValue (f.2.take 3) else 0

-- A slice does not reach over the end.
theorem slice_eq_none {cs : List Char} {start stop : ℕ} (h : size cs < stop) :
    slice cs start stop = none := by
  cases hslice : slice cs start stop with
  | none => rfl
  | some middle =>
      unfold slice at hslice
      by_cases hle : start ≤ stop
      · rw [if_pos hle] at hslice
        rcases Option.bind_eq_some_iff.1 hslice with ⟨front, hfront, -⟩
        rcases splitAt_eq_some hfront with ⟨hcs, hsize⟩
        rw [hcs, size_append] at h
        omega
      · rw [if_neg hle] at hslice
        cases hslice

-- No number has a `Z` at its end.
theorem parseI64_zulu {digits : List Char} (hdigits : ∀ c ∈ digits, c.isDigit = true)
    (hne : digits ≠ []) : parseI64 (digits ++ ['Z']) = none := by
  have hsign : signOf (digits ++ ['Z']) = (false, digits ++ ['Z']) := by
    cases digits with
    | nil => exact absurd rfl hne
    | cons c digits =>
        have hc := hdigits c List.mem_cons_self
        rw [List.cons_append]
        unfold signOf
        split
        · rename_i heq
          cases heq
          exact absurd hc (by decide)
        · rename_i heq
          cases heq
          exact absurd hc (by decide)
        · rfl
  rw [parseI64, hsign]
  simp

/-- What is read of the fraction behind a date and a time of day. -/
theorem millisOf_text {f : Fields} (h : f.Writable) (fraction : Option (Char × List Char))
    (hfraction : ∀ g ∈ fraction, (g.1 = '.' ∨ g.1 = ',') ∧ g.2 ≠ [] ∧
      ∀ c ∈ g.2, c.isDigit = true) :
    millisOf (stampText f (fractionText fraction ++ ['Z'])) = millisRead fraction := by
  have hfront := h.fronts.2.2.2.2.2
  have hcut : ∀ rest, stampText f rest = frontOf f 5 ++ rest := by
    intro rest
    simp [stampText, frontOf]
  cases fraction with
  | none =>
      have hbyte : (bytesOf (stampText f (fractionText none ++ ['Z'])))[19]? = some 90 := by
        rw [hcut, ← hfront]
        exact getElem?_bytesOf (by decide)
      rw [millisOf, hbyte, if_neg (by decide)]
      rfl
  | some g =>
      rcases g with ⟨mark, digits⟩
      rcases hfraction _ rfl with ⟨hmark, hne, hdigits⟩
      simp only at hmark hne hdigits
      have hsmall : mark.toNat < 128 := by rcases hmark with rfl | rfl <;> decide
      have hbyte : (bytesOf (stampText f (fractionText (some (mark, digits)) ++ ['Z'])))[19]? =
          some (UInt8.ofNat mark.toNat) := by
        rw [hcut, ← hfront]
        exact getElem?_bytesOf hsmall
      rcases hmark with rfl | rfl
      · have hdot : (bytesOf (stampText f (fractionText (some ('.', digits)) ++ ['Z'])))[19]? =
            some 46 := hbyte
        rw [millisOf, hdot, if_pos rfl]
        by_cases hthree : 3 ≤ digits.length
        · -- The first three digits are read, and no more.
          have htext : stampText f (fractionText (some ('.', digits)) ++ ['Z']) =
              (frontOf f 5 ++ ['.']) ++ (digits.take 3 ++ (digits.drop 3 ++ ['Z'])) := by
            rw [hcut, fractionText, ← List.append_assoc (digits.take 3), List.take_append_drop]
            simp
          have hsub : ∀ c ∈ digits.take 3, c.isDigit = true := fun c hc =>
            hdigits c (List.mem_of_mem_take hc)
          have hsize : size (digits.take 3) = 3 := by
            rw [size_ascii fun c hc => small_of_isDigit (hsub c hc), List.length_take]
            omega
          have hslice := slice_append (frontOf f 5 ++ ['.']) (digits.take 3)
            (digits.drop 3 ++ ['Z'])
          have hstart : size (frontOf f 5 ++ ['.']) = 20 := by
            rw [size_append, hfront]
            rfl
          rw [hstart, hsize, ← htext] at hslice
          have hvalue := Decimal.digitsValue_lt hsub
          have hlength : (digits.take 3).length = 3 := by
            rw [List.length_take]
            omega
          rw [hlength] at hvalue
          have hnonempty : digits.take 3 ≠ [] := by
            intro hnil
            rw [hnil] at hlength
            cases hlength
          rw [num, hslice, Option.bind_some,
            parseI64_digits hnonempty hsub (by omega), Option.getD_some, millisRead,
            if_pos ⟨rfl, hthree⟩]
        · rw [millisRead, if_neg fun hread => hthree hread.2]
          have hnone : num (stampText f (fractionText (some ('.', digits)) ++ ['Z'])) 20 23 =
              none := by
            have hpos := List.length_pos_iff.2 hne
            have hsize : size digits = digits.length :=
              size_ascii fun c hc => small_of_isDigit (hdigits c hc)
            have hzulu : size ['Z'] = 1 := rfl
            have hstart : size (frontOf f 5 ++ ['.']) = 20 := by
              rw [size_append, hfront]
              rfl
            have htext : stampText f (fractionText (some ('.', digits)) ++ ['Z']) =
                (frontOf f 5 ++ ['.']) ++ ((digits ++ ['Z']) ++ []) := by
              rw [hcut, fractionText]
              simp
            by_cases htwo : digits.length = 2
            · -- The third character is not a digit.
              have hslice := slice_append (frontOf f 5 ++ ['.']) (digits ++ ['Z']) []
              rw [← htext, hstart, size_append, hsize, htwo, hzulu] at hslice
              rw [num, hslice, Option.bind_some, parseI64_zulu hdigits hne]
            · -- Or there is no third character.
              rw [num, slice_eq_none, Option.bind_none]
              rw [htext, size_append, hstart, size_append, size_append, hsize, hzulu, size_nil]
              omega
          rw [hnone]
          rfl
      · have hcomma : (bytesOf (stampText f (fractionText (some (',', digits)) ++ ['Z'])))[19]? =
            some 44 := hbyte
        have hnot : ¬(',' = '.' ∧ 3 ≤ digits.length) := fun hread => absurd hread.1 (by decide)
        rw [millisOf, hcomma, if_neg (by decide), millisRead, if_neg hnot]
        rfl

/-- The numbers a timestamp is written from. -/
def Stamp.fields (t : Stamp) : Fields :=
  ⟨t.date.year, t.date.month, t.date.day, t.hour, t.minute, t.second⟩

theorem Stamp.text_eq (t : Stamp) :
    t.text = stampText t.fields (fractionText t.fraction ++ ['Z']) := rfl

theorem daysInMonth_le (year : ℤ) (month : ℕ) : daysInMonth year month ≤ 31 := by
  have hleap := leapDays_le year
  unfold daysInMonth
  split <;> omega

theorem Stamp.writable (t : Stamp) : t.fields.Writable := by
  have hmonth := t.date.month_le
  have hmonth' := t.date.month_pos
  have hday := t.date.day_pos
  have hday' := Nat.le_trans t.date.day_le (daysInMonth_le t.date.year t.date.month)
  have hhour := t.hour_lt
  have hminute := t.minute_lt
  have hsecond := t.second_lt
  refine ⟨⟨t.year_nonneg, t.year_le⟩, ?_, ?_, ?_, ?_, ?_⟩ <;> simp only [Stamp.fields] <;> omega

/-- What the reader makes of a timestamp: its instant, but for the fraction. -/
theorem parse_text (t : Stamp) :
    parseIso8601Ms t.text =
      some (instantOf t.date.number t.hour t.minute t.second (millisRead t.fraction)) := by
  rw [parseIso8601Ms, Stamp.text_eq, fieldsOf_stampText t.writable (by simp),
    millisOf_text t.writable t.fraction t.fraction_ok, ← daysFromCivil_eq]
  rfl

/-- The milliseconds are read as they are meant exactly where the fraction is read well. -/
theorem millisRead_eq_iff (t : Stamp) :
    millisRead t.fraction = fractionMs t.fraction ↔ t.ReadWell := by
  unfold Stamp.ReadWell
  cases hfraction : t.fraction with
  | none => simp [millisRead, fractionMs]
  | some f =>
      by_cases hread : f.1 = '.' ∧ 3 ≤ f.2.length
      · have hsame : millisRead (some f) = fractionMs (some f) := by
          rw [millisRead, if_pos hread, fractionMs, List.take_append_of_le_length hread.2]
        refine iff_of_true hsame (Or.inr fun g hg => ?_)
        rw [← Option.some.inj hg]
        exact hread
      · have hzero : millisRead (some f) = 0 := if_neg hread
        rw [hzero]
        constructor
        · exact fun h => Or.inl h.symm
        · rintro (h | h)
          · exact h.symm
          · exact absurd (h f rfl) hread

/-- The texts of which the reader says the right thing: those it refuses, and the timestamps
    whose fraction it reads. -/
theorem parse_sound_iff (s : List Char) :
    (∀ r, parseIso8601Ms s = some r → IsTimestamp s r) ↔
      fieldsOf s = none ∨ ∃ t : Stamp, s = t.text ∧ t.ReadWell := by
  constructor
  · intro h
    cases hfields : fieldsOf s with
    | none => exact Or.inl rfl
    | some f =>
        have hparse : ∃ r, parseIso8601Ms s = some r := ⟨_, by rw [parseIso8601Ms, hfields]; rfl⟩
        rcases hparse with ⟨r, hr⟩
        rcases h r hr with ⟨t, rfl, hinstant⟩
        refine Or.inr ⟨t, rfl, (millisRead_eq_iff t).1 ?_⟩
        rw [parse_text, ← hinstant, Stamp.instant] at hr
        have hsame := Option.some.inj hr
        unfold instantOf at hsame
        omega
  · rintro (hnone | ⟨t, rfl, hread⟩) r hr
    · rw [parseIso8601Ms, hnone] at hr
      cases hr
    · refine ⟨t, rfl, ?_⟩
      rw [parse_text, (millisRead_eq_iff t).2 hread] at hr
      exact Option.some.inj hr

/-- The first millisecond after the year 9999. -/
def endOfYears : ℤ := 253402300800000

-- A day before the year 10000, and not before 1970, is in a year of four digits.
theorem year_range {date : Date} (hlow : 0 ≤ date.number) (hhigh : date.number < 2932897) :
    0 ≤ date.year ∧ date.year ≤ 9999 := by
  have hbounds := date.year_bounds
  unfold yearStart at hbounds
  omega

/-- What is written is read back. -/
theorem parse_iso8601 (ms : ℤ) (hlow : 0 ≤ ms) (hhigh : ms < endOfYears) :
    parseIso8601Ms (iso8601Ms ms) = some ms := by
  unfold endOfYears at hhigh
  have hms : max ms 0 = ms := max_eq_left hlow
  rcases civilFromDays_spec (ms / 1000 / 86400) with ⟨date, hnumber, hdate⟩
  have hyear := @year_range date (by omega) (by omega)
  have hmillis : pad 3 (ms % 1000) ≠ [] := by
    intro hnil
    have hlength := @length_pad 3 (ms % 1000) (by omega) (by omega)
    rw [hnil, List.length_nil] at hlength
    omega
  have hhour : ((ms / 1000 % 86400 / 3600).toNat : ℤ) = ms / 1000 % 86400 / 3600 :=
    Int.toNat_of_nonneg (by omega)
  have hminute : ((ms / 1000 % 86400 % 3600 / 60).toNat : ℤ) =
      ms / 1000 % 86400 % 3600 / 60 := Int.toNat_of_nonneg (by omega)
  have hsecond : ((ms / 1000 % 86400 % 60).toNat : ℤ) = ms / 1000 % 86400 % 60 :=
    Int.toNat_of_nonneg (by omega)
  -- The timestamp that is written.
  let t : Stamp := ⟨date, (ms / 1000 % 86400 / 3600).toNat,
    (ms / 1000 % 86400 % 3600 / 60).toNat, (ms / 1000 % 86400 % 60).toNat,
    some ('.', pad 3 (ms % 1000)), hyear.1, hyear.2, by omega, by omega, by omega, by
      intro f hf
      rw [← Option.some.inj hf]
      exact ⟨Or.inl rfl, hmillis, isDigit_pad⟩⟩
  have htext : iso8601Ms ms = t.text := by
    simp only [iso8601Ms, hms, hdate, Stamp.text, t, hhour, hminute, hsecond, fractionText,
      List.cons_append]
  have hvalue : Decimal.digitsValue (pad 3 (ms % 1000)) = (ms % 1000).toNat :=
    Padded.digitsValue_padded 3 _
  have hthree : (pad 3 (ms % 1000)).length = 3 := length_pad (by omega) (by omega)
  have hread : millisRead t.fraction = (ms % 1000).toNat := by
    have htake : (pad 3 (ms % 1000)).take 3 = pad 3 (ms % 1000) :=
      List.take_of_length_le (by omega)
    simp only [t, millisRead]
    rw [if_pos ⟨trivial, by omega⟩, htake, hvalue]
  rw [htext, parse_text, hread]
  simp only [t, hnumber, instantOf, hhour, hminute, hsecond, dayMs]
  congr 1
  omega

/-! ### Every text -/

/-- The sums and products of the reader, in the order it makes them. -/
def steps (f : Fields) (millis : ℤ) : List ℤ :=
  let y := if f.month ≤ 2 then f.year - 1 else f.year
  let era := y / 400
  let yoe := y - era * 400
  let mp := if f.month > 2 then f.month - 3 else f.month + 9
  let doy := (153 * mp + 2) / 5 + f.day - 1
  let doe := yoe * 365 + yoe / 4 - yoe / 100 + doy
  let days := era * 146097 + doe - 719468
  [f.year - 1, y, era, era * 400, yoe, mp, 153 * mp, 153 * mp + 2, (153 * mp + 2) / 5 + f.day, doy,
    yoe * 365, yoe * 365 + yoe / 4, yoe * 365 + yoe / 4 - yoe / 100, doe, era * 146097,
    era * 146097 + doe, days, days * dayMs, f.hour * 3600000, days * dayMs + f.hour * 3600000,
    f.minute * 60000, days * dayMs + f.hour * 3600000 + f.minute * 60000, f.second * 1000,
    days * dayMs + f.hour * 3600000 + f.minute * 60000 + f.second * 1000,
    instantOf days f.hour f.minute f.second millis]

/-- The reader comes to an end: each byte it reads by its index is there, and every sum and
    product is one of 64 bits. -/
def Safe (s : List Char) : Prop :=
  (20 ≤ (bytesOf s).length → ∀ i ∈ [4, 7, 10], ((bytesOf s)[i]?).isSome = true) ∧
    ∀ f, fieldsOf s = some f → ∀ n ∈ steps f (millisOf s), InI64 n

theorem parseI64_spec {cs : List Char} {n : ℤ} (h : parseI64 cs = some n) :
    (signOf cs).2.all Char.isDigit = true ∧
      (n = Decimal.digitsValue (signOf cs).2 ∨ n = -Decimal.digitsValue (signOf cs).2) := by
  unfold parseI64 at h
  simp only at h
  by_cases hdigits : (signOf cs).2 ≠ [] ∧ (signOf cs).2.all Char.isDigit = true
  · rw [if_pos hdigits] at h
    refine ⟨hdigits.2, ?_⟩
    cases hsign : (signOf cs).1 with
    | false =>
        rw [hsign] at h
        simp only [Bool.false_eq_true, if_false, Option.ite_none_right_eq_some,
          Option.some.injEq] at h
        exact Or.inl h.2.symm
    | true =>
        rw [hsign] at h
        simp only [if_true, Option.ite_none_right_eq_some, Option.some.injEq] at h
        exact Or.inr h.2.symm
  · rw [if_neg hdigits] at h
    cases h

-- A number of four bytes at most has four digits at most, with a sign or without one.
theorem num_bounds {s : List Char} {start stop : ℕ} {n : ℤ} (h : num s start stop = some n)
    (hwidth : stop - start ≤ 4) : -10000 < n ∧ n < 10000 := by
  rcases Option.bind_eq_some_iff.1 h with ⟨middle, hslice, hparse⟩
  have hsize := size_slice hslice
  have hlength := length_le_size middle
  have hsign : (signOf middle).2.length ≤ middle.length := by
    unfold signOf
    split <;> simp
  rcases parseI64_spec hparse with ⟨hdigits, hn⟩
  have hvalue := Decimal.digitsValue_lt (List.all_eq_true.1 hdigits)
  have hpow : 10 ^ (signOf middle).2.length ≤ 10 ^ 4 :=
    Nat.pow_le_pow_right (by omega) (by omega)
  omega

theorem steps_bounds {f : Fields} {millis : ℤ} (hyear : -10000 < f.year ∧ f.year < 10000)
    (hmonth : 1 ≤ f.month ∧ f.month ≤ 12) (hday : 1 ≤ f.day ∧ f.day ≤ 31)
    (hhour : -10000 < f.hour ∧ f.hour < 10000) (hminute : -10000 < f.minute ∧ f.minute < 10000)
    (hsecond : -10000 < f.second ∧ f.second < 10000) (hmillis : -10000 < millis ∧ millis < 10000) :
    ∀ n ∈ steps f millis, InI64 n := by
  intro n hn
  unfold steps at hn
  obtain ⟨y, hy⟩ : ∃ y, (if f.month ≤ 2 then f.year - 1 else f.year) = y := ⟨_, rfl⟩
  obtain ⟨mp, hmp⟩ : ∃ mp, (if f.month > 2 then f.month - 3 else f.month + 9) = mp := ⟨_, rfl⟩
  have hybound : -10001 < y ∧ y < 10000 := by
    split at hy <;> omega
  have hmpbound : 0 ≤ mp ∧ mp ≤ 11 := by
    split at hmp <;> omega
  simp only [hy, hmp, List.mem_cons, List.not_mem_nil, or_false, instantOf, dayMs] at hn
  unfold InI64
  rcases hn with h | h | h | h | h | h | h | h | h | h | h | h | h | h | h | h | h | h | h | h | h |
    h | h | h | h <;> omega

theorem safe (s : List Char) : Safe s := by
  refine ⟨fun hlength i hi => ?_, fun f hf => ?_⟩
  · have hlt : i < (bytesOf s).length := by
      simp only [List.mem_cons, List.not_mem_nil, or_false] at hi
      omega
    rw [List.getElem?_eq_getElem hlt]
    rfl
  · have hmillis : -10000 < millisOf s ∧ millisOf s < 10000 := by
      unfold millisOf
      split
      · cases hnum : num s 20 23 with
        | none => simp
        | some m => exact num_bounds hnum (by omega)
      · omega
    unfold fieldsOf at hf
    simp only at hf
    split at hf
    · cases hf
    rcases Option.bind_eq_some_iff.1 hf with ⟨year, hyear, hf⟩
    rcases Option.bind_eq_some_iff.1 hf with ⟨month, hmonth, hf⟩
    rcases Option.bind_eq_some_iff.1 hf with ⟨day, hday, hf⟩
    rcases Option.bind_eq_some_iff.1 hf with ⟨hour, hhour, hf⟩
    rcases Option.bind_eq_some_iff.1 hf with ⟨minute, hminute, hf⟩
    rcases Option.bind_eq_some_iff.1 hf with ⟨second, hsecond, hf⟩
    split at hf
    · rename_i hrange
      cases hf
      exact steps_bounds (num_bounds hyear (by omega)) hrange.1 hrange.2
        (num_bounds hhour (by omega)) (num_bounds hminute (by omega))
        (num_bounds hsecond (by omega)) hmillis
    · cases hf

/-- The last day of a February that has no thirty-first, at an hour that is none. -/
def noSuchDay : List Char := "2025-02-31T99:00:00.000Z".toList

end Timestamps

end PocketSkynet
