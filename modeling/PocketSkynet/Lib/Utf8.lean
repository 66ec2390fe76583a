import Mathlib.Algebra.Order.Ring.Nat
import Mathlib.Data.List.Basic

/-!
# UTF-8, Read Leniently

The bytes of a text, and the text of any bytes. Bytes that begin no character are read as the
replacement character, one for each stretch that could have been the beginning of one, so that
every list of bytes has a reading. The bytes of a text are read as that text.

## Main definitions

* `bytesOf`: The bytes of a text.
* `invalidLength`: How many bytes one replacement character stands for.
* `lossy`: The text of any bytes.
* `size`, `splitAt`, `slice`: The bytes a text takes, and its parts between bytes.

## Theorems

* `lossy_append`: The bytes of a character are read as that character.
* `lossy_bytesOf`: The bytes of a text are read as that text.
* `lossy_append_ascii`: What stands behind an ASCII byte is read by itself.
* `encodeChar_ascii`: An ASCII character is one byte, its code.
* `mem_encodeChar`: A small byte is a character of its own.
* `splitAt_append`, `splitAt_eq_some`: A text is split behind its beginnings, and nowhere else.
* `slice_append`, `slice_eq_some`: A part of a text is the slice between its bytes.
* `append_of_size_le`: The shorter of two beginnings begins the other.
-/

namespace PocketSkynet

namespace Utf8

/-- The bytes of a text. -/
def bytesOf (cs : List Char) : List UInt8 := cs.flatMap String.utf8EncodeChar

def isContinuation (b : UInt8) : Bool := 0x80 ≤ b && b ≤ 0xbf

/-- Whether the second byte can stand behind the first, for characters of three bytes. -/
def secondOfThree (first second : UInt8) : Bool :=
  if first = 0xe0 then 0xa0 ≤ second && second ≤ 0xbf
  else if first = 0xed then 0x80 ≤ second && second ≤ 0x9f
  else isContinuation second

/-- And for characters of four. -/
def secondOfFour (first second : UInt8) : Bool :=
  if first = 0xf0 then 0x90 ≤ second && second ≤ 0xbf
  else if first = 0xf4 then 0x80 ≤ second && second ≤ 0x8f
  else isContinuation second

/-- How many bytes are given up where no character begins: as many as could have begun one,
    and at least one. -/
def invalidLength : List UInt8 → ℕ
  | first :: second :: rest =>
      if 0xe0 ≤ first && first ≤ 0xef then
        if secondOfThree first second then 2 else 1
      else if 0xf0 ≤ first && first ≤ 0xf4 then
        if secondOfFour first second then
          if (rest.head?.map isContinuation).getD false then 3 else 2
        else 1
      else 1
  | _ => 1

theorem invalidLength_pos (bytes : List UInt8) : 0 < invalidLength bytes := by
  unfold invalidLength
  repeat' split
  all_goals omega

/-- The text of any bytes. What is no character is read as the replacement character. -/
def lossy (bytes : List UInt8) : List Char :=
  match bytes with
  | [] => []
  | first :: rest =>
      match (first :: rest).toByteArray.utf8DecodeChar? 0 with
      | some c => c :: lossy ((first :: rest).drop c.utf8Size)
      | none => '\uFFFD' :: lossy ((first :: rest).drop (invalidLength (first :: rest)))
termination_by bytes.length
decreasing_by
  · have hsize := c.utf8Size_pos
    simp only [List.length_drop, List.length_cons]
    omega
  · have hsize := invalidLength_pos (first :: rest)
    simp only [List.length_drop, List.length_cons]
    omega

/-- The bytes of a character are read as that character. -/
theorem lossy_append (c : Char) (rest : List UInt8) :
    lossy (String.utf8EncodeChar c ++ rest) = c :: lossy rest := by
  have hlength := String.length_utf8EncodeChar c
  have hdecode := @ByteArray.utf8DecodeChar?_utf8EncodeChar_append rest.toByteArray c
  rw [← List.toByteArray_append] at hdecode
  have hdrop : (String.utf8EncodeChar c ++ rest).drop c.utf8Size = rest := by
    rw [← hlength, List.drop_left]
  cases hbytes : String.utf8EncodeChar c ++ rest with
  | nil =>
      have hsize := c.utf8Size_pos
      rw [(List.append_eq_nil_iff.1 hbytes).1, List.length_nil] at hlength
      omega
  | cons first tail =>
      rw [hbytes] at hdecode hdrop
      rw [lossy, hdecode]
      simp only
      rw [hdrop]

/-- The bytes of a text are read as that text. -/
theorem lossy_bytesOf (cs : List Char) : lossy (bytesOf cs) = cs := by
  induction cs with
  | nil => rw [bytesOf, List.flatMap_nil, lossy]
  | cons c cs ih => rw [bytesOf, List.flatMap_cons, lossy_append, ← bytesOf, ih]

theorem bytesOf_append (cs ds : List Char) : bytesOf (cs ++ ds) = bytesOf cs ++ bytesOf ds :=
  List.flatMap_append

-- An ASCII character is one byte, its code.
theorem encodeChar_ascii {n : ℕ} (h : n < 128) :
    String.utf8EncodeChar (Char.ofNat n) = [UInt8.ofNat n] := by
  have hall : ∀ m : Fin 128, String.utf8EncodeChar (Char.ofNat m.1) = [UInt8.ofNat m.1] := by
    decide +kernel
  exact hall ⟨n, h⟩

-- A small byte is a character of its own, as all bytes of longer ones are marked.
theorem mem_encodeChar {c : Char} {b : UInt8} (h : b ∈ String.utf8EncodeChar c)
    (hsmall : b.toNat < 128) : c.toNat = b.toNat := by
  have hmarked : ∀ n, 128 ≤ n → n < 256 → b ≠ UInt8.ofNat n := by
    intro n hlow hhigh heq
    rw [heq, UInt8.toNat_ofNat', Nat.mod_eq_of_lt hhigh] at hsmall
    omega
  change c.val.toNat = b.toNat
  unfold String.utf8EncodeChar at h
  simp only at h
  split at h
  · rw [List.mem_singleton.1 h, UInt8.toNat_ofNat']
    omega
  · exfalso
    split at h
    · simp only [List.mem_cons, List.not_mem_nil, or_false] at h
      rcases h with h | h <;> exact hmarked _ (by omega) (by omega) h
    · split at h
      all_goals
        simp only [List.mem_cons, List.not_mem_nil, or_false] at h
      · rcases h with h | h | h <;> exact hmarked _ (by omega) (by omega) h
      · rcases h with h | h | h | h <;> exact hmarked _ (by omega) (by omega) h

-- An ASCII byte is no part of a longer character.
theorem decode_append_ascii {b : UInt8} (hb : b.toNat < 128) (f : UInt8) (r y : List UInt8) :
    (f :: r ++ b :: y).toByteArray.utf8DecodeChar? 0 = (f :: r).toByteArray.utf8DecodeChar? 0 := by
  cases hshort : (f :: r).toByteArray.utf8DecodeChar? 0 with
  | some c =>
      rw [List.toByteArray_append]
      exact ByteArray.utf8DecodeChar?_append_eq_some hshort _
  | none =>
      cases hlong : (f :: r ++ b :: y).toByteArray.utf8DecodeChar? 0 with
      | none => rfl
      | some c =>
          exfalso
          rcases ByteArray.exists_of_utf8DecodeChar?_eq_some hlong with ⟨l, hl⟩
          have hlist : f :: r ++ b :: y = String.utf8EncodeChar c ++ l.data.toList := by
            have h := congrArg (fun a => a.data.toList) hl
            simpa using h
          rcases List.append_eq_append_iff.1 hlist with ⟨more, hmore, hrest⟩ | ⟨more, hmore, hrest⟩
          · cases more with
            | nil =>
                rw [List.append_nil] at hmore
                have hdecode := @ByteArray.utf8DecodeChar?_utf8EncodeChar_append ByteArray.empty c
                rw [hmore, ByteArray.append_empty, hshort] at hdecode
                cases hdecode
            | cons d more =>
                rcases List.cons.inj hrest with ⟨rfl, -⟩
                have hmem : b ∈ String.utf8EncodeChar c := by simp [hmore]
                have hcode := mem_encodeChar hmem hb
                have hone := @encodeChar_ascii c.toNat (by omega)
                rw [Char.ofNat_toNat, hmore] at hone
                simp at hone
          · have hdecode := @ByteArray.utf8DecodeChar?_utf8EncodeChar_append more.toByteArray c
            rw [← List.toByteArray_append, ← hmore, hshort] at hdecode
            cases hdecode

theorem invalidLength_append_ascii {b : UInt8} (hb : b.toNat < 128) (f : UInt8)
    (r y : List UInt8) : invalidLength (f :: r ++ b :: y) = invalidLength (f :: r) := by
  have hmarked : ∀ n : ℕ, 128 ≤ n → n < 256 → decide (UInt8.ofNat n ≤ b) = false := by
    intro n hlow hhigh
    rw [decide_eq_false_iff_not, UInt8.le_iff_toNat_le, UInt8.toNat_ofNat', Nat.mod_eq_of_lt hhigh]
    omega
  have h80 : decide (0x80 ≤ b) = false := hmarked 0x80 (by omega) (by omega)
  have h90 : decide (0x90 ≤ b) = false := hmarked 0x90 (by omega) (by omega)
  have ha0 : decide (0xa0 ≤ b) = false := hmarked 0xa0 (by omega) (by omega)
  have hcont : isContinuation b = false := by rw [isContinuation, h80, Bool.false_and]
  match r with
  | [] =>
      have hthree : secondOfThree f b = false := by
        simp only [secondOfThree, isContinuation, h80, ha0, Bool.false_and, ite_self]
      have hfour : secondOfFour f b = false := by
        simp only [secondOfFour, isContinuation, h80, h90, Bool.false_and, ite_self]
      simp [invalidLength, hthree, hfour]
  | [s] => simp [invalidLength, hcont]
  | s :: t :: r => rfl

theorem invalidLength_le (f : UInt8) (r : List UInt8) :
    invalidLength (f :: r) ≤ (f :: r).length := by
  match r with
  | [] => exact Nat.le_refl 1
  | [s] =>
      simp only [invalidLength, List.head?_nil, Option.map_none, Option.getD_none,
        Bool.false_eq_true, if_false, List.length_cons, List.length_nil]
      repeat' split
      all_goals omega
  | s :: t :: r =>
      simp only [invalidLength, List.length_cons]
      repeat' split
      all_goals omega

/-- What stands behind an ASCII byte is read by itself. -/
theorem lossy_append_ascii {b : UInt8} (hb : b.toNat < 128) (x y : List UInt8) :
    lossy (x ++ b :: y) = lossy x ++ lossy (b :: y) := by
  -- Each turn reads a character within `x`, and leaves less of it.
  have hnone : lossy ([] : List UInt8) = [] := by rw [lossy]
  have hread : ∀ n x, x.length ≤ n → lossy (x ++ b :: y) = lossy x ++ lossy (b :: y) := by
    intro n
    induction n with
    | zero =>
        intro x hx
        have hx : x = [] := List.eq_nil_of_length_eq_zero (by omega)
        rw [hx, List.nil_append, hnone, List.nil_append]
    | succ n ih =>
        intro x hx
        cases x with
        | nil => rw [List.nil_append, hnone, List.nil_append]
        | cons f r =>
            have hdecode := decode_append_ascii hb f r y
            have hinvalid := invalidLength_append_ascii hb f r y
            rw [List.cons_append] at hdecode hinvalid ⊢
            rw [lossy, lossy, hdecode]
            cases hone : (f :: r).toByteArray.utf8DecodeChar? 0 with
            | none =>
                have hle := invalidLength_le f r
                have hpos := invalidLength_pos (f :: r)
                simp only
                rw [hinvalid, ← List.cons_append, List.drop_append_of_le_length hle, ih _ (by
                  rw [List.length_drop]
                  omega), List.cons_append]
            | some c =>
                have hpos := c.utf8Size_pos
                have hle := ByteArray.le_size_of_utf8DecodeChar?_eq_some hone
                rw [List.size_toByteArray, Nat.zero_add] at hle
                simp only
                rw [← List.cons_append, List.drop_append_of_le_length hle, ih _ (by
                  rw [List.length_drop]
                  omega), List.cons_append]
  exact hread x.length x (Nat.le_refl _)

/-! ### Slices -/

/-- How many bytes a text takes. -/
def size (cs : List Char) : ℕ := (cs.map Char.utf8Size).sum

@[simp] theorem size_nil : size [] = 0 := rfl

@[simp] theorem size_cons (c : Char) (cs : List Char) : size (c :: cs) = c.utf8Size + size cs := by
  simp [size]

@[simp] theorem size_append (cs ds : List Char) : size (cs ++ ds) = size cs + size ds := by
  simp [size]

theorem length_bytesOf (cs : List Char) : (bytesOf cs).length = size cs := by
  induction cs with
  | nil => rfl
  | cons c cs ih =>
      rw [bytesOf, List.flatMap_cons, List.length_append, String.length_utf8EncodeChar, ← bytesOf,
        ih, size_cons]

theorem length_le_size (cs : List Char) : cs.length ≤ size cs := by
  induction cs with
  | nil => exact Nat.le_refl 0
  | cons c cs ih =>
      have hc := c.utf8Size_pos
      rw [size_cons, List.length_cons]
      omega

/-- The two sides of a text at a byte, if a character ends there. -/
def splitAt : List Char → ℕ → Option (List Char × List Char)
  | cs, 0 => some ([], cs)
  | [], _ + 1 => none
  | c :: cs, n + 1 =>
      if c.utf8Size ≤ n + 1 then
        (splitAt cs (n + 1 - c.utf8Size)).map fun sides => (c :: sides.1, sides.2)
      else none

/-- The characters from a byte up to another, if both are between characters. -/
def slice (cs : List Char) (start stop : ℕ) : Option (List Char) :=
  if start ≤ stop then do
    let front ← splitAt cs stop
    let middle ← splitAt front.1 start
    return middle.2
  else none

/-- A text is split behind any of its beginnings. -/
theorem splitAt_append (front rest : List Char) :
    splitAt (front ++ rest) (size front) = some (front, rest) := by
  induction front with
  | nil => cases rest <;> rfl
  | cons c front ih =>
      have hpos := c.utf8Size_pos
      have hleft : c.utf8Size + size front - c.utf8Size = size front := by omega
      have hshape : ∃ n, c.utf8Size + size front = n + 1 :=
        ⟨c.utf8Size + size front - 1, by omega⟩
      rcases hshape with ⟨n, hn⟩
      rw [size_cons, List.cons_append, hn, splitAt, if_pos (by omega), ← hn, hleft, ih]
      rfl

/-- And nowhere else. -/
theorem splitAt_eq_some : ∀ {cs : List Char} {n : ℕ} {front rest : List Char},
    splitAt cs n = some (front, rest) → cs = front ++ rest ∧ size front = n
  | [], 0, _, _, h => by
      cases h
      exact ⟨rfl, rfl⟩
  | c :: cs, 0, _, _, h => by
      cases h
      exact ⟨rfl, rfl⟩
  | [], _ + 1, _, _, h => by cases h
  | c :: cs, n + 1, front, rest, h => by
      rw [splitAt] at h
      by_cases hfits : c.utf8Size ≤ n + 1
      · rw [if_pos hfits] at h
        rcases Option.map_eq_some_iff.1 h with ⟨sides, hsides, heq⟩
        cases heq
        have hpair : splitAt cs (n + 1 - c.utf8Size) = some (sides.1, sides.2) := hsides
        rcases splitAt_eq_some hpair with ⟨hcs, hsize⟩
        refine ⟨by rw [hcs]; rfl, ?_⟩
        rw [size_cons, hsize]
        omega
      · rw [if_neg hfits] at h
        cases h

theorem slice_append (front middle rest : List Char) :
    slice (front ++ (middle ++ rest)) (size front) (size front + size middle) = some middle := by
  have hstop := splitAt_append (front ++ middle) rest
  rw [size_append, List.append_assoc] at hstop
  have hstart := splitAt_append front middle
  rw [slice, if_pos (Nat.le_add_right _ _), hstop]
  simp only [Option.bind_eq_bind, Option.bind_some, hstart]
  rfl

-- Of two beginnings of a text, the one with fewer bytes begins the other.
theorem append_of_size_le {a b c d : List Char} (h : a ++ b = c ++ d) (hle : size a ≤ size c) :
    ∃ e, c = a ++ e ∧ b = e ++ d := by
  rcases List.append_eq_append_iff.1 h with ⟨e, hc, hb⟩ | ⟨e, ha, hd⟩
  · exact ⟨e, hc, hb⟩
  · have hlength := length_le_size e
    rw [ha, size_append] at hle
    have hnil : e = [] := List.length_eq_zero_iff.1 (by omega)
    rw [hnil] at ha hd
    exact ⟨[], by rw [ha, List.append_nil, List.append_nil], hd.symm⟩

theorem append_inj_of_size {a b c d : List Char} (h : a ++ b = c ++ d) (hsize : size a = size c) :
    a = c ∧ b = d := by
  have hleft := splitAt_append a b
  rw [h, hsize, splitAt_append] at hleft
  have hsides := Option.some.inj hleft
  exact ⟨(congrArg Prod.fst hsides).symm, (congrArg Prod.snd hsides).symm⟩

theorem splitAt_isSome {cs : List Char} {n : ℕ} :
    (splitAt cs n).isSome = true ↔ ∃ front rest, cs = front ++ rest ∧ size front = n := by
  constructor
  · intro h
    rcases Option.isSome_iff_exists.1 h with ⟨⟨front, rest⟩, hsplit⟩
    exact ⟨front, rest, splitAt_eq_some hsplit⟩
  · rintro ⟨front, rest, rfl, rfl⟩
    rw [splitAt_append]
    rfl

/-- What a slice is. -/
theorem slice_eq_some {cs middle : List Char} {start stop : ℕ} :
    slice cs start stop = some middle ↔ ∃ front rest, cs = front ++ (middle ++ rest) ∧
      size front = start ∧ size front + size middle = stop := by
  constructor
  · intro h
    unfold slice at h
    by_cases hle : start ≤ stop
    · rw [if_pos hle] at h
      rcases Option.bind_eq_some_iff.1 h with ⟨front, hfront, h⟩
      rcases Option.bind_eq_some_iff.1 h with ⟨sides, hsides, h⟩
      rcases splitAt_eq_some hfront with ⟨hcs, hstop⟩
      rcases splitAt_eq_some hsides with ⟨hsplit, hstart⟩
      have hmiddle : sides.2 = middle := Option.some.inj h
      rw [hmiddle] at hsplit
      refine ⟨sides.1, front.2, by rw [hcs, hsplit, List.append_assoc], hstart, ?_⟩
      rw [← hstop, hsplit, size_append]
    · rw [if_neg hle] at h
      cases h
  · rintro ⟨front, rest, rfl, rfl, rfl⟩
    exact slice_append front middle rest

theorem slice_isSome {cs : List Char} {start stop : ℕ} : (slice cs start stop).isSome = true ↔
    start ≤ stop ∧ (splitAt cs start).isSome = true ∧ (splitAt cs stop).isSome = true := by
  rw [splitAt_isSome, splitAt_isSome]
  constructor
  · intro h
    rcases Option.isSome_iff_exists.1 h with ⟨middle, hslice⟩
    rcases slice_eq_some.1 hslice with ⟨front, rest, rfl, hstart, hstop⟩
    refine ⟨by omega, ⟨front, _, rfl, hstart⟩, front ++ middle, rest, ?_, ?_⟩
    · rw [List.append_assoc]
    · rw [size_append, hstop]
  · rintro ⟨hle, ⟨front, todo, rfl, hstart⟩, before, rest, htext, hstop⟩
    rcases append_of_size_le htext (by omega) with ⟨middle, rfl, rfl⟩
    rw [size_append] at hstop
    exact Option.isSome_iff_exists.2 ⟨middle, slice_eq_some.2 ⟨front, rest, rfl, hstart, hstop⟩⟩

-- A slice that begins where a text is split begins the part behind.
theorem slice_behind {front todo middle : List Char} {stop : ℕ}
    (h : slice (front ++ todo) (size front) stop = some middle) :
    ∃ rest, todo = middle ++ rest ∧ size front + size middle = stop := by
  rcases slice_eq_some.1 h with ⟨front', rest, htext, hstart, hstop⟩
  rcases append_inj_of_size htext hstart.symm with ⟨rfl, htodo⟩
  exact ⟨rest, htodo, hstop⟩

-- A slice has as many bytes as were asked for.
theorem size_slice {cs middle : List Char} {start stop : ℕ}
    (h : slice cs start stop = some middle) : size middle = stop - start := by
  rcases slice_eq_some.1 h with ⟨front, rest, -, hstart, hstop⟩
  omega

/-- In an ASCII text a byte is a character. -/
theorem size_ascii {cs : List Char} (h : ∀ c ∈ cs, c.toNat < 128) : size cs = cs.length := by
  induction cs with
  | nil => rfl
  | cons c cs ih =>
      have hone : c.utf8Size = 1 := by
        have hsmall := h c List.mem_cons_self
        rw [Char.utf8Size_eq_one_iff, UInt32.le_iff_toNat_le]
        exact Nat.le_of_lt_succ hsmall
      rw [size_cons, List.length_cons, hone, ih fun d hd => h d (List.mem_cons_of_mem c hd),
        Nat.add_comm]

theorem getElem?_bytesOf {front rest : List Char} {c : Char} (hc : c.toNat < 128) :
    (bytesOf (front ++ c :: rest))[size front]? = some (UInt8.ofNat c.toNat) := by
  have hencode := encodeChar_ascii hc
  rw [Char.ofNat_toNat] at hencode
  have hlength := length_bytesOf front
  rw [bytesOf_append, List.getElem?_append_right (by omega), hlength, Nat.sub_self, bytesOf,
    List.flatMap_cons, hencode]
  rfl

end Utf8

end PocketSkynet
