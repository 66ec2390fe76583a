import Mathlib.Data.List.Basic
import Mathlib.Algebra.Ring.Nat

/-!
# Framed Bytes

Fields that are joined into one byte string before it is signed: numbers of a fixed width,
the highest byte first, and texts behind a count of their bytes. The count has four bytes,
so it tells two lengths apart only up to multiples of `2 ^ 32`. A text is still read off
without doubt where something follows that cannot be inside it, which is what
`framed_inj` asks for.

## Main definitions

* `beBytes`: The last bytes of a number.
* `framed`: Bytes behind their count.
* `utf8`, `ofUtf8`: The bytes of a text, and back.

## Theorems

* `framed_inj`: So are bytes behind their count, if a zero follows and there is none in them.
* `utf8_injective`, `ofUtf8_utf8`: A text is known by its bytes.
* `zero_mem_utf8`: A zero byte is a zero character.
* `length_utf8`: An ASCII text has as many bytes as characters.
-/

namespace PocketSkynet

/-- The last `k` bytes of a number, the highest first. -/
def beBytes : Nat → Nat → List UInt8
  | 0, _ => []
  | k + 1, n => UInt8.ofNat (n / 256 ^ k) :: beBytes k n

/-- Bytes behind their count. -/
def framed (bytes : List UInt8) : List UInt8 := beBytes 4 bytes.length ++ bytes

@[simp] theorem length_beBytes (k n : Nat) : (beBytes k n).length = k := by
  induction k with
  | zero => rfl
  | succ k ih => rw [beBytes, List.length_cons, ih]

-- The bytes are the digits of the number, so they give it back up to its width.
theorem mod_of_beBytes {k m n : Nat} (h : beBytes k m = beBytes k n) :
    m % 256 ^ k = n % 256 ^ k := by
  induction k with
  | zero => rw [Nat.pow_zero, Nat.mod_one, Nat.mod_one]
  | succ k ih =>
      simp only [beBytes, List.cons.injEq] at h
      have hdigit : m / 256 ^ k % 256 = n / 256 ^ k % 256 := by
        have hbyte := congrArg UInt8.toNat h.1
        simpa only [UInt8.toNat_ofNat'] using hbyte
      rw [Nat.pow_succ, Nat.mod_mul, Nat.mod_mul, ih h.2, hdigit]

theorem beBytes_append {k m n : Nat} {x y : List UInt8}
    (h : beBytes k m ++ x = beBytes k n ++ y) : m % 256 ^ k = n % 256 ^ k ∧ x = y := by
  rcases List.append_inj h (by rw [length_beBytes, length_beBytes]) with ⟨hbytes, hrest⟩
  exact ⟨mod_of_beBytes hbytes, hrest⟩

/-- A number that fits its width is read off the front. -/
theorem beBytes_append_inj {k m n : Nat} {x y : List UInt8} (hm : m < 256 ^ k) (hn : n < 256 ^ k)
    (h : beBytes k m ++ x = beBytes k n ++ y) : m = n ∧ x = y := by
  rcases beBytes_append h with ⟨hmod, hrest⟩
  rw [Nat.mod_eq_of_lt hm, Nat.mod_eq_of_lt hn] at hmod
  exact ⟨hmod, hrest⟩

/-- Bytes behind their count are read off the front, if a zero comes next on one side and
    there is no zero in them on the other. -/
theorem framed_inj {a b x y : List UInt8} (h : framed a ++ x = framed b ++ y)
    (ha : a.length < 256 ^ 4) (hx : x.head? = some 0) (hb : 0 ∉ b) : a = b ∧ x = y := by
  rw [framed, framed, List.append_assoc, List.append_assoc] at h
  rcases beBytes_append h with ⟨hlength, hjoin⟩
  -- The counts agree up to their width, and the first length fits it.
  have hshort : a.length ≤ b.length := by
    rw [Nat.mod_eq_of_lt ha] at hlength
    rw [hlength]
    exact Nat.mod_le _ _
  rcases List.append_eq_append_iff.1 hjoin with ⟨more, hmore, hx'⟩ | ⟨more, hmore, hy⟩
  · cases more with
    | nil => exact ⟨by rw [hmore, List.append_nil], hx'⟩
    | cons c more =>
        -- What is more on the other side begins with the zero that comes next here.
        rw [hx', List.cons_append, List.head?_cons, Option.some.injEq] at hx
        refine absurd ?_ hb
        rw [hmore, hx]
        exact List.mem_append_right a List.mem_cons_self
  · have hnil : more = [] := by
      rw [hmore, List.length_append] at hshort
      exact List.eq_nil_of_length_eq_zero (by omega)
    subst hnil
    exact ⟨by rw [hmore, List.append_nil], by rw [hy, List.nil_append]⟩

/-! ### Texts as bytes -/

/-- The bytes of a text. -/
def utf8 (s : String) : List UInt8 := s.toUTF8.toList

theorem toList_loop (bytes : ByteArray) (i : Nat) (acc : List UInt8) :
    ByteArray.toList.loop bytes i acc = acc.reverse ++ bytes.data.toList.drop i := by
  induction i, acc using ByteArray.toList.loop.induct bytes with
  | case1 i acc hi ih =>
      have hsize : i < bytes.data.toList.length := hi
      have hget : bytes.get! i = bytes.data.toList[i] := by
        rw [ByteArray.get!, getElem!_pos bytes.data i hi]
        rfl
      rw [ByteArray.toList.loop, if_pos hi, ih, hget, List.drop_eq_getElem_cons hsize,
        List.reverse_cons, List.append_assoc, List.singleton_append]
  | case2 i acc hi =>
      have hsize : bytes.data.toList.length ≤ i := Nat.le_of_not_lt hi
      rw [ByteArray.toList.loop, if_neg hi, List.drop_eq_nil_of_le hsize, List.append_nil]

-- The bytes of a text are those of its characters, one after the other.
theorem utf8_eq (s : String) : utf8 s = s.toList.flatMap String.utf8EncodeChar := by
  have hbytes : s.toByteArray = s.toList.utf8Encode := by
    rw [← String.toByteArray_ofList, String.ofList_toList]
  rw [utf8, String.toUTF8_eq_toByteArray, hbytes, List.utf8Encode, ByteArray.toList, toList_loop]
  simp

/-- A text is known by its bytes. -/
theorem utf8_injective {s t : String} (h : utf8 s = utf8 t) : s = t := by
  rw [utf8_eq, utf8_eq] at h
  have hencode : s.toList.utf8Encode = t.toList.utf8Encode := by
    rw [List.utf8Encode, List.utf8Encode, h]
  rw [← String.ofList_toList (s := s), ← String.ofList_toList (s := t), ← String.toByteArray_inj,
    String.toByteArray_ofList, String.toByteArray_ofList, hencode]

/-- The text of some bytes, if they are the bytes of a text. -/
def ofUtf8 (bytes : List UInt8) : Option String := String.fromUTF8? ⟨bytes.toArray⟩

/-- A text can be read off its bytes. -/
theorem ofUtf8_utf8 (s : String) : ofUtf8 (utf8 s) = some s := by
  have hbytes : (⟨(utf8 s).toArray⟩ : ByteArray) = s.toByteArray := by
    rw [utf8, ByteArray.toList, toList_loop, String.toUTF8_eq_toByteArray]
    simp
  rw [ofUtf8, hbytes]
  exact dif_pos s.isValidUTF8

-- A byte that stands for a part of a character is marked by its highest bit.
theorem marked_ne_zero {n : Nat} (hlow : 128 ≤ n) (hhigh : n < 256) : 0 ≠ UInt8.ofNat n := by
  intro h
  have hnat := congrArg UInt8.toNat h
  rw [UInt8.toNat_ofNat', UInt8.toNat_zero, Nat.mod_eq_of_lt hhigh] at hnat
  omega

theorem zero_mem_utf8EncodeChar {c : Char} (h : 0 ∈ String.utf8EncodeChar c) : c.toNat = 0 := by
  change c.val.toNat = 0
  unfold String.utf8EncodeChar at h
  simp only at h
  split at h
  · have hnat := congrArg UInt8.toNat (List.mem_singleton.1 h)
    rw [UInt8.toNat_ofNat', UInt8.toNat_zero] at hnat
    omega
  · -- A character of several bytes has marked ones only.
    exfalso
    split at h
    · simp only [List.mem_cons, List.not_mem_nil, or_false] at h
      rcases h with h | h <;> exact marked_ne_zero (by omega) (by omega) h
    · split at h
      all_goals
        simp only [List.mem_cons, List.not_mem_nil, or_false] at h
      · rcases h with h | h | h <;> exact marked_ne_zero (by omega) (by omega) h
      · rcases h with h | h | h | h <;> exact marked_ne_zero (by omega) (by omega) h

/-- A zero byte is a zero character. -/
theorem zero_mem_utf8 {s : String} (h : 0 ∈ utf8 s) : ∃ c ∈ s.toList, c.toNat = 0 := by
  rw [utf8_eq] at h
  rcases List.mem_flatMap.1 h with ⟨c, hc, hzero⟩
  exact ⟨c, hc, zero_mem_utf8EncodeChar hzero⟩

/-- A character has a byte at least. -/
theorem length_le_utf8 (s : String) : s.toList.length ≤ (utf8 s).length := by
  rw [utf8_eq]
  induction s.toList with
  | nil => exact Nat.le_refl 0
  | cons c text ih =>
      have hpos := c.utf8Size_pos
      rw [List.flatMap_cons, List.length_append, String.length_utf8EncodeChar, List.length_cons]
      omega

/-- An ASCII text has as many bytes as characters. -/
theorem length_utf8 {s : String} (h : ∀ c ∈ s.toList, c.toNat < 128) :
    (utf8 s).length = s.toList.length := by
  rw [utf8_eq]
  revert h
  induction s.toList with
  | nil => exact fun _ => rfl
  | cons c text ih =>
      intro h
      have hone : c.utf8Size = 1 := by
        have hsmall := h c List.mem_cons_self
        rw [Char.utf8Size_eq_one_iff, UInt32.le_iff_toNat_le]
        exact Nat.le_of_lt_succ hsmall
      rw [List.flatMap_cons, List.length_append, String.length_utf8EncodeChar, hone,
        ih fun d hd => h d (List.mem_cons_of_mem c hd), List.length_cons, Nat.add_comm]

end PocketSkynet
