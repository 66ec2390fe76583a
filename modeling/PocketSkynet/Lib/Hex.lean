import Mathlib.Data.List.Basic

/-!
# Hexadecimal Text

Bytes as text, two digits for each. Encoding writes lower case, and decoding reads both
cases, so a text that is read need not be the text that would be written.

## Main definitions

* `Hex.encode`, `Hex.decode`: Bytes as digits, and back.
* `Hex.ofAscii`, `Hex.ascii`: A text of one-byte characters as bytes, and back.

## Theorems

* `decode_encode`: What is written can be read.
* `length_decode`: Two digits make a byte.
* `digits_decode`: Only digits can be read.
* `ascii_ofAscii`: One-byte characters survive as bytes.
-/

namespace PocketSkynet

namespace Hex

/-- The value of a digit, in either case. -/
def value (c : Char) : Option Nat :=
  if 48 ≤ c.toNat ∧ c.toNat ≤ 57 then some (c.toNat - 48)
  else if 97 ≤ c.toNat ∧ c.toNat ≤ 102 then some (c.toNat - 87)
  else if 65 ≤ c.toNat ∧ c.toNat ≤ 70 then some (c.toNat - 55)
  else none

/-- The digits of some bytes, in lower case. -/
def encode : List UInt8 → List Char
  | [] => []
  | b :: bytes => Nat.digitChar (b.toNat / 16) :: Nat.digitChar (b.toNat % 16) :: encode bytes

/-- The bytes that are written, if there are two digits for each. -/
def decode : List Char → Option (List UInt8)
  | [] => some []
  | [_] => none
  | high :: low :: rest => do
      let high ← value high
      let low ← value low
      let bytes ← decode rest
      return UInt8.ofNat (16 * high + low) :: bytes

/-- A text as bytes. Only for characters of one byte. -/
def ofAscii (text : List Char) : List UInt8 := text.map fun c => UInt8.ofNat c.toNat

/-- Bytes as characters, one for each. -/
def ascii (bytes : List UInt8) : List Char := bytes.map fun b => Char.ofNat b.toNat

theorem value_digitChar : ∀ n < 16, value (Nat.digitChar n) = some n := by decide

@[simp] theorem length_encode (bytes : List UInt8) : (encode bytes).length = 2 * bytes.length := by
  induction bytes with
  | nil => rfl
  | cons b bytes ih =>
      simp only [encode, List.length_cons, ih]
      omega

@[simp] theorem decode_encode (bytes : List UInt8) : decode (encode bytes) = some bytes := by
  induction bytes with
  | nil => rfl
  | cons b bytes ih =>
      have hbyte := b.toNat_lt
      have hjoin : 16 * (b.toNat / 16) + b.toNat % 16 = b.toNat := Nat.div_add_mod b.toNat 16
      simp only [encode, decode, value_digitChar (b.toNat / 16) (by omega),
        value_digitChar (b.toNat % 16) (by omega), ih]
      refine congrArg some (congrArg (· :: bytes) ?_)
      rw [hjoin, UInt8.ofNat_toNat]

theorem length_decode {text : List Char} {bytes : List UInt8} (h : decode text = some bytes) :
    text.length = 2 * bytes.length := by
  induction text using decode.induct generalizing bytes with
  | case1 =>
      cases h
      rfl
  | case2 => cases h
  | case3 high low rest ih =>
      simp only [decode, Option.bind_eq_bind, Option.bind_eq_some_iff, Option.pure_def,
        Option.some.injEq] at h
      rcases h with ⟨_, -, _, -, rest', hrest, rfl⟩
      simp only [List.length_cons, ih hrest]
      omega

theorem value_pos {c : Char} {n : Nat} (h : value c = some n) : 48 ≤ c.toNat := by
  unfold value at h
  split at h
  · omega
  · split at h
    · omega
    · split at h
      · omega
      · cases h

-- No digit is below `0`, so a text with a control character cannot be read.
theorem digits_decode {text : List Char} {bytes : List UInt8} (h : decode text = some bytes) :
    ∀ c ∈ text, 48 ≤ c.toNat := by
  induction text using decode.induct generalizing bytes with
  | case1 => exact fun c hc => absurd hc List.not_mem_nil
  | case2 => cases h
  | case3 high low rest ih =>
      simp only [decode, Option.bind_eq_bind, Option.bind_eq_some_iff, Option.pure_def,
        Option.some.injEq] at h
      rcases h with ⟨_, hhigh, _, hlow, rest', hrest, -⟩
      intro c hc
      rcases List.mem_cons.1 hc with rfl | hc
      · exact value_pos hhigh
      · rcases List.mem_cons.1 hc with rfl | hc
        · exact value_pos hlow
        · exact ih hrest c hc

-- A digit in lower case is the one its value is written as.
theorem value_of_lower {c : Char} (h : (48 ≤ c.toNat ∧ c.toNat ≤ 57) ∨
    (97 ≤ c.toNat ∧ c.toNat ≤ 102)) : ∃ n < 16, value c = some n ∧ Nat.digitChar n = c := by
  have hdigits : ∀ n < 10, Nat.digitChar n = Char.ofNat (48 + n) := by decide
  have hletters : ∀ n < 6, Nat.digitChar (10 + n) = Char.ofNat (97 + n) := by decide
  rcases h with ⟨hlow, hhigh⟩ | ⟨hlow, hhigh⟩
  · refine ⟨c.toNat - 48, by omega, by rw [value, if_pos ⟨hlow, hhigh⟩], ?_⟩
    rw [hdigits (c.toNat - 48) (by omega), Nat.add_sub_cancel' hlow, Char.ofNat_toNat]
  · have hcode : c.toNat - 87 = 10 + (c.toNat - 97) := by omega
    refine ⟨c.toNat - 87, by omega, ?_, ?_⟩
    · rw [value, if_neg (by omega), if_pos ⟨hlow, hhigh⟩]
    · rw [hcode, hletters (c.toNat - 97) (by omega), Nat.add_sub_cancel' hlow, Char.ofNat_toNat]

/-- Digits in lower case, two for each byte, are read as the bytes they are written for. -/
theorem encode_decode {text : List Char} {n : Nat} (hlength : text.length = 2 * n)
    (hdigits : ∀ c ∈ text, (48 ≤ c.toNat ∧ c.toNat ≤ 57) ∨ (97 ≤ c.toNat ∧ c.toNat ≤ 102)) :
    ∃ bytes, decode text = some bytes ∧ encode bytes = text ∧ bytes.length = n := by
  induction text using decode.induct generalizing n with
  | case1 => exact ⟨[], rfl, rfl, by rw [List.length_nil] at hlength ⊢; omega⟩
  | case2 c =>
      rw [List.length_singleton] at hlength
      omega
  | case3 high low rest ih =>
      rw [List.length_cons, List.length_cons] at hlength
      rcases value_of_lower (hdigits high (by simp)) with ⟨a, ha, hhigh, hwriteHigh⟩
      rcases value_of_lower (hdigits low (by simp)) with ⟨b, hb, hlow, hwriteLow⟩
      rcases ih (n := n - 1) (by omega) (fun c hc => hdigits c (by simp [hc])) with
        ⟨bytes, hread, hwrite, hcount⟩
      have hbyte : (UInt8.ofNat (16 * a + b)).toNat = 16 * a + b := by
        rw [UInt8.toNat_ofNat']
        omega
      have hdiv : (16 * a + b) / 16 = a := by omega
      have hmod : (16 * a + b) % 16 = b := by omega
      refine ⟨UInt8.ofNat (16 * a + b) :: bytes, by simp [decode, hhigh, hlow, hread], ?_, ?_⟩
      · rw [encode, hbyte, hdiv, hmod, hwriteHigh, hwriteLow, hwrite]
      · rw [List.length_cons]
        omega

theorem ascii_ofAscii {text : List Char} (h : ∀ c ∈ text, c.toNat < 256) :
    ascii (ofAscii text) = text := by
  rw [ascii, ofAscii, List.map_map]
  refine (List.map_congr_left fun c hc => ?_).trans (List.map_id text)
  have hbyte : (UInt8.ofNat c.toNat).toNat = c.toNat := by
    have hsmall := h c hc
    rw [UInt8.toNat_ofNat']
    omega
  rw [Function.comp_apply, hbyte, Char.ofNat_toNat, id]

-- What is written is a digit for each half of a byte.
theorem mem_encode {bytes : List UInt8} {c : Char} (h : c ∈ encode bytes) :
    ∃ n < 16, Nat.digitChar n = c := by
  induction bytes with
  | nil => exact absurd h List.not_mem_nil
  | cons b bytes ih =>
      have hbyte := b.toNat_lt
      rcases List.mem_cons.1 h with rfl | h
      · exact ⟨b.toNat / 16, by omega, rfl⟩
      · rcases List.mem_cons.1 h with rfl | h
        · exact ⟨b.toNat % 16, by omega, rfl⟩
        · exact ih h

theorem digitChar_lt : ∀ n < 16, (Nat.digitChar n).toNat < 128 := by decide

/-- Digits are ASCII. -/
theorem ascii_encode (bytes : List UInt8) : ∀ c ∈ encode bytes, c.toNat < 128 := by
  intro c hc
  rcases mem_encode hc with ⟨n, hn, rfl⟩
  exact digitChar_lt n hn

@[simp] theorem ascii_ofAscii_encode (bytes : List UInt8) :
    ascii (ofAscii (encode bytes)) = encode bytes :=
  ascii_ofAscii fun c hc => Nat.lt_trans (ascii_encode bytes c hc) (by decide)

/-- An ASCII text has as many bytes as characters. -/
theorem utf8ByteSize_ofList {text : List Char} (h : ∀ c ∈ text, c.toNat < 128) :
    (String.ofList text).utf8ByteSize = text.length := by
  induction text with
  | nil => rfl
  | cons c text ih =>
      have hone : c.utf8Size = 1 := by
        have hsmall := h c List.mem_cons_self
        rw [Char.utf8Size_eq_one_iff, UInt32.le_iff_toNat_le]
        exact Nat.le_of_lt_succ hsmall
      rw [String.ofList_cons, String.utf8ByteSize_append, String.utf8ByteSize_singleton, hone,
        ih fun d hd => h d (List.mem_cons_of_mem c hd), List.length_cons, Nat.add_comm]

end Hex

end PocketSkynet
