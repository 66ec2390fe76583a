import Mathlib.Tactic.Ring
import PocketSkynet.Lib.Frame

/-!
# Recursive Length Prefixes

An item is a byte string or a list of items, and is written as its payload behind a header
that says which of the two it is and how long. There is one way to write an item: a byte below
128 is its own item, a length below 56 is part of the first byte, and a longer one is written
out without leading zeros. A decoder refuses everything else, so what it reads is canonical.

A number is the byte string of its digits to the base of 256, again without leading zeros.

## Main definitions

* `natOf`, `stripLeadingZeros`: Bytes as a number, and without the zeros in front.
* `Item`: What is encoded.
* `splitHeader`: The payload of the first item, and what follows it.
* `decode`: The item that some bytes are.
* `Item.uint?`, `Item.bytes?`: An item that is a number, or a byte string.

## Theorems

* `natOf_strip`, `beBytes_natOf`: Bytes of a fixed width and numbers stand for each other.
* `splitHeader_short`, `splitHeader_long`: A header of either form is taken off.
* `decode_list`: A list of byte strings is read item by item.
-/

namespace PocketSkynet

namespace Rlp

/-- The number some bytes stand for, the highest first. -/
def natOf (bs : List UInt8) : Nat := bs.foldl (fun n b => 256 * n + b.toNat) 0

/-- Bytes without the zeros in front. -/
def stripLeadingZeros (bs : List UInt8) : List UInt8 := bs.dropWhile fun b => b = 0

/-- What is encoded. -/
inductive Item where
  | bytes (bs : List UInt8)
  | list (items : List Item)

/-- The first bytes, if there are so many. -/
def cut (n : Nat) (bs : List UInt8) : Option (List UInt8 × List UInt8) :=
  if bs.length < n then none else some (bs.take n, bs.drop n)

/-- What stands behind a header with the length in its first byte. -/
def short (list : Bool) (n : Nat) (bs : List UInt8) : Option (Bool × List UInt8 × List UInt8) :=
  match cut n bs with
  | none => none
  | some (payload, rest) =>
      -- A byte below 128 is its own item, and has no other form.
      if list = false ∧ n = 1 ∧ payload.all fun b => b.toNat < 0x80 then none
      else some (list, payload, rest)

/-- What stands behind a header with a length of `k` bytes. -/
def long (list : Bool) (k : Nat) (bs : List UInt8) : Option (Bool × List UInt8 × List UInt8) :=
  match cut k bs with
  | none => none
  | some (digits, rest) =>
      if digits.head? = some 0 ∨ natOf digits < 56 then none
      else
        match cut (natOf digits) rest with
        | none => none
        | some (payload, rest) => some (list, payload, rest)

/-- Whether the first item is a list, its payload, and what follows it. -/
def splitHeader : List UInt8 → Option (Bool × List UInt8 × List UInt8)
  | [] => none
  | b :: rest =>
      if b.toNat < 0x80 then some (false, [b], rest)
      else if b.toNat < 0xb8 then short false (b.toNat - 0x80) rest
      else if b.toNat < 0xc0 then long false (b.toNat - 0xb7) rest
      else if b.toNat < 0xf8 then short true (b.toNat - 0xc0) rest
      else long true (b.toNat - 0xf7) rest

/-- The items that some bytes are, one after the other. -/
def decodeItems : Nat → List UInt8 → Option (List Item)
  | _, [] => some []
  | 0, _ :: _ => none
  | fuel + 1, b :: bs =>
      match splitHeader (b :: bs) with
      | none => none
      | some (list, payload, rest) => do
          let item ← if list then (decodeItems fuel payload).map .list else some (.bytes payload)
          let items ← decodeItems fuel rest
          return item :: items

/-- The item that some bytes are. Every item has a byte at least, so there are no more of them
    than bytes. -/
def decode (bs : List UInt8) : Option Item :=
  match decodeItems (bs.length + 1) bs with
  | some [item] => some item
  | _ => none

/-- An item that is a number. -/
def Item.uint? : Item → Option Nat
  | .bytes bs => if bs.head? = some 0 then none else some (natOf bs)
  | .list _ => none

/-- An item that is a byte string. -/
def Item.bytes? : Item → Option (List UInt8)
  | .bytes bs => some bs
  | .list _ => none

/-! ### Numbers -/

theorem natOf_append (a b : List UInt8) : natOf (a ++ b) = natOf a * 256 ^ b.length + natOf b := by
  have hacc : ∀ (b : List UInt8) (n : Nat), b.foldl (fun n b => 256 * n + b.toNat) n =
      n * 256 ^ b.length + natOf b := by
    intro b
    induction b with
    | nil => exact fun n => by simp [natOf]
    | cons x b ih =>
        intro n
        have hx : natOf (x :: b) = x.toNat * 256 ^ b.length + natOf b := by
          rw [natOf, List.foldl_cons, ih, Nat.mul_zero, Nat.zero_add]
        rw [List.foldl_cons, ih, hx, List.length_cons, Nat.pow_succ]
        ring
  rw [natOf, List.foldl_append, hacc]
  rfl

theorem natOf_cons (b : UInt8) (bs : List UInt8) :
    natOf (b :: bs) = b.toNat * 256 ^ bs.length + natOf bs := by
  have h := natOf_append [b] bs
  rwa [List.singleton_append, show natOf [b] = b.toNat by simp [natOf]] at h

theorem natOf_eq_zero_iff (bs : List UInt8) : natOf bs = 0 ↔ ∀ b ∈ bs, b = 0 := by
  induction bs with
  | nil => simp [natOf]
  | cons b bs ih =>
      have hpos : 0 < 256 ^ bs.length := Nat.pow_pos (by decide)
      rw [natOf_cons, Nat.add_eq_zero_iff, ih, List.forall_mem_cons, Nat.mul_eq_zero,
        or_iff_left hpos.ne', ← UInt8.toNat_inj, UInt8.toNat_zero]

theorem natOf_lt (bs : List UInt8) : natOf bs < 256 ^ bs.length := by
  induction bs with
  | nil => decide
  | cons b bs ih =>
      have hb : b.toNat ≤ 255 := Nat.le_of_lt_succ b.toNat_lt
      have hle := Nat.mul_le_mul_right (256 ^ bs.length) hb
      rw [natOf_cons, List.length_cons, Nat.pow_succ]
      omega

-- The bytes of a fixed width are the digits of the number.
theorem natOf_beBytes (k n : Nat) : natOf (beBytes k n) = n % 256 ^ k := by
  induction k with
  | zero => rw [Nat.pow_zero, Nat.mod_one]; rfl
  | succ k ih =>
      have hbyte : (UInt8.ofNat (n / 256 ^ k)).toNat = n / 256 ^ k % 256 := UInt8.toNat_ofNat'
      rw [beBytes, natOf_cons, ih, length_beBytes, hbyte, Nat.pow_succ, Nat.mod_mul]
      ring

/-- Bytes of a fixed width are known by their number. -/
theorem beBytes_natOf (bs : List UInt8) : beBytes bs.length (natOf bs) = bs := by
  induction bs with
  | nil => rfl
  | cons b bs ih =>
      have hlt := natOf_lt bs
      have hpos : 0 < 256 ^ bs.length := Nat.pow_pos (by decide)
      have hdiv : natOf (b :: bs) / 256 ^ bs.length = b.toNat := by
        rw [natOf_cons, Nat.mul_comm, Nat.mul_add_div hpos, Nat.div_eq_of_lt hlt, Nat.add_zero]
      rw [List.length_cons, beBytes, hdiv, UInt8.ofNat_toNat]
      refine congrArg (b :: ·) ?_
      have hsame : ∀ (k m : Nat), k ≤ bs.length →
          beBytes k (m * 256 ^ bs.length + natOf bs) = beBytes k (natOf bs) := by
        intro k m
        induction k with
        | zero => exact fun _ => rfl
        | succ k ihk =>
            intro hk
            have hsplit : 256 ^ bs.length = 256 ^ k * (256 * 256 ^ (bs.length - k - 1)) := by
              rw [← Nat.pow_succ', ← Nat.pow_add]
              congr 1
              omega
            rw [beBytes, beBytes, ihk (by omega)]
            refine congrArg (· :: _) (UInt8.toNat_inj.1 ?_)
            rw [UInt8.toNat_ofNat', UInt8.toNat_ofNat', hsplit, ← Nat.mul_assoc, Nat.mul_comm m,
              Nat.mul_assoc, Nat.mul_add_div (Nat.pow_pos (by decide)), ← Nat.mul_assoc m,
              Nat.mul_comm m, Nat.mul_assoc, Nat.mul_add_mod]
      rw [natOf_cons, hsame bs.length b.toNat le_rfl, ih]

-- Zeros in front do not count.
theorem natOf_strip (bs : List UInt8) : natOf (stripLeadingZeros bs) = natOf bs := by
  induction bs with
  | nil => rfl
  | cons b bs ih =>
      by_cases hb : b = 0
      · rw [natOf_cons, hb]
        simpa [stripLeadingZeros] using ih
      · rw [stripLeadingZeros, List.dropWhile_cons_of_neg (by simpa using hb)]

theorem head_strip (bs : List UInt8) : (stripLeadingZeros bs).head? ≠ some 0 := by
  intro h
  have hhead := List.head?_dropWhile_not (fun b : UInt8 => decide (b = 0)) bs
  rw [stripLeadingZeros] at h
  rw [h] at hhead
  simp at hhead

theorem length_strip_le (bs : List UInt8) : (stripLeadingZeros bs).length ≤ bs.length :=
  (List.dropWhile_sublist _).length_le

/-! ### Headers -/

/-- The first byte of a short header, without the length. -/
def base (list : Bool) : Nat := if list then 0xc0 else 0x80

theorem cut_append (payload rest : List UInt8) :
    cut payload.length (payload ++ rest) = some (payload, rest) := by
  rw [cut, if_neg (by rw [List.length_append]; omega), List.take_left, List.drop_left]

/-- A header with the length in its first byte is taken off. -/
theorem splitHeader_short {list : Bool} {payload : List UInt8} (rest : List UInt8)
    (hlength : payload.length ≤ 55)
    (hone : list = false → payload.length = 1 → ¬ payload.all fun b => b.toNat < 0x80) :
    splitHeader (UInt8.ofNat (base list + payload.length) :: (payload ++ rest)) =
      some (list, payload, rest) := by
  have hnot : ¬ (list = false ∧ payload.length = 1 ∧ payload.all fun b => b.toNat < 0x80) :=
    fun h => hone h.1 h.2.1 h.2.2
  cases list with
  | false =>
      have hbyte : (UInt8.ofNat (base false + payload.length)).toNat = 0x80 + payload.length := by
        rw [UInt8.toNat_ofNat', base]
        simp only [Bool.false_eq_true, if_false]
        omega
      simp only [splitHeader, hbyte]
      rw [if_neg (by omega), if_pos (by omega), Nat.add_sub_cancel_left, short, cut_append]
      exact if_neg hnot
  | true =>
      have hbyte : (UInt8.ofNat (base true + payload.length)).toNat = 0xc0 + payload.length := by
        rw [UInt8.toNat_ofNat', base]
        simp only [if_true]
        omega
      simp only [splitHeader, hbyte]
      rw [if_neg (by omega), if_neg (by omega), if_neg (by omega), if_pos (by omega),
        Nat.add_sub_cancel_left, short, cut_append]
      exact if_neg hnot

/-- A header with the length written out is taken off. -/
theorem splitHeader_long {list : Bool} {digits payload : List UInt8} (rest : List UInt8)
    (hhead : digits.head? ≠ some 0) (hvalue : natOf digits = payload.length)
    (hlength : 56 ≤ payload.length) (hdigits : digits.length ≤ 8) :
    splitHeader (UInt8.ofNat (base list + 55 + digits.length) :: (digits ++ (payload ++ rest))) =
      some (list, payload, rest) := by
  have hsome : 0 < digits.length := by
    cases digits with
    | nil =>
        have hzero : natOf [] = 0 := rfl
        omega
    | cons d digits => exact Nat.succ_pos _
  have hlong : long list digits.length (digits ++ (payload ++ rest)) =
      some (list, payload, rest) := by
    have hmin : ¬ (digits.head? = some 0 ∨ natOf digits < 56) := by
      rintro (hzero | hsmall)
      · exact hhead hzero
      · omega
    rw [long, cut_append]
    simp only [if_neg hmin]
    rw [hvalue, cut_append]
  cases list with
  | false =>
      have hbyte : (UInt8.ofNat (base false + 55 + digits.length)).toNat =
          0xb7 + digits.length := by
        rw [UInt8.toNat_ofNat', base]
        simp only [Bool.false_eq_true, if_false]
        omega
      simp only [splitHeader, hbyte]
      rw [if_neg (by omega), if_neg (by omega), if_pos (by omega), Nat.add_sub_cancel_left, hlong]
  | true =>
      have hbyte : (UInt8.ofNat (base true + 55 + digits.length)).toNat =
          0xf7 + digits.length := by
        rw [UInt8.toNat_ofNat', base]
        simp only [if_true]
        omega
      simp only [splitHeader, hbyte]
      rw [if_neg (by omega), if_neg (by omega), if_neg (by omega), if_neg (by omega),
        Nat.add_sub_cancel_left, hlong]

/-! ### Items -/

/-- An encoding of byte strings that the decoder takes apart again. -/
def Frames (encode : List UInt8 → List UInt8) (p : List UInt8) : Prop :=
  encode p ≠ [] ∧ ∀ rest, splitHeader (encode p ++ rest) = some (false, p, rest)

-- Byte strings that are written one after the other are read one after the other.
theorem decodeItems_frames {encode : List UInt8 → List UInt8} {ps : List (List UInt8)}
    (h : ∀ p ∈ ps, Frames encode p) {fuel : Nat} (hfuel : ps.length ≤ fuel) :
    decodeItems fuel (ps.flatMap encode) = some (ps.map .bytes) := by
  induction ps generalizing fuel with
  | nil => simp [decodeItems]
  | cons p ps ih =>
      have hp := h p List.mem_cons_self
      have hless : ps.length ≤ fuel - 1 := by
        rw [List.length_cons] at hfuel
        omega
      have hrest := ih (fun q hq => h q (List.mem_cons_of_mem p hq)) hless
      have hsplit := hp.2 (ps.flatMap encode)
      rw [List.flatMap_cons]
      cases hbytes : encode p ++ ps.flatMap encode with
      | nil => exact absurd (List.append_eq_nil_iff.1 hbytes).1 hp.1
      | cons b bs =>
          obtain ⟨m, rfl⟩ : ∃ m, fuel = m + 1 :=
            ⟨fuel - 1, by rw [List.length_cons] at hfuel; omega⟩
          rw [hbytes] at hsplit
          rw [Nat.add_sub_cancel] at hrest
          simp [decodeItems, hsplit, hrest]

theorem length_le_flatMap {encode : List UInt8 → List UInt8} {ps : List (List UInt8)}
    (h : ∀ p ∈ ps, Frames encode p) : ps.length ≤ (ps.flatMap encode).length := by
  induction ps with
  | nil => exact Nat.le_refl 0
  | cons p ps ih =>
      have hone := List.length_pos_iff.2 (h p List.mem_cons_self).1
      have hrest := ih fun q hq => h q (List.mem_cons_of_mem p hq)
      rw [List.flatMap_cons, List.length_append, List.length_cons]
      omega

/-- A list of byte strings is read item by item. -/
theorem decode_list {encode : List UInt8 → List UInt8} {ps : List (List UInt8)}
    (h : ∀ p ∈ ps, Frames encode p) {bs : List UInt8}
    (hsplit : splitHeader bs = some (true, ps.flatMap encode, []))
    (hlength : (ps.flatMap encode).length ≤ bs.length) :
    decode bs = some (.list (ps.map .bytes)) := by
  cases bs with
  | nil => cases hsplit
  | cons b bs =>
      have henough : ps.length ≤ (b :: bs).length :=
        Nat.le_trans (length_le_flatMap h) hlength
      have hitems := decodeItems_frames h henough
      rw [List.length_cons] at hitems
      have hnone : decodeItems (bs.length + 1) [] = some [] := rfl
      rw [decode, decodeItems, hsplit]
      simp [hitems, hnone]

end Rlp

end PocketSkynet
