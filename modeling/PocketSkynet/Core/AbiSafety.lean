import PocketSkynet.Core.Abi

/-!
# Hostile Answers

A node may answer a contract call with anything. The decoders refuse most of what is no answer:
text that is not hex, that is not of whole words, and numbers that are too large.

The place and the length of a block are numbers of the answer, and are cut to the size of the
machine before they are added and compared. What is cut looks like another number. A sum that
does not fit ends in a panic. A text is also read when its place is inside a word, and its length
is then taken from the beginning of that word. The room for a list is made before its items are
looked for.

## Main definitions

* `decodeUint`, `decodeAddress`: The decoders of single words.
* `readHead`: How the other two find a block.
* `StringSafe`, `ArraySafe`: What is wanted of an answer, whoever wrote it.
* `StringSound`, `ArraySound`: The numbers in an answer for which that is so.

## Theorems

* `readHead_eq`: What is found, by the numbers of the answer.
* `stringSafe_iff`, `arraySafe_iff`: The decoders are safe for these numbers only.
* `decoders_safe_iff`: All decoders, for every answer.
-/

namespace PocketSkynet

open Rlp

section Decode

-- The width of the machine.
variable (usizeBits : Nat)

/-- A word of an answer, as a number. -/
def decodeUint (output : String) (word : Nat) : Except AbiFailure (BitVec 128) := do
  wordUint usizeBits (← decodeWords output) word

/-- The address in the first word of an answer. -/
def decodeAddress (output : String) : Except AbiFailure String := do
  let bytes ← decodeWords output
  if bytes.length < 32 then .error (.refused .invalidQuantity)
  else .ok ("0x" ++ hexEncode ((bytes.take 32).drop 12))

/-- What is found before a value is read: the place of its length, the place of its data, and how
    much of it there is to be. -/
structure Block where
  lengthAt : Nat
  start : Nat
  count : Nat
deriving DecidableEq, Repr

/-- How a block is found. Only for a list its place has to be that of a word. -/
def readHead (aligned : Bool) (bytes : List UInt8) : Except AbiFailure Block := do
  let offset := asUsize usizeBits (← wordUint usizeBits bytes 0)
  if aligned && offset % 32 != 0 then .error (.refused .invalidQuantity)
  else
    let start ← checked usizeBits (offset + 32)
    if bytes.length < start then .error (.refused .invalidQuantity)
    else
      let count := asUsize usizeBits (← wordUint usizeBits bytes (offset / 32))
      .ok ⟨offset / 32 * 32, start, count⟩

/-- The block of a text. -/
def stringBlock (bytes : List UInt8) : Except AbiFailure Block := do
  let block ← readHead usizeBits false bytes
  let finish ← checked usizeBits (block.start + block.count)
  if bytes.length < finish then .error (.refused .invalidQuantity) else .ok block

/-- The block of a list. Room for all of it is asked for at once. -/
def arrayBlock (bytes : List UInt8) : Except AbiFailure Block := readHead usizeBits true bytes

/-! ### What is wanted -/

/-- A word is in the answer and not cut. -/
structure UintSafe (output : String) (word : Nat) : Prop where
  returns : decodeUint usizeBits output word ≠ .error .panicked
  inside : ∀ v, decodeUint usizeBits output word = .ok v → ∃ bytes, decodeWords output = .ok bytes ∧
    32 * word + 32 ≤ bytes.length ∧ v.toNat = numberAt bytes (32 * word)

/-- An address is in the answer. -/
structure AddressSafe (output : String) : Prop where
  returns : decodeAddress output ≠ .error .panicked
  inside : ∀ a, decodeAddress output = .ok a → ∃ bytes, decodeWords output = .ok bytes ∧
    32 ≤ bytes.length ∧ a = "0x" ++ hexEncode ((wordAt bytes 0).drop 12)

/-- A block is where the head says, with the length that is written there, and the answer holds
    all of its items. -/
structure Inside (size : Nat) (bytes : List UInt8) (block : Block) : Prop where
  named : block.lengthAt = numberAt bytes 0
  lengthIn : block.lengthAt + 32 ≤ bytes.length
  counted : block.count = numberAt bytes block.lengthAt
  behind : block.start = block.lengthAt + 32
  dataIn : block.start + size * block.count ≤ bytes.length

/-- A text is read from a block in the answer, or none is. -/
structure StringSafe (output : String) : Prop where
  returns : decodeString usizeBits output ≠ .error .panicked
  inside : ∀ s, decodeString usizeBits output = .ok s → ∃ bytes block,
    decodeWords output = .ok bytes ∧ stringBlock usizeBits bytes = .ok block ∧
      Inside 1 bytes block ∧ s = fromUtf8Lossy ((bytes.drop block.start).take block.count)

/-- A list is read from a block in the answer, or none is, and there is never room made for more
    items than the answer has words. -/
structure ArraySafe (output : String) : Prop where
  returns : decodeUintArray usizeBits output ≠ .error .panicked
  reserves : ∀ bytes block, decodeWords output = .ok bytes →
    arrayBlock usizeBits bytes = .ok block → 32 * block.count ≤ bytes.length
  inside : ∀ values, decodeUintArray usizeBits output = .ok values → ∃ bytes block,
    decodeWords output = .ok bytes ∧ arrayBlock usizeBits bytes = .ok block ∧
      Inside 32 bytes block ∧
      values.map BitVec.toNat =
        (List.range block.count).map fun i => numberAt bytes (block.start + 32 * i)

/-! ### The numbers of an answer -/

/-- The place in the head, cut to a size. -/
def offsetOf (bytes : List UInt8) : Nat := numberAt bytes 0 % 2 ^ usizeBits

/-- Where the length is taken from. -/
def lengthPlace (bytes : List UInt8) : Nat := offsetOf usizeBits bytes / 32 * 32

/-- The length, cut to a size. -/
def countOf (bytes : List UInt8) : Nat :=
  numberAt bytes (lengthPlace usizeBits bytes) % 2 ^ usizeBits

/-- The place in the head is not refused for what it is. -/
def HasOffset (aligned : Bool) (bytes : List UInt8) : Prop :=
  numberAt bytes 0 < 2 ^ 128 ∧ (aligned = true → offsetOf usizeBits bytes % 32 = 0)

/-- A length is found and not refused. -/
def HasCount (aligned : Bool) (bytes : List UInt8) : Prop :=
  HasOffset usizeBits aligned bytes ∧ offsetOf usizeBits bytes + 32 ≤ bytes.length ∧
    numberAt bytes (lengthPlace usizeBits bytes) < 2 ^ 128

/-- The sums of a text fit, and what lies inside is not cut and begins with a word. -/
structure StringSound (bytes : List UInt8) : Prop where
  place : HasOffset usizeBits false bytes → offsetOf usizeBits bytes + 32 < 2 ^ usizeBits
  finish : HasCount usizeBits false bytes →
    offsetOf usizeBits bytes + 32 + countOf usizeBits bytes < 2 ^ usizeBits
  whole : HasCount usizeBits false bytes →
    offsetOf usizeBits bytes + 32 + countOf usizeBits bytes ≤ bytes.length →
    numberAt bytes 0 % 32 = 0 ∧ numberAt bytes 0 < 2 ^ usizeBits ∧
      numberAt bytes (lengthPlace usizeBits bytes) < 2 ^ usizeBits

/-- The sum of a list fits, its length is not more than there are words, and what lies inside is
    not cut. -/
structure ArraySound (bytes : List UInt8) : Prop where
  place : HasOffset usizeBits true bytes → offsetOf usizeBits bytes + 32 < 2 ^ usizeBits
  room : HasCount usizeBits true bytes → 32 * countOf usizeBits bytes ≤ bytes.length
  whole : HasCount usizeBits true bytes →
    offsetOf usizeBits bytes + 32 + 32 * countOf usizeBits bytes ≤ bytes.length →
    (∀ i < countOf usizeBits bytes,
      numberAt bytes (offsetOf usizeBits bytes + 32 + 32 * i) < 2 ^ 128) →
    numberAt bytes 0 < 2 ^ usizeBits ∧
      numberAt bytes (lengthPlace usizeBits bytes) < 2 ^ usizeBits

end Decode

/-! ### One step after the other -/

section Steps

variable {α β : Type}

theorem ok_bind (a : α) (f : α → Except AbiFailure β) : (Except.ok a >>= f) = f a := rfl

theorem error_bind (e : AbiFailure) (f : α → Except AbiFailure β) :
    ((Except.error e : Except AbiFailure α) >>= f) = .error e := rfl

-- What is refused is not continued.
theorem refuse_bind (c : Prop) [Decidable c] (e : AbiFailure) (x : Except AbiFailure α)
    (f : α → Except AbiFailure β) :
    ((if c then .error e else x) >>= f) = if c then .error e else x >>= f := by
  by_cases h : c
  · rw [if_pos h, if_pos h, error_bind]
  · rw [if_neg h, if_neg h]

end Steps

/-- A text is read from its block. -/
theorem decodeString_eq (usizeBits : Nat) (output : String) : decodeString usizeBits output = (do
    let bytes ← decodeWords output
    let block ← stringBlock usizeBits bytes
    .ok (fromUtf8Lossy ((bytes.drop block.start).take block.count))) := by
  simp only [decodeString, stringBlock, readHead, Bool.false_and, Bool.false_eq_true, if_false,
    bind_assoc, refuse_bind, ok_bind]

/-- The items of a list are read from its block. -/
theorem decodeUintArray_eq (usizeBits : Nat) (output : String) :
    decodeUintArray usizeBits output = (do
      let bytes ← decodeWords output
      let block ← arrayBlock usizeBits bytes
      if 2 ^ usizeBits ≤ 2 * (16 * block.count) then .error .panicked
      else wordUints usizeBits bytes (block.lengthAt / 32 + 1) block.count) := by
  simp only [decodeUintArray, arrayBlock, readHead, Bool.true_and, bne_iff_ne, bind_assoc,
    refuse_bind, ok_bind, Nat.mul_div_cancel _ (show 0 < 32 by decide)]

/-! ### Words -/

/-- A wide number is one that is not in the low half of its word. -/
theorem wide_iff {w : List UInt8} (h : w.length = 32) :
    (w.take 16).any (· != 0) = true ↔ 2 ^ 128 ≤ natOf w := by
  have hsplit : natOf w = natOf (w.take 16) * 256 ^ 16 + natOf (w.drop 16) := by
    have happ := natOf_append (w.take 16) (w.drop 16)
    rwa [List.take_append_drop, List.length_drop, h] at happ
  have hlow := natOf_lt (w.drop 16)
  rw [List.length_drop, h] at hlow
  have hzero := natOf_eq_zero_iff (w.take 16)
  rw [List.any_eq_true]
  constructor
  · rintro ⟨b, hb, hne⟩
    have hpos : natOf (w.take 16) ≠ 0 := fun h0 => by simp [hzero.1 h0 b hb] at hne
    omega
  · intro hwide
    by_contra hnone
    have hall : natOf (w.take 16) = 0 := by
      refine hzero.2 fun b hb => ?_
      by_contra hne
      exact hnone ⟨b, hb, by simpa using hne⟩
    omega

theorem natOf_low {w : List UInt8} (h : w.length = 32) (hlow : natOf w < 2 ^ 128) :
    natOf (w.drop 16) = natOf w := by
  have happ := natOf_append (w.take 16) (w.drop 16)
  rw [List.take_append_drop, List.length_drop, h] at happ
  rcases Nat.eq_zero_or_pos (natOf (w.take 16)) with hzero | hpos
  · rw [happ, hzero, Nat.zero_mul, Nat.zero_add]
  · omega

section Spec

variable {usizeBits : Nat}

/-- A word is refused if it is not there or if its number is too large. -/
theorem wordUint_eq {bytes : List UInt8} {word : Nat} (hword : word * 32 + 32 < 2 ^ usizeBits) :
    wordUint usizeBits bytes word =
      if bytes.length < word * 32 + 32 then .error (.refused .invalidQuantity)
      else if numberAt bytes (word * 32) < 2 ^ 128 then
        .ok (BitVec.ofNat 128 (numberAt bytes (word * 32)))
      else .error (.refused .overflow) := by
  simp only [wordUint, checked_of_lt hword,
    checked_of_lt (Nat.lt_of_le_of_lt (Nat.le_add_right _ 32) hword), ok_bind]
  by_cases hshort : bytes.length < word * 32 + 32
  · rw [if_pos hshort, if_pos hshort]
  · rw [if_neg hshort, if_neg hshort]
    have hlength : (wordAt bytes (word * 32)).length = 32 := by
      rw [wordAt, List.length_take, List.length_drop]
      omega
    rw [show (bytes.drop (word * 32)).take 32 = wordAt bytes (word * 32) from rfl]
    by_cases hwide : 2 ^ 128 ≤ numberAt bytes (word * 32)
    · rw [if_pos ((wide_iff hlength).2 hwide), if_neg (by omega)]
    · rw [if_neg (fun h => hwide ((wide_iff hlength).1 h)), if_pos (by omega),
        natOf_low hlength (Nat.lt_of_not_le hwide), numberAt]

-- A number that is not refused is only cut to the size of the machine.
theorem asUsize_ofNat {n : Nat} (h : n < 2 ^ 128) :
    asUsize usizeBits (BitVec.ofNat 128 n) = n % 2 ^ usizeBits := by
  rw [asUsize, BitVec.toNat_ofNat, Nat.mod_eq_of_lt h]

/-! ### Finding a block -/

/-- What is returned instead of a value, and is no panic. -/
def Refused {α : Type} (x : Except AbiFailure α) : Prop := ∃ e, x = .error (.refused e)

/-- The bytes of an answer: a word at least, and not more than half of what fits a size. -/
structure Payload (usizeBits : Nat) (bytes : List UInt8) : Prop where
  some : 32 ≤ bytes.length
  fits : 2 * bytes.length < 2 ^ usizeBits

/-- The block that is found. -/
def headBlock (usizeBits : Nat) (bytes : List UInt8) : Block where
  lengthAt := lengthPlace usizeBits bytes
  start := offsetOf usizeBits bytes + 32
  count := countOf usizeBits bytes

@[simp] theorem headBlock_lengthAt (usizeBits : Nat) (bytes : List UInt8) :
    (headBlock usizeBits bytes).lengthAt = lengthPlace usizeBits bytes := rfl

@[simp] theorem headBlock_count (usizeBits : Nat) (bytes : List UInt8) :
    (headBlock usizeBits bytes).count = countOf usizeBits bytes := rfl

variable {bytes : List UInt8} (payload : Payload usizeBits bytes)
include payload

/-- What is found, by the numbers of the answer. -/
theorem readHead_eq (aligned : Bool) : readHead usizeBits aligned bytes =
    if numberAt bytes 0 < 2 ^ 128 then
      if aligned && offsetOf usizeBits bytes % 32 != 0 then .error (.refused .invalidQuantity)
      else if offsetOf usizeBits bytes + 32 < 2 ^ usizeBits then
        if bytes.length < offsetOf usizeBits bytes + 32 then .error (.refused .invalidQuantity)
        else if numberAt bytes (lengthPlace usizeBits bytes) < 2 ^ 128 then
          .ok (headBlock usizeBits bytes)
        else .error (.refused .overflow)
      else .error .panicked
    else .error (.refused .overflow) := by
  have hsome := payload.some
  have hfits := payload.fits
  rw [readHead, wordUint_eq (by omega), Nat.zero_mul, Nat.zero_add, if_neg (by omega)]
  by_cases hnumber : numberAt bytes 0 < 2 ^ 128
  · rw [if_pos hnumber, if_pos hnumber, ok_bind, asUsize_ofNat hnumber,
      show numberAt bytes 0 % 2 ^ usizeBits = offsetOf usizeBits bytes from rfl]
    refine if_congr Iff.rfl rfl ?_
    by_cases hplace : offsetOf usizeBits bytes + 32 < 2 ^ usizeBits
    · rw [if_pos hplace, checked_of_lt hplace, ok_bind]
      refine if_ctx_congr Iff.rfl (fun _ => rfl) fun hlong => ?_
      have hle : lengthPlace usizeBits bytes ≤ offsetOf usizeBits bytes := Nat.div_mul_le_self _ 32
      rw [wordUint_eq (show offsetOf usizeBits bytes / 32 * 32 + 32 < _ from by
          rw [lengthPlace] at hle; omega),
        show offsetOf usizeBits bytes / 32 * 32 = lengthPlace usizeBits bytes from rfl,
        if_neg (by omega)]
      by_cases hcount : numberAt bytes (lengthPlace usizeBits bytes) < 2 ^ 128
      · rw [if_pos hcount, if_pos hcount, ok_bind, asUsize_ofNat hcount]
        rfl
      · rw [if_neg hcount, if_neg hcount, error_bind]
    · rw [if_neg hplace, checked, if_neg hplace, error_bind]
  · rw [if_neg hnumber, if_neg hnumber, error_bind]

-- The four ways this goes.
theorem readHead_cases (aligned : Bool) :
    (¬ HasOffset usizeBits aligned bytes ∧ Refused (readHead usizeBits aligned bytes)) ∨
    (HasOffset usizeBits aligned bytes ∧ 2 ^ usizeBits ≤ offsetOf usizeBits bytes + 32 ∧
      readHead usizeBits aligned bytes = .error .panicked) ∨
    (¬ HasCount usizeBits aligned bytes ∧ offsetOf usizeBits bytes + 32 < 2 ^ usizeBits ∧
      Refused (readHead usizeBits aligned bytes)) ∨
    (HasCount usizeBits aligned bytes ∧ offsetOf usizeBits bytes + 32 < 2 ^ usizeBits ∧
      readHead usizeBits aligned bytes = .ok (headBlock usizeBits bytes)) := by
  rw [readHead_eq payload]
  by_cases hnumber : numberAt bytes 0 < 2 ^ 128
  · rw [if_pos hnumber]
    by_cases hodd : (aligned && offsetOf usizeBits bytes % 32 != 0) = true
    · rw [if_pos hodd]
      simp only [Bool.and_eq_true, bne_iff_ne] at hodd
      exact .inl ⟨fun h => hodd.2 (h.2 hodd.1), _, rfl⟩
    · rw [if_neg hodd]
      simp only [Bool.and_eq_true, bne_iff_ne, not_and, not_not] at hodd
      have hoffset : HasOffset usizeBits aligned bytes := ⟨hnumber, hodd⟩
      by_cases hplace : offsetOf usizeBits bytes + 32 < 2 ^ usizeBits
      · rw [if_pos hplace]
        by_cases hshort : bytes.length < offsetOf usizeBits bytes + 32
        · rw [if_pos hshort]
          exact .inr (.inr (.inl ⟨fun h => absurd h.2.1 (by omega), hplace, _, rfl⟩))
        · rw [if_neg hshort]
          by_cases hcount : numberAt bytes (lengthPlace usizeBits bytes) < 2 ^ 128
          · rw [if_pos hcount]
            exact .inr (.inr (.inr ⟨⟨hoffset, by omega, hcount⟩, hplace, rfl⟩))
          · rw [if_neg hcount]
            exact .inr (.inr (.inl ⟨fun h => hcount h.2.2, hplace, _, rfl⟩))
      · rw [if_neg hplace]
        exact .inr (.inl ⟨hoffset, by omega, rfl⟩)
  · rw [if_neg hnumber]
    exact .inl ⟨fun h => hnumber h.1, _, rfl⟩

omit payload in
/-- A block that is found inside is the one that is named if nothing was cut. -/
theorem inside_iff {size : Nat}
    (hdata : offsetOf usizeBits bytes + 32 + size * countOf usizeBits bytes ≤ bytes.length) :
    Inside size bytes (headBlock usizeBits bytes) ↔
      numberAt bytes 0 % 32 = 0 ∧ numberAt bytes 0 < 2 ^ usizeBits ∧
        numberAt bytes (lengthPlace usizeBits bytes) < 2 ^ usizeBits := by
  have hpos : 0 < 2 ^ usizeBits := Nat.two_pow_pos usizeBits
  constructor
  · intro h
    have hnamed : lengthPlace usizeBits bytes = numberAt bytes 0 := h.named
    have hbehind : offsetOf usizeBits bytes + 32 = lengthPlace usizeBits bytes + 32 := h.behind
    have hcounted : countOf usizeBits bytes = numberAt bytes (lengthPlace usizeBits bytes) :=
      h.counted
    refine ⟨?_, ?_, ?_⟩
    · rw [← hnamed, lengthPlace]
      omega
    · have hlt : offsetOf usizeBits bytes < 2 ^ usizeBits := Nat.mod_lt _ hpos
      omega
    · have hlt : countOf usizeBits bytes < 2 ^ usizeBits := Nat.mod_lt _ hpos
      omega
  · rintro ⟨haligned, hoffset, hcount⟩
    have hplace : offsetOf usizeBits bytes = numberAt bytes 0 := Nat.mod_eq_of_lt hoffset
    have hlength : lengthPlace usizeBits bytes = numberAt bytes 0 := by
      rw [lengthPlace, hplace]
      omega
    exact {
      named := hlength
      lengthIn := by
        have hle : lengthPlace usizeBits bytes + 32 ≤ bytes.length := by omega
        exact hle
      counted := Nat.mod_eq_of_lt hcount
      behind := by rw [headBlock, hlength, hplace]
      dataIn := hdata }

/-! ### Texts -/

section Text

variable {output : String} (hwords : decodeWords output = .ok bytes)
include hwords

omit payload in
theorem stringSafe_of_refused (h : Refused (stringBlock usizeBits bytes)) :
    StringSafe usizeBits output := by
  rcases h with ⟨e, he⟩
  have hrun : decodeString usizeBits output = .error (.refused e) := by
    rw [decodeString_eq, hwords, ok_bind, he, error_bind]
  exact {
    returns := by simp [hrun]
    inside := fun s hs => by simp [hrun] at hs }

omit payload in
theorem not_stringSafe_of_panicked (h : stringBlock usizeBits bytes = .error .panicked) :
    ¬ StringSafe usizeBits output := by
  intro hsafe
  exact hsafe.returns (by rw [decodeString_eq, hwords, ok_bind, h, error_bind])

omit payload in
theorem stringSafe_of_block {block : Block} (h : stringBlock usizeBits bytes = .ok block) :
    StringSafe usizeBits output ↔ Inside 1 bytes block := by
  have hrun : decodeString usizeBits output =
      .ok (fromUtf8Lossy ((bytes.drop block.start).take block.count)) := by
    rw [decodeString_eq, hwords, ok_bind, h, ok_bind]
  constructor
  · intro hsafe
    rcases hsafe.inside _ hrun with ⟨bytes', block', hbytes, hblock, hinside, -⟩
    rw [hwords, Except.ok.injEq] at hbytes
    subst hbytes
    rw [h, Except.ok.injEq] at hblock
    rwa [hblock]
  · intro hinside
    exact {
      returns := by simp [hrun]
      inside := fun s hs => by
        rw [hrun, Except.ok.injEq] at hs
        exact ⟨bytes, block, hwords, h, hinside, hs.symm⟩ }

/-- A text is decoded safely for these numbers only. -/
theorem stringSafe_iff : StringSafe usizeBits output ↔ StringSound usizeBits bytes := by
  rcases readHead_cases payload false with
    ⟨hno, e, hhead⟩ | ⟨hoffset, hplace, hhead⟩ | ⟨hno, hplace, e, hhead⟩ | ⟨hcount, hplace, hhead⟩
  · refine iff_of_true (stringSafe_of_refused hwords ⟨e, ?_⟩) ?_
    · rw [stringBlock, hhead, error_bind]
    · exact ⟨fun h => absurd h hno, fun h => absurd h.1 hno, fun h => absurd h.1 hno⟩
  · refine iff_of_false (not_stringSafe_of_panicked hwords ?_) ?_
    · rw [stringBlock, hhead, error_bind]
    · exact fun h => absurd (h.place hoffset) (by omega)
  · refine iff_of_true (stringSafe_of_refused hwords ⟨e, ?_⟩) ?_
    · rw [stringBlock, hhead, error_bind]
    · exact ⟨fun _ => hplace, fun h => absurd h hno, fun h => absurd h hno⟩
  · have hblock : stringBlock usizeBits bytes = (do
        let finish ← checked usizeBits (offsetOf usizeBits bytes + 32 + countOf usizeBits bytes)
        if bytes.length < finish then .error (.refused .invalidQuantity)
        else .ok (headBlock usizeBits bytes)) := by
      rw [stringBlock, hhead, ok_bind]
      rfl
    by_cases hsum : offsetOf usizeBits bytes + 32 + countOf usizeBits bytes < 2 ^ usizeBits
    · rw [checked_of_lt hsum, ok_bind] at hblock
      by_cases hend : bytes.length < offsetOf usizeBits bytes + 32 + countOf usizeBits bytes
      · rw [if_pos hend] at hblock
        refine iff_of_true (stringSafe_of_refused hwords ⟨_, hblock⟩) ?_
        exact ⟨fun _ => hplace, fun _ => hsum, fun _ hle => absurd hle (by omega)⟩
      · rw [if_neg hend] at hblock
        have hdata : offsetOf usizeBits bytes + 32 + 1 * countOf usizeBits bytes ≤
            bytes.length := by omega
        rw [stringSafe_of_block hwords hblock, inside_iff hdata]
        constructor
        · exact fun h => ⟨fun _ => hplace, fun _ => hsum, fun _ _ => h⟩
        · exact fun h => h.whole hcount (by omega)
    · rw [checked, if_neg hsum, error_bind] at hblock
      exact iff_of_false (not_stringSafe_of_panicked hwords hblock)
        fun h => hsum (h.finish hcount)

end Text

/-! ### Lists -/

/-- The items are read if all words are there and none is too large. -/
theorem wordUints_cases {word n : Nat} (hword : word * 32 ≤ bytes.length) :
    (word * 32 + 32 * n ≤ bytes.length ∧
      (∀ i < n, numberAt bytes (word * 32 + 32 * i) < 2 ^ 128) ∧
      ∃ values, wordUints usizeBits bytes word n = .ok values ∧ values.map BitVec.toNat =
        (List.range n).map fun i => numberAt bytes (word * 32 + 32 * i)) ∨
    (¬ (word * 32 + 32 * n ≤ bytes.length ∧
      ∀ i < n, numberAt bytes (word * 32 + 32 * i) < 2 ^ 128) ∧
      Refused (wordUints usizeBits bytes word n)) := by
  have hsome := payload.some
  have hfits := payload.fits
  induction n generalizing word with
  | zero => exact .inl ⟨by omega, fun i hi => absurd hi (by omega), [], rfl, rfl⟩
  | succ n ih =>
      rw [wordUints, wordUint_eq (by omega)]
      by_cases hshort : bytes.length < word * 32 + 32
      · rw [if_pos hshort, error_bind]
        exact .inr ⟨fun h => absurd h.1 (by omega), _, rfl⟩
      · rw [if_neg hshort]
        by_cases hwide : numberAt bytes (word * 32) < 2 ^ 128
        · rw [if_pos hwide, ok_bind]
          have hnext : ∀ i, (word + 1) * 32 + 32 * i = word * 32 + 32 * (i + 1) := by
            intro i
            omega
          rcases @ih (word + 1) (by omega) with
            ⟨hin, hall, values, hrun, hvalues⟩ | ⟨hnot, e, hrun⟩
          · refine .inl ⟨by omega, ?_,
              BitVec.ofNat 128 (numberAt bytes (word * 32)) :: values, ?_, ?_⟩
            · intro i hi
              cases i with
              | zero => exact hwide
              | succ i =>
                  rw [← hnext]
                  exact hall i (by omega)
            · rw [hrun, ok_bind]
              rfl
            · rw [List.map_cons, hvalues, List.range_succ_eq_map, List.map_cons, List.map_map,
                BitVec.toNat_ofNat, Nat.mod_eq_of_lt hwide]
              simp only [hnext, Function.comp_def, Nat.mul_zero, Nat.add_zero, Nat.succ_eq_add_one]
          · refine .inr ⟨?_, e, by rw [hrun, error_bind]⟩
            rintro ⟨hin, hall⟩
            refine hnot ⟨by omega, fun i hi => ?_⟩
            rw [hnext]
            exact hall (i + 1) (by omega)
        · rw [if_neg hwide, error_bind]
          exact .inr ⟨fun h => hwide (h.2 0 (by omega)), _, rfl⟩

section Items

variable {output : String} (hwords : decodeWords output = .ok bytes)
include hwords

omit payload in
theorem arraySafe_of_refused (h : Refused (arrayBlock usizeBits bytes)) :
    ArraySafe usizeBits output := by
  rcases h with ⟨e, he⟩
  have hrun : decodeUintArray usizeBits output = .error (.refused e) := by
    rw [decodeUintArray_eq, hwords, ok_bind, he, error_bind]
  exact {
    returns := by simp [hrun]
    reserves := fun bytes' block hbytes hblock => by
      rw [hwords, Except.ok.injEq] at hbytes
      subst hbytes
      simp [he] at hblock
    inside := fun values hvalues => by simp [hrun] at hvalues }

/-- Once a block is found, and no more of it than there are words, its items are read or one of
    them is refused. -/
theorem decodeUintArray_cases (hcount : HasCount usizeBits true bytes)
    (hfound : arrayBlock usizeBits bytes = .ok (headBlock usizeBits bytes))
    (hroom : 32 * countOf usizeBits bytes ≤ bytes.length) :
    (offsetOf usizeBits bytes + 32 + 32 * countOf usizeBits bytes ≤ bytes.length ∧
      (∀ i < countOf usizeBits bytes,
        numberAt bytes (offsetOf usizeBits bytes + 32 + 32 * i) < 2 ^ 128) ∧
      ∃ values, decodeUintArray usizeBits output = .ok values ∧ values.map BitVec.toNat =
        (List.range (countOf usizeBits bytes)).map fun i =>
          numberAt bytes (offsetOf usizeBits bytes + 32 + 32 * i)) ∨
    (¬ (offsetOf usizeBits bytes + 32 + 32 * countOf usizeBits bytes ≤ bytes.length ∧
      ∀ i < countOf usizeBits bytes,
        numberAt bytes (offsetOf usizeBits bytes + 32 + 32 * i) < 2 ^ 128) ∧
      Refused (decodeUintArray usizeBits output)) := by
  have hfits := payload.fits
  have hle : offsetOf usizeBits bytes + 32 ≤ bytes.length := hcount.2.1
  have haligned : offsetOf usizeBits bytes % 32 = 0 := hcount.1.2 rfl
  have hfirst : (lengthPlace usizeBits bytes / 32 + 1) * 32 = offsetOf usizeBits bytes + 32 := by
    rw [lengthPlace]
    omega
  have hasked : ¬ 2 ^ usizeBits ≤ 2 * (16 * countOf usizeBits bytes) := by omega
  have hrun : decodeUintArray usizeBits output = wordUints usizeBits bytes
      (lengthPlace usizeBits bytes / 32 + 1) (countOf usizeBits bytes) := by
    rw [decodeUintArray_eq, hwords, ok_bind, hfound, ok_bind, headBlock_count, if_neg hasked,
      headBlock_lengthAt]
  have hitems := wordUints_cases payload (n := countOf usizeBits bytes) (hfirst.trans_le hle)
  rwa [← hrun, hfirst] at hitems

omit payload in
theorem reserves_of_found (hfound : arrayBlock usizeBits bytes = .ok (headBlock usizeBits bytes))
    (hroom : 32 * countOf usizeBits bytes ≤ bytes.length) :
    ∀ bytes' block, decodeWords output = .ok bytes' → arrayBlock usizeBits bytes' = .ok block →
      32 * block.count ≤ bytes'.length := by
  intro bytes' block hbytes hblock
  rw [hwords, Except.ok.injEq] at hbytes
  subst hbytes
  rw [hfound, Except.ok.injEq] at hblock
  rw [← hblock]
  exact hroom

/-- A list is decoded safely for these numbers only. -/
theorem arraySafe_iff : ArraySafe usizeBits output ↔ ArraySound usizeBits bytes := by
  rcases readHead_cases payload true with
    ⟨hno, hhead⟩ | ⟨hoffset, hplace, hhead⟩ | ⟨hno, hplace, hhead⟩ | ⟨hcount, hplace, hfound⟩
  · refine iff_of_true (arraySafe_of_refused hwords hhead) ?_
    exact ⟨fun h => absurd h hno, fun h => absurd h.1 hno, fun h => absurd h.1 hno⟩
  · refine iff_of_false (fun hsafe => hsafe.returns ?_) fun h => absurd (h.place hoffset) (by omega)
    rw [decodeUintArray_eq, hwords, ok_bind, arrayBlock, hhead, error_bind]
  · refine iff_of_true (arraySafe_of_refused hwords hhead) ?_
    exact ⟨fun _ => hplace, fun h => absurd h hno, fun h => absurd h hno⟩
  · by_cases hroom : 32 * countOf usizeBits bytes ≤ bytes.length
    · have hreserves := reserves_of_found hwords hfound hroom
      rcases decodeUintArray_cases payload hwords hcount hfound hroom with
        ⟨hdata, hall, values, hrun, hvalues⟩ | ⟨hnot, e, hrun⟩
      · -- What is read is what is meant if nothing was cut.
        have hnumbers : numberAt bytes 0 < 2 ^ usizeBits ∧
            numberAt bytes (lengthPlace usizeBits bytes) < 2 ^ usizeBits ↔
              Inside 32 bytes (headBlock usizeBits bytes) := by
          rw [inside_iff hdata]
          refine ⟨fun h => ⟨?_, h⟩, And.right⟩
          have haligned : offsetOf usizeBits bytes % 32 = 0 := hcount.1.2 rfl
          rwa [offsetOf, Nat.mod_eq_of_lt h.1] at haligned
        constructor
        · intro hsafe
          rcases hsafe.inside _ hrun with ⟨bytes', block, hbytes, hblock, hinside, -⟩
          rw [hwords, Except.ok.injEq] at hbytes
          subst hbytes
          rw [arrayBlock, hfound, Except.ok.injEq] at hblock
          subst hblock
          exact ⟨fun _ => hplace, fun _ => hroom, fun _ _ _ => hnumbers.2 hinside⟩
        · intro hsound
          have hinside := hnumbers.1 (hsound.whole hcount hdata hall)
          exact {
            returns := by simp [hrun]
            reserves := hreserves
            inside := fun values' hvalues' => by
              rw [hrun, Except.ok.injEq] at hvalues'
              exact ⟨bytes, _, hwords, hfound, hinside, hvalues' ▸ hvalues⟩ }
      · refine iff_of_true ?_ ⟨fun _ => hplace, fun _ => hroom,
          fun _ hdata hall => absurd ⟨hdata, hall⟩ hnot⟩
        exact {
          returns := by simp [hrun]
          reserves := hreserves
          inside := fun values hvalues => by simp [hrun] at hvalues }
    · exact iff_of_false (fun hsafe => hroom (hsafe.reserves _ _ hwords hfound))
        fun h => hroom (h.room hcount)

end Items

end Spec

/-! ### Every answer -/

/-- The machines there are. -/
inductive Width where
  | w32
  | w64
deriving DecidableEq, Repr

def Width.bits : Width → Nat
  | w32 => 32
  | w64 => 64

/-- A text in the memory of a machine. No object is larger than half of what fits a size. -/
structure NodeText (width : Width) where
  text : String
  fits : 2 * (utf8 text).length < 2 ^ width.bits

theorem length_trimHexPrefix_le (cs : List Char) : (trimHexPrefix cs).length ≤ cs.length := by
  induction cs using trimHexPrefix.induct with
  | case1 rest ih =>
      rw [trimHexPrefix, List.length_cons, List.length_cons]
      omega
  | case2 cs h => rw [trimHexPrefix.eq_2 cs h]

/-- Two characters of a text are one byte of an answer. -/
theorem payload_of_decodeWords {width : Width} {output : NodeText width} {bytes : List UInt8}
    (h : decodeWords output.text = .ok bytes) : Payload width.bits bytes := by
  have htext : outputBytes output.text = .ok bytes ∧ bytes ≠ [] ∧ bytes.length % 32 = 0 := by
    rw [decodeWords] at h
    cases hout : outputBytes output.text with
    | error e => simp [hout, error_bind] at h
    | ok found =>
        rw [hout, ok_bind] at h
        by_cases hbad : (found.isEmpty || found.length % 32 != 0) = true
        · rw [if_pos hbad] at h
          cases h
        · rw [if_neg hbad, Except.ok.injEq] at h
          subst h
          simpa using hbad
  rcases htext with ⟨hout, hsome, hwords⟩
  have hpos := List.length_pos_iff.2 hsome
  have hdigits : Hex.decode (trimHexPrefix (trim output.text.toList)) = some bytes := by
    rw [outputBytes] at hout
    cases hdecode : Hex.decode (trimHexPrefix (trim output.text.toList)) with
    | none => simp [hdecode] at hout
    | some found =>
        simp only [hdecode, Except.ok.injEq] at hout
        rw [hout]
  have htwo := Hex.length_decode hdigits
  have hdropped := length_trimHexPrefix_le (trim output.text.toList)
  have htrim := length_trim_le output.text.toList
  have hbytes := length_le_utf8 output.text
  have hfits := output.fits
  exact ⟨by omega, by omega⟩

section Answers

variable {width : Width} (output : NodeText width)

-- What holds of an answer that has no words holds of its refusal.
theorem refused_of_decodeWords {output : String} (h : ∀ bytes, decodeWords output ≠ .ok bytes) :
    Refused (decodeWords output) := by
  cases hwords : decodeWords output with
  | ok bytes => exact absurd hwords (h bytes)
  | error e =>
      cases e with
      | refused e => exact ⟨e, rfl⟩
      | panicked =>
          unfold decodeWords outputBytes at hwords
          cases hdecode : Hex.decode (trimHexPrefix (trim output.toList)) with
          | none => simp [hdecode, error_bind] at hwords
          | some found =>
              rw [hdecode, ok_bind] at hwords
              split at hwords
              · cases hwords
              · cases hwords

/-- A word is read if there is such a place on the machine. -/
theorem uintSafe_iff (word : Nat) : UintSafe width.bits output.text word ↔
    ∀ bytes, decodeWords output.text = .ok bytes → word * 32 + 32 < 2 ^ width.bits := by
  by_cases hwords : ∃ bytes, decodeWords output.text = .ok bytes
  · rcases hwords with ⟨bytes, hwords⟩
    have hrun : decodeUint width.bits output.text word = wordUint width.bits bytes word := by
      rw [decodeUint, hwords, ok_bind]
    constructor
    · intro hsafe _ _
      by_contra hplace
      refine hsafe.returns ?_
      rw [hrun, wordUint]
      by_cases hstart : word * 32 < 2 ^ width.bits
      · rw [checked_of_lt hstart, ok_bind, checked, if_neg hplace, error_bind]
      · rw [checked, if_neg hstart, error_bind]
    · intro hplace
      rw [wordUint_eq (hplace bytes hwords), Nat.mul_comm] at hrun
      by_cases hshort : bytes.length < 32 * word + 32
      · rw [if_pos hshort] at hrun
        exact ⟨by simp [hrun], fun v hv => by simp [hrun] at hv⟩
      · rw [if_neg hshort] at hrun
        by_cases hwide : numberAt bytes (32 * word) < 2 ^ 128
        · rw [if_pos hwide] at hrun
          refine ⟨by simp [hrun], fun v hv => ⟨bytes, hwords, by omega, ?_⟩⟩
          rw [hrun, Except.ok.injEq] at hv
          rw [← hv, BitVec.toNat_ofNat, Nat.mod_eq_of_lt hwide]
        · rw [if_neg hwide] at hrun
          exact ⟨by simp [hrun], fun v hv => by simp [hrun] at hv⟩
  · simp only [not_exists] at hwords
    rcases refused_of_decodeWords hwords with ⟨e, he⟩
    have hrun : decodeUint width.bits output.text word = .error (.refused e) := by
      rw [decodeUint, he, error_bind]
    exact iff_of_true ⟨by simp [hrun], fun v hv => by simp [hrun] at hv⟩
      fun bytes h => absurd h (hwords bytes)

theorem addressSafe : AddressSafe output.text := by
  by_cases hwords : ∃ bytes, decodeWords output.text = .ok bytes
  · rcases hwords with ⟨bytes, hwords⟩
    have hlong : ¬ bytes.length < 32 := Nat.not_lt.2 (payload_of_decodeWords hwords).some
    have hrun : decodeAddress output.text =
        .ok ("0x" ++ hexEncode ((bytes.take 32).drop 12)) := by
      rw [decodeAddress, hwords, ok_bind, if_neg hlong]
    refine ⟨by simp [hrun], fun a ha => ⟨bytes, hwords, Nat.le_of_not_lt hlong, ?_⟩⟩
    rw [hrun, Except.ok.injEq] at ha
    rw [← ha, wordAt, List.drop_zero]
  · simp only [not_exists] at hwords
    rcases refused_of_decodeWords hwords with ⟨e, he⟩
    have hrun : decodeAddress output.text = .error (.refused e) := by
      rw [decodeAddress, he, error_bind]
    exact ⟨by simp [hrun], fun a ha => by simp [hrun] at ha⟩

/-- Every decoder, for every answer: what a value is read from lies inside, and nothing panics,
    for the numbers that are said above and for no others. -/
theorem decoders_safe_iff :
    (∀ word, UintSafe width.bits output.text word ↔
      ∀ bytes, decodeWords output.text = .ok bytes → word * 32 + 32 < 2 ^ width.bits) ∧
    AddressSafe output.text ∧
    (StringSafe width.bits output.text ↔
      ∀ bytes, decodeWords output.text = .ok bytes → StringSound width.bits bytes) ∧
    (ArraySafe width.bits output.text ↔
      ∀ bytes, decodeWords output.text = .ok bytes → ArraySound width.bits bytes) := by
  refine ⟨uintSafe_iff output, addressSafe output, ?_⟩
  by_cases hwords : ∃ bytes, decodeWords output.text = .ok bytes
  · rcases hwords with ⟨bytes, hwords⟩
    have hpayload := payload_of_decodeWords hwords
    have hthe : ∀ P : List UInt8 → Prop,
        (∀ bytes, decodeWords output.text = .ok bytes → P bytes) ↔ P bytes := by
      intro P
      simp [hwords]
    rw [hthe, hthe]
    exact ⟨stringSafe_iff hpayload hwords, arraySafe_iff hpayload hwords⟩
  · simp only [not_exists] at hwords
    rcases refused_of_decodeWords hwords with ⟨e, he⟩
    have hstring : decodeString width.bits output.text = .error (.refused e) := by
      rw [decodeString_eq, he, error_bind]
    have harray : decodeUintArray width.bits output.text = .error (.refused e) := by
      rw [decodeUintArray_eq, he, error_bind]
    constructor
    · exact iff_of_true ⟨by simp [hstring], fun s hs => by simp [hstring] at hs⟩
        fun bytes h => absurd h (hwords bytes)
    · exact iff_of_true ⟨by simp [harray], fun bytes _ h => absurd h (hwords bytes),
        fun values hvalues => by simp [harray] at hvalues⟩ fun bytes h => absurd h (hwords bytes)

end Answers

/-! ### Hostile answers -/

/-- A word that names the last place there is. -/
def lastPlace : List UInt8 := sizeWord (2 ^ 64 - 32)

/-- A text at a place that fits no size, and one at a place inside a word. -/
def cutPlace : List UInt8 := sizeWord (2 ^ 64 + 32) ++ (sizeWord 2 ++ padded (utf8 "hi"))

def oddPlace : List UInt8 := sizeWord 33 ++ (sizeWord 2 ++ padded (utf8 "hi"))

/-- A list of which nothing is there. -/
def emptyList : List UInt8 := sizeWord 32 ++ sizeWord (2 ^ 58)

/-- A sum that does not fit, places that are not the ones that are named, and room for what is not
    there: none of these is safe. -/
theorem hostile_answers :
    (decodeString 64 (nodeOutput lastPlace) = .error .panicked ∧
      decodeUintArray 64 (nodeOutput lastPlace) = .error .panicked) ∧
    (decodeString 64 (nodeOutput cutPlace) = .ok "hi" ∧
      ¬ StringSafe 64 (nodeOutput cutPlace)) ∧
    (decodeString 64 (nodeOutput oddPlace) = .ok (String.ofList ['i', Char.ofNat 0]) ∧
      stringBlock 64 oddPlace = .ok ⟨32, 65, 2⟩ ∧ ¬ StringSafe 64 (nodeOutput oddPlace)) ∧
    (arrayBlock 64 emptyList = .ok ⟨32, 64, 2 ^ 58⟩ ∧
      ¬ ArraySafe 64 (nodeOutput emptyList)) := by
  have hwords : ∀ bs ∈ [lastPlace, cutPlace, oddPlace, emptyList],
      decodeWords (nodeOutput bs) = .ok bs := by
    have hsizes : ∀ bs ∈ [lastPlace, cutPlace, oddPlace, emptyList],
        bs ≠ [] ∧ bs.length % 32 = 0 := by decide +kernel
    exact fun bs hbs => decodeWords_nodeOutput (hsizes bs hbs).1 (hsizes bs hbs).2
  have hplaces : numberAt cutPlace 0 = 2 ^ 64 + 32 ∧ numberAt oddPlace 0 = 33 := by decide +kernel
  have hcut : decodeString 64 (nodeOutput cutPlace) = .ok "hi" := by
    rw [decodeString_eq, hwords cutPlace (by simp), ok_bind]
    decide +kernel
  refine ⟨⟨?_, ?_⟩, ⟨hcut, ?_⟩, ?_, ?_⟩
  · rw [decodeString_eq, hwords lastPlace (by simp), ok_bind]
    decide +kernel
  · rw [decodeUintArray_eq, hwords lastPlace (by simp), ok_bind]
    decide +kernel
  · intro hsafe
    rcases hsafe.inside "hi" hcut with ⟨bytes, block, hbytes, -, hinside, -⟩
    rw [hwords cutPlace (by simp), Except.ok.injEq] at hbytes
    subst hbytes
    have hin := hinside.lengthIn
    rw [hinside.named, hplaces.1] at hin
    exact absurd hin (by decide +kernel)
  · have htext : decodeString 64 (nodeOutput oddPlace) =
        .ok (String.ofList ['i', Char.ofNat 0]) := by
      rw [decodeString_eq, hwords oddPlace (by simp), ok_bind]
      decide +kernel
    have hblock : stringBlock 64 oddPlace = .ok ⟨32, 65, 2⟩ := by decide +kernel
    refine ⟨htext, hblock, fun hsafe => ?_⟩
    rcases hsafe.inside _ htext with ⟨bytes, block, hbytes, hfound, hinside, -⟩
    rw [hwords oddPlace (by simp), Except.ok.injEq] at hbytes
    subst hbytes
    rw [hblock, Except.ok.injEq] at hfound
    subst hfound
    exact absurd (hinside.named.trans hplaces.2) (by decide)
  · have hblock : arrayBlock 64 emptyList = .ok ⟨32, 64, 2 ^ 58⟩ := by decide +kernel
    refine ⟨hblock, fun hsafe => ?_⟩
    exact absurd (hsafe.reserves _ _ (hwords emptyList (by simp)) hblock) (by decide +kernel)

end PocketSkynet
