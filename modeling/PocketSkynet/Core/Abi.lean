import PocketSkynet.Core.Crypto
import PocketSkynet.Core.Transaction
import PocketSkynet.Lib.HeadTail

/-!
# Contract Calls

The arguments of a contract call are encoded in words of 32 bytes, and what a contract returns
is decoded from such words. A number or an address is one word. A text or a list of addresses
is a block behind the words of all arguments, and has the place of its block for its word.

Sizes are computed in the width of the machine, which is 32 bits in a browser. A sum that does
not fit it ends in a panic, whether it is checked or the slice that it bounds is.

## Main definitions

* `Arg`, `encodeArgs`: The encoder.
* `decodeString`, `decodeUintArray`: What is read of the answer of a contract.
* `Standard`, `readArgs`: The layout that is meant, and what a contract reads in it.

## Theorems

* `standard_encodeArgs`: The encoding has the layout that is meant.
* `readArgs_encodeArgs`: Every argument is read back.
* `abi_agrees`: So is a text, and a list of numbers, that a contract returns.
-/

namespace PocketSkynet

open Rlp HeadTail

/-! ### The encoder -/

/-- One argument. Numbers and addresses are static, texts and lists of addresses are not. -/
inductive Arg where
  | uint (value : BitVec 128)
  | address (a : WalletAddress)
  | str (s : String)
  | addresses (list : List WalletAddress)
deriving DecidableEq

def uintWord (value : BitVec 128) : List UInt8 := List.replicate 16 0 ++ beBytes 16 value.toNat

def addressWord (a : WalletAddress) : List UInt8 := List.replicate 12 0 ++ a.toBytes

/-- A size as a word. -/
def sizeWord (n : Nat) : List UInt8 := uintWord (BitVec.ofNat 128 n)

def padded (bytes : List UInt8) : List UInt8 :=
  let rem := bytes.length % 32
  if rem ≠ 0 then bytes ++ List.replicate (32 - rem) 0 else bytes

/-- What one argument adds to the head and to the tail. -/
def encodeArg (headLen : Nat) (acc : List UInt8 × List UInt8) : Arg → List UInt8 × List UInt8
  | .uint v => (acc.1 ++ uintWord v, acc.2)
  | .address a => (acc.1 ++ addressWord a, acc.2)
  | .str s =>
      (acc.1 ++ sizeWord (headLen + acc.2.length),
        acc.2 ++ sizeWord (utf8 s).length ++ padded (utf8 s))
  | .addresses list =>
      (acc.1 ++ sizeWord (headLen + acc.2.length),
        list.foldl (fun tail a => tail ++ addressWord a) (acc.2 ++ sizeWord list.length))

/-- Encode a list of arguments, without a selector. -/
def encodeArgs (args : List Arg) : List UInt8 :=
  let headTail := args.foldl (encodeArg (args.length * 32)) ([], [])
  headTail.1 ++ headTail.2

/-! ### The decoder -/

inductive ChainError where
  | overflow
  | invalidQuantity
deriving DecidableEq, Repr

/-- Why nothing is decoded. -/
inductive AbiFailure where
  | refused (e : ChainError)
  | panicked
deriving DecidableEq, Repr

/-- A text without `0x` in front, however often it stands there. -/
def trimHexPrefix : List Char → List Char
  | '0' :: 'x' :: rest => trimHexPrefix rest
  | cs => cs

def outputBytes (output : String) : Except AbiFailure (List UInt8) :=
  match Hex.decode (trimHexPrefix (trim output.toList)) with
  | some bytes => .ok bytes
  | none => .error (.refused .invalidQuantity)

def decodeWords (output : String) : Except AbiFailure (List UInt8) := do
  let bytes ← outputBytes output
  if bytes.isEmpty || bytes.length % 32 != 0 then .error (.refused .invalidQuantity)
  else .ok bytes

/-- The length of what is wrong at the front of some bytes that begin with no character: what
    could be the beginning of one, or a single byte. -/
def invalidLength : List UInt8 → Nat
  | b0 :: b1 :: rest =>
      let second :=
        if b0 = 0xe0 then 0xa0 ≤ b1 && b1 ≤ 0xbf
        else if b0 = 0xed then 0x80 ≤ b1 && b1 ≤ 0x9f
        else if b0 = 0xf0 then 0x90 ≤ b1 && b1 ≤ 0xbf
        else if b0 = 0xf4 then 0x80 ≤ b1 && b1 ≤ 0x8f
        else 0xe1 ≤ b0 && b0 ≤ 0xf3 && 0x80 ≤ b1 && b1 ≤ 0xbf
      let third := 0xf0 ≤ b0 && rest.head?.any fun b2 => 0x80 ≤ b2 && b2 ≤ 0xbf
      if second then (if third then 3 else 2) else 1
  | _ => 1

/-- The first character of some bytes, and its length. -/
def firstChar (bytes : List UInt8) : Option (Char × Nat) :=
  [1, 2, 3, 4].findSome? fun n => (ofUtf8 (bytes.take n)).bind fun s => s.toList.head?.map (·, n)

/-- Every part that is no character is replaced by one. -/
def replaceInvalid : Nat → List UInt8 → List Char
  | _, [] => []
  | 0, _ => []
  | fuel + 1, bytes =>
      match firstChar bytes with
      | some (c, n) => c :: replaceInvalid fuel (bytes.drop n)
      | none => Char.ofNat 0xfffd :: replaceInvalid fuel (bytes.drop (invalidLength bytes))

/-- The text of some bytes, with replacements where they are none. -/
def fromUtf8Lossy (bytes : List UInt8) : String :=
  match ofUtf8 bytes with
  | some s => s
  | none => String.ofList (replaceInvalid bytes.length bytes)

section Decode

-- The width of the machine.
variable (usizeBits : Nat)

/-- A size that is computed. -/
def checked (n : Nat) : Except AbiFailure Nat :=
  if n < 2 ^ usizeBits then .ok n else .error .panicked

/-- A number as a size. -/
def asUsize (value : BitVec 128) : Nat := value.toNat % 2 ^ usizeBits

def wordUint (bytes : List UInt8) (word : Nat) : Except AbiFailure (BitVec 128) := do
  let start ← checked usizeBits (word * 32)
  let finish ← checked usizeBits (start + 32)
  if bytes.length < finish then .error (.refused .invalidQuantity)
  else
    let w := (bytes.drop start).take 32
    if (w.take 16).any (· != 0) then .error (.refused .overflow)
    else .ok (BitVec.ofNat 128 (natOf (w.drop 16)))

/-- A returned text: the place of its block, its length, its bytes. -/
def decodeString (output : String) : Except AbiFailure String := do
  let bytes ← decodeWords output
  let offset := asUsize usizeBits (← wordUint usizeBits bytes 0)
  let start ← checked usizeBits (offset + 32)
  if bytes.length < start then .error (.refused .invalidQuantity)
  else
    let len := asUsize usizeBits (← wordUint usizeBits bytes (offset / 32))
    let finish ← checked usizeBits (start + len)
    if bytes.length < finish then .error (.refused .invalidQuantity)
    else .ok (fromUtf8Lossy ((bytes.drop start).take len))

/-- So many words, from one on. -/
def wordUints (bytes : List UInt8) : Nat → Nat → Except AbiFailure (List (BitVec 128))
  | _, 0 => .ok []
  | word, n + 1 => do
      let v ← wordUint usizeBits bytes word
      let rest ← wordUints bytes (word + 1) n
      return v :: rest

/-- A returned list of numbers. Room is made for all of it before the first is read. -/
def decodeUintArray (output : String) : Except AbiFailure (List (BitVec 128)) := do
  let bytes ← decodeWords output
  let offset := asUsize usizeBits (← wordUint usizeBits bytes 0)
  if offset % 32 ≠ 0 then .error (.refused .invalidQuantity)
  else
    let start ← checked usizeBits (offset + 32)
    if bytes.length < start then .error (.refused .invalidQuantity)
    else
      let len := asUsize usizeBits (← wordUint usizeBits bytes (offset / 32))
      if 2 ^ usizeBits ≤ 2 * (16 * len) then .error .panicked
      else wordUints usizeBits bytes (offset / 32 + 1) len

end Decode

/-! ### The layout that is meant -/

/-- What is written of an argument. -/
def Arg.piece : Arg → Piece UInt8
  | uint v => .word (uintWord v)
  | address a => .word (addressWord a)
  | str s => .block (sizeWord (utf8 s).length ++ padded (utf8 s))
  | addresses list => .block (sizeWord list.length ++ list.flatMap addressWord)

/-- The number in the slot of an argument, if its block begins at `n`. -/
def Arg.slotNumber (n : Nat) : Arg → Nat
  | uint v => v.toNat
  | address a => natOf a.toBytes
  | str _ | addresses _ => n

/-- Where the block of an argument begins. -/
def tailPlace (args : List Arg) (i : Nat) : Nat := place 32 (args.map Arg.piece) i

/-- The bytes from a place on that are one word. -/
def wordAt (bs : List UInt8) (n : Nat) : List UInt8 := (bs.drop n).take 32

/-- The number that is written at a place. -/
def numberAt (bs : List UInt8) (n : Nat) : Nat := natOf (wordAt bs n)

/-- Each slot holds the value or the place of a block, the blocks are where the slots say, of
    whole words, and neither overlap nor leave anything over. -/
structure Standard (args : List Arg) (bs : List UInt8) : Prop where
  slot : ∀ i arg, args[i]? = some arg → (wordAt bs (32 * i)).length = 32 ∧
    numberAt bs (32 * i) = arg.slotNumber (tailPlace args i)
  block : ∀ i arg, args[i]? = some arg →
    (bs.drop (tailPlace args i)).take arg.piece.behind.length = arg.piece.behind
  aligned : ∀ arg ∈ args, arg.piece.behind.length % 32 = 0
  behind : ∀ i, 32 * args.length ≤ tailPlace args i
  apart : ∀ i j arg, args[i]? = some arg → i < j →
    tailPlace args i + arg.piece.behind.length ≤ tailPlace args j
  ends : bs.length = tailPlace args args.length

/-- What a contract expects. -/
inductive ArgType where
  | uint
  | address
  | str
  | addresses
deriving DecidableEq, Repr

def Arg.type : Arg → ArgType
  | uint _ => .uint
  | address _ => .address
  | str _ => .str
  | addresses _ => .addresses

/-- The address in a word. -/
def readAddress (word : List UInt8) : Option WalletAddress :=
  (WalletAddress.new ("0x" ++ hexEncode (word.drop 12))).toOption

/-- So many addresses, from a place on. -/
def readAddresses (bs : List UInt8) : Nat → Nat → Option (List WalletAddress)
  | _, 0 => some []
  | n, count + 1 => do
      let a ← readAddress (wordAt bs n)
      let rest ← readAddresses bs (n + 32) count
      return a :: rest

/-- What a contract reads in a slot, and in the block it names. -/
def readArg (bs : List UInt8) (i : Nat) : ArgType → Option Arg
  | .uint => some (.uint (BitVec.ofNat 128 (numberAt bs (32 * i))))
  | .address => (readAddress (wordAt bs (32 * i))).map .address
  | .str =>
      let n := numberAt bs (32 * i)
      (ofUtf8 ((bs.drop (n + 32)).take (numberAt bs n))).map .str
  | .addresses =>
      let n := numberAt bs (32 * i)
      (readAddresses bs (n + 32) (numberAt bs n)).map .addresses

/-- What a contract reads from a slot on. -/
def readArgs (bs : List UInt8) : Nat → List ArgType → Option (List Arg)
  | _, [] => some []
  | i, type :: types => do
      let arg ← readArg bs i type
      let rest ← readArgs bs (i + 1) types
      return arg :: rest

/-- How a contract returns a text. -/
def returnedString (s : String) : List UInt8 := layout 32 sizeWord [(Arg.str s).piece]

/-- How a contract returns a list of numbers. -/
def returnedUints (values : List (BitVec 128)) : List UInt8 :=
  layout 32 sizeWord [.block (sizeWord values.length ++ values.flatMap uintWord)]

/-- The answer of a node. -/
def nodeOutput (bs : List UInt8) : String := "0x" ++ hexEncode bs

/-! ### Words -/

theorem natOf_zeros (n : Nat) (bs : List UInt8) : natOf (List.replicate n 0 ++ bs) = natOf bs := by
  induction n with
  | zero => rfl
  | succ n ih =>
      rw [List.replicate_succ, List.cons_append, natOf_cons, ih, UInt8.toNat_zero, Nat.zero_mul,
        Nat.zero_add]

@[simp] theorem length_uintWord (v : BitVec 128) : (uintWord v).length = 32 := by
  rw [uintWord, List.length_append, List.length_replicate, length_beBytes]

@[simp] theorem length_sizeWord (n : Nat) : (sizeWord n).length = 32 := length_uintWord _

@[simp] theorem length_addressWord (a : WalletAddress) : (addressWord a).length = 32 := by
  rw [addressWord, List.length_append, List.length_replicate, a.toBytes_spec.2]

theorem natOf_beBytes_toNat (v : BitVec 128) : natOf (beBytes 16 v.toNat) = v.toNat := by
  rw [natOf_beBytes, Nat.mod_eq_of_lt (by simpa using v.isLt)]

theorem natOf_uintWord (v : BitVec 128) : natOf (uintWord v) = v.toNat := by
  rw [uintWord, natOf_zeros, natOf_beBytes_toNat]

theorem natOf_sizeWord {n : Nat} (h : n < 2 ^ 128) : natOf (sizeWord n) = n := by
  rw [sizeWord, natOf_uintWord, BitVec.toNat_ofNat, Nat.mod_eq_of_lt h]

theorem toList_hexText (bs : List UInt8) :
    ("0x" ++ hexEncode bs).toList = '0' :: 'x' :: Hex.encode bs := by
  have hdigits : (hexEncode bs).toList = Hex.encode bs := String.toList_ofList
  rw [String.toList_append, hdigits]
  rfl

-- An address is in the last bytes of its word.
theorem readAddress_addressWord (a : WalletAddress) : readAddress (addressWord a) = some a := by
  have hword : (addressWord a).drop 12 = a.toBytes := by
    rw [addressWord, List.drop_left' List.length_replicate]
  have htext : "0x" ++ hexEncode a.toBytes = a.str := by
    rcases isWalletAddress_iff.1 a.wellFormed with ⟨digits, hs, -, -⟩
    refine String.toList_inj.1 ?_
    rw [toList_hexText, a.toBytes_spec.1, hs, List.drop_succ_cons, List.drop_succ_cons,
      List.drop_zero]
  rw [readAddress, hword, htext, WalletAddress.new_str]
  rfl

/-- A text is filled up to whole words with zeros. -/
theorem padded_spec (bytes : List UInt8) : ∃ n < 32, padded bytes = bytes ++ List.replicate n 0 ∧
    (padded bytes).length % 32 = 0 := by
  by_cases hrem : bytes.length % 32 = 0
  · refine ⟨0, by omega, ?_, ?_⟩
    · simp [padded, hrem]
    · simp [padded, hrem]
  · refine ⟨32 - bytes.length % 32, by omega, ?_, ?_⟩
    · simp [padded, hrem]
    · simp only [padded, ne_eq, hrem, not_false_eq_true, if_true, List.length_append,
        List.length_replicate]
      omega

/-! ### The encoding -/

-- A list is joined word by word.
theorem foldl_addressWord (list : List WalletAddress) (tail : List UInt8) :
    list.foldl (fun tail a => tail ++ addressWord a) tail = tail ++ list.flatMap addressWord := by
  induction list generalizing tail with
  | nil => rw [List.foldl_nil, List.flatMap_nil, List.append_nil]
  | cons a list ih => rw [List.foldl_cons, ih, List.flatMap_cons, List.append_assoc]

-- One round of the loop adds a slot and a block.
theorem encodeArg_eq (headLen : Nat) (acc : List UInt8 × List UInt8) (arg : Arg) :
    encodeArg headLen acc arg = (acc.1 ++ arg.piece.slot sizeWord (headLen + acc.2.length),
      acc.2 ++ arg.piece.behind) := by
  cases arg with
  | uint v => rw [encodeArg, Arg.piece, Piece.slot, Piece.behind, List.append_nil]
  | address a => rw [encodeArg, Arg.piece, Piece.slot, Piece.behind, List.append_nil]
  | str s => rw [encodeArg, Arg.piece, Piece.slot, Piece.behind, List.append_assoc]
  | addresses list =>
      rw [encodeArg, Arg.piece, Piece.slot, Piece.behind, foldl_addressWord, List.append_assoc]

theorem foldl_encodeArg (headLen : Nat) (args : List Arg) (acc : List UInt8 × List UInt8) :
    args.foldl (encodeArg headLen) acc =
      (acc.1 ++ (slots sizeWord (headLen + acc.2.length) (args.map Arg.piece)).flatten,
        acc.2 ++ (args.map Arg.piece).flatMap Piece.behind) := by
  induction args generalizing acc with
  | nil => simp [slots]
  | cons arg args ih =>
      rw [List.foldl_cons, ih, encodeArg_eq, List.map_cons, slots, List.flatten_cons,
        List.flatMap_cons, List.length_append, Nat.add_assoc, List.append_assoc, List.append_assoc]

/-- The loop of the encoder writes heads and tails. -/
theorem encodeArgs_eq_layout (args : List Arg) :
    encodeArgs args = layout 32 sizeWord (args.map Arg.piece) := by
  simp only [encodeArgs, foldl_encodeArg, List.nil_append, List.length_nil, Nat.add_zero, layout,
    List.length_map, Nat.mul_comm]

theorem word_piece {args : List Arg} : ∀ w, Piece.word w ∈ args.map Arg.piece → w.length = 32 := by
  intro w hw
  rcases List.mem_map.1 hw with ⟨arg, -, harg⟩
  cases arg with
  | uint v =>
      cases harg
      exact length_uintWord v
  | address a =>
      cases harg
      exact length_addressWord a
  | str s => cases harg
  | addresses list => cases harg

theorem length_flatMap_addressWord (list : List WalletAddress) :
    (list.flatMap addressWord).length = 32 * list.length := by
  induction list with
  | nil => rfl
  | cons a list ih =>
      rw [List.flatMap_cons, List.length_append, length_addressWord, ih, List.length_cons]
      omega

-- A block is made of whole words.
theorem aligned_piece (arg : Arg) : arg.piece.behind.length % 32 = 0 := by
  cases arg with
  | uint v => rfl
  | address a => rfl
  | str s =>
      rcases padded_spec (utf8 s) with ⟨-, -, -, hpadded⟩
      rw [Arg.piece, Piece.behind, List.length_append, length_sizeWord]
      omega
  | addresses list =>
      rw [Arg.piece, Piece.behind, List.length_append, length_sizeWord, length_flatMap_addressWord]
      omega

-- No place is behind the end.
theorem tailPlace_le {args : List Arg} {i : Nat} (hi : i ≤ args.length) :
    tailPlace args i ≤ (encodeArgs args).length := by
  rw [encodeArgs_eq_layout, length_layout length_sizeWord word_piece, List.length_map]
  exact place_mono hi

/-- The encoding has the layout that is meant. -/
theorem standard_encodeArgs {args : List Arg} (h : (encodeArgs args).length < 2 ^ 128) :
    Standard args (encodeArgs args) where
  slot := by
    intro i arg hi
    have hpiece : (args.map Arg.piece)[i]? = some arg.piece := by rw [List.getElem?_map, hi]; rfl
    have hslot : wordAt (encodeArgs args) (32 * i) = arg.piece.slot sizeWord (tailPlace args i) := by
      rw [encodeArgs_eq_layout]
      exact slot_layout length_sizeWord word_piece hpiece
    have hplace : tailPlace args i < 2 ^ 128 := Nat.lt_of_le_of_lt
      (tailPlace_le (Nat.le_of_lt (List.getElem?_eq_some_iff.1 hi).1)) h
    rw [numberAt, hslot]
    cases arg with
    | uint v => exact ⟨length_uintWord v, natOf_uintWord v⟩
    | address a => exact ⟨length_addressWord a, natOf_zeros 12 a.toBytes⟩
    | str s => exact ⟨length_sizeWord _, natOf_sizeWord hplace⟩
    | addresses list => exact ⟨length_sizeWord _, natOf_sizeWord hplace⟩
  block := by
    intro i arg hi
    rw [encodeArgs_eq_layout]
    exact block_layout length_sizeWord word_piece (by rw [List.getElem?_map, hi]; rfl)
  aligned := fun arg _ => aligned_piece arg
  behind := fun i => by
    have hle := @place_le _ 32 (args.map Arg.piece) i
    rwa [List.length_map] at hle
  apart := fun i j arg hi hij => place_apart (by rw [List.getElem?_map, hi]; rfl) hij
  ends := by
    rw [encodeArgs_eq_layout, length_layout length_sizeWord word_piece, List.length_map, tailPlace]

/-! ### Reading back -/

-- A word is known by its number.
theorem word_of_number {v w : List UInt8} (hv : v.length = 32) (hw : w.length = 32)
    (h : natOf v = natOf w) : v = w := by
  have hback := (beBytes_natOf v).symm
  rwa [h, hv, ← hw, beBytes_natOf] at hback

theorem readAddresses_words {bs : List UInt8} {list : List WalletAddress} {n : Nat}
    {rest : List UInt8} (h : bs.drop n = list.flatMap addressWord ++ rest) :
    readAddresses bs n list.length = some list := by
  induction list generalizing n with
  | nil => rfl
  | cons a list ih =>
      rw [List.flatMap_cons, List.append_assoc] at h
      have hword : wordAt bs n = addressWord a := by
        rw [wordAt, h, List.take_left' (length_addressWord a)]
      have hrest : bs.drop (n + 32) = list.flatMap addressWord ++ rest := by
        rw [← List.drop_drop, h, List.drop_left' (length_addressWord a)]
      simp [readAddresses, hword, readAddress_addressWord, ih hrest]

section Read

variable {args : List Arg} {bs : List UInt8} (hbs : Standard args bs)
  (hlength : bs.length < 2 ^ 128)
include hbs hlength

-- In front of what follows a block there is a count, which is read as it is.
theorem counted_block {i n : Nat} {arg : Arg} {items : List UInt8} (hi : args[i]? = some arg)
    (hblock : arg.piece.behind = sizeWord n ++ items) (hn : n ≤ items.length) :
    numberAt bs (tailPlace args i) = n ∧
      ∃ rest, bs.drop (tailPlace args i + 32) = items ++ rest := by
  have htake := hbs.block i arg hi
  have hfits : tailPlace args i + arg.piece.behind.length ≤ bs.length := by
    rw [hbs.ends]
    exact hbs.apart i _ arg hi (List.getElem?_eq_some_iff.1 hi).1
  rw [hblock, List.length_append, length_sizeWord] at hfits
  have hsplit : bs.drop (tailPlace args i) =
      sizeWord n ++ (items ++ (bs.drop (tailPlace args i)).drop arg.piece.behind.length) := by
    conv_lhs => rw [← List.take_append_drop arg.piece.behind.length (bs.drop (tailPlace args i))]
    rw [htake, hblock, List.append_assoc]
  refine ⟨?_, (bs.drop (tailPlace args i)).drop arg.piece.behind.length, ?_⟩
  · rw [numberAt, wordAt, hsplit, List.take_left' (length_sizeWord n), natOf_sizeWord (by omega)]
  · have hdrop := congrArg (List.drop 32) hsplit
    rwa [List.drop_drop, List.drop_left' (length_sizeWord n)] at hdrop

/-- Whoever knows the layout reads an argument from its slot. -/
theorem readArg_of_standard {i : Nat} {arg : Arg} (hi : args[i]? = some arg) :
    readArg bs i arg.type = some arg := by
  rcases hbs.slot i arg hi with ⟨hwidth, hnumber⟩
  cases arg with
  | uint v =>
      rw [Arg.type, readArg, hnumber, Arg.slotNumber, BitVec.ofNat_toNat, BitVec.setWidth_eq]
  | address a =>
      have hword : wordAt bs (32 * i) = addressWord a :=
        word_of_number hwidth (length_addressWord a)
          (hnumber.trans (natOf_zeros 12 a.toBytes).symm)
      rw [Arg.type, readArg, hword, readAddress_addressWord, Option.map_some]
  | str s =>
      rw [Arg.slotNumber] at hnumber
      rcases padded_spec (utf8 s) with ⟨n, -, hpadded, -⟩
      have hle : (utf8 s).length ≤ (padded (utf8 s)).length := by
        rw [hpadded, List.length_append]
        exact Nat.le_add_right _ _
      rcases counted_block hbs hlength hi rfl hle with ⟨hcount, rest, hitems⟩
      simp only [Arg.type, readArg, hnumber, hcount, hitems, hpadded, List.append_assoc,
        List.take_left, ofUtf8_utf8, Option.map_some]
  | addresses list =>
      rw [Arg.slotNumber] at hnumber
      have hle : list.length ≤ (list.flatMap addressWord).length := by
        rw [length_flatMap_addressWord]
        omega
      rcases counted_block hbs hlength hi rfl hle with ⟨hcount, rest, hitems⟩
      simp only [Arg.type, readArg, hnumber, hcount, readAddresses_words hitems, Option.map_some]

theorem readArgs_of_standard {rest : List Arg} {i : Nat} (hrest : args.drop i = rest) :
    readArgs bs i (rest.map Arg.type) = some rest := by
  induction rest generalizing i with
  | nil => rfl
  | cons arg rest ih =>
      have hi : args[i]? = some arg := by
        rw [← List.head?_drop, hrest, List.head?_cons]
      have hnext : args.drop (i + 1) = rest := by
        rw [← List.drop_drop, hrest, List.drop_succ_cons, List.drop_zero]
      simp [readArgs, readArg_of_standard hbs hlength hi, ih hnext]

end Read

/-- Every argument is read back. -/
theorem readArgs_encodeArgs {args : List Arg} (h : (encodeArgs args).length < 2 ^ 128) :
    readArgs (encodeArgs args) 0 (args.map Arg.type) = some args :=
  readArgs_of_standard (standard_encodeArgs h) h List.drop_zero

/-! ### What a contract returns -/

-- The prefix is taken off once, since a digit follows a digit.
theorem outputBytes_nodeOutput (bs : List UInt8) : outputBytes (nodeOutput bs) = .ok bs := by
  have hlist : (nodeOutput bs).toList = '0' :: 'x' :: Hex.encode bs := toList_hexText bs
  have hdigit : ∀ n < 16, isSpace (Nat.digitChar n) = false ∧ Nat.digitChar n ≠ 'x' := by decide
  have hspace : ∀ c ∈ (nodeOutput bs).toList, isSpace c = false := by
    intro c hc
    rw [hlist, List.mem_cons, List.mem_cons] at hc
    rcases hc with rfl | rfl | hc
    · decide
    · decide
    · rcases Hex.mem_encode hc with ⟨n, hn, rfl⟩
      exact (hdigit n hn).1
  have hstop : trimHexPrefix (Hex.encode bs) = Hex.encode bs := by
    cases bs with
    | nil => rfl
    | cons b bs =>
        have hlow : Nat.digitChar (b.toNat % 16) ≠ 'x' := (hdigit _ (Nat.mod_lt _ (by decide))).2
        rw [Hex.encode, trimHexPrefix]
        intro rest h
        exact hlow (List.cons.inj (List.cons.inj h).2).1
  rw [outputBytes, trim_of_no_space hspace, hlist, trimHexPrefix, hstop, Hex.decode_encode]

theorem decodeWords_nodeOutput {bs : List UInt8} (hsome : bs ≠ []) (hwords : bs.length % 32 = 0) :
    decodeWords (nodeOutput bs) = .ok bs := by
  have hempty : bs.isEmpty = false := by simpa using hsome
  simp [decodeWords, outputBytes_nodeOutput, bind, Except.bind, hempty, hwords]

section Returned

variable {usizeBits : Nat}

theorem checked_of_lt {n : Nat} (h : n < 2 ^ usizeBits) : checked usizeBits n = .ok n := if_pos h

-- A word that is there, of a number that fits.
theorem wordUint_of_word {bs : List UInt8} {word : Nat} {v : BitVec 128} {rest : List UInt8}
    (hlength : bs.length < 2 ^ usizeBits) (h : bs.drop (word * 32) = uintWord v ++ rest) :
    wordUint usizeBits bs word = .ok v := by
  have hfits : word * 32 + 32 ≤ bs.length := by
    have hcount := congrArg List.length h
    rw [List.length_drop, List.length_append, length_uintWord] at hcount
    omega
  have hzeros : ((uintWord v).take 16).any (· != 0) = false := by
    rw [uintWord, List.take_left' List.length_replicate]
    decide
  have hdigits : (uintWord v).drop 16 = beBytes 16 v.toNat := by
    rw [uintWord, List.drop_left' List.length_replicate]
  simp only [wordUint, checked_of_lt (Nat.lt_of_le_of_lt hfits hlength),
    checked_of_lt (Nat.lt_of_le_of_lt (Nat.le_of_add_right_le hfits) hlength), bind, Except.bind,
    Nat.not_lt.2 hfits, if_false, h, List.take_left' (length_uintWord v), hzeros,
    Bool.false_eq_true, hdigits, natOf_beBytes_toNat, BitVec.ofNat_toNat, BitVec.setWidth_eq]

theorem wordUints_of_words {bs : List UInt8} {values : List (BitVec 128)} {word : Nat}
    {rest : List UInt8} (hlength : bs.length < 2 ^ usizeBits)
    (h : bs.drop (word * 32) = values.flatMap uintWord ++ rest) :
    wordUints usizeBits bs word values.length = .ok values := by
  induction values generalizing word with
  | nil => rfl
  | cons v values ih =>
      rw [List.flatMap_cons, List.append_assoc] at h
      have hnext : bs.drop ((word + 1) * 32) = values.flatMap uintWord ++ rest := by
        rw [Nat.succ_mul, ← List.drop_drop, h, List.drop_left' (length_uintWord v)]
      simp only [List.length_cons, wordUints, wordUint_of_word hlength h, ih hnext, bind,
        Except.bind, pure, Except.pure]

end Returned

section Agree

variable {usizeBits : Nat}

-- What is returned alone has its place behind one slot.
theorem single_layout (n : Nat) (items : List UInt8) :
    layout 32 sizeWord [.block (sizeWord n ++ items)] = sizeWord 32 ++ (sizeWord n ++ items) := by
  simp [layout, slots, Piece.slot, Piece.behind]

/-- What the decoders find first: the block behind the slot, and its count. -/
theorem returned_spec {n : Nat} {items bs : List UInt8}
    (hbs : bs = sizeWord 32 ++ (sizeWord n ++ items))
    (hitems : items.length % 32 = 0) (hn : n < 2 ^ 128) (hlength : bs.length < 2 ^ usizeBits) :
    decodeWords (nodeOutput bs) = .ok bs ∧
      wordUint usizeBits bs 0 = .ok (BitVec.ofNat 128 32) ∧
      asUsize usizeBits (BitVec.ofNat 128 32) = 32 ∧
      wordUint usizeBits bs 1 = .ok (BitVec.ofNat 128 n) ∧
      (n ≤ items.length → asUsize usizeBits (BitVec.ofNat 128 n) = n) := by
  have hcount : bs.length = 64 + items.length := by
    rw [hbs, List.length_append, List.length_append, length_sizeWord, length_sizeWord]
    omega
  have hsome : bs ≠ [] := by
    intro hnil
    rw [hnil, List.length_nil] at hcount
    omega
  have hsecond : bs.drop (1 * 32) = sizeWord n ++ items := by
    rw [hbs, Nat.one_mul, List.drop_left' (length_sizeWord 32)]
  refine ⟨decodeWords_nodeOutput hsome (by omega), ?_, ?_, ?_, ?_⟩
  · exact wordUint_of_word hlength (by rw [Nat.zero_mul, List.drop_zero]; exact hbs)
  · have hsmall : 32 % 2 ^ 128 = 32 := by decide
    rw [asUsize, BitVec.toNat_ofNat, hsmall, Nat.mod_eq_of_lt (by omega)]
  · exact wordUint_of_word hlength hsecond
  · intro hle
    rw [asUsize, BitVec.toNat_ofNat, Nat.mod_eq_of_lt hn, Nat.mod_eq_of_lt (by omega)]

/-- A returned text is decoded as it is. -/
theorem decodeString_returned {s : String} (hbits : usizeBits ≤ 128)
    (hlength : (returnedString s).length < 2 ^ usizeBits) :
    decodeString usizeBits (nodeOutput (returnedString s)) = .ok s := by
  have hbs : returnedString s =
      sizeWord 32 ++ (sizeWord (utf8 s).length ++ padded (utf8 s)) := single_layout _ _
  rcases padded_spec (utf8 s) with ⟨zeros, -, hpadded, haligned⟩
  have hle : (utf8 s).length ≤ (padded (utf8 s)).length := by
    rw [hpadded, List.length_append]
    exact Nat.le_add_right _ _
  have hwidth : 2 ^ usizeBits ≤ 2 ^ 128 := Nat.pow_le_pow_right (by decide) hbits
  have hcount : (returnedString s).length = 64 + (padded (utf8 s)).length := by
    rw [hbs, List.length_append, List.length_append, length_sizeWord, length_sizeWord]
    omega
  rcases returned_spec hbs haligned (by omega) hlength with
    ⟨hwords, hplace, hplaceSize, hlen, hlenSize⟩
  have hdata : ((returnedString s).drop 64).take (utf8 s).length = utf8 s := by
    rw [hbs, ← List.append_assoc,
      List.drop_left' (by rw [List.length_append, length_sizeWord, length_sizeWord]), hpadded,
      List.take_left]
  have hstart : ¬ (returnedString s).length < 32 + 32 := by omega
  have hend : ¬ (returnedString s).length < 64 + (utf8 s).length := by omega
  simp only [decodeString, bind, Except.bind, hwords, hplace, hplaceSize,
    checked_of_lt (show 32 + 32 < 2 ^ usizeBits by omega), if_neg hstart,
    show 32 / 32 = 1 from rfl, hlen, hlenSize hle,
    checked_of_lt (show 64 + (utf8 s).length < 2 ^ usizeBits by omega), if_neg hend, hdata,
    fromUtf8Lossy, ofUtf8_utf8]

theorem length_flatMap_uintWord (values : List (BitVec 128)) :
    (values.flatMap uintWord).length = 32 * values.length := by
  induction values with
  | nil => rfl
  | cons v values ih =>
      rw [List.flatMap_cons, List.length_append, length_uintWord, ih, List.length_cons]
      omega

/-- A returned list of numbers is decoded as it is. -/
theorem decodeUintArray_returned {values : List (BitVec 128)} (hbits : usizeBits ≤ 128)
    (hlength : (returnedUints values).length < 2 ^ usizeBits) :
    decodeUintArray usizeBits (nodeOutput (returnedUints values)) = .ok values := by
  have hbs : returnedUints values =
      sizeWord 32 ++ (sizeWord values.length ++ values.flatMap uintWord) := single_layout _ _
  have hitems := length_flatMap_uintWord values
  have hwidth : 2 ^ usizeBits ≤ 2 ^ 128 := Nat.pow_le_pow_right (by decide) hbits
  have hcount : (returnedUints values).length = 64 + 32 * values.length := by
    rw [hbs, List.length_append, List.length_append, length_sizeWord, length_sizeWord, hitems]
    omega
  rcases returned_spec hbs (by omega) (by omega) hlength with
    ⟨hwords, hplace, hplaceSize, hlen, hlenSize⟩
  have hdata : (returnedUints values).drop (2 * 32) = values.flatMap uintWord ++ [] := by
    rw [hbs, ← List.append_assoc, List.append_nil,
      List.drop_left' (by rw [List.length_append, length_sizeWord, length_sizeWord])]
  have hstart : ¬ (returnedUints values).length < 32 + 32 := by omega
  have hroom : ¬ 2 ^ usizeBits ≤ 2 * (16 * values.length) := by omega
  simp only [decodeUintArray, bind, Except.bind, hwords, hplace, hplaceSize,
    checked_of_lt (show 32 + 32 < 2 ^ usizeBits by omega), if_neg hstart,
    show 32 % 32 = 0 from rfl, ne_eq, not_true_eq_false, if_false,
    show 32 / 32 = 1 from rfl, hlen, hlenSize (by omega), if_neg hroom,
    wordUints_of_words hlength hdata]

end Agree

/-- The encoding of every list of arguments has the layout that is meant, and gives every
    argument back. A text or a list of numbers that a contract returns is decoded as it is.
    Nothing is longer than the memory of the machine. -/
theorem abi_agrees :
    (∀ args : List Arg, (encodeArgs args).length < 2 ^ 128 → Standard args (encodeArgs args) ∧
      readArgs (encodeArgs args) 0 (args.map Arg.type) = some args) ∧
    (∀ usizeBits ≤ 128, ∀ s : String, (returnedString s).length < 2 ^ usizeBits →
      decodeString usizeBits (nodeOutput (returnedString s)) = .ok s) ∧
    (∀ usizeBits ≤ 128, ∀ values : List (BitVec 128),
      (returnedUints values).length < 2 ^ usizeBits →
      decodeUintArray usizeBits (nodeOutput (returnedUints values)) = .ok values) :=
  ⟨fun _ h => ⟨standard_encodeArgs h, readArgs_encodeArgs h⟩,
    fun _ hbits _ h => decodeString_returned hbits h,
    fun _ hbits _ h => decodeUintArray_returned hbits h⟩

theorem abi_agrees_greeting :
    readArgs (encodeArgs [.uint 7, .str "hi", .addresses []]) 0 [.uint, .str, .addresses] =
        some [.uint 7, .str "hi", .addresses []] ∧
      decodeString 32 (nodeOutput (returnedString "hi")) = .ok "hi" ∧
      decodeUintArray 32 (nodeOutput (returnedUints [1, 2])) = .ok [1, 2] :=
  ⟨(abi_agrees.1 [.uint 7, .str "hi", .addresses []] (by decide +kernel)).2,
    abi_agrees.2.1 32 (by decide) "hi" (by decide +kernel),
    abi_agrees.2.2 32 (by decide) [1, 2] (by decide +kernel)⟩

-- A part of a character is replaced by one.
example : fromUtf8Lossy [0xf0, 0x90, 0x80, 0x41, 0xff] =
    String.ofList [Char.ofNat 0xfffd, 'A', Char.ofNat 0xfffd] := by decide +kernel

end PocketSkynet
