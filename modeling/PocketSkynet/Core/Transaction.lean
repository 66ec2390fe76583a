import PocketSkynet.Core.Api
import PocketSkynet.Lib.Hex
import PocketSkynet.Lib.Rlp

/-!
# Transactions

A transaction is encoded twice: with the chain id and two empty strings behind its six fields,
which is what is signed, and with the signature in their place, which is what is sent. The
number in front of the signature carries the chain id again, so that the signature means
nothing on another chain. It is computed in the 64 bits of the chain id.

What a node reads is said apart from the encoder: it decodes a list of nine byte strings,
and takes seven of them for numbers without leading zeros.

## Main definitions

* `LegacyTransaction`, `Signature`: What is encoded.
* `rlpBytes`, `rlpUint`, `rlpList`, `LegacyTransaction.rlpEncode`: The encoder.
* `signingPayload`, `signWithSignature`: What is signed, and what is sent.
* `readTransaction`: What a node reads.
* `InRange`: The number in front of the signature fits its width.

## Theorems

* `frames_rlpBytes`: A byte string is decoded as it was.
* `read_encode`: The encoding of a transaction is read as its fields.
* `encoding_exact`: The encodings are canonical, and what the number in front of the
  signature has to fit for them to carry what they should.
-/

namespace PocketSkynet

open Rlp

/-! ### The encoder -/

/-- Minimal big-endian encoding of a length. -/
def usizeBe (value : Nat) : List UInt8 := stripLeadingZeros (beBytes 8 value)

/-- RLP-encode a byte string. A single byte below `0x80` is its own encoding. -/
def rlpBytes (bytes : List UInt8) : List UInt8 :=
  if bytes.length = 1 ∧ bytes.all fun b => b.toNat < 0x80 then bytes
  else if bytes.length ≤ 55 then UInt8.ofNat (0x80 + bytes.length) :: bytes
  else
    let lenBytes := usizeBe bytes.length
    UInt8.ofNat (0xb7 + lenBytes.length) :: (lenBytes ++ bytes)

/-- RLP-encode an unsigned integer as its minimal big-endian bytes. -/
def rlpUint (value : BitVec 128) : List UInt8 :=
  rlpBytes (stripLeadingZeros (beBytes 16 value.toNat))

/-- RLP-encode a list of already-encoded items. -/
def rlpList (items : List (List UInt8)) : List UInt8 :=
  let payloadLen := (items.map List.length).sum
  let head :=
    if payloadLen ≤ 55 then [UInt8.ofNat (0xc0 + payloadLen)]
    else UInt8.ofNat (0xf7 + (usizeBe payloadLen).length) :: usizeBe payloadLen
  head ++ items.flatten

/-- The bytes of an address. -/
def WalletAddress.toBytes (a : WalletAddress) : List UInt8 :=
  (Hex.decode (a.str.toList.drop 2)).getD []

/-- An unsigned legacy transaction. No vector is longer than half of the address space. -/
structure LegacyTransaction where
  nonce : BitVec 128
  gasPrice : BitVec 128
  gasLimit : BitVec 128
  recipient : Option WalletAddress
  value : BitVec 128
  data : { bytes : List UInt8 // bytes.length < 2 ^ 63 }
  chainId : UInt64
deriving DecidableEq

/-- A recoverable signature: `r` and `s`, big-endian, and the parity that tells the key. -/
structure Signature where
  rs : { bytes : List UInt8 // bytes.length = 64 }
  recoveryId : UInt8
  parity : recoveryId.toNat ≤ 1
deriving DecidableEq

structure SignedTransaction where
  raw : List UInt8
  hash : List UInt8

namespace LegacyTransaction

/-- RLP-encode the fields, with what stands behind the six that are always there. -/
def rlpEncode (tx : LegacyTransaction)
    (tail : Option (BitVec 128 × List UInt8 × List UInt8)) : List UInt8 :=
  rlpList ([rlpUint tx.nonce, rlpUint tx.gasPrice, rlpUint tx.gasLimit,
    rlpBytes ((tx.recipient.map WalletAddress.toBytes).getD []), rlpUint tx.value,
    rlpBytes tx.data.1] ++
    match tail with
    | none => []
    | some (v, r, s) => [rlpUint v, rlpBytes r, rlpBytes s])

/-- What is hashed for the signature. -/
def signingPayload (tx : LegacyTransaction) : List UInt8 :=
  tx.rlpEncode (some (BitVec.ofNat 128 tx.chainId.toNat, [], []))

/-- The EIP-155 signing digest. -/
def sighash (keccak256 : List UInt8 → List UInt8) (tx : LegacyTransaction) : List UInt8 :=
  keccak256 tx.signingPayload

/-- The number in front of the signature, in 64 bits. -/
def v (tx : LegacyTransaction) (sig : Signature) : UInt64 :=
  tx.chainId * 2 + 35 + sig.recoveryId.toUInt64

/-- Assemble the signed transaction from a signature. -/
def signWithSignature (keccak256 : List UInt8 → List UInt8) (tx : LegacyTransaction)
    (sig : Signature) : SignedTransaction :=
  let r := stripLeadingZeros (sig.rs.1.take 32)
  let s := stripLeadingZeros (sig.rs.1.drop 32)
  let raw := tx.rlpEncode (some (BitVec.ofNat 128 (tx.v sig).toNat, r, s))
  ⟨raw, keccak256 raw⟩

end LegacyTransaction

/-! ### What a node reads -/

/-- The fields of a transaction as numbers and byte strings. -/
structure TransactionFields where
  nonce : Nat
  gasPrice : Nat
  gasLimit : Nat
  recipient : List UInt8
  value : Nat
  data : List UInt8
  v : Nat
  r : Nat
  s : Nat
deriving DecidableEq

/-- Read an encoded transaction: a list of nine byte strings, seven of them numbers. -/
def readTransaction (bs : List UInt8) : Option TransactionFields :=
  match decode bs with
  | some (.list [nonce, gasPrice, gasLimit, recipient, value, data, v, r, s]) => do
      return { nonce := ← nonce.uint?, gasPrice := ← gasPrice.uint?, gasLimit := ← gasLimit.uint?,
               recipient := ← recipient.bytes?, value := ← value.uint?, data := ← data.bytes?,
               v := ← v.uint?, r := ← r.uint?, s := ← s.uint? }
  | _ => none

namespace LegacyTransaction

/-- The fields that are meant, with three numbers behind them. -/
def fields (tx : LegacyTransaction) (v r s : Nat) : TransactionFields where
  nonce := tx.nonce.toNat
  gasPrice := tx.gasPrice.toNat
  gasLimit := tx.gasLimit.toNat
  recipient := (tx.recipient.map WalletAddress.toBytes).getD []
  value := tx.value.toNat
  data := tx.data.1
  v := v
  r := r
  s := s

/-- The number in front of the signature as a mathematical integer. -/
def exactV (tx : LegacyTransaction) (sig : Signature) : Nat :=
  tx.chainId.toNat * 2 + 35 + sig.recoveryId.toNat

/-- It fits the 64 bits it is computed in. -/
def InRange (tx : LegacyTransaction) (sig : Signature) : Prop := tx.exactV sig < 2 ^ 64

instance (tx : LegacyTransaction) (sig : Signature) : Decidable (tx.InRange sig) :=
  inferInstanceAs (Decidable (_ < _))

end LegacyTransaction

/-- The two halves of a signature, as numbers. -/
def Signature.r (sig : Signature) : Nat := natOf (sig.rs.1.take 32)

def Signature.s (sig : Signature) : Nat := natOf (sig.rs.1.drop 32)

/-! ### Byte strings and lists -/

-- A length is written in at most eight bytes, without leading zeros.
theorem usizeBe_spec {n : Nat} (h : n < 2 ^ 64) : (usizeBe n).head? ≠ some 0 ∧
    natOf (usizeBe n) = n ∧ (usizeBe n).length ≤ 8 := by
  refine ⟨head_strip _, ?_, ?_⟩
  · rw [usizeBe, natOf_strip, natOf_beBytes, Nat.mod_eq_of_lt (by simpa using h)]
  · exact (length_strip_le _).trans_eq (length_beBytes 8 n)

/-- A byte string is decoded as it was. -/
theorem frames_rlpBytes {bytes : List UInt8} (h : bytes.length < 2 ^ 64) :
    Frames rlpBytes bytes := by
  unfold Frames rlpBytes
  by_cases hone : bytes.length = 1 ∧ bytes.all fun b => b.toNat < 0x80
  · -- A single byte is below the headers.
    rcases List.length_eq_one_iff.1 hone.1 with ⟨b, rfl⟩
    have hb : b.toNat < 0x80 := by simpa using hone.2
    simp only [if_pos hone]
    exact ⟨List.cons_ne_nil _ _, fun rest => by simp [splitHeader, hb]⟩
  · by_cases hshort : bytes.length ≤ 55
    · simp only [if_neg hone, if_pos hshort]
      refine ⟨List.cons_ne_nil _ _, fun rest => ?_⟩
      exact @splitHeader_short false _ rest hshort fun _ h1 hall => hone ⟨h1, hall⟩
    · simp only [if_neg hone, if_neg hshort]
      refine ⟨List.cons_ne_nil _ _, fun rest => ?_⟩
      rcases usizeBe_spec h with ⟨hhead, hvalue, hdigits⟩
      rw [List.cons_append, List.append_assoc]
      exact @splitHeader_long false _ _ rest hhead hvalue (by omega) hdigits

/-- A list is taken apart into what was joined for it. -/
theorem splitHeader_rlpList {items : List (List UInt8)} (h : items.flatten.length < 2 ^ 64) :
    splitHeader (rlpList items) = some (true, items.flatten, []) := by
  unfold rlpList
  rw [← List.length_flatten]
  by_cases hshort : items.flatten.length ≤ 55
  · simp only [if_pos hshort]
    have hread := @splitHeader_short true items.flatten [] hshort
      (fun hfalse => absurd hfalse (by decide))
    rwa [List.append_nil] at hread
  · simp only [if_neg hshort]
    rcases usizeBe_spec h with ⟨hhead, hvalue, hdigits⟩
    have hread := @splitHeader_long true _ items.flatten [] hhead hvalue
      (by omega) hdigits
    rwa [List.append_nil] at hread

theorem length_rlpList (items : List (List UInt8)) :
    items.flatten.length ≤ (rlpList items).length := by
  simp only [rlpList, List.length_append]
  omega

-- A byte string grows by nine bytes at most.
theorem length_rlpBytes {bytes : List UInt8} (h : bytes.length < 2 ^ 64) :
    (rlpBytes bytes).length ≤ bytes.length + 9 := by
  have hdigits := (usizeBe_spec h).2.2
  unfold rlpBytes
  split
  · omega
  · split
    · simp only [List.length_cons]
      omega
    · simp only [List.length_cons, List.length_append]
      omega

/-! ### Transactions -/

-- An address is known by its bytes.
theorem WalletAddress.toBytes_spec (a : WalletAddress) :
    Hex.encode a.toBytes = a.str.toList.drop 2 ∧ a.toBytes.length = 20 := by
  rcases isWalletAddress_iff.1 a.wellFormed with ⟨digits, hs, hlength, hdigits⟩
  rcases Hex.encode_decode (n := 20) (hlength.trans (by decide))
    (fun c hc => isLowerHex_iff.1 (hdigits c hc)) with ⟨bytes, hread, hwrite, hcount⟩
  have hbytes : a.toBytes = bytes := by
    rw [WalletAddress.toBytes, hs]
    exact congrArg (Option.getD · []) hread
  rw [hbytes, hs]
  exact ⟨hwrite, hcount⟩

theorem WalletAddress.toBytes_inj {a b : WalletAddress} (h : a.toBytes = b.toBytes) : a = b := by
  have hdigits := a.toBytes_spec.1.symm.trans ((congrArg Hex.encode h).trans b.toBytes_spec.1)
  rcases isWalletAddress_iff.1 a.wellFormed with ⟨as, ha, -, -⟩
  rcases isWalletAddress_iff.1 b.wellFormed with ⟨bs, hb, -, -⟩
  have hlist : a.str.toList = b.str.toList := by
    rw [ha, hb] at hdigits ⊢
    simp only [List.drop_succ_cons, List.drop_zero] at hdigits
    rw [hdigits]
  have hstr : a.str = b.str := String.toList_inj.1 hlist
  cases a
  cases b
  simp only at hstr
  subst hstr
  rfl

-- A recipient is told from none by the number of its bytes.
theorem recipient_inj {a b : Option WalletAddress}
    (h : (a.map WalletAddress.toBytes).getD [] = (b.map WalletAddress.toBytes).getD []) :
    a = b := by
  cases a with
  | none =>
      cases b with
      | none => rfl
      | some b =>
          have hlength := b.toBytes_spec.2
          rw [← (show [] = b.toBytes from h)] at hlength
          cases hlength
  | some a =>
      cases b with
      | none =>
          have hlength := a.toBytes_spec.2
          rw [show a.toBytes = [] from h] at hlength
          cases hlength
      | some b => exact congrArg some (WalletAddress.toBytes_inj h)

namespace LegacyTransaction

/-- The byte strings of the nine fields. -/
def strings (tx : LegacyTransaction) (v : BitVec 128) (r s : List UInt8) : List (List UInt8) :=
  [stripLeadingZeros (beBytes 16 tx.nonce.toNat), stripLeadingZeros (beBytes 16 tx.gasPrice.toNat),
   stripLeadingZeros (beBytes 16 tx.gasLimit.toNat),
   (tx.recipient.map WalletAddress.toBytes).getD [],
   stripLeadingZeros (beBytes 16 tx.value.toNat), tx.data.1,
   stripLeadingZeros (beBytes 16 v.toNat), r, s]

-- No field is long but the data.
theorem strings_length {tx : LegacyTransaction} {v : BitVec 128} {r s : List UInt8}
    (hr : r.length ≤ 32) (hs : s.length ≤ 32) :
    (∀ p ∈ tx.strings v r s, p.length < 2 ^ 64) ∧
      ((tx.strings v r s).flatMap rlpBytes).length < 2 ^ 64 := by
  have hnumber : ∀ n : Nat, (stripLeadingZeros (beBytes 16 n)).length ≤ 16 := fun n =>
    (length_strip_le _).trans_eq (length_beBytes 16 n)
  have hto : ((tx.recipient.map WalletAddress.toBytes).getD []).length ≤ 20 := by
    cases htx : tx.recipient with
    | none => exact Nat.zero_le _
    | some a => exact a.toBytes_spec.2.le
  have hdata := tx.data.2
  have hnonce := hnumber tx.nonce.toNat
  have hprice := hnumber tx.gasPrice.toNat
  have hlimit := hnumber tx.gasLimit.toNat
  have hvalue := hnumber tx.value.toNat
  have hv := hnumber v.toNat
  have hshort : ∀ p ∈ tx.strings v r s, p.length < 2 ^ 64 := by
    intro p hp
    simp only [strings, List.mem_cons, List.not_mem_nil, or_false] at hp
    rcases hp with rfl | rfl | rfl | rfl | rfl | rfl | rfl | rfl | rfl <;> omega
  refine ⟨hshort, ?_⟩
  have hgrow : ∀ p ∈ tx.strings v r s, (rlpBytes p).length ≤ p.length + 9 := fun p hp =>
    length_rlpBytes (hshort p hp)
  simp only [strings, List.mem_cons, List.not_mem_nil, or_false, forall_eq_or_imp,
    forall_eq] at hgrow
  simp only [strings, List.flatMap_cons, List.flatMap_nil, List.length_append, List.length_nil]
  omega

/-- The encoding of a transaction is read as its fields. -/
theorem read_encode (tx : LegacyTransaction) (v : BitVec 128) {r s : List UInt8}
    (hr : r.length ≤ 32) (hs : s.length ≤ 32) :
    readTransaction (tx.rlpEncode (some (v, stripLeadingZeros r, stripLeadingZeros s))) =
      some (tx.fields v.toNat (natOf r) (natOf s)) := by
  rcases @strings_length tx v _ _ ((length_strip_le r).trans hr)
    ((length_strip_le s).trans hs) with ⟨hshort, htotal⟩
  have hframes : ∀ p ∈ tx.strings v (stripLeadingZeros r) (stripLeadingZeros s),
      Frames rlpBytes p := fun p hp => frames_rlpBytes (hshort p hp)
  have hitems : tx.rlpEncode (some (v, stripLeadingZeros r, stripLeadingZeros s)) =
      rlpList ((tx.strings v (stripLeadingZeros r) (stripLeadingZeros s)).map rlpBytes) := rfl
  have hflat : ((tx.strings v (stripLeadingZeros r) (stripLeadingZeros s)).map rlpBytes).flatten =
      (tx.strings v (stripLeadingZeros r) (stripLeadingZeros s)).flatMap rlpBytes := by
    rw [List.flatMap_def]
  have hsplit : splitHeader (rlpList
      ((tx.strings v (stripLeadingZeros r) (stripLeadingZeros s)).map rlpBytes)) =
        some (true, (tx.strings v (stripLeadingZeros r) (stripLeadingZeros s)).flatMap rlpBytes,
          []) := by
    rw [splitHeader_rlpList (by rw [hflat]; exact htotal), hflat]
  have hdecode := decode_list hframes hsplit (by rw [← hflat]; exact length_rlpList _)
  have hnumber : ∀ n : BitVec 128, Item.uint? (.bytes (stripLeadingZeros (beBytes 16 n.toNat))) =
      some n.toNat := by
    intro n
    rw [Item.uint?, if_neg (head_strip _), natOf_strip, natOf_beBytes,
      Nat.mod_eq_of_lt (lt_of_lt_of_eq n.isLt (by decide))]
  have hhalf : ∀ bs : List UInt8, Item.uint? (.bytes (stripLeadingZeros bs)) = some (natOf bs) := by
    intro bs
    rw [Item.uint?, if_neg (head_strip _), natOf_strip]
  rw [readTransaction, hitems, hdecode]
  simp only [strings, List.map_cons, List.map_nil, hnumber, hhalf, Item.bytes?, Option.bind_eq_bind,
    Option.bind_some, Option.pure_def]
  rfl

-- What is read tells the transaction, up to the chain id.
theorem eq_of_fields {tx tx' : LegacyTransaction} {v r s v' r' s' : Nat}
    (h : tx.fields v r s = tx'.fields v' r' s') (hchain : tx.chainId = tx'.chainId) : tx = tx' := by
  simp only [fields, TransactionFields.mk.injEq] at h
  rcases h with ⟨hnonce, hprice, hlimit, hto, hvalue, hdata, -⟩
  cases tx
  cases tx'
  simp only at hchain hto hnonce hprice hlimit hvalue hdata
  rw [BitVec.toNat_inj.1 hnonce, BitVec.toNat_inj.1 hprice, BitVec.toNat_inj.1 hlimit,
    recipient_inj hto, BitVec.toNat_inj.1 hvalue, Subtype.ext hdata, hchain]

theorem read_signingPayload (tx : LegacyTransaction) :
    readTransaction tx.signingPayload = some (tx.fields tx.chainId.toNat 0 0) := by
  have hread := tx.read_encode (BitVec.ofNat 128 tx.chainId.toNat) (r := []) (s := [])
    (Nat.zero_le _) (Nat.zero_le _)
  have hlt := tx.chainId.toNat_lt
  rwa [BitVec.toNat_ofNat, Nat.mod_eq_of_lt (by omega)] at hread

theorem read_signed (keccak256 : List UInt8 → List UInt8) (tx : LegacyTransaction)
    (sig : Signature) : readTransaction (tx.signWithSignature keccak256 sig).raw =
      some (tx.fields (tx.v sig).toNat sig.r sig.s) := by
  have hlength := sig.rs.2
  have hread := tx.read_encode (BitVec.ofNat 128 (tx.v sig).toNat) (r := sig.rs.1.take 32)
    (s := sig.rs.1.drop 32) (by rw [List.length_take]; omega) (by rw [List.length_drop]; omega)
  have hlt := (tx.v sig).toNat_lt
  rwa [BitVec.toNat_ofNat, Nat.mod_eq_of_lt (by omega)] at hread

-- The number is the exact one up to its width.
theorem v_toNat (tx : LegacyTransaction) (sig : Signature) :
    (tx.v sig).toNat = tx.exactV sig % 2 ^ 64 := by
  have hrec : sig.recoveryId.toUInt64.toNat = sig.recoveryId.toNat := UInt8.toNat_toUInt64 _
  rw [v, UInt64.toNat_add, UInt64.toNat_add, UInt64.toNat_mul, hrec, exactV]
  simp only [UInt64.reduceToNat]
  omega

end LegacyTransaction

-- A signature is known by its halves.
theorem Signature.eq_of_halves {sig sig' : Signature} (hr : sig.r = sig'.r) (hs : sig.s = sig'.s)
    (hrec : sig.recoveryId = sig'.recoveryId) : sig = sig' := by
  have hsame : ∀ {a b : List UInt8}, a.length = b.length → natOf a = natOf b → a = b := by
    intro a b hlength hvalue
    rw [← beBytes_natOf a, ← beBytes_natOf b, hlength, hvalue]
  have hlength := sig.rs.2
  have hlength' := sig'.rs.2
  have htake := hsame (a := sig.rs.1.take 32) (b := sig'.rs.1.take 32)
    (by rw [List.length_take, List.length_take, hlength, hlength']) hr
  have hdrop := hsame (a := sig.rs.1.drop 32) (b := sig'.rs.1.drop 32)
    (by rw [List.length_drop, List.length_drop, hlength, hlength']) hs
  have hrs : sig.rs = sig'.rs := by
    refine Subtype.ext ?_
    rw [← List.take_append_drop 32 sig.rs.1, htake, hdrop, List.take_append_drop]
  cases sig
  cases sig'
  simp only at hrs hrec
  subst hrs
  subst hrec
  rfl

/-- The signing payload is read as the fields with the chain id, and tells the transaction. The
    signed encoding is read as the fields with the exact number and the signature if and only
    if that number fits its width, and where it does it tells the transaction and the
    signature. -/
theorem encoding_exact (keccak256 : List UInt8 → List UInt8) (tx tx' : LegacyTransaction)
    (sig sig' : Signature) :
    readTransaction tx.signingPayload = some (tx.fields tx.chainId.toNat 0 0) ∧
    (tx.signingPayload = tx'.signingPayload → tx = tx') ∧
    (readTransaction (tx.signWithSignature keccak256 sig).raw =
      some (tx.fields (tx.exactV sig) sig.r sig.s) ↔ tx.InRange sig) ∧
    (tx.InRange sig → tx'.InRange sig' →
      (tx.signWithSignature keccak256 sig).raw = (tx'.signWithSignature keccak256 sig').raw →
      tx = tx' ∧ sig = sig') := by
  refine ⟨tx.read_signingPayload, ?_, ?_, ?_⟩
  · intro h
    have hread := tx.read_signingPayload
    rw [h, tx'.read_signingPayload, Option.some.injEq] at hread
    have hchain : tx'.chainId.toNat = tx.chainId.toNat := congrArg TransactionFields.v hread
    exact (LegacyTransaction.eq_of_fields hread (UInt64.toNat_inj.1 hchain)).symm
  · rw [tx.read_signed, Option.some.injEq, LegacyTransaction.InRange]
    constructor
    · intro h
      have hv : (tx.v sig).toNat = tx.exactV sig := congrArg TransactionFields.v h
      rw [← hv]
      exact (tx.v sig).toNat_lt
    · intro h
      rw [tx.v_toNat, Nat.mod_eq_of_lt h]
  · intro h h' hraw
    have hread := tx.read_signed keccak256 sig
    rw [hraw, tx'.read_signed, Option.some.injEq, tx.v_toNat, tx'.v_toNat, Nat.mod_eq_of_lt h,
      Nat.mod_eq_of_lt h'] at hread
    -- The recovery id is the parity of the number, and the chain id is the rest.
    have hv : tx'.exactV sig' = tx.exactV sig := congrArg TransactionFields.v hread
    have hr : sig'.r = sig.r := congrArg TransactionFields.r hread
    have hs : sig'.s = sig.s := congrArg TransactionFields.s hread
    have hone := sig.parity
    have hone' := sig'.parity
    unfold LegacyTransaction.exactV at hv
    have hchain : tx'.chainId = tx.chainId := UInt64.toNat_inj.1 (by omega)
    have hrec : sig'.recoveryId = sig.recoveryId := UInt8.toNat_inj.1 (by omega)
    exact ⟨(LegacyTransaction.eq_of_fields hread hchain).symm,
      (Signature.eq_of_halves hr hs hrec).symm⟩

namespace Sample

/-- A plain transfer on some chain. -/
def transfer (chainId : UInt64) : LegacyTransaction where
  nonce := 9
  gasPrice := 20000000000
  gasLimit := 21000
  recipient := some ⟨"0x3535353535353535353535353535353535353535", by decide⟩
  value := 1000000000000000000
  data := ⟨[], by decide⟩
  chainId := chainId

def ones : Signature := ⟨⟨List.replicate 64 1, by decide⟩, 0, by decide⟩

/-- A transfer on the main network and one on the test network are told apart. -/
theorem encoding_exact_transfer :
    (transfer 25).signWithSignature (fun _ => []) ones ≠
      (transfer 338).signWithSignature (fun _ => []) ones := by
  intro h
  have hexact := encoding_exact (fun _ => []) (transfer 25) (transfer 338) ones ones
  have hboth := hexact.2.2.2 (by decide +kernel) (by decide +kernel)
    (congrArg SignedTransaction.raw h)
  exact absurd hboth.1 (by decide +kernel)

/-- On a chain with a number of 64 bits the number in front of the signature wraps around, and
    the transaction is encoded like one on another chain. -/
theorem encoding_wraps :
    readTransaction ((transfer 0x8000000000000000).signWithSignature (fun _ => []) ones).raw ≠
      some ((transfer 0x8000000000000000).fields
        ((transfer 0x8000000000000000).exactV ones) ones.r ones.s) ∧
    ((transfer 0x8000000000000000).signWithSignature (fun _ => []) ones).raw =
      ((transfer 0).signWithSignature (fun _ => []) ones).raw ∧
    transfer 0x8000000000000000 ≠ transfer 0 := by decide +kernel

end Sample

end PocketSkynet
