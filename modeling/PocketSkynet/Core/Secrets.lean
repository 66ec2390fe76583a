import PocketSkynet.Core.Crypto

/-!
# Password Entries

An entry of the password store is a key and a value, and both are sealed by the client under
subkeys of its encryption key. The MAC of a field covers the id of the entry and the name of
the field, so a field opens in one place only. The id is minted by the client for that reason.

## Main definitions

* `SealedField`: A sealed field, as it is sent and stored.
* `VaultKey`, `VaultKey.derive`: The keys of one account's store.
* `sealFieldWithIv`, `openField`: One field of one entry.

## Theorems

* `open_seal`: What has been sealed for a place is opened there.
-/

namespace PocketSkynet

/-- The keys of one account's password store. -/
structure VaultKey where
  encKey : List UInt8
  macKey : List UInt8
deriving DecidableEq, Repr

/-- The halves of an entry. -/
inductive SecretField where
  | key
  | value
deriving DecidableEq, Repr

def SecretField.asStr : SecretField → String
  | key => "key"
  | value => "value"

/-- One sealed field, in the shape the wire and the table both use. -/
structure SealedField where
  ciphertext : String
  iv : String
  hmac : String
deriving DecidableEq, Repr

def vaultLabel : String := "PocketSkynet/v1/password/vault"
def secretEncLabel : String := "PocketSkynet/v1/password/enc"
def secretMacLabel : String := "PocketSkynet/v1/password/mac"

/-- The one scheme there is. -/
def secretEncVer : Int := 1

/-- Bytes at most in one field, before it is sealed. -/
def maxSecretBytes : Nat := 4096

def entryIdMinLen : Nat := 10
def entryIdMaxLen : Nat := 100

/-- A character an entry id may have. -/
def isEntryIdChar (c : Char) : Bool := c.isAlphanum || c == '_' || c == '-'

/-- Whether a text could be an entry id a client minted. -/
def isValidEntryId (id : String) : Bool :=
  decide (entryIdMinLen ≤ id.utf8ByteSize) && decide (id.utf8ByteSize ≤ entryIdMaxLen) &&
    id.toList.all isEntryIdChar

def secretMacInput (entryId : String) (field : SecretField) (ivHex ciphertext : String) :
    String :=
  "PSv1|secret|" ++ entryId ++ "|" ++ field.asStr ++ "|" ++ ivHex ++ "|" ++ ciphertext

section Seal

variable {Secret Point : Type} (P : Primitives Secret Point)

/-- The keys under an encryption key. -/
def VaultKey.derive (encryptionPrivateKey : Bytes 32) : VaultKey :=
  let root := deriveSubkey P encryptionPrivateKey.1 vaultLabel
  ⟨deriveSubkey P root secretEncLabel, deriveSubkey P root secretMacLabel⟩

/-- Seal one field of one entry. -/
def sealFieldWithIv (vault : VaultKey) (entryId : String) (field : SecretField)
    (plaintext : String) (iv : Bytes 16) : Except CryptoError SealedField :=
  if ¬ isValidEntryId entryId then .error .invalidEncoding
  else if maxSecretBytes < plaintext.utf8ByteSize then .error .invalidEncoding
  else
    let ciphertext := P.base64 (P.aesEncrypt vault.encKey iv.1 (utf8 plaintext))
    let ivHex := hexEncode iv.1
    .ok ⟨ciphertext, ivHex, macHex P vault.macKey (secretMacInput entryId field ivHex ciphertext)⟩

/-- Verify and open one field, which has been read from its place. -/
def openField (vault : VaultKey) (entryId : String) (field : SecretField)
    (sealed : SealedField) : Except CryptoError String :=
  let macInput := secretMacInput entryId field sealed.iv sealed.ciphertext
  if verifyMac P vault.macKey macInput sealed.hmac then
    match decodeIv sealed.iv, P.unbase64 sealed.ciphertext with
    | some iv, some ciphertext => do
        let plaintext ← aesCbcDecrypt P vault.encKey iv ciphertext
        match ofUtf8 plaintext with
        | some text => .ok text
        | none => .error .decryptionFailed
    | _, _ => .error .decryptionFailed
  else .error .decryptionFailed

variable {P}

theorem sealFieldWithIv_eq_ok {vault : VaultKey} {entryId : String} {field : SecretField}
    {plaintext : String} {iv : Bytes 16} {sealed : SealedField}
    (h : sealFieldWithIv P vault entryId field plaintext iv = .ok sealed) :
    isValidEntryId entryId = true ∧
      sealed.ciphertext = P.base64 (P.aesEncrypt vault.encKey iv.1 (utf8 plaintext)) ∧
      sealed.iv = hexEncode iv.1 ∧
      sealed.hmac = macHex P vault.macKey
        (secretMacInput entryId field sealed.iv sealed.ciphertext) := by
  unfold sealFieldWithIv at h
  by_cases hid : isValidEntryId entryId = true
  · by_cases hlong : maxSecretBytes < plaintext.utf8ByteSize
    · rw [if_neg (not_not.2 hid), if_pos hlong] at h
      cases h
    · rw [if_neg (not_not.2 hid), if_neg hlong] at h
      cases h
      exact ⟨hid, rfl, rfl, rfl⟩
  · rw [if_pos hid] at h
    cases h

/-- A field that has been sealed for a place is opened there. -/
theorem open_seal (hP : P.Lawful) {vault : VaultKey} {entryId : String} {field : SecretField}
    {plaintext : String} {iv : Bytes 16} {sealed : SealedField}
    (h : sealFieldWithIv P vault entryId field plaintext iv = .ok sealed) :
    openField P vault entryId field sealed = .ok plaintext := by
  rcases sealFieldWithIv_eq_ok h with ⟨-, hciphertext, hiv, hmac⟩
  have hread : decodeIv (hexEncode iv.1) = some iv.1 := by simp [decodeIv, iv.2]
  have hlength := hP.length_encrypt vault.encKey iv.1 (utf8 plaintext)
  have hdecrypt : aesCbcDecrypt P vault.encKey iv.1
      (P.aesEncrypt vault.encKey iv.1 (utf8 plaintext)) = .ok (utf8 plaintext) := by
    simp [aesCbcDecrypt, hP.decrypt_encrypt, hlength.1, hlength.2]
  rw [openField, hmac, if_pos (verifyMac_macHex hP vault.macKey _), hiv, hread, hciphertext,
    hP.unbase64_base64]
  simp only [hdecrypt, bind, Except.bind, ofUtf8_utf8]

end Seal

end PocketSkynet
