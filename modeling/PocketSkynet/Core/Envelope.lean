import PocketSkynet.Core.Crypto

/-!
# Envelopes by Version

A message and a room key are written under a version. The writers of version 2 are in use,
and those of version 1 are gone, but what they wrote is still read. Version 1 has the key
itself where version 2 derives one for each purpose, takes the MAC under the *text* of the
key, and covers with it nothing but the ciphertext. A row without a version is one from
before there were versions.

## Main definitions

* `decryptMessageV2`, `decryptMessageV1`, `decryptMessageByVersion`: The readers of a message.
* `unwrapRoomKeyV1`, `unwrapRoomKeyByVersion`: The readers of a room key.
* `encryptMessageV1`, `wrapRoomKeyV1`: The writers that are gone.
* `WrittenMessage`, `WrittenWrap`: What the writers of both versions have left.

## Theorems

* `openContent_encrypt`: What comes back of an encrypted text, once it is authentic.
* `decryptMessageByVersion_written`, `unwrapRoomKeyByVersion_written`: Every record goes to
  the reader that recovers it.
* `envelopes_recovered`: All of it together.
-/

namespace PocketSkynet

section Envelope

variable {Secret Point : Type} (P : Primitives Secret Point)

/-- The text of an authentic ciphertext. An empty one is refused. -/
def openContent (encKey : List UInt8) (ivHex ciphertext : String) : Except CryptoError String :=
  match decodeIv ivHex, P.unbase64 ciphertext with
  | some iv, some bytes => do
      let plaintext ← aesCbcDecrypt P encKey iv bytes
      match ofUtf8 plaintext with
      | some text => if text = "" then .error .decryptionFailed else .ok text
      | none => .error .decryptionFailed
  | _, _ => .error .decryptionFailed

/-- Verify and decrypt a message of version 2. -/
def decryptMessageV2 (ciphertext ivHex hmacHex : String) (roomKey : Bytes 32) (roomId : String) :
    Except CryptoError String :=
  let macKey := deriveSubkey P roomKey.1 msgMacLabel
  if verifyMac P macKey (messageMacInput roomId ivHex ciphertext) hmacHex then
    openContent P (deriveSubkey P roomKey.1 msgEncLabel) ivHex ciphertext
  else .error .decryptionFailed

/-- The bytes of a key's text, which is the key of the MAC in version 1. -/
def keyAscii (key : List UInt8) : List UInt8 := Hex.ofAscii (Hex.encode key)

/-- Read a message of version 1. -/
def decryptMessageV1 (ciphertext ivHex hmacHex : String) (roomKey : Bytes 32) :
    Except CryptoError String :=
  if verifyMac P (keyAscii roomKey.1) ciphertext hmacHex then
    openContent P roomKey.1 ivHex ciphertext
  else .error .decryptionFailed

/-- Unwrap a room key of version 1. The shared secret is the key of the cipher itself. -/
def unwrapRoomKeyV1 (wrap : WrappedRoomKey) (recipient : Secret) : Except CryptoError (Bytes 32) :=
  match parseUncompressedPublicKey P wrap.ephemeralPublicKey with
  | .error _ => .error .decryptionFailed
  | .ok ephemeral =>
      let sharedX := P.sharedX recipient ephemeral
      if verifyMac P (keyAscii sharedX) wrap.encryptedSymmetricKey wrap.hmac then
        match decodeIv wrap.encryptionIv, P.unbase64 wrap.encryptedSymmetricKey with
        | some iv, some ciphertext => do
            let plaintext ← aesCbcDecrypt P sharedX iv ciphertext
            parseRoomKeyHex plaintext
        | _, _ => .error .decryptionFailed
      else .error .decryptionFailed

/-- A row without a version is of version 1. -/
def effectiveEncVer (encVer : Option UInt32) : UInt32 := encVer.getD 1

def decryptMessageByVersion (encVer : Option UInt32) (ciphertext ivHex hmacHex : String)
    (roomKey : Bytes 32) (roomId : String) : Except CryptoError String :=
  let version := effectiveEncVer encVer
  if 2 ≤ version then decryptMessageV2 P ciphertext ivHex hmacHex roomKey roomId
  else if version = 1 then decryptMessageV1 P ciphertext ivHex hmacHex roomKey
  else .error (.unsupportedVersion version)

def unwrapRoomKeyByVersion (encVer : Option UInt32) (wrap : WrappedRoomKey) (recipient : Secret)
    (roomId : String) : Except CryptoError (Bytes 32) :=
  let version := effectiveEncVer encVer
  if 2 ≤ version then unwrapRoomKeyV2 P wrap recipient roomId
  else if version = 1 then unwrapRoomKeyV1 P wrap recipient
  else .error (.unsupportedVersion version)

/-! ### The writers of version 1 -/

/-- A message under the room key itself. -/
def encryptMessageV1 (plaintext : String) (roomKey : Bytes 32) (iv : Bytes 16) :
    EncryptedMessage :=
  let content := P.base64 (P.aesEncrypt roomKey.1 iv.1 (utf8 plaintext))
  ⟨content, hexEncode iv.1, macHex P (keyAscii roomKey.1) content⟩

/-- A room key under the shared secret itself. -/
def wrapRoomKeyV1 (roomKey : Bytes 32) (recipient : Point) (ephemeral : Secret)
    (iv : Bytes 16) : WrappedRoomKey :=
  let sharedX := P.sharedX ephemeral recipient
  let ciphertext := P.base64 (P.aesEncrypt sharedX iv.1 (keyAscii roomKey.1))
  ⟨ciphertext, uncompressedPublicKeyHex P (P.publicKey ephemeral), hexEncode iv.1,
    macHex P (keyAscii sharedX) ciphertext⟩

/-- What has been written of a text for a room, with the version on the row. -/
inductive WrittenMessage (roomKey : Bytes 32) (roomId plaintext : String) :
    Option UInt32 → EncryptedMessage → Prop where
  | v2 {sealed : EncryptedMessage} (iv : Bytes 16)
      (h : encryptMessageV2With P plaintext roomKey roomId iv = .ok sealed) :
      WrittenMessage roomKey roomId plaintext (some 2) sealed
  | v1 (iv : Bytes 16) :
      WrittenMessage roomKey roomId plaintext (some 1) (encryptMessageV1 P plaintext roomKey iv)
  | unversioned (iv : Bytes 16) :
      WrittenMessage roomKey roomId plaintext none (encryptMessageV1 P plaintext roomKey iv)

/-- What has been written of a room key for a recipient, with the version on the row. -/
inductive WrittenWrap (roomKey : Bytes 32) (roomId : String) (recipient : Secret) :
    Option UInt32 → WrappedRoomKey → Prop where
  | v2 (ephemeral : Secret) (iv : Bytes 16) :
      WrittenWrap roomKey roomId recipient (some 2)
        (wrapRoomKeyV2With P roomKey (P.publicKey recipient) roomId ephemeral iv)
  | v1 (ephemeral : Secret) (iv : Bytes 16) :
      WrittenWrap roomKey roomId recipient (some 1)
        (wrapRoomKeyV1 P roomKey (P.publicKey recipient) ephemeral iv)
  | unversioned (ephemeral : Secret) (iv : Bytes 16) :
      WrittenWrap roomKey roomId recipient none
        (wrapRoomKeyV1 P roomKey (P.publicKey recipient) ephemeral iv)

variable {P}

/-! ### The round trips -/

@[simp] theorem decodeIv_hexEncode (iv : Bytes 16) : decodeIv (hexEncode iv.1) = some iv.1 := by
  simp [decodeIv, iv.2]

theorem aesCbcDecrypt_encrypt (hP : P.Lawful) (key : List UInt8) (iv : Bytes 16)
    (text : List UInt8) : aesCbcDecrypt P key iv.1 (P.aesEncrypt key iv.1 text) = .ok text := by
  have hlength := hP.length_encrypt key iv.1 text
  simp [aesCbcDecrypt, hP.decrypt_encrypt, hlength.1, hlength.2]

/-- What is decrypted is the text that was encrypted, unless that is empty. -/
theorem openContent_encrypt (hP : P.Lawful) (key : List UInt8) (iv : Bytes 16) (text : String) :
    openContent P key (hexEncode iv.1) (P.base64 (P.aesEncrypt key iv.1 (utf8 text))) =
      if text = "" then .error .decryptionFailed else .ok text := by
  simp only [openContent, decodeIv_hexEncode, hP.unbase64_base64, aesCbcDecrypt_encrypt hP,
    bind, Except.bind, ofUtf8_utf8]

-- Nothing blank is ever written under version 2, and an empty text is blank.
theorem encryptMessageV2With_eq_ok {plaintext roomId : String} {roomKey : Bytes 32}
    {iv : Bytes 16} {sealed : EncryptedMessage}
    (h : encryptMessageV2With P plaintext roomKey roomId iv = .ok sealed) :
    plaintext ≠ "" ∧
      sealed.content = P.base64 (P.aesEncrypt (deriveSubkey P roomKey.1 msgEncLabel) iv.1
        (utf8 plaintext)) ∧
      sealed.iv = hexEncode iv.1 ∧
      sealed.hmac = macHex P (deriveSubkey P roomKey.1 msgMacLabel)
        (messageMacInput roomId sealed.iv sealed.content) := by
  unfold encryptMessageV2With at h
  by_cases hblank : isBlank plaintext = true
  · rw [if_pos hblank] at h
    cases h
  · rw [if_neg hblank] at h
    cases h
    refine ⟨?_, rfl, rfl, rfl⟩
    rintro rfl
    exact hblank rfl

/-- A message of version 2 is read back under its room and its key. -/
theorem decrypt_encrypt_v2 (hP : P.Lawful) {plaintext roomId : String} {roomKey : Bytes 32}
    {iv : Bytes 16} {sealed : EncryptedMessage}
    (h : encryptMessageV2With P plaintext roomKey roomId iv = .ok sealed) :
    decryptMessageV2 P sealed.content sealed.iv sealed.hmac roomKey roomId = .ok plaintext := by
  rcases encryptMessageV2With_eq_ok h with ⟨hnonempty, hcontent, hiv, hmac⟩
  rw [decryptMessageV2, hmac, if_pos (verifyMac_macHex hP _ _), hiv, hcontent,
    openContent_encrypt hP, if_neg hnonempty]

-- The reader of version 1 goes by the same keys as the writer, and refuses an empty text.
theorem decrypt_encrypt_v1 (hP : P.Lawful) (plaintext : String) (roomKey : Bytes 32)
    (iv : Bytes 16) :
    decryptMessageV1 P (encryptMessageV1 P plaintext roomKey iv).content
      (encryptMessageV1 P plaintext roomKey iv).iv (encryptMessageV1 P plaintext roomKey iv).hmac
      roomKey = if plaintext = "" then .error .decryptionFailed else .ok plaintext := by
  rw [decryptMessageV1, encryptMessageV1, if_pos (verifyMac_macHex hP _ _),
    openContent_encrypt hP]

theorem unwrap_wrap_v1 (hP : P.Lawful) (roomKey : Bytes 32) (recipient ephemeral : Secret)
    (iv : Bytes 16) :
    unwrapRoomKeyV1 P (wrapRoomKeyV1 P roomKey (P.publicKey recipient) ephemeral iv) recipient =
      .ok roomKey := by
  have hshared := hP.sharedX_comm recipient ephemeral
  simp only [unwrapRoomKeyV1, wrapRoomKeyV1, parse_uncompressed hP, hshared,
    verifyMac_macHex hP, if_true, decodeIv_hexEncode, hP.unbase64_base64,
    aesCbcDecrypt_encrypt hP]
  exact parseRoomKeyHex_encode roomKey

/-- A written message goes to the reader that recovers it. -/
theorem decryptMessageByVersion_written (hP : P.Lawful) {roomKey : Bytes 32}
    {roomId plaintext : String} {version : Option UInt32} {sealed : EncryptedMessage}
    (h : WrittenMessage P roomKey roomId plaintext version sealed) (hnonempty : plaintext ≠ "") :
    decryptMessageByVersion P version sealed.content sealed.iv sealed.hmac roomKey roomId =
      .ok plaintext := by
  cases h with
  | v2 iv h => exact decrypt_encrypt_v2 hP h
  | v1 iv => exact (decrypt_encrypt_v1 hP plaintext roomKey iv).trans (if_neg hnonempty)
  | unversioned iv => exact (decrypt_encrypt_v1 hP plaintext roomKey iv).trans (if_neg hnonempty)

/-- A wrapped key goes to the reader that recovers it. -/
theorem unwrapRoomKeyByVersion_written (hP : P.Lawful) {roomKey : Bytes 32} {roomId : String}
    {recipient : Secret} {version : Option UInt32} {wrap : WrappedRoomKey}
    (h : WrittenWrap P roomKey roomId recipient version wrap) :
    unwrapRoomKeyByVersion P version wrap recipient roomId = .ok roomKey := by
  cases h with
  | v2 ephemeral iv => exact unwrap_wrap hP roomKey recipient roomId ephemeral iv
  | v1 ephemeral iv => exact unwrap_wrap_v1 hP roomKey recipient ephemeral iv
  | unversioned ephemeral iv => exact unwrap_wrap_v1 hP roomKey recipient ephemeral iv

/-- Both formats of both kinds of record come back: what the writers in use have written by
    their own readers, and what any writer has left by the version on the row. Only an empty
    message, which version 1 could write, is not read. -/
theorem envelopes_recovered (hP : P.Lawful) :
    (∀ (plaintext roomId : String) (roomKey : Bytes 32) (iv : Bytes 16)
        (sealed : EncryptedMessage),
      encryptMessageV2With P plaintext roomKey roomId iv = .ok sealed →
        decryptMessageV2 P sealed.content sealed.iv sealed.hmac roomKey roomId = .ok plaintext) ∧
    (∀ (roomKey : Bytes 32) (recipient ephemeral : Secret) (roomId : String) (iv : Bytes 16),
      unwrapRoomKeyV2 P (wrapRoomKeyV2With P roomKey (P.publicKey recipient) roomId ephemeral iv)
        recipient roomId = .ok roomKey) ∧
    (∀ (roomKey : Bytes 32) (roomId plaintext : String) (version : Option UInt32)
        (sealed : EncryptedMessage),
      WrittenMessage P roomKey roomId plaintext version sealed → plaintext ≠ "" →
        decryptMessageByVersion P version sealed.content sealed.iv sealed.hmac roomKey roomId =
          .ok plaintext) ∧
    ∀ (roomKey : Bytes 32) (roomId : String) (recipient : Secret) (version : Option UInt32)
        (wrap : WrappedRoomKey),
      WrittenWrap P roomKey roomId recipient version wrap →
        unwrapRoomKeyByVersion P version wrap recipient roomId = .ok roomKey := by
  refine ⟨?_, ?_, ?_, ?_⟩
  · intro plaintext roomId roomKey iv sealed h
    exact decrypt_encrypt_v2 hP h
  · intro roomKey recipient ephemeral roomId iv
    exact unwrap_wrap hP roomKey recipient roomId ephemeral iv
  · intro roomKey roomId plaintext version sealed h hnonempty
    exact decryptMessageByVersion_written hP h hnonempty
  · intro roomKey roomId recipient version wrap h
    exact unwrapRoomKeyByVersion_written hP h

end Envelope

namespace Sample

def zeroKey : Bytes 32 := ⟨List.replicate 32 0, rfl⟩

def zeroIv : Bytes 16 := ⟨List.replicate 16 0, rfl⟩

/-- A message that was written before there were versions. -/
theorem envelopes_recovered_unversioned :
    decryptMessageByVersion openPrimitives none
      (encryptMessageV1 openPrimitives "attack at dawn" zeroKey zeroIv).content
      (encryptMessageV1 openPrimitives "attack at dawn" zeroKey zeroIv).iv
      (encryptMessageV1 openPrimitives "attack at dawn" zeroKey zeroIv).hmac
      zeroKey "room-vector-0001" = .ok "attack at dawn" :=
  (envelopes_recovered openPrimitives_lawful).2.2.1 zeroKey "room-vector-0001" "attack at dawn"
    none _ (.unversioned zeroIv) (by decide)

/-- An empty message of version 1 is refused by the reader it is sent to. -/
theorem empty_unread :
    WrittenMessage openPrimitives zeroKey "room-vector-0001" "" (some 1)
        (encryptMessageV1 openPrimitives "" zeroKey zeroIv) ∧
      decryptMessageByVersion openPrimitives (some 1)
        (encryptMessageV1 openPrimitives "" zeroKey zeroIv).content
        (encryptMessageV1 openPrimitives "" zeroKey zeroIv).iv
        (encryptMessageV1 openPrimitives "" zeroKey zeroIv).hmac
        zeroKey "room-vector-0001" = .error .decryptionFailed := by
  refine ⟨.v1 zeroIv, ?_⟩
  decide +kernel

end Sample

end PocketSkynet
