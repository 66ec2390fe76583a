import PocketSkynet.Core.Api
import PocketSkynet.Lib.Frame
import PocketSkynet.Lib.Hex

/-!
# End-to-End Encryption

Messages are encrypted under subkeys of the symmetric key of their room, and a room key is
wrapped for one member under subkeys of a secret shared with that member. Both carry a MAC
over everything that is sent with them, which is checked before anything is decrypted.

The primitives come from other crates and are parameters here. `Primitives.Lawful` says
what is used of them: a shared secret is the same from both sides, and what has been
encrypted or encoded comes back.

A public key is published with a signature of the wallet it belongs to. Whoever wraps a
room key for a member rebuilds the signed text from the address it means to share with.

## Main definitions

* `Primitives`, `Primitives.Lawful`: What comes from other crates.
* `wrapRoomKeyV2With`, `unwrapRoomKeyV2`: A room key for one member.
* `encryptMessageV2With`: A message under a room key.
* `buildKeyBindingMessage`, `verifyKeyBinding`: The check on a published key.

## Theorems

* `unwrap_wrap`: A member can open what has been wrapped for its key.
* `verifyKeyBinding_eq_ok`: What a key that passes has been checked for.
-/

namespace PocketSkynet

/-- Byte strings of one length. -/
abbrev Bytes (n : Nat) := { bytes : List UInt8 // bytes.length = n }

/-- Bytes that are all alike. -/
def Bytes.replicate (n : Nat) (b : UInt8) : Bytes n := ⟨List.replicate n b, List.length_replicate⟩

def hexEncode (bytes : List UInt8) : String := String.ofList (Hex.encode bytes)

def hexDecode (s : String) : Option (List UInt8) := Hex.decode s.toList

@[simp] theorem hexDecode_hexEncode (bytes : List UInt8) :
    hexDecode (hexEncode bytes) = some bytes := by
  rw [hexDecode, hexEncode, String.toList_ofList, Hex.decode_encode]

/-- The primitives that come from other crates: HMAC-SHA256, AES-256 in CBC mode with
    padding, Base64, and the curve. -/
structure Primitives (Secret Point : Type) where
  hmac : List UInt8 → List UInt8 → List UInt8
  aesEncrypt : List UInt8 → List UInt8 → List UInt8 → List UInt8
  aesDecrypt : List UInt8 → List UInt8 → List UInt8 → Option (List UInt8)
  base64 : List UInt8 → String
  unbase64 : String → Option (List UInt8)
  publicKey : Secret → Point
  sharedX : Secret → Point → List UInt8
  toSec1 : Point → List UInt8
  fromSec1 : List UInt8 → Option Point

/-- What the code relies on. -/
structure Primitives.Lawful {Secret Point : Type} (P : Primitives Secret Point) : Prop where
  length_hmac : ∀ key text, (P.hmac key text).length = 32
  decrypt_encrypt : ∀ key iv text, P.aesDecrypt key iv (P.aesEncrypt key iv text) = some text
  length_encrypt : ∀ key iv text, P.aesEncrypt key iv text ≠ [] ∧
    (P.aesEncrypt key iv text).length % 16 = 0
  unbase64_base64 : ∀ bytes, P.unbase64 (P.base64 bytes) = some bytes
  sharedX_comm : ∀ a b, P.sharedX a (P.publicKey b) = P.sharedX b (P.publicKey a)
  fromSec1_toSec1 : ∀ point, P.fromSec1 (P.toSec1 point) = some point
  sec1 : ∀ point, (P.toSec1 point).length = 65 ∧ (P.toSec1 point).head? = some 4

inductive CryptoError where
  | decryptionFailed
  | invalidPublicKey
  | invalidEncoding
  | emptyPlaintext
  | keyBindingFailed
  | unsupportedVersion (version : UInt32)
  | randomness
deriving DecidableEq, Repr

/-- A room key wrapped to one member's public key. -/
structure WrappedRoomKey where
  encryptedSymmetricKey : String
  ephemeralPublicKey : String
  encryptionIv : String
  hmac : String
deriving DecidableEq, Repr

/-- An encrypted message as it is sent. -/
structure EncryptedMessage where
  content : String
  iv : String
  hmac : String
deriving DecidableEq, Repr

section Crypto

variable {Secret Point : Type} (P : Primitives Secret Point)

def msgEncLabel : String := "FruitNation/v2/message/enc"
def msgMacLabel : String := "FruitNation/v2/message/mac"
def wrapEncLabel : String := "FruitNation/v2/roomkey/enc"
def wrapMacLabel : String := "FruitNation/v2/roomkey/mac"

def deriveSubkey (key : List UInt8) (label : String) : List UInt8 := P.hmac key (utf8 label)

def macHex (key : List UInt8) (input : String) : String := hexEncode (P.hmac key (utf8 input))

def verifyMac (key : List UInt8) (input expectedHex : String) : Bool :=
  match hexDecode expectedHex with
  | some expected => expected.length == 32 && P.hmac key (utf8 input) == expected
  | none => false

def aesCbcDecrypt (key iv ciphertext : List UInt8) : Except CryptoError (List UInt8) :=
  if ciphertext.isEmpty || ciphertext.length % 16 != 0 then .error .decryptionFailed
  else
    match P.aesDecrypt key iv ciphertext with
    | some text => .ok text
    | none => .error .decryptionFailed

def decodeIv (ivHex : String) : Option (List UInt8) :=
  (hexDecode ivHex).filter fun iv => iv.length = 16

def messageMacInput (roomId ivHex ciphertext : String) : String :=
  "FNv2|message|" ++ roomId ++ "|" ++ ivHex ++ "|" ++ ciphertext

def encryptMessageV2With (plaintext : String) (roomKey : Bytes 32) (roomId : String)
    (iv : Bytes 16) : Except CryptoError EncryptedMessage :=
  if isBlank plaintext then .error .emptyPlaintext
  else
    let encKey := deriveSubkey P roomKey.1 msgEncLabel
    let macKey := deriveSubkey P roomKey.1 msgMacLabel
    let content := P.base64 (P.aesEncrypt encKey iv.1 (utf8 plaintext))
    let ivHex := hexEncode iv.1
    .ok ⟨content, ivHex, macHex P macKey (messageMacInput roomId ivHex content)⟩

def roomKeyMacInput (roomId ephemeral ivHex ciphertext : String) : String :=
  "FNv2|roomkey|" ++ roomId ++ "|" ++ ephemeral ++ "|" ++ ivHex ++ "|" ++ ciphertext

def uncompressedPublicKeyHex (point : Point) : String := hexEncode (P.toSec1 point)

/-- Parse a 130-hex-character uncompressed public key. -/
def parseUncompressedPublicKey (hex : String) : Except CryptoError Point :=
  if hex.utf8ByteSize ≠ 130 then .error .invalidPublicKey
  else
    match hexDecode hex with
    | none => .error .invalidPublicKey
    | some bytes =>
        if bytes.head? ≠ some 4 then .error .invalidPublicKey
        else
          match P.fromSec1 bytes with
          | some point => .ok point
          | none => .error .invalidPublicKey

/-- Wrap a room key under a secret shared by an ephemeral key and the recipient's. What is
    encrypted is the text of the key, not its bytes. -/
def wrapRoomKeyV2With (roomKey : Bytes 32) (recipient : Point) (roomId : String)
    (ephemeral : Secret) (iv : Bytes 16) : WrappedRoomKey :=
  let sharedX := P.sharedX ephemeral recipient
  let encKey := deriveSubkey P sharedX wrapEncLabel
  let macKey := deriveSubkey P sharedX wrapMacLabel
  let ciphertext := P.aesEncrypt encKey iv.1 (Hex.ofAscii (Hex.encode roomKey.1))
  let encryptedSymmetricKey := P.base64 ciphertext
  let ephemeralPublicKey := uncompressedPublicKeyHex P (P.publicKey ephemeral)
  let encryptionIv := hexEncode iv.1
  ⟨encryptedSymmetricKey, ephemeralPublicKey, encryptionIv,
    macHex P macKey
      (roomKeyMacInput roomId ephemeralPublicKey encryptionIv encryptedSymmetricKey)⟩

/-- What is drawn for one wrap. A draw can fail. -/
structure Draw (Secret : Type) where
  secretKey : Option Secret
  iv : Option (Bytes 16)

def wrapRoomKeyV2 (roomKey : Bytes 32) (recipient : Point) (roomId : String)
    (draw : Draw Secret) : Except CryptoError WrappedRoomKey :=
  match draw.secretKey, draw.iv with
  | some ephemeral, some iv => .ok (wrapRoomKeyV2With P roomKey recipient roomId ephemeral iv)
  | _, _ => .error .randomness

/-- A room key is 64 digits. -/
def parseRoomKeyHex (plaintext : List UInt8) : Except CryptoError (Bytes 32) :=
  match Hex.decode (Hex.ascii plaintext) with
  | some key =>
      if h : key.length = 32 then .ok ⟨key, h⟩ else .error .decryptionFailed
  | none => .error .decryptionFailed

def unwrapRoomKeyV2 (wrap : WrappedRoomKey) (recipient : Secret) (roomId : String) :
    Except CryptoError (Bytes 32) :=
  match parseUncompressedPublicKey P wrap.ephemeralPublicKey with
  | .error _ => .error .decryptionFailed
  | .ok ephemeral =>
      let sharedX := P.sharedX recipient ephemeral
      let macKey := deriveSubkey P sharedX wrapMacLabel
      let macInput := roomKeyMacInput roomId wrap.ephemeralPublicKey wrap.encryptionIv
        wrap.encryptedSymmetricKey
      if verifyMac P macKey macInput wrap.hmac then
        match decodeIv wrap.encryptionIv, P.unbase64 wrap.encryptedSymmetricKey with
        | some iv, some ciphertext => do
            let encKey := deriveSubkey P sharedX wrapEncLabel
            let plaintext ← aesCbcDecrypt P encKey iv ciphertext
            parseRoomKeyHex plaintext
        | _, _ => .error .decryptionFailed
      else .error .decryptionFailed

/-! ### Key binding -/

/-- The text a wallet signs for its public key. -/
def buildKeyBindingMessage (address : WalletAddress) (publicKey : String) : String :=
  "FruitNation Public Key Binding\n\nAddress: " ++ address.str ++
    "\nEncryption Public Key: " ++ publicKey

/-- The parsed key, if the signature over its binding message recovers to the address. -/
def verifyKeyBinding (recoverAddress : String → String → Option WalletAddress)
    (address : WalletAddress) (publicKey publicKeySig : Option String) :
    Except CryptoError Point :=
  match (publicKey.map trimmed).filter (· ≠ ""), (publicKeySig.map trimmed).filter (· ≠ "") with
  | some key, some signature =>
      match parseUncompressedPublicKey P key with
      | .error _ => .error .keyBindingFailed
      | .ok point =>
          if recoverAddress (buildKeyBindingMessage address key) signature = some address then
            .ok point
          else .error .keyBindingFailed
  | _, _ => .error .keyBindingFailed

variable {P}

/-- A key that passes is the one in a text that recovers to the address. -/
theorem verifyKeyBinding_eq_ok {recoverAddress : String → String → Option WalletAddress}
    {address : WalletAddress} {publicKey publicKeySig : Option String} {point : Point}
    (h : verifyKeyBinding P recoverAddress address publicKey publicKeySig = .ok point) :
    ∃ key signature, parseUncompressedPublicKey P key = .ok point ∧
      recoverAddress (buildKeyBindingMessage address key) signature = some address := by
  unfold verifyKeyBinding at h
  split at h
  · rename_i key signature _ _
    split at h
    · cases h
    · rename_i point' hparse
      split at h
      · rename_i hrecover
        cases h
        exact ⟨key, signature, hparse, hrecover⟩
      · cases h
  · cases h

theorem verifyMac_macHex (hP : P.Lawful) (key : List UInt8) (input : String) :
    verifyMac P key input (macHex P key input) = true := by
  simp [verifyMac, macHex, hP.length_hmac]

theorem parse_uncompressed (hP : P.Lawful) (point : Point) :
    parseUncompressedPublicKey P (uncompressedPublicKeyHex P point) = .ok point := by
  have hsize : (uncompressedPublicKeyHex P point).utf8ByteSize = 130 := by
    rw [uncompressedPublicKeyHex, hexEncode, Hex.utf8ByteSize_ofList (Hex.ascii_encode _),
      Hex.length_encode, (hP.sec1 point).1]
  have hhead := (hP.sec1 point).2
  rw [parseUncompressedPublicKey, if_neg (by omega), uncompressedPublicKeyHex, hexDecode_hexEncode]
  simp only [hhead, ne_eq, not_true_eq_false, if_false, hP.fromSec1_toSec1]

theorem parseRoomKeyHex_encode (key : Bytes 32) :
    parseRoomKeyHex (Hex.ofAscii (Hex.encode key.1)) = .ok key := by
  rw [parseRoomKeyHex, Hex.ascii_ofAscii_encode, Hex.decode_encode]
  exact dif_pos key.2

/-- What has been wrapped for a key is opened with its secret. -/
theorem unwrap_wrap (hP : P.Lawful) (roomKey : Bytes 32) (recipient : Secret) (roomId : String)
    (ephemeral : Secret) (iv : Bytes 16) :
    unwrapRoomKeyV2 P (wrapRoomKeyV2With P roomKey (P.publicKey recipient) roomId ephemeral iv)
      recipient roomId = .ok roomKey := by
  have hshared := hP.sharedX_comm recipient ephemeral
  have hiv : decodeIv (hexEncode iv.1) = some iv.1 := by
    simp [decodeIv, iv.2]
  have hdecrypt : ∀ key text, aesCbcDecrypt P key iv.1 (P.aesEncrypt key iv.1 text) = .ok text := by
    intro key text
    have hlength := hP.length_encrypt key iv.1 text
    simp [aesCbcDecrypt, hP.decrypt_encrypt, hlength.1, hlength.2]
  simp only [unwrapRoomKeyV2, wrapRoomKeyV2With, parse_uncompressed hP, hshared,
    verifyMac_macHex hP, if_true, hiv, hP.unbase64_base64, hdecrypt]
  exact parseRoomKeyHex_encode roomKey

end Crypto

namespace Sample

/-- Fill up to a whole number of blocks, in the manner of the real cipher. -/
def pad (text : List UInt8) : List UInt8 :=
  text ++ List.replicate (16 - text.length % 16) (UInt8.ofNat (16 - text.length % 16))

def unpad (text : List UInt8) : Option (List UInt8) :=
  text.getLast?.map fun n => text.take (text.length - n.toNat)

theorem length_pad (text : List UInt8) : pad text ≠ [] ∧ (pad text).length % 16 = 0 := by
  have hlength : (pad text).length = text.length + (16 - text.length % 16) := by
    rw [pad, List.length_append, List.length_replicate]
  refine ⟨fun hnil => ?_, by omega⟩
  rw [hnil, List.length_nil] at hlength
  omega

theorem unpad_pad (text : List UInt8) : unpad (pad text) = some text := by
  have hpos : 16 - text.length % 16 ≠ 0 := by omega
  have hcode : (UInt8.ofNat (16 - text.length % 16)).toNat = 16 - text.length % 16 := by
    rw [UInt8.toNat_ofNat']
    omega
  have hlast : (pad text).getLast? = some (UInt8.ofNat (16 - text.length % 16)) := by
    rw [pad, List.getLast?_append, List.getLast?_replicate, if_neg hpos]
    rfl
  rw [unpad, hlast, Option.map_some, hcode, pad, List.length_append, List.length_replicate,
    Nat.add_sub_cancel, List.take_left']
  rfl

/-- Lawful primitives that hide nothing. There is one secret. -/
def openPrimitives : Primitives Unit Unit where
  hmac _ _ := List.replicate 32 0
  aesEncrypt _ _ text := pad text
  aesDecrypt _ _ text := unpad text
  base64 := hexEncode
  unbase64 := hexDecode
  publicKey _ := ()
  sharedX _ _ := []
  toSec1 _ := 4 :: List.replicate 64 0
  fromSec1 _ := some ()

theorem openPrimitives_lawful : openPrimitives.Lawful where
  length_hmac _ _ := rfl
  decrypt_encrypt _ _ text := unpad_pad text
  length_encrypt _ _ text := length_pad text
  unbase64_base64 := hexDecode_hexEncode
  sharedX_comm _ _ := rfl
  fromSec1_toSec1 _ := rfl
  sec1 _ := ⟨rfl, rfl⟩

end Sample

end PocketSkynet
