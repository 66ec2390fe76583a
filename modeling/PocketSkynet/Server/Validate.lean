import PocketSkynet.Core.Secrets

/-!
# Input Validation

The checks on what a request brings. Each names the field it refuses.

A number of bytes is counted where the source counts bytes, and a number of characters where
it counts characters.

## Main definitions

* `Validate.username`, `Validate.profileImage`: What a profile shows.
* `Validate.publicKey`, `Validate.signature`: Hexadecimal texts.
* `Validate.roomKeyHex`, `Validate.sealedCiphertext`, `Validate.secretEntryId`: The parts of a
  sealed entry.

## Theorems

* `eq_of_secretEntryId`: What passes is kept as it came.
-/

namespace PocketSkynet

namespace Validate

/-- A required field that was absent. -/
def required (name what : String) : ApiError := .field name (what ++ " is required")

def walletAddress (name : String) (raw : Option String) : Except ApiError WalletAddress :=
  match raw.map WalletAddress.new with
  | some (.ok wallet) => .ok wallet
  | _ => .error (.field name "Invalid wallet address format")

/-! ### Profiles -/

/-- Characters rejected as markup. -/
def isForbiddenMarkup (c : Char) : Bool :=
  ['<', '>', '\x7b', '\x7d', ';', '"', '\'', '\x60', '\\'].contains c

def isForbiddenUsername (c : Char) : Bool := isForbiddenMarkup c || c == ','

/-- A control character. -/
def isControl (c : Char) : Bool := decide (c.toNat ≤ 0x1f) || c.toNat == 0x7f

def isAsciiWhitespace (c : Char) : Bool := [0x20, 0x09, 0x0a, 0x0c, 0x0d].contains c.toNat

def sqlVerbs : List String :=
  ["DROP", "DELETE", "UPDATE", "INSERT", "CREATE", "ALTER", "EXEC", "UNION", "SELECT"]

/-- The text goes on with the verb and white space behind it. -/
def startsVerb (cs : List Char) (verb : String) : Bool :=
  (cs.take verb.length).map Char.toUpper == verb.toList &&
    ((cs.drop verb.length).head?.any isAsciiWhitespace)

/-- A semicolon is followed by a verb. -/
def looksLikeSqlInjection (cs : List Char) : Bool :=
  cs.tails.any fun rest =>
    rest.head? == some ';' &&
      sqlVerbs.any (startsVerb ((rest.drop 1).dropWhile isAsciiWhitespace))

def username (raw : Option String) : Except ApiError String := do
  let raw ← orRefuse raw (required "username" "Username")
  let cs := trim raw.toList
  ensure (!cs.any isForbiddenUsername) (.field "username" "Username contains invalid characters")
  ensure (!cs.any isControl) (.field "username" "Username contains control characters")
  ensure (!looksLikeSqlInjection cs) (.field "username" "Username contains invalid characters")
  ensure (decide (3 ≤ cs.length) && decide (cs.length ≤ 100))
    (.field "username" "Username must be between 3 and 100 characters")
  return String.ofList cs

/-- The name of a portrait of the gallery. -/
def isPresetSlug (slug : List Char) : Bool :=
  !slug.isEmpty && decide (slug.length ≤ 64) &&
    slug.all fun c => c.isLower || c.isDigit || c == '-'

/-- The name of a hosted image, split at its last dot. -/
def isImageName (name : List Char) : Bool :=
  let ext := (name.reverse.takeWhile (· ≠ '.')).reverse
  let stem := name.take (name.length - ext.length - 1)
  name.contains '.' && stem.length == 64 && stem.all isAsciiHexDigit &&
    ["png", "jpg", "webp", "gif"].contains (String.ofList ext)

/-- The chosen avatar. An absent field is `none`, and an empty one is `some none`. -/
def profileImage (raw : Option String) : Except ApiError (Option (Option String)) :=
  match raw.map fun s => trim s.toList with
  | none => .ok none
  | some cs =>
      if cs.isEmpty then .ok (some none)
      else if "preset:".toList.isPrefixOf cs then
        if isPresetSlug (cs.drop 7) then .ok (some (some (String.ofList cs)))
        else .error (.field "profileImage" "Invalid profile image")
      else if "/api/images/".toList.isPrefixOf cs && isImageName (cs.drop 12) then
        .ok (some (some (String.ofList cs)))
      else .error (.field "profileImage" "Invalid profile image")

/-! ### Webhooks and messages -/

/-- The display name of a webhook. -/
def webhookName (raw : Option String) : Except ApiError String := do
  let raw ← orRefuse raw (required "name" "Webhook name")
  let cs := trim raw.toList
  ensure (!cs.any isForbiddenMarkup) (.field "name" "Webhook name contains invalid characters")
  ensure (decide (1 ≤ cs.length) && decide (cs.length ≤ 50))
    (.field "name" "Webhook name must be between 1 and 50 characters")
  return String.ofList cs

def messageContent (raw : Option String) : Except ApiError String := do
  let raw ← orRefuse raw (required "content" "Message content")
  let cs := trim raw.toList
  ensure (decide (cs.length ≠ 0)) (required "content" "Message content")
  ensure (decide (cs.length ≤ 5000))
    (.field "content" "Message content must be at most 5000 characters")
  return String.ofList cs

/-! ### Hexadecimal texts -/

def isAnyHex (s : String) (len : Nat) : Bool :=
  s.utf8ByteSize == len && s.toList.all isAsciiHexDigit

/-- A public key, in hexadecimal digits. -/
def publicKey (raw : Option String) : Except ApiError String := do
  let raw ← orRefuse raw (.field "publicKey" "Public key must be hex")
  ensure (raw ≠ "" && decide (raw.utf8ByteSize ≤ 130) && raw.toList.all isAsciiHexDigit)
    (.field "publicKey" "Public key must be hex")
  return raw

/-- A signature, in hexadecimal digits after `0x`. -/
def signature (name : String) (raw : Option String) : Except ApiError String := do
  let raw ← orRefuse raw (.field name "Signature must be a hex string")
  ensure (decide (2 < raw.utf8ByteSize) && decide (raw.utf8ByteSize ≤ 200) &&
    "0x".toList.isPrefixOf raw.toList && (raw.toList.drop 2).all isAsciiHexDigit)
    (.field name "Signature must be a hex string")
  return raw

def roomKeyHex (name : String) (raw : Option String) (len : Nat) : Except ApiError String := do
  let raw ← orRefuse raw (.field name "is required")
  ensure (isAnyHex raw len) (.field name ("must be " ++ toString len ++ " hex characters"))
  return raw

/-! ### Sealed entries -/

/-- Bytes at most in a sealed text. -/
def maxSealedCiphertext : Nat := 8192

def sealedCiphertext (name : String) (raw : Option String) : Except ApiError String := do
  let raw ← orRefuse raw (.field name "Ciphertext is required")
  ensure (decide (1 ≤ raw.utf8ByteSize) && decide (raw.utf8ByteSize ≤ maxSealedCiphertext))
    (.field name ("Ciphertext must be 1-" ++ toString maxSealedCiphertext ++ " characters"))
  return raw

/-- The one version there is, which is also the one by default. -/
def secretEncVer (raw : Option Int) : Except ApiError Int := do
  let v := raw.getD PocketSkynet.secretEncVer
  ensure (v == PocketSkynet.secretEncVer)
    (.field "encVer" ("Encryption version must be " ++ toString PocketSkynet.secretEncVer))
  return v

def secretEntryId (raw : String) : Except ApiError String := do
  ensure (isValidEntryId raw) (.field "id" "Entry id must be 10-100 characters of [A-Za-z0-9_-]")
  return raw

theorem eq_of_secretEntryId {raw id : String} (h : secretEntryId raw = .ok id) : raw = id := by
  simp only [secretEntryId, bind_eq_ok, pure_eq_ok] at h
  rcases h with ⟨_, -, h⟩
  exact h

end Validate

end PocketSkynet
