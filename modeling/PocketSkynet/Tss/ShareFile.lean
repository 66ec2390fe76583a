import PocketSkynet.Core.Crypto
import PocketSkynet.Lib.Firsts

/-!
# Sealed Share Files

The shares of an MPC wallet leave the browser as files, one for each party, sealed under one
passphrase. A file has a header in the clear, and the seal covers the header as well as
what is encrypted. Any `threshold` of the files open the wallet again.

Opening works on files that come from anywhere. It compares every header with that of the
first file, bounds the work the header asks for, keeps the first file of every party, and
reads as many of these as the threshold asks for. Only then is a seal checked.

PBKDF2, HMAC, AES, Base64 and the JSON text of the secrets come from other crates and are
parameters here.

## Main definitions

* `ShareFile`, `ShareSecrets`: A file, and what lies under its seal.
* `SealCrypto`, `SealCrypto.Lawful`: What comes from other crates.
* `sealShares`: The files of one wallet.
* `sealMac`: What the seal of a file covers.
* `openShares`: What a list of files opens to, and what was spent on it.
-/

namespace PocketSkynet

namespace Tss

def formatVersion : UInt32 := 3

def fileType : String := "pocketskynet-tss-share"

def kdfIterations : UInt32 := 600000

/-- The most iterations `openShares` will run. -/
def maxKdfIterations : UInt32 := 1000000

def maxParties : UInt16 := 5

inductive TssError where
  | invalidParams (t n : UInt16)
  | invalidSigners (message : String)
  | store (message : String)
  | badPassphrase
  | entropy
deriving DecidableEq, Repr

/-- Validate `t`-of-`n` parameters. -/
def validateParams (t n : UInt16) : Except TssError Unit :=
  if t < 2 ∨ n < t ∨ maxParties < n then .error (.invalidParams t n) else .ok ()

/-- One party's sealed share. -/
structure ShareFile where
  fileType : String
  version : UInt32
  address : String
  threshold : UInt16
  parties : UInt16
  partyIndex : UInt16
  createdAt : UInt64
  kdfSalt : String
  kdfIterations : UInt32
  iv : String
  ciphertext : String
  mac : String
deriving DecidableEq, Repr

/-- What lives under one file's seal. -/
structure ShareSecrets where
  share : String
  encPrivHex : String
  bindingSig : String
deriving DecidableEq, Repr

/-- Everything a quorum of opened files yields. -/
structure OpenedWallet where
  address : WalletAddress
  threshold : UInt16
  parties : UInt16
  signers : List (UInt16 × String)
  encPrivHex : String
  bindingSig : String
deriving DecidableEq, Repr

/-- What comes from other crates: PBKDF2-HMAC-SHA256 with 64 bytes of output, HMAC-SHA256,
    AES-256 in CBC mode with padding, Base64, and the JSON text of the secrets. -/
structure SealCrypto where
  pbkdf2 : List UInt8 → List UInt8 → UInt32 → Bytes 64
  hmac : List UInt8 → List UInt8 → List UInt8
  aesEncrypt : List UInt8 → List UInt8 → List UInt8 → List UInt8
  aesDecrypt : List UInt8 → List UInt8 → List UInt8 → Option (List UInt8)
  base64 : List UInt8 → String
  unbase64 : String → Option (List UInt8)
  toVec : ShareSecrets → Except String (List UInt8)
  fromSlice : List UInt8 → Option ShareSecrets

/-- What the code relies on: what has been encrypted, encoded or written comes back. -/
structure SealCrypto.Lawful (P : SealCrypto) : Prop where
  decrypt_encrypt : ∀ key iv text, P.aesDecrypt key iv (P.aesEncrypt key iv text) = some text
  unbase64_base64 : ∀ bytes, P.unbase64 (P.base64 bytes) = some bytes
  fromSlice_toVec : ∀ secrets text, P.toVec secrets = .ok text → P.fromSlice text = some secrets

section Store

variable (P : SealCrypto)

/-- The two halves of the key material: to encrypt with, and to seal with. -/
def deriveKeys (passphrase : String) (salt : List UInt8) (iterations : UInt32) :
    List UInt8 × List UInt8 :=
  let okm := (P.pbkdf2 (utf8 passphrase) salt iterations).1
  (okm.take 32, okm.drop 32)

/-- Everything the file asserts, as the seal's HMAC is fed it. -/
def macInput (f : ShareFile) (iv ct : List UInt8) : List UInt8 :=
  framed (utf8 f.fileType) ++ (framed (utf8 f.address) ++ (framed (utf8 f.kdfSalt) ++
    (beBytes 4 f.version.toNat ++ (beBytes 2 f.threshold.toNat ++ (beBytes 2 f.parties.toNat ++
    (beBytes 2 f.partyIndex.toNat ++ (beBytes 8 f.createdAt.toNat ++
    (beBytes 4 f.kdfIterations.toNat ++ (iv ++ ct)))))))))

def sealMac (macKey : List UInt8) (f : ShareFile) (iv ct : List UInt8) : List UInt8 :=
  P.hmac macKey (macInput f iv ct)

/-! ### Sealing -/

/-- What is drawn for one wallet: a salt, and an IV for each file. A draw can fail. -/
structure SealDraws where
  salt : Option (Bytes 16)
  iv : Nat → Option (Bytes 16)

/-- What is the same for all files of one wallet. -/
structure SealInput where
  address : WalletAddress
  threshold : UInt16
  parties : UInt16
  shares : List String
  encPrivHex : String
  bindingSig : String
  passphrase : String
  now : UInt64
  draws : SealDraws

/-- The file of one party, under the keys derived for the wallet. -/
def sealFile (input : SealInput) (salt : List UInt8) (i : Nat) (share : String) :
    Except TssError ShareFile :=
  match P.toVec ⟨share, input.encPrivHex, input.bindingSig⟩ with
  | .error e => .error (.store ("encoding share " ++ toString i ++ ": " ++ e))
  | .ok plaintext =>
      match input.draws.iv i with
      | none => .error .entropy
      | some iv =>
          let keys := deriveKeys P input.passphrase salt kdfIterations
          let ct := P.aesEncrypt keys.1 iv.1 plaintext
          -- The seal covers the header, so the file is there before its seal.
          let file : ShareFile := ⟨fileType, formatVersion, input.address.str,
            input.threshold, input.parties, UInt16.ofNat i, input.now, hexEncode salt,
            kdfIterations, hexEncode iv.1, P.base64 ct, ""⟩
          .ok { file with mac := hexEncode (sealMac P keys.2 file iv.1 ct) }

/-- The files of the shares from party `i` on. -/
def sealFrom (input : SealInput) (salt : List UInt8) :
    Nat → List String → Except TssError (List ShareFile)
  | _, [] => .ok []
  | i, share :: rest => do
      let file ← sealFile P input salt i share
      let files ← sealFrom input salt (i + 1) rest
      return file :: files

/-- Seal one wallet's shares into as many files under one passphrase. -/
def sealShares (input : SealInput) : Except TssError (List ShareFile) :=
  if input.shares.length ≠ input.parties.toNat then
    .error (.store ("expected " ++ toString input.parties ++ " shares to seal, got " ++
      toString input.shares.length))
  else
    match input.draws.salt with
    | none => .error .entropy
    | some salt => sealFrom P input salt.1 0 input.shares

/-! ### Opening -/

/-- The checks on the header of the first file. -/
def checkFirst (first : ShareFile) : Except TssError WalletAddress :=
  if first.fileType = fileType ∧ first.version < formatVersion then
    .error (.store ("this share file was created by an older PocketSkynet (version " ++
      toString first.version ++ "); its wallet cannot sign here — create a new MPC wallet and " ++
      "move the funds"))
  else if first.fileType ≠ fileType ∨ first.version ≠ formatVersion then
    .error (.store ("not a version-" ++ toString formatVersion ++ " " ++ fileType ++ " file"))
  else
    match WalletAddress.new first.address with
    | .error e => .error (.store ("bad address in share file: " ++ e.message))
    | .ok address => do
        validateParams first.threshold first.parties
        if first.kdfIterations = 0 ∨ maxKdfIterations < first.kdfIterations then
          .error (.store ("share file asks for " ++ toString first.kdfIterations ++
            " KDF iterations; this build accepts at most " ++ toString maxKdfIterations))
        else
          .ok address

/-- Every file belongs to one wallet and one seal family. -/
def checkFamily (first : ShareFile) : List ShareFile → Except TssError Unit
  | [] => .ok ()
  | f :: files =>
      if f.fileType ≠ fileType ∨ f.version ≠ formatVersion then
        .error (.store "mixed or unsupported share-file versions")
      else if f.address ≠ first.address ∨ f.threshold ≠ first.threshold ∨
          f.parties ≠ first.parties ∨ f.kdfSalt ≠ first.kdfSalt ∨
          f.kdfIterations ≠ first.kdfIterations then
        .error (.invalidSigners "these share files belong to different wallets")
      else if f.parties ≤ f.partyIndex then
        .error (.store "share file names an impossible party")
      else checkFamily first files

/-- Distinct parties, lowest first: of every party the first file that names it. -/
def chooseDistinct (files : List ShareFile) : List ShareFile :=
  firsts (fun i j : UInt16 => i ≤ j) ShareFile.partyIndex files

/-- The files that are read, if they are enough. -/
def chooseQuorum (first : ShareFile) (files : List ShareFile) :
    Except TssError (List ShareFile) :=
  let chosen := chooseDistinct files
  if chosen.length < first.threshold.toNat then
    .error (.invalidSigners ("this wallet needs " ++ toString first.threshold ++
      " distinct shares to sign, got " ++ toString chosen.length))
  else .ok (chosen.take first.threshold.toNat)

/-- The IV, the ciphertext and the seal of a file as bytes. -/
def decodeFile (f : ShareFile) : Option (List UInt8 × List UInt8 × List UInt8) := do
  let iv ← (hexDecode f.iv).filter fun iv => iv.length = 16
  let ct ← P.unbase64 f.ciphertext
  let mac ← hexDecode f.mac
  return (iv, ct, mac)

/-- One file under the keys of the wallet. The seal is checked before anything is decrypted,
    and whatever is wrong is one and the same error. -/
def openFile (keys : List UInt8 × List UInt8) (f : ShareFile) : Except TssError ShareSecrets :=
  match decodeFile P f with
  | none => .error .badPassphrase
  | some (iv, ct, mac) =>
      if sealMac P keys.2 f iv ct = mac then
        match (P.aesDecrypt keys.1 iv ct).bind P.fromSlice with
        | none => .error .badPassphrase
        | some secrets => .ok secrets
      else .error .badPassphrase

/-- The files one after the other. The identity is that of the first one. -/
def openFiles (keys : List UInt8 × List UInt8) :
    Option (String × String) → List (UInt16 × String) → List ShareFile →
      Except TssError (Option (String × String) × List (UInt16 × String))
  | identity, signers, [] => .ok (identity, signers)
  | identity, signers, f :: files =>
      match openFile P keys f with
      | .error e => .error e
      | .ok secrets =>
          openFiles keys (some (identity.getD (secrets.encPrivHex, secrets.bindingSig)))
            (signers ++ [(f.partyIndex, secrets.share)]) files

/-- How an attempt to open ends. A missing identity is a panic. -/
inductive OpenResult where
  | opened (wallet : OpenedWallet)
  | failed (e : TssError)
  | panicked
deriving DecidableEq, Repr

/-- An attempt to open, with the key-derivation iterations it has run. -/
structure Opening where
  iterations : Nat
  result : OpenResult
deriving DecidableEq, Repr

/-- Everything up to the key derivation: the address, and the files that are to be read. -/
def admitFiles (files : List ShareFile) :
    Except TssError (ShareFile × WalletAddress × List ShareFile) :=
  match files.head? with
  | none => .error (.invalidSigners "no share files provided")
  | some first => do
      let address ← checkFirst first
      checkFamily first files
      let chosen ← chooseQuorum first files
      return (first, address, chosen)

/-- Open a quorum of share files with the wallet passphrase. -/
def openShares (files : List ShareFile) (passphrase : String) : Opening :=
  match admitFiles files with
  | .error e => ⟨0, .failed e⟩
  | .ok (first, address, chosen) =>
      match hexDecode first.kdfSalt with
      | none => ⟨0, .failed .badPassphrase⟩
      | some salt =>
          let keys := deriveKeys P passphrase salt first.kdfIterations
          ⟨first.kdfIterations.toNat,
            match openFiles P keys none [] chosen with
            | .error e => .failed e
            | .ok (none, _) => .panicked
            | .ok (some identity, signers) => .opened ⟨address, first.threshold, first.parties,
                signers, identity.1, identity.2⟩⟩

end Store

end Tss

end PocketSkynet
