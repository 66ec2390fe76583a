import PocketSkynet.Core.Crypto
import PocketSkynet.Server.Sample

/-!
# Wrapping a Room Key for Others

The public keys of the other members come from the server, which may send anything. So a
key is wrapped for every address the caller names, and for nobody else: the address is
looked up in what the server has sent, and the key found there is used only if the wallet
of that very address has signed it. What cannot be wrapped is refused, and a rotation that
meets a refusal sends nothing.

## Main definitions

* `wrapOne`, `wrapRoomKeyFor`: One recipient, and all of them.
* `rotateKey`: A rotation, up to what is done with the answer.
* `WrapOutcome`: A wrap or a refusal.
* `WrapOf`: A wrap of a room key to a key that its recipient's wallet has signed.

## Theorems

* `wrapRoomKeyFor_outcomes`: One outcome for each recipient, in the caller's order.
* `wrapOf_of_mem`: Every wrap is to a signed key.
* `wraps_fail_closed`: Both of these, and what a rotation sends.
-/

namespace PocketSkynet

/-- One entry of the answer to a request for public keys. -/
structure PublicKeyEntry where
  walletAddress : WalletAddress
  publicKey : String
  publicKeySig : Option String
deriving DecidableEq, Repr

/-- Why a wrap could not be produced for a recipient. -/
inductive WrapRefusalReason where
  | noPublishedKey
  | unverifiable
  | bindingMismatch
  | wrapFailed
deriving DecidableEq, Repr

def WrapRefusalReason.message : WrapRefusalReason → String
  | noPublishedKey => "hasn't signed in yet, so has no encryption key"
  | unverifiable => "has an unsigned encryption key"
  | bindingMismatch => "has a key that doesn't match their wallet"
  | wrapFailed => "could not be sent a key"

structure WrapRefusal where
  address : WalletAddress
  reason : WrapRefusalReason
deriving DecidableEq, Repr

/-- A wrap as it is sent. -/
structure RoomKeyWrap where
  wrap : KeyWrap
  keyVersion : Option Int
deriving DecidableEq, Repr

/-- Who has signed a text with a signature, if anybody. -/
abbrev RecoverAddress := String → String → Option WalletAddress

section Wrapping

variable {Secret Point : Type} (P : Primitives Secret Point) (recover : RecoverAddress)

/-- The wrap for one recipient. The signed text is rebuilt from the address the caller
    means to share with. -/
def wrapOne (roomKey : Bytes 32) (room : RoomId) (entries : List PublicKeyEntry)
    (keyVersion : Option Int) (address : WalletAddress) (draw : Draw Secret) :
    Except WrapRefusalReason RoomKeyWrap :=
  match entries.find? fun e => e.walletAddress = address with
  | none => .error .noPublishedKey
  | some entry =>
      if trimmed (entry.publicKeySig.getD "") = "" then .error .unverifiable
      else
        match verifyKeyBinding P recover address (some entry.publicKey) entry.publicKeySig with
        | .error _ => .error .bindingMismatch
        | .ok point =>
            match wrapRoomKeyV2 P roomKey point room.str draw with
            | .error _ => .error .wrapFailed
            | .ok w =>
                .ok ⟨⟨address, w.encryptedSymmetricKey, w.ephemeralPublicKey, w.encryptionIv,
                  w.hmac, 2⟩, keyVersion⟩

/-- The wraps and the refusals for the caller's list of recipients, each with a draw of its
    own. -/
def wrapRoomKeyFor (roomKey : Bytes 32) (room : RoomId) (entries : List PublicKeyEntry)
    (keyVersion : Option Int) :
    List WalletAddress → (Nat → Draw Secret) → List RoomKeyWrap × List WrapRefusal
  | [], _ => ([], [])
  | address :: rest, draws =>
      let others := wrapRoomKeyFor roomKey room entries keyVersion rest fun n => draws (n + 1)
      match wrapOne P recover roomKey room entries keyVersion address (draws 0) with
      | .ok wrap => (wrap :: others.1, others.2)
      | .error reason => (others.1, ⟨address, reason⟩ :: others.2)

/-! ### Rotation -/

/-- The texts of the user's language that a rotation can answer with. -/
structure RotationTexts where
  unlockBeforeRotate : String
  couldntReadMembers : String
  someoneRotatedFirst : String

/-- What a rotation sends. -/
structure RotatePost where
  newVersion : Int
  keys : List RoomKeyWrap
deriving DecidableEq, Repr

/-- What the server has to say to it. -/
inductive RotateAnswer where
  | ok
  | conflict
  | failed (message : String)
deriving DecidableEq, Repr

/-- What the client knows and what it is told while it rotates a key. A request that fails
    is answered by a text. -/
structure RotateInput (Secret : Type) where
  texts : RotationTexts
  canDecrypt : Bool
  members : Except String (List WalletAddress)
  publicKeys : List WalletAddress → Except String (List PublicKeyEntry)
  newKey : Option (Bytes 32)
  draws : Nat → Draw Secret
  currentKeyVersion : Option Int
  answer : RotatePost → RotateAnswer

/-- The text of a rotation that has been refused. Three refusals are named at most. -/
def refusalText (refusals : List WrapRefusal) : String :=
  "Can't rotate the key yet: " ++
    "; ".intercalate ((refusals.take 3).map fun r => abbreviated r.address ++ " " ++
      r.reason.message) ++
    ". Everyone must have a verified encryption key."

/-- What is sent for a rotation, or why nothing is. -/
def rotatePost (room : RoomId) (i : RotateInput Secret) : Except String RotatePost :=
  if i.canDecrypt then
    match i.members with
    | .error message => .error message
    | .ok roster =>
        if roster.isEmpty then .error i.texts.couldntReadMembers
        else
          match i.publicKeys roster, i.newKey with
          | .error message, _ => .error message
          | .ok _, none =>
              .error "Couldn't generate a key: secure random number generation failed"
          | .ok entries, some newKey =>
              let out := wrapRoomKeyFor P recover newKey room entries none roster i.draws
              if out.2.isEmpty then .ok ⟨i.currentKeyVersion.getD 1 + 1, out.1⟩
              else .error (refusalText out.2)
  else .error i.texts.unlockBeforeRotate

/-- A rotation: what has been sent, and what the user is told. -/
def rotateKey (room : RoomId) (i : RotateInput Secret) :
    Option RotatePost × Except String Unit :=
  match rotatePost P recover room i with
  | .error message => (none, .error message)
  | .ok post =>
      (some post,
        match i.answer post with
        | .ok => .ok ()
        | .conflict => .error i.texts.someoneRotatedFirst
        | .failed message => .error message)

/-! ### What is sent -/

/-- What has come of one recipient: a wrap or a refusal. -/
inductive WrapOutcome where
  | wrapped (wrap : RoomKeyWrap)
  | refused (refusal : WrapRefusal)

namespace WrapOutcome

/-- Whose outcome it is. -/
def address : WrapOutcome → WalletAddress
  | wrapped wrap => wrap.wrap.userAddress
  | refused refusal => refusal.address

def wrap? : WrapOutcome → Option RoomKeyWrap
  | wrapped wrap => some wrap
  | refused _ => none

def refusal? : WrapOutcome → Option WrapRefusal
  | wrapped _ => none
  | refused refusal => some refusal

end WrapOutcome

/-- A wrap of a room key to a key that the wallet of its recipient has signed. -/
def WrapOf (Signed : WalletAddress → String → Prop) (roomKey : Bytes 32) (room : RoomId)
    (w : RoomKeyWrap) : Prop :=
  ∃ key point ephemeral iv, Signed w.wrap.userAddress
      (buildKeyBindingMessage w.wrap.userAddress key) ∧
    parseUncompressedPublicKey P key = .ok point ∧
    ⟨w.wrap.encryptedSymmetricKey, w.wrap.ephemeralPublicKey, w.wrap.encryptionIv,
      w.wrap.hmac⟩ = wrapRoomKeyV2With P roomKey point room.str ephemeral iv

variable {P} {recover} {roomKey : Bytes 32} {room : RoomId} {entries : List PublicKeyEntry}
variable {keyVersion : Option Int}

-- What a wrap for one recipient has been checked for.
theorem wrapOne_eq_ok {address : WalletAddress} {draw : Draw Secret} {w : RoomKeyWrap}
    (h : wrapOne P recover roomKey room entries keyVersion address draw = .ok w) :
    w.wrap.userAddress = address ∧ ∃ key signature point ephemeral iv,
      parseUncompressedPublicKey P key = .ok point ∧
      recover (buildKeyBindingMessage address key) signature = some address ∧
      ⟨w.wrap.encryptedSymmetricKey, w.wrap.ephemeralPublicKey, w.wrap.encryptionIv,
        w.wrap.hmac⟩ = wrapRoomKeyV2With P roomKey point room.str ephemeral iv := by
  unfold wrapOne at h
  split at h
  · cases h
  rename_i entry _
  by_cases hsigned : trimmed (entry.publicKeySig.getD "") = ""
  · rw [if_pos hsigned] at h
    cases h
  rw [if_neg hsigned] at h
  cases hbinding : verifyKeyBinding P recover address (some entry.publicKey)
    entry.publicKeySig with
  | error e =>
      rw [hbinding] at h
      cases h
  | ok point =>
      rw [hbinding] at h
      rcases verifyKeyBinding_eq_ok hbinding with ⟨key, signature, hparse, hrecover⟩
      unfold wrapRoomKeyV2 at h
      cases hsecret : draw.secretKey with
      | none => simp [hsecret] at h
      | some ephemeral =>
          cases hiv : draw.iv with
          | none => simp [hiv] at h
          | some iv =>
              simp only [hsecret, hiv, Except.ok.injEq] at h
              subst h
              exact ⟨rfl, key, signature, point, ephemeral, iv, hparse, hrecover, rfl⟩

/-- Every recipient has one outcome, in the caller's order. -/
theorem wrapRoomKeyFor_outcomes (recipients : List WalletAddress) (draws : Nat → Draw Secret) :
    ∃ outcomes : List WrapOutcome, outcomes.map WrapOutcome.address = recipients ∧
      (wrapRoomKeyFor P recover roomKey room entries keyVersion recipients draws).1 =
        outcomes.filterMap WrapOutcome.wrap? ∧
      (wrapRoomKeyFor P recover roomKey room entries keyVersion recipients draws).2 =
        outcomes.filterMap WrapOutcome.refusal? := by
  induction recipients generalizing draws with
  | nil => exact ⟨[], rfl, rfl, rfl⟩
  | cons address rest ih =>
      rcases ih fun n => draws (n + 1) with ⟨outcomes, haddress, hwraps, hrefusals⟩
      cases hone : wrapOne P recover roomKey room entries keyVersion address (draws 0) with
      | ok w =>
          have hself := (wrapOne_eq_ok hone).1
          refine ⟨.wrapped w :: outcomes, ?_, ?_, ?_⟩
          · rw [List.map_cons, haddress, WrapOutcome.address, hself]
          · simp [wrapRoomKeyFor, hone, WrapOutcome.wrap?, hwraps]
          · simp [wrapRoomKeyFor, hone, List.filterMap_cons, WrapOutcome.refusal?, hrefusals]
      | error reason =>
          refine ⟨.refused ⟨address, reason⟩ :: outcomes, ?_, ?_, ?_⟩
          · rw [List.map_cons, haddress, WrapOutcome.address]
          · simp [wrapRoomKeyFor, hone, List.filterMap_cons, WrapOutcome.wrap?, hwraps]
          · simp [wrapRoomKeyFor, hone, WrapOutcome.refusal?, hrefusals]

/-- Every wrap is one of the room key, to a key its recipient's wallet has signed. -/
theorem wrapOf_of_mem {Signed : WalletAddress → String → Prop}
    (hrecover : ∀ message signature a, recover message signature = some a → Signed a message)
    {recipients : List WalletAddress} {draws : Nat → Draw Secret} {w : RoomKeyWrap}
    (hw : w ∈ (wrapRoomKeyFor P recover roomKey room entries keyVersion recipients draws).1) :
    WrapOf P Signed roomKey room w := by
  induction recipients generalizing draws with
  | nil => exact absurd hw List.not_mem_nil
  | cons address rest ih =>
      cases hone : wrapOne P recover roomKey room entries keyVersion address (draws 0) with
      | error reason =>
          simp only [wrapRoomKeyFor, hone] at hw
          exact ih hw
      | ok w' =>
          simp only [wrapRoomKeyFor, hone, List.mem_cons] at hw
          rcases hw with rfl | hw
          · rcases wrapOne_eq_ok hone with ⟨rfl, key, signature, point, ephemeral, iv, hparse,
              hsigned, hwrap⟩
            exact ⟨key, point, ephemeral, iv, hrecover _ _ _ hsigned, hparse, hwrap⟩
          · exact ih hw

-- Without a refusal there is a wrap for every recipient, and for nobody else.
theorem covered_of_no_refusal {recipients : List WalletAddress} {draws : Nat → Draw Secret}
    (hnone : (wrapRoomKeyFor P recover roomKey room entries keyVersion recipients draws).2 = []) :
    (wrapRoomKeyFor P recover roomKey room entries keyVersion recipients draws).1.map
      (fun w => w.wrap.userAddress) = recipients := by
  induction recipients generalizing draws with
  | nil => rfl
  | cons address rest ih =>
      cases hone : wrapOne P recover roomKey room entries keyVersion address (draws 0) with
      | error reason => simp [wrapRoomKeyFor, hone] at hnone
      | ok w =>
          simp only [wrapRoomKeyFor, hone] at hnone ⊢
          rw [List.map_cons, ih hnone, (wrapOne_eq_ok hone).1]

theorem rotatePost_eq_ok {i : RotateInput Secret} {post : RotatePost}
    (h : rotatePost P recover room i = .ok post) :
    ∃ roster entries newKey, i.members = .ok roster ∧ i.newKey = some newKey ∧
      (wrapRoomKeyFor P recover newKey room entries none roster i.draws).2 = [] ∧
      post = ⟨i.currentKeyVersion.getD 1 + 1,
        (wrapRoomKeyFor P recover newKey room entries none roster i.draws).1⟩ := by
  unfold rotatePost at h
  split at h
  · cases hmembers : i.members with
    | error message => simp [hmembers] at h
    | ok roster =>
        simp only [hmembers] at h
        split at h
        · cases h
        · cases hkeys : i.publicKeys roster with
          | error message => simp [hkeys] at h
          | ok entries =>
              cases hnew : i.newKey with
              | none => simp [hkeys, hnew] at h
              | some newKey =>
                  simp only [hkeys, hnew] at h
                  split at h
                  · rename_i hempty
                    cases h
                    exact ⟨roster, entries, newKey, rfl, rfl, List.isEmpty_iff.1 hempty, rfl⟩
                  · cases h
  · cases h

-- What covers a roster exactly passes the server's two coverage tests.
theorem coverage_of_exact {roster : List WalletAddress} {keys : List KeyWrap}
    (h : keys.map KeyWrap.userAddress = roster) : Server.coverage roster keys = .ok () := by
  have hall : roster.all (fun a => a ∈ roster) = true := by simp
  simp only [Server.coverage, h, hall, ensure, if_true]
  rfl

/-- Whatever the server sends for the public keys: every recipient has one outcome, in the
    caller's order; every wrap is one of the caller's room key, to a key whose binding
    message the recipient's own wallet has signed; and a rotation sends nothing, or it sends
    wraps of one new room key that the server's own coverage tests accept for the roster it
    has named. -/
theorem wraps_fail_closed {Secret Point : Type} (P : Primitives Secret Point)
    (recover : RecoverAddress) (Signed : WalletAddress → String → Prop)
    (hrecover : ∀ message signature a, recover message signature = some a → Signed a message)
    (room : RoomId) :
    (∀ roomKey entries keyVersion recipients draws,
      let out := wrapRoomKeyFor P recover roomKey room entries keyVersion recipients draws
      (∃ outcomes : List WrapOutcome, outcomes.map WrapOutcome.address = recipients ∧
        out.1 = outcomes.filterMap WrapOutcome.wrap? ∧
        out.2 = outcomes.filterMap WrapOutcome.refusal?) ∧
      ∀ w ∈ out.1, WrapOf P Signed roomKey room w) ∧
    ∀ (i : RotateInput Secret) (post : RotatePost), (rotateKey P recover room i).1 = some post →
      ∃ roster newKey, i.members = .ok roster ∧ i.newKey = some newKey ∧
        (∀ m ∈ roster, ∃ w ∈ post.keys, w.wrap.userAddress = m) ∧
        Server.coverage roster (post.keys.map RoomKeyWrap.wrap) = .ok () ∧
        ∀ w ∈ post.keys, WrapOf P Signed newKey room w := by
  refine ⟨fun roomKey entries keyVersion recipients draws =>
    ⟨wrapRoomKeyFor_outcomes recipients draws, fun w hw => wrapOf_of_mem hrecover hw⟩, ?_⟩
  intro i post hpost
  cases hrotate : rotatePost P recover room i with
  | error message => simp [rotateKey, hrotate] at hpost
  | ok sent =>
      simp only [rotateKey, hrotate, Option.some.injEq] at hpost
      subst hpost
      rcases rotatePost_eq_ok hrotate with ⟨roster, entries, newKey, hmembers, hnew, hnone, rfl⟩
      have hcovered := covered_of_no_refusal hnone
      refine ⟨roster, newKey, hmembers, hnew, fun m hm => ?_, ?_, fun w hw =>
        wrapOf_of_mem hrecover hw⟩
      · rw [← hcovered] at hm
        rcases List.mem_map.1 hm with ⟨w, hw, hm⟩
        exact ⟨w, hw, hm⟩
      · refine coverage_of_exact ?_
        rw [List.map_map]
        exact hcovered

end Wrapping

namespace Sample

/-- A wallet, the public key it has signed, and the signature. -/
def signer : WalletAddress := ⟨"0xfcad0b19bb29d4674531d6f115237e16afce377c", by decide⟩

def signedKey : String := "045031e83ea2f138541de6908c38da03c6af49cd4f356e64799d63f9125a92a7b1" ++
  "3094127a2ad3089544d16ed59a59e60dc869ec91f55466871df67e09bc4920e1"

def bindingSig : String := "0x119fd2e039b49088a5a6cc2222749a47da5e52b6013f53d17b87627f1fd7aed4" ++
  "1c6f6682dc0b573ed490a5f2a0922ea14f782a0c7a1bce8807006065a86516621c"

/-- The only signature there is. -/
def recoverSigner : RecoverAddress := fun message signature =>
  if message = buildKeyBindingMessage signer signedKey ∧ signature = bindingSig then some signer
  else none

/-- Primitives that hide nothing. -/
def plainPrimitives : Primitives Unit (List UInt8) where
  hmac _ _ := List.replicate 32 0
  aesEncrypt _ _ text := text
  aesDecrypt _ _ text := some text
  base64 := hexEncode
  unbase64 := hexDecode
  publicKey _ := []
  sharedX _ _ := []
  toSec1 point := point
  fromSec1 := some

/-- The directory names the signer's key for another member too, and leaves a third one out.
    There is a wrap all the same, and it is to the key its recipient has signed. -/
theorem wraps_fail_closed_signer :
    (∀ message signature a, recoverSigner message signature = some a →
      a = signer ∧ message = buildKeyBindingMessage signer signedKey) ∧
    ∃ w ∈ (wrapRoomKeyFor plainPrimitives recoverSigner ⟨List.replicate 32 7, rfl⟩ team
        [⟨signer, signedKey, some bindingSig⟩, ⟨bob, signedKey, some bindingSig⟩] none
        [signer, bob, carol] fun _ => ⟨some (), some ⟨List.replicate 16 0, rfl⟩⟩).1,
      WrapOf plainPrimitives
        (fun a message => a = signer ∧ message = buildKeyBindingMessage signer signedKey)
        ⟨List.replicate 32 7, rfl⟩ team w := by
  have hrecover : ∀ message signature a, recoverSigner message signature = some a →
      a = signer ∧ message = buildKeyBindingMessage signer signedKey := by
    intro message signature a h
    unfold recoverSigner at h
    split at h
    · rename_i hboth
      cases h
      exact ⟨rfl, hboth.1⟩
    · cases h
  refine ⟨hrecover, ?_⟩
  have hclosed := (wraps_fail_closed plainPrimitives recoverSigner _ hrecover team).1
    ⟨List.replicate 32 7, rfl⟩ [⟨signer, signedKey, some bindingSig⟩,
      ⟨bob, signedKey, some bindingSig⟩] none [signer, bob, carol]
    fun _ => ⟨some (), some ⟨List.replicate 16 0, rfl⟩⟩
  rcases List.exists_mem_of_ne_nil (wrapRoomKeyFor plainPrimitives recoverSigner
    ⟨List.replicate 32 7, rfl⟩ team [⟨signer, signedKey, some bindingSig⟩,
      ⟨bob, signedKey, some bindingSig⟩] none [signer, bob, carol]
    fun _ => ⟨some (), some ⟨List.replicate 16 0, rfl⟩⟩).1 (by decide +kernel) with ⟨w, hw⟩
  exact ⟨w, hw, hclosed.2 w hw⟩

end Sample

end PocketSkynet
