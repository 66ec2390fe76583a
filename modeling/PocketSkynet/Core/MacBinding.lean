import PocketSkynet.Lib.Joined
import PocketSkynet.Core.Envelope
import PocketSkynet.Core.Secrets
import Mathlib.Logic.Equiv.Basic

/-!
# What a MAC Binds

The text under a MAC is what it is sent with, joined by bars. The reader takes the MAC over
the strings as they have arrived and decodes them afterwards, so they can be anything, bars
included. But what a writer has put under a MAC has no bar in any of its parts: the room id
and the entry id are restricted, and digits and Base64 have none. So whatever else is read
as the same text is the same, part by part, and of the same kind.

The tag is taken to be ideal here: it tells its key and its text. The texts themselves are
*not* injective in arbitrary strings, as a bar can be moved from one to the next.

## Main definitions

* `Primitives.Ideal`: An ideal tag, and the alphabet of Base64.
* `MacContext`, `MacContext.input`: What is under a MAC, and the text it is joined to.
* `Produced`, `Accepted`: The tags that writers make, and those that readers take.

## Theorems

* `MacContext.input_inj`: A context without bars is told from any other.
* `context_of_accepted`: A tag is accepted for what it was made for, and nothing else.
* `tags_bind`: All of it together.
-/

namespace PocketSkynet

/-- An ideal tag tells its key and its text. Base64 is written without bars. -/
structure Primitives.Ideal {Secret Point : Type} (P : Primitives Secret Point) : Prop where
  hmac_injective : Function.Injective2 P.hmac
  base64_free : ∀ bytes, '|' ∉ (P.base64 bytes).toList

/-- A character a room id may have. -/
def isRoomIdChar (c : Char) : Bool := c.isAlphanum || c == '_' || c == '-' || c == '.'

/-- A text of the characters of a room id. -/
def hasRoomIdCharset (id : String) : Bool := id.toList.all isRoomIdChar

/-- The kinds of records with a MAC. -/
inductive MacKind where
  | message
  | roomKey
  | secret
deriving DecidableEq, Repr

/-- What a record is sent with, as it has arrived. -/
inductive MacContext where
  | message (roomId ivHex ciphertext : String)
  | roomKey (roomId ephemeral ivHex ciphertext : String)
  | secret (entryId : String) (field : SecretField) (ivHex ciphertext : String)
deriving DecidableEq, Repr

namespace MacContext

def kind : MacContext → MacKind
  | message .. => .message
  | roomKey .. => .roomKey
  | secret .. => .secret

/-- The text under the MAC. -/
def input : MacContext → String
  | message roomId ivHex ciphertext => messageMacInput roomId ivHex ciphertext
  | roomKey roomId ephemeral ivHex ciphertext =>
      roomKeyMacInput roomId ephemeral ivHex ciphertext
  | secret entryId field ivHex ciphertext => secretMacInput entryId field ivHex ciphertext

/-- The parts of the text, in their order. -/
def parts : MacContext → List String
  | message roomId ivHex ciphertext => ["FNv2", "message", roomId, ivHex, ciphertext]
  | roomKey roomId ephemeral ivHex ciphertext =>
      ["FNv2", "roomkey", roomId, ephemeral, ivHex, ciphertext]
  | secret entryId field ivHex ciphertext =>
      ["PSv1", "secret", entryId, field.asStr, ivHex, ciphertext]

/-- No part has a bar in it. -/
def Free (context : MacContext) : Prop := ∀ part ∈ context.parts, '|' ∉ part.toList

instance : DecidablePred Free := fun context =>
  inferInstanceAs (Decidable (∀ part ∈ context.parts, '|' ∉ part.toList))

-- Two texts with a bar between them.
theorem toList_barred (s t : String) : (s ++ "|" ++ t).toList = s.toList ++ '|' :: t.toList := by
  rw [String.toList_append, String.toList_append, List.append_assoc]
  rfl

-- A text that starts with two words and their bars.
theorem toList_headed {head first second : String} (h : head = first ++ "|" ++ second ++ "|")
    (s : String) :
    (head ++ s).toList = first.toList ++ '|' :: (second.toList ++ '|' :: s.toList) := by
  rw [h, String.toList_append, String.toList_append, toList_barred, List.append_assoc,
    List.append_assoc]
  rfl

theorem toList_input (context : MacContext) :
    context.input.toList = List.intercalate ['|'] (context.parts.map String.toList) := by
  cases context with
  | message roomId ivHex ciphertext =>
      unfold input messageMacInput
      rw [toList_barred, toList_barred,
        toList_headed (show "FNv2|message|" = "FNv2" ++ "|" ++ "message" ++ "|" by decide)]
      simp only [parts, List.map_cons, List.map_nil, List.intercalate_cons_cons,
        List.intercalate_singleton, List.append_assoc, List.cons_append, List.nil_append]
  | roomKey roomId ephemeral ivHex ciphertext =>
      unfold input roomKeyMacInput
      rw [toList_barred, toList_barred, toList_barred,
        toList_headed (show "FNv2|roomkey|" = "FNv2" ++ "|" ++ "roomkey" ++ "|" by decide)]
      simp only [parts, List.map_cons, List.map_nil, List.intercalate_cons_cons,
        List.intercalate_singleton, List.append_assoc, List.cons_append, List.nil_append]
  | secret entryId field ivHex ciphertext =>
      unfold input secretMacInput
      rw [toList_barred, toList_barred, toList_barred,
        toList_headed (show "PSv1|secret|" = "PSv1" ++ "|" ++ "secret" ++ "|" by decide)]
      simp only [parts, List.map_cons, List.map_nil, List.intercalate_cons_cons,
        List.intercalate_singleton, List.append_assoc, List.cons_append, List.nil_append]

theorem asStr_injective : Function.Injective SecretField.asStr := by
  intro a b h
  cases a <;> cases b <;> first | rfl | exact absurd h (by decide)

theorem parts_injective : Function.Injective parts := by
  intro a b h
  cases a <;> cases b <;> simp_all [parts, asStr_injective.eq_iff]

/-- The text says the kind, whatever its parts are. -/
theorem kind_of_input {a b : MacContext} (h : a.input = b.input) : a.kind = b.kind := by
  have hchars := congrArg String.toList h
  rw [toList_input, toList_input] at hchars
  -- The first two parts are of the kind alone, and have no bar in them.
  cases a <;> cases b <;> first | rfl | skip
  all_goals
    rcases Joined.intercalate_cons_inj (by decide) (by decide) (by simp) (by simp) hchars with
      ⟨hfirst, hrest⟩
    rcases Joined.intercalate_cons_inj (by decide) (by decide) (by simp) (by simp) hrest with
      ⟨hsecond, -⟩
    first | exact absurd hfirst (by decide) | exact absurd hsecond (by decide)

theorem length_parts_of_kind {a b : MacContext} (h : a.kind = b.kind) :
    a.parts.length = b.parts.length := by
  cases a <;> cases b <;> first | rfl | cases h

/-- A context without bars is told by its text from every other, with bars or without. -/
theorem input_inj {a b : MacContext} (hfree : a.Free) (h : a.input = b.input) : a = b := by
  have hlength := length_parts_of_kind (kind_of_input h)
  have hchars := congrArg String.toList h
  rw [toList_input, toList_input] at hchars
  have hinj : Function.Injective String.toList := fun _ _ => String.toList_injective
  have hfree' : ∀ part ∈ a.parts.map String.toList, '|' ∉ part := List.forall_mem_map.2 hfree
  have hparts := Joined.intercalate_inj hfree' (by simpa using hlength) hchars
  exact parts_injective (List.map_injective_iff.2 hinj hparts)

end MacContext

section Tags

variable {Secret Point : Type} (P : Primitives Secret Point)

/-- The tags that the writers make, and what for. -/
inductive Produced : MacContext → String → Prop where
  | message {plaintext roomId : String} {roomKey : Bytes 32} {iv : Bytes 16}
      {sealed : EncryptedMessage} (hid : hasRoomIdCharset roomId)
      (h : encryptMessageV2With P plaintext roomKey roomId iv = .ok sealed) :
      Produced (.message roomId sealed.iv sealed.content) sealed.hmac
  | roomKey {roomKey : Bytes 32} {recipient : Point} {roomId : String} {ephemeral : Secret}
      {iv : Bytes 16} {wrap : WrappedRoomKey} (hid : hasRoomIdCharset roomId)
      (h : wrapRoomKeyV2With P roomKey recipient roomId ephemeral iv = wrap) :
      Produced (.roomKey roomId wrap.ephemeralPublicKey wrap.encryptionIv
        wrap.encryptedSymmetricKey) wrap.hmac
  | secret {vault : VaultKey} {entryId plaintext : String} {field : SecretField} {iv : Bytes 16}
      {sealed : SealedField}
      (h : sealFieldWithIv P vault entryId field plaintext iv = .ok sealed) :
      Produced (.secret entryId field sealed.iv sealed.ciphertext) sealed.hmac

/-- The tags that the readers take, and what for. Every string can be anything. -/
inductive Accepted : MacContext → String → Prop where
  | message {ciphertext ivHex tag roomId text : String} {roomKey : Bytes 32}
      (h : decryptMessageV2 P ciphertext ivHex tag roomKey roomId = .ok text) :
      Accepted (.message roomId ivHex ciphertext) tag
  | roomKey {wrap : WrappedRoomKey} {recipient : Secret} {roomId : String} {roomKey : Bytes 32}
      (h : unwrapRoomKeyV2 P wrap recipient roomId = .ok roomKey) :
      Accepted (.roomKey roomId wrap.ephemeralPublicKey wrap.encryptionIv
        wrap.encryptedSymmetricKey) wrap.hmac
  | secret {vault : VaultKey} {entryId text : String} {field : SecretField} {sealed : SealedField}
      (h : openField P vault entryId field sealed = .ok text) :
      Accepted (.secret entryId field sealed.iv sealed.ciphertext) sealed.hmac

variable {P}

theorem bar_hexEncode (bytes : List UInt8) : '|' ∉ (hexEncode bytes).toList := by
  rw [hexEncode, String.toList_ofList]
  intro hbar
  rcases Hex.mem_encode hbar with ⟨n, hn, hdigit⟩
  have hnone : ∀ n < 16, Nat.digitChar n ≠ '|' := by decide
  exact hnone n hn hdigit

theorem bar_roomId {roomId : String} (hid : hasRoomIdCharset roomId) : '|' ∉ roomId.toList := by
  intro hbar
  exact absurd (List.all_eq_true.1 hid '|' hbar) (by decide)

theorem bar_entryId {entryId : String} (hid : isValidEntryId entryId = true) :
    '|' ∉ entryId.toList := by
  intro hbar
  rw [isValidEntryId, Bool.and_eq_true] at hid
  exact absurd (List.all_eq_true.1 hid.2 '|' hbar) (by decide)

theorem bar_field (field : SecretField) : '|' ∉ field.asStr.toList := by
  cases field <;> decide

theorem hexDecode_of_verifyMac {key : List UInt8} {input tag : String}
    (h : verifyMac P key input tag = true) :
    hexDecode tag = some (P.hmac key (utf8 input)) := by
  unfold verifyMac at h
  cases htag : hexDecode tag with
  | none =>
      rw [htag] at h
      cases h
  | some expected =>
      simp only [htag, Bool.and_eq_true, beq_iff_eq] at h
      rw [h.2]

/-- What a writer puts under a MAC has no bar in its parts. -/
theorem Produced.free (hP : P.Ideal) {context : MacContext} {tag : String}
    (h : Produced P context tag) : context.Free := by
  cases h with
  | @message plaintext roomId roomKey iv sealed hid h =>
      rcases encryptMessageV2With_eq_ok h with ⟨-, hcontent, hiv, -⟩
      simp only [MacContext.Free, MacContext.parts, List.forall_mem_cons, hcontent, hiv]
      exact ⟨by decide, by decide, bar_roomId hid, bar_hexEncode _, hP.base64_free _,
        fun _ hpart => absurd hpart List.not_mem_nil⟩
  | roomKey hid h =>
      subst h
      simp only [MacContext.Free, MacContext.parts, List.forall_mem_cons, wrapRoomKeyV2With,
        uncompressedPublicKeyHex]
      exact ⟨by decide, by decide, bar_roomId hid, bar_hexEncode _, bar_hexEncode _,
        hP.base64_free _, fun _ hpart => absurd hpart List.not_mem_nil⟩
  | secret h =>
      rcases sealFieldWithIv_eq_ok h with ⟨hid, hciphertext, hiv, -⟩
      simp only [MacContext.Free, MacContext.parts, List.forall_mem_cons, hciphertext, hiv]
      exact ⟨by decide, by decide, bar_entryId hid, bar_field _, bar_hexEncode _,
        hP.base64_free _, fun _ hpart => absurd hpart List.not_mem_nil⟩

/-- A tag that is made is one over the text of its context. -/
theorem Produced.tag {context : MacContext} {tag : String} (h : Produced P context tag) :
    ∃ key, hexDecode tag = some (P.hmac key (utf8 context.input)) := by
  cases h with
  | message hid h =>
      rcases encryptMessageV2With_eq_ok h with ⟨-, -, -, hmac⟩
      exact ⟨_, by rw [hmac, macHex, hexDecode_hexEncode]; rfl⟩
  | roomKey hid h =>
      subst h
      exact ⟨_, hexDecode_hexEncode _⟩
  | secret h =>
      rcases sealFieldWithIv_eq_ok h with ⟨-, -, -, hmac⟩
      exact ⟨_, by rw [hmac, macHex, hexDecode_hexEncode]; rfl⟩

-- Every reader takes the MAC first, and answers nothing if that is wrong.
theorem ite_eq_ok {ε α : Type} {c : Prop} [Decidable c] {x : Except ε α} {e : ε} {a : α}
    (h : (if c then x else .error e) = .ok a) : c := by
  by_contra hc
  rw [if_neg hc] at h
  cases h

/-- A tag that is taken is one over the text of its context, whatever the strings are. -/
theorem Accepted.tag {context : MacContext} {tag : String} (h : Accepted P context tag) :
    ∃ key, hexDecode tag = some (P.hmac key (utf8 context.input)) := by
  cases h with
  | message h => exact ⟨_, hexDecode_of_verifyMac (ite_eq_ok h)⟩
  | roomKey h =>
      unfold unwrapRoomKeyV2 at h
      split at h
      · cases h
      · exact ⟨_, hexDecode_of_verifyMac (ite_eq_ok h)⟩
  | secret h => exact ⟨_, hexDecode_of_verifyMac (ite_eq_ok h)⟩

/-- A tag that was made for one context is taken for no other. It can be sent in any case of
    its digits. -/
theorem context_of_accepted (hP : P.Ideal) {made taken : MacContext} {tag sent : String}
    (hmade : Produced P made tag) (hsent : hexDecode sent = hexDecode tag)
    (htaken : Accepted P taken sent) : taken = made := by
  rcases hmade.tag with ⟨key, htag⟩
  rcases htaken.tag with ⟨key', htag'⟩
  have hsame := Option.some.inj (htag.symm.trans (hsent.symm.trans htag'))
  have hinput := utf8_injective (hP.hmac_injective hsame).2
  exact (MacContext.input_inj (hmade.free hP) hinput).symm

/-- A tag binds what it was made for: the room and everything that is sent with a message or
    a wrapped key, and the entry and the part of it for a password. The texts under it say
    the kind of record in any case, and the rest where one side has no bars, as what a
    writer puts under a MAC never has. -/
theorem tags_bind (hP : P.Ideal) :
    (∀ (made taken : MacContext) (tag sent : String), Produced P made tag →
      hexDecode sent = hexDecode tag → Accepted P taken sent → taken = made) ∧
    (∀ a b : MacContext, a.input = b.input → a.kind = b.kind) ∧
    (∀ a b : MacContext, a.Free → a.input = b.input → a = b) ∧
    ∀ (made : MacContext) (tag : String), Produced P made tag → made.Free := by
  refine ⟨?_, ?_, ?_, ?_⟩
  · intro made taken tag sent hmade hsent htaken
    exact context_of_accepted hP hmade hsent htaken
  · intro a b h
    exact MacContext.kind_of_input h
  · intro a b hfree h
    exact MacContext.input_inj hfree h
  · intro made tag hmade
    exact hmade.free hP

end Tags

namespace Sample

/-- A key and a text as one, told apart by what comes before every byte of the key. -/
def pairCode (key text : List UInt8) : List UInt8 := key.flatMap (fun b => [1, b]) ++ 0 :: text

theorem pairCode_injective : Function.Injective2 pairCode := by
  intro key key' text text' h
  induction key generalizing key' with
  | nil =>
      cases key' with
      | nil => exact ⟨rfl, (List.cons.inj h).2⟩
      | cons b key' => exact absurd (List.cons.inj h).1 (by decide)
  | cons b key ih =>
      cases key' with
      | nil => exact absurd (List.cons.inj h).1 (by decide)
      | cons b' key' =>
          rcases List.cons.inj (List.cons.inj h).2 with ⟨rfl, hrest⟩
          rcases ih hrest with ⟨rfl, rfl⟩
          exact ⟨rfl, rfl⟩

/-- What the MAC of one message is taken over, with its key. -/
def markedPair : List UInt8 :=
  pairCode (pairCode zeroKey.1 (utf8 msgMacLabel))
    (utf8 (messageMacInput "room-vector-0001" (hexEncode zeroIv.1)
      (hexEncode (pad (utf8 "attack at dawn")))))

/-- Ideal primitives, under which that message has a tag of the right length. -/
def idealPrimitives : Primitives Unit Unit :=
  { openPrimitives with
    hmac := fun key text => Equiv.swap markedPair (List.replicate 32 7) (pairCode key text) }

theorem idealPrimitives_ideal : idealPrimitives.Ideal where
  hmac_injective := fun _ _ _ _ h => pairCode_injective ((Equiv.injective _) h)
  base64_free := bar_hexEncode

def sealedAttack : EncryptedMessage :=
  ⟨hexEncode (pad (utf8 "attack at dawn")), hexEncode zeroIv.1, hexEncode (List.replicate 32 7)⟩

/-- The message is read in its room, and taken in no other. -/
theorem tags_bind_attack :
    decryptMessageV2 idealPrimitives sealedAttack.content sealedAttack.iv sealedAttack.hmac zeroKey
        "room-vector-0001" = .ok "attack at dawn" ∧
      ¬ Accepted idealPrimitives
        (.message "room-vector-0002" sealedAttack.iv sealedAttack.content) sealedAttack.hmac := by
  have hsealed : encryptMessageV2With idealPrimitives "attack at dawn" zeroKey "room-vector-0001"
      zeroIv = .ok sealedAttack := by decide +kernel
  refine ⟨by decide +kernel, fun htaken => ?_⟩
  have hsame := (tags_bind idealPrimitives_ideal).1 _ _ _ _ (.message (by decide) hsealed) rfl
    htaken
  exact absurd hsame (by simp)

/-- A bar can be moved from the IV to the ciphertext, and the text stays the same. -/
theorem bar_moves :
    (MacContext.message "room-vector-0001" "a|b" "c").input =
        (MacContext.message "room-vector-0001" "a" "b|c").input ∧
      MacContext.message "room-vector-0001" "a|b" "c" ≠
        MacContext.message "room-vector-0001" "a" "b|c" := by
  decide +kernel

end Sample

end PocketSkynet
