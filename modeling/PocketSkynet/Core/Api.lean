import Mathlib.Data.List.Basic
import PocketSkynet.Lib.Text

/-!
# Identifiers and API Errors

The vocabulary every route shares: wallet addresses, room and message ids, and
the error envelope.

A wallet address is normalised where it is parsed, so the type carries the
proof: `0x` followed by forty lowercase hex digits. Two address blocks are
reserved for speakers that are not people, incoming webhooks and personal
agents, and `isReserved` recognises both by their leading bytes.

## Main definitions

* `WalletAddress`: A lowercase address together with its well-formedness.
* `WalletAddress.new`: An address as it is parsed.
* `WalletAddress.isReserved`: The address belongs to a machine speaker.
* `RoomId`, `MessageId`: Opaque identifiers.
* `ApiError`: What a refused request is answered with.
* `ensure`, `orRefuse`: The two ways a handler returns early.

## Theorems

* `bind_eq_ok`, `ensure_eq_ok`, `orRefuse_eq_ok`: A handler answers only if
  every check before it passed.
-/

namespace PocketSkynet

/-- A lowercase hexadecimal digit. -/
def isLowerHex (c : Char) : Bool := c.isDigit || ('a' ≤ c && c ≤ 'f')

/-- The shape an address has once it has been parsed and lowercased. -/
def isWalletAddress (s : String) : Bool :=
  s.toList.length == 42 && "0x".toList.isPrefixOf s.toList && (s.toList.drop 2).all isLowerHex

/-- A lowercase, `0x`-prefixed, 20-byte address. -/
structure WalletAddress where
  str : String
  wellFormed : isWalletAddress str = true
deriving DecidableEq, Repr

/-- The short form of an address. -/
def abbreviated (a : WalletAddress) : String :=
  String.ofList (a.str.toList.take 6) ++ "…" ++ String.ofList (a.str.toList.drop 38)

/-- A hexadecimal digit in either case. -/
def isAsciiHexDigit (c : Char) : Bool := isLowerHex c || ('A' ≤ c && c ≤ 'F')

-- Digits are told by their codes.
theorem isLowerHex_iff {c : Char} : isLowerHex c = true ↔
    (48 ≤ c.toNat ∧ c.toNat ≤ 57) ∨ (97 ≤ c.toNat ∧ c.toNat ≤ 102) := by
  simp only [isLowerHex, Char.isDigit, Bool.or_eq_true, Bool.and_eq_true, decide_eq_true_eq,
    Char.le_def, UInt32.le_iff_toNat_le]
  exact Iff.rfl

theorem isAsciiHexDigit_iff {c : Char} : isAsciiHexDigit c = true ↔
    isLowerHex c = true ∨ (65 ≤ c.toNat ∧ c.toNat ≤ 70) := by
  simp only [isAsciiHexDigit, Bool.or_eq_true, Bool.and_eq_true, decide_eq_true_eq,
    Char.le_def, UInt32.le_iff_toNat_le]
  exact Iff.rfl

theorem toLower_of_isLowerHex {c : Char} (h : isLowerHex c = true) : c.toLower = c := by
  rw [isLowerHex_iff] at h
  refine dif_neg ?_
  intro hupper
  have hlow : 65 ≤ c.toNat := UInt32.le_iff_toNat_le.1 hupper.1
  have hhigh : c.toNat ≤ 90 := UInt32.le_iff_toNat_le.1 hupper.2
  omega

-- An uppercase digit becomes the lowercase one.
theorem isLowerHex_toLower {c : Char} (h : isAsciiHexDigit c = true) :
    isLowerHex c.toLower = true := by
  rcases isAsciiHexDigit_iff.1 h with hlower | hupper
  · rwa [toLower_of_isLowerHex hlower]
  · have hall : ∀ n < 6, isLowerHex (Char.ofNat (65 + n)).toLower = true := by decide
    have hcode : 65 + (c.toNat - 65) = c.toNat := by omega
    have hlower := hall (c.toNat - 65) (by omega)
    rwa [hcode, Char.ofNat_toNat] at hlower

/-- Why a text is no identifier. -/
inductive IdError where
  | walletFormat
deriving DecidableEq, Repr

def IdError.message : IdError → String
  | walletFormat => "wallet address must be 0x followed by 40 hex characters"

/-- What is asked of a text that is parsed as an address. Every character of such a text has
    one byte, so characters are counted where the source counts bytes. -/
def isAddressText (cs : List Char) : Bool :=
  cs.length == 42 && "0x".toList.isPrefixOf cs && (cs.drop 2).all isAsciiHexDigit

-- What such a text looks like.
theorem isAddressText_iff {cs : List Char} : isAddressText cs = true ↔
    ∃ digits, cs = '0' :: 'x' :: digits ∧ digits.length = 40 ∧
      ∀ c ∈ digits, isAsciiHexDigit c = true := by
  constructor
  · intro h
    simp only [isAddressText, Bool.and_eq_true, beq_iff_eq, List.all_eq_true] at h
    rcases List.isPrefixOf_iff_prefix.1 h.1.2 with ⟨digits, rfl⟩
    exact ⟨digits, rfl, Nat.add_right_cancel (m := 2) h.1.1, h.2⟩
  · rintro ⟨digits, rfl, hlength, hdigits⟩
    simp only [isAddressText, Bool.and_eq_true, beq_iff_eq, List.all_eq_true]
    exact ⟨⟨by rw [List.length_cons, List.length_cons, hlength],
      List.isPrefixOf_iff_prefix.2 ⟨digits, rfl⟩⟩, hdigits⟩

theorem isWalletAddress_iff {s : String} : isWalletAddress s = true ↔
    ∃ digits, s.toList = '0' :: 'x' :: digits ∧ digits.length = 40 ∧
      ∀ c ∈ digits, isLowerHex c = true := by
  constructor
  · intro h
    simp only [isWalletAddress, Bool.and_eq_true, beq_iff_eq, List.all_eq_true] at h
    rcases List.isPrefixOf_iff_prefix.1 h.1.2 with ⟨digits, hs⟩
    rw [← hs] at h ⊢
    exact ⟨digits, rfl, Nat.add_right_cancel (m := 2) h.1.1, h.2⟩
  · rintro ⟨digits, hs, hlength, hdigits⟩
    simp only [isWalletAddress, Bool.and_eq_true, beq_iff_eq, List.all_eq_true, hs]
    exact ⟨⟨by rw [List.length_cons, List.length_cons, hlength],
      List.isPrefixOf_iff_prefix.2 ⟨digits, rfl⟩⟩, hdigits⟩

-- To lower the case of such a text keeps its shape.
theorem isWalletAddress_lower {cs : List Char} (h : isAddressText cs = true) :
    isWalletAddress (String.ofList (cs.map Char.toLower)) = true := by
  rcases isAddressText_iff.1 h with ⟨digits, rfl, hlength, hdigits⟩
  refine isWalletAddress_iff.2 ⟨digits.map Char.toLower, String.toList_ofList, ?_, ?_⟩
  · rw [List.length_map, hlength]
  · intro c hc
    rcases List.mem_map.1 hc with ⟨d, hd, rfl⟩
    exact isLowerHex_toLower (hdigits d hd)

/-- The reserved leading bytes of every webhook sender address. -/
def webhookSenderPrefix : String := "0x00000000"

/-- The reserved leading bytes of every agent sender address. -/
def agentSenderPrefix : String := "0x000000a1"

namespace WalletAddress

/-- Parse and normalise. Accepts any casing, stores lowercase. -/
def new (s : String) : Except IdError WalletAddress :=
  let cs := trim s.toList
  if h : isAddressText cs = true then
    .ok ⟨String.ofList (cs.map Char.toLower), isWalletAddress_lower h⟩
  else .error .walletFormat

-- Every character of an address is a letter or a digit.
theorem isSpace_str (a : WalletAddress) : ∀ c ∈ a.str.toList, isSpace c = false := by
  rcases isWalletAddress_iff.1 a.wellFormed with ⟨digits, hs, -, hdigits⟩
  intro c hc
  rw [hs, List.mem_cons, List.mem_cons] at hc
  rcases hc with rfl | rfl | hc
  · decide
  · decide
  · have hcode := isLowerHex_iff.1 (hdigits c hc)
    exact isSpace_eq_false (by omega)

-- An address is in lower case.
theorem map_toLower_str (a : WalletAddress) : a.str.toList.map Char.toLower = a.str.toList := by
  rcases isWalletAddress_iff.1 a.wellFormed with ⟨digits, hs, -, hdigits⟩
  rw [hs, List.map_cons, List.map_cons, List.map_congr_left fun c hc =>
    toLower_of_isLowerHex (hdigits c hc), List.map_id']
  rfl

/-- An address that is parsed again stays as it is. -/
theorem new_str (a : WalletAddress) : new a.str = .ok a := by
  rcases isWalletAddress_iff.1 a.wellFormed with ⟨digits, hs, hlength, hdigits⟩
  have htext : isAddressText a.str.toList = true := isAddressText_iff.2
    ⟨digits, hs, hlength, fun c hc => isAsciiHexDigit_iff.2 (Or.inl (hdigits c hc))⟩
  simp only [new, trim_of_no_space a.isSpace_str, dif_pos htext, map_toLower_str,
    String.ofList_toList]

/-- The address was minted for an incoming webhook. -/
def isWebhookSender (a : WalletAddress) : Bool :=
  webhookSenderPrefix.toList.isPrefixOf a.str.toList

/-- The address was minted for somebody's agent. -/
def isAgentSender (a : WalletAddress) : Bool :=
  agentSenderPrefix.toList.isPrefixOf a.str.toList

/-- The address belongs to a machine speaker rather than a person. -/
def isReserved (a : WalletAddress) : Bool := a.isWebhookSender || a.isAgentSender

end WalletAddress

/-- A room identifier. -/
structure RoomId where
  str : String
deriving DecidableEq, Repr

/-- A message identifier. -/
structure MessageId where
  str : String
deriving DecidableEq, Repr

/-- A machine-readable code, emitted only where a client must branch on it. -/
inductive ErrorCode where
  | keyRotationRequired
  | staleKeyVersion
deriving DecidableEq, Repr

/-- The error of a refused request. The cause of an `internal` one is logged and
    never sent. `uncovered` is the one 400 that carries a list beside its message,
    the addresses a rotation left out. -/
inductive ApiError where
  | badRequest (message : String)
  | validation (errors : List String)
  | unauthorized (message : String)
  | forbidden (message : String)
  | notFound (message : String)
  | conflict (code : Option ErrorCode) (message : String) (currentKeyVersion : Option Nat)
  | internal (cause : String)
  | uncovered (message : String) (missing : List WalletAddress)
deriving DecidableEq, Repr

namespace ApiError

/-- A conflict without a code. -/
def plainConflict (message : String) : ApiError := conflict none message none

/-- A 409 the client is expected to handle by wrapping the room key again. -/
def keyConflict (code : ErrorCode) (message : String) (currentVersion : Nat) : ApiError :=
  conflict (some code) message (some currentVersion)

/-- A single-field validation failure, formatted `field: reason`. -/
def field (name reason : String) : ApiError := validation [name ++ ": " ++ reason]

/-- The generic refusal used where a precise one would tell too much. -/
def accessDenied : ApiError := forbidden "Access denied"

end ApiError

/-- Refuse with `e` unless the check passes. -/
def ensure (c : Bool) (e : ApiError) : Except ApiError Unit := if c then .ok () else .error e

/-- Take the value, or refuse with `e` if there is none. -/
def orRefuse {α : Type} (x : Option α) (e : ApiError) : Except ApiError α :=
  match x with
  | some a => .ok a
  | none => .error e

theorem bind_eq_ok {ε α β : Type} (x : Except ε α) (f : α → Except ε β) (b : β) :
    (x >>= f) = .ok b ↔ ∃ a, x = .ok a ∧ f a = .ok b := by
  cases x with
  | error e => simp [bind, Except.bind]
  | ok a => simp [bind, Except.bind]

theorem pure_eq_ok {α : Type} (a b : α) : (pure a : Except ApiError α) = .ok b ↔ a = b := by
  simp [pure, Except.pure]

theorem ensure_eq_ok (c : Bool) (e : ApiError) (u : Unit) :
    ensure c e = .ok u ↔ c = true := by
  cases c <;> simp [ensure]

theorem orRefuse_eq_ok {α : Type} (x : Option α) (e : ApiError) (a : α) :
    orRefuse x e = .ok a ↔ x = some a := by
  cases x <;> simp [orRefuse]

end PocketSkynet
