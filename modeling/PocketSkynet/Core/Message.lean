import Mathlib.Order.Defs.Unbundled
import PocketSkynet.Core.Api

/-!
# The Message Row

One shape for everything a room's stream carries: messages, their edits and
tombstones, reaction events and purge markers, told apart by their kind. The
server stores the row, both read endpoints send it, and the client keeps it as
it arrived, so both sides share the type.

## Main definitions

* `MsgKind`: What a row is.
* `Message`: A row.
* `Message.displayable`, `Message.isMessage`, `Message.isReaction`: The row is a
  message that is still there, a message live or deleted, or a reaction event.
* `Reaction`: One reactor, one code, one target.
* `Message.reaction?`: The reaction a reaction event is about.
* `Message.Concerns`: The row bears on what is held under an id.
* `Message.newestFirst`: The order in which rows are kept and paged.
-/

namespace PocketSkynet

/-- What a row of the stream is. `unknown` is what a client makes of a type it
    has never heard of; the server writes none. -/
inductive MsgKind where
  | add
  | edit
  | delete
  | deleteAll
  | emoticonAdd
  | emoticonRemove
  | unknown
deriving DecidableEq, Repr

/-- A row the stream renders, rather than an event about other rows. -/
def MsgKind.isRenderable : MsgKind → Bool
  | .add | .edit => true
  | _ => false

/-- A row of a room's stream. -/
structure Message where
  id : MessageId
  senderAddress : WalletAddress
  content : String
  msgHash : String
  messageTimestamp : Nat
  kind : MsgKind
  msgSerial : Nat
  isDeleted : Bool
  editedAt : Option Nat
  isEncrypted : Bool
  iv : Option String
  hmac : Option String
  encVer : Nat
  keyVersion : Nat
  txHash : Option String
  targetMessageId : Option MessageId
  emoticonCode : Option String
  parentMessageId : Option MessageId
deriving DecidableEq, Repr

/-- One reactor's use of one code on one message. -/
structure Reaction where
  target : MessageId
  code : String
  sender : WalletAddress
deriving DecidableEq, Repr

namespace Message

/-- A message that can be shown. -/
def displayable (m : Message) : Bool := m.kind.isRenderable && !m.isDeleted

/-- A message row, live or deleted, rather than a reaction event or a marker. -/
def isMessage (m : Message) : Bool := m.kind == .add || m.kind == .edit || m.kind == .delete

/-- A reaction event, of either sign. -/
def isReaction (m : Message) : Bool := m.kind == .emoticonAdd || m.kind == .emoticonRemove

/-- The reaction a row names, if it names a target and a code. -/
def reaction? (m : Message) : Option Reaction :=
  match m.targetMessageId, m.emoticonCode with
  | some target, some code => some ⟨target, code, m.senderAddress⟩
  | _, _ => none

theorem isMessage_of_displayable {m : Message} (h : m.displayable = true) :
    m.isMessage = true := by
  unfold displayable MsgKind.isRenderable at h
  unfold isMessage
  cases hk : m.kind <;> simp_all

/-- The row bears on what is held under the id: a version of that message, its
    tombstone, or a purge. -/
def Concerns (v : Message) (id : MessageId) : Prop :=
  v.kind = .deleteAll ∨ (v.isMessage = true ∧ v.id = id)

instance (v : Message) (id : MessageId) : Decidable (v.Concerns id) :=
  inferInstanceAs (Decidable (_ ∨ _))

/-- Newest first by timestamp, the serial breaking ties: the order of the history
    query and of the client's snapshot. -/
def newestFirst (a b : Message) : Prop :=
  b.messageTimestamp < a.messageTimestamp ∨
    (b.messageTimestamp = a.messageTimestamp ∧ b.msgSerial ≤ a.msgSerial)

instance : DecidableRel newestFirst := fun _ _ => inferInstanceAs (Decidable (_ ∨ _))

theorem newestFirst_trans (a b c : Message) (hab : newestFirst a b) (hbc : newestFirst b c) :
    newestFirst a c := by
  unfold newestFirst at *
  omega

theorem newestFirst_total (a b : Message) : newestFirst a b ∨ newestFirst b a := by
  unfold newestFirst
  omega

instance : IsTrans Message newestFirst := ⟨newestFirst_trans⟩

instance : Std.Total newestFirst := ⟨newestFirst_total⟩

end Message

end PocketSkynet
