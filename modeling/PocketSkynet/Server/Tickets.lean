import Mathlib.Algebra.Ring.Nat
import PocketSkynet.Core.EventJson
import PocketSkynet.Lib.EventStream

/-!
# Tickets and the Opening of a Stream

An event source cannot send a header of its own, so a stream is opened with a ticket in
its URL. A ticket is good for one attempt within half a minute, from the address it was
issued to. What the source can tell beside that is the id of the last frame it has read,
from which the stream goes on.

## Main definitions

* `Ticket`, `TicketStore.issue`, `TicketStore.consume`: The tickets.
* `sseEvent`: An event as a frame.
* `parseCursor`: The id a source comes back with.
* `sseHandler`: The answer to a source that opens a stream.

## Theorems

* `absent_consume`, `absent_issue`: A ticket that has been used does not come back.
* `sseHandler_of_absent`: Without its ticket a source is refused.
* `parseCursor_toDigits`: An id that has been sent is understood.
-/

namespace PocketSkynet

open EventStream

/-- How long a ticket is good for. -/
def ticketTtlMs : Int := 30 * 1000

/-- What a ticket stands for. -/
structure Ticket where
  wallet : WalletAddress
  expiresAtMs : Int
  ip : String
deriving DecidableEq, Repr

/-- The tickets that have been issued and not used, by their ids. -/
abbrev TicketStore := List (String × Ticket)

namespace TicketStore

/-- No ticket has the id. -/
def Absent (st : TicketStore) (id : String) : Prop := ∀ entry ∈ st, entry.1 ≠ id

instance (st : TicketStore) (id : String) : Decidable (st.Absent id) :=
  inferInstanceAs (Decidable (∀ entry ∈ st, entry.1 ≠ id))

/-- Mint a ticket under an id that has just been drawn. Expired ones are swept. -/
def issue (st : TicketStore) (id : String) (wallet : WalletAddress) (ip : String) (now : Int) :
    TicketStore :=
  (st.filter fun entry => now < entry.2.expiresAtMs ∧ entry.1 ≠ id) ++
    [(id, ⟨wallet, now + ticketTtlMs, ip⟩)]

/-- Redeem a ticket. It is gone whatever comes out. -/
def consume (st : TicketStore) (id : String) (ip : String) (now : Int) :
    Option WalletAddress × TicketStore :=
  match st.lookup id with
  | none => (none, st)
  | some ticket =>
      (if ticket.expiresAtMs ≤ now then none
        else if ticket.ip ≠ ip then none
        else some ticket.wallet,
        st.filter fun entry => entry.1 ≠ id)

theorem lookup_of_absent {st : TicketStore} {id : String} (h : st.Absent id) :
    st.lookup id = none := by
  rw [List.lookup_eq_none_iff]
  intro entry hentry
  exact bne_iff_ne.2 (h entry hentry).symm

-- Whether it is accepted or not, a ticket is used up.
theorem absent_consume (st : TicketStore) (id ip : String) (now : Int) :
    (st.consume id ip now).2.Absent id := by
  cases h : st.lookup id with
  | none =>
      intro entry hentry heq
      simp only [consume, h] at hentry
      rw [List.lookup_eq_none_iff] at h
      exact bne_iff_ne.1 (h entry hentry) heq.symm
  | some ticket =>
      intro entry hentry
      simp only [consume, h, List.mem_filter, decide_eq_true_eq] at hentry
      exact hentry.2

theorem absent_issue {st : TicketStore} {id id' ip : String} {wallet : WalletAddress} {now : Int}
    (h : st.Absent id) (hne : id' ≠ id) : (st.issue id' wallet ip now).Absent id := by
  intro entry hentry
  rcases List.mem_append.1 hentry with hentry | hentry
  · exact h entry (List.mem_filter.1 hentry).1
  · rw [List.mem_singleton.1 hentry]
    exact hne

end TicketStore

/-- An event as a frame. A transient one has no id, so that no stream is resumed at it. -/
def sseEvent (seq : Nat) (event : ServerEvent) : EventStream.Frame :=
  { name := some event.name.toList
    data := some event.toJson
    id := if event.isReplayable then some (Nat.toDigits 10 seq) else none }

/-- The number in a `Last-Event-ID` header, if it is one of 64 bits. -/
def parseCursor (header : List Char) : Option Nat :=
  let digits := match trim header with
    | '+' :: ds => ds
    | ds => ds
  if digits ≠ [] ∧ digits.all Char.isDigit ∧ Nat.ofDigitChars 10 digits 0 < 2 ^ 64 then
    some (Nat.ofDigitChars 10 digits 0)
  else none

/-- The answer to a source: the stream, from where it goes on, or an error. -/
inductive StreamAnswer where
  | accepted (cursor : Option Nat)
  | refused (status : Nat)
deriving DecidableEq, Repr

/-- `GET /events?ticket=…`. The status of `hub` is what the hub refuses with, if it does:
    the server is full, the wallet has too many streams, or the view does not load. -/
def sseHandler (tickets : TicketStore) (suspended : List WalletAddress) (id ip : String)
    (now : Int) (header : Option (List Char)) (hub : Option Nat) : StreamAnswer × TicketStore :=
  let redeemed := tickets.consume id ip now
  (match redeemed.1 with
    | none => .refused 401
    | some wallet =>
        if wallet ∈ suspended then .refused 401
        else match hub with
          | some status => .refused status
          | none => .accepted (header.bind parseCursor),
    redeemed.2)

section Answers

variable (tickets : TicketStore) (suspended : List WalletAddress) (id ip : String) (now : Int)
  (header : Option (List Char)) (hub : Option Nat)

theorem absent_sseHandler :
    (sseHandler tickets suspended id ip now header hub).2.Absent id :=
  tickets.absent_consume id ip now

/-- Without its ticket a source is refused. -/
theorem sseHandler_of_absent (h : tickets.Absent id) :
    (sseHandler tickets suspended id ip now header hub).1 = .refused 401 := by
  have hconsume : tickets.consume id ip now = (none, tickets) := by
    rw [TicketStore.consume, TicketStore.lookup_of_absent h]
  simp only [sseHandler, hconsume]

end Answers

/-- A number that has been sent as an id is understood when it comes back. -/
theorem parseCursor_toDigits {seq : Nat} (h : seq < 2 ^ 64) :
    parseCursor (Nat.toDigits 10 seq) = some seq := by
  have hdigits : ∀ c ∈ Nat.toDigits 10 seq, c.isDigit = true := fun c hc =>
    Nat.isDigit_of_mem_toDigits (by decide) (by decide) hc
  have htrim : trim (Nat.toDigits 10 seq) = Nat.toDigits 10 seq :=
    trim_of_no_space fun c hc => isSpace_of_isDigit (hdigits c hc)
  have hplus : ∀ ds, Nat.toDigits 10 seq ≠ '+' :: ds := by
    intro ds hds
    have hbad := hdigits '+' (hds ▸ List.mem_cons_self)
    exact absurd hbad (by decide)
  have hmatch : (match Nat.toDigits 10 seq with
      | '+' :: ds => ds
      | ds => ds) = Nat.toDigits 10 seq := by
    split
    · rename_i ds hds
      exact absurd hds (hplus ds)
    · rfl
  have hall : (Nat.toDigits 10 seq).all Char.isDigit = true := List.all_eq_true.2 hdigits
  rw [parseCursor, htrim, hmatch, Nat.ofDigitChars_ten_toDigits]
  rw [if_pos ⟨Nat.toDigits_ne_nil, hall, h⟩]

end PocketSkynet
