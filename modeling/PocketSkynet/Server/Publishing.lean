import PocketSkynet.Core.Api
import PocketSkynet.Lib.Interleave

/-!
# Shouts, Sites and the Opening of Uploads

The requests that are limited by what was paid or by how many there are already. A
shout or a site is counted against its cap, the payment it names is looked up on the
chain, the hash of the payment is burned, and then what was paid for is made; an
upload session is counted against its cap, gets a temp file, and then a row. Each of
these is a step of its own, and any other request may take its steps in between.

The chain is a fixed function from a hash to a transaction. That it may be slow or
unreachable is in the outcome of a step. A site reaches the server in one request or
through an upload session; the two paths share everything from the count on.

## Main definitions

* `normalizeTxHash`: The shape of a transaction hash.
* `ChainTx`, `checkTransaction`, `checkReceipt`: What the chain says, and the checks.
* `Deployment`: Wallet, prices and chain of a server.
* `Ledger`: The tables.
* `Order`: What a paid request asks for.
* `PublishCall`, `PublishTask`: A request, and how far it has got.
* `PublishTask.advance`: The next step of a request.
* `Publishing`: The ledger with the requests on it.
-/

namespace PocketSkynet

/-- The longest and the shortest a shout may burn. -/
def maxDurationSecs : Int := 60

def minDurationSecs : Int := 5

/-- Concurrent shouts one wallet may have burning. -/
def maxActivePerSender : Nat := 3

/-- Sites a server will host at once. -/
def maxSites : Nat := 500

/-- Open upload sessions one wallet may hold at once. -/
def maxOpenSessions : Nat := 8

def isHexDigit (c : Char) : Bool :=
  c.isDigit || ('a' ≤ c && c ≤ 'f') || ('A' ≤ c && c ≤ 'F')

def lowercase (s : String) : String := String.ofList (s.toList.map Char.toLower)

/-- What follows a `0x`. -/
def stripHexPrefix : List Char → Option (List Char)
  | '0' :: 'x' :: rest | '0' :: 'X' :: rest => some rest
  | _ => none

/-- `0x` and 64 hex digits, normalised to lowercase. -/
def normalizeTxHash (raw : String) : Except ApiError String := do
  let invalid := ApiError.field "txHash" "Invalid transaction hash format"
  let digits ← orRefuse (stripHexPrefix (trim raw.toList)) invalid
  ensure (digits.length == 64 && digits.all isHexDigit) invalid
  return "0x" ++ lowercase (String.ofList digits)

/-- The value of a hex digit. -/
def hexValue (c : Char) : Nat :=
  if c.isDigit then c.toNat - '0'.toNat else c.toLower.toNat - 'a'.toNat + 10

/-- A quantity as the chain writes it, if it fits in 128 bits. A plus sign may stand in
    front of the digits. -/
def parseHexQuantity (input : String) : Option Nat := do
  let rest ← stripHexPrefix input.toList
  let digits := match rest with
    | '+' :: ds => ds
    | ds => ds
  guard (digits ≠ [] ∧ digits.all isHexDigit)
  let n := digits.foldl (fun n c => 16 * n + hexValue c) 0
  guard (n < 2 ^ 128)
  return n

/-- A transaction as the chain tells it, and its receipt. -/
structure ChainTx where
  recipient : Option String
  sender : Option String
  value : Option String
  mined : Bool
  receipt : Option (Option String)
deriving DecidableEq, Repr

/-- What the transaction carries. -/
def ChainTx.amount (tx : ChainTx) : Nat := (tx.value.bind parseHexQuantity).getD 0

/-- The checks on a transaction. -/
def checkTransaction (found : Option ChainTx) (payer wallet : String) (minWei : Nat) :
    Except ApiError Nat := do
  let tx ← orRefuse found (.badRequest
    "Transaction not found on chain — wait for it to propagate and try again")
  ensure (lowercase (tx.recipient.getD "") == lowercase wallet)
    (.badRequest "This transaction does not pay the server's wallet")
  ensure (lowercase (tx.sender.getD "") == lowercase payer)
    (.badRequest "This transaction was not sent by your wallet")
  ensure (decide (minWei ≤ tx.amount))
    (.badRequest "This transaction pays less than the required amount")
  ensure tx.mined (.badRequest "Transaction is not yet mined — try again in a few seconds")
  return tx.amount

/-- The checks on its receipt: a mined transfer can still have been reverted. -/
def checkReceipt (found : Option ChainTx) : Except ApiError Unit := do
  let status ← orRefuse (found.bind ChainTx.receipt) (.badRequest
    "Transaction receipt not available yet — try again in a few seconds")
  ensure (status == some "0x1") (.badRequest "This transaction failed on chain")

/-- What a payment bought. -/
inductive Purpose where
  | shout
  | site
deriving DecidableEq, Repr

/-- The settings of a server, and the chain it asks. -/
structure Deployment where
  wallet : String
  verifyPayments : Bool
  price : Purpose → Nat
  chain : String → Option ChainTx

/-- A paid request, authenticated. -/
inductive Order where
  | shout (caller : WalletAddress) (txHash : String) (durationSecs : Option Int)
  | site (caller : WalletAddress) (txHash : String)
deriving DecidableEq, Repr

namespace Order

def caller : Order → WalletAddress
  | shout caller .. | site caller _ => caller

def txHash : Order → String
  | shout _ txHash _ | site _ txHash => txHash

def purpose : Order → Purpose
  | shout .. => .shout
  | site .. => .site

end Order

/-- A row of `payments`. -/
structure PaymentRow where
  txHash : String
  payer : WalletAddress
  amountWei : Nat
  purpose : Purpose
deriving DecidableEq, Repr

/-- A row of `shouts`. -/
structure ShoutRow where
  sender : WalletAddress
  txHash : String
  amountWei : Nat
  createdAt : Int
  expiresAt : Int
deriving DecidableEq, Repr

/-- A row of `published_sites`. -/
structure SiteRow where
  id : Nat
  owner : WalletAddress
  txHash : String
  amountWei : Nat
deriving DecidableEq, Repr

/-- A row of `upload_sessions`, as far as it is counted. -/
structure OpenSession where
  id : Nat
  owner : WalletAddress
deriving DecidableEq, Repr

/-- Something that has been made for a payment. -/
structure Purchase where
  txHash : String
  purpose : Purpose
  buyer : WalletAddress
deriving DecidableEq, Repr

/-- The tables and the clock. `bought` is a record of all that was ever made for a
    payment, which no request reads. -/
structure Ledger where
  payments : List PaymentRow
  shouts : List ShoutRow
  sites : List SiteRow
  sessions : List OpenSession
  now : Int
  nextId : Nat
  bought : List Purchase
deriving DecidableEq, Repr

namespace Ledger

/-- The tables of a new server. -/
def empty (now : Int) : Ledger := ⟨[], [], [], [], now, 0, []⟩

/-- How many shouts one wallet has burning. -/
def activeCount (st : Ledger) (sender : WalletAddress) : Nat :=
  st.shouts.countP fun s => s.sender = sender ∧ st.now < s.expiresAt

/-- How many sessions one wallet has open. -/
def openCount (st : Ledger) (owner : WalletAddress) : Nat :=
  st.sessions.countP fun s => s.owner = owner

/-- The hash has been used. -/
def spent (st : Ledger) (hash : String) : Prop := ∃ row ∈ st.payments, row.txHash = hash

instance (st : Ledger) (hash : String) : Decidable (st.spent hash) :=
  inferInstanceAs (Decidable (∃ row ∈ st.payments, row.txHash = hash))

/-- Burn a hash. -/
def burn (st : Ledger) (o : Order) (hash : String) (amount : Nat) : Ledger :=
  { st with payments := st.payments ++ [⟨hash, o.caller, amount, o.purpose⟩] }

/-- Make what an order is for. -/
def make (st : Ledger) (o : Order) (hash : String) (amount : Nat) (madeAt : Int) : Ledger :=
  let bought := st.bought ++ [⟨hash, o.purpose, o.caller⟩]
  match o with
  | .shout caller _ durationSecs =>
      let secs := max minDurationSecs (min maxDurationSecs (durationSecs.getD maxDurationSecs))
      { st with
        shouts := st.shouts ++ [⟨caller, hash, amount, madeAt, madeAt + secs * 1000⟩],
        bought := bought }
  | .site caller _ =>
      { st with
        sites := st.sites ++ [⟨st.nextId, caller, hash, amount⟩], nextId := st.nextId + 1,
        bought := bought }

end Ledger

/-- A request, or the passing of time. -/
inductive PublishCall where
  | order (order : Order)
  | removeSite (id : Nat)
  | begin (caller : WalletAddress)
  | discard (id : Nat)
  | elapse (ms : Nat)
deriving DecidableEq, Repr

/-- How far a request has got. -/
inductive PublishTask where
  -- `POST /shout`, `POST /sites` and the finish of a site's session
  | count (order : Order)
  | transaction (order : Order) (hash : String)
  | receipt (order : Order) (hash : String) (amount : Nat)
  | burn (order : Order) (hash : String) (amount : Nat)
  | writeFiles (order : Order) (hash : String) (amount : Nat)
  | insert (order : Order) (hash : String) (amount : Nat) (madeAt : Int)
  -- `DELETE /sites/{id}`
  | removeSite (id : Nat)
  -- `POST /uploads`, and the end of a session
  | beginCount (caller : WalletAddress)
  | beginFile (caller : WalletAddress)
  | beginInsert (caller : WalletAddress)
  | discard (id : Nat)
  | elapse (ms : Nat)
  -- what is read back after an insert, and a site's search index
  | describe
  | answered (answer : Except ApiError Unit)
  | gone
deriving DecidableEq

namespace PublishTask

/-- Where a request starts. -/
def enter : PublishCall → PublishTask
  | .order order => count order
  | .removeSite id => removeSite id
  | .begin caller => beginCount caller
  | .discard id => discard id
  | .elapse ms => elapse ms

/-- Go on with what a check has found, or answer with its error. -/
def orAnswer {α : Type} (x : Except ApiError α) (next : α → PublishTask) : PublishTask :=
  match x with
  | .ok a => next a
  | .error e => answered (.error e)

/-- The shape of the hash and the wallet, and where the verification goes on. -/
def verify (cfg : Deployment) (o : Order) : PublishTask :=
  orAnswer (normalizeTxHash o.txHash) fun hash =>
    if trim cfg.wallet.toList = [] then
      answered (.error (.badRequest
        "This server has no payment wallet configured (VITE_FRUITNATION_WALLET)"))
    else if cfg.verifyPayments then transaction o hash
    -- Offline: the format is trusted, and the hash is still burned.
    else burn o hash (cfg.price o.purpose)

/-- The cap of an order. -/
def admits (st : Ledger) : Order → Except ApiError Unit
  | .shout caller .. => ensure (decide (st.activeCount caller < maxActivePerSender)) (.badRequest
      "You already have the maximum number of active shouts — wait for one to expire")
  | .site .. => ensure (decide (st.sites.length < maxSites)) (.badRequest
      "This server is hosting its maximum number of sites")

/-- The cap of an upload session. -/
def admitsUpload (st : Ledger) (caller : WalletAddress) : Except ApiError Unit :=
  ensure (decide (st.openCount caller < maxOpenSessions)) (.badRequest
    ("You already have " ++ toString maxOpenSessions ++
      " uploads in progress. Finish or cancel one first."))

/-- What a request is answered with when its step fails. -/
def failure : PublishTask → PublishTask
  | transaction .. | receipt .. => answered (.error (.badRequest
      "Could not reach the chain RPC to verify the payment — try again"))
  | answered answer => answered answer
  | gone => gone
  | _ => answered (.error (.internal "database or disk"))

/-- The next step of a request, when nothing goes wrong. -/
def proceed (cfg : Deployment) (st : Ledger) : PublishTask → Ledger × PublishTask
  | count o => (st, orAnswer (admits st o) fun _ => verify cfg o)
  | transaction o hash =>
      (st, orAnswer
        (checkTransaction (cfg.chain hash) o.caller.str cfg.wallet (cfg.price o.purpose))
        fun amount => receipt o hash amount)
  | receipt o hash amount =>
      (st, orAnswer (checkReceipt (cfg.chain hash)) fun _ => burn o hash amount)
  | burn o hash amount =>
      if st.spent hash then
        (st, answered (.error (.plainConflict
          "This transaction has already been used for a paid feature")))
      else
        (st.burn o hash amount,
          match o with
          | .shout .. => insert o hash amount st.now
          | .site .. => writeFiles o hash amount)
  | writeFiles o hash amount => (st, insert o hash amount st.now)
  | insert o hash amount madeAt => (st.make o hash amount madeAt, describe)
  | removeSite id =>
      ({ st with sites := st.sites.filter fun s => s.id ≠ id }, answered (.ok ()))
  | beginCount caller => (st, orAnswer (admitsUpload st caller) fun _ => beginFile caller)
  | beginFile caller => (st, beginInsert caller)
  | beginInsert caller =>
      ({ st with sessions := st.sessions ++ [⟨st.nextId, caller⟩], nextId := st.nextId + 1 },
        describe)
  | discard id =>
      ({ st with sessions := st.sessions.filter fun s => s.id ≠ id }, answered (.ok ()))
  | elapse ms => ({ st with now := st.now + ms }, answered (.ok ()))
  | describe => (st, answered (.ok ()))
  | answered answer => (st, answered answer)
  | gone => (st, gone)

/-- The next step of a request that meets `x`: an error of the database, of the disk or of
    the chain's endpoint, or a client that goes away. -/
def advance (cfg : Deployment) (x : Chance) (st : Ledger) (t : PublishTask) :
    Ledger × PublishTask := x.meet st (proceed cfg st t) t.failure gone

end PublishTask

/-- The ledger with the requests on it. -/
abbrev Publishing := Pool Ledger PublishTask

namespace Publishing

/-- The system after a turn. -/
abbrev step (cfg : Deployment) (p : Publishing) (turn : Turn PublishCall Chance) : Publishing :=
  Pool.step PublishTask.enter (PublishTask.advance cfg) p turn

/-- The system after a run from the tables of a new server. -/
abbrev after (cfg : Deployment) (now : Int) (turns : List (Turn PublishCall Chance)) :
    Publishing :=
  Run.run (step cfg) (Pool.idle (Ledger.empty now)) turns

end Publishing

end PocketSkynet
