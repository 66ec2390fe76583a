import PocketSkynet.Core.Transaction

/-!
# Sending a Transaction

The wallet signs a transaction, hands it to a node and asks for the receipt, twenty times at
most. What comes of it is told in the words of whoever sent it. The node may answer anything, or
nothing, to every call.

## Main definitions

* `Node`, `Wallet`: What the node answers, and what the session brings.
* `Event`: A transaction that is handed over, a receipt that is read, a sum that does not fit.
* `sendContractTx`, `runSend`: A transaction of the Bank or the Banker, and one of the wallet.
* `Kind`, `wordsOf`, `dialogWords`: Who sends, and what is said of the outcome.
* `report`, `dialogReport`: What happens, and everything that is said of it.

## Theorems

* `poll_eq`: The answers are asked for until there is a receipt.
* `prepare_events`: Nothing is handed over before the transaction is signed.
-/

namespace PocketSkynet

namespace Spending

/-! ### The node -/

/-- A result of the node, as far as it is looked at. What is no text in an object counts as
    absent. -/
inductive Value where
  | null
  | text (s : String)
  | object (status gasUsed contractAddress : Option String)
  | other

/-- The result of a call, or what the error says. -/
abbrev Reply := Except String Value

/-- What the node answers to each call. -/
structure Node where
  chainId : Reply
  nonce : Reply
  gasPrice : Reply
  estimate : Reply
  balanceBefore : Reply
  balanceAfter : Reply
  broadcast : SignedTransaction → Reply
  receipt : String → ℕ → Reply

/-- A transaction receipt, reduced to what is shown. -/
structure Receipt where
  ok : Bool
  gasUsed : BitVec 128
  contractAddress : Option String

def resultStr (v : Value) : Except String String :=
  match v with
  | .text s => .ok s
  | _ => .error "RPC result was not a string"

/-- The number of some hexadecimal digits, a plus sign in front allowed. -/
def fromStrRadix (cs : List Char) : Option (BitVec 128) :=
  let digits := if cs.head? = some '+' then cs.drop 1 else cs
  if digits.isEmpty || digits.any fun c => (Hex.value c).isNone then none
  else
    let n := digits.foldl (fun n c => 16 * n + (Hex.value c).getD 0) 0
    if n < 2 ^ 128 then some (BitVec.ofNat 128 n) else none

/-- Parse a JSON-RPC quantity. -/
def parseHexQuantity (s : String) : Except String (BitVec 128) :=
  let cs := s.toList
  if cs.take 2 = ['0', 'x'] ∨ cs.take 2 = ['0', 'X'] then
    match fromStrRadix (cs.drop 2) with
    | some n => .ok n
    | none => .error "invalid quantity"
  else .error "invalid quantity"

def quantity (reply : Reply) : Except String (BitVec 128) := do
  parseHexQuantity (← resultStr (← reply))

/-- The receipt, or nothing while the transaction is pending. A receipt without a status is from
    before there were any, and counts as a success. -/
def readReceipt (reply : Reply) : Except String (Option Receipt) := do
  let success (status : Option String) : Bool :=
    (status.map fun s => match parseHexQuantity s with | .ok n => n == 1 | .error _ => false).getD
      true
  let number (s : Option String) : BitVec 128 :=
    (s.bind fun s => (parseHexQuantity s).toOption).getD 0
  match ← reply with
  | .null => return none
  | .object status gasUsed contractAddress =>
      return some ⟨success status, number gasUsed, contractAddress.map String.toLower⟩
  | _ => return some ⟨success none, number none, none⟩

/-! ### The wallet -/

/-- The session and its network: its phrases, the prompt for a quorum, the chain, the explorer,
    and the signer. -/
structure Wallet where
  phrase : String → String
  acquire : Except String Unit
  chainId : Option UInt64
  txUrl : String → String
  canSign : Bool
  sign : LegacyTransaction → Except String SignedTransaction

def Wallet.withError (w : Wallet) (key e : String) : String :=
  (w.phrase key).replace "{error}" e

/-- The transaction hash as the explorer shows it. -/
def hashHex (tx : SignedTransaction) : String := "0x" ++ String.ofList (Hex.encode tx.hash)

/-- What happens on the way. -/
inductive Event where
  | broadcast (tx : SignedTransaction)
  | read (hash : String) (r : Receipt)
  | overflow

/-- What is asked for. -/
structure Request where
  recipient : Option WalletAddress
  value : BitVec 128
  data : { bytes : List UInt8 // bytes.length < 2 ^ 63 }
  gasFallback : BitVec 128

structure TxDone where
  txHash : String
  contractAddress : Option String

/-- A fifth more than was estimated. The sum wraps around if it does not fit. -/
def headroom (g : BitVec 128) : List Event × BitVec 128 :=
  (if g.toNat + g.toNat / 5 < 2 ^ 128 then [] else [.overflow], g + g / 5)

/-- The gas limit, with what happens to it on the way. -/
def gasLimitOf (n : Node) (fallback : BitVec 128) : List Event × BitVec 128 :=
  match quantity n.estimate with
  | .ok g => headroom g
  | .error _ => ([], fallback)

def gasPriceOf (n : Node) : BitVec 128 :=
  match quantity n.gasPrice with
  | .ok p => if 0 < p then p else 2500000000000
  | .error _ => 2500000000000

/-- What comes before the transaction is handed over: the nonce, the gas and the signature. -/
def prepare (w : Wallet) (n : Node) (r : Request) :
    List Event × Except String SignedTransaction :=
  match w.chainId with
  | none => ([], .error "no EVM chain id")
  | some chainId =>
      match quantity n.nonce with
      | .error e => ([], .error e)
      | .ok nonce =>
          let limit := gasLimitOf n r.gasFallback
          if !w.canSign then (limit.1, .error (w.phrase "wallet_no_local_key"))
          else (limit.1, w.sign
            ⟨nonce, gasPriceOf n, limit.2, r.recipient, r.value, r.data, chainId⟩)

/-- Wait for the receipt: so many answers have been asked for, and so many more are. -/
def poll (n : Node) (hash : String) : ℕ → ℕ → List Event × Except String TxDone
  | _, 0 => ([], .ok ⟨hash, none⟩)
  | i, left + 1 =>
      match readReceipt (n.receipt hash i) with
      | .ok (some r) =>
          if !r.ok then ([.read hash r], .error ("reverted (" ++ hash ++ ")"))
          else ([.read hash r], .ok ⟨hash, r.contractAddress⟩)
      | _ => poll n hash (i + 1) left

/-- Hand the transaction over, and wait. -/
def conclude (n : Node) (tx : SignedTransaction) : List Event × Except String TxDone :=
  match n.broadcast tx >>= resultStr with
  | .error e => ([.broadcast tx], .error e)
  | .ok hash =>
      let polled := poll n hash 0 20
      (.broadcast tx :: polled.1, polled.2)

/-- Sign, broadcast, and wait out one contract transaction. -/
def sendContractTxInner (w : Wallet) (n : Node) (r : Request) :
    List Event × Except String TxDone :=
  match (prepare w n r).2 with
  | .error e => ((prepare w n r).1, .error e)
  | .ok tx => ((prepare w n r).1 ++ (conclude n tx).1, (conclude n tx).2)

/-- What is said of a transaction. -/
inductive Words where
  | confirmed (text : String)
  | pending (text : String)
  | failed (text : String)

/-- The verdict that is flashed over the screen. -/
def txEnd (ok : Bool) : Words := if ok then .confirmed "CONFIRMED" else .failed "REJECTED"

/-- The same behind the prompt for whatever the signature needs, with the verdict. -/
def sendContractTx (w : Wallet) (n : Node) (r : Request) :
    List Event × List Words × Except String TxDone :=
  match w.acquire with
  | .error e => ([], [], .error e)
  | .ok _ =>
      let out := sendContractTxInner w n r
      (out.1, [txEnd out.2.isOk], out.2)

/-! ### The dialog of the wallet -/

structure Asset where
  symbol : String
  decimals : ℕ
  contract : Option String

/-- What the form of the dialog holds. -/
structure Form where
  asset : Asset
  recipient : WalletAddress
  units : BitVec 128
  gasPrice : BitVec 128
  userLimit : Option (BitVec 128)
  data : { bytes : List UInt8 // bytes.length < 2 ^ 63 }

structure Outcome where
  ok : Bool
  detail : String
  txHash : Option String
  explorer : Option String
  gasUsed : Option (BitVec 128)
  balanceBefore : Option (BitVec 128)
  balanceAfter : Option (BitVec 128)
  symbol : String
  decimals : ℕ

def erc20GasFallback : BitVec 128 := 100000

/-- The gas of the bytes themselves. -/
def intrinsicGas (data : List UInt8) : ℕ :=
  21000 + ((data.map fun b => if b = 0 then 10 else 40).sum * 6 + 4) / 5

def erc20TransferData (recipient : WalletAddress) (amount : BitVec 128) :
    { bytes : List UInt8 // bytes.length < 2 ^ 63 } :=
  ⟨[0xa9, 0x05, 0x9c, 0xbb] ++ List.replicate 12 0 ++ recipient.toBytes ++ List.replicate 16 0 ++
    beBytes 16 amount.toNat, by
      simp [WalletAddress.toBytes_spec]⟩

/-- The recipient, the value and the data of the transaction. A token is sent by its contract. -/
def targetOf (f : Form) :
    Option (WalletAddress × BitVec 128 × { bytes : List UInt8 // bytes.length < 2 ^ 63 }) :=
  match f.asset.contract with
  | none => some (f.recipient, f.units, f.data)
  | some contract => (WalletAddress.new contract).toOption.map fun a =>
      (a, 0, erc20TransferData f.recipient f.units)

/-- The limit that was typed, or one for the kind of the asset. -/
def sendLimit (f : Form) (data : List UInt8) : BitVec 128 :=
  match f.userLimit.filter (0 < ·) with
  | some limit => limit
  | none =>
      match f.asset.contract with
      | none => BitVec.ofNat 128 (intrinsicGas data)
      | some _ => erc20GasFallback

def given (o : Option α) (e : String) : Except String α :=
  match o with
  | some a => .ok a
  | none => .error e

/-- The chain has to be the expected one, and the rest as before. -/
def prepareSend (w : Wallet) (n : Node) (f : Form) : Except String SignedTransaction := do
  let chainId ← given w.chainId (w.phrase "no_evm_chain_id")
  w.acquire.mapError (w.withError "signing_failed")
  let actual ← (quantity n.chainId).mapError (w.withError "rpc_unreachable")
  if actual.toNat ≠ chainId.toNat then
    throw ("RPC endpoint reports chain " ++ toString actual.toNat ++ ", expected " ++
      toString chainId.toNat ++ ". Not sending.")
  let nonce ← (quantity n.nonce).mapError (w.withError "nonce_fetch_failed")
  let target ← given (targetOf f) (w.phrase "bad_token_address")
  if !w.canSign then throw (w.phrase "wallet_no_local_key")
  let tx : LegacyTransaction :=
    ⟨nonce, f.gasPrice, sendLimit f target.2.2.1, some target.1, target.2.1, target.2.2, chainId⟩
  (w.sign tx).mapError (w.withError "signing_failed")

/-- The loop of the dialog: the first receipt among so many answers. -/
def awaitReceipt (n : Node) (hash : String) : ℕ → ℕ → Option Receipt
  | _, 0 => none
  | i, left + 1 =>
      match readReceipt (n.receipt hash i) with
      | .ok (some r) => some r
      | _ => awaitReceipt n hash (i + 1) left

/-- The verdict is raised behind the prompt. -/
def prompted (w : Wallet) : Bool := w.chainId.isSome && w.acquire.isOk

def failed (f : Form) (detail : String) : Outcome :=
  ⟨false, detail, none, none, none, none, none, f.asset.symbol, f.asset.decimals⟩

/-- Everything that happens after the user commits, with the verdict. -/
def runSend (w : Wallet) (n : Node) (f : Form) : List Event × List Words × Outcome :=
  match prepareSend w n f with
  | .error detail => ([], if prompted w then [txEnd false] else [], failed f detail)
  | .ok tx =>
      match n.broadcast tx >>= resultStr with
      | .error e =>
          ([.broadcast tx], [txEnd false], failed f (w.withError "network_rejected_tx" e))
      | .ok hash =>
          let done (ok : Bool) (detail : String) (gasUsed : Option (BitVec 128)) : Outcome :=
            ⟨ok, detail, some hash, some (w.txUrl hash), gasUsed,
              (quantity n.balanceBefore).toOption, (quantity n.balanceAfter).toOption,
              f.asset.symbol, f.asset.decimals⟩
          match awaitReceipt n hash 0 20 with
          | some r =>
              ([.broadcast tx, .read hash r], [txEnd r.ok], done r.ok
                (if r.ok then "Confirmed on chain." else "The transaction was mined but reverted.")
                (some r.gasUsed))
          | none =>
              ([.broadcast tx], [txEnd true], done true
                "Broadcast accepted; still waiting for a receipt. Check the explorer." none)

/-! ### Words -/

/-- Who sends a transaction of the Bank or the Banker. -/
inductive Kind where
  | sendPane
  | swapPane
  /-- The allowance in front of a swap. -/
  | approval
  | greeting
  | deployPane
  /-- What the operator is paid with, the hash being presented elsewhere. -/
  | payment
  | bankerTool
  | bankerApproval
  | bankerDeploy (name : String)
deriving DecidableEq

def wordsOfOk (w : Wallet) (done : TxDone) : Kind → List Words
  | .sendPane => [.confirmed (w.phrase "transaction_confirmed" ++ " · " ++ done.txHash)]
  | .swapPane => [.confirmed (w.phrase "swap_confirmed" ++ " · " ++ done.txHash)]
  | .approval => []
  | .greeting => [.confirmed (w.phrase "greeting_updated")]
  | .deployPane =>
      match done.contractAddress with
      | some address => [.confirmed ((w.phrase "deployed_at").replace "{address}" address)]
      | none => []
  | .payment => []
  | .bankerApproval => []
  | .bankerTool =>
      [.confirmed ("confirmed, tx " ++ done.txHash ++ " (" ++ w.txUrl done.txHash ++ ")")]
  | .bankerDeploy name =>
      match done.contractAddress with
      | some address => [.confirmed (name ++ " deployed at " ++ address ++ ", tx " ++ done.txHash ++
          " (" ++ w.txUrl done.txHash ++ ")")]
      | none => [.pending ("broadcast, unconfirmed: tx " ++ done.txHash)]

def wordsOfError (w : Wallet) (e : String) : Kind → List Words
  | .bankerTool => [.failed ("ERROR: " ++ e)]
  | .bankerApproval => [.failed ("ERROR: " ++ e)]
  | .bankerDeploy _ => [.failed ("ERROR: " ++ e)]
  | _ => [.failed (w.phrase "tx_failed_generic" ++ ": " ++ e)]

/-- What is said of the outcome. -/
def wordsOf (w : Wallet) (kind : Kind) : Except String TxDone → List Words
  | .ok done => wordsOfOk w done kind
  | .error e => wordsOfError w e kind

/-- What the dialog says: a notice for everything that has not failed, and the detail. -/
def dialogWords (w : Wallet) (o : Outcome) : List Words :=
  if o.ok then
    [.confirmed (w.phrase "transaction_confirmed"),
      if o.gasUsed.isSome then .confirmed o.detail else .pending o.detail]
  else [.failed o.detail]

/-- What happens when a transaction is sent, and everything that is said of it. -/
def report (w : Wallet) (n : Node) (kind : Kind) (r : Request) : List Event × List Words :=
  let sent := sendContractTx w n r
  (sent.1, sent.2.1 ++ wordsOf w kind sent.2.2)

def dialogReport (w : Wallet) (n : Node) (f : Form) : List Event × List Words :=
  let sent := runSend w n f
  (sent.1, sent.2.1 ++ dialogWords w sent.2.2)

/-! ### Runs -/

/-- There is a first receipt if there is one among the answers. -/
theorem awaitReceipt_isSome (n : Node) (hash : String) (i left : ℕ) :
    (awaitReceipt n hash i left).isSome ↔
      ∃ j < left, ∃ r, readReceipt (n.receipt hash (i + j)) = .ok (some r) := by
  induction left generalizing i with
  | zero => simp [awaitReceipt]
  | succ left ih =>
      have hshift : ∀ j, i + 1 + j = i + (j + 1) := fun j => by omega
      have hrest := ih (i + 1)
      simp only [hshift] at hrest
      rw [Nat.exists_lt_succ_left, ← hrest, awaitReceipt, Nat.add_zero]
      cases hread : readReceipt (n.receipt hash i) with
      | error e => simp
      | ok answer =>
          cases answer with
          | none => simp
          | some r => simp

/-- The answers are asked for until there is a receipt. -/
theorem poll_eq (n : Node) (hash : String) (i left : ℕ) :
    poll n hash i left =
      ((awaitReceipt n hash i left).toList.map (.read hash),
        match awaitReceipt n hash i left with
        | none => .ok ⟨hash, none⟩
        | some r =>
            if r.ok then .ok ⟨hash, r.contractAddress⟩
            else .error ("reverted (" ++ hash ++ ")")) := by
  induction left generalizing i with
  | zero => rfl
  | succ left ih =>
      rw [poll, awaitReceipt]
      cases readReceipt (n.receipt hash i) with
      | error e => exact ih (i + 1)
      | ok answer =>
          cases answer with
          | none => exact ih (i + 1)
          | some r =>
              by_cases hok : r.ok = true
              · simp [hok]
              · simp [hok]

/-- Nothing is handed over or read before the transaction is signed. -/
theorem prepare_events (w : Wallet) (n : Node) (r : Request) :
    ∀ e ∈ (prepare w n r).1, e = .overflow := by
  have hlimit : ∀ e ∈ (gasLimitOf n r.gasFallback).1, e = .overflow := by
    intro e he
    rw [gasLimitOf] at he
    split at he
    · rw [headroom] at he
      split at he
      · cases he
      · exact List.mem_singleton.1 he
    · cases he
  intro e he
  rw [prepare] at he
  split at he
  · cases he
  · split at he
    · cases he
    · split at he
      · exact hlimit e he
      · exact hlimit e he

end Spending

end PocketSkynet
