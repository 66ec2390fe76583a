import PocketSkynet.Web.TxOutcomes

/-!
# What Is Said of a Transaction

A transaction that was handed to a node may take effect, whatever the node answers. So it should
be called confirmed when a receipt says so, and failed when a receipt says so or when it was
never handed over. The wallet calls a transaction confirmed when the receipt does not come in
time, and failed when the answer to the broadcast is an error or is lost. The gas estimate is
raised by a fifth whether or not the sum fits.

## Main definitions

* `Truthful`: What is said is true of what happened.
* `Answered`: The node answers with the hash of the transaction, and with a receipt in time.
* `Kept`, `DialogKept`: It does so for what is sent, and its estimate leaves room.

## Theorems

* `truthful_conclude`: A transaction that was handed over has to be answered.
* `outcomes_truthful_iff`: What is said is true exactly if the node answers.
-/

namespace PocketSkynet

namespace Spending

/-- What is called confirmed has a receipt that shows success, what is called failed was not
    handed over or has a receipt that shows otherwise, and no sum goes over. -/
structure Truthful (run : List Event × List Words) : Prop where
  confirmed : ∀ text, .confirmed text ∈ run.2 → ∃ tx r, .broadcast tx ∈ run.1 ∧
    .read (hashHex tx) r ∈ run.1 ∧ r.ok = true
  failed : ∀ text, .failed text ∈ run.2 → (∀ tx, .broadcast tx ∉ run.1) ∨
    ∃ tx r, .broadcast tx ∈ run.1 ∧ .read (hashHex tx) r ∈ run.1 ∧ r.ok = false
  fits : .overflow ∉ run.1

/-- The node answers the broadcast with the hash of the transaction, and one of twenty questions
    with a receipt. -/
def Answered (n : Node) (tx : SignedTransaction) : Prop :=
  n.broadcast tx >>= resultStr = .ok (hashHex tx) ∧
    ∃ i < 20, ∃ r, readReceipt (n.receipt (hashHex tx) i) = .ok (some r)

/-- If the gas is estimated, there is room for a fifth more. -/
def EstimateFits (w : Wallet) (n : Node) : Prop :=
  w.chainId.isSome → (quantity n.nonce).isOk →
    ∀ g, quantity n.estimate = .ok g → g.toNat + g.toNat / 5 < 2 ^ 128

/-- Behind the prompt the estimate fits, and what is signed is answered. -/
def Kept (w : Wallet) (n : Node) (r : Request) : Prop :=
  w.acquire.isOk → EstimateFits w n ∧
    ∀ tx, (prepare w n r).2 = .ok tx → Answered n tx

/-- What is signed in the dialog is answered. -/
def DialogKept (w : Wallet) (n : Node) (f : Form) : Prop :=
  ∀ tx, prepareSend w n f = .ok tx → Answered n tx

/-- What is said is that it went well, or that it did not. -/
def Tells (words : List Words) (ok : Bool) : Prop :=
  ((∃ text, .confirmed text ∈ words) ↔ ok = true) ∧ ((∃ text, .failed text ∈ words) ↔ ok = false)

theorem tells_txEnd (ok : Bool) : Tells [txEnd ok] ok := by
  cases ok <;> simp [Tells, txEnd]

theorem tells_append {words more : List Words} {ok : Bool} (h : Tells words ok)
    (hconfirmed : ∀ text, .confirmed text ∈ more → ok = true)
    (hfailed : ∀ text, .failed text ∈ more → ok = false) : Tells (words ++ more) ok := by
  constructor
  · constructor
    · rintro ⟨text, htext⟩
      rcases List.mem_append.1 htext with htext | htext
      · exact h.1.1 ⟨text, htext⟩
      · exact hconfirmed text htext
    · intro hok
      rcases h.1.2 hok with ⟨text, htext⟩
      exact ⟨text, List.mem_append_left _ htext⟩
  · constructor
    · rintro ⟨text, htext⟩
      rcases List.mem_append.1 htext with htext | htext
      · exact h.2.1 ⟨text, htext⟩
      · exact hfailed text htext
    · intro hok
      rcases h.2.2 hok with ⟨text, htext⟩
      exact ⟨text, List.mem_append_left _ htext⟩

theorem tells_wordsOfError (w : Wallet) (e : String) (kind : Kind) :
    Tells (wordsOfError w e kind) false := by
  cases kind <;> simp [Tells, wordsOfError]

-- Nothing that went well is called failed, and nothing else is called confirmed.
theorem failed_wordsOf {w : Wallet} {kind : Kind} {result : Except String TxDone} {text : String}
    (h : .failed text ∈ wordsOf w kind result) : result.isOk = false := by
  cases result with
  | error e => rfl
  | ok done =>
      cases kind
      case deployPane => cases hc : done.contractAddress <;> simp [wordsOf, wordsOfOk, hc] at h
      case bankerDeploy => cases hc : done.contractAddress <;> simp [wordsOf, wordsOfOk, hc] at h
      all_goals simp [wordsOf, wordsOfOk] at h

theorem confirmed_wordsOf {w : Wallet} {kind : Kind} {result : Except String TxDone}
    {text : String} (h : .confirmed text ∈ wordsOf w kind result) : result.isOk = true := by
  cases result with
  | error e => exact absurd ((tells_wordsOfError w e kind).1.1 ⟨text, h⟩) Bool.false_ne_true
  | ok done => rfl

theorem tells_dialogWords (w : Wallet) (o : Outcome) : Tells (dialogWords w o) o.ok := by
  rw [dialogWords]
  cases o.ok with
  | false => simp [Tells]
  | true => cases o.gasUsed.isSome <;> simp [Tells]

/-- What was not handed over may be called failed. -/
theorem truthful_unsent {events : List Event} {words : List Words}
    (hevents : ∀ e ∈ events, e = .overflow) (htells : Tells words false) :
    Truthful (events, words) ↔ .overflow ∉ events := by
  constructor
  · exact fun h => h.fits
  · intro hfits
    refine ⟨fun text htext => ?_, fun text _ => Or.inl fun tx hmem => ?_, hfits⟩
    · exact absurd (htells.1.1 ⟨text, htext⟩) Bool.false_ne_true
    · cases hevents _ hmem

-- Among what happens, what is no overflow is the broadcast or comes behind it.
theorem mem_behind {events rest : List Event} {tx : SignedTransaction} {e : Event}
    (hevents : ∀ e ∈ events, e = .overflow) (he : e ≠ .overflow) :
    e ∈ events ++ .broadcast tx :: rest ↔ e = .broadcast tx ∨ e ∈ rest := by
  rw [List.mem_append, List.mem_cons]
  exact ⟨fun h => h.resolve_left fun hmem => he (hevents e hmem), Or.inr⟩

theorem broadcast_mem {events rest : List Event} {tx tx' : SignedTransaction}
    (hevents : ∀ e ∈ events, e = .overflow) (hrest : ∀ tx, Event.broadcast tx ∉ rest) :
    .broadcast tx' ∈ events ++ .broadcast tx :: rest ↔ tx' = tx := by
  rw [mem_behind hevents (by simp)]
  constructor
  · rintro (h | h)
    · cases h
      rfl
    · exact absurd h (hrest tx')
  · rintro rfl
    exact Or.inl rfl

/-- Without a receipt nothing can be said of what was handed over. -/
theorem not_truthful_unread {events : List Event} {words : List Words} {tx : SignedTransaction}
    {ok : Bool} (hevents : ∀ e ∈ events, e = .overflow) (htells : Tells words ok) :
    ¬ Truthful (events ++ [.broadcast tx], words) := by
  have hread : ∀ hash r, .read hash r ∉ events ++ [Event.broadcast tx] := by
    intro hash r hmem
    rw [mem_behind hevents (by simp)] at hmem
    rcases hmem with h | h <;> cases h
  intro h
  cases ok with
  | true =>
      rcases htells.1.2 rfl with ⟨text, htext⟩
      rcases h.confirmed text htext with ⟨tx', r, -, hmem, -⟩
      exact hread _ _ hmem
  | false =>
      rcases htells.2.2 rfl with ⟨text, htext⟩
      rcases h.failed text htext with hnone | ⟨tx', r, -, hmem, -⟩
      · exact hnone tx (List.mem_append_right _ List.mem_cons_self)
      · exact hread _ _ hmem

/-- With a receipt what is said is true if it is the receipt of the transaction. -/
theorem truthful_read {events : List Event} {words : List Words} {tx : SignedTransaction}
    {hash : String} {r : Receipt} (hevents : ∀ e ∈ events, e = .overflow)
    (htells : Tells words r.ok) :
    Truthful (events ++ [.broadcast tx, .read hash r], words) ↔
      .overflow ∉ events ∧ hash = hashHex tx := by
  have hread : ∀ hash' r', .read hash' r' ∈ events ++ [Event.broadcast tx, .read hash r] ↔
      hash' = hash ∧ r' = r := by
    intro hash' r'
    rw [mem_behind hevents (by simp)]
    simp
  have hsent : ∀ tx', .broadcast tx' ∈ events ++ [Event.broadcast tx, .read hash r] ↔ tx' = tx :=
    fun tx' => broadcast_mem hevents (by simp)
  have hover : .overflow ∈ events ++ [Event.broadcast tx, .read hash r] ↔ .overflow ∈ events := by
    simp
  constructor
  · intro h
    refine ⟨fun hmem => h.fits (hover.2 hmem), ?_⟩
    cases hok : r.ok with
    | true =>
        rcases htells.1.2 hok with ⟨text, htext⟩
        rcases h.confirmed text htext with ⟨tx', r', htx, hmem, -⟩
        rw [← (hsent tx').1 htx]
        exact ((hread _ _).1 hmem).1.symm
    | false =>
        rcases htells.2.2 hok with ⟨text, htext⟩
        rcases h.failed text htext with hnone | ⟨tx', r', htx, hmem, -⟩
        · exact absurd ((hsent tx).2 rfl) (hnone tx)
        · rw [← (hsent tx').1 htx]
          exact ((hread _ _).1 hmem).1.symm
  · rintro ⟨hfits, rfl⟩
    refine ⟨fun text htext => ?_, fun text htext => Or.inr ?_, fun hmem => hfits (hover.1 hmem)⟩
    · exact ⟨tx, r, (hsent tx).2 rfl, (hread _ _).2 ⟨rfl, rfl⟩, htells.1.1 ⟨text, htext⟩⟩
    · exact ⟨tx, r, (hsent tx).2 rfl, (hread _ _).2 ⟨rfl, rfl⟩, htells.2.1 ⟨text, htext⟩⟩

-- What comes of a receipt.
theorem isOk_receipt (r : Receipt) (done : TxDone) (e : String) :
    (if r.ok then .ok done else .error e : Except String TxDone).isOk = r.ok := by
  cases r.ok <;> rfl

/-- What was handed over has to be answered. -/
theorem truthful_conclude {events : List Event} {words : List Words} {n : Node}
    {tx : SignedTransaction} (hevents : ∀ e ∈ events, e = .overflow)
    (htells : Tells words (conclude n tx).2.isOk) :
    Truthful (events ++ (conclude n tx).1, words) ↔ .overflow ∉ events ∧ Answered n tx := by
  rw [conclude] at htells ⊢
  cases hb : n.broadcast tx >>= resultStr with
  | error e =>
      -- The answer is an error, or it is lost.
      rw [hb] at htells
      refine iff_of_false (not_truthful_unread hevents htells) fun h => ?_
      exact nomatch hb.symm.trans h.2.1
  | ok hash =>
      rw [hb] at htells
      have hreceipt := awaitReceipt_isSome n hash 0 20
      simp only [Nat.zero_add] at hreceipt
      simp only [poll_eq] at htells ⊢
      cases ha : awaitReceipt n hash 0 20 with
      | none =>
          -- There is no receipt in time.
          rw [ha] at htells hreceipt
          refine iff_of_false (not_truthful_unread hevents htells) fun h => ?_
          have hhash : hash = hashHex tx := Except.ok.inj (hb.symm.trans h.2.1)
          exact Bool.false_ne_true (hreceipt.2 (hhash ▸ h.2.2))
      | some r =>
          rw [ha] at htells hreceipt
          simp only [isOk_receipt] at htells
          rw [Option.toList_some, List.map_singleton, truthful_read hevents htells]
          refine and_congr_right fun _ => ⟨?_, fun h => Except.ok.inj (hb.symm.trans h.1)⟩
          rintro rfl
          exact ⟨hb, hreceipt.1 rfl⟩

/-- The estimate leaves room exactly if nothing goes over before the signature. -/
theorem overflow_prepare (w : Wallet) (n : Node) (r : Request) :
    .overflow ∉ (prepare w n r).1 ↔ EstimateFits w n := by
  rw [prepare, EstimateFits]
  cases w.chainId with
  | none => simp
  | some chainId =>
      cases quantity n.nonce with
      | error e => simp [Except.isOk, Except.toBool]
      | ok nonce =>
          have hlimit : .overflow ∉ (gasLimitOf n r.gasFallback).1 ↔
              ∀ g, quantity n.estimate = .ok g → g.toNat + g.toNat / 5 < 2 ^ 128 := by
            rw [gasLimitOf]
            cases quantity n.estimate with
            | error e => simp
            | ok g =>
                simp only [headroom]
                by_cases hg : g.toNat + g.toNat / 5 < 2 ^ 128
                · rw [if_pos hg]
                  simpa using hg
                · rw [if_neg hg]
                  exact iff_of_false (by simp) fun h => hg (h g rfl)
          cases w.canSign <;> simpa [Except.isOk, Except.toBool] using hlimit

/-- What was signed in the dialog is handed over and waited for as any other transaction. -/
theorem dialogReport_signed {w : Wallet} {n : Node} {f : Form} {tx : SignedTransaction}
    (h : prepareSend w n f = .ok tx) :
    (dialogReport w n f).1 = (conclude n tx).1 ∧
      Tells (dialogReport w n f).2 (conclude n tx).2.isOk := by
  have htells (ok : Bool) (o : Outcome) (ho : o.ok = ok) :
      Tells ([txEnd ok] ++ dialogWords w o) ok := by
    subst ho
    exact tells_append (tells_txEnd _) (fun text htext => (tells_dialogWords w o).1.1 ⟨text, htext⟩)
      fun text htext => (tells_dialogWords w o).2.1 ⟨text, htext⟩
  simp only [dialogReport, runSend, h, conclude]
  cases n.broadcast tx >>= resultStr with
  | error e => exact ⟨rfl, htells false _ rfl⟩
  | ok hash =>
      simp only [poll_eq]
      cases awaitReceipt n hash 0 20 with
      | none => exact ⟨rfl, htells true _ rfl⟩
      | some r =>
          refine ⟨rfl, ?_⟩
          rw [isOk_receipt]
          exact htells r.ok _ rfl

theorem dialogReport_unsigned {w : Wallet} {n : Node} {f : Form} {detail : String}
    (h : prepareSend w n f = .error detail) :
    (dialogReport w n f).1 = [] ∧ Tells (dialogReport w n f).2 false := by
  have hwords : Tells (dialogWords w (failed f detail)) false :=
    tells_dialogWords w (failed f detail)
  rw [dialogReport, runSend, h]
  refine ⟨rfl, ?_⟩
  cases prompted w with
  | false => exact hwords
  | true =>
      exact tells_append (tells_txEnd false) (fun text htext => hwords.1.1 ⟨text, htext⟩)
        fun _ _ => rfl

-- The words of the sender repeat the verdict, or say nothing.
theorem tells_report {w : Wallet} {kind : Kind} {result : Except String TxDone} :
    Tells ([txEnd result.isOk] ++ wordsOf w kind result) result.isOk :=
  tells_append (tells_txEnd _) (fun _ => confirmed_wordsOf) fun _ => failed_wordsOf

/-- A transaction of the Bank or the Banker is told of truthfully if the node keeps to it. -/
theorem truthful_report (w : Wallet) (n : Node) (kind : Kind) (r : Request) :
    Truthful (report w n kind r) ↔ Kept w n r := by
  rw [report, sendContractTx, Kept]
  cases w.acquire with
  | error e =>
      refine iff_of_true ?_ fun h => nomatch h
      exact (truthful_unsent (by simp) (tells_wordsOfError w e kind)).2 (by simp)
  | ok _ =>
      have htells := @tells_report w kind (sendContractTxInner w n r).2
      have hfits := overflow_prepare w n r
      have hevents := prepare_events w n r
      simp only [sendContractTxInner] at htells ⊢
      cases hprepared : (prepare w n r).2 with
      | error e =>
          rw [hprepared] at htells
          rw [truthful_unsent hevents htells, hfits]
          exact ⟨fun h _ => ⟨h, fun tx htx => nomatch htx⟩, fun h => (h rfl).1⟩
      | ok tx =>
          rw [hprepared] at htells
          rw [truthful_conclude hevents htells, hfits]
          refine ⟨fun h _ => ⟨h.1, fun tx' htx => ?_⟩, fun h => ⟨(h rfl).1, (h rfl).2 tx rfl⟩⟩
          cases htx
          exact h.2

/-- So is one of the dialog. -/
theorem truthful_dialogReport (w : Wallet) (n : Node) (f : Form) :
    Truthful (dialogReport w n f) ↔ DialogKept w n f := by
  rw [DialogKept]
  cases hprepared : prepareSend w n f with
  | error detail =>
      rcases dialogReport_unsigned hprepared with ⟨hevents, htells⟩
      refine iff_of_true ?_ fun tx htx => nomatch htx
      have htruthful := (truthful_unsent (by simp) htells).2 List.not_mem_nil
      rwa [← hevents] at htruthful
  | ok tx =>
      rcases dialogReport_signed hprepared with ⟨hevents, htells⟩
      have hiff := @truthful_conclude [] _ n tx (by simp) htells
      rw [List.nil_append, ← hevents] at hiff
      refine hiff.trans ?_
      refine ⟨fun h tx' htx => ?_, fun h => ⟨by simp, h tx rfl⟩⟩
      cases htx
      exact h.2

/-- **What is said of a transaction is true exactly if the node answers with its hash and with a
    receipt in time, and its estimate leaves room.** -/
theorem outcomes_truthful_iff (w : Wallet) (n : Node) :
    (∀ kind r, Truthful (report w n kind r) ↔ Kept w n r) ∧
      ∀ f, Truthful (dialogReport w n f) ↔ DialogKept w n f :=
  ⟨truthful_report w n, truthful_dialogReport w n⟩

/-! ### A silent node -/

def sampleWallet : Wallet where
  phrase key := key
  acquire := .ok ()
  chainId := some 25
  txUrl hash := "https://explorer/tx/" ++ hash
  canSign := true
  sign tx := .ok (tx.signWithSignature (fun raw => raw.take 32) Sample.ones)

/-- The node answers the broadcast with the hash, and no receipt comes in time. -/
def silentNode : Node where
  chainId := .ok (.text "0x19")
  nonce := .ok (.text "0x0")
  gasPrice := .ok (.text "0x1")
  estimate := .ok (.text "0x5208")
  balanceBefore := .ok (.text "0x0")
  balanceAfter := .ok (.text "0x0")
  broadcast tx := .ok (.text (hashHex tx))
  receipt _ _ := .ok .null

/-- What the Banker sent is called confirmed without a receipt. -/
theorem silent_not_truthful : ¬ Truthful (report sampleWallet silentNode .bankerTool
    ⟨(Sample.transfer 25).recipient, 1, ⟨[], by decide⟩, 21000⟩) := by
  rw [truthful_report]
  intro h
  rcases (h rfl).2 _ rfl with ⟨-, i, -, r, hr⟩
  exact nomatch hr

end Spending

end PocketSkynet
