import Mathlib.Data.List.Nodup
import Mathlib.Data.List.Perm.Subperm
import PocketSkynet.Server.Publishing
import PocketSkynet.Server.Sample

/-!
# A Payment Buys One Thing

The hash of a payment is burned before what it pays for is made, and the burn is what
only one of any number of requests can do. So nothing is ever bought twice, and since
the checks on the transaction come first, nothing is bought that was not paid for.

The price of this order is paid by the one whose request breaks off in between. The
hash stays burned, and whoever presents it again is told that it has been used. What
is lost in this way is kept here in an account of its own: what has been bought, what
the requests on their way still hold, and what is lost add up to what was burned, in
every state of every run. Something can be obtained for every payment exactly as long
as nothing is lost, and `buys_one_iff` reads off which steps lose something.

## Main definitions

* `PaidFor`: What the chain says of the payment for a purchase.
* `BuysOne`: A payment buys exactly one thing.
* `PublishTask.held`, `PublishTask.forfeits`: What a request holds, and what it loses.
* `Unbroken`: A step that does not break off between the burn and the purchase.
* `Account`: The invariant.

## Theorems

* `obtainable_iff`: What can still be had for a payment.
* `Publishing.buys_one_iff`: The runs in which a payment buys exactly one thing.
* `failedInsert_strands_payer`: A failed insert leaves a payer with nothing.
-/

namespace PocketSkynet

/-- What an order would buy with a hash. -/
def Order.purchase (o : Order) (hash : String) : Purchase := ⟨hash, o.purpose, o.caller⟩

/-- What a payment is for, and whose it is. -/
def PaymentRow.purchase (row : PaymentRow) : Purchase := ⟨row.txHash, row.purpose, row.payer⟩

def ShoutRow.purchase (row : ShoutRow) : Purchase := ⟨row.txHash, .shout, row.sender⟩

def SiteRow.purchase (row : SiteRow) : Purchase := ⟨row.txHash, .site, row.owner⟩

/-- The transaction carries the price from the buyer to the wallet of the server, and it
    has succeeded. -/
structure PaidFor (cfg : Deployment) (b : Purchase) (tx : ChainTx) : Prop where
  found : cfg.chain b.txHash = some tx
  received : lowercase (tx.recipient.getD "") = lowercase cfg.wallet
  sent : lowercase (tx.sender.getD "") = lowercase b.buyer.str
  enough : cfg.price b.purpose ≤ tx.amount
  mined : tx.mined = true
  succeeded : tx.receipt = some (some "0x1")

/-- A payment buys exactly one thing: nothing is bought twice, now or ever, nothing is
    bought unpaid on a server that asks the chain, and for each hash that has been burned
    the payer has, or can still get, what it was burned for. -/
structure BuysOne (cfg : Deployment) (p : Publishing) : Prop where
  once : (p.shared.bought.map Purchase.txHash).Nodup
  onceInTables :
    (p.shared.shouts.map ShoutRow.txHash ++ p.shared.sites.map SiteRow.txHash).Nodup
  paid : cfg.verifyPayments = true → ∀ b ∈ p.shared.bought, ∃ tx, PaidFor cfg b tx
  obtainable : ∀ row ∈ p.shared.payments, ∃ turns : List (Turn PublishCall Chance),
    row.purchase ∈ (Run.run (Publishing.step cfg) p turns).shared.bought

namespace PublishTask

/-- What a request holds: the hash is burned, and nothing has been made for it. -/
def held : PublishTask → Option Purchase
  | writeFiles o hash _ | insert o hash _ _ => some (o.purchase hash)
  | _ => none

/-- What is lost when a request meets `x`. -/
def forfeits (x : Chance) (st : Ledger) : PublishTask → Option Purchase
  | burn o hash _ => if x = .cutOff ∧ ¬ st.spent hash then some (o.purchase hash) else none
  | writeFiles o hash _ => if x = .ok then none else some (o.purchase hash)
  | insert o hash _ _ => if x = .fails then some (o.purchase hash) else none
  | _ => none

/-- What a request has found out about its payment. -/
def Checked (cfg : Deployment) : PublishTask → Prop
  | receipt o hash _ => cfg.verifyPayments = true → ∃ tx, cfg.chain hash = some tx ∧
      (tx.receipt = some (some "0x1") → PaidFor cfg (o.purchase hash) tx)
  | burn o hash _ | writeFiles o hash _ | insert o hash _ _ =>
      cfg.verifyPayments = true → ∃ tx, PaidFor cfg (o.purchase hash) tx
  | _ => True

end PublishTask

open PublishTask

/-- A step does not break off between the burn and the purchase. -/
def Unbroken (p : Publishing) : Turn PublishCall Chance → Prop
  | .start _ => True
  | .tick i x =>
      match p.procs[i]? with
      | some (.burn _ hash _) => x = .cutOff → p.shared.spent hash
      | some (.writeFiles ..) => x = .ok
      | some (.insert ..) => x ≠ .fails
      | _ => True

/-- One for the purchase itself. -/
def unit (held : Option Purchase) (b : Purchase) : Nat := if held = some b then 1 else 0

/-- What has been bought, what is held and what is lost is what was burned for. The rows
    of the tables have all been bought, a hash is burned once, and on a server that asks
    the chain every burned hash was paid with. -/
structure Account (cfg : Deployment) (lost : Purchase → Nat) (p : Publishing) : Prop where
  balance : ∀ b, p.shared.bought.count b + p.total (fun t => unit t.held b) + lost b =
    (p.shared.payments.map PaymentRow.purchase).count b
  rows : ∀ b, (p.shared.shouts.map ShoutRow.purchase).count b +
    (p.shared.sites.map SiteRow.purchase).count b ≤ p.shared.bought.count b
  burnedOnce : (p.shared.payments.map PaymentRow.txHash).Nodup
  paid : cfg.verifyPayments = true →
    ∀ row ∈ p.shared.payments, ∃ tx, PaidFor cfg row.purchase tx
  checked : ∀ t ∈ p.procs, t.Checked cfg

section Steps

variable {cfg : Deployment} {lost : Purchase → Nat} {p : Publishing}

@[simp] theorem unit_none (b : Purchase) : unit none b = 0 := rfl

@[simp] theorem held_orAnswer {α : Type} (x : Except ApiError α) (next : α → PublishTask)
    (h : ∀ a, (next a).held = none) : (orAnswer x next).held = none := by
  cases x with
  | ok a => exact h a
  | error e => rfl

theorem checked_orAnswer {α : Type} {x : Except ApiError α} {next : α → PublishTask}
    (h : ∀ a, x = .ok a → (next a).Checked cfg) : (orAnswer x next).Checked cfg := by
  cases x with
  | ok a => exact h a rfl
  | error e => trivial

-- The transaction has been found good, except that it may have been reverted.
theorem checkTransaction_eq_ok {o : Order} {hash : String} {amount : Nat}
    (h : checkTransaction (cfg.chain hash) o.caller.str cfg.wallet (cfg.price o.purpose) =
      .ok amount) :
    ∃ tx, cfg.chain hash = some tx ∧
      (tx.receipt = some (some "0x1") → PaidFor cfg (o.purchase hash) tx) := by
  simp only [checkTransaction, bind_eq_ok, orRefuse_eq_ok, ensure_eq_ok, beq_iff_eq,
    decide_eq_true_eq] at h
  rcases h with ⟨tx, hfound, -, hto, -, hfrom, -, henough, -, hmined, -⟩
  exact ⟨tx, hfound, fun hreceipt => ⟨hfound, hto, hfrom, henough, hmined, hreceipt⟩⟩

theorem checkReceipt_eq_ok {found : Option ChainTx} {tx : ChainTx} (hfound : found = some tx)
    (h : checkReceipt found = .ok ()) : tx.receipt = some (some "0x1") := by
  simp only [checkReceipt, hfound, Option.bind_some, bind_eq_ok, orRefuse_eq_ok, ensure_eq_ok,
    beq_iff_eq] at h
  rcases h with ⟨status, hstatus, rfl⟩
  exact hstatus

-- Before the burn a request holds nothing, and it has checked what it goes on with.
theorem held_verify (o : Order) : (verify cfg o).held = none := by
  refine held_orAnswer _ _ fun hash => ?_
  by_cases hwallet : trim cfg.wallet.toList = []
  · simp [hwallet, held]
  · by_cases hverify : cfg.verifyPayments = true
    · simp [hwallet, hverify, held]
    · simp [hwallet, hverify, held]

theorem checked_verify (o : Order) : (verify cfg o).Checked cfg := by
  refine checked_orAnswer fun hash _ => ?_
  by_cases hwallet : trim cfg.wallet.toList = []
  · simp [hwallet, Checked]
  · by_cases hverify : cfg.verifyPayments = true
    · simp [hwallet, hverify, Checked]
    · simp [hwallet, hverify, Checked]

/-- A tick changes the account by what it burns, makes and loses. -/
theorem account_tick {i : Nat} {x : Chance} {c : PublishTask} (h : Account cfg lost p)
    (hc : p.procs[i]? = some c) (st : Ledger) (d : PublishTask)
    (hadv : advance cfg x p.shared c = (st, d))
    (hbalance : ∀ b, st.bought.count b + unit d.held b + unit (c.forfeits x p.shared) b +
      (p.shared.payments.map PaymentRow.purchase).count b =
        p.shared.bought.count b + unit c.held b +
          (st.payments.map PaymentRow.purchase).count b)
    (hrows : ∀ b, (st.shouts.map ShoutRow.purchase).count b +
      (st.sites.map SiteRow.purchase).count b ≤ st.bought.count b)
    (honce : (st.payments.map PaymentRow.txHash).Nodup)
    (hpaid : cfg.verifyPayments = true → ∀ row ∈ st.payments, ∃ tx, PaidFor cfg row.purchase tx)
    (hchecked : d.Checked cfg) :
    Account cfg (fun b => lost b + unit (c.forfeits x p.shared) b)
      (Publishing.step cfg p (.tick i x)) := by
  have hshared : (Publishing.step cfg p (.tick i x)).shared = st := by
    rw [Publishing.step, Pool.step_tick hc, hadv]
  refine ⟨fun b => ?_, ?_, ?_, ?_, fun t ht => ?_⟩
  · have htotal : (Publishing.step cfg p (.tick i x)).total (fun t => unit t.held b) +
        unit c.held b = p.total (fun t => unit t.held b) + unit d.held b := by
      rw [Publishing.step, Pool.total_tick _ hc, hadv]
    have hold := h.balance b
    have hmove := hbalance b
    rw [hshared]
    omega
  · rw [hshared]
    exact hrows
  · rw [hshared]
    exact honce
  · rw [hshared]
    exact hpaid
  · rcases Pool.mem_tick hc ht with rfl | ht
    · rw [hadv]
      exact hchecked
    · exact h.checked t ht

/-- The step of a request that neither burns a hash nor makes anything. -/
structure Quiet (st st' : Ledger) : Prop where
  payments : st'.payments = st.payments
  bought : st'.bought = st.bought
  shouts : st'.shouts = st.shouts
  sites : st'.sites.Sublist st.sites

theorem Quiet.refl (st : Ledger) : Quiet st st := ⟨rfl, rfl, rfl, List.Sublist.refl _⟩

theorem account_quiet {i : Nat} {x : Chance} {c : PublishTask} (h : Account cfg lost p)
    (hc : p.procs[i]? = some c) (st : Ledger) (d : PublishTask)
    (hadv : advance cfg x p.shared c = (st, d)) (hquiet : Quiet p.shared st)
    (hheld : ∀ b, unit d.held b + unit (c.forfeits x p.shared) b = unit c.held b)
    (hchecked : d.Checked cfg) :
    Account cfg (fun b => lost b + unit (c.forfeits x p.shared) b)
      (Publishing.step cfg p (.tick i x)) := by
  refine account_tick h hc _ _ hadv (fun b => ?_) (fun b => ?_) ?_ ?_ hchecked
  · rw [hquiet.payments, hquiet.bought]
    have hmove := hheld b
    omega
  · rw [hquiet.shouts, hquiet.bought]
    have hsites := (hquiet.sites.map SiteRow.purchase).count_le b
    have hold := h.rows b
    omega
  · rw [hquiet.payments]
    exact h.burnedOnce
  · rw [hquiet.payments]
    exact h.paid

-- A failed step answers, and an answer holds nothing.
theorem held_failure (c : PublishTask) : c.failure.held = none := by cases c <;> rfl

theorem checked_failure (c : PublishTask) : c.failure.Checked cfg := by
  cases c <;> trivial

/-- A request that holds nothing before its step and nothing after it. -/
theorem account_idle {i : Nat} {c : PublishTask} (x : Chance) (h : Account cfg lost p)
    (hc : p.procs[i]? = some c) (hheld : c.held = none)
    (hforfeits : c.forfeits x p.shared = none) (hnext : (proceed cfg p.shared c).2.held = none)
    (hquiet : Quiet p.shared (proceed cfg p.shared c).1)
    (hchecked : (proceed cfg p.shared c).2.Checked cfg) :
    Account cfg (fun b => lost b + unit (c.forfeits x p.shared) b)
      (Publishing.step cfg p (.tick i x)) := by
  cases x with
  | ok =>
      refine account_quiet h hc (proceed cfg p.shared c).1 (proceed cfg p.shared c).2 rfl hquiet
        (fun b => ?_) hchecked
      rw [hnext, hheld, hforfeits]
      rfl
  | fails =>
      refine account_quiet h hc p.shared (c.failure) rfl (Quiet.refl _) (fun b => ?_)
        (checked_failure c)
      rw [held_failure, hheld, hforfeits]
      rfl
  | cutOff =>
      refine account_quiet h hc (proceed cfg p.shared c).1 gone rfl hquiet (fun b => ?_) trivial
      rw [hheld, hforfeits]
      rfl

/-- The burn of a hash that has not been burned before. -/
theorem account_burn {i : Nat} {o : Order} {hash : String} {amount : Nat} (x : Chance)
    (h : Account cfg lost p) (hc : p.procs[i]? = some (burn o hash amount))
    (hnew : ¬ p.shared.spent hash) :
    Account cfg (fun b => lost b + unit ((burn o hash amount).forfeits x p.shared) b)
      (Publishing.step cfg p (.tick i x)) := by
  have hchecked := h.checked _ (Pool.mem_of_getElem? hc)
  -- The row that is added, and what it is for.
  have hrow : ∀ b, ((p.shared.burn o hash amount).payments.map PaymentRow.purchase).count b =
      (p.shared.payments.map PaymentRow.purchase).count b + unit (some (o.purchase hash)) b := by
    intro b
    simp [Ledger.burn, PaymentRow.purchase, Order.purchase, unit, List.count_singleton]
  have honce : ((p.shared.burn o hash amount).payments.map PaymentRow.txHash).Nodup := by
    simp only [Ledger.burn, List.map_append, List.map_cons, List.map_nil]
    refine List.nodup_append.2 ⟨h.burnedOnce, by simp, fun a ha b hb hab => ?_⟩
    rcases List.mem_map.1 ha with ⟨row, hmem, rfl⟩
    exact hnew ⟨row, hmem, by rw [hab, List.mem_singleton.1 hb]⟩
  have hpaid : cfg.verifyPayments = true →
      ∀ row ∈ (p.shared.burn o hash amount).payments, ∃ tx, PaidFor cfg row.purchase tx := by
    intro hverify row hmem
    rcases List.mem_append.1 hmem with hmem | hmem
    · exact h.paid hverify row hmem
    · rw [List.mem_singleton.1 hmem]
      exact hchecked hverify
  cases x with
  | ok =>
      have hadv : ∃ d, advance cfg .ok p.shared (burn o hash amount) =
          (p.shared.burn o hash amount, d) ∧ d.held = some (o.purchase hash) ∧ d.Checked cfg := by
        cases o with
        | shout caller txHash secs =>
            refine ⟨insert (.shout caller txHash secs) hash amount p.shared.now, ?_, rfl, hchecked⟩
            simp [advance, proceed, hnew]
        | site caller txHash =>
            refine ⟨writeFiles (.site caller txHash) hash amount, ?_, rfl, hchecked⟩
            simp [advance, proceed, hnew]
      rcases hadv with ⟨d, hadv, hheld, hnext⟩
      refine account_tick h hc _ _ hadv (fun b => ?_) h.rows honce hpaid hnext
      rw [hrow b, hheld]
      simp only [forfeits, held, Ledger.burn, reduceCtorEq, false_and, if_false, unit_none]
      omega
  | fails =>
      exact account_quiet h hc _ _ rfl (Quiet.refl _) (fun _ => rfl) trivial
  | cutOff =>
      have hadv : advance cfg .cutOff p.shared (burn o hash amount) =
          (p.shared.burn o hash amount, gone) := by
        simp [advance, proceed, hnew]
      refine account_tick h hc _ _ hadv (fun b => ?_) h.rows honce hpaid trivial
      rw [hrow b]
      simp only [forfeits, hnew, held, Ledger.burn, not_false_eq_true, and_self, if_true,
        unit_none]
      omega

/-- What an order is for is made. -/
theorem account_insert {i : Nat} {o : Order} {hash : String} {amount : Nat} {madeAt : Int}
    (x : Chance) (h : Account cfg lost p)
    (hc : p.procs[i]? = some (insert o hash amount madeAt)) :
    Account cfg (fun b => lost b + unit ((insert o hash amount madeAt).forfeits x p.shared) b)
      (Publishing.step cfg p (.tick i x)) := by
  have hbought : ∀ b, (p.shared.make o hash amount madeAt).bought.count b =
      p.shared.bought.count b + unit (some (o.purchase hash)) b := by
    intro b
    cases o <;> simp [Ledger.make, Order.purchase, unit, List.count_singleton]
  have hpayments : (p.shared.make o hash amount madeAt).payments = p.shared.payments := by
    cases o <;> rfl
  have hrows : ∀ b, ((p.shared.make o hash amount madeAt).shouts.map ShoutRow.purchase).count b +
      ((p.shared.make o hash amount madeAt).sites.map SiteRow.purchase).count b ≤
        (p.shared.make o hash amount madeAt).bought.count b := by
    intro b
    have hold := h.rows b
    rw [hbought b]
    cases o with
    | shout caller _ _ =>
        simp only [Ledger.make, List.map_append, List.count_append, List.map_cons, List.map_nil,
          ShoutRow.purchase, List.count_singleton, Order.purchase, Order.purpose, Order.caller,
          unit, Option.some.injEq, beq_iff_eq]
        omega
    | site caller _ =>
        simp only [Ledger.make, List.map_append, List.count_append, List.map_cons, List.map_nil,
          SiteRow.purchase, List.count_singleton, Order.purchase, Order.purpose, Order.caller,
          unit, Option.some.injEq, beq_iff_eq]
        omega
  -- Whether the request goes on or not, it has made what it held.
  have hmade : ∀ y d, y ≠ Chance.fails → d.held = none → d.Checked cfg →
      advance cfg y p.shared (insert o hash amount madeAt) =
        (p.shared.make o hash amount madeAt, d) →
      Account cfg (fun b => lost b + unit ((insert o hash amount madeAt).forfeits y p.shared) b)
        (Publishing.step cfg p (.tick i y)) := by
    intro y d hy hheld hchecked hadv
    refine account_tick h hc _ _ hadv (fun b => ?_) hrows ?_ ?_ hchecked
    · rw [hbought b, hpayments, hheld]
      simp only [forfeits, hy, held, if_false, unit_none]
      omega
    · rw [hpayments]
      exact h.burnedOnce
    · rw [hpayments]
      exact h.paid
  cases x with
  | ok => exact hmade .ok describe (by simp) rfl trivial rfl
  | fails =>
      exact account_quiet h hc _ _ rfl (Quiet.refl _) (fun _ => Nat.zero_add _) trivial
  | cutOff => exact hmade .cutOff gone (by simp) rfl trivial rfl

/-- A tick adds to what is lost what the request that moves forfeits. -/
theorem account_advance {i : Nat} {c : PublishTask} (x : Chance) (h : Account cfg lost p)
    (hc : p.procs[i]? = some c) :
    Account cfg (fun b => lost b + unit (c.forfeits x p.shared) b)
      (Publishing.step cfg p (.tick i x)) := by
  have hchecked := h.checked c (Pool.mem_of_getElem? hc)
  cases c with
  | count o =>
      refine account_idle x h hc rfl rfl ?_ (Quiet.refl _) ?_
      · exact held_orAnswer _ _ fun _ => held_verify o
      · exact checked_orAnswer fun _ _ => checked_verify o
  | transaction o hash =>
      refine account_idle x h hc rfl rfl (held_orAnswer _ _ fun _ => rfl) (Quiet.refl _) ?_
      exact checked_orAnswer fun amount hok _ => checkTransaction_eq_ok hok
  | receipt o hash amount =>
      refine account_idle x h hc rfl rfl (held_orAnswer _ _ fun _ => rfl) (Quiet.refl _) ?_
      refine checked_orAnswer fun _ hok hverify => ?_
      rcases hchecked hverify with ⟨tx, hfound, hpaid⟩
      exact ⟨tx, hpaid (checkReceipt_eq_ok hfound hok)⟩
  | burn o hash amount =>
      by_cases hspent : p.shared.spent hash
      · have hproceed : proceed cfg p.shared (burn o hash amount) = (p.shared, answered (.error
            (.plainConflict "This transaction has already been used for a paid feature"))) := by
          simp [proceed, hspent]
        refine account_idle x h hc rfl (by simp [forfeits, hspent]) ?_ ?_ ?_
        · rw [hproceed]
          rfl
        · rw [hproceed]
          exact Quiet.refl _
        · rw [hproceed]
          trivial
      · exact account_burn x h hc hspent
  | writeFiles o hash amount =>
      cases x with
      | ok =>
          exact account_quiet h hc _ _ rfl (Quiet.refl _) (fun _ => rfl) hchecked
      | fails => exact account_quiet h hc _ _ rfl (Quiet.refl _) (fun _ => Nat.zero_add _) trivial
      | cutOff => exact account_quiet h hc _ _ rfl (Quiet.refl _) (fun _ => Nat.zero_add _) trivial
  | insert o hash amount madeAt => exact account_insert x h hc
  | removeSite id =>
      exact account_idle x h hc rfl rfl rfl ⟨rfl, rfl, rfl, List.filter_sublist⟩ trivial
  | beginCount caller =>
      exact account_idle x h hc rfl rfl (held_orAnswer _ _ fun _ => rfl) (Quiet.refl _)
        (checked_orAnswer fun _ _ => trivial)
  | beginFile caller => exact account_idle x h hc rfl rfl rfl (Quiet.refl _) trivial
  | beginInsert caller =>
      exact account_idle x h hc rfl rfl rfl ⟨rfl, rfl, rfl, List.Sublist.refl _⟩ trivial
  | discard id => exact account_idle x h hc rfl rfl rfl ⟨rfl, rfl, rfl, List.Sublist.refl _⟩ trivial
  | elapse ms => exact account_idle x h hc rfl rfl rfl ⟨rfl, rfl, rfl, List.Sublist.refl _⟩ trivial
  | describe => exact account_idle x h hc rfl rfl rfl (Quiet.refl _) trivial
  | answered answer => exact account_idle x h hc rfl rfl rfl (Quiet.refl _) trivial
  | gone => exact account_idle x h hc rfl rfl rfl (Quiet.refl _) trivial

-- The condition on a step asks that nothing is forfeited.
theorem unbroken_iff {i : Nat} {x : Chance} {c : PublishTask} (hc : p.procs[i]? = some c) :
    Unbroken p (.tick i x) ↔ c.forfeits x p.shared = none := by
  cases c <;> simp [Unbroken, hc, forfeits]

/-- Every step keeps the account. What is lost only grows, and it stays the same exactly
    when the step does not break off. -/
theorem account_step (turn : Turn PublishCall Chance) (h : Account cfg lost p) :
    ∃ lost', Account cfg lost' (Publishing.step cfg p turn) ∧ (∀ b, lost b ≤ lost' b) ∧
      (lost' = lost ↔ Unbroken p turn) := by
  cases turn with
  | start call =>
      refine ⟨lost, ⟨fun b => ?_, h.rows, h.burnedOnce, h.paid, fun t ht => ?_⟩,
        fun _ => Nat.le_refl _, by simp [Unbroken]⟩
      · have htotal : (Publishing.step cfg p (.start call)).total (fun t => unit t.held b) =
            p.total (fun t => unit t.held b) := by
          rw [Publishing.step, Pool.total_start]
          cases call <;> rfl
        rw [htotal]
        exact h.balance b
      · rcases Pool.mem_start ht with ht | rfl
        · exact h.checked t ht
        · cases call <;> trivial
  | tick i x =>
      cases hc : p.procs[i]? with
      | none =>
          refine ⟨lost, ?_, fun _ => Nat.le_refl _, by simp [Unbroken, hc]⟩
          rw [Publishing.step, Pool.step_tick_none hc]
          exact h
      | some c =>
          refine ⟨_, account_advance x h hc, fun _ => Nat.le_add_right _ _, ?_⟩
          rw [unbroken_iff hc]
          constructor
          · intro hsame
            cases hf : c.forfeits x p.shared with
            | none => rfl
            | some b =>
                have hb := congrFun hsame b
                simp [hf, unit] at hb
          · intro hf
            simp [hf]

-- Whatever runs next, what is lost stays lost.
theorem account_run (turns : List (Turn PublishCall Chance)) (h : Account cfg lost p) :
    ∃ lost', Account cfg lost' (Run.run (Publishing.step cfg) p turns) ∧
      ∀ b, lost b ≤ lost' b := by
  induction turns generalizing lost p with
  | nil => exact ⟨lost, h, fun _ => Nat.le_refl _⟩
  | cons turn turns ih =>
      rcases account_step turn h with ⟨lost', h', hle, -⟩
      rcases ih h' with ⟨lost'', h'', hle'⟩
      exact ⟨lost'', h'', fun b => Nat.le_trans (hle b) (hle' b)⟩

end Steps

section Obtaining

variable {cfg : Deployment} {lost : Purchase → Nat} {p : Publishing}

-- Purchases that are counted among others with different hashes have different hashes.
theorem nodup_of_count_le {l l' : List Purchase} (hle : ∀ b, l.count b ≤ l'.count b)
    (h : (l'.map Purchase.txHash).Nodup) : (l.map Purchase.txHash).Nodup := by
  rcases List.subperm_ext_iff.2 (fun b _ => hle b) with ⟨l'', hperm, hsub⟩
  exact (hperm.map Purchase.txHash).nodup_iff.1 (h.sublist (hsub.map Purchase.txHash))

theorem account_nodup (h : Account cfg lost p) :
    ((p.shared.payments.map PaymentRow.purchase).map Purchase.txHash).Nodup := by
  rw [List.map_map]
  exact h.burnedOnce

-- A hash is burned once, so what it was burned for counts once.
theorem Account.count_le_one (h : Account cfg lost p) (b : Purchase) :
    (p.shared.payments.map PaymentRow.purchase).count b ≤ 1 :=
  List.nodup_iff_count_le_one.1 (List.Nodup.of_map _ (account_nodup h)) b

/-- Whoever holds a burned hash makes what it pays for in at most two steps. -/
theorem obtainable_of_held {c : PublishTask} {b : Purchase} (hc : c ∈ p.procs)
    (hheld : c.held = some b) : ∃ turns : List (Turn PublishCall Chance),
      b ∈ (Run.run (Publishing.step cfg) p turns).shared.bought := by
  rcases List.getElem?_of_mem hc with ⟨i, hi⟩
  have hmakes : ∀ (q : Publishing) o hash amount madeAt,
      q.procs[i]? = some (insert o hash amount madeAt) → o.purchase hash = b →
        b ∈ (Publishing.step cfg q (.tick i .ok)).shared.bought := by
    rintro q o hash amount madeAt hq rfl
    rw [Publishing.step, Pool.step_tick hq]
    cases o <;> simp [advance, proceed, Ledger.make, Order.purchase]
  cases c with
  | insert o hash amount madeAt =>
      exact ⟨[.tick i .ok], hmakes p o hash amount madeAt hi (by simpa [held] using hheld)⟩
  | writeFiles o hash amount =>
      refine ⟨[.tick i .ok, .tick i .ok], hmakes _ o hash amount p.shared.now ?_
        (by simpa [held] using hheld)⟩
      rw [Publishing.step, Pool.step_tick hi]
      have hlt : i < p.procs.length := (List.getElem?_eq_some_iff.1 hi).1
      simp [advance, proceed, hlt]
  | _ => simp [held] at hheld

/-- What was burned for can still be had exactly if it is not lost. -/
theorem obtainable_iff (h : Account cfg lost p) {row : PaymentRow}
    (hrow : row ∈ p.shared.payments) : (∃ turns : List (Turn PublishCall Chance),
      row.purchase ∈ (Run.run (Publishing.step cfg) p turns).shared.bought) ↔
        lost row.purchase = 0 := by
  constructor
  · rintro ⟨turns, hbought⟩
    -- At the end of the run it would be both bought and lost, and be burned for twice.
    rcases account_run turns h with ⟨lost', h', hle⟩
    have hbalance := h'.balance row.purchase
    have hcount := h'.count_le_one row.purchase
    have hpos := List.count_pos_iff.2 hbought
    have hmore := hle row.purchase
    omega
  · intro hlost
    have hbalance := h.balance row.purchase
    have hpos := List.count_pos_iff.2 (List.mem_map_of_mem (f := PaymentRow.purchase) hrow)
    by_cases hbought : row.purchase ∈ p.shared.bought
    · exact ⟨[], hbought⟩
    · have hzero := List.count_eq_zero.2 hbought
      have hheld : p.total (fun t => unit t.held row.purchase) ≠ 0 := by omega
      rw [ne_eq, Pool.total_eq_zero] at hheld
      rcases not_forall.1 hheld with ⟨c, hc⟩
      rcases Classical.not_imp.1 hc with ⟨hc, hne⟩
      refine obtainable_of_held hc ?_
      by_contra hother
      exact hne (by simp [unit, hother])

theorem account_empty (now : Int) :
    Account cfg (fun _ => 0) (Pool.idle (Ledger.empty now)) :=
  ⟨fun _ => rfl, fun _ => Nat.le_refl _, List.nodup_nil, fun _ _ h => absurd h List.not_mem_nil,
    fun _ h => absurd h List.not_mem_nil⟩

/-- As long as nothing is lost, a payment buys exactly one thing. -/
theorem buysOne_of_account (h : Account cfg (fun _ => 0) p) : BuysOne cfg p := by
  have hbought : ∀ b, p.shared.bought.count b ≤
      (p.shared.payments.map PaymentRow.purchase).count b := by
    intro b
    have hbalance := h.balance b
    omega
  refine ⟨nodup_of_count_le hbought (account_nodup h), ?_, fun hverify b hb => ?_,
    fun row hrow => (obtainable_iff h hrow).2 rfl⟩
  · have hrows : ∀ b, (p.shared.shouts.map ShoutRow.purchase ++
        p.shared.sites.map SiteRow.purchase).count b ≤
          (p.shared.payments.map PaymentRow.purchase).count b := by
      intro b
      rw [List.count_append]
      exact Nat.le_trans (h.rows b) (hbought b)
    have hnodup := nodup_of_count_le hrows (account_nodup h)
    rwa [List.map_append, List.map_map, List.map_map] at hnodup
  · have hpos := List.count_pos_iff.2 hb
    have hmem := List.count_pos_iff.1 (Nat.lt_of_lt_of_le hpos (hbought b))
    rcases List.mem_map.1 hmem with ⟨row, hrow, rfl⟩
    exact h.paid hverify row hrow

end Obtaining

/-- A payment buys exactly one thing, in every state of a run, exactly if no step of the
    run breaks off between the burn of a hash and what it was burned for. -/
theorem Publishing.buys_one_iff (cfg : Deployment) (now : Int)
    (turns : List (Turn PublishCall Chance)) :
    Run.Throughout (Publishing.step cfg) (BuysOne cfg) (Pool.idle (Ledger.empty now)) turns ↔
      Run.Along (Publishing.step cfg) Unbroken (Pool.idle (Ledger.empty now)) turns := by
  refine Run.throughout_iff_along (J := Account cfg fun _ => 0) ?_
    (fun p h => buysOne_of_account h) ?_ _ _ (account_empty now)
  · intro p turn h hunbroken
    rcases account_step turn h with ⟨lost, h', -, hsame⟩
    rwa [hsame.2 hunbroken] at h'
  · intro p turn h hbuys
    rcases account_step turn h with ⟨lost, h', -, hsame⟩
    refine hsame.1 (funext fun b => ?_)
    -- What is lost has been burned for, and then it could not be had.
    by_contra hlost
    have hbalance := h'.balance b
    have hpos : 0 < ((Publishing.step cfg p turn).shared.payments.map
        PaymentRow.purchase).count b := by omega
    rcases List.mem_map.1 (List.count_pos_iff.1 hpos) with ⟨row, hrow, rfl⟩
    exact hlost ((obtainable_iff h' hrow).1 (hbuys.obtainable row hrow))

namespace Sample

/-- Alice has sent ten to the wallet of the server. -/
def paidTx : ChainTx :=
  ⟨some "0x00000000000000000000000000000000000000FF", some alice.str, some "0xa", true,
    some (some "0x1")⟩

/-- A shout for ten. -/
def shoutServer : Deployment :=
  ⟨"0x00000000000000000000000000000000000000ff", true, fun _ => 10, fun _ => some paidTx⟩

/-- The hash of that payment. -/
def paidHash : String := "0x" ++ String.ofList (List.replicate 64 'A')

/-- Alice shouts, and the insert of her shout fails. -/
def failedInsert : List (Turn PublishCall Chance) :=
  [.start (.order (.shout alice paidHash none)), .tick 0 .ok, .tick 0 .ok, .tick 0 .ok,
    .tick 0 .ok, .tick 0 .fails]

/-- There is nothing she could get for her payment any more. -/
theorem failedInsert_strands_payer :
    ¬ Run.Throughout (Publishing.step shoutServer) (BuysOne shoutServer)
      (Pool.idle (Ledger.empty 0)) failedInsert := by
  intro h
  have hlast := (Run.throughout_last _ _ h).obtainable
  have hstart : Account shoutServer (fun _ => 0) (Pool.idle (Ledger.empty 0)) := account_empty 0
  rcases account_run failedInsert hstart with ⟨lost, hend, -⟩
  -- Her hash is burned, and nothing has been made and nobody holds it.
  have hburned : (Publishing.after shoutServer 0 failedInsert).shared.payments =
      [⟨lowercase paidHash, alice, 10, .shout⟩] := by decide +kernel
  have hmade : (Publishing.after shoutServer 0 failedInsert).shared.bought = [] := by
    decide +kernel
  have hheld : (Publishing.after shoutServer 0 failedInsert).total
      (fun t => unit t.held ⟨lowercase paidHash, .shout, alice⟩) = 0 := by decide +kernel
  have hrow : (⟨lowercase paidHash, alice, 10, .shout⟩ : PaymentRow) ∈
      (Publishing.after shoutServer 0 failedInsert).shared.payments := by simp [hburned]
  have hzero := (obtainable_iff hend hrow).1 (hlast _ hrow)
  have hbalance := hend.balance ⟨lowercase paidHash, .shout, alice⟩
  simp only [PaymentRow.purchase] at hzero
  rw [hmade, hheld, hzero, hburned] at hbalance
  simp [PaymentRow.purchase] at hbalance

end Sample

end PocketSkynet
