import PocketSkynet.Server.Publishing
import PocketSkynet.Server.Sample

/-!
# The Caps of a Wallet and of the Server

A wallet has at most so many shouts burning and so many uploads open, and the server
hosts at most so many sites. Each of the three is counted in one database call, and the
row it makes room for is inserted in a later one. A request that has been let in takes up
no room before its insert, so the next count does not see it.

`caps_hold` is the bound that this leaves. As long as every count that lets a request in
would have let it in with the requests counted that were let in before and are still on
their way, no cap is ever exceeded.

## Main definitions

* `Limit`: What is limited, and for whom.
* `Limit.used`, `Limit.admitted`: The rows that are there, and a request on its way.
* `Capped`: No cap is exceeded.
* `CountsAdmitted`: The condition on a step.

## Theorems

* `reserved_step`: What is there and what is on its way stays within the cap.
* `Publishing.caps_hold`: The caps hold throughout.
* `fourShouts_exceed_cap`: Requests that count at the same time are all let in.
-/

namespace PocketSkynet

/-- The caps hold. -/
structure Capped (st : Ledger) : Prop where
  shouts : ∀ sender, st.activeCount sender ≤ maxActivePerSender
  uploads : ∀ owner, st.openCount owner ≤ maxOpenSessions
  sites : st.sites.length ≤ maxSites

/-- What is limited, and for whom. -/
inductive Limit where
  | shouts (sender : WalletAddress)
  | uploads (owner : WalletAddress)
  | sites
deriving DecidableEq, Repr

namespace Limit

def cap : Limit → Nat
  | shouts _ => maxActivePerSender
  | uploads _ => maxOpenSessions
  | sites => maxSites

/-- The rows that count. -/
def used (st : Ledger) : Limit → Nat
  | shouts sender => st.activeCount sender
  | uploads owner => st.openCount owner
  | sites => st.sites.length

/-- The limit an order is counted against. -/
def ofOrder : Order → Limit
  | .shout caller .. => shouts caller
  | .site .. => sites

/-- The limit a request is about to be counted against. -/
def asked : PublishTask → Option Limit
  | .count o => some (ofOrder o)
  | .beginCount caller => some (uploads caller)
  | _ => none

/-- One for a request that has been let in and has not made its row. -/
def admitted (l : Limit) : PublishTask → Nat
  | .transaction o _ | .receipt o _ _ | .burn o _ _ | .writeFiles o _ _ | .insert o _ _ _ =>
      if ofOrder o = l then 1 else 0
  | .beginFile caller | .beginInsert caller => if uploads caller = l then 1 else 0
  | _ => 0

/-- There is room for one more beside the rows and the requests that are on their way. -/
def HasRoom (p : Publishing) (l : Limit) : Prop := l.used p.shared + p.total l.admitted < l.cap

instance (p : Publishing) (l : Limit) : Decidable (l.HasRoom p) :=
  inferInstanceAs (Decidable (_ < _))

end Limit

/-- A count that finds room among the rows finds it among the requests on their way, too. -/
def CountsAdmitted (p : Publishing) : Turn PublishCall Chance → Prop
  | .start _ => True
  | .tick i x => ∀ l ∈ p.procs[i]?.bind Limit.asked,
      x = .ok → l.used p.shared < l.cap → l.HasRoom p

instance (p : Publishing) : ∀ turn, Decidable (CountsAdmitted p turn)
  | .start _ => inferInstanceAs (Decidable True)
  | .tick i x => inferInstanceAs (Decidable (∀ l ∈ p.procs[i]?.bind Limit.asked,
      x = .ok → l.used p.shared < l.cap → l.HasRoom p))

/-- The rows and the requests on their way keep to each cap together. -/
def Reserved (p : Publishing) : Prop := ∀ l : Limit, l.used p.shared + p.total l.admitted ≤ l.cap

open PublishTask

section Steps

variable {cfg : Deployment} {p : Publishing}

theorem capped_of_reserved (h : Reserved p) : Capped p.shared :=
  ⟨fun sender => Nat.le_of_add_right_le (h (.shouts sender)),
    fun owner => Nat.le_of_add_right_le (h (.uploads owner)),
    Nat.le_of_add_right_le (h .sites)⟩

theorem admitted_orAnswer {α : Type} (l : Limit) (x : Except ApiError α)
    {next : α → PublishTask} {n : Nat} (h : ∀ a, l.admitted (next a) ≤ n) :
    l.admitted (orAnswer x next) ≤ n := by
  cases x with
  | ok a => exact h a
  | error e => exact Nat.zero_le n

-- A failed step answers, and an answer is on its way to nothing.
theorem admitted_failure (l : Limit) (c : PublishTask) : l.admitted c.failure = 0 := by
  cases c <;> rfl

theorem admitted_verify (l : Limit) (o : Order) :
    l.admitted (verify cfg o) ≤ if Limit.ofOrder o = l then 1 else 0 := by
  refine admitted_orAnswer l _ fun hash => ?_
  by_cases hwallet : trim cfg.wallet.toList = []
  · simp [hwallet, Limit.admitted]
  · by_cases hverify : cfg.verifyPayments = true
    · simp [hwallet, hverify, Limit.admitted]
    · simp [hwallet, hverify, Limit.admitted]

/-- The row of an order counts against the limit of the order, and against no other. -/
theorem used_make (l : Limit) (st : Ledger) (o : Order) (hash : String) (amount : Nat)
    (madeAt : Int) :
    l.used (st.make o hash amount madeAt) ≤ l.used st + if Limit.ofOrder o = l then 1 else 0 := by
  cases o with
  | shout caller txHash secs =>
      cases l with
      | shouts sender =>
          have hcount : (st.make (.shout caller txHash secs) hash amount madeAt).activeCount sender =
              st.activeCount sender + _ := List.countP_append
          simp only [Limit.used, hcount, Limit.ofOrder, Limit.shouts.injEq]
          refine Nat.add_le_add_left ?_ _
          by_cases hcaller : caller = sender
          · rw [if_pos hcaller]
            exact List.countP_le_length
          · simp [hcaller]
      | uploads owner => simp [Limit.used, Ledger.make, Ledger.openCount]
      | sites => simp [Limit.used, Ledger.make]
  | site caller txHash =>
      cases l with
      | shouts sender => exact Nat.le_add_right _ _
      | uploads owner => simp [Limit.used, Ledger.make, Ledger.openCount]
      | sites => simp [Limit.used, Ledger.make, Limit.ofOrder]

-- A shout that is over at one time is over at any later one.
theorem activeCount_elapse (st : Ledger) (sender : WalletAddress) (ms : Nat) :
    ({ st with now := st.now + ms } : Ledger).activeCount sender ≤ st.activeCount sender := by
  refine List.countP_mono_left fun row _ hrow => ?_
  simp only [decide_eq_true_eq] at hrow ⊢
  exact ⟨hrow.1, by omega⟩

/-- Whatever is not a count lets nobody in: what it takes up it had been promised. -/
theorem limit_proceed (l : Limit) (st : Ledger) {c : PublishTask} (hc : Limit.asked c = none) :
    l.used (proceed cfg st c).1 + l.admitted (proceed cfg st c).2 ≤ l.used st + l.admitted c := by
  cases c with
  | count o => cases hc
  | beginCount caller => cases hc
  | transaction o hash =>
      refine Nat.add_le_add_left ?_ _
      exact admitted_orAnswer l _ fun _ => Nat.le_refl _
  | receipt o hash amount =>
      refine Nat.add_le_add_left ?_ _
      exact admitted_orAnswer l _ fun _ => Nat.le_refl _
  | burn o hash amount =>
      by_cases hspent : st.spent hash
      · simp [proceed, hspent, Limit.admitted]
      · -- The burned hash counts against no cap.
        have hused : l.used (st.burn o hash amount) = l.used st := by cases l <;> rfl
        simp only [proceed, hspent, if_false, hused]
        cases o <;> exact Nat.le_refl _
  | writeFiles o hash amount => exact Nat.le_refl _
  | insert o hash amount madeAt => exact used_make l st o hash amount madeAt
  | removeSite id =>
      cases l with
      | sites => exact List.length_filter_le _ _
      | _ => exact Nat.le_refl _
  | beginFile caller => exact Nat.le_refl _
  | beginInsert caller =>
      cases l with
      | uploads owner =>
          by_cases howner : caller = owner
          · simp [proceed, Limit.used, Limit.admitted, Ledger.openCount, howner]
          · simp [proceed, Limit.used, Limit.admitted, Ledger.openCount, howner]
      | _ => exact Nat.le_add_right _ _
  | discard id =>
      cases l with
      | uploads owner =>
          exact (List.filter_sublist (p := fun s : OpenSession => s.id ≠ id)).countP_le
      | _ => exact Nat.le_refl _
  | elapse ms =>
      cases l with
      | shouts sender => exact activeCount_elapse st sender ms
      | _ => exact Nat.le_refl _
  | describe => exact Nat.le_refl _
  | answered answer => exact Nat.le_refl _
  | gone => exact Nat.le_refl _

theorem limit_advance (l : Limit) (x : Chance) (st : Ledger) {c : PublishTask}
    (hc : Limit.asked c = none) :
    l.used (advance cfg x st c).1 + l.admitted (advance cfg x st c).2 ≤
      l.used st + l.admitted c := by
  have hproceed : l.used (proceed cfg st c).1 + l.admitted (proceed cfg st c).2 ≤
      l.used st + l.admitted c := limit_proceed l st hc
  cases x with
  | ok => exact hproceed
  | fails =>
      have hfailure := admitted_failure l c
      simp only [advance, Chance.meet_fails]
      omega
  | cutOff =>
      have hgone : l.admitted gone = 0 := rfl
      simp only [advance, Chance.meet_cutOff]
      omega

-- Where there is no room, the check says so.
theorem admits_of_full {st : Ledger} {o : Order}
    (hfull : ¬ (Limit.ofOrder o).used st < (Limit.ofOrder o).cap) : ∃ e, admits st o = .error e := by
  cases o with
  | shout caller txHash secs =>
      simp only [Limit.ofOrder, Limit.used, Limit.cap] at hfull
      simp [admits, ensure, hfull]
  | site caller txHash =>
      simp only [Limit.ofOrder, Limit.used, Limit.cap] at hfull
      simp [admits, ensure, hfull]

theorem admitsUpload_of_full {st : Ledger} {caller : WalletAddress}
    (hfull : ¬ (Limit.uploads caller).used st < (Limit.uploads caller).cap) :
    ∃ e, admitsUpload st caller = .error e := by
  simp only [Limit.used, Limit.cap] at hfull
  simp [admitsUpload, ensure, hfull]

/-- A count changes no table, and it lets somebody in only for its own limit and only if
    there is room among the rows. -/
theorem asked_proceed {st : Ledger} {c : PublishTask} {l : Limit} (hc : Limit.asked c = some l) :
    (proceed cfg st c).1 = st ∧ ∀ l' : Limit, l'.admitted (proceed cfg st c).2 ≤
      if l = l' ∧ l.used st < l.cap then 1 else 0 := by
  cases c with
  | count o =>
      have hl : Limit.ofOrder o = l := by simpa [Limit.asked] using hc
      subst hl
      refine ⟨rfl, fun l' => ?_⟩
      by_cases hroom : (Limit.ofOrder o).used st < (Limit.ofOrder o).cap
      · simp only [hroom, and_true]
        exact admitted_orAnswer l' _ fun _ => admitted_verify l' o
      · rcases admits_of_full hroom with ⟨e, he⟩
        simp [proceed, he, orAnswer, Limit.admitted]
  | beginCount caller =>
      have hl : Limit.uploads caller = l := by simpa [Limit.asked] using hc
      subst hl
      refine ⟨rfl, fun l' => ?_⟩
      by_cases hroom : (Limit.uploads caller).used st < (Limit.uploads caller).cap
      · simp only [hroom, and_true]
        exact admitted_orAnswer l' _ fun _ => Nat.le_refl _
      · rcases admitsUpload_of_full hroom with ⟨e, he⟩
        simp [proceed, he, orAnswer, Limit.admitted]
  | _ => cases hc

/-- A step that meets the condition keeps rows and requests within the caps. -/
theorem reserved_step (p : Publishing) (turn : Turn PublishCall Chance) (h : Reserved p)
    (hcounts : CountsAdmitted p turn) : Reserved (Publishing.step cfg p turn) := by
  intro l
  have hold := h l
  cases turn with
  | start call =>
      have htotal : (Publishing.step cfg p (.start call)).total l.admitted = p.total l.admitted := by
        rw [Publishing.step, Pool.total_start]
        cases call <;> rfl
      rw [htotal]
      exact hold
  | tick i x =>
      cases hc : p.procs[i]? with
      | none =>
          rw [Publishing.step, Pool.step_tick_none hc]
          exact hold
      | some c =>
          have htotal : (Publishing.step cfg p (.tick i x)).total l.admitted + l.admitted c =
              p.total l.admitted + l.admitted (advance cfg x p.shared c).2 :=
            Pool.total_tick l.admitted hc
          have hshared : (Publishing.step cfg p (.tick i x)).shared =
              (advance cfg x p.shared c).1 := by
            rw [Publishing.step, Pool.step_tick hc]
          rw [hshared]
          cases hasked : Limit.asked c with
          | none =>
              have hkept : l.used (advance cfg x p.shared c).1 +
                  l.admitted (advance cfg x p.shared c).2 ≤ l.used p.shared + l.admitted c :=
                limit_advance l x p.shared hasked
              omega
          | some l' =>
              have hproceed : (proceed cfg p.shared c).1 = p.shared ∧ ∀ l₂ : Limit,
                  l₂.admitted (proceed cfg p.shared c).2 ≤
                    if l' = l₂ ∧ l'.used p.shared < l'.cap then 1 else 0 := asked_proceed hasked
              rcases hproceed with ⟨hstate, hlet⟩
              have hroom := hcounts l' (by simp [hc, hasked])
              have hlet := hlet l
              cases x with
              | ok =>
                  have hadv : advance cfg .ok p.shared c = proceed cfg p.shared c := rfl
                  rw [hadv] at htotal ⊢
                  rw [hstate]
                  by_cases hin : l' = l ∧ l'.used p.shared < l'.cap
                  · rcases hin with ⟨rfl, hfree⟩
                    have hfits := hroom rfl hfree
                    simp only [hfree, and_self, if_true, Limit.HasRoom] at hlet hfits
                    omega
                  · rw [if_neg hin] at hlet
                    omega
              | fails =>
                  have hfailure := admitted_failure l c
                  simp only [advance, Chance.meet_fails] at htotal ⊢
                  omega
              | cutOff =>
                  have hgone : l.admitted gone = 0 := rfl
                  simp only [advance, Chance.meet_cutOff, hstate] at htotal ⊢
                  omega

end Steps

namespace Publishing

/-- In every run in which each count that lets a request in has room for the requests that
    were let in before it, every cap holds in every state. -/
theorem caps_hold (cfg : Deployment) (now : Int) (turns : List (Turn PublishCall Chance))
    (h : Run.Along (step cfg) CountsAdmitted (Pool.idle (Ledger.empty now)) turns) :
    Run.Throughout (step cfg) (fun p => Capped p.shared) (Pool.idle (Ledger.empty now))
      turns := by
  have hstart : Reserved (Pool.idle (Ledger.empty now)) := by
    intro l
    cases l <;> exact Nat.zero_le _
  exact Run.throughout_mono (fun _ => capped_of_reserved) _ turns
    (Run.throughout_of_along reserved_step _ turns hstart h)

end Publishing

namespace Sample

/-- The hash of one of Alice's payments. -/
def hashOf (c : Char) : String := "0x" ++ String.ofList (List.replicate 64 c)

/-- A server on which every hash is a payment of hers. -/
def capServer : Deployment :=
  ⟨"0x00000000000000000000000000000000000000ff", true, fun _ => 10, fun _ =>
    some ⟨some "0x00000000000000000000000000000000000000ff", some alice.str, some "0xa", true,
      some (some "0x1")⟩⟩

/-- One of her shouts after the other, and an upload. -/
def twoShouts : List (Turn PublishCall Chance) :=
  [.start (.order (.shout alice (hashOf '1') none)), .tick 0 .ok, .tick 0 .ok, .tick 0 .ok,
    .tick 0 .ok, .tick 0 .ok, .start (.begin alice), .tick 1 .ok, .tick 1 .ok, .tick 1 .ok,
    .start (.order (.shout alice (hashOf '2') none)), .tick 2 .ok, .tick 2 .ok, .tick 2 .ok,
    .tick 2 .ok, .tick 2 .ok]

theorem twoShouts_keep_caps :
    Run.Throughout (Publishing.step capServer) (fun p => Capped p.shared)
      (Pool.idle (Ledger.empty 0)) twoShouts :=
  Publishing.caps_hold capServer 0 twoShouts (by decide +kernel)

/-- Four shouts of hers are counted before the first of them is made. -/
def fourShouts : List (Turn PublishCall Chance) :=
  ['1', '2', '3', '4'].map (fun c => .start (.order (.shout alice (hashOf c) none))) ++
    [0, 1, 2, 3].map (fun i => .tick i .ok) ++
    [0, 1, 2, 3].flatMap (fun i => List.replicate 4 (.tick i .ok))

/-- All four of them burn. -/
theorem fourShouts_exceed_cap :
    ¬ Run.Throughout (Publishing.step capServer) (fun p => Capped p.shared)
      (Pool.idle (Ledger.empty 0)) fourShouts := by
  intro h
  have hlast := (Run.throughout_last _ _ h).shouts alice
  revert hlast
  decide +kernel

end Sample

end PocketSkynet
