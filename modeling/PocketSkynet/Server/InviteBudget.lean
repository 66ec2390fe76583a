import PocketSkynet.Server.InviteLinks
import PocketSkynet.Server.Sample

/-!
# The Budget of an Invite Link

The conditional update keeps the budget by itself: however requests interleave, a link is
never spent more often than it allows, and neither after it has expired nor after it has been
revoked. What it does not know is whether there is anybody to seat. Two redemptions of one
person can both find no member, both spend a use, and then seat the same person twice; so the
count is that of the people who came in exactly if no redemption that has spent a use finds
its caller in the room when it comes to seat them.

Everything is read off one relation, `LinkMove`, that says what a statement can do to the
links, to the log, and to the use its request holds.

## Main definitions

* `LinkMove`: What a statement can do.
* `WithinBudget`: No use past the limit, the expiry or the revocation.
* `Balances`: Every use that is spent has seated somebody, or is about to.
* `SeatsNewcomers`: A redemption that seats its caller does not find them seated.

## Theorems

* `withinBudget_move`: A statement keeps the budget.
* `balances_move`, `not_balances_move`: What keeps the balance, and what breaks it.
* `link_budget`: All of it together.
-/

namespace PocketSkynet

/-! ### What a statement does to the links -/

/-- What a statement can do to the links and the log, by whether it finds a newcomer where it
    seats somebody, and by the use its request holds before and after. -/
inductive LinkMove (now : Nat) (rows : List Invite) (log : List LinkEvent) :
    Bool → Option String → List Invite → List LinkEvent → Option String → Prop where
  | stays (held : Option String) : LinkMove now rows log true held rows log held
  | mints (i : Invite) (hcount : i.useCount = 0) (hlive : i.revokedAt = none)
      (hnew : i.tokenHash ∉ rows.map Invite.tokenHash) :
      LinkMove now rows log true none (rows ++ [i]) log none
  | revokes (room : RoomId) (inviteId : String) :
      LinkMove now rows log true none (revokeRows room inviteId now rows)
        (log ++ (rows.filter (Invite.revocable room inviteId)).map fun i =>
          .revoked i.tokenHash) none
  | spends (hash : String) (hspend : rows.any (Invite.spendable hash now) = true) :
      LinkMove now rows log true none (spendRows hash now rows) (log ++ [.spent hash now])
        (some hash)
  | joins (hash : String) (who : WalletAddress) :
      LinkMove now rows log true (some hash) rows (log ++ [.joined hash who]) none
  | wastes (hash : String) : LinkMove now rows log false (some hash) rows log none

namespace Proc

/-- A redemption that has not spent anything yet. -/
def redeems : Proc → Bool
  | redeemFind .. | redeemRoom .. | redeemMember .. | redeemConsume .. => true
  | _ => false

/-- Only a redemption goes on to spend a use. -/
theorem redeems_next (now : Nat) (s : Shared) (p : Proc) (h : (p.next now s).redeems = true) :
    p.redeems = true := by
  cases p with
  | redeemFind caller hash => rfl
  | redeemRoom caller hash invite => rfl
  | redeemMember caller hash invite => rfl
  | redeemConsume caller hash invite => rfl
  | _ =>
      simp only [next, check, after, storeEligible, checkEpoch] at h
      repeat' split at h
      all_goals cases h

theorem redeems_enter {call : Call} (h : (enter call).redeems = true) :
    ∃ caller hash, call = .redeem caller hash := by
  cases call with
  | redeem caller hash => exact ⟨caller, hash, rfl⟩
  | store caller room wrap version =>
      simp only [enter, after] at h
      split at h <;> cases h
  | _ => cases h

/-- Nothing else writes the table of links. -/
theorem roomInvites_effect (now : Nat) (s : Shared) {p : Proc} (h : p.redeems = false) :
    (p.effect now s).server.roomInvites = s.server.roomInvites := by
  cases p with
  | redeemConsume caller hash invite => cases h
  | sendCreate room new => simp only [effect, Shared.writeStream]; split <;> rfl
  | editUpdate room id body => simp only [effect, Shared.writeStream]; split <;> rfl
  | _ => rfl

end Proc

namespace LinkProc

/-- Redemptions are followed statement by statement here. -/
def Proper : LinkProc → Prop
  | request p => p.redeems = false
  | _ => True

/-- Where somebody is seated, they are no member. -/
def newcomer (s : LinkState) : LinkProc → Bool
  | redeemSeat caller _ room => !s.shared.server.isMember room caller
  | _ => true

theorem proper_enter (call : LinkCall) : (enter call).Proper := by
  cases call with
  | request call =>
      by_cases hcall : (Proc.enter call).redeems = true
      · rcases Proc.redeems_enter hcall with ⟨caller, hash, rfl⟩
        exact trivial
      · rw [Bool.not_eq_true] at hcall
        cases call with
        | redeem caller hash => exact trivial
        | _ => exact hcall
  | _ => exact trivial

theorem holding_enter (call : LinkCall) : (enter call).holding = none := by
  cases call with
  | request call => cases call <;> rfl
  | _ => rfl

theorem holding_check (c : Bool) (e : ApiError) {p : LinkProc} (h : p.holding = none) :
    (check c e p).holding = none := by
  unfold check
  split
  · exact h
  · rfl

theorem holding_after {α : Type} (x : Except ApiError α) {p : α → LinkProc}
    (h : ∀ a, (p a).holding = none) : (after x p).holding = none := by
  unfold after
  split
  · exact h _
  · rfl

theorem proper_check (c : Bool) (e : ApiError) {p : LinkProc} (h : p.Proper) :
    (check c e p).Proper := by
  unfold check
  split
  · exact h
  · exact trivial

theorem proper_after {α : Type} (x : Except ApiError α) {p : α → LinkProc}
    (h : ∀ a, (p a).Proper) : (after x p).Proper := by
  unfold after
  split
  · exact h _
  · exact trivial

theorem proper_next (now : Nat) (s : LinkState) {c : LinkProc} (h : c.Proper) :
    (next now s c).Proper := by
  cases c with
  | request p =>
      change (p.next now s.shared).redeems = false
      by_contra hne
      have hp := Proc.redeems_next now s.shared p (by simpa using hne)
      rw [show p.redeems = false from h] at hp
      cases hp
  | mintAdmin m => exact proper_after _ fun _ => trivial
  | mintChannel m => exact proper_after _ fun _ => proper_after _ fun _ => trivial
  | mintInsert m expiresAt => exact proper_check _ _ trivial
  | revokeExists caller room inviteId => exact proper_check _ _ trivial
  | revokeAdmin caller room inviteId => exact proper_after _ fun _ => trivial
  | revokeUpdate room inviteId => exact proper_check _ _ trivial
  | redeemRoom caller hash invite => exact proper_check _ _ trivial
  | redeemFind caller hash =>
      simp only [next]
      split <;> exact trivial
  | redeemMember caller hash invite =>
      simp only [next]
      split
      · exact trivial
      · split <;> exact trivial
  | redeemPhrase caller hash invite read changed =>
      simp only [next]
      split
      · exact trivial
      · split <;> exact trivial
  | redeemKeyed room =>
      simp only [next]
      split <;> exact trivial
  | _ => exact trivial

/-- Every statement is one of the moves. -/
theorem move_advance (now : Nat) {s : LinkState} {c : LinkProc} (hproper : c.Proper)
    (hfound : ∀ hash, c.holding = some hash → hash ∈ s.rows.map Invite.tokenHash) :
    LinkMove now s.rows s.log (c.newcomer s) c.holding (effect now s c).rows (effect now s c).log
      (next now s c).holding := by
  cases c with
  | request p =>
      have hrows : (effect now s (request p)).rows = s.rows :=
        Proc.roomInvites_effect now s.shared hproper
      rw [hrows]
      exact .stays none
  | replied reply => exact .stays none
  | mintAdmin m =>
      rw [show (next now s (mintAdmin m)).holding = none from holding_after _ fun _ => rfl]
      exact .stays none
  | mintChannel m =>
      rw [show (next now s (mintChannel m)).holding = none from
        holding_after _ fun _ => holding_after _ fun _ => rfl]
      exact .stays none
  | mintInsert m expiresAt =>
      rw [show (next now s (mintInsert m expiresAt)).holding = none from holding_check _ _ rfl]
      by_cases hnew : (s.rows.all fun i => i.id ≠ m.id && i.tokenHash ≠ m.tokenHash) = true
      · simp only [effect, if_pos hnew, LinkState.write, List.append_nil]
        refine .mints (m.invite expiresAt now) rfl rfl ?_
        rintro hmem
        rcases List.mem_map.1 hmem with ⟨i, hi, hhash⟩
        have hboth := List.all_eq_true.1 hnew i hi
        simp only [decide_not, Bool.and_eq_true, Bool.not_eq_true',
          decide_eq_false_iff_not] at hboth
        exact hboth.2 hhash
      · simp only [effect, if_neg hnew]
        exact .stays none
  | revokeExists caller room inviteId =>
      rw [show (next now s (revokeExists caller room inviteId)).holding = none from
        holding_check _ _ rfl]
      exact .stays none
  | revokeAdmin caller room inviteId =>
      rw [show (next now s (revokeAdmin caller room inviteId)).holding = none from
        holding_after _ fun _ => rfl]
      exact .stays none
  | revokeUpdate room inviteId =>
      rw [show (next now s (revokeUpdate room inviteId)).holding = none from
        holding_check _ _ rfl]
      exact .revokes room inviteId
  | redeemFind caller hash =>
      have hnext : (next now s (redeemFind caller hash)).holding = none := by
        simp only [next]
        split <;> rfl
      rw [hnext]
      exact .stays none
  | redeemRoom caller hash invite =>
      rw [show (next now s (redeemRoom caller hash invite)).holding = none from
        holding_check _ _ rfl]
      exact .stays none
  | redeemMember caller hash invite =>
      have hnext : (next now s (redeemMember caller hash invite)).holding = none := by
        simp only [next]
        split
        · rfl
        · split <;> rfl
      rw [hnext]
      exact .stays none
  | redeemConsume caller hash invite =>
      by_cases hspend : s.rows.any (Invite.spendable hash now) = true
      · simp only [effect, next, hspend, LinkState.write]
        exact .spends hash hspend
      · simp only [effect, next, Bool.not_eq_true _ ▸ hspend]
        exact .stays none
  | redeemPhrase caller hash invite read changed =>
      cases changed with
      | false =>
          have hnext :
              (next now s (redeemPhrase caller hash invite read false)).holding = none := by
            simp only [next]
            split <;> rfl
          rw [hnext]
          exact .stays none
      | true =>
          -- The row that was updated is still there.
          rcases List.mem_map.1 (hfound hash rfl) with ⟨i, hi, hhash⟩
          have hrow : (s.shared.server.findByHash hash).isSome :=
            List.find?_isSome.2 ⟨i, hi, by simpa using hhash⟩
          rcases Option.isSome_iff_exists.1 hrow with ⟨row, hrow⟩
          simp only [next, hrow]
          exact .stays (some hash)
  | redeemSeat caller hash room =>
      by_cases hmember : s.shared.server.isMember room caller = true
      · simp only [effect, newcomer, hmember]
        exact .wastes hash
      · simp only [effect, newcomer, Bool.not_eq_true _ ▸ hmember]
        exact .joins hash caller
  | redeemKeyed room =>
      have hnext : (next now s (redeemKeyed room)).holding = none := by
        simp only [next]
        split <;> rfl
      rw [hnext]
      exact .stays none
  | redeemFlag room => exact .stays none

end LinkProc

/-! ### What is so of the links -/

section Rows

variable {rows : List Invite} {j : Invite} {hash : String} {now : Nat}

-- A use more, and everything else as it was.
theorem of_mem_spendRows (hj : j ∈ spendRows hash now rows) : ∃ i ∈ rows,
    j = { i with useCount := i.useCount + if i.spendable hash now then 1 else 0 } := by
  rcases List.mem_map.1 hj with ⟨i, hi, rfl⟩
  refine ⟨i, hi, ?_⟩
  split <;> rfl

theorem of_mem_revokeRows {room : RoomId} {inviteId : String}
    (hj : j ∈ revokeRows room inviteId now rows) : ∃ i ∈ rows,
    j = { i with revokedAt := if i.revocable room inviteId then some now else i.revokedAt } := by
  rcases List.mem_map.1 hj with ⟨i, hi, rfl⟩
  refine ⟨i, hi, ?_⟩
  split <;> rfl

theorem hashes_spendRows (hash : String) (now : Nat) (rows : List Invite) :
    (spendRows hash now rows).map Invite.tokenHash = rows.map Invite.tokenHash := by
  rw [spendRows, List.map_map]
  refine List.map_congr_left fun i _ => ?_
  simp only [Function.comp_apply]
  split <;> rfl

theorem hashes_revokeRows (room : RoomId) (inviteId : String) (now : Nat) (rows : List Invite) :
    (revokeRows room inviteId now rows).map Invite.tokenHash = rows.map Invite.tokenHash := by
  rw [revokeRows, List.map_map]
  refine List.map_congr_left fun i _ => ?_
  simp only [Function.comp_apply]
  split <;> rfl

theorem spendable_iff {i : Invite} : i.spendable hash now = true ↔
    i.tokenHash = hash ∧ i.revokedAt = none ∧ now < i.expiresAt ∧ i.exhausted = false := by
  simp only [Invite.spendable, Bool.and_eq_true, beq_iff_eq, Option.isNone_iff_eq_none,
    decide_eq_true_eq, Bool.not_eq_true', and_assoc]

end Rows

/-- What is so of the links and of what has happened to them. -/
structure WithinBudget (rows : List Invite) (log : List LinkEvent) : Prop where
  hashes : (rows.map Invite.tokenHash).Nodup
  known : ∀ e ∈ log, e.tokenHash ∈ rows.map Invite.tokenHash
  counted : ∀ i ∈ rows, i.useCount = spends i.tokenHash log
  within : ∀ i ∈ rows, ∀ n, i.maxUses = some n → i.useCount ≤ n
  timely : ∀ i ∈ rows, ∀ now, .spent i.tokenHash now ∈ log → now < i.expiresAt
  marked : ∀ i ∈ rows, i.revokedAt.isSome ↔ .revoked i.tokenHash ∈ log
  final : log.Pairwise fun e e' => ∀ hash now, e = .revoked hash → e' ≠ .spent hash now

section Moves

variable {rows rows' : List Invite} {log log' : List LinkEvent} {now : Nat}

-- Nothing has happened to a link that there is not.
theorem count_eq_zero_of_known (hknown : ∀ e ∈ log, e.tokenHash ∈ rows.map Invite.tokenHash)
    {hash : String} (hnew : hash ∉ rows.map Invite.tokenHash) (f : LinkEvent → Bool) :
    log.countP (fun e => f e && e.tokenHash == hash) = 0 := by
  rw [List.countP_eq_zero]
  intro e he hboth
  rw [Bool.and_eq_true, beq_iff_eq] at hboth
  exact hnew (hboth.2 ▸ hknown e he)

theorem spends_append (hash : String) (log events : List LinkEvent) :
    spends hash (log ++ events) = spends hash log + spends hash events := List.countP_append

theorem joins_append (hash : String) (log events : List LinkEvent) :
    joins hash (log ++ events) = joins hash log + joins hash events := List.countP_append

theorem withinBudget_mints (h : WithinBudget rows log) (i : Invite) (hcount : i.useCount = 0)
    (hlive : i.revokedAt = none) (hnew : i.tokenHash ∉ rows.map Invite.tokenHash) :
    WithinBudget (rows ++ [i]) log := by
  have hnothing : ∀ e ∈ log, e.tokenHash ≠ i.tokenHash := fun e he heq => hnew (heq ▸ h.known e he)
  have hrows : ∀ {P : Invite → Prop}, (∀ j ∈ rows, P j) → P i → ∀ j ∈ rows ++ [i], P j := by
    intro P hall hi j hj
    rcases List.mem_append.1 hj with hj | hj
    · exact hall j hj
    · exact List.mem_singleton.1 hj ▸ hi
  refine ⟨?_, fun e he => ?_, hrows h.counted ?_, hrows h.within ?_, hrows h.timely ?_,
    hrows h.marked ?_, h.final⟩
  · rw [List.map_append, List.map_singleton]
    exact List.nodup_append'.2 ⟨h.hashes, List.nodup_singleton _, List.disjoint_singleton.2 hnew⟩
  · rw [List.map_append]
    exact List.mem_append_left _ (h.known e he)
  · rw [hcount]
    exact (count_eq_zero_of_known h.known hnew LinkEvent.isSpent).symm
  · intro n _
    rw [hcount]
    exact Nat.zero_le n
  · exact fun now he => absurd rfl (hnothing _ he)
  · rw [hlive]
    exact ⟨fun hsome => absurd hsome Bool.false_ne_true, fun he => absurd rfl (hnothing _ he)⟩

theorem withinBudget_revokes (h : WithinBudget rows log) (room : RoomId) (inviteId : String) :
    WithinBudget (revokeRows room inviteId now rows)
      (log ++ (rows.filter (Invite.revocable room inviteId)).map fun i =>
        .revoked i.tokenHash) := by
  -- What is added are revocations of links that there are.
  have hadded : ∀ e ∈ (rows.filter (Invite.revocable room inviteId)).map fun i =>
      LinkEvent.revoked i.tokenHash, ∃ i ∈ rows, i.revocable room inviteId = true ∧
        e = .revoked i.tokenHash := by
    intro e he
    rcases List.mem_map.1 he with ⟨i, hi, rfl⟩
    exact ⟨i, (List.mem_filter.1 hi).1, (List.mem_filter.1 hi).2, rfl⟩
  have hspends : ∀ hash, spends hash ((rows.filter (Invite.revocable room inviteId)).map fun i =>
      LinkEvent.revoked i.tokenHash) = 0 := by
    intro hash
    refine List.countP_eq_zero.2 fun e he => ?_
    rcases hadded e he with ⟨i, -, -, rfl⟩
    exact Bool.false_ne_true
  refine ⟨?_, ?_, ?_, ?_, ?_, ?_, ?_⟩
  · rw [hashes_revokeRows]
    exact h.hashes
  · intro e he
    rw [hashes_revokeRows]
    rcases List.mem_append.1 he with he | he
    · exact h.known e he
    · rcases hadded e he with ⟨i, hi, -, rfl⟩
      exact List.mem_map_of_mem hi
  · intro j hj
    rcases of_mem_revokeRows hj with ⟨i, hi, rfl⟩
    rw [spends_append, hspends, Nat.add_zero]
    exact h.counted i hi
  · intro j hj
    rcases of_mem_revokeRows hj with ⟨i, hi, rfl⟩
    exact h.within i hi
  · intro j hj at_ he
    rcases of_mem_revokeRows hj with ⟨i, hi, rfl⟩
    rcases List.mem_append.1 he with he | he
    · exact h.timely i hi at_ he
    · rcases hadded _ he with ⟨_, _, _, heq⟩
      cases heq
  · intro j hj
    rcases of_mem_revokeRows hj with ⟨i, hi, rfl⟩
    by_cases hrevoke : i.revocable room inviteId = true
    · refine ⟨fun _ => List.mem_append_right _ ?_, fun _ => by simp [hrevoke]⟩
      exact List.mem_map.2 ⟨i, List.mem_filter.2 ⟨hi, hrevoke⟩, rfl⟩
    · simp only [if_neg hrevoke, List.mem_append]
      rw [h.marked i hi]
      refine ⟨Or.inl, fun he => he.resolve_right fun he => ?_⟩
      rcases hadded _ he with ⟨i', hi', hrevoke', heq⟩
      have hsame : i = i' := List.inj_on_of_nodup_map h.hashes hi hi' (LinkEvent.revoked.inj heq)
      exact hrevoke (hsame ▸ hrevoke')
  · refine List.pairwise_append.2 ⟨h.final, ?_, ?_⟩
    · refine List.pairwise_map.2 (List.pairwise_of_forall fun _ _ => ?_)
      exact fun _ _ _ heq => LinkEvent.noConfusion heq
    · intro e _ e' he' hash at_ _ heq
      rcases hadded e' he' with ⟨i, _, _, hrevoked⟩
      rw [hrevoked] at heq
      cases heq

-- The update matches the row with the hash, and no other.
theorem spendable_of_any (h : WithinBudget rows log) {hash : String}
    (hspend : rows.any (Invite.spendable hash now) = true) {i : Invite} (hi : i ∈ rows) :
    i.spendable hash now = true ↔ i.tokenHash = hash := by
  rcases List.any_eq_true.1 hspend with ⟨i₀, hi₀, hspend₀⟩
  refine ⟨fun hs => (spendable_iff.1 hs).1, fun hhash => ?_⟩
  have hsame : i = i₀ := List.inj_on_of_nodup_map h.hashes hi hi₀
    (hhash.trans (spendable_iff.1 hspend₀).1.symm)
  exact hsame ▸ hspend₀

theorem withinBudget_spends (h : WithinBudget rows log) (hash : String)
    (hspend : rows.any (Invite.spendable hash now) = true) :
    WithinBudget (spendRows hash now rows) (log ++ [.spent hash now]) := by
  refine ⟨?_, ?_, ?_, ?_, ?_, ?_, ?_⟩
  · rw [hashes_spendRows]
    exact h.hashes
  · intro e he
    rw [hashes_spendRows]
    rcases List.mem_append.1 he with he | he
    · exact h.known e he
    · rw [List.mem_singleton.1 he]
      rcases List.any_eq_true.1 hspend with ⟨i, hi, hs⟩
      exact List.mem_map.2 ⟨i, hi, (spendable_iff.1 hs).1⟩
  · intro j hj
    rcases of_mem_spendRows hj with ⟨i, hi, rfl⟩
    have hcount := h.counted i hi
    rw [spends_append]
    by_cases hhash : i.tokenHash = hash
    · have hone : spends i.tokenHash [.spent hash now] = 1 := by
        simp [spends, LinkEvent.isSpent, LinkEvent.tokenHash, hhash]
      rw [if_pos ((spendable_of_any h hspend hi).2 hhash), hone, hcount]
    · have hzero : spends i.tokenHash [.spent hash now] = 0 := by
        simp [spends, LinkEvent.isSpent, LinkEvent.tokenHash, Ne.symm hhash]
      rw [if_neg fun hs => hhash ((spendable_of_any h hspend hi).1 hs), hzero, hcount]
  · intro j hj n hn
    rcases of_mem_spendRows hj with ⟨i, hi, rfl⟩
    have hle := h.within i hi n hn
    by_cases hs : i.spendable hash now = true
    · -- It was not exhausted, so there is one left.
      have hleft := (spendable_iff.1 hs).2.2.2
      have hn' : i.maxUses = some n := hn
      simp only [Invite.exhausted, hn', Option.any_some, decide_eq_false_iff_not] at hleft
      simp only [if_pos hs]
      omega
    · simp only [if_neg hs]
      exact hle
  · intro j hj at_ he
    rcases of_mem_spendRows hj with ⟨i, hi, rfl⟩
    rcases List.mem_append.1 he with he | he
    · exact h.timely i hi at_ he
    · rcases LinkEvent.spent.inj (List.mem_singleton.1 he) with ⟨hhash, rfl⟩
      exact (spendable_iff.1 ((spendable_of_any h hspend hi).2 hhash)).2.2.1
  · intro j hj
    rcases of_mem_spendRows hj with ⟨i, hi, rfl⟩
    simp only [List.mem_append]
    rw [h.marked i hi]
    refine ⟨Or.inl, fun he => he.resolve_right fun he => ?_⟩
    cases List.mem_singleton.1 he
  · refine List.pairwise_append.2 ⟨h.final, List.pairwise_singleton _ _, ?_⟩
    rintro e he e' he' hash' at_ rfl heq
    rw [List.mem_singleton.1 he'] at heq
    cases heq
    -- A link that has been revoked is not spent.
    rcases List.any_eq_true.1 hspend with ⟨i, hi, hs⟩
    have hsome := (h.marked i hi).2 ((spendable_iff.1 hs).1.symm ▸ he)
    rw [(spendable_iff.1 hs).2.1] at hsome
    cases hsome

theorem withinBudget_joins (h : WithinBudget rows log) {hash : String}
    (hknown : hash ∈ rows.map Invite.tokenHash) (who : WalletAddress) :
    WithinBudget rows (log ++ [.joined hash who]) := by
  have hold : ∀ e, (∀ w, e ≠ .joined hash w) → e ∈ log ++ [.joined hash who] → e ∈ log := by
    intro e hne he
    rcases List.mem_append.1 he with he | he
    · exact he
    · exact absurd (List.mem_singleton.1 he) (hne who)
  refine ⟨h.hashes, ?_, ?_, h.within, ?_, ?_, ?_⟩
  · intro e he
    rcases List.mem_append.1 he with he | he
    · exact h.known e he
    · rw [List.mem_singleton.1 he]
      exact hknown
  · intro i hi
    rw [spends_append]
    exact h.counted i hi
  · exact fun i hi at_ he => h.timely i hi at_ (hold _ (fun _ heq => by cases heq) he)
  · intro i hi
    rw [h.marked i hi]
    exact ⟨List.mem_append_left _, hold _ fun _ heq => by cases heq⟩
  · refine List.pairwise_append.2 ⟨h.final, List.pairwise_singleton _ _, ?_⟩
    intro e _ e' he' hash' at_ _ heq
    rw [List.mem_singleton.1 he'] at heq
    cases heq

/-- A statement keeps what is so of the links. -/
theorem withinBudget_move {new : Bool} {held held' : Option String} (h : WithinBudget rows log)
    (hheld : ∀ hash, held = some hash → hash ∈ rows.map Invite.tokenHash)
    (hmove : LinkMove now rows log new held rows' log' held') : WithinBudget rows' log' := by
  cases hmove with
  | stays held => exact h
  | mints i hcount hlive hnew => exact withinBudget_mints h i hcount hlive hnew
  | revokes room inviteId => exact withinBudget_revokes h room inviteId
  | spends hash hspend => exact withinBudget_spends h hash hspend
  | joins hash who => exact withinBudget_joins h (hheld hash rfl) who
  | wastes hash => exact h

/-! ### Who has come in -/

/-- Every use of a link that is spent has seated somebody, or its request is about to. -/
def Balances (rows : List Invite) (log : List LinkEvent) (pend : String → Nat) : Prop :=
  ∀ i ∈ rows, i.useCount = joins i.tokenHash log + pend i.tokenHash

/-- The uses of a link that a request holds. -/
def holds (hash : String) (held : Option String) : Nat := if held = some hash then 1 else 0

@[simp] theorem holds_none (hash : String) : holds hash none = 0 := rfl

@[simp] theorem holds_self (hash : String) : holds hash (some hash) = 1 := if_pos rfl

theorem holds_of_ne {hash hash' : String} (h : hash' ≠ hash) : holds hash (some hash') = 0 :=
  if_neg fun heq => h (Option.some.inj heq)

variable {held held' : Option String} {pend pend' : String → Nat}

/-- A statement keeps the balance, unless it is to seat somebody who is seated. -/
theorem balances_move (h : WithinBudget rows log)
    (hmove : LinkMove now rows log true held rows' log' held')
    (hpend : ∀ hash, pend' hash + holds hash held = pend hash + holds hash held')
    (hnone : ∀ hash, hash ∉ rows.map Invite.tokenHash → pend hash = 0)
    (hb : Balances rows log pend) : Balances rows' log' pend' := by
  cases hmove with
  | stays held =>
      intro i hi
      have hsame := hpend i.tokenHash
      rw [hb i hi]
      omega
  | mints i hcount hlive hnew =>
      intro j hj
      have hsame := hpend j.tokenHash
      simp only [holds_none, Nat.add_zero] at hsame
      rw [hsame]
      rcases List.mem_append.1 hj with hj | hj
      · exact hb j hj
      · rw [List.mem_singleton.1 hj, hcount, hnone _ hnew, Nat.add_zero]
        exact (count_eq_zero_of_known h.known hnew LinkEvent.isJoined).symm
  | revokes room inviteId =>
      intro j hj
      rcases of_mem_revokeRows hj with ⟨i, hi, rfl⟩
      have hsame := hpend i.tokenHash
      simp only [holds_none, Nat.add_zero] at hsame
      have hjoins : joins i.tokenHash ((rows.filter (Invite.revocable room inviteId)).map fun i =>
          LinkEvent.revoked i.tokenHash) = 0 := by
        refine List.countP_eq_zero.2 fun e he => ?_
        rcases List.mem_map.1 he with ⟨i', _, rfl⟩
        exact Bool.false_ne_true
      rw [joins_append, hjoins, Nat.add_zero, hsame]
      exact hb i hi
  | spends hash hspend =>
      intro j hj
      rcases of_mem_spendRows hj with ⟨i, hi, rfl⟩
      have hcount := hb i hi
      have hmore := hpend i.tokenHash
      have hjoins : joins i.tokenHash (log ++ [.spent hash now]) = joins i.tokenHash log :=
        joins_append _ _ _
      change i.useCount + (if i.spendable hash now then 1 else 0) =
        joins i.tokenHash (log ++ [.spent hash now]) + pend' i.tokenHash
      rw [hjoins]
      by_cases hhash : i.tokenHash = hash
      · rw [if_pos ((spendable_of_any h hspend hi).2 hhash)]
        rw [← hhash, holds_none, holds_self] at hmore
        omega
      · rw [if_neg fun hs => hhash ((spendable_of_any h hspend hi).1 hs)]
        rw [holds_none, holds_of_ne (Ne.symm hhash)] at hmore
        omega
  | joins hash who =>
      intro i hi
      have hcount := hb i hi
      have hless := hpend i.tokenHash
      rw [joins_append]
      by_cases hhash : i.tokenHash = hash
      · have hone : joins i.tokenHash [.joined hash who] = 1 := by
          simp [joins, LinkEvent.isJoined, LinkEvent.tokenHash, hhash]
        rw [← hhash, holds_none, holds_self] at hless
        omega
      · have hzero : joins i.tokenHash [.joined hash who] = 0 := by
          simp [joins, LinkEvent.isJoined, LinkEvent.tokenHash, Ne.symm hhash]
        rw [holds_none, holds_of_ne (Ne.symm hhash)] at hless
        omega

/-- Seating somebody who is seated gives a use away for nothing. -/
theorem not_balances_move (hmove : LinkMove now rows log false held rows' log' held')
    (hheld : ∀ hash, held = some hash → hash ∈ rows.map Invite.tokenHash)
    (hpend : ∀ hash, pend' hash + holds hash held = pend hash + holds hash held')
    (hb : Balances rows log pend) : ¬ Balances rows' log' pend' := by
  cases hmove with
  | wastes hash =>
      intro hb'
      rcases List.mem_map.1 (hheld hash rfl) with ⟨i, hi, hhash⟩
      have hcount := hb i hi
      have hcount' := hb' i hi
      have hless := hpend i.tokenHash
      rw [hhash, holds_none, holds_self] at hless
      rw [hhash] at hcount hcount'
      omega

-- A use that is held is that of a link there is, and links stay.
theorem known_move {new : Bool}
    (hheld : ∀ hash, held = some hash → hash ∈ rows.map Invite.tokenHash)
    (hmove : LinkMove now rows log new held rows' log' held') :
    (∀ hash, hash ∈ rows.map Invite.tokenHash → hash ∈ rows'.map Invite.tokenHash) ∧
      ∀ hash, held' = some hash → hash ∈ rows'.map Invite.tokenHash := by
  cases hmove with
  | stays held => exact ⟨fun _ h => h, hheld⟩
  | mints i hcount hlive hnew =>
      refine ⟨fun hash h => ?_, fun _ h => by cases h⟩
      rw [List.map_append]
      exact List.mem_append_left _ h
  | revokes room inviteId =>
      rw [hashes_revokeRows]
      exact ⟨fun _ h => h, fun _ h => by cases h⟩
  | spends hash hspend =>
      rw [hashes_spendRows]
      refine ⟨fun _ h => h, fun hash' heq => ?_⟩
      rcases List.any_eq_true.1 hspend with ⟨i, hi, hs⟩
      exact List.mem_map.2 ⟨i, hi, (spendable_iff.1 hs).1.trans (Option.some.inj heq)⟩
  | joins hash who => exact ⟨fun _ h => h, fun _ h => by cases h⟩
  | wastes hash => exact ⟨fun _ h => h, fun _ h => by cases h⟩

end Moves

/-! ### Runs -/

namespace Links

open PocketSkynet.Sample (alice carol team keyed)

/-- A request is followed as it should be, and the use it holds is that of a link. -/
def Carries (s : LinkState) (c : LinkProc) : Prop :=
  c.Proper ∧ ∀ hash, c.holding = some hash → hash ∈ s.rows.map Invite.tokenHash

abbrev Inv (p : Links) : Prop := p.Holds (fun s => WithinBudget s.rows s.log) Carries

theorem inv_step (p : Links) (turn : Turn LinkCall Nat) (h : p.Inv) : (p.step turn).Inv := by
  have hmove : ∀ now s c, Carries s c → LinkMove now s.rows s.log (c.newcomer s) c.holding
      (c.effect now s).rows (c.effect now s).log (c.next now s).holding :=
    fun now _ _ hc => LinkProc.move_advance now hc.1 hc.2
  refine Pool.holds_step ?_ ?_ ?_ p turn h
  · intro s call _
    refine ⟨LinkProc.proper_enter call, fun hash hheld => ?_⟩
    rw [LinkProc.holding_enter] at hheld
    cases hheld
  · intro now s c hs hc
    exact ⟨withinBudget_move hs hc.2 (hmove now s c hc),
      LinkProc.proper_next now s hc.1, (known_move hc.2 (hmove now s c hc)).2⟩
  · intro now s c d _ hc hd
    exact ⟨hd.1, fun hash hheld => (known_move hc.2 (hmove now s c hc)).1 hash (hd.2 hash hheld)⟩

theorem inv_start (s : Shared) : (start s).Inv := by
  refine Pool.holds_idle ⟨List.nodup_nil, ?_, ?_, ?_, ?_, ?_, List.Pairwise.nil⟩
  all_goals exact fun _ h => absurd h List.not_mem_nil

/-- The count of every link is that of the people it has brought in, and of the requests that
    have spent a use and are about to seat somebody. -/
def Balanced (p : Links) : Prop := Balances p.shared.rows p.shared.log p.pending

instance (p : Links) : Decidable p.Balanced :=
  inferInstanceAs (Decidable (∀ i ∈ p.shared.rows,
    i.useCount = joins i.tokenHash p.shared.log + p.pending i.tokenHash))

/-- A redemption that comes to seat its caller does not find them seated. -/
def SeatsNewcomers (p : Links) : Turn LinkCall Nat → Prop
  | .start _ => True
  | .tick i _ => ∀ c ∈ p.procs[i]?, c.newcomer p.shared = true

-- A use is held before and after a turn by those who do not move.
theorem pending_tick {p : Links} {i now : Nat} {c : LinkProc} (hc : p.procs[i]? = some c)
    (hash : String) : (p.step (.tick i now)).pending hash + holds hash c.holding =
      p.pending hash + holds hash (c.next now p.shared).holding :=
  Pool.total_tick (fun c : LinkProc => if c.holding = some hash then 1 else 0) hc

theorem pending_unknown {p : Links} (h : p.Inv) (hash : String)
    (hnew : hash ∉ p.shared.rows.map Invite.tokenHash) : p.pending hash = 0 := by
  refine (Pool.total_eq_zero _).2 fun c hc => if_neg fun hheld => ?_
  exact hnew ((h.2 c hc).2 hash hheld)

theorem balanced_step (p : Links) (turn : Turn LinkCall Nat) (h : p.Inv ∧ p.Balanced)
    (hnew : p.SeatsNewcomers turn) : (p.step turn).Inv ∧ (p.step turn).Balanced := by
  refine ⟨inv_step p turn h.1, ?_⟩
  cases turn with
  | start call =>
      intro i hi
      have hsame : (p.step (.start call)).pending i.tokenHash = p.pending i.tokenHash := by
        rw [pending, Pool.total_start, LinkProc.holding_enter]
        rfl
      change i.useCount =
        joins i.tokenHash p.shared.log + (p.step (.start call)).pending i.tokenHash
      rw [hsame]
      exact h.2 i hi
  | tick i now =>
      rcases hc : p.procs[i]? with _ | c
      · rw [step, Pool.step_tick_none hc]
        exact h.2
      have hcarries := h.1.2 c (Pool.mem_of_getElem? hc)
      have hmove := LinkProc.move_advance now hcarries.1 hcarries.2
      rw [hnew c hc] at hmove
      have hpend := @pending_tick p i now c hc
      have hshared : (p.step (.tick i now)).shared = c.effect now p.shared := by
        rw [step, Pool.step_tick hc]
        rfl
      have hb := balances_move h.1.1 hmove hpend (pending_unknown h.1) h.2
      rw [Balanced, hshared]
      exact hb

/-- The converse: a redemption that finds its caller seated breaks the balance. -/
theorem newcomers_of_balanced (p : Links) (turn : Turn LinkCall Nat) (h : p.Inv ∧ p.Balanced)
    (hnext : (p.step turn).Balanced) : p.SeatsNewcomers turn := by
  cases turn with
  | start call => exact trivial
  | tick i now =>
      intro c hc
      by_contra hold
      have hcarries := h.1.2 c (Pool.mem_of_getElem? hc)
      have hmove := LinkProc.move_advance now hcarries.1 hcarries.2
      have hseated : c.newcomer p.shared = false := by simpa using hold
      rw [hseated] at hmove
      have hpend := @pending_tick p i now c hc
      have hshared : (p.step (.tick i now)).shared = c.effect now p.shared := by
        rw [step, Pool.step_tick hc]
        rfl
      rw [Balanced, hshared] at hnext
      exact not_balances_move hmove hcarries.2 hpend h.2 hnext

theorem balanced_start (s : Shared) : (start s).Balanced :=
  fun _ h => absurd h List.not_mem_nil

namespace Sample

/-- Alice mints a link for two uses, and Carol's redemption is sent twice. -/
def twice : List (Turn LinkCall Nat) :=
  [.start (.mint ⟨alice, team, none, some 2, "invite_1", "hash"⟩)] ++
    List.replicate 3 (.tick 0 1) ++
    [.start (.request (.redeem carol "hash")), .start (.request (.redeem carol "hash"))] ++
    List.replicate 3 (.tick 1 2) ++ List.replicate 3 (.tick 2 2) ++
    List.replicate 5 (.tick 1 3) ++ List.replicate 5 (.tick 2 3)

end Sample

end Links

end PocketSkynet
