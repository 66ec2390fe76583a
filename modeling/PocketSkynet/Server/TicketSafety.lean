import Mathlib.Data.List.Induction
import PocketSkynet.Server.Sample
import PocketSkynet.Server.Tickets

/-!
# What a Ticket Is Good For

Tickets are minted and redeemed in any order, by anybody and from any address. Minting sweeps the
tickets that have expired out of the table that all wallets share, and nothing else: there is no
bound on the table beside that, so nobody can push a ticket of somebody else out.

Whether an attempt succeeds is therefore known from the history alone. `answer_iff` says when: the
ticket has been minted for this address, it has not expired, and this is the first attempt.

## Main definitions

* `TicketTurn`, `TicketTurn.step`: What is done to the table.
* `Tickets.answer`: What an attempt to redeem gets, behind a history.
* `Tickets.Open`: A ticket that has been minted and not been tried.

## Theorems

* `entry_iff`: The table has the tickets that are open, up to expired ones.
* `answer_iff`: When an attempt succeeds.
* `tickets_single_use`: The same for whole runs, and that no ticket is redeemed twice.
-/

namespace PocketSkynet

/-- What is done to the table, at a reading of the clock. A ticket that is minted gets an id that
    has just been drawn; if none can be drawn, expired tickets are swept all the same. -/
inductive TicketTurn where
  | mint (id : String) (wallet : WalletAddress) (ip : String) (now : Int)
  | mintFailed (now : Int)
  | redeem (id ip : String) (now : Int)
deriving DecidableEq

namespace TicketTurn

def now : TicketTurn → Int
  | mint _ _ _ now | mintFailed now | redeem _ _ now => now

/-- The id that is drawn. -/
def drawn : TicketTurn → Option String
  | mint id _ _ _ => some id
  | _ => none

/-- The id that is tried. -/
def tried : TicketTurn → Option String
  | redeem id _ _ => some id
  | _ => none

def step (st : TicketStore) : TicketTurn → TicketStore
  | mint id wallet ip now => st.issue id wallet ip now
  | mintFailed now => st.filter fun entry => now < entry.2.expiresAtMs
  | redeem id ip now => (st.consume id ip now).2

end TicketTurn

namespace Tickets

/-- The table behind a history. -/
def after (turns : List TicketTurn) : TicketStore := Run.run TicketTurn.step [] turns

/-- What an attempt to redeem a ticket gets behind a history. -/
def answer (turns : List TicketTurn) (id ip : String) (now : Int) : Option WalletAddress :=
  ((after turns).consume id ip now).1

/-- A ticket has been minted, and nobody has tried it since. -/
def Open (turns : List TicketTurn) (id : String) (ticket : Ticket) : Prop :=
  ∃ early late t, turns = early ++ .mint id ticket.wallet ticket.ip t :: late ∧
    ticket.expiresAtMs = t + ticketTtlMs ∧ ∀ turn ∈ late, turn.tried ≠ some id

/-- No id is drawn twice. -/
def Fresh (turns : List TicketTurn) : Prop := (turns.filterMap TicketTurn.drawn).Nodup

instance (turns : List TicketTurn) : Decidable (Fresh turns) :=
  inferInstanceAs (Decidable (List.Nodup _))

theorem after_concat (turns : List TicketTurn) (turn : TicketTurn) :
    after (turns ++ [turn]) = turn.step (after turns) := by
  rw [after, after, Run.run_append, Run.run_cons, Run.run_nil]

/-- What one more turn does to a ticket: it is minted, or it stays if nobody tries it. -/
theorem open_concat {turns : List TicketTurn} {turn : TicketTurn} {id : String} {ticket : Ticket} :
    Open (turns ++ [turn]) id ticket ↔
      (∃ t, turn = .mint id ticket.wallet ticket.ip t ∧ ticket.expiresAtMs = t + ticketTtlMs) ∨
        (Open turns id ticket ∧ turn.tried ≠ some id) := by
  constructor
  · rintro ⟨early, late, t, heq, hexpires, htried⟩
    rcases List.eq_nil_or_concat late with rfl | ⟨late, last, rfl⟩
    · exact Or.inl ⟨t, (List.append_singleton_inj.1 heq).2, hexpires⟩
    · rw [List.concat_eq_append] at heq htried
      rw [← List.cons_append, ← List.append_assoc, List.append_singleton_inj] at heq
      rcases heq with ⟨hturns, rfl⟩
      exact Or.inr ⟨⟨early, late, t, hturns, hexpires,
        fun x hx => htried x (List.mem_append_left _ hx)⟩,
        htried turn (List.mem_append_right _ List.mem_cons_self)⟩
  · rintro (⟨t, rfl, hexpires⟩ | ⟨⟨early, late, t, rfl, hexpires, htried⟩, hlast⟩)
    · exact ⟨turns, [], t, rfl, hexpires, fun x hx => absurd hx List.not_mem_nil⟩
    · refine ⟨early, late ++ [turn], t, by rw [List.append_assoc, List.cons_append], hexpires, ?_⟩
      intro x hx
      rcases List.mem_append.1 hx with hx | hx
      · exact htried x hx
      · rwa [List.mem_singleton.1 hx]

-- A ticket that is open has been drawn.
theorem drawn_of_open {turns : List TicketTurn} {id : String} {ticket : Ticket}
    (h : Open turns id ticket) : id ∈ turns.filterMap TicketTurn.drawn := by
  rcases h with ⟨early, late, t, rfl, -, -⟩
  exact List.mem_filterMap.2 ⟨.mint id ticket.wallet ticket.ip t, by simp, rfl⟩

theorem fresh_concat {turns : List TicketTurn} {turn : TicketTurn} (h : Fresh (turns ++ [turn])) :
    Fresh turns ∧ ∀ id, turn.drawn = some id → id ∉ turns.filterMap TicketTurn.drawn := by
  rw [Fresh, List.filterMap_append, List.nodup_append] at h
  refine ⟨h.1, fun id hid hmem => ?_⟩
  exact h.2.2 id hmem id (by simp [hid]) rfl

-- The ids of the table are apart.
theorem keys_nodup (turns : List TicketTurn) : ((after turns).map Prod.fst).Nodup := by
  induction turns using List.reverseRecOn with
  | nil => exact List.nodup_nil
  | append_singleton turns turn ih =>
      have hfilter : ∀ p : String × Ticket → Bool,
          (((after turns).filter p).map Prod.fst).Nodup := fun p =>
        (List.filter_sublist.map Prod.fst).nodup ih
      rw [after_concat]
      cases turn with
      | mint id wallet ip now =>
          rw [TicketTurn.step, TicketStore.issue, List.map_append, List.nodup_append]
          refine ⟨hfilter _, List.nodup_singleton id, ?_⟩
          rintro key hkey id' hid rfl
          rcases List.mem_map.1 hkey with ⟨entry, hentry, rfl⟩
          have hother := (List.mem_filter.1 hentry).2
          simp only [decide_eq_true_eq] at hother
          exact hother.2 (List.mem_singleton.1 hid)
      | mintFailed now => exact hfilter _
      | redeem id ip now =>
          rw [TicketTurn.step, TicketStore.consume]
          split
          · exact ih
          · exact hfilter _

/-- The table has the tickets that are open, up to expired ones. -/
theorem entry_iff {turns : List TicketTurn} {now : Int} {id : String} {ticket : Ticket}
    (hfresh : Fresh turns) (hclock : ∀ turn ∈ turns, turn.now ≤ now)
    (hvalid : now < ticket.expiresAtMs) :
    (id, ticket) ∈ after turns ↔ Open turns id ticket := by
  induction turns using List.reverseRecOn with
  | nil =>
      constructor
      · exact fun h => absurd h List.not_mem_nil
      · rintro ⟨early, late, t, heq, -, -⟩
        exact absurd (congrArg List.length heq) (by simp)
  | append_singleton turns turn ih =>
      rcases fresh_concat hfresh with ⟨hfresh', hdrawn⟩
      have hbefore := ih hfresh' fun x hx => hclock x (List.mem_append_left _ hx)
      have hnow : turn.now ≤ now := hclock turn (by simp)
      rw [after_concat, open_concat, ← hbefore]
      cases turn with
      | mint id' wallet ip t =>
          -- What is swept has expired, and the new id is none of those before.
          have hswept : t < ticket.expiresAtMs := Int.lt_of_le_of_lt hnow hvalid
          simp only [TicketTurn.step, TicketStore.issue, List.mem_append, List.mem_filter,
            decide_eq_true_eq, hswept, true_and, List.mem_singleton, Prod.mk.injEq,
            TicketTurn.tried, ne_eq, reduceCtorEq, not_false_eq_true, and_true,
            TicketTurn.mint.injEq]
          constructor
          · rintro (hold | ⟨rfl, rfl⟩)
            · exact Or.inr hold.1
            · exact Or.inl ⟨t, ⟨rfl, rfl, rfl, rfl⟩, rfl⟩
          · rintro (⟨t', ⟨rfl, rfl, rfl, rfl⟩, hexpires⟩ | hold)
            · refine Or.inr ⟨rfl, ?_⟩
              cases ticket
              simp only at hexpires
              rw [hexpires]
            · refine Or.inl ⟨hold, ?_⟩
              rintro rfl
              exact hdrawn id rfl (drawn_of_open (hbefore.1 hold))
      | mintFailed t =>
          have hswept : t < ticket.expiresAtMs := Int.lt_of_le_of_lt hnow hvalid
          simp [TicketTurn.step, TicketTurn.tried, hswept]
      | redeem id' ip t =>
          have hgone : (id, ticket) ∈ ((after turns).consume id' ip t).2 ↔
              (id, ticket) ∈ after turns ∧ id ≠ id' := by
            cases hlookup : (after turns).lookup id' with
            | none =>
                have habsent := List.lookup_eq_none_iff.1 hlookup
                simp only [TicketStore.consume, hlookup]
                refine (and_iff_left_of_imp fun hmem => ?_).symm
                exact (bne_iff_ne.1 (habsent _ hmem)).symm
            | some other =>
                simp only [TicketStore.consume, hlookup, List.mem_filter, decide_eq_true_eq, ne_eq]
          rw [TicketTurn.step, hgone]
          simp [TicketTurn.tried, eq_comm]

-- Where the ids are apart, an entry is the one its id finds.
theorem lookup_iff_mem {turns : List TicketTurn} {id : String} {ticket : Ticket} :
    (after turns).lookup id = some ticket ↔ (id, ticket) ∈ after turns := by
  rw [List.lookup_eq_some_iff]
  constructor
  · rintro ⟨front, rest, heq, -⟩
    rw [heq]
    exact List.mem_append_right _ List.mem_cons_self
  · intro hmem
    rcases List.append_of_mem hmem with ⟨front, rest, heq⟩
    refine ⟨front, rest, heq, fun entry hentry => bne_iff_ne.2 fun hkey => ?_⟩
    have hkeys := keys_nodup turns
    rw [heq, List.map_append, List.nodup_append] at hkeys
    exact hkeys.2.2 id (List.mem_map.2 ⟨entry, hentry, hkey.symm⟩) id (by simp) rfl

/-- When an attempt succeeds: the ticket has been minted for the address, it has not expired, and
    nobody has tried it before. -/
theorem answer_iff {turns : List TicketTurn} {now : Int} {id ip : String} {wallet : WalletAddress}
    (hfresh : Fresh turns) (hclock : ∀ turn ∈ turns, turn.now ≤ now) :
    answer turns id ip now = some wallet ↔
      ∃ expires, Open turns id ⟨wallet, expires, ip⟩ ∧ now < expires := by
  constructor
  · intro h
    unfold answer TicketStore.consume at h
    split at h
    · cases h
    · rename_i ticket hlookup
      simp only at h
      split at h
      · cases h
      · rename_i hvalid
        split at h
        · cases h
        · rename_i hip
          cases h
          have hip' : ticket.ip = ip := Decidable.of_not_not hip
          have hlt : now < ticket.expiresAtMs := Int.lt_of_not_ge hvalid
          refine ⟨ticket.expiresAtMs, ?_, hlt⟩
          rw [← hip']
          exact (entry_iff hfresh hclock hlt).1 (lookup_iff_mem.1 hlookup)
  · rintro ⟨expires, hopen, hvalid⟩
    have hmem := (entry_iff hfresh hclock hvalid).2 hopen
    have hlookup := lookup_iff_mem.2 hmem
    simp only [answer, TicketStore.consume, hlookup, if_neg (Int.not_le.2 hvalid), ne_eq,
      not_true_eq_false, if_false]

-- A ticket that was redeemed has been drawn before, so it is not minted again.
theorem answer_of_redeemed {front between : List TicketTurn} {id ip : String} {now : Int}
    (hfresh : Fresh (front ++ .redeem id ip now :: between))
    (hdrawn : id ∈ front.filterMap TicketTurn.drawn) {ticket : Ticket} :
    ¬ Open (front ++ .redeem id ip now :: between) id ticket := by
  rintro ⟨early, late, t, heq, -, htried⟩
  rw [Fresh, List.filterMap_append, List.nodup_append] at hfresh
  rcases List.append_eq_append_iff.1 heq with ⟨rest, -, hrest⟩ | ⟨rest, -, hrest⟩
  · -- It is minted behind the attempt.
    cases rest with
    | nil => cases (List.cons.inj hrest).1
    | cons turn rest =>
        rw [List.cons_append] at hrest
        have hmem : id ∈ (TicketTurn.redeem id ip now :: between).filterMap TicketTurn.drawn :=
          List.mem_filterMap.2 ⟨.mint id ticket.wallet ticket.ip t, by rw [hrest]; simp, rfl⟩
        exact hfresh.2.2 id hdrawn id hmem rfl
  · -- It is minted before it, and has been tried.
    cases rest with
    | nil => cases (List.cons.inj hrest).1
    | cons turn rest =>
        rw [List.cons_append] at hrest
        refine htried (.redeem id ip now) ?_ rfl
        rw [(List.cons.inj hrest).2]
        exact List.mem_append_right _ List.mem_cons_self

-- An attempt comes after everything before it.
theorem clock_le {front later : List TicketTurn} {id ip : String} {now : Int}
    (h : ((front ++ .redeem id ip now :: later).map TicketTurn.now).Pairwise (· ≤ ·)) :
    ∀ turn ∈ front, turn.now ≤ now := by
  intro turn hturn
  rw [List.map_append, List.pairwise_append] at h
  exact h.2.2 turn.now (List.mem_map_of_mem hturn) now List.mem_cons_self

theorem fresh_front {front later : List TicketTurn} (h : Fresh (front ++ later)) : Fresh front := by
  rw [Fresh, List.filterMap_append, List.nodup_append] at h
  exact h.1

/-- In every run an attempt succeeds exactly if the ticket has been minted for the address within
    the last half minute and nobody has tried it since, whatever else has been minted. It yields
    the wallet the ticket was minted for, and no ticket is redeemed twice. -/
theorem tickets_single_use {turns : List TicketTurn} (hfresh : Fresh turns)
    (hclock : (turns.map TicketTurn.now).Pairwise (· ≤ ·)) :
    (∀ front id ip now later, turns = front ++ .redeem id ip now :: later → ∀ wallet,
      answer front id ip now = some wallet ↔ ∃ early late t,
        front = early ++ .mint id wallet ip t :: late ∧ now < t + ticketTtlMs ∧
          ∀ turn ∈ late, turn.tried ≠ some id) ∧
    (∀ front id ip now between ip' now' later,
      turns = front ++ .redeem id ip now :: (between ++ .redeem id ip' now' :: later) →
      answer front id ip now ≠ none →
      answer (front ++ .redeem id ip now :: between) id ip' now' = none) := by
  constructor
  · rintro front id ip now later rfl wallet
    rw [answer_iff (fresh_front hfresh) (clock_le hclock)]
    constructor
    · rintro ⟨expires, ⟨early, late, t, heq, hexpires, htried⟩, hvalid⟩
      have hsum : expires = t + ticketTtlMs := hexpires
      exact ⟨early, late, t, heq, by rwa [hsum] at hvalid, htried⟩
    · rintro ⟨early, late, t, heq, hvalid, htried⟩
      exact ⟨t + ticketTtlMs, ⟨early, late, t, heq, rfl, htried⟩, hvalid⟩
  · rintro front id ip now between ip' now' later rfl hfirst
    have hsplit : front ++ .redeem id ip now :: (between ++ .redeem id ip' now' :: later) =
        (front ++ .redeem id ip now :: between) ++ .redeem id ip' now' :: later := by
      rw [List.append_assoc, List.cons_append]
    have hclock' := hclock
    have hfresh' := hfresh
    rw [hsplit] at hclock' hfresh'
    rcases Option.ne_none_iff_exists'.1 hfirst with ⟨wallet, hwallet⟩
    rcases (answer_iff (fresh_front hfresh) (clock_le hclock)).1 hwallet with ⟨_, hopen, -⟩
    cases hsecond : answer (front ++ .redeem id ip now :: between) id ip' now' with
    | none => rfl
    | some wallet' =>
        rcases (answer_iff (fresh_front hfresh') (clock_le hclock')).1 hsecond with ⟨_, hopen', -⟩
        exact absurd hopen' (answer_of_redeemed (fresh_front hfresh') (drawn_of_open hopen))

/-- A ticket is minted, tickets of somebody else are minted and tried, it is redeemed, and it is
    tried once more. -/
theorem tickets_single_use_busy :
    answer [.mint "evt_1" Sample.alice "10.0.0.1" 0, .mint "evt_2" Sample.bob "10.0.0.2" 10,
        .redeem "evt_2" "10.0.0.3" 20] "evt_1" "10.0.0.1" 29999 = some Sample.alice ∧
      answer [.mint "evt_1" Sample.alice "10.0.0.1" 0, .mint "evt_2" Sample.bob "10.0.0.2" 10,
        .redeem "evt_2" "10.0.0.3" 20, .redeem "evt_1" "10.0.0.1" 29999] "evt_1" "10.0.0.1" 29999 =
          none := by
  have hclaim := @tickets_single_use
    [.mint "evt_1" Sample.alice "10.0.0.1" 0, .mint "evt_2" Sample.bob "10.0.0.2" 10,
      .redeem "evt_2" "10.0.0.3" 20, .redeem "evt_1" "10.0.0.1" 29999,
      .redeem "evt_1" "10.0.0.1" 29999] (by decide +kernel) (by decide +kernel)
  have hfirst := (hclaim.1 [.mint "evt_1" Sample.alice "10.0.0.1" 0,
    .mint "evt_2" Sample.bob "10.0.0.2" 10, .redeem "evt_2" "10.0.0.3" 20] "evt_1" "10.0.0.1" 29999
    [.redeem "evt_1" "10.0.0.1" 29999] rfl Sample.alice).2
    ⟨[], [.mint "evt_2" Sample.bob "10.0.0.2" 10, .redeem "evt_2" "10.0.0.3" 20], 0, rfl, by decide,
      by decide +kernel⟩
  refine ⟨hfirst, ?_⟩
  exact hclaim.2 [.mint "evt_1" Sample.alice "10.0.0.1" 0, .mint "evt_2" Sample.bob "10.0.0.2" 10,
    .redeem "evt_2" "10.0.0.3" 20] "evt_1" "10.0.0.1" 29999 [] "10.0.0.1" 29999 [] rfl
    (by rw [hfirst]; exact Option.some_ne_none _)

end Tickets

end PocketSkynet
