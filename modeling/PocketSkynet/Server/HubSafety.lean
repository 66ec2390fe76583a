import Mathlib.Data.List.Pairwise
import PocketSkynet.Server.HubSteps

/-!
# The Hub under Concurrency

For any number of operations on the hub that interleave step by step: when none is under way,
every live connection is listed under its wallet and under every room of its view, and the
counter is right; and the caps are never exceeded. This takes three things of the order of the
steps, none of which the code sees to.

* A bucket that is removed is still as empty as it was seen to be. Whoever has been put into it
  meanwhile is lost to the index.
* A connection that is put into the table still has its place under both caps, which were
  looked at before.
* The view of a connection is not swapped by one operation while another one is still putting
  the index in line with the swap before.

Under these, three things hold of the operations. A connection that is on its way into the
table keeps what it has been filed under, as whoever takes an entry out does so for another
number. One that has left the table does not come back. And a room of a view that is not in
the index yet is owed by the one operation that reindexes the connection.

## Main definitions

* `HubTask.Stands`: What is so when an operation has got to where it stands.
* `HubTask.Apart`: Which numbers two operations cannot share.
* `Switchboard.Orderly`: What is asked of the order of steps.
* `Switchboard.InOrder`: The caps, and the indexes and the counter at rest.

## Theorems

* `listed_tick`: What is not in the index is owed to it.
* `counted_tick`: The counter is off by what is under way.
* `hub_in_order`: The indexes, the caps and the counter.
-/

namespace PocketSkynet

namespace HubTask

/-- The number of a connection that is on its way into the table. -/
def registers : HubTask → Option Nat
  | capacity c | counting c | retiring c | filing c _ | pushing c | inserting c => some c.id
  | _ => none

/-- The number of a connection that has left the table and is taken out of the indexes. -/
def leaves : HubTask → Option Nat
  | subtracting c | viewing c | taking c _ | closing c _ _ | leaving c => some c.id
  | _ => none

/-- The number of the connection whose view the operation is swapping. -/
def reindexes : HubTask → Option Nat
  | storing _ id _ _ | withdrawing _ id _ _ _ | clearing _ id _ _ _ _ | entering _ id _ _ =>
      some id
  | _ => none

/-- The number of the connection whose view is read next, to be swapped. -/
def loads : HubTask → Option Nat
  | loading _ id _ => some id
  | _ => none

/-- The operation may take out entries of the number. -/
def Takes (c : HubTask) (n : Nat) : Prop :=
  c.leaves = some n ∨ c.reindexes = some n ∨ c.loads = some n

/-- The operation is still to enter the connection under the room. -/
def Owes (id : Nat) (room : RoomId) : HubTask → Prop
  | withdrawing _ i _ _ new | clearing _ i _ _ _ new | entering _ i _ new => i = id ∧ room ∈ new
  | _ => False

/-- A bucket is removed while it is empty, and a connection goes into the table while there is
    a place for it. -/
def Minds (s : HubTables) : HubTask → Prop
  | closing _ room _ | clearing _ _ _ room _ _ => s.byRoom.bucket room = []
  | dissolving wallet => s.byUser.bucket wallet = []
  | inserting c => (s.connsOf c.wallet).length < maxPerWallet ∧ s.conns.length < maxConnections
  | _ => True

/-- Nobody in the table has the number. -/
def Absent (s : HubTables) (id : Nat) : Prop := ∀ d ∈ s.conns, d.id ≠ id

/-- What an operation has seen to, or has seen. -/
def Done (s : HubTables) : HubTask → Prop
  | filing c left => ∀ r ∈ (s.views c.id).rooms, r ∈ left ∨ c.id ∈ s.byRoom.bucket r
  | pushing c => ∀ r ∈ (s.views c.id).rooms, c.id ∈ s.byRoom.bucket r
  | inserting c => (∀ r ∈ (s.views c.id).rooms, c.id ∈ s.byRoom.bucket r) ∧
      c.id ∈ s.byUser.bucket c.wallet
  | subtracting c | viewing c | taking c _ | closing c _ _ | leaving c => Absent s c.id
  | storing _ id _ previous => s.views id = previous
  | withdrawing view id _ gone _ | clearing view id _ _ gone _ =>
      s.views id = view ∧ ∀ r ∈ gone, r ∉ view.rooms
  | _ => True

/-- What is so when an operation has got to where it stands. -/
structure Stands (s : HubTables) (c : HubTask) : Prop where
  registers : ∀ n, c.registers = some n → n < s.nextId ∧ Absent s n
  takes : ∀ n, c.Takes n → n < s.nextId
  done : c.Done s

/-- Two operations do not register, take out or reindex the same number. -/
structure Apart (c d : HubTask) : Prop where
  registers : ∀ n, c.registers = some n → d.registers ≠ some n ∧ ¬ d.Takes n
  takes : ∀ n, c.Takes n → d.registers ≠ some n
  reindexes : ∀ n, c.reindexes = some n → d.reindexes ≠ some n

theorem apart_symm (c d : HubTask) (h : c.Apart d) : d.Apart c where
  registers n hd := ⟨fun hc => (h.registers n hc).1 hd, fun hc => h.takes n hc hd⟩
  takes n hd hc := (h.registers n hc).2 hd
  reindexes n hd hc := h.reindexes n hc hd

instance : Std.Symm Apart := ⟨apart_symm⟩

/-! ### What a step does to the maps -/

variable {s : HubTables} {c d : HubTask} {n : Nat} {r : RoomId}

theorem nextId_effect (s : HubTables) (c : HubTask) : s.nextId ≤ (effect s c).nextId := by
  cases c with
  | drawing wallet view => exact Nat.le_succ _
  | filing c left => cases left <;> exact Nat.le_refl _
  | taking c left => cases left <;> exact Nat.le_refl _
  | withdrawing view id ids gone new => cases gone <;> exact Nat.le_refl _
  | entering view id ids new => cases new <;> exact Nat.le_refl _
  | _ => exact Nat.le_refl _

/-- Who is in the table was there before, or is the one that is registered. -/
theorem conns_effect {x : LiveConn} (hx : x ∈ (effect s c).conns) :
    x ∈ s.conns ∨ ∃ h, c = inserting h ∧ x = ⟨h.id, h.wallet⟩ := by
  cases c with
  | inserting c =>
      rcases List.mem_append.1 hx with hx | hx
      · exact Or.inl (List.mem_filter.1 hx).1
      · exact Or.inr ⟨c, rfl, List.mem_singleton.1 hx⟩
  | removing id => exact Or.inl (List.mem_filter.1 hx).1
  | filing c left => cases left <;> exact Or.inl hx
  | taking c left => cases left <;> exact Or.inl hx
  | withdrawing view id ids gone new => cases gone <;> exact Or.inl hx
  | entering view id ids new => cases new <;> exact Or.inl hx
  | _ => exact Or.inl hx

theorem absent_effect (h : Absent s n) (hc : c.registers ≠ some n) : Absent (effect s c) n := by
  intro x hx hid
  rcases conns_effect hx with hx | ⟨new, rfl, rfl⟩
  · exact h x hx hid
  · exact hc (congrArg some hid)

/-- The view of a connection stays, unless it is being swapped. -/
theorem views_effect (hn : n < s.nextId) (hc : c.reindexes ≠ some n) :
    (effect s c).views n = s.views n := by
  cases c with
  | drawing wallet view => exact Function.update_of_ne (Nat.ne_of_lt hn) _ _
  | storing view id ids previous =>
      exact Function.update_of_ne (fun heq => hc (congrArg some heq.symm)) _ _
  | filing c left => cases left <;> rfl
  | taking c left => cases left <;> rfl
  | withdrawing view id ids gone new => cases gone <;> rfl
  | entering view id ids new => cases new <;> rfl
  | _ => rfl

/-- A number stays filed under a room, unless it is the one that is taken out. -/
theorem rooms_effect (hminds : c.Minds s) (hleaves : c.leaves ≠ some n)
    (hreindexes : c.reindexes ≠ some n) (h : n ∈ s.byRoom.bucket r) :
    n ∈ (effect s c).byRoom.bucket r := by
  cases c with
  | filing c left =>
      cases left with
      | nil => exact h
      | cons room left => exact Buckets.mem_file.2 (Or.inl h)
  | taking c left =>
      cases left with
      | nil => exact h
      | cons room left =>
          exact Buckets.mem_take.2 ⟨h, fun heq => hleaves (congrArg some heq.1.symm)⟩
  | closing c room left => exact (Buckets.mem_close_of_empty hminds).2 h
  | withdrawing view id ids gone new =>
      cases gone with
      | nil => exact h
      | cons room gone =>
          exact Buckets.mem_take.2 ⟨h, fun heq => hreindexes (congrArg some heq.1.symm)⟩
  | clearing view id ids room gone new => exact (Buckets.mem_close_of_empty hminds).2 h
  | entering view id ids new =>
      cases new with
      | nil => exact h
      | cons room new => exact Buckets.mem_file.2 (Or.inl h)
  | _ => exact h

/-- A number stays filed under a wallet, unless it is the one that is taken out. -/
theorem users_effect (hminds : c.Minds s) (hleaves : c.leaves ≠ some n) {w : WalletAddress}
    (h : n ∈ s.byUser.bucket w) : n ∈ (effect s c).byUser.bucket w := by
  cases c with
  | pushing c => exact Buckets.mem_push.2 (Or.inl h)
  | leaving c => exact Buckets.mem_take.2 ⟨h, fun heq => hleaves (congrArg some heq.1.symm)⟩
  | dissolving wallet => exact (Buckets.mem_close_of_empty hminds).2 h
  | filing c left => cases left <;> exact h
  | taking c left => cases left <;> exact h
  | withdrawing view id ids gone new => cases gone <;> exact h
  | entering view id ids new => cases new <;> exact h
  | _ => exact h

/-! ### Where an operation goes -/

/-- Who registers goes on with its number, which it has drawn. -/
theorem registers_next (h : (next s c).registers = some n) :
    c.registers = some n ∨ n = s.nextId ∧ n < (effect s c).nextId := by
  cases c with
  | drawing wallet view =>
      cases h
      exact Or.inr ⟨rfl, Nat.lt_succ_self _⟩
  | capacity c =>
      simp only [next] at h
      split at h
      · exact Or.inl h
      · cases h
  | counting c =>
      simp only [next] at h
      split at h
      · exact Or.inl h
      · cases h
  | filing c left => cases left <;> exact Or.inl h
  | retiring c | pushing c => exact Or.inl h
  | removing id =>
      simp only [next] at h
      split at h <;> cases h
  | taking c left =>
      cases left with
      | nil => cases h
      | cons room left =>
          simp only [next] at h
          split at h <;> cases h
  | leaving c =>
      simp only [next] at h
      split at h <;> cases h
  | finding view ids =>
      cases ids with
      | nil => cases h
      | cons id ids =>
          simp only [next] at h
          split at h <;> cases h
  | withdrawing view id ids gone new =>
      cases gone with
      | nil => cases h
      | cons room gone =>
          simp only [next] at h
          split at h <;> cases h
  | entering view id ids new => cases new <;> cases h
  | _ => cases h

/-- Who takes a connection out of the indexes has taken it out of the table. -/
theorem leaves_next (h : (next s c).leaves = some n) :
    c.leaves = some n ∨ ∃ d ∈ s.conns, d.id = n := by
  cases c with
  | removing id =>
      simp only [next] at h
      cases hfound : s.conn id with
      | none =>
          rw [hfound] at h
          cases h
      | some d =>
          rw [hfound] at h
          cases h
          exact Or.inr ⟨d, List.mem_of_find?_eq_some hfound, rfl⟩
  | subtracting c | viewing c | closing c room left => exact Or.inl h
  | taking c left =>
      cases left with
      | nil => exact Or.inl h
      | cons room left =>
          simp only [next] at h
          split at h <;> exact Or.inl h
  | capacity c | counting c | leaving c =>
      simp only [next] at h
      split at h <;> cases h
  | filing c left => cases left <;> cases h
  | finding view ids =>
      cases ids with
      | nil => cases h
      | cons id ids =>
          simp only [next] at h
          split at h <;> cases h
  | withdrawing view id ids gone new =>
      cases gone with
      | nil => cases h
      | cons room gone =>
          simp only [next] at h
          split at h <;> cases h
  | entering view id ids new => cases new <;> cases h
  | _ => cases h

/-- A view is swapped once it has been read. -/
theorem reindexes_next (h : (next s c).reindexes = some n) :
    c.reindexes = some n ∨ c.loads = some n := by
  cases c with
  | loading view id ids => exact Or.inr h
  | storing view id ids previous | clearing view id ids room gone new => exact Or.inl h
  | withdrawing view id ids gone new =>
      cases gone with
      | nil => exact Or.inl h
      | cons room gone =>
          simp only [next] at h
          split at h <;> exact Or.inl h
  | entering view id ids new =>
      cases new with
      | nil => cases h
      | cons room new => exact Or.inl h
  | capacity c | counting c | leaving c | removing id =>
      simp only [next] at h
      split at h <;> cases h
  | filing c left => cases left <;> cases h
  | taking c left =>
      cases left with
      | nil => cases h
      | cons room left =>
          simp only [next] at h
          split at h <;> cases h
  | finding view ids =>
      cases ids with
      | nil => cases h
      | cons id ids =>
          simp only [next] at h
          split at h <;> cases h
  | _ => cases h

/-- A view is read of a connection that has been found in the table. -/
theorem loads_next (h : (next s c).loads = some n) : ∃ d ∈ s.conns, d.id = n := by
  cases c with
  | finding view ids =>
      cases ids with
      | nil => cases h
      | cons id ids =>
          simp only [next] at h
          split at h
          · rename_i hfound
            cases h
            rcases Option.isSome_iff_exists.1 hfound with ⟨d, hd⟩
            exact ⟨d, List.mem_of_find?_eq_some hd, by simpa using List.find?_some hd⟩
          · cases h
  | capacity c | counting c | leaving c | removing id =>
      simp only [next] at h
      split at h <;> cases h
  | filing c left => cases left <;> cases h
  | taking c left =>
      cases left with
      | nil => cases h
      | cons room left =>
          simp only [next] at h
          split at h <;> cases h
  | withdrawing view id ids gone new =>
      cases gone with
      | nil => cases h
      | cons room gone =>
          simp only [next] at h
          split at h <;> cases h
  | entering view id ids new => cases new <;> cases h
  | _ => cases h

theorem takes_next (h : (next s c).Takes n) : c.Takes n ∨ ∃ d ∈ s.conns, d.id = n := by
  rcases h with h | h | h
  · exact (leaves_next h).imp_left Or.inl
  · exact Or.inl (Or.inr (reindexes_next h))
  · exact Or.inr (loads_next h)

/-- An operation has seen to what it has to when it goes on. -/
theorem done_next (hminds : c.Minds s) (h : c.Done s) : (next s c).Done (effect s c) := by
  cases c with
  | retiring c => exact fun r hr => Or.inl hr
  | filing c left =>
      cases left with
      | nil => exact fun r hr => (h r hr).resolve_left List.not_mem_nil
      | cons room left =>
          intro r hr
          rcases h r hr with hleft | hin
          · rcases List.mem_cons.1 hleft with rfl | hleft
            · exact Or.inr (Buckets.mem_file.2 (Or.inr ⟨rfl, rfl⟩))
            · exact Or.inl hleft
          · exact Or.inr (Buckets.mem_file.2 (Or.inl hin))
  | pushing c => exact ⟨h, Buckets.mem_push.2 (Or.inr ⟨rfl, rfl⟩)⟩
  | removing id =>
      simp only [next]
      cases hfound : s.conn id with
      | none => trivial
      | some d =>
          have hid : d.id = id := by simpa using List.find?_some hfound
          intro x hx
          rw [hid]
          exact of_decide_eq_true (List.mem_filter.1 hx).2
  | subtracting c | viewing c | closing c room left => exact h
  | taking c left =>
      cases left with
      | nil => exact h
      | cons room left =>
          simp only [next]
          split <;> exact h
  | loading view id ids => exact rfl
  | storing view id ids previous =>
      refine ⟨Function.update_self _ _ _, fun r hr => ?_⟩
      simpa using (List.mem_filter.1 hr).2
  | withdrawing view id ids gone new =>
      cases gone with
      | nil => trivial
      | cons room gone =>
          simp only [next]
          split <;> exact ⟨h.1, fun r hr => h.2 r (List.mem_cons_of_mem room hr)⟩
  | clearing view id ids room gone new => exact h
  | capacity c | counting c | leaving c =>
      simp only [next]
      split <;> trivial
  | finding view ids =>
      cases ids with
      | nil => trivial
      | cons id ids =>
          simp only [next]
          split <;> trivial
  | entering view id ids new => cases new <;> trivial
  | _ => trivial

/-- What another operation has seen to stays so. -/
theorem done_spared (hminds : c.Minds s) (hapart : c.Apart d) (hd : d.Stands s) :
    d.Done (effect s c) := by
  have hdone := hd.done
  -- Who registers keeps its view and its entries, as nobody takes its number out.
  have hviews : ∀ n, d.registers = some n → (effect s c).views n = s.views n := fun n hn =>
    views_effect (hd.registers n hn).1
      fun hc => hapart.takes n (Or.inr (Or.inl hc)) hn
  have hrooms : ∀ n, d.registers = some n → ∀ r, n ∈ s.byRoom.bucket r →
      n ∈ (effect s c).byRoom.bucket r := fun n hn r hr =>
    rooms_effect hminds (fun hc => hapart.takes n (Or.inl hc) hn)
      (fun hc => hapart.takes n (Or.inr (Or.inl hc)) hn) hr
  -- Who leaves does not come back.
  have habsent : ∀ n, d.leaves = some n → Absent s n → Absent (effect s c) n := fun n hn h =>
    absent_effect h fun hc => (hapart.registers n hc).2 (Or.inl hn)
  -- The view that is being swapped is swapped by nobody else.
  have hswap : ∀ n, d.reindexes = some n → (effect s c).views n = s.views n := fun n hn =>
    views_effect (hd.takes n (Or.inr (Or.inl hn))) fun hc => hapart.reindexes n hc hn
  cases d with
  | filing d left =>
      intro r hr
      rw [hviews d.id rfl] at hr
      exact (hdone r hr).imp_right (hrooms d.id rfl r)
  | pushing d =>
      intro r hr
      rw [hviews d.id rfl] at hr
      exact hrooms d.id rfl r (hdone r hr)
  | inserting d =>
      refine ⟨fun r hr => ?_, ?_⟩
      · rw [hviews d.id rfl] at hr
        exact hrooms d.id rfl r (hdone.1 r hr)
      · exact users_effect hminds (fun hc => hapart.takes d.id (Or.inl hc) rfl) hdone.2
  | subtracting d | viewing d | taking d left | closing d room left | leaving d =>
      exact habsent d.id rfl hdone
  | storing view id ids previous => exact (hswap id rfl).trans hdone
  | withdrawing view id ids gone new | clearing view id ids room gone new =>
      exact ⟨(hswap id rfl).trans hdone.1, hdone.2⟩
  | _ => trivial

/-- Who owes an entry is reindexing the connection. -/
theorem reindexes_of_owes (h : c.Owes n r) : c.reindexes = some n := by
  cases c with
  | withdrawing view id ids gone new | clearing view id ids room gone new
  | entering view id ids new => exact congrArg some h.1
  | _ => exact h.elim

/-- The operation that swaps a view enters it, or still owes it. -/
theorem entered_effect (hminds : c.Minds s) (hdone : c.Done s) (hc : c.reindexes = some n)
    (hr : r ∈ ((effect s c).views n).rooms)
    (h : r ∈ (s.views n).rooms → n ∈ s.byRoom.bucket r ∨ c.Owes n r) :
    n ∈ (effect s c).byRoom.bucket r ∨ (next s c).Owes n r := by
  cases c with
  | storing view id ids previous =>
      cases hc
      have hview : (effect s (storing view n ids previous)).views n = view :=
        Function.update_self _ _ _
      rw [hview] at hr
      have hprevious : s.views n = previous := hdone
      by_cases hold : r ∈ previous.rooms
      · -- It was in the view that is replaced.
        rw [hprevious] at h
        exact Or.inl ((h hold).resolve_right fun howes => howes)
      · exact Or.inr ⟨rfl, List.mem_filter.2 ⟨hr, by simpa using hold⟩⟩
  | withdrawing view id ids gone new =>
      cases hc
      have hview : s.views n = view := hdone.1
      cases gone with
      | nil => exact h hr
      | cons room gone =>
          have hin : r ∈ view.rooms := hview ▸ hr
          have hne : r ≠ room := fun heq => hdone.2 room List.mem_cons_self (heq ▸ hin)
          have howes : (next s (withdrawing view n ids (room :: gone) new)).Owes n r ↔
              (withdrawing view n ids (room :: gone) new).Owes n r := by
            simp only [next]
            split <;> exact Iff.rfl
          rw [howes]
          exact (h hr).imp_left fun hin => Buckets.mem_take.2 ⟨hin, fun heq => hne heq.2⟩
  | clearing view id ids room gone new =>
      cases hc
      exact (h hr).imp_left (Buckets.mem_close_of_empty hminds).2
  | entering view id ids new =>
      cases hc
      cases new with
      | nil => exact Or.inl ((h hr).resolve_right fun howes => List.not_mem_nil howes.2)
      | cons room new =>
          rcases h hr with hin | howes
          · exact Or.inl (Buckets.mem_file.2 (Or.inl hin))
          · rcases List.mem_cons.1 howes.2 with rfl | hnew
            · exact Or.inl (Buckets.mem_file.2 (Or.inr ⟨rfl, rfl⟩))
            · exact Or.inr ⟨rfl, hnew⟩
  | _ => cases hc

end HubTask

/-! ### The table -/

namespace HubTables

/-- The table of connections: numbers that have been drawn and are not shared, the caps, and
    every connection under its wallet. -/
structure Sound (s : HubTables) : Prop where
  nodup : (s.conns.map (·.id)).Nodup
  drawn : ∀ d ∈ s.conns, d.id < s.nextId
  listed : ∀ d ∈ s.conns, d.id ∈ s.byUser.bucket d.wallet
  perWallet : ∀ w, (s.connsOf w).length ≤ maxPerWallet
  overall : s.conns.length ≤ maxConnections

theorem sound_empty : empty.Sound where
  nodup := List.nodup_nil
  drawn _ h := absurd h List.not_mem_nil
  listed _ h := absurd h List.not_mem_nil
  perWallet _ := Nat.zero_le _
  overall := Nat.zero_le _

variable {s : HubTables} {c : HubTask}

-- A connection with a new number displaces nobody.
theorem insert_of_absent {d : LiveConn} (h : HubTask.Absent s d.id) :
    s.insert d = s.conns ++ [d] := by
  unfold insert
  rw [List.filter_eq_self.2 fun x hx => decide_eq_true (h x hx)]

-- The caps and the numbers are about the table alone.
theorem Sound.of_conns (h : s.Sound) {s' : HubTables} (hconns : s'.conns = s.conns)
    (hnext : s.nextId ≤ s'.nextId)
    (hlisted : ∀ d ∈ s.conns, d.id ∈ s'.byUser.bucket d.wallet) : s'.Sound := by
  constructor
  · rw [hconns]
    exact h.nodup
  · intro d hd
    rw [hconns] at hd
    exact Nat.lt_of_lt_of_le (h.drawn d hd) hnext
  · intro d hd
    rw [hconns] at hd
    exact hlisted d hd
  · intro w
    rw [connsOf, hconns]
    exact h.perWallet w
  · rw [hconns]
    exact h.overall

theorem sound_insert {new : ConnHandle} (h : s.Sound) (hstands : (HubTask.inserting new).Stands s)
    (hminds : (HubTask.inserting new).Minds s) :
    (HubTask.effect s (.inserting new)).Sound := by
  have habsent : HubTask.Absent s new.id := (hstands.registers new.id rfl).2
  have hinsert : s.insert ⟨new.id, new.wallet⟩ = s.conns ++ [⟨new.id, new.wallet⟩] :=
    insert_of_absent habsent
  constructor
  · change ((s.insert ⟨new.id, new.wallet⟩).map (·.id)).Nodup
    rw [hinsert, List.map_append]
    refine List.nodup_append.2 ⟨h.nodup, List.nodup_singleton _, fun a ha b hb heq => ?_⟩
    rcases List.mem_map.1 ha with ⟨d, hd, rfl⟩
    exact habsent d hd (heq.trans (List.mem_singleton.1 hb))
  · intro d hd
    change d ∈ s.insert ⟨new.id, new.wallet⟩ at hd
    rw [hinsert] at hd
    rcases List.mem_append.1 hd with hd | hd
    · exact h.drawn d hd
    · rw [List.mem_singleton.1 hd]
      exact (hstands.registers new.id rfl).1
  · intro d hd
    change d ∈ s.insert ⟨new.id, new.wallet⟩ at hd
    rw [hinsert] at hd
    rcases List.mem_append.1 hd with hd | hd
    · exact h.listed d hd
    · rw [List.mem_singleton.1 hd]
      exact hstands.done.2
  · intro w
    change ((s.insert ⟨new.id, new.wallet⟩).filter fun c => c.wallet = w).length ≤ maxPerWallet
    rw [hinsert, List.filter_append, List.length_append]
    by_cases hw : new.wallet = w
    · subst hw
      rw [List.filter_cons_of_pos (by simp)]
      exact hminds.1
    · rw [List.filter_cons_of_neg (by simpa using hw)]
      exact h.perWallet w
  · change (s.insert ⟨new.id, new.wallet⟩).length ≤ maxConnections
    rw [hinsert, List.length_append]
    exact hminds.2

theorem sound_remove (h : s.Sound) (id : Nat) :
    (HubTask.effect s (.removing id)).Sound := by
  constructor
  · exact h.nodup.sublist ((List.filter_sublist).map _)
  · exact fun d hd => h.drawn d (List.mem_filter.1 hd).1
  · exact fun d hd => h.listed d (List.mem_filter.1 hd).1
  · intro w
    exact Nat.le_trans ((List.filter_sublist).filter _).length_le
      (h.perWallet w)
  · exact Nat.le_trans (List.length_filter_le _ _) h.overall

/-- Every step keeps the table sound that minds. -/
theorem sound_effect (h : s.Sound) (hstands : c.Stands s) (hminds : c.Minds s) :
    (c.effect s).Sound := by
  -- Who is taken out from under its wallet has left the table.
  have hlisted : ∀ d ∈ s.conns, d.id ∈ (c.effect s).byUser.bucket d.wallet := by
    intro d hd
    refine HubTask.users_effect hminds (fun hc => ?_) (h.listed d hd)
    have habsent := hstands.done
    cases c with
    | subtracting x | viewing x | taking x left | closing x room left | leaving x =>
        exact habsent d hd (Option.some.inj hc).symm
    | _ => cases hc
  cases c with
  | inserting new => exact sound_insert h hstands hminds
  | removing id => exact sound_remove h id
  | filing c left => cases left <;> exact h.of_conns rfl (Nat.le_refl _) hlisted
  | taking c left => cases left <;> exact h.of_conns rfl (Nat.le_refl _) hlisted
  | withdrawing view id ids gone new =>
      cases gone <;> exact h.of_conns rfl (Nat.le_refl _) hlisted
  | entering view id ids new => cases new <;> exact h.of_conns rfl (Nat.le_refl _) hlisted
  | drawing wallet view => exact h.of_conns rfl (Nat.le_succ _) hlisted
  | _ => exact h.of_conns rfl (Nat.le_refl _) hlisted

end HubTables

/-! ### Everyone together -/

namespace HubTask

variable {s : HubTables} {c d : HubTask} {n : Nat}

-- Who is taken out of the indexes has left the table.
theorem leaves_ne {x : LiveConn} (h : c.Done s) (hx : x ∈ s.conns) : c.leaves ≠ some x.id := by
  intro hc
  cases c with
  | subtracting y | viewing y | taking y left | closing y room left | leaving y =>
      exact h x hx (Option.some.inj hc).symm
  | _ => cases hc

-- Who is on its way into the table is not in it yet.
theorem absent_next (hn : (next s c).registers = some n) (h : Absent s n) :
    Absent (effect s c) n := by
  intro x hx
  rcases conns_effect hx with hx | ⟨new, rfl, rfl⟩
  · exact h x hx
  · cases hn

/-- An operation that moves. -/
theorem stands_next (hs : s.Sound) (hminds : c.Minds s) (h : c.Stands s) :
    (next s c).Stands (effect s c) where
  registers n hn := by
    rcases registers_next hn with hc | ⟨rfl, hlt⟩
    · exact ⟨Nat.lt_of_lt_of_le (h.registers n hc).1 (nextId_effect s c),
        absent_next hn (h.registers n hc).2⟩
    · exact ⟨hlt, absent_next hn fun x hx => Nat.ne_of_lt (hs.drawn x hx)⟩
  takes n hn := by
    refine Nat.lt_of_lt_of_le ?_ (nextId_effect s c)
    rcases takes_next hn with hc | ⟨x, hx, rfl⟩
    · exact h.takes n hc
    · exact hs.drawn x hx
  done := done_next hminds h.done

/-- The others, when an operation moves. -/
theorem stands_other (hminds : c.Minds s) (hapart : c.Apart d) (hd : d.Stands s) :
    d.Stands (effect s c) where
  registers n hn := by
    refine ⟨Nat.lt_of_lt_of_le (hd.registers n hn).1 (nextId_effect s c), ?_⟩
    exact absent_effect (hd.registers n hn).2 fun hc => (hapart.registers n hc).1 hn
  takes n hn := Nat.lt_of_lt_of_le (hd.takes n hn) (nextId_effect s c)
  done := done_spared hminds hapart hd

/-- Operations stay apart, as a number that is drawn is new, and a connection that is found in
    the table is not on its way into it. -/
theorem apart_next (hapart : c.Apart d) (hd : d.Stands s)
    (hloads : c.loads = none ∨ d.reindexes ≠ c.loads) : (next s c).Apart d where
  registers n hn := by
    rcases registers_next hn with hc | ⟨rfl, -⟩
    · exact hapart.registers n hc
    · exact ⟨fun hreg => Nat.lt_irrefl _ (hd.registers _ hreg).1,
        fun htakes => Nat.lt_irrefl _ (hd.takes _ htakes)⟩
  takes n hn := by
    rcases takes_next hn with hc | ⟨x, hx, rfl⟩
    · exact hapart.takes n hc
    · exact fun hreg => (hd.registers x.id hreg).2 x hx rfl
  reindexes n hn := by
    rcases reindexes_next hn with hc | hc
    · exact hapart.reindexes n hc
    · rw [hc] at hloads
      exact hloads.resolve_left fun hnone => by cases hnone

/-- The operation has put a connection into the table and not counted it yet. -/
def adds : HubTask → Nat
  | adding => 1
  | _ => 0

/-- The operation has taken a connection out of the table and still counts it. -/
def subtracts : HubTask → Nat
  | subtracting _ => 1
  | _ => 0

/-- Whoever is taken out of the table leaves it with one less. -/
theorem length_removing (s : HubTables) (id : Nat) :
    (effect s (removing id)).conns.length + (s.conns.map (·.id)).count id = s.conns.length := by
  have hcount : (s.conns.map (·.id)).count id = (s.conns.filter fun c => c.id = id).length := by
    rw [List.count, List.countP_map, List.countP_eq_length_filter]
    rfl
  have hall := List.length_eq_length_filter_add (l := s.conns) fun c => decide (c.id = id)
  have hrest : (effect s (removing id)).conns = s.conns.filter fun c => !decide (c.id = id) :=
    List.filter_congr fun c _ => by simp
  rw [hcount, hrest]
  omega

/-- Nobody counts who does not change the table, and nobody is about to. -/
theorem quiet_next (hins : ∀ new, c ≠ inserting new) (hrem : ∀ id, c ≠ removing id) :
    (effect s c).conns = s.conns ∧ (next s c).adds = 0 ∧ (next s c).subtracts = 0 := by
  cases c with
  | inserting new => exact absurd rfl (hins new)
  | removing id => exact absurd rfl (hrem id)
  | capacity c | counting c | leaving c =>
      refine ⟨rfl, ?_⟩
      simp only [next]
      split <;> exact ⟨rfl, rfl⟩
  | filing c left => cases left <;> exact ⟨rfl, rfl, rfl⟩
  | taking c left =>
      cases left with
      | nil => exact ⟨rfl, rfl, rfl⟩
      | cons room left =>
          refine ⟨rfl, ?_⟩
          simp only [next]
          split <;> exact ⟨rfl, rfl⟩
  | finding view ids =>
      cases ids with
      | nil => exact ⟨rfl, rfl, rfl⟩
      | cons id ids =>
          refine ⟨rfl, ?_⟩
          simp only [next]
          split <;> exact ⟨rfl, rfl⟩
  | withdrawing view id ids gone new =>
      cases gone with
      | nil => exact ⟨rfl, rfl, rfl⟩
      | cons room gone =>
          refine ⟨rfl, ?_⟩
          simp only [next]
          split <;> exact ⟨rfl, rfl⟩
  | entering view id ids new => cases new <;> exact ⟨rfl, rfl, rfl⟩
  | _ => exact ⟨rfl, rfl, rfl⟩

/-- The counter is moved by those who are about to, and by nobody else. -/
theorem total_effect (s : HubTables) (c : HubTask) :
    ((effect s c).total + c.subtracts) % 2 ^ 64 = (s.total + c.adds) % 2 ^ 64 := by
  cases c with
  | adding =>
      simp only [effect, adds, subtracts, raised]
      omega
  | subtracting c =>
      cases htotal : s.total with
      | zero =>
          simp only [effect, adds, subtracts, htotal, lowered]
          omega
      | succ n => simp only [effect, adds, subtracts, htotal, lowered]
  | filing c left => cases left <;> rfl
  | taking c left => cases left <;> rfl
  | withdrawing view id ids gone new => cases gone <;> rfl
  | entering view id ids new => cases new <;> rfl
  | _ => rfl

/-- Who changes the table is about to count it. -/
theorem length_effect (hs : s.Sound) (h : c.Stands s) :
    (effect s c).conns.length + (next s c).subtracts = s.conns.length + (next s c).adds := by
  by_cases hins : ∃ new, c = inserting new
  · rcases hins with ⟨new, rfl⟩
    have hinsert : (effect s (inserting new)).conns = s.conns ++ [⟨new.id, new.wallet⟩] :=
      HubTables.insert_of_absent (h.registers new.id rfl).2
    rw [hinsert, List.length_append]
    rfl
  by_cases hrem : ∃ id, c = removing id
  · rcases hrem with ⟨id, rfl⟩
    have hlength := length_removing s id
    cases hfound : s.conn id with
    | none =>
        have hover : next s (removing id) = ended (.ok ()) := by simp only [next, hfound]
        have hzero : (s.conns.map (·.id)).count id = 0 := by
          refine List.count_eq_zero.2 fun hmem => ?_
          rcases List.mem_map.1 hmem with ⟨d, hd, hid⟩
          exact List.find?_eq_none.1 hfound d hd (decide_eq_true hid)
        rw [hover]
        rw [hzero] at hlength
        exact hlength
    | some d =>
        have hnext : next s (removing id) = subtracting d := by simp only [next, hfound]
        have hone : (s.conns.map (·.id)).count id = 1 := by
          refine List.count_eq_one_of_mem hs.nodup (List.mem_map.2 ⟨d, ?_, ?_⟩)
          · exact List.mem_of_find?_eq_some hfound
          · simpa using List.find?_some hfound
        rw [hnext]
        rw [hone] at hlength
        exact hlength
  · have hquiet := quiet_next (s := s) (not_exists.1 hins) (not_exists.1 hrem)
    rw [hquiet.1, hquiet.2.1, hquiet.2.2]

/-- The counter stays within its bits. -/
theorem bounded_effect (h : s.total < 2 ^ 64) : (effect s c).total < 2 ^ 64 := by
  cases c with
  | adding => exact Nat.mod_lt _ (by decide)
  | subtracting c =>
      cases htotal : s.total with
      | zero =>
          simp only [effect, htotal, lowered]
          omega
      | succ n =>
          simp only [effect, htotal, lowered]
          omega
  | filing c left => cases left <;> exact h
  | taking c left => cases left <;> exact h
  | withdrawing view id ids gone new => cases gone <;> exact h
  | entering view id ids new => cases new <;> exact h
  | _ => exact h

/-- The operation has come to its end. -/
def Over : HubTask → Prop
  | ended _ => True
  | _ => False

instance (s : HubTables) : DecidablePred (Minds s)
  | closing _ room _ | clearing _ _ _ room _ _ =>
      inferInstanceAs (Decidable (s.byRoom.bucket room = []))
  | dissolving wallet => inferInstanceAs (Decidable (s.byUser.bucket wallet = []))
  | inserting c => inferInstanceAs (Decidable ((s.connsOf c.wallet).length < maxPerWallet ∧
      s.conns.length < maxConnections))
  | ended _ | drawing _ _ | capacity _ | counting _ | retiring _ | filing _ _ | pushing _ | adding
  | removing _ | subtracting _ | viewing _ | taking _ _ | leaving _ | listing _ _ | finding _ _
  | loading _ _ _ | storing _ _ _ _ | withdrawing _ _ _ _ _ | entering _ _ _ _ =>
      inferInstanceAs (Decidable True)

instance : DecidablePred Over
  | ended _ => inferInstanceAs (Decidable True)
  | drawing _ _ | capacity _ | counting _ | retiring _ | filing _ _ | pushing _ | inserting _
  | adding | removing _ | subtracting _ | viewing _ | taking _ _ | closing _ _ _ | leaving _
  | dissolving _ | listing _ _ | finding _ _ | loading _ _ _ | storing _ _ _ _
  | withdrawing _ _ _ _ _ | clearing _ _ _ _ _ _ | entering _ _ _ _ =>
      inferInstanceAs (Decidable False)

end HubTask

namespace Switchboard

/-- What is asked of the order of steps. -/
def Orderly (p : Switchboard) : Turn HubOp Unit → Prop
  | .start _ => True
  | .tick i _ => ∀ c ∈ p.procs[i]?, c.Minds p.shared ∧
      (c.loads = none ∨ ∀ d ∈ p.procs, d.reindexes ≠ c.loads)

/-- No operation is under way. -/
def Resting (p : Switchboard) : Prop := ∀ c ∈ p.procs, c.Over

instance (p : Switchboard) : DecidablePred p.Orderly
  | .start _ => inferInstanceAs (Decidable True)
  | .tick i _ => inferInstanceAs (Decidable (∀ c ∈ p.procs[i]?, c.Minds p.shared ∧
      (c.loads = none ∨ ∀ d ∈ p.procs, d.reindexes ≠ c.loads)))

instance (p : Switchboard) : Decidable p.Resting :=
  inferInstanceAs (Decidable (∀ c ∈ p.procs, c.Over))

/-- The caps, and the indexes and the counter when no operation is under way. -/
structure InOrder (p : Switchboard) : Prop where
  perWallet : ∀ w, (p.shared.connsOf w).length ≤ maxPerWallet
  overall : p.shared.conns.length ≤ maxConnections
  byUser : p.Resting → ∀ d ∈ p.shared.conns, d.id ∈ p.shared.byUser.bucket d.wallet
  byRoom : p.Resting → ∀ d ∈ p.shared.conns, ∀ r ∈ (p.shared.views d.id).rooms,
    d.id ∈ p.shared.byRoom.bucket r
  total : p.Resting → p.shared.total = p.shared.conns.length

/-- The operations, each where it stands and apart from the others. -/
abbrev Coheres (p : Switchboard) : Prop :=
  Pool.Coheres HubTables.Sound (fun s c => HubTask.Stands s c) HubTask.Apart p

/-- A room of a view is in the index, or it is owed to it. -/
def Listed (p : Switchboard) : Prop :=
  ∀ d ∈ p.shared.conns, ∀ r ∈ (p.shared.views d.id).rooms,
    d.id ∈ p.shared.byRoom.bucket r ∨ ∃ c ∈ p.procs, c.Owes d.id r

/-- The counter, with those who are about to change it. -/
def Counted (p : Switchboard) : Prop :=
  (p.shared.total + Pool.total HubTask.adds p) % 2 ^ 64 =
    (p.shared.conns.length + Pool.total HubTask.subtracts p) % 2 ^ 64

/-- What every turn keeps. -/
structure Inv (p : Switchboard) : Prop where
  coheres : p.Coheres
  listed : p.Listed
  counted : p.Counted
  bounded : p.shared.total < 2 ^ 64

variable {p : Switchboard} {i : Nat} {c : HubTask}

theorem coheres_start (h : p.Coheres) (op : HubOp) : (p.step (.start op)).Coheres := by
  have hfresh : ∀ n, (HubTask.enter op).registers ≠ some n ∧ ¬ (HubTask.enter op).Takes n ∧
      (HubTask.enter op).reindexes ≠ some n := by
    intro n
    cases op with
    | register wallet view | unregister id | setUserView wallet view =>
        refine ⟨Option.some_ne_none n ∘ Eq.symm, ?_, Option.some_ne_none n ∘ Eq.symm⟩
        rintro (h | h | h) <;> cases h
  have hdone : (HubTask.enter op).Done p.shared := by
    cases op with
    | register wallet view | unregister id | setUserView wallet view => trivial
  refine h.start ⟨fun n hn => absurd hn (hfresh n).1, fun n hn => absurd hn (hfresh n).2.1,
    hdone⟩ fun d _ => ⟨fun n _ => ⟨(hfresh n).1, (hfresh n).2.1⟩, fun n _ => (hfresh n).1,
    fun n _ => (hfresh n).2.2⟩

theorem coheres_tick (h : p.Coheres) (hc : p.procs[i]? = some c) (hminds : c.Minds p.shared)
    (hloads : c.loads = none ∨ ∀ d ∈ p.procs, d.reindexes ≠ c.loads) :
    (p.step (.tick i ())).Coheres := by
  have hstands : c.Stands p.shared := h.each c (Pool.mem_of_getElem? hc)
  refine h.tick HubTask.apart_symm hc (HubTables.sound_effect h.shared hstands hminds)
    (HubTask.stands_next h.shared hminds hstands) fun d hd hapart => ⟨?_, ?_⟩
  · exact HubTask.stands_other hminds hapart (h.each d hd)
  · exact HubTask.apart_next hapart (h.each d hd) (hloads.imp_right fun h => h d hd)

/-- What is not in the index is owed to it, whoever moves. -/
theorem listed_tick (h : p.Inv) (hc : p.procs[i]? = some c) (hminds : c.Minds p.shared) :
    (p.step (.tick i ())).Listed := by
  have hmem : c ∈ p.procs := Pool.mem_of_getElem? hc
  have hstands : c.Stands p.shared := h.coheres.each c hmem
  rw [Switchboard.step, Pool.step_tick hc]
  intro d hd r hr
  change d ∈ (c.effect p.shared).conns at hd
  change r ∈ ((c.effect p.shared).views d.id).rooms at hr
  change d.id ∈ (c.effect p.shared).byRoom.bucket r ∨
    ∃ e ∈ p.procs.set i (c.next p.shared), e.Owes d.id r
  rcases HubTask.conns_effect hd with hd | ⟨new, rfl, rfl⟩
  · by_cases hmoves : c.reindexes = some d.id
    · -- Whoever else owed an entry would be reindexing the same connection.
      have hown : r ∈ (p.shared.views d.id).rooms →
          d.id ∈ p.shared.byRoom.bucket r ∨ c.Owes d.id r := by
        intro hold
        rcases h.listed d hd r hold with hin | ⟨e, he, howes⟩
        · exact Or.inl hin
        · by_cases heq : c = e
          · exact Or.inr (heq ▸ howes)
          · have hapart : c.Apart e :=
              h.coheres.apart.forall hmem he heq
            exact absurd (HubTask.reindexes_of_owes howes) (hapart.reindexes d.id hmoves)
      rcases HubTask.entered_effect hminds hstands.done hmoves hr hown with hin | howes
      · exact Or.inl hin
      · exact Or.inr ⟨_, List.mem_set (List.getElem?_eq_some_iff.1 hc).1 _, howes⟩
    · -- The view is left alone, and so are the entries of a connection in the table.
      rw [HubTask.views_effect (h.coheres.shared.drawn d hd) hmoves] at hr
      have hleaves : c.leaves ≠ some d.id := HubTask.leaves_ne hstands.done hd
      refine (h.listed d hd r hr).imp (HubTask.rooms_effect hminds hleaves hmoves) fun howed => ?_
      exact Pool.exists_mem_set hc
        (fun howes => absurd (HubTask.reindexes_of_owes howes) hmoves) (fun _ howes => howes)
        howed
  · -- It has entered its rooms before it is put into the table.
    exact Or.inl (hstands.done.1 r hr)

theorem counted_tick (h : p.Inv) (hc : p.procs[i]? = some c) :
    (p.step (.tick i ())).Counted := by
  have hstands : c.Stands p.shared := h.coheres.each c (Pool.mem_of_getElem? hc)
  have hadds : Pool.total HubTask.adds (p.step (.tick i ())) + c.adds =
      Pool.total HubTask.adds p + (c.next p.shared).adds := Pool.total_tick _ hc
  have hsubtracts : Pool.total HubTask.subtracts (p.step (.tick i ())) + c.subtracts =
      Pool.total HubTask.subtracts p + (c.next p.shared).subtracts := Pool.total_tick _ hc
  have htotal := HubTask.total_effect p.shared c
  have hlength := HubTask.length_effect h.coheres.shared hstands
  have hcounted := h.counted
  have hshared : (p.step (.tick i ())).shared = c.effect p.shared := by
    rw [Switchboard.step, Pool.step_tick hc]
    rfl
  unfold Counted at hcounted ⊢
  rw [hshared]
  omega

theorem inv_step (h : p.Inv) (turn : Turn HubOp Unit) (horderly : p.Orderly turn) :
    (p.step turn).Inv := by
  cases turn with
  | start op =>
      refine ⟨coheres_start h.coheres op, fun d hd r hr => ?_, ?_, h.bounded⟩
      · refine (h.listed d hd r hr).imp_right ?_
        rintro ⟨c, hc, howes⟩
        exact ⟨c, List.mem_append_left _ hc, howes⟩
      · have hadds : Pool.total HubTask.adds (p.step (.start op)) =
            Pool.total HubTask.adds p + (HubTask.enter op).adds := Pool.total_start _ _ _
        have hsubtracts : Pool.total HubTask.subtracts (p.step (.start op)) =
            Pool.total HubTask.subtracts p + (HubTask.enter op).subtracts :=
          Pool.total_start _ _ _
        have hzero : (HubTask.enter op).adds = 0 ∧ (HubTask.enter op).subtracts = 0 := by
          cases op with
          | register wallet view | unregister id | setUserView wallet view =>
              exact ⟨rfl, rfl⟩
        rw [Counted, hadds, hsubtracts, hzero.1, hzero.2]
        exact h.counted
  | tick i x =>
      cases hc : p.procs[i]? with
      | none =>
          rw [Switchboard.step, Pool.step_tick_none hc]
          exact h
      | some c =>
          rcases horderly c hc with ⟨hminds, hloads⟩
          refine ⟨coheres_tick h.coheres hc hminds hloads, listed_tick h hc hminds,
            counted_tick h hc, ?_⟩
          rw [Switchboard.step, Pool.step_tick hc]
          exact HubTask.bounded_effect h.bounded

theorem inv_idle : Inv (Pool.idle HubTables.empty) where
  coheres := Pool.coheres_idle HubTables.sound_empty
  listed _ hd := absurd hd List.not_mem_nil
  counted := rfl
  bounded := by decide

/-- What the invariant says when nobody owes anything. -/
theorem inOrder_of_inv (h : p.Inv) : p.InOrder where
  perWallet := h.coheres.shared.perWallet
  overall := h.coheres.shared.overall
  byUser _ := h.coheres.shared.listed
  byRoom hrest d hd r hr := by
    rcases h.listed d hd r hr with hin | ⟨c, hc, howes⟩
    · exact hin
    · have hover : c.Over := hrest c hc
      cases c with
      | ended answer => exact howes.elim
      | _ => exact hover.elim
  total hrest := by
    have hadds : Pool.total HubTask.adds p = 0 := by
      refine (Pool.total_eq_zero _).2 fun c hc => ?_
      have hover : c.Over := hrest c hc
      cases c with
      | adding => exact hover.elim
      | _ => rfl
    have hsubtracts : Pool.total HubTask.subtracts p = 0 := by
      refine (Pool.total_eq_zero _).2 fun c hc => ?_
      have hover : c.Over := hrest c hc
      cases c with
      | subtracting c => exact hover.elim
      | _ => rfl
    have hcounted := h.counted
    have hfew : p.shared.conns.length ≤ 5000 := h.coheres.shared.overall
    have hbounded := h.bounded
    rw [Counted, hadds, hsubtracts] at hcounted
    omega

namespace Sample

def ada : WalletAddress := ⟨"0x000000000000000000000000000000000000ada0", by decide⟩

def lobby : RoomId := ⟨"room_1"⟩

def yard : RoomId := ⟨"room_2"⟩

/-- The steps of one operation after another. -/
def ticks (i n : Nat) : List (Turn HubOp Unit) := List.replicate n (.tick i ())

/-- Two registrations cross, a view is swapped, and the first connection leaves. -/
def crossing : List (Turn HubOp Unit) :=
  .start (.register ada ⟨[lobby], []⟩) :: .start (.register ada ⟨[lobby], []⟩) ::
    ticks 0 4 ++ ticks 1 9 ++ ticks 0 5 ++
    .start (.setUserView ada ⟨[yard], []⟩) :: ticks 2 17 ++
    .start (.unregister 0) :: ticks 3 6

/-- While the wallet's bucket is still to be removed, the wallet connects again. -/
def parting : List (Turn HubOp Unit) :=
  .start (.register ada ⟨[], []⟩) :: ticks 0 8 ++ .start (.unregister 0) :: ticks 1 5 ++
    .start (.register ada ⟨[], []⟩) :: ticks 2 8 ++ ticks 1 1

/-- One view is swapped in while another one is, which then takes its room out of the index. -/
def swapping : List (Turn HubOp Unit) :=
  .start (.register ada ⟨[lobby], []⟩) :: ticks 0 9 ++
    .start (.setUserView ada ⟨[yard], []⟩) :: ticks 1 4 ++
    .start (.setUserView ada ⟨[lobby], []⟩) :: ticks 2 9 ++ ticks 1 6

/-- Nine registrations of one wallet, and all of them count before the first one is in. -/
def crowd : List (Turn HubOp Unit) :=
  List.replicate 9 (.start (.register ada ⟨[], []⟩)) ++
    (List.range 9).flatMap (fun i => ticks i 3) ++ (List.range 9).flatMap (fun i => ticks i 5)

end Sample

end Switchboard

end PocketSkynet
