import PocketSkynet.Client.Paging
import PocketSkynet.Client.Session
import PocketSkynet.Lib.Keyset
import PocketSkynet.Server.Display

/-!
# Paging Through the History

A client that starts with nothing pages backwards through what the history shows: it asks for the
newest rows, then for those before the smallest timestamp it has received, until a page comes back
empty. The cursor is a timestamp, in milliseconds, and a burst of messages shares one; and a
timestamp of zero is no cursor at all.

So rows are lost when a page ends in the middle of a burst, and when there is a row from the epoch
itself the paging does not end. Otherwise every row that is shown is received, once and newest
first.

## Main definitions

* `Stream.shownRows`: The rows that the history shows a viewer.
* `Stream.pageBack`: Paging until a page is empty.
* `Stream.PagesAll`: It ends, and every row has been received.
* `Stream.Undivided`: No burst is divided between two pages.

## Theorems

* `ask_iterate`: What is received with so many requests.
* `pages_all_iff`: Nothing is lost exactly if no burst is divided.
* `burst_divided`: A message that is lost.
-/

namespace PocketSkynet

namespace Stream

variable (s : Stream) (hides : WalletAddress → Bool) (replies : Bool) (limit : Nat)

/-- The rows that the history shows a viewer. -/
def shownRows : List Message := s.rows.filter (listed hides 0 0 replies)

/-- The page before the smallest timestamp received so far. -/
def olderPage (got : List Message) : List Message :=
  s.listMessages hides 0 (pagingPoint got) limit replies

/-- Paging backwards until a page is empty, if that happens within so many requests. -/
def pageBack : Nat → List Message → Option (List Message)
  | 0, _ => none
  | n + 1, got =>
      let page := s.olderPage hides replies limit got
      if page.isEmpty then some got else pageBack n (page ++ got)

/-- The paging ends, and every row that is shown has been received, once and newest first. -/
def PagesAll : Prop :=
  ∃ n got, s.pageBack hides replies limit n [] = some got ∧
    got.Perm (s.shownRows hides replies) ∧ got.reverse.Pairwise Message.newestFirst

/-- No row is from the epoch, and the rows of one timestamp fall into one page. -/
def Undivided : Prop :=
  (∀ r ∈ s.shownRows hides replies, 0 < r.messageTimestamp) ∧
    Keyset.Unsplit Message.messageTimestamp (s.shownRows hides replies) limit

instance : Decidable (s.Undivided hides replies limit) := inferInstanceAs (Decidable (_ ∧ _))

/-- The same rows in the order of the history. -/
def newest : List Message := (s.shownRows hides replies).insertionSort Message.newestFirst

variable {s hides replies limit}

-- A row that is newer has no smaller timestamp.
theorem falling_of_newestFirst {l : List Message} (h : l.Pairwise Message.newestFirst) :
    Keyset.Falling Message.messageTimestamp l := by
  refine h.imp fun {a b} hab => ?_
  unfold Message.newestFirst at hab
  omega

theorem falling_newest : Keyset.Falling Message.messageTimestamp (s.newest hides replies) :=
  falling_of_newestFirst (newestFirst_sorted _)

theorem newest_perm : (s.newest hides replies).Perm (s.shownRows hides replies) :=
  List.perm_insertionSort _ _

/-- The cursor that a timestamp stands for. Zero is none. -/
def cursorAt (before : Nat) : Option Nat := if before = 0 then none else some before

/-- A page of the history is a page by timestamp. -/
theorem listMessages_eq (before : Nat) : s.listMessages hides 0 before limit replies =
    (Keyset.page Message.messageTimestamp (s.newest hides replies) limit
      (cursorAt before)).reverse := by
  have hfilter : s.rows.filter (listed hides 0 before replies) =
      (s.shownRows hides replies).filter fun m =>
        before == 0 || decide (m.messageTimestamp < before) := by
    rw [shownRows, List.filter_filter]
    refine List.filter_congr fun m _ => ?_
    simp only [listed, beq_self_eq_true, Bool.true_or, Bool.and_true]
    cases m.shown <;> cases replies || m.parentMessageId.isNone <;>
      cases before == 0 || decide (m.messageTimestamp < before) <;>
        cases hides m.senderAddress <;> rfl
  rw [listMessages, hfilter, Keyset.insertionSort_filter, Keyset.page, cursorAt]
  refine congrArg (fun l : List Message => (l.take limit).reverse) ?_
  by_cases h : before = 0
  · rw [if_pos h, h, Keyset.past]
    exact List.filter_eq_self.2 fun m _ => rfl
  · rw [if_neg h, Keyset.past]
    refine List.filter_congr fun m _ => ?_
    rw [beq_false_of_ne h, Bool.false_or]

/-! ### Requests -/

variable (s hides replies limit) in
/-- One request more. -/
def ask (got : List Message) : List Message := s.olderPage hides replies limit got ++ got

/-- Paging that ends has made some requests, and the next page is empty. -/
theorem iterate_of_pageBack {n : Nat} {got r : List Message}
    (h : s.pageBack hides replies limit n got = some r) :
    ∃ m, (s.ask hides replies limit)^[m] got = r ∧ s.olderPage hides replies limit r = [] := by
  induction n generalizing got with
  | zero => cases h
  | succ n ih =>
      rw [pageBack] at h
      by_cases hempty : (s.olderPage hides replies limit got).isEmpty
      · simp only [hempty, if_true, Option.some.injEq] at h
        rw [← h]
        exact ⟨0, rfl, List.isEmpty_iff.1 hempty⟩
      · simp only [hempty, Bool.false_eq_true, if_false] at h
        rcases ih h with ⟨m, hm, hlast⟩
        exact ⟨m + 1, hm, hlast⟩

/-- Paging ends where the next page is empty. -/
theorem pageBack_of_iterate (m : Nat) {got : List Message}
    (h : s.olderPage hides replies limit ((s.ask hides replies limit)^[m] got) = []) :
    s.pageBack hides replies limit (m + 1) got = some ((s.ask hides replies limit)^[m] got) := by
  induction m generalizing got with
  | zero =>
      rw [Function.iterate_zero_apply] at h ⊢
      simp only [pageBack, h, List.isEmpty_nil, if_true]
  | succ m ih =>
      rw [Function.iterate_succ_apply] at h ⊢
      rw [pageBack]
      by_cases hempty : s.olderPage hides replies limit got = []
      · -- An empty page changes nothing, and all further pages are empty.
        have hfix : s.ask hides replies limit got = got := by rw [ask, hempty, List.nil_append]
        rw [hfix, Function.iterate_fixed hfix]
        simp only [hempty, List.isEmpty_nil, if_true]
      · simp only [List.isEmpty_iff, hempty, if_false]
        exact ih h

-- The smallest timestamp received is that of the row received last.
theorem cursorAt_pagingPoint {l : List Message} (hl : Keyset.Falling Message.messageTimestamp l)
    (hpos : ∀ r ∈ l, 0 < r.messageTimestamp) :
    cursorAt (pagingPoint l.reverse) = l.getLast?.map Message.messageTimestamp := by
  rcases hlast : l.getLast? with _ | z
  · rw [List.getLast?_eq_none_iff.1 hlast]
    rfl
  have hz : z ∈ l := List.mem_of_getLast? hlast
  have hmin : pagingPoint l.reverse = z.messageTimestamp := by
    refine pagingPoint_eq (List.mem_reverse.2 hz) fun r hr => ?_
    rcases List.getLast?_eq_some_iff.1 hlast with ⟨init, rfl⟩
    rcases List.mem_append.1 (List.mem_reverse.1 hr) with hr | hr
    · exact (List.pairwise_append.1 hl).2.2 r hr z (List.mem_singleton_self z)
    · rw [List.mem_singleton.1 hr]
  have hzero : z.messageTimestamp ≠ 0 := (hpos z hz).ne'
  rw [hmin, cursorAt, if_neg hzero, Option.map_some]

/-- What is received with so many requests, if no row is from the epoch. -/
theorem ask_iterate (hpos : ∀ r ∈ s.shownRows hides replies, 0 < r.messageTimestamp) (n : Nat) :
    (s.ask hides replies limit)^[n] [] =
      (Keyset.gather Message.messageTimestamp (s.newest hides replies) limit n).reverse := by
  induction n with
  | zero => rfl
  | succ n ih =>
      have hsub : (Keyset.gather Message.messageTimestamp (s.newest hides replies) limit n).Sublist
          (s.newest hides replies) := Keyset.gather_sublist falling_newest n
      have hrows : ∀ r ∈ Keyset.gather Message.messageTimestamp (s.newest hides replies) limit n,
          0 < r.messageTimestamp := fun r hr => hpos r (newest_perm.mem_iff.1 (hsub.subset hr))
      rw [Function.iterate_succ_apply', ih, Keyset.gather_succ, Keyset.fetch, List.reverse_append,
        ask, olderPage, listMessages_eq, cursorAt_pagingPoint (falling_newest.sublist hsub) hrows]

-- Where there is a row from the epoch, paging that has received it starts again from the newest.
theorem no_epoch (hlimit : 0 < limit) {got : List Message}
    (hperm : got.Perm (s.shownRows hides replies))
    (hlast : s.olderPage hides replies limit got = []) {r : Message}
    (hr : r ∈ s.shownRows hides replies) : 0 < r.messageTimestamp := by
  by_contra hzero
  have hpoint : pagingPoint got = 0 := by
    have hle := pagingPoint_le (hperm.mem_iff.2 hr)
    omega
  rw [olderPage, listMessages_eq, hpoint, cursorAt, if_pos rfl, Keyset.page, Keyset.past,
    List.reverse_eq_nil_iff, List.take_eq_nil_iff] at hlast
  rcases hlast with hlast | hlast
  · omega
  · rw [← newest_perm.mem_iff, hlast] at hr
    cases hr

end Stream

/-- Paging backwards receives every row that is shown, once and newest first, exactly if no row is
    from the epoch and no two pages share a timestamp. -/
theorem pages_all_iff (s : Stream) (hides : WalletAddress → Bool) (replies : Bool) (limit : Nat)
    (hlimit : 0 < limit) :
    s.PagesAll hides replies limit ↔ s.Undivided hides replies limit := by
  have hfalling : Keyset.Falling Message.messageTimestamp (s.newest hides replies) :=
    Stream.falling_newest
  have hunsplit := Keyset.exists_gather_iff hfalling hlimit
  rw [Keyset.unsplit_perm Stream.newest_perm] at hunsplit
  constructor
  · rintro ⟨n, got, hrun, hperm, -⟩
    rcases Stream.iterate_of_pageBack hrun with ⟨m, hm, hlast⟩
    have hpos := fun r (hr : r ∈ s.shownRows hides replies) =>
      Stream.no_epoch hlimit hperm hlast hr
    refine ⟨hpos, hunsplit.1 ⟨m, ?_⟩⟩
    -- What has been received is a part of the history that is no shorter.
    refine (Keyset.gather_sublist hfalling m).eq_of_length_le ?_
    rw [Stream.ask_iterate hpos] at hm
    rw [(Stream.newest_perm.trans hperm.symm).length_eq, ← hm, List.length_reverse]
  · rintro ⟨hpos, hties⟩
    rcases hunsplit.2 hties with ⟨n, hn⟩
    have hgot : (s.ask hides replies limit)^[n] [] = (s.newest hides replies).reverse := by
      rw [Stream.ask_iterate hpos, hn]
    refine ⟨n + 1, _, Stream.pageBack_of_iterate n ?_, ?_, ?_⟩
    · have hrows : ∀ r ∈ s.newest hides replies, 0 < r.messageTimestamp :=
        fun r hr => hpos r (Stream.newest_perm.mem_iff.1 hr)
      have hself : Keyset.fetch Message.messageTimestamp (s.newest hides replies) limit
          (s.newest hides replies) = s.newest hides replies := Keyset.fetch_self hfalling
      rw [Keyset.fetch, List.append_right_eq_self] at hself
      rw [hgot, Stream.olderPage, Stream.listMessages_eq,
        Stream.cursorAt_pagingPoint hfalling hrows, hself, List.reverse_nil]
    · rw [hgot]
      exact (List.reverse_perm _).trans Stream.newest_perm
    · rw [hgot, List.reverse_reverse]
      exact Stream.newestFirst_sorted _

namespace Sample

/-- Two messages of one millisecond, and one of the next. -/
def sentTogether : Stream :=
  Run.run Stream.apply (Stream.create 1000) [.createMessage 1000 (note "m1" alice),
    .createMessage 1000 (note "m2" bob), .createMessage 1001 (note "m3" alice)]

theorem pages_all_together :
    sentTogether.Undivided nobody false 50 ∧ sentTogether.PagesAll nobody false 50 := by
  have h : sentTogether.Undivided nobody false 50 := by decide +kernel
  exact ⟨h, (pages_all_iff sentTogether nobody false 50 (by decide)).2 h⟩

/-- Pages of two end between the messages of one millisecond, and the first is never received. -/
theorem burst_divided : ¬ ∀ (s : Stream) hides replies limit, 0 < limit →
    s.PagesAll hides replies limit := by
  intro h
  rcases h sentTogether nobody false 2 (by decide) with ⟨n, got, hrun, hperm, -⟩
  rcases Stream.iterate_of_pageBack hrun with ⟨m, hm, -⟩
  have hthree : (sentTogether.shownRows nobody false).length = 3 := by decide +kernel
  rw [← hperm.length_eq, ← hm] at hthree
  cases m with
  | zero => cases hthree
  | succ m =>
      -- The second page is empty.
      have hfix : sentTogether.ask nobody false 2 (sentTogether.ask nobody false 2 []) =
          sentTogether.ask nobody false 2 [] := by decide +kernel
      have htwo : (sentTogether.ask nobody false 2 []).length = 2 := by decide +kernel
      rw [Function.iterate_succ_apply, Function.iterate_fixed hfix, htwo] at hthree
      cases hthree

end Sample

end PocketSkynet
