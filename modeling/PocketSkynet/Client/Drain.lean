import PocketSkynet.Client.RoomState
import PocketSkynet.Server.StreamOrder

/-!
# Draining the Stream

The drain loop asks for one page after another until the server has no more.
`pending` is everything a viewer at a cursor has still to be sent, oldest
first, and every page is a prefix of it. Folding the page moves the cursor to
the last serial in it, and what is pending then is the rest. So the loop folds
`pending` from front to back, wherever the pages end, provided the requests it
is allowed suffice.

## Main definitions

* `Stream.pending`: The rows past a cursor that the viewer may see.
* `highestSerial`: The highest serial in a page.
* `drainSync`: The loop, bounded by the number of requests.

## Theorems

* `mem_take_pending`: No row is missing below the end of a page.
* `pending_drop`: After a page the rest is pending.
* `drainSync_eq`: The loop folds the pending rows in order.
-/

namespace PocketSkynet

/-- A list sorted strictly by serial is determined by its members. -/
theorem eq_of_serial_sorted {l l' : List Message}
    (hl : l.Pairwise fun a b => a.msgSerial < b.msgSerial)
    (hl' : l'.Pairwise fun a b => a.msgSerial < b.msgSerial) (h : ∀ m, m ∈ l ↔ m ∈ l') :
    l = l' := by
  have hnodup : ∀ {l : List Message}, (l.Pairwise fun a b => a.msgSerial < b.msgSerial) →
      l.Nodup := by
    intro l hs
    refine hs.imp fun hlt he => ?_
    rw [he] at hlt
    exact lt_irrefl _ hlt
  refine List.Perm.eq_of_pairwise ?_ hl hl' ((List.perm_ext_iff_of_nodup (hnodup hl)
    (hnodup hl')).2 h)
  intro a b _ _ hab hba
  exact absurd hab (lt_asymm hba)

/-- The highest serial in a page, zero if it is empty. -/
def highestSerial (page : List Message) : Nat := ((page.map Message.msgSerial).max?).getD 0

theorem le_highestSerial {page : List Message} {m : Message} (hm : m ∈ page) :
    m.msgSerial ≤ highestSerial page := by
  unfold highestSerial
  cases hmax : (page.map Message.msgSerial).max? with
  | none =>
      rw [List.max?_eq_none_iff, List.map_eq_nil_iff] at hmax
      rw [hmax] at hm
      cases hm
  | some n => exact (List.max?_eq_some_iff.1 hmax).2 _ (List.mem_map_of_mem hm)

theorem highestSerial_mem {page : List Message} (h : page ≠ []) :
    ∃ m ∈ page, m.msgSerial = highestSerial page := by
  unfold highestSerial
  cases hmax : (page.map Message.msgSerial).max? with
  | none =>
      rw [List.max?_eq_none_iff, List.map_eq_nil_iff] at hmax
      exact absurd hmax h
  | some n => exact List.mem_map.1 (List.max?_eq_some_iff.1 hmax).1

theorem highestSerial_lt {page : List Message} {n : Nat} (hn : 0 < n)
    (h : ∀ m ∈ page, m.msgSerial < n) : highestSerial page < n := by
  by_cases hnil : page = []
  · rw [hnil]
    exact hn
  · obtain ⟨m, hm, hmax⟩ := highestSerial_mem hnil
    exact hmax ▸ h m hm

@[simp] theorem highestSerial_nil : highestSerial [] = 0 := rfl

@[simp] theorem highestSerial_cons (m : Message) (page : List Message) :
    highestSerial (m :: page) = max m.msgSerial (highestSerial page) := by
  unfold highestSerial
  rw [List.map_cons, List.max?_cons]
  cases (page.map Message.msgSerial).max? <;> simp

namespace RoomState

/-- Folding a page moves the cursor to its highest serial. -/
theorem cursor_fold (st : RoomState) (es : List Message) :
    (st.fold es).cursor = max st.cursor (highestSerial es) := by
  induction es generalizing st with
  | nil => simp
  | cons e es ih => rw [fold_cons, ih, cursor_foldOne, max_assoc, highestSerial_cons]

/-- The report agrees about the highest serial. -/
theorem foldReport_maxSerial (st : RoomState) (es : List Message) :
    (st.foldReport es).2.maxSerial = highestSerial es := by
  have hgen : ∀ (out : FoldOutcome) (st : RoomState),
      (es.foldl (fun p e => (p.1.foldOne e, p.2.note p.1 e)) (st, out)).2.maxSerial =
        max out.maxSerial (highestSerial es) := by
    induction es with
    | nil => simp
    | cons e es ih =>
        intro out st
        rw [List.foldl_cons, ih, highestSerial_cons, ← max_assoc, FoldOutcome.maxSerial_note]
  rw [foldReport, hgen]
  exact Nat.zero_max _

/-- The cursor a snapshot is rebuilt with. -/
theorem cursor_fromCached (cached : CachedRoom) (persisted : Nat) :
    (fromCached cached persisted).cursor = max (highestSerial cached.rows) persisted := by
  have hrows : ∀ st : RoomState, (cached.rows.foldl restoreOne st).cursor =
      max st.cursor (highestSerial cached.rows) := by
    induction cached.rows with
    | nil => simp
    | cons m rows ih =>
        intro st
        rw [List.foldl_cons, ih, cursor_restoreOne, max_assoc, highestSerial_cons]
  unfold fromCached
  dsimp only
  rw [hrows]
  simp [empty]

theorem fold_append (st : RoomState) (es es' : List Message) :
    st.fold (es ++ es') = (st.fold es).fold es' := List.foldl_append

end RoomState

namespace Stream

/-- The rows past the cursor that the viewer may see, oldest first. -/
def pending (s : Stream) (hides : WalletAddress → Bool) (cursor : Nat) : List Message :=
  bySerial (s.rows.filter fun m => cursor < m.msgSerial && !hides m.senderAddress)

variable {s : Stream} {hides : WalletAddress → Bool} {cursor : Nat}

theorem mem_pending {m : Message} :
    m ∈ s.pending hides cursor ↔
      m ∈ s.rows ∧ cursor < m.msgSerial ∧ hides m.senderAddress = false := by
  rw [pending, mem_bySerial, List.mem_filter]
  simp

theorem pending_sorted (hs : s.WellFormed) (hides : WalletAddress → Bool) (cursor : Nat) :
    (s.pending hides cursor).Pairwise fun a b => a.msgSerial < b.msgSerial :=
  bySerial_sorted (hs.serials.sublist (List.filter_sublist.map _))

theorem length_pending_le : (s.pending hides cursor).length ≤ s.rows.length := by
  rw [pending, bySerial, List.length_insertionSort]
  exact List.length_filter_le _ _

/-- A page is a prefix of what is pending, and more is waiting if it is longer. -/
theorem syncMessages_eq :
    s.syncMessages hides cursor = ((s.pending hides cursor).take syncLimit,
      decide (syncLimit < (s.pending hides cursor).length)) := by
  rw [pending, syncMessages]
  simp only [List.take_take, List.length_take]
  congr 1
  simp

/-- Whoever is sent a page is sent every visible row up to its highest serial. -/
theorem mem_take_pending (hs : s.WellFormed) {k : Nat} {r : Message} (hr : r ∈ s.rows)
    (hvis : hides r.senderAddress = false) (hlt : cursor < r.msgSerial)
    (hle : r.msgSerial ≤ highestSerial ((s.pending hides cursor).take k)) :
    r ∈ (s.pending hides cursor).take k := by
  have hmem : r ∈ s.pending hides cursor := mem_pending.2 ⟨hr, hlt, hvis⟩
  have hsorted := pending_sorted hs hides cursor
  rw [← List.take_append_drop k (s.pending hides cursor)] at hmem hsorted
  rcases List.mem_append.1 hmem with htake | hdrop
  · exact htake
  · by_cases hnil : (s.pending hides cursor).take k = []
    · rw [hnil, highestSerial_nil] at hle
      omega
    · obtain ⟨e, he, hmax⟩ := highestSerial_mem hnil
      have hafter := (List.pairwise_append.1 hsorted).2.2 e he r hdrop
      omega

/-- The viewer who has folded the first rows is sent the rest. -/
theorem pending_drop (hs : s.WellFormed) {k : Nat} (hk : 0 < k)
    (hlen : 0 < (s.pending hides cursor).length) :
    s.pending hides (max cursor (highestSerial ((s.pending hides cursor).take k))) =
      (s.pending hides cursor).drop k := by
  have hsorted := pending_sorted hs hides cursor
  refine eq_of_serial_sorted (pending_sorted hs hides _) (hsorted.sublist (List.drop_sublist k _)) ?_
  intro m
  rw [mem_pending]
  constructor
  · rintro ⟨hm, hlt, hvis⟩
    have hmem : m ∈ s.pending hides cursor :=
      mem_pending.2 ⟨hm, lt_of_le_of_lt (le_max_left _ _) hlt, hvis⟩
    rw [← List.take_append_drop k (s.pending hides cursor)] at hmem
    rcases List.mem_append.1 hmem with htake | hdrop
    · have hle := le_highestSerial htake
      have hle' := le_max_right cursor (highestSerial ((s.pending hides cursor).take k))
      omega
    · exact hdrop
  · intro hdrop
    obtain ⟨hm, hlt, hvis⟩ := mem_pending.1 (List.mem_of_mem_drop hdrop)
    refine ⟨hm, max_lt hlt ?_, hvis⟩
    have hne : (s.pending hides cursor).take k ≠ [] := by
      intro hnil
      rw [List.take_eq_nil_iff] at hnil
      rcases hnil with hnil | hnil
      · omega
      · rw [hnil] at hlen
        exact lt_irrefl 0 hlen
    obtain ⟨e, he, hmax⟩ := highestSerial_mem hne
    rw [← hmax]
    rw [← List.take_append_drop k (s.pending hides cursor)] at hsorted
    exact (List.pairwise_append.1 hsorted).2.2 e he m hdrop

end Stream

/-- The drain loop, from `since` on, with a bound on its requests. -/
def drainSync (s : Stream) (hides : WalletAddress → Bool) :
    Nat → Nat → RoomState → RoomState
  | 0, _, st => st
  | requests + 1, since, st =>
      let (page, hasMore) := s.syncMessages hides since
      match nextSyncCursor since (highestSerial page) hasMore page.length with
      | some next => drainSync s hides requests next (st.fold page)
      | none => st.fold page

/-- **The loop folds what is pending.** The requests must suffice for the pages. -/
theorem drainSync_eq {s : Stream} {hides : WalletAddress → Bool} (hs : s.WellFormed)
    {requests since : Nat} (st : RoomState)
    (hlen : (s.pending hides since).length ≤ syncLimit * requests) :
    drainSync s hides requests since st = st.fold (s.pending hides since) := by
  induction requests generalizing since st with
  | zero =>
      have hnil : s.pending hides since = [] := List.length_eq_zero_iff.1 (by omega)
      rw [hnil, drainSync, RoomState.fold_nil]
  | succ requests ih =>
      rw [drainSync, Stream.syncMessages_eq]
      by_cases hmore : syncLimit < (s.pending hides since).length
      · -- A full page: the loop goes on behind it.
        have hpos : 0 < (s.pending hides since).length := by omega
        have hnext : nextSyncCursor since (highestSerial ((s.pending hides since).take syncLimit))
            (decide (syncLimit < (s.pending hides since).length))
            ((s.pending hides since).take syncLimit).length =
              some (max since (highestSerial ((s.pending hides since).take syncLimit))) := by
          have hfull : ((s.pending hides since).take syncLimit).length = syncLimit := by
            rw [List.length_take]
            omega
          rw [nextSyncCursor, hfull, decide_eq_true hmore, if_neg (by decide)]
        have hrest : s.pending hides
            (max since (highestSerial ((s.pending hides since).take syncLimit))) =
              (s.pending hides since).drop syncLimit :=
          Stream.pending_drop hs (by decide) hpos
        simp only [hnext]
        rw [ih, hrest, ← RoomState.fold_append, List.take_append_drop]
        rw [hrest, List.length_drop]
        rw [Nat.mul_succ] at hlen
        omega
      · -- The last page carries everything.
        have hnext : nextSyncCursor since (highestSerial ((s.pending hides since).take syncLimit))
            (decide (syncLimit < (s.pending hides since).length))
            ((s.pending hides since).take syncLimit).length = none := by
          rw [nextSyncCursor, decide_eq_false hmore, if_pos (by rfl)]
        simp only [hnext]
        rw [List.take_of_length_le (by omega)]

end PocketSkynet
