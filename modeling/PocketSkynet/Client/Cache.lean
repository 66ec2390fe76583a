import PocketSkynet.Client.Paging
import PocketSkynet.Client.Session
import PocketSkynet.Server.Sample

/-!
# The Snapshot Round Trip

A client is saved and rebuilt from its snapshot and its cursor. What it held is
then compared with what the rebuilt client can get back: both load every older
page the server has and drain the stream.

The snapshot keeps the newest rows and their reactions. Nothing is lost if the
rows it cuts come back with the older pages, and if no reaction it drops belongs
to a message that is shown again. Neither is guaranteed. Older pages have no
thread replies, no row that shares its timestamp with the last one kept, and no
reactions at all; a row that a history page brought may lift the cursor over
events that have not been folded; and the flag that says that older pages exist
is saved as it stands, whatever the snapshot cuts.

## Main definitions

* `RoomState.reopen`: Saved and rebuilt.
* `resume`: Loading the older pages, then draining.
* `RoundTrip`: Nothing reachable is lost.
* `Recoverable`: The condition on what is saved.
* `Session.Stamped`: What ids and clocks can be relied on for.

## Theorems

* `roundTrip_iff_of_dated`: The condition, for any state.
* `roundTrip_iff`: And so after any run.
* `reopened_early`: A client that loses a reaction.
-/

namespace PocketSkynet

/-! ### What a drain settles -/

/-- Some event to come bears on what is held under the id. -/
def Settled (es : List Message) (id : MessageId) : Prop := ∃ e ∈ es, e.Concerns id

/-- The event removes what is held under the id. -/
def Message.Removes (e : Message) (id : MessageId) : Prop :=
  e.kind = .deleteAll ∨ (e.kind = .delete ∧ e.id = id)

/-- Some event to come bears on the reaction. -/
def SettledReaction (es : List Message) (τ : Reaction) : Prop :=
  ∃ e ∈ es, e.kind = .deleteAll ∨ (e.kind = .delete ∧ e.id = τ.target) ∨
    (e.isReaction = true ∧ e.reaction? = some τ)

namespace RoomState

/-- Where two states agree about an id, they agree after one more event. -/
theorem held_foldOne_congr {st st' : RoomState} {id : MessageId} (h : st.held id = st'.held id)
    (e : Message) : (st.foldOne e).held id = (st'.foldOne e).held id := by
  simp only [held_foldOne, h]

theorem held_fold_congr {st st' : RoomState} {id : MessageId} (h : st.held id = st'.held id)
    (es : List Message) : (st.fold es).held id = (st'.fold es).held id := by
  induction es generalizing st st' with
  | nil => exact h
  | cons e es ih => exact ih (held_foldOne_congr h e)

/-- An event that bears on an id decides what is held, whatever was. -/
theorem held_foldOne_concerns (st st' : RoomState) {e : Message} {id : MessageId}
    (h : e.Concerns id) : (st.foldOne e).held id = (st'.foldOne e).held id := by
  simp only [held_foldOne]
  rcases h with hk | ⟨hmsg, rfl⟩
  · simp [hk]
  · unfold Message.isMessage at hmsg
    cases hk : e.kind <;> simp [hk] at hmsg ⊢

theorem held_foldOne_other (st : RoomState) {e : Message} {id : MessageId}
    (h : ¬ e.Concerns id) : (st.foldOne e).held id = st.held id := by
  rw [held_foldOne]
  unfold Message.Concerns Message.isMessage at h
  cases hk : e.kind <;> simp [hk] at h ⊢
  all_goals exact fun hid => absurd hid.symm h

/-- What a drain settles no longer depends on what was held. -/
theorem held_fold_settled (st st' : RoomState) {es : List Message} {id : MessageId}
    (h : Settled es id) : (st.fold es).held id = (st'.fold es).held id := by
  obtain ⟨e, he, hc⟩ := h
  obtain ⟨front, back, rfl⟩ := List.append_of_mem he
  rw [fold_append, fold_append, fold_cons, fold_cons]
  exact held_fold_congr (held_foldOne_concerns _ _ hc) back

/-- And what it does not settle it leaves. -/
theorem held_fold_other (st : RoomState) {es : List Message} {id : MessageId}
    (h : ¬ Settled es id) : (st.fold es).held id = st.held id := by
  induction es generalizing st with
  | nil => rfl
  | cons e es ih =>
      rw [fold_cons, ih _ fun ⟨e', he', hc⟩ => h ⟨e', List.mem_cons_of_mem e he', hc⟩]
      exact held_foldOne_other st fun hc => h ⟨e, List.mem_cons_self, hc⟩

theorem mem_reactions_fold_congr {st st' : RoomState} {τ : Reaction}
    (h : τ ∈ st.reactions ↔ τ ∈ st'.reactions) (es : List Message) :
    τ ∈ (st.fold es).reactions ↔ τ ∈ (st'.fold es).reactions := by
  induction es generalizing st st' with
  | nil => exact h
  | cons e es ih =>
      refine ih ?_
      rw [mem_reactions_foldOne, mem_reactions_foldOne]
      cases e.kind <;> simp only [h]

theorem mem_reactions_fold_settled (st st' : RoomState) {es : List Message} {τ : Reaction}
    (h : SettledReaction es τ) : τ ∈ (st.fold es).reactions ↔ τ ∈ (st'.fold es).reactions := by
  obtain ⟨e, he, hc⟩ := h
  obtain ⟨front, back, rfl⟩ := List.append_of_mem he
  rw [fold_append, fold_append, fold_cons, fold_cons]
  refine mem_reactions_fold_congr ?_ back
  rw [mem_reactions_foldOne, mem_reactions_foldOne]
  rcases hc with hk | ⟨hk, hid⟩ | ⟨hr, hτ⟩
  · simp [hk]
  · simp [hk, hid]
  · unfold Message.isReaction at hr
    cases hk : e.kind <;> simp [hk] at hr ⊢ <;> simp [hτ]

theorem mem_reactions_fold_other (st : RoomState) {es : List Message} {τ : Reaction}
    (h : ¬ SettledReaction es τ) : τ ∈ (st.fold es).reactions ↔ τ ∈ st.reactions := by
  induction es generalizing st with
  | nil => rfl
  | cons e es ih =>
      rw [fold_cons, ih _ fun ⟨e', he', hc⟩ => h ⟨e', List.mem_cons_of_mem e he', hc⟩]
      have he : ¬ (e.kind = .deleteAll ∨ (e.kind = .delete ∧ e.id = τ.target) ∨
          (e.isReaction = true ∧ e.reaction? = some τ)) := fun hc => h ⟨e, List.mem_cons_self, hc⟩
      rw [mem_reactions_foldOne]
      unfold Message.isReaction at he
      cases hk : e.kind <;> simp [hk] at he ⊢
      · exact fun _ => Ne.symm he
      · exact fun hτ => absurd hτ he
      · exact fun _ => he

theorem isSome_foldOne (st : RoomState) {e : Message} {id : MessageId} (he : ¬ e.Removes id)
    (h : (st.held id).isSome) : ((st.foldOne e).held id).isSome := by
  rw [held_foldOne]
  unfold Message.Removes at he
  cases hk : e.kind with
  | add | edit =>
      dsimp only
      split
      · rfl
      · exact h
  | delete =>
      have hne : id ≠ e.id := fun hid => he (Or.inr ⟨hk, hid.symm⟩)
      dsimp only
      rwa [if_neg hne]
  | deleteAll => exact absurd (Or.inl hk) he
  | emoticonAdd | emoticonRemove | unknown => exact h

theorem isSome_fold (st : RoomState) {es : List Message} {id : MessageId}
    (hes : ∀ e ∈ es, ¬ e.Removes id) (h : (st.held id).isSome) :
    ((st.fold es).held id).isSome := by
  induction es generalizing st with
  | nil => exact h
  | cons e es ih =>
      exact ih _ (fun x hx => hes x (List.mem_cons_of_mem e hx))
        (isSome_foldOne st (hes e List.mem_cons_self) h)

/-- Events that bear on an id and do not remove it leave something held. -/
theorem isSome_fold_settled (st : RoomState) {es : List Message} {id : MessageId}
    (hes : ∀ e ∈ es, ¬ e.Removes id) (h : Settled es id) : ((st.fold es).held id).isSome := by
  obtain ⟨e, he, hc⟩ := h
  obtain ⟨front, back, rfl⟩ := List.append_of_mem he
  rw [fold_append, fold_cons]
  refine isSome_fold _ (fun x hx => hes x (by simp [hx])) ?_
  have hno := hes e he
  unfold Message.Removes at hno
  rw [held_foldOne]
  rcases hc with hk | ⟨hmsg, rfl⟩
  · exact absurd (Or.inl hk) hno
  · unfold Message.isMessage at hmsg
    cases hk : e.kind <;> simp [hk] at hmsg hno ⊢

/-! ### Saved and rebuilt -/

/-- Saved, and rebuilt with the cursor saved beside the snapshot. -/
def reopen (st : RoomState) : RoomState := fromCached st.toCached st.cursor

/-- Restoring displayable rows with distinct ids appends them. -/
theorem messages_restore (rows : List Message) (st : RoomState)
    (hkeyed : Table.Keyed Message.id (st.messages ++ rows))
    (hshown : ∀ m ∈ rows, m.displayable = true) :
    (rows.foldl restoreOne st).messages = st.messages ++ rows := by
  induction rows generalizing st with
  | nil => simp
  | cons m rows ih =>
      have hfree : Table.lookup Message.id m.id st.messages = none := by
        rw [Table.lookup_eq_none]
        intro x hx hid
        unfold Table.Keyed at hkeyed
        rw [List.map_append, List.nodup_append] at hkeyed
        exact hkeyed.2.2 x.id (List.mem_map_of_mem hx) m.id (by simp) hid
      have hone : (st.restoreOne m).messages = st.messages ++ [m] := by
        unfold restoreOne
        simp only [hshown m List.mem_cons_self, if_true, Table.upsert, hfree]
        rfl
      rw [List.foldl_cons, ih _ ?_ fun x hx => hshown x (List.mem_cons_of_mem m hx), hone]
      · simp
      · rw [hone]
        simpa using hkeyed

theorem keyed_capRows {rows : List Message} (h : Table.Keyed Message.id rows) :
    Table.Keyed Message.id (capRows rows) := by
  unfold Table.Keyed capRows
  rw [List.map_reverse, List.nodup_reverse]
  have hperm : List.Perm ((rows.insertionSort Message.newestFirst).map Message.id)
      (rows.map Message.id) := (List.perm_insertionSort _ rows).map _
  exact (hperm.nodup_iff.2 h).sublist ((List.take_sublist _ _).map _)

variable {st : RoomState}

/-- The rebuilt client holds the rows kept. -/
theorem messages_reopen (hk : Table.Keyed Message.id st.messages)
    (hshown : ∀ m ∈ st.messages, m.displayable = true) :
    (reopen st).messages = st.toCached.rows := by
  have hrestore := messages_restore st.toCached.rows
    { empty with hasMoreHistory := st.toCached.hasMoreHistory } (keyed_capRows hk)
    fun m hm => hshown m (mem_capRows hm)
  exact hrestore

theorem cursor_reopen : (reopen st).cursor = max (highestSerial st.toCached.rows) st.cursor :=
  cursor_fromCached st.toCached st.cursor

/-- And of the reactions those to the rows kept. -/
theorem mem_reactions_reopen (τ : Reaction) :
    τ ∈ (reopen st).reactions ↔
      τ ∈ st.reactions ∧ τ.target ∈ st.toCached.rows.map Message.id := by
  have hrestore : ∀ (rows : List Message) (st : RoomState),
      (rows.foldl restoreOne st).reactions = st.reactions := by
    intro rows
    induction rows with
    | nil => exact fun _ => rfl
    | cons m rows ih =>
        intro st
        rw [List.foldl_cons, ih]
        unfold restoreOne
        dsimp only
        split <;> rfl
  unfold reopen fromCached
  dsimp only
  rw [hrestore]
  simp [empty, toCached]

theorem hasMoreHistory_reopen : (reopen st).hasMoreHistory = st.hasMoreHistory := by
  have hrestore : ∀ (rows : List Message) (st : RoomState),
      (rows.foldl restoreOne st).hasMoreHistory = st.hasMoreHistory := by
    intro rows
    induction rows with
    | nil => exact fun _ => rfl
    | cons m rows ih =>
        intro st
        rw [List.foldl_cons, ih]
        unfold restoreOne
        dsimp only
        split <;> rfl
  unfold reopen fromCached
  dsimp only
  rw [hrestore]
  rfl

/-- Rows are cut exactly when more are held than the snapshot keeps. -/
theorem cut_iff (hk : Table.Keyed Message.id st.messages) :
    (∃ m ∈ st.messages, m ∉ st.toCached.rows) ↔ maxRows < st.messages.length := by
  have hlen : st.toCached.rows.length = min maxRows st.messages.length := by
    change (capRows st.messages).length = _
    rw [capRows, List.length_reverse, List.length_take, List.length_insertionSort]
  constructor
  · rintro ⟨m, hm, hcut⟩
    by_contra hle
    refine hcut ?_
    change m ∈ capRows st.messages
    rw [capRows, List.mem_reverse, List.take_of_length_le]
    · exact (List.mem_insertionSort _).2 hm
    · rw [List.length_insertionSort]
      omega
  · intro hlt
    by_contra hno
    have hsub : st.messages ⊆ st.toCached.rows := by
      intro m hm
      by_contra hcut
      exact hno ⟨m, hm, hcut⟩
    have hnodup : st.messages.Nodup := List.Nodup.of_map _ hk
    have hle := (hnodup.subperm hsub).length_le
    omega

end RoomState

/-! ### The round trip -/

/-- Loading every older page, then draining. -/
def resume (s : Stream) (hides : WalletAddress → Bool) (requests : Nat) (st : RoomState) :
    RoomState :=
  drainSync s hides requests st.cursor (loadAll s hides st)

/-- Nothing reachable is lost by saving and rebuilding: the cursor is the same,
    what is cut is announced, and both states, resumed, show the same messages
    with the same reactions. -/
structure RoundTrip (s : Stream) (hides : WalletAddress → Bool) (st : RoomState) : Prop where
  cursor : st.reopen.cursor = st.cursor
  flag : (∃ m ∈ st.messages, m ∉ st.toCached.rows) → st.reopen.hasMoreHistory = true
  messages : ∀ requests, s.rows.length ≤ syncLimit * requests → ∀ id,
    (resume s hides requests st.reopen).held id = (resume s hides requests st).held id
  reactions : ∀ requests, s.rows.length ≤ syncLimit * requests → ∀ τ : Reaction,
    ((resume s hides requests st).held τ.target).isSome →
      (τ ∈ (resume s hides requests st.reopen).reactions ↔
        τ ∈ (resume s hides requests st).reactions)

/-- What paging back from the oldest of some rows brings. -/
def pagedFrom (s : Stream) (hides : WalletAddress → Bool) (rows : List Message) : List Message :=
  paged s hides s.rows.length (pagingPoint rows)

/-- The message under the id is not shown: nothing that is pending bears on it,
    it is not held, and no older page brings it. -/
def NotShown (s : Stream) (hides : WalletAddress → Bool) (st : RoomState) (id : MessageId) : Prop :=
  ¬ Settled (s.pending hides st.cursor) id ∧ st.held id = none ∧
    ∀ r ∈ pagedFrom s hides st.messages, r.id ≠ id

/-- What is saved can be made whole. No row kept is numbered beyond the cursor,
    and the flag is up if rows are cut. A row that is cut comes back with the
    older pages, unless something pending bears on it, and these bring no other
    row than they would have brought. A reaction that is dropped has something
    pending that bears on it, or belongs to no message that is shown. -/
structure Recoverable (s : Stream) (hides : WalletAddress → Bool) (st : RoomState) : Prop where
  serials : ∀ m ∈ st.toCached.rows, m.msgSerial ≤ st.cursor
  flag : maxRows < st.messages.length → st.hasMoreHistory = true
  rows : ∀ m ∈ st.messages, m ∈ st.toCached.rows ∨ Settled (s.pending hides st.cursor) m.id ∨
    m ∈ pagedFrom s hides st.toCached.rows
  others : ∀ r ∈ s.rows, st.held r.id = none → Settled (s.pending hides st.cursor) r.id ∨
    (r ∈ pagedFrom s hides st.toCached.rows ↔ r ∈ pagedFrom s hides st.messages)
  reactions : ∀ τ ∈ st.reactions, τ.target ∈ st.toCached.rows.map Message.id ∨
    SettledReaction (s.pending hides st.cursor) τ ∨ NotShown s hides st τ.target

section RoundTrip

variable {s : Stream} {hides : WalletAddress → Bool} {st : RoomState}

theorem mem_paged {n before : Nat} {r : Message} (h : r ∈ paged s hides n before) : r ∈ s.rows := by
  induction n generalizing before with
  | zero => cases h
  | succ n ih =>
      rw [paged] at h
      split at h
      next => cases h
      next m rest hpage =>
        rcases List.mem_append.1 h with h | h
        · exact (Stream.mem_getMessages (hpage ▸ h)).1
        · exact ih h

theorem lookup_pagedFrom (hs : s.WellFormed) {rows : List Message} {id : MessageId} {r : Message} :
    Table.lookup Message.id id (pagedFrom s hides rows) = some r ↔
      r ∈ pagedFrom s hides rows ∧ r.id = id := by
  constructor
  · exact fun h => ⟨Table.mem_of_lookup h, Table.key_of_lookup h⟩
  · rintro ⟨hr, rfl⟩
    have hfound : (Table.lookup Message.id r.id (pagedFrom s hides rows)).isSome :=
      Table.lookup_isSome.2 ⟨r, hr, rfl⟩
    obtain ⟨x, hx⟩ := Option.isSome_iff_exists.1 hfound
    rw [hx, hs.eq_of_id (mem_paged (Table.mem_of_lookup hx)) (mem_paged hr)
      (Table.key_of_lookup hx)]

theorem dated_reopen (hd : Dated s st) : Dated s st.reopen :=
  ⟨fun m hm => hd.same m (RoomState.mem_capRows (RoomState.mem_fromCached hm)),
    fun m hm => hd.held m (RoomState.mem_capRows (RoomState.mem_fromCached hm)), hd.rows⟩

/-- Resuming folds what is pending over what paging makes of the state. -/
theorem resume_eq (hs : s.WellFormed) {requests : Nat}
    (hreq : s.rows.length ≤ syncLimit * requests) (st : RoomState) :
    resume s hides requests st = (loadAll s hides st).fold (s.pending hides st.cursor) :=
  drainSync_eq hs _ (le_trans Stream.length_pending_le hreq)

theorem held_resume (hs : s.WellFormed) (hd : Dated s st) {requests : Nat}
    (hreq : s.rows.length ≤ syncLimit * requests) {id : MessageId}
    (hid : ¬ Settled (s.pending hides st.cursor) id) :
    (resume s hides requests st).held id =
      (st.held id).or (Table.lookup Message.id id (pagedFrom s hides st.messages)) := by
  rw [resume_eq hs hreq, RoomState.held_fold_other _ hid, held_loadAll hs hd, pagedFrom]

theorem mem_reactions_resume (hs : s.WellFormed) {requests : Nat}
    (hreq : s.rows.length ≤ syncLimit * requests) {τ : Reaction}
    (hτ : ¬ SettledReaction (s.pending hides st.cursor) τ) :
    τ ∈ (resume s hides requests st).reactions ↔ τ ∈ st.reactions := by
  rw [resume_eq hs hreq, RoomState.mem_reactions_fold_other _ hτ, loadAll, reactions_iterate]

variable (hs : s.WellFormed) (hd : Dated s st) (hk : Table.Keyed Message.id st.messages)
  (hshown : ∀ m ∈ st.messages, m.displayable = true)

include hk hshown

theorem held_reopen (id : MessageId) :
    st.reopen.held id = Table.lookup Message.id id st.toCached.rows := by
  rw [RoomState.held, RoomState.messages_reopen hk hshown]

/-- A row cut is not held by the rebuilt client, nor is one that was not held. -/
theorem held_reopen_cut {id : MessageId} (h : ∀ m ∈ st.toCached.rows, st.held id ≠ some m) :
    st.reopen.held id = none := by
  rw [held_reopen hk hshown, Table.lookup_eq_none]
  intro m hm hid
  refine h m hm ?_
  have hmem : m ∈ st.messages := RoomState.mem_capRows hm
  exact hid ▸ Table.lookup_of_mem hk hmem

include hs hd

/-- Resumed, the two agree under every id exactly if the rows cut come back and
    no others do. -/
theorem messages_iff (hcursor : st.reopen.cursor = st.cursor) {requests : Nat}
    (hreq : s.rows.length ≤ syncLimit * requests) :
    (∀ id, (resume s hides requests st.reopen).held id = (resume s hides requests st).held id) ↔
      (∀ m ∈ st.messages, m ∈ st.toCached.rows ∨ Settled (s.pending hides st.cursor) m.id ∨
        m ∈ pagedFrom s hides st.toCached.rows) ∧
      (∀ r ∈ s.rows, st.held r.id = none → Settled (s.pending hides st.cursor) r.id ∨
        (r ∈ pagedFrom s hides st.toCached.rows ↔ r ∈ pagedFrom s hides st.messages)) := by
  have hrebuilt : ∀ {id}, ¬ Settled (s.pending hides st.cursor) id →
      (resume s hides requests st.reopen).held id = (st.reopen.held id).or
        (Table.lookup Message.id id (pagedFrom s hides st.toCached.rows)) := by
    intro id hid
    rw [held_resume hs (dated_reopen hd) hreq (hcursor ▸ hid), RoomState.messages_reopen hk hshown]
  constructor
  · intro h
    refine ⟨fun m hm => ?_, fun r hr hnone => ?_⟩
    · by_contra hno
      push Not at hno
      have hheld : st.held m.id = some m := Table.lookup_of_mem hk hm
      have hsame := h m.id
      rw [hrebuilt hno.2.1, held_resume hs hd hreq hno.2.1, hheld, Option.some_or,
        held_reopen_cut hk hshown, Option.none_or, lookup_pagedFrom hs] at hsame
      · exact hno.2.2 hsame.1
      · intro x hx heq
        rw [hheld] at heq
        exact hno.1 (Option.some.inj heq ▸ hx)
    · by_cases hid : Settled (s.pending hides st.cursor) r.id
      · exact Or.inl hid
      · refine Or.inr ?_
        have hsame := h r.id
        rw [hrebuilt hid, held_resume hs hd hreq hid, hnone, Option.none_or,
          held_reopen_cut hk hshown (by simp [hnone]), Option.none_or] at hsame
        have hfind : ∀ rows, r ∈ pagedFrom s hides rows ↔
            Table.lookup Message.id r.id (pagedFrom s hides rows) = some r :=
          fun rows => ⟨fun hr => (lookup_pagedFrom hs).2 ⟨hr, rfl⟩,
            fun h => ((lookup_pagedFrom hs).1 h).1⟩
        rw [hfind, hfind, hsame]
  · rintro ⟨hrows, hothers⟩ id
    by_cases hid : Settled (s.pending hides st.cursor) id
    · rw [resume_eq hs hreq, resume_eq hs hreq, hcursor]
      exact RoomState.held_fold_settled _ _ hid
    · rw [hrebuilt hid, held_resume hs hd hreq hid]
      cases hheld : st.held id with
      | some m =>
          have hm : m ∈ st.messages := Table.mem_of_lookup hheld
          have hmid : m.id = id := Table.key_of_lookup hheld
          by_cases hkept : m ∈ st.toCached.rows
          · have hfind := Table.lookup_of_mem (RoomState.keyed_capRows hk) hkept
            rw [held_reopen hk hshown, ← hmid]
            change (Table.lookup Message.id m.id st.toCached.rows).or _ = _
            rw [show Table.lookup Message.id m.id st.toCached.rows = some m from hfind]
            rfl
          · rw [held_reopen_cut hk hshown, Option.none_or, Option.some_or, lookup_pagedFrom hs]
            · rcases hrows m hm with h | h | h
              · exact absurd h hkept
              · exact absurd (hmid ▸ h) hid
              · exact ⟨h, hmid⟩
            · intro x hx heq
              rw [hheld] at heq
              exact hkept (Option.some.inj heq ▸ hx)
      | none =>
          rw [held_reopen_cut hk hshown (by simp [hheld]), Option.none_or, Option.none_or]
          refine Option.ext fun r => ?_
          rw [lookup_pagedFrom hs, lookup_pagedFrom hs]
          refine and_congr_left fun hrid => ?_
          constructor
          · intro hr
            rcases hothers r (mem_paged hr) (hrid ▸ hheld) with h | h
            · exact absurd (hrid ▸ h) hid
            · exact h.1 hr
          · intro hr
            rcases hothers r (mem_paged hr) (hrid ▸ hheld) with h | h
            · exact absurd (hrid ▸ h) hid
            · exact h.2 hr

omit hk hshown in
/-- If no pending event removes the message, it is not shown after resuming
    exactly if it was not to begin with and nothing brings it. -/
theorem notShown_iff {requests : Nat} (hreq : s.rows.length ≤ syncLimit * requests) {τ : Reaction}
    (hτ : ¬ SettledReaction (s.pending hides st.cursor) τ) :
    (resume s hides requests st).held τ.target = none ↔ NotShown s hides st τ.target := by
  constructor
  · intro hnone
    have hid : ¬ Settled (s.pending hides st.cursor) τ.target := by
      intro hsettled
      have hkept : ∀ e ∈ s.pending hides st.cursor, ¬ e.Removes τ.target := by
        rintro e he (hk | hk)
        · exact hτ ⟨e, he, Or.inl hk⟩
        · exact hτ ⟨e, he, Or.inr (Or.inl hk)⟩
      have hsome := RoomState.isSome_fold_settled (loadAll s hides st) hkept hsettled
      rw [← resume_eq hs hreq, hnone] at hsome
      cases hsome
    rw [held_resume hs hd hreq hid, Option.or_eq_none_iff, Table.lookup_eq_none] at hnone
    exact ⟨hid, hnone.1, hnone.2⟩
  · rintro ⟨hid, hnone, hpaged⟩
    rw [held_resume hs hd hreq hid, hnone, Option.none_or, Table.lookup_eq_none]
    exact hpaged

/-- **The round trip**, for any state whose timestamps agree with the room's:
    nothing reachable is lost exactly if what is saved can be made whole. -/
theorem roundTrip_iff_of_dated : RoundTrip s hides st ↔ Recoverable s hides st := by
  have hreactions : ∀ {requests}, s.rows.length ≤ syncLimit * requests →
      st.reopen.cursor = st.cursor → ∀ {τ : Reaction},
      ¬ SettledReaction (s.pending hides st.cursor) τ →
      ((τ ∈ (resume s hides requests st.reopen).reactions ↔
        τ ∈ (resume s hides requests st).reactions) ↔
          (τ ∈ st.reactions → τ.target ∈ st.toCached.rows.map Message.id)) := by
    intro requests hreq hcursor τ hτ
    rw [mem_reactions_resume hs hreq (hcursor ▸ hτ), mem_reactions_resume hs hreq hτ,
      RoomState.mem_reactions_reopen]
    exact and_iff_left_iff_imp
  constructor
  · intro h
    have hreq : s.rows.length ≤ syncLimit * s.rows.length := Nat.le_mul_of_pos_left _ (by decide)
    have hmessages := (messages_iff hs hd hk hshown h.cursor hreq).1 (h.messages _ hreq)
    refine ⟨?_, ?_, hmessages.1, hmessages.2, ?_⟩
    · intro m hm
      rw [← h.cursor, RoomState.cursor_reopen]
      exact le_trans (le_highestSerial hm) (le_max_left _ _)
    · intro hcut
      rw [← RoomState.hasMoreHistory_reopen]
      exact h.flag ((RoomState.cut_iff hk).2 hcut)
    · intro τ hmem
      by_cases hkept : τ.target ∈ st.toCached.rows.map Message.id
      · exact Or.inl hkept
      by_cases hτ : SettledReaction (s.pending hides st.cursor) τ
      · exact Or.inr (Or.inl hτ)
      refine Or.inr (Or.inr ((notShown_iff hs hd hreq hτ).1 ?_))
      by_contra hsome
      have hsame := h.reactions _ hreq τ (Option.ne_none_iff_isSome.1 hsome)
      exact hkept ((hreactions hreq h.cursor hτ).1 hsame hmem)
  · intro h
    have hcursor : st.reopen.cursor = st.cursor := by
      rw [RoomState.cursor_reopen]
      refine max_eq_right ?_
      by_cases hnil : st.toCached.rows = []
      · rw [hnil]
        exact Nat.zero_le _
      · obtain ⟨m, hm, hmax⟩ := highestSerial_mem hnil
        exact hmax ▸ h.serials m hm
    refine ⟨hcursor, ?_, ?_, ?_⟩
    · intro hcut
      rw [RoomState.hasMoreHistory_reopen]
      exact h.flag ((RoomState.cut_iff hk).1 hcut)
    · exact fun requests hreq =>
        (messages_iff hs hd hk hshown hcursor hreq).2 ⟨h.rows, h.others⟩
    · intro requests hreq τ hshows
      by_cases hτ : SettledReaction (s.pending hides st.cursor) τ
      · rw [resume_eq hs hreq, resume_eq hs hreq, hcursor]
        exact RoomState.mem_reactions_fold_settled _ _ hτ
      · refine (hreactions hreq hcursor hτ).2 fun hmem => ?_
        rcases h.reactions τ hmem with hkept | hsettled | hnot
        · exact hkept
        · exact absurd hsettled hτ
        · rw [(notShown_iff hs hd hreq hτ).2 hnot] at hshows
          cases hshows

end RoundTrip

/-! ### Runs -/

/-- The id of the row a write inserts. -/
def Mutation.newId? : Mutation → Option MessageId
  | .createMessage _ new => some new.id
  | .createEmoticonEvent _ id .. => some id
  | .deleteAllMessages _ _ markerId => some markerId
  | _ => none

/-- The clock a write reads. -/
def Mutation.now : Mutation → Nat
  | .createMessage now _ => now
  | .createEmoticonEvent now .. => now
  | .updateMessage now .. => now
  | .softDeleteMessage now _ => now
  | .deleteAllMessages now .. => now
  | .publishTxHash now .. => now

/-- Where the rows of a write have their timestamps from. -/
theorem dates_rowsStep {rows rows' : List Message} {m : Mutation} {n : Nat}
    (h : RowsStep n rows m rows') {x : Message} (hx : x ∈ rows') :
    (∃ r ∈ rows, r.id = x.id ∧ r.messageTimestamp = x.messageTimestamp) ∨
      (m.newId? = some x.id ∧ x.messageTimestamp = m.now) := by
  rcases origin_of_rowsStep h hx with ⟨y, hy, hid, -, htime⟩ | hnew
  · exact Or.inl ⟨y, hy, hid, htime⟩
  · cases m <;> cases hnew <;> exact Or.inr ⟨rfl, rfl⟩

namespace Session

/-- What a write is given from outside: a fresh id, so none the client holds, and
    a clock past its epoch. -/
def Stamped (σ : Session) : Act → Prop
  | .write m => 0 < m.now ∧ ∀ id ∈ m.newId?, σ.client.held id = none
  | _ => True

instance (σ : Session) : (a : Act) → Decidable (σ.Stamped a)
  | .write _ => inferInstanceAs (Decidable (_ ∧ _))
  | .sync => .isTrue trivial
  | .history .. => .isTrue trivial

/-- Sound, with timestamps that agree, and nothing held that cannot be shown. -/
structure Presentable (σ : Session) : Prop where
  sound : σ.Sound
  dated : Dated σ.stream σ.client
  shown : ∀ m ∈ σ.client.messages, m.displayable = true

theorem presentable_start {now : Nat} (h : 0 < now) : (start now).Presentable where
  sound := sound_start h
  dated := ⟨(fun _ hm => by cases hm), (fun _ hm => by cases hm), (fun _ hr => by cases hr)⟩
  shown := fun _ hm => by cases hm

theorem dated_write (σ : Session) (m : Mutation) (h : σ.Presentable)
    (hm : σ.Stamped (.write m)) : Dated (σ.stream.apply m) σ.client := by
  rcases σ.stream.apply_cases m with hsame | ⟨n, -, -, hstep⟩
  · rw [hsame]
    exact h.dated
  have hdates := fun {x} => dates_rowsStep (x := x) hstep
  refine ⟨?_, h.dated.held, ?_⟩
  · intro x hx r hr hid
    rcases hdates hr with ⟨r', hr', hrid, hts⟩ | ⟨hnew, -⟩
    · rw [← hts]
      exact h.dated.same x hx r' hr' (hid.trans hrid.symm)
    · -- The row is new, and the client cannot hold its id.
      have hnone := hm.2 r.id hnew
      rw [← hid, RoomState.held, Table.lookup_of_mem h.sound.keyed hx] at hnone
      cases hnone
  · intro r hr
    rcases hdates hr with ⟨r', hr', -, hts⟩ | ⟨-, hts⟩
    · exact hts ▸ h.dated.rows r' hr'
    · exact hts ▸ hm.1

/-- Holding more rows of the room is as good. -/
theorem presentable_grow (σ : Session) (st : RoomState) (h : σ.Presentable)
    (hkeyed : Table.Keyed Message.id st.messages)
    (hmem : ∀ m ∈ st.messages,
      m ∈ σ.client.messages ∨ (m ∈ σ.stream.rows ∧ m.displayable = true)) :
    Presentable { σ with client := st } := by
  refine ⟨⟨h.sound.ordered, hkeyed⟩, ⟨?_, ?_, h.dated.rows⟩, ?_⟩
  · intro m hm r hr hid
    rcases hmem m hm with hm | ⟨hm, -⟩
    · exact h.dated.same m hm r hr hid
    · rw [h.sound.ordered.eq_of_id hm hr hid]
  · intro m hm
    rcases hmem m hm with hm | ⟨hm, -⟩
    · exact h.dated.held m hm
    · exact h.dated.rows m hm
  · intro m hm
    rcases hmem m hm with hm | ⟨-, hd⟩
    · exact h.shown m hm
    · exact hd

theorem presentable_step {hides : WalletAddress → Bool} (σ : Session) (a : Act)
    (h : σ.Presentable) (ha : σ.Stamped a) : (step hides σ a).Presentable := by
  have hsound : (step hides σ a).Sound := sound_step σ a h.sound
  cases a with
  | write m => exact ⟨hsound, dated_write σ m h ha, h.shown⟩
  | sync =>
      refine presentable_grow σ _ h hsound.keyed fun m hm => ?_
      rcases RoomState.mem_fold hm with hm | ⟨hm, hkind⟩
      · exact Or.inl hm
      · rw [Stream.syncMessages_eq] at hm
        have hrow := (Stream.mem_pending.1 (List.mem_of_mem_take hm)).1
        exact Or.inr ⟨hrow, h.sound.ordered.displayable hrow hkind⟩
  | history before limit hasMore =>
      refine presentable_grow σ _ h hsound.keyed fun m hm => ?_
      rcases RoomState.mem_mergeHistory hm with hm | hm
      · exact Or.inl hm
      · exact Or.inr ⟨(Stream.mem_getMessages hm).1, Stream.displayable_getMessages hm⟩

end Session

/-- **The round trip**, after any run of a room and a client: saving and
    rebuilding loses nothing reachable exactly if what is saved can be made
    whole. -/
theorem roundTrip_iff (hides : WalletAddress → Bool) (now : Nat) (acts : List Session.Act)
    (hnow : 0 < now)
    (hacts : Run.Along (Session.step hides) Session.Stamped (Session.start now) acts) :
    RoundTrip (Session.after hides now acts).stream hides (Session.after hides now acts).client ↔
      Recoverable (Session.after hides now acts).stream hides
        (Session.after hides now acts).client := by
  have h : (Session.after hides now acts).Presentable :=
    Run.along_inv Session.presentable_step _ acts (Session.presentable_start hnow) hacts
  exact roundTrip_iff_of_dated h.sound.ordered h.dated h.sound.keyed h.shown

section Sample

open Sample

/-- Bob posts twice and Alice reacts in between; the client opens the room. -/
def postedWithReaction : List Session.Act :=
  [.write (.createMessage 10 (note "msg_1" bob)),
    .write (.createEmoticonEvent 11 ⟨"emoticon_1"⟩ alice ⟨"msg_1"⟩ "thumbs_up" "" true),
    .write (.createMessage 12 (note "msg_2" bob)), .history 0 50 false]

/-- Saved after it has folded the stream as well, the client loses nothing. -/
theorem reopened_after_sync :
    RoundTrip (Session.after nobody 10 (postedWithReaction ++ [.sync])).stream nobody
      (Session.after nobody 10 (postedWithReaction ++ [.sync])).client := by
  refine (roundTrip_iff nobody 10 (postedWithReaction ++ [.sync]) (by decide)
    (by decide +kernel)).2 ⟨by decide +kernel, by decide +kernel, ?_, ?_, ?_⟩
  · have hkept : ∀ m ∈ (Session.after nobody 10 (postedWithReaction ++ [.sync])).client.messages,
        m ∈ (Session.after nobody 10 (postedWithReaction ++ [.sync])).client.toCached.rows := by
      decide +kernel
    exact fun m hm => Or.inl (hkept m hm)
  · have hpaged : ∀ r ∈ (Session.after nobody 10 (postedWithReaction ++ [.sync])).stream.rows,
        (r ∈ pagedFrom (Session.after nobody 10 (postedWithReaction ++ [.sync])).stream nobody
          (Session.after nobody 10 (postedWithReaction ++ [.sync])).client.toCached.rows ↔
        r ∈ pagedFrom (Session.after nobody 10 (postedWithReaction ++ [.sync])).stream nobody
          (Session.after nobody 10 (postedWithReaction ++ [.sync])).client.messages) := by
      decide +kernel
    exact fun r hr _ => Or.inr (hpaged r hr)
  · have hkept : ∀ τ ∈ (Session.after nobody 10 (postedWithReaction ++ [.sync])).client.reactions,
        τ.target ∈ (Session.after nobody 10
          (postedWithReaction ++ [.sync])).client.toCached.rows.map Message.id := by
      decide +kernel
    exact fun τ hτ => Or.inl (hkept τ hτ)

/-- Saved before that, it comes back with the cursor of the second message, and
    the reaction below it is never sent. -/
theorem reopened_early :
    ¬ RoundTrip (Session.after nobody 10 postedWithReaction).stream nobody
      (Session.after nobody 10 postedWithReaction).client :=
  fun h => absurd h.cursor (by decide +kernel)

end Sample

end PocketSkynet
