import Mathlib.Logic.Function.Iterate
import PocketSkynet.Client.RoomState
import PocketSkynet.Server.StreamOrder

/-!
# Loading Older Pages

A client pages backwards from the oldest row it holds: it asks for the rows
before that row's timestamp, merges them, and goes on from the oldest row it
holds then. What the pages bring depends only on the room's history and on the
timestamp the paging starts from, and `paged` lists it. Rows that share their
timestamp with the last row of a page are not among it, unless they are on the
same page.

The argument needs that a row the client holds and the row the server has under
the same id carry the same timestamp, which writes never change.

## Main definitions

* `loadOlder`, `loadAll`: One page more, and as many as there can be.
* `pagingPoint`: Where paging goes on.
* `paged`: What paging brings.
* `Dated`: Client and server agree about timestamps.

## Theorems

* `held_loadAll`: Paging adds what `paged` lists to what is held.
-/

namespace PocketSkynet

/-- The oldest timestamp among some rows, zero if there are none. -/
def pagingPoint (rows : List Message) : Nat := ((rows.map Message.messageTimestamp).min?).getD 0

/-- `load_older`: a page from before the oldest row held. -/
def loadOlder (s : Stream) (hides : WalletAddress → Bool) (st : RoomState) : RoomState :=
  let page := s.getMessages hides (st.oldestTimestamp.getD 0) pageSize
  st.takeHistory page (!page.isEmpty)

/-- As many pages as the room has rows. -/
def loadAll (s : Stream) (hides : WalletAddress → Bool) (st : RoomState) : RoomState :=
  (loadOlder s hides)^[s.rows.length] st

/-- What `n` pages bring, going back from a timestamp. -/
def paged (s : Stream) (hides : WalletAddress → Bool) : Nat → Nat → List Message
  | 0, _ => []
  | n + 1, before =>
      match s.getMessages hides before pageSize with
      | [] => []
      | m :: rest => m :: rest ++ paged s hides n m.messageTimestamp

/-- Rows under one id have one timestamp, and every timestamp is positive. -/
structure Dated (s : Stream) (st : RoomState) : Prop where
  same : ∀ m ∈ st.messages, ∀ r ∈ s.rows, m.id = r.id → m.messageTimestamp = r.messageTimestamp
  held : ∀ m ∈ st.messages, 0 < m.messageTimestamp
  rows : ∀ r ∈ s.rows, 0 < r.messageTimestamp

theorem pagingPoint_le {rows : List Message} {m : Message} (hm : m ∈ rows) :
    pagingPoint rows ≤ m.messageTimestamp := by
  unfold pagingPoint
  cases hmin : (rows.map Message.messageTimestamp).min? with
  | none =>
      rw [List.min?_eq_none_iff, List.map_eq_nil_iff] at hmin
      rw [hmin] at hm
      cases hm
  | some n => exact (List.min?_eq_some_iff.1 hmin).2 _ (List.mem_map_of_mem hm)

theorem pagingPoint_mem {rows : List Message} (h : rows ≠ []) :
    ∃ m ∈ rows, m.messageTimestamp = pagingPoint rows := by
  unfold pagingPoint
  cases hmin : (rows.map Message.messageTimestamp).min? with
  | none =>
      rw [List.min?_eq_none_iff, List.map_eq_nil_iff] at hmin
      exact absurd hmin h
  | some n => exact List.mem_map.1 (List.min?_eq_some_iff.1 hmin).1

theorem pagingPoint_eq {rows : List Message} {m : Message} (hm : m ∈ rows)
    (hold : ∀ r ∈ rows, m.messageTimestamp ≤ r.messageTimestamp) :
    pagingPoint rows = m.messageTimestamp := by
  obtain ⟨r, hr, hmin⟩ := pagingPoint_mem (List.ne_nil_of_mem hm)
  exact le_antisymm (pagingPoint_le hm) (hmin ▸ hold r hr)

namespace Stream

variable {s : Stream} {hides : WalletAddress → Bool} {before limit : Nat}

theorem newestFirst_sorted (rows : List Message) :
    (rows.insertionSort Message.newestFirst).Pairwise Message.newestFirst :=
  List.pairwise_insertionSort _ _

/-- A page starts with its oldest row. -/
theorem getMessages_head {m : Message} {rest : List Message}
    (h : s.getMessages hides before limit = m :: rest) :
    ∀ r ∈ m :: rest, m.messageTimestamp ≤ r.messageTimestamp := by
  have hsorted := newestFirst_sorted (s.rows.filter (inHistory hides before))
  have hpage := List.pairwise_reverse.2 (hsorted.sublist (List.take_sublist limit _))
  rw [getMessages] at h
  rw [h] at hpage
  intro r hr
  rcases List.mem_cons.1 hr with rfl | hr
  · exact le_rfl
  · have hnewer := (List.pairwise_cons.1 hpage).1 r hr
    unfold Message.newestFirst at hnewer
    omega

/-- A row of the history that is not on a page is no newer than any row on it. -/
theorem mem_or_older_getMessages {r m : Message} (hr : r ∈ s.rows)
    (hshown : inHistory hides before r = true) (hm : m ∈ s.getMessages hides before limit) :
    r ∈ s.getMessages hides before limit ∨ r.messageTimestamp ≤ m.messageTimestamp := by
  have hsorted := newestFirst_sorted (s.rows.filter (inHistory hides before))
  have hmem : r ∈ (s.rows.filter (inHistory hides before)).insertionSort Message.newestFirst :=
    (List.mem_insertionSort _).2 (List.mem_filter.2 ⟨hr, hshown⟩)
  rw [← List.take_append_drop limit ((s.rows.filter (inHistory hides before)).insertionSort
    Message.newestFirst)] at hsorted hmem
  unfold getMessages at hm ⊢
  rcases List.mem_append.1 hmem with htake | hdrop
  · exact Or.inl (List.mem_reverse.2 htake)
  · have hnewer := (List.pairwise_append.1 hsorted).2.2 m (List.mem_reverse.1 hm) r hdrop
    unfold Message.newestFirst at hnewer
    exact Or.inr (by omega)

/-- A page is empty exactly if the history has no row before the timestamp. -/
theorem getMessages_eq_nil (hlimit : 0 < limit) :
    s.getMessages hides before limit = [] ↔ s.rows.filter (inHistory hides before) = [] := by
  unfold getMessages
  rw [List.reverse_eq_nil_iff, List.take_eq_nil_iff]
  constructor
  · rintro (h | h)
    · omega
    · exact List.perm_nil.1 (h ▸ (List.perm_insertionSort _ _).symm)
  · intro h
    rw [h]
    exact Or.inr rfl

end Stream

/-! ### One page -/

namespace RoomState

/-- Merging displayable rows adds the first row of each id that is not held. -/
theorem held_mergeHistory (st : RoomState) (page : List Message)
    (hpage : ∀ m ∈ page, m.displayable = true) (id : MessageId) :
    (st.mergeHistory page).held id = (st.held id).or (Table.lookup Message.id id page) := by
  induction page generalizing st with
  | nil => simp [mergeHistory]
  | cons m page ih =>
      rw [mergeHistory_cons, ih _ fun x hx => hpage x (List.mem_cons_of_mem m hx), held_mergeOne,
        Table.lookup_cons]
      have hm := hpage m List.mem_cons_self
      by_cases hid : id = m.id
      · subst hid
        simp [hm]
      · simp [hid, Ne.symm hid]

end RoomState

section Pages

variable {s : Stream} {hides : WalletAddress → Bool} {st : RoomState}

theorem older_getMessages {before limit : Nat} {m : Message}
    (h : m ∈ s.getMessages hides before limit) (hbefore : 0 < before) :
    m.messageTimestamp < before := by
  have hshown := (Stream.mem_getMessages h).2
  unfold Stream.inHistory at hshown
  simp only [Bool.and_eq_true, Bool.or_eq_true, beq_iff_eq, decide_eq_true_eq] at hshown
  rcases hshown.1.2 with h0 | hlt
  · omega
  · exact hlt

@[simp] theorem cursor_loadOlder : (loadOlder s hides st).cursor = st.cursor :=
  RoomState.cursor_takeHistory st _ _

@[simp] theorem reactions_loadOlder : (loadOlder s hides st).reactions = st.reactions :=
  RoomState.reactions_takeHistory st _ _

theorem held_loadOlder (id : MessageId) :
    (loadOlder s hides st).held id = (st.held id).or
      (Table.lookup Message.id id (s.getMessages hides (pagingPoint st.messages) pageSize)) :=
  RoomState.held_mergeHistory st _ (fun _ hm => Stream.displayable_getMessages hm) id

theorem mem_loadOlder {m : Message} (hm : m ∈ (loadOlder s hides st).messages) :
    m ∈ st.messages ∨ m ∈ s.getMessages hides (pagingPoint st.messages) pageSize :=
  RoomState.mem_mergeHistory hm

theorem dated_loadOlder (hs : s.WellFormed) (hd : Dated s st) : Dated s (loadOlder s hides st) := by
  refine ⟨?_, ?_, hd.rows⟩
  · intro m hm r hr hid
    rcases mem_loadOlder hm with hm | hm
    · exact hd.same m hm r hr hid
    · rw [hs.eq_of_id (Stream.mem_getMessages hm).1 hr hid]
  · intro m hm
    rcases mem_loadOlder hm with hm | hm
    · exact hd.held m hm
    · exact hd.rows m (Stream.mem_getMessages hm).1

theorem pagingPoint_pos (hd : Dated s st) (h : st.messages ≠ []) : 0 < pagingPoint st.messages := by
  obtain ⟨m, hm, hmin⟩ := pagingPoint_mem h
  exact hmin ▸ hd.held m hm

/-- Paging goes on from the first row of the page: it is older than all that is
    held, so it was not held, and it is the oldest of the page. -/
theorem pagingPoint_loadOlder (hd : Dated s st) {m : Message}
    {rest : List Message}
    (hpage : s.getMessages hides (pagingPoint st.messages) pageSize = m :: rest) :
    pagingPoint (loadOlder s hides st).messages = m.messageTimestamp := by
  have hm : m ∈ s.getMessages hides (pagingPoint st.messages) pageSize :=
    hpage ▸ List.mem_cons_self
  have hrow := (Stream.mem_getMessages hm).1
  have holder : ∀ x ∈ st.messages, m.messageTimestamp < x.messageTimestamp := by
    intro x hx
    have hpos := pagingPoint_pos hd (List.ne_nil_of_mem hx)
    exact lt_of_lt_of_le (older_getMessages hm hpos) (pagingPoint_le hx)
  have hfree : st.held m.id = none := by
    cases hh : st.held m.id with
    | none => rfl
    | some x =>
        have hx : x ∈ st.messages := Table.mem_of_lookup hh
        have hsame := hd.same x hx m hrow (Table.key_of_lookup hh)
        have hlt := holder x hx
        omega
  have hheld : (loadOlder s hides st).held m.id = some m := by
    rw [held_loadOlder, hfree, hpage, Table.lookup_cons, if_pos rfl, Option.none_or]
  refine pagingPoint_eq (Table.mem_of_lookup hheld) fun r hr => ?_
  rcases mem_loadOlder hr with hr | hr
  · exact le_of_lt (holder r hr)
  · exact Stream.getMessages_head hpage r (hpage ▸ hr)

/-- An empty page changes nothing. -/
theorem messages_loadOlder_nil
    (hpage : s.getMessages hides (pagingPoint st.messages) pageSize = []) :
    (loadOlder s hides st).messages = st.messages := by
  change (st.mergeHistory (s.getMessages hides (pagingPoint st.messages) pageSize)).messages = _
  rw [hpage]
  rfl

/-! ### All pages -/

theorem paged_nil {before : Nat} (h : s.getMessages hides before pageSize = []) (n : Nat) :
    paged s hides n before = [] := by
  cases n with
  | zero => rfl
  | succ n => rw [paged, h]

theorem reactions_iterate (n : Nat) : ((loadOlder s hides)^[n] st).reactions = st.reactions := by
  induction n generalizing st with
  | zero => rfl
  | succ n ih => rw [Function.iterate_succ_apply, ih, reactions_loadOlder]

theorem held_iterate (hs : s.WellFormed) (n : Nat) (hd : Dated s st) (id : MessageId) :
    ((loadOlder s hides)^[n] st).held id =
      (st.held id).or (Table.lookup Message.id id (paged s hides n (pagingPoint st.messages))) := by
  induction n generalizing st with
  | zero => simp [paged]
  | succ n ih =>
      rw [Function.iterate_succ_apply, ih (dated_loadOlder hs hd),
        held_loadOlder]
      cases hpage : s.getMessages hides (pagingPoint st.messages) pageSize with
      | nil => rw [messages_loadOlder_nil hpage, paged_nil hpage, paged_nil hpage]; simp
      | cons m rest =>
          rw [pagingPoint_loadOlder hd hpage, paged, hpage]
          rw [Table.lookup_append, Option.or_assoc]

/-- **Paging adds what `paged` lists.** -/
theorem held_loadAll (hs : s.WellFormed) (hd : Dated s st) (id : MessageId) :
    (loadAll s hides st).held id = (st.held id).or
      (Table.lookup Message.id id (paged s hides s.rows.length (pagingPoint st.messages))) :=
  held_iterate hs _ hd id

/-- Every page leaves fewer rows to ask for. -/
theorem history_shrinks {before : Nat} {m : Message} (hpos : 0 < m.messageTimestamp)
    (hm : m ∈ s.getMessages hides before pageSize) :
    (s.rows.filter (Stream.inHistory hides m.messageTimestamp)).length <
      (s.rows.filter (Stream.inHistory hides before)).length := by
  obtain ⟨hrow, hshown⟩ := Stream.mem_getMessages hm
  have hmono : ∀ r, Stream.inHistory hides m.messageTimestamp r = true →
      Stream.inHistory hides before r = true := by
    intro r hr
    unfold Stream.inHistory at hr ⊢
    simp only [Bool.and_eq_true, Bool.or_eq_true, beq_iff_eq, decide_eq_true_eq] at hr ⊢
    refine ⟨⟨hr.1.1, ?_⟩, hr.2⟩
    by_cases h0 : before = 0
    · exact Or.inl h0
    · have hlt := older_getMessages hm (Nat.pos_of_ne_zero h0)
      rcases hr.1.2 with h | h
      · omega
      · exact Or.inr (by omega)
  have hsub := List.monotone_filter_right s.rows hmono
  refine lt_of_le_of_ne hsub.length_le fun heq => ?_
  have hin : m ∈ s.rows.filter (Stream.inHistory hides m.messageTimestamp) := by
    rw [hsub.eq_of_length heq]
    exact List.mem_filter.2 ⟨hrow, hshown⟩
  have hself := (List.mem_filter.1 hin).2
  unfold Stream.inHistory at hself
  simp only [Bool.and_eq_true, Bool.or_eq_true, beq_iff_eq, decide_eq_true_eq] at hself
  omega

theorem iterate_done (hs : s.WellFormed) (n : Nat) (hd : Dated s st)
    (hn : (s.rows.filter (Stream.inHistory hides (pagingPoint st.messages))).length ≤ n) :
    s.getMessages hides (pagingPoint ((loadOlder s hides)^[n] st).messages) pageSize = [] := by
  induction n generalizing st with
  | zero =>
      rw [Stream.getMessages_eq_nil (by decide)]
      exact List.length_eq_zero_iff.1 (Nat.le_zero.1 hn)
  | succ n ih =>
      rw [Function.iterate_succ_apply]
      refine ih (dated_loadOlder hs hd) ?_
      cases hpage : s.getMessages hides (pagingPoint st.messages) pageSize with
      | nil =>
          rw [messages_loadOlder_nil hpage, (Stream.getMessages_eq_nil (by decide)).1 hpage]
          exact Nat.zero_le n
      | cons m rest =>
          rw [pagingPoint_loadOlder hd hpage]
          have hm : m ∈ s.getMessages hides (pagingPoint st.messages) pageSize :=
            hpage ▸ List.mem_cons_self
          have hlt := history_shrinks (hd.rows m (Stream.mem_getMessages hm).1) hm
          omega

end Pages

end PocketSkynet
