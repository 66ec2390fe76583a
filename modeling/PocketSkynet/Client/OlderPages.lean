import PocketSkynet.Client.BackwardPaging
import PocketSkynet.Client.Cache

/-!
# Loading Earlier Messages

A client that is asked to load earlier messages asks for the page before the oldest row it holds,
as often as there is said to be more. It holds what it has paged through, but also what the stream
brings: an edit or an anchoring of a message brings the message, however old it is. From then on
that one is the oldest row held, and what lies between it and the rows paged through is never asked
for.

`loads_all_iff` says in which states nothing is missed. Whether such a state is reached depends on
the order in which pages come: `Session.KeepsWindow` is the condition on each of them under which
the rows held are a window, with nothing missing but what is older, or is still to be synced.

## Main definitions

* `RoomAct`, `Session.visit`: What a client does with a room, and what others do in it.
* `loadBack`: Loading older pages until there is no more.
* `LoadsAll`: Then everything is held.
* `Contiguous`: No gap is left behind the oldest row held.
* `Session.KeepsWindow`, `Session.Window`: The condition on a step, and what it keeps.

## Theorems

* `window_step`: Steps that meet the condition keep the window.
* `backward_loading_iff`: Both for every run.
* `edit_leaves_gap`: A message that is never loaded.
-/

namespace PocketSkynet

/-- What the client does with a room, and what others do in it. -/
inductive RoomAct where
  | write (m : Mutation)
  | openRoom
  | sync (source : Nat)
  | loadOlder
  | hydrate
  | forgetRoom
deriving DecidableEq, Repr

namespace Session

/-- One act. A room is opened with its newest page, or rebuilt from its snapshot; the stream is
    read from the cursor held or from one kept elsewhere, whichever is ahead. -/
def visit (hides : WalletAddress → Bool) (σ : Session) : RoomAct → Session
  | .write m => { σ with stream := σ.stream.apply m }
  | .openRoom =>
      let page := σ.stream.getMessages hides 0 pageSize
      { σ with client := σ.client.takeHistory page (decide (pageSize ≤ page.length)) }
  | .sync source =>
      { σ with client :=
          σ.client.fold (σ.stream.syncMessages hides (max σ.client.cursor source)).1 }
  | .loadOlder => { σ with client := PocketSkynet.loadOlder σ.stream hides σ.client }
  | .hydrate => { σ with client := σ.client.reopen }
  | .forgetRoom => { σ with client := RoomState.empty }

/-- The session after some acts on a new room. -/
def visited (hides : WalletAddress → Bool) (now : Nat) (acts : List RoomAct) : Session :=
  Run.run (visit hides) (start now) acts

/-- What a write is given from outside: a fresh id, and a clock past its epoch. -/
def Timed (σ : Session) : RoomAct → Prop
  | .write m => σ.Stamped (.write m)
  | _ => True

instance (σ : Session) : (a : RoomAct) → Decidable (σ.Timed a)
  | .write m => inferInstanceAs (Decidable (σ.Stamped (.write m)))
  | .openRoom | .sync _ | .loadOlder | .hydrate | .forgetRoom => .isTrue trivial

end Session

/-- Every message that the server would list. -/
def Stream.history (s : Stream) (hides : WalletAddress → Bool) : List Message :=
  s.rows.filter (Stream.inHistory hides 0)

/-- Loading older pages until there is said to be no more, if that happens within so many. -/
def loadBack (s : Stream) (hides : WalletAddress → Bool) : Nat → RoomState → Option RoomState
  | 0, _ => none
  | n + 1, st => if st.hasMoreHistory then loadBack s hides n (loadOlder s hides st) else some st

/-- It ends, and every message that the server would list is held. -/
def LoadsAll (s : Stream) (hides : WalletAddress → Bool) (st : RoomState) : Prop :=
  ∃ n st', loadBack s hides n st = some st' ∧ ∀ r ∈ s.history hides, (st'.held r.id).isSome

/-- The messages that are listed and not held are older than all that is held, there is said to be
    more if there are any, and pages from there on end between two timestamps. -/
structure Contiguous (s : Stream) (hides : WalletAddress → Bool) (st : RoomState) : Prop where
  joined : ∀ r ∈ s.history hides, (st.held r.id).isSome ∨
    ∀ m ∈ st.messages, r.messageTimestamp < m.messageTimestamp
  flagged : st.hasMoreHistory = false → ∀ r ∈ s.history hides, (st.held r.id).isSome
  unsplit : st.hasMoreHistory = true → Keyset.Unsplit Message.messageTimestamp
    (s.rows.filter (Stream.inHistory hides (pagingPoint st.messages))) pageSize

section Pages

variable {s : Stream} {hides : WalletAddress → Bool} {st : RoomState}

namespace Stream

/-- The history before a timestamp, newest first. -/
def historyBefore (s : Stream) (hides : WalletAddress → Bool) (before : Nat) : List Message :=
  (s.rows.filter (inHistory hides before)).insertionSort Message.newestFirst

theorem getMessages_eq (before limit : Nat) :
    s.getMessages hides before limit = ((s.historyBefore hides before).take limit).reverse := rfl

theorem inHistory_iff {before : Nat} {m : Message} : inHistory hides before m = true ↔
    inHistory hides 0 m = true ∧ (before = 0 ∨ m.messageTimestamp < before) := by
  unfold inHistory
  simp only [Bool.and_eq_true, Bool.or_eq_true, beq_iff_eq, decide_eq_true_eq, true_or, and_true]
  constructor
  · rintro ⟨⟨hshown, hbefore⟩, hvis⟩
    exact ⟨⟨hshown, hvis⟩, hbefore⟩
  · rintro ⟨⟨hshown, hvis⟩, hbefore⟩
    exact ⟨⟨hshown, hbefore⟩, hvis⟩

theorem mem_historyBefore {before : Nat} {m : Message} : m ∈ s.historyBefore hides before ↔
    m ∈ s.history hides ∧ (before = 0 ∨ m.messageTimestamp < before) := by
  rw [historyBefore, List.mem_insertionSort, List.mem_filter, inHistory_iff, history,
    List.mem_filter, and_assoc]

theorem falling_historyBefore (before : Nat) :
    Keyset.Falling Message.messageTimestamp (s.historyBefore hides before) :=
  falling_of_newestFirst (newestFirst_sorted _)

/-- The history before a row of it is what is past that row. -/
theorem past_historyBefore {before : Nat} {z : Message} (hz : z ∈ s.historyBefore hides before)
    (hpos : 0 < z.messageTimestamp) :
    Keyset.past Message.messageTimestamp (s.historyBefore hides before) (some z.messageTimestamp) =
      s.historyBefore hides z.messageTimestamp := by
  rw [Keyset.past, historyBefore, ← Keyset.insertionSort_filter, List.filter_filter, historyBefore]
  refine congrArg (List.insertionSort Message.newestFirst) (List.filter_congr fun m _ => ?_)
  have holder := (mem_historyBefore.1 hz).2
  have hbefore : inHistory hides before m = true ↔ _ := inHistory_iff
  have hpast : inHistory hides z.messageTimestamp m = true ↔ _ := inHistory_iff
  rw [Bool.eq_iff_iff, Bool.and_eq_true, decide_eq_true_eq, hbefore, hpast]
  constructor
  · rintro ⟨hlt, hm, -⟩
    exact ⟨hm, Or.inr hlt⟩
  · rintro ⟨hm, hlt⟩
    exact ⟨by omega, hm, by omega⟩

end Stream

/-- What so many pages bring from a timestamp on. -/
theorem mem_paged_iff (hpos : ∀ r ∈ s.rows, 0 < r.messageTimestamp) (n : Nat) {before : Nat}
    {r : Message} : r ∈ paged s hides n before ↔
      r ∈ Keyset.gather Message.messageTimestamp (s.historyBefore hides before) pageSize n := by
  induction n generalizing before with
  | zero => rfl
  | succ n ih =>
      rw [paged, Keyset.gather, Function.iterate_succ_apply, Keyset.fetch_nil]
      rcases hlast : ((s.historyBefore hides before).take pageSize).getLast? with _ | z
      · -- There is nothing to be paged.
        have hnil := List.getLast?_eq_none_iff.1 hlast
        have hall : s.historyBefore hides before = [] := by
          rcases List.take_eq_nil_iff.1 hnil with h | h
          · cases h
          · exact h
        rw [Stream.getMessages_eq, hnil, hall, List.reverse_nil]
        refine ⟨fun h => absurd h List.not_mem_nil, fun h => ?_⟩
        have hmem : r ∈ Keyset.gather Message.messageTimestamp [] pageSize n := h
        cases Keyset.mem_of_gather hmem
      · have hz : z ∈ s.historyBefore hides before :=
          List.mem_of_mem_take (List.mem_of_getLast? hlast)
        have hzrow : z ∈ s.rows := (List.mem_filter.1 (Stream.mem_historyBefore.1 hz).1).1
        rcases List.getLast?_eq_some_iff.1 hlast with ⟨init, hinit⟩
        have hpage : s.getMessages hides before pageSize = z :: init.reverse := by
          rw [Stream.getMessages_eq, hinit, List.reverse_append, List.reverse_singleton,
            List.singleton_append]
        rw [Keyset.iterate_fetch hlast, Stream.past_historyBefore hz (hpos z hzrow), hpage, hinit,
          List.mem_append, List.mem_append, ih]
        refine or_congr_left ?_
        rw [List.mem_cons, List.mem_reverse, List.mem_append, List.mem_singleton, or_comm]

/-! ### Until there is no more -/

/-- Nothing is older than what is held. -/
def Exhausted (s : Stream) (hides : WalletAddress → Bool) (st : RoomState) : Prop :=
  s.getMessages hides (pagingPoint st.messages) pageSize = []

theorem hasMoreHistory_loadOlder :
    (loadOlder s hides st).hasMoreHistory = false ↔ Exhausted s hides st := by
  change (!(s.getMessages hides (pagingPoint st.messages) pageSize).isEmpty) = false ↔ _
  rw [Bool.not_eq_false', List.isEmpty_iff]
  rfl

-- When nothing is older, loading changes nothing that is held.
theorem exhausted_loadOlder (h : Exhausted s hides st) :
    (loadOlder s hides st).messages = st.messages ∧ Exhausted s hides (loadOlder s hides st) := by
  have hsame := messages_loadOlder_nil h
  refine ⟨hsame, ?_⟩
  rw [Exhausted, hsame]
  exact h

theorem messages_iterate (h : Exhausted s hides st) (n : Nat) :
    ((loadOlder s hides)^[n] st).messages = st.messages := by
  induction n generalizing st with
  | zero => rfl
  | succ n ih =>
      rcases exhausted_loadOlder h with ⟨hsame, hagain⟩
      rw [Function.iterate_succ_apply, ih hagain, hsame]

-- Loading only adds to what is held.
theorem isSome_iterate (n : Nat) {id : MessageId} (h : (st.held id).isSome) :
    (((loadOlder s hides)^[n] st).held id).isSome := by
  induction n generalizing st with
  | zero => exact h
  | succ n ih =>
      rw [Function.iterate_succ_apply]
      refine ih ?_
      rw [held_loadOlder, Option.isSome_or, h, Bool.true_or]

/-- Loading that ends has loaded some pages, and there is said to be no more. -/
theorem iterate_of_loadBack {n : Nat} {st' : RoomState} (h : loadBack s hides n st = some st') :
    st'.hasMoreHistory = false ∧ ∃ m, (loadOlder s hides)^[m] st = st' := by
  induction n generalizing st with
  | zero => cases h
  | succ n ih =>
      rw [loadBack] at h
      by_cases hmore : st.hasMoreHistory = true
      · rw [if_pos hmore] at h
        rcases ih h with ⟨hflag, m, hm⟩
        exact ⟨hflag, m + 1, hm⟩
      · rw [if_neg hmore] at h
        cases h
        exact ⟨by simpa using hmore, 0, rfl⟩

/-- Loading ends at the latest where there is said to be no more. What is held by then was held as
    soon as it has ended. -/
theorem loadBack_of_iterate (n : Nat)
    (h : ((loadOlder s hides)^[n] st).hasMoreHistory = false) (hmore : st.hasMoreHistory = true) :
    ∃ k st', loadBack s hides k st = some st' ∧
      ∀ m id, (((loadOlder s hides)^[m] st).held id).isSome → (st'.held id).isSome := by
  induction n generalizing st with
  | zero => exact absurd (hmore.symm.trans h) (by decide)
  | succ n ih =>
      rw [Function.iterate_succ_apply] at h
      by_cases hnext : (loadOlder s hides st).hasMoreHistory = true
      · rcases ih h hnext with ⟨k, st', hk, hheld⟩
        refine ⟨k + 1, st', by rw [loadBack, if_pos hmore, hk], fun m id hm => ?_⟩
        cases m with
        | zero => exact hheld 0 id (isSome_iterate 1 hm)
        | succ m => exact hheld m id hm
      · have hdone : (loadOlder s hides st).hasMoreHistory = false := by simpa using hnext
        refine ⟨2, loadOlder s hides st, ?_, fun m id hm => ?_⟩
        · rw [loadBack, if_pos hmore, loadBack, if_neg hnext]
        · -- The first page was empty already.
          have hempty := hasMoreHistory_loadOlder.1 hdone
          rw [RoomState.held, messages_iterate hempty] at hm
          rwa [RoomState.held, (exhausted_loadOlder hempty).1]

theorem iterate_done_flag (hs : s.WellFormed) (hd : Dated s st) :
    ((loadOlder s hides)^[s.rows.length + 1] st).hasMoreHistory = false := by
  rw [Function.iterate_succ_apply', hasMoreHistory_loadOlder]
  exact iterate_done hs _ hd (List.length_filter_le _ _)

/-! ### What is held then -/

-- A row that is older than all that is held is in the history before it, and the other way round.
theorem mem_historyBefore_pagingPoint (hd : Dated s st) {r : Message} :
    r ∈ s.historyBefore hides (pagingPoint st.messages) ↔
      r ∈ s.history hides ∧ ∀ m ∈ st.messages, r.messageTimestamp < m.messageTimestamp := by
  rw [Stream.mem_historyBefore]
  refine and_congr_right fun _ => ⟨fun h m hm => ?_, fun h => ?_⟩
  · have hpos := pagingPoint_pos hd (List.ne_nil_of_mem hm)
    have hle := pagingPoint_le hm
    omega
  · by_cases hnil : st.messages = []
    · rw [hnil]
      exact Or.inl rfl
    · rcases pagingPoint_mem hnil with ⟨m, hm, hmin⟩
      have hlt := h m hm
      exact Or.inr (by omega)

-- What is held is not older than itself.
theorem held_of_older (hd : Dated s st) {r : Message} (hr : r ∈ s.rows)
    (hold : ∀ m ∈ st.messages, r.messageTimestamp < m.messageTimestamp) :
    st.held r.id = none := by
  cases hh : st.held r.id with
  | none => rfl
  | some m =>
      have hm : m ∈ st.messages := Table.mem_of_lookup hh
      have hsame := hd.same m hm r hr (Table.key_of_lookup hh)
      have hlt := hold m hm
      omega

theorem held_iterate_isSome (hs : s.WellFormed) (hd : Dated s st) (n : Nat) {r : Message}
    (hr : r ∈ s.rows) : (((loadOlder s hides)^[n] st).held r.id).isSome ↔
      (st.held r.id).isSome ∨ r ∈ Keyset.gather Message.messageTimestamp
        (s.historyBefore hides (pagingPoint st.messages)) pageSize n := by
  rw [held_iterate hs n hd, Option.isSome_or, Bool.or_eq_true, ← mem_paged_iff hd.rows]
  refine or_congr_right ⟨fun h => ?_, fun h => Table.lookup_isSome.2 ⟨r, h, rfl⟩⟩
  rcases Option.isSome_iff_exists.1 h with ⟨x, hx⟩
  have hmem := Table.mem_of_lookup hx
  have hrow : x ∈ s.rows := by
    have hgather := (mem_paged_iff hd.rows n).1 hmem
    exact (List.mem_filter.1 (Stream.mem_historyBefore.1 (Keyset.mem_of_gather hgather)).1).1
  rwa [hs.eq_of_id hrow hr (Table.key_of_lookup hx)] at hmem

/-- Loading older pages until there is no more leaves nothing out exactly if no gap is left. -/
theorem loads_all_iff (hs : s.WellFormed) (hd : Dated s st) :
    LoadsAll s hides st ↔ Contiguous s hides st := by
  have hperm : (s.historyBefore hides (pagingPoint st.messages)).Perm
      (s.rows.filter (Stream.inHistory hides (pagingPoint st.messages))) :=
    List.perm_insertionSort _ _
  have hfalling : Keyset.Falling Message.messageTimestamp
      (s.historyBefore hides (pagingPoint st.messages)) := Stream.falling_historyBefore _
  have hnodup := hperm.nodup_iff.2 ((List.Nodup.of_map _ hs.keyed).filter _)
  have hunsplit := Keyset.exists_mem_gather_iff hfalling (by decide : 0 < pageSize) hnodup
  rw [Keyset.unsplit_perm hperm] at hunsplit
  have hrow : ∀ r ∈ s.history hides, r ∈ s.rows := fun r hr => (List.mem_filter.1 hr).1
  by_cases hmore : st.hasMoreHistory = true
  · constructor
    · rintro ⟨k, st', hk, hall⟩
      rcases iterate_of_loadBack hk with ⟨-, n, rfl⟩
      refine ⟨fun r hr => ?_, fun h => absurd (hmore.symm.trans h) (by decide), fun _ => ?_⟩
      · refine ((held_iterate_isSome hs hd n (hrow r hr)).1 (hall r hr)).imp_right fun h => ?_
        exact ((mem_historyBefore_pagingPoint hd).1 (Keyset.mem_of_gather h)).2
      · refine hunsplit.1 ⟨n, fun r hr => ?_⟩
        rcases (mem_historyBefore_pagingPoint hd).1 hr with ⟨hin, hold⟩
        have hfree := held_of_older hd (hrow r hin) hold
        rcases (held_iterate_isSome hs hd n (hrow r hin)).1 (hall r hin) with h | h
        · rw [hfree] at h
          cases h
        · exact h
    · intro hc
      rcases hunsplit.2 (hc.unsplit hmore) with ⟨n, hn⟩
      rcases loadBack_of_iterate _ (iterate_done_flag hs hd) hmore with ⟨k, st', hk, hheld⟩
      refine ⟨k, st', hk, fun r hr => hheld n r.id ?_⟩
      refine (held_iterate_isSome hs hd n (hrow r hr)).2 ((hc.joined r hr).imp_right fun h => ?_)
      exact hn r ((mem_historyBefore_pagingPoint hd).2 ⟨hr, h⟩)
  · have hdone : st.hasMoreHistory = false := by simpa using hmore
    constructor
    · rintro ⟨k, st', hk, hall⟩
      -- Nothing is loaded.
      have hsame : st' = st := by
        cases k with
        | zero => cases hk
        | succ k =>
            rw [loadBack, if_neg hmore] at hk
            exact (Option.some.inj hk).symm
      rw [hsame] at hall
      exact ⟨fun r hr => Or.inl (hall r hr), fun _ => hall, fun h => absurd h hmore⟩
    · intro hc
      exact ⟨1, st, by rw [loadBack, if_neg hmore], hc.flagged hdone⟩

end Pages

/-! ### Runs -/

/-- A page before a timestamp does not end in the middle of a burst. -/
def Stream.EndsClean (s : Stream) (hides : WalletAddress → Bool) (before : Nat) : Prop :=
  ∀ r ∈ s.historyBefore hides before, r ∉ s.getMessages hides before pageSize →
    ∀ m ∈ s.getMessages hides before pageSize, r.messageTimestamp ≠ m.messageTimestamp

namespace Session

variable {hides : WalletAddress → Bool} {σ : Session}

theorem presentable_visit (σ : Session) (a : RoomAct) (h : σ.Presentable) (ha : σ.Timed a) :
    (visit hides σ a).Presentable := by
  cases a with
  | write m =>
      have hsound : (⟨σ.stream.apply m, σ.client⟩ : Session).Sound :=
        ⟨σ.stream.wellFormed_apply m h.sound.ordered, h.sound.keyed⟩
      exact ⟨hsound, dated_write σ m h ha, h.shown⟩
  | openRoom => exact presentable_step σ (.history 0 pageSize _) h trivial
  | loadOlder => exact presentable_step σ (.history _ pageSize _) h trivial
  | sync source =>
      refine presentable_grow σ _ h (RoomState.keyed_fold _ _ h.sound.keyed) fun m hm => ?_
      rcases RoomState.mem_fold hm with hm | ⟨hm, hkind⟩
      · exact Or.inl hm
      · rw [Stream.syncMessages_eq] at hm
        have hrow := (Stream.mem_pending.1 (List.mem_of_mem_take hm)).1
        exact Or.inr ⟨hrow, h.sound.ordered.displayable hrow hkind⟩
  | hydrate =>
      have hrows := RoomState.messages_reopen h.sound.keyed h.shown
      refine presentable_grow σ _ h ?_ fun m hm => ?_
      · rw [hrows]
        exact RoomState.keyed_capRows h.sound.keyed
      · rw [hrows] at hm
        exact Or.inl (RoomState.mem_capRows hm)
  | forgetRoom => exact presentable_grow σ _ h Table.keyed_nil fun m hm => by cases hm

/-- What is held is a window of the history: what is listed and not held is older than all of it,
    or is still to be synced. Where there is said to be no more, there is none. -/
structure Window (hides : WalletAddress → Bool) (σ : Session) : Prop where
  presentable : σ.Presentable
  behind : σ.client.cursor < σ.stream.nextSerial
  joined : ∀ r ∈ σ.stream.history hides, r.msgSerial ≤ σ.client.cursor →
    σ.client.held r.id = none → ∀ m ∈ σ.client.messages, r.messageTimestamp < m.messageTimestamp
  flagged : σ.client.hasMoreHistory = false → ∀ r ∈ σ.stream.history hides,
    r.msgSerial ≤ σ.client.cursor → (σ.client.held r.id).isSome

/-- The condition on an act. A page of the history does not end in the middle of a burst. A sync
    page is asked for from where the last one has ended; what it brings is newer than any message
    that is listed and neither held nor still to be synced, and a purge that it brings has left
    none of the messages listed. A snapshot is not taken ahead of the cursor and does not cut a
    burst, and there is said to be more if it cuts anything. -/
def KeepsWindow (hides : WalletAddress → Bool) (σ : Session) : RoomAct → Prop
  | .write _ | .forgetRoom => True
  | .openRoom => σ.stream.EndsClean hides 0
  | .loadOlder => σ.stream.EndsClean hides (pagingPoint σ.client.messages)
  | .sync source => source ≤ σ.client.cursor ∧
      ∀ e ∈ (σ.stream.syncMessages hides σ.client.cursor).1,
        (e.kind.isRenderable = true → ∀ r ∈ σ.stream.history hides,
          r.msgSerial ≤ σ.client.cursor → σ.client.held r.id = none →
            r.messageTimestamp < e.messageTimestamp) ∧
        (e.kind = .deleteAll → ∀ r ∈ σ.stream.history hides, e.msgSerial < r.msgSerial)
  | .hydrate => (∀ m ∈ σ.client.toCached.rows, m.msgSerial ≤ σ.client.cursor) ∧
      ∀ m ∈ σ.client.messages, m ∉ σ.client.toCached.rows →
        σ.client.hasMoreHistory = true ∧
          ∀ x ∈ σ.client.toCached.rows, m.messageTimestamp ≠ x.messageTimestamp

theorem window_start {now : Nat} (h : 0 < now) : (start now).Window hides where
  presentable := presentable_start h
  behind := h
  joined := fun _ hr => by cases hr
  flagged := fun _ _ hr => by cases hr

theorem window_write {m : Mutation} (h : σ.Window hides) (hm : σ.Timed (.write m)) :
    (visit hides σ (.write m)).Window hides := by
  -- A row that has been synced is as it was.
  have hold : ∀ r ∈ (σ.stream.apply m).history hides, r.msgSerial ≤ σ.client.cursor →
      r ∈ σ.stream.history hides := by
    intro r hr hle
    rcases List.mem_filter.1 hr with ⟨hrow, hshown⟩
    rcases Stream.mem_apply h.presentable.sound.ordered hrow with hrow | hnew
    · exact List.mem_filter.2 ⟨hrow, hshown⟩
    · have hlt := h.behind
      omega
  refine ⟨presentable_visit σ _ h.presentable hm, ?_, ?_, ?_⟩
  · exact lt_of_lt_of_le h.behind (σ.stream.nextSerial_le_apply m)
  · exact fun r hr hle => h.joined r (hold r hr hle) hle
  · exact fun hflag r hr hle => h.flagged hflag r (hold r hr hle) hle

/-- A page of the history, from the newest row on or from the oldest row held. -/
theorem window_history (h : σ.Window hides) {before : Nat} {hasMore : Bool}
    (hbefore : before = 0 ∨ before = pagingPoint σ.client.messages)
    (hclean : σ.stream.EndsClean hides before)
    (hflag : hasMore = false → ∀ r ∈ σ.stream.historyBefore hides before,
      r ∈ σ.stream.getMessages hides before pageSize) :
    (step hides σ (.history before pageSize hasMore)).Window hides := by
  have hheld : ∀ id, (step hides σ (.history before pageSize hasMore)).client.held id =
      (σ.client.held id).or
        (Table.lookup Message.id id (σ.stream.getMessages hides before pageSize)) :=
    fun id => RoomState.held_mergeHistory _ _ (fun _ hm => Stream.displayable_getMessages hm) id
  have hcursor : (step hides σ (.history before pageSize hasMore)).client.cursor =
      σ.client.cursor := RoomState.cursor_takeHistory _ _ _
  -- What is listed and synced and not held is in the history that the page is from.
  have hfrom : ∀ r ∈ σ.stream.history hides, r.msgSerial ≤ σ.client.cursor →
      σ.client.held r.id = none → r ∈ σ.stream.historyBefore hides before := by
    intro r hr hle hnone
    rcases hbefore with rfl | rfl
    · exact Stream.mem_historyBefore.2 ⟨hr, Or.inl rfl⟩
    · exact (mem_historyBefore_pagingPoint h.presentable.dated).2 ⟨hr, h.joined r hr hle hnone⟩
  refine ⟨presentable_step σ _ h.presentable trivial, ?_, fun r hr hle hnone m hm => ?_,
    fun hmore r hr hle => ?_⟩
  · rw [hcursor]
    exact h.behind
  · rw [hcursor] at hle
    rw [hheld, Option.or_eq_none_iff] at hnone
    rcases RoomState.mem_mergeHistory hm with hm | hm
    · exact h.joined r hr hle hnone.1 m hm
    · have hbehind := hfrom r hr hle hnone.1
      have hpage : r ∉ σ.stream.getMessages hides before pageSize :=
        fun hin => Table.lookup_eq_none.1 hnone.2 r hin rfl
      have hshown : r ∈ σ.stream.rows ∧ Stream.inHistory hides before r = true := by
        rw [Stream.historyBefore, List.mem_insertionSort] at hbehind
        exact List.mem_filter.1 hbehind
      rcases Stream.mem_or_older_getMessages hshown.1 hshown.2 hm with hin | hle
      · exact absurd hin hpage
      · exact lt_of_le_of_ne hle (hclean r hbehind hpage m hm)
  · rw [hcursor] at hle
    rw [hheld, Option.isSome_or, Bool.or_eq_true]
    rcases hnone : σ.client.held r.id with _ | x
    · have hpage := hflag hmore r (hfrom r hr hle hnone)
      exact Or.inr (Table.lookup_isSome.2 ⟨r, hpage, rfl⟩)
    · exact Or.inl rfl

theorem window_openRoom (h : σ.Window hides) (hk : σ.KeepsWindow hides .openRoom) :
    (visit hides σ .openRoom).Window hides := by
  refine window_history h (Or.inl rfl) hk fun hmore r hr => ?_
  -- A page that is not full has everything.
  have hshort : (σ.stream.getMessages hides 0 pageSize).length < pageSize :=
    Nat.not_le.1 (of_decide_eq_false hmore)
  rw [Stream.getMessages_eq, List.length_reverse, List.length_take] at hshort
  rw [Stream.getMessages_eq, List.mem_reverse, List.take_of_length_le (by omega)]
  exact hr

theorem window_loadOlder (h : σ.Window hides) (hk : σ.KeepsWindow hides .loadOlder) :
    (visit hides σ .loadOlder).Window hides := by
  refine window_history h (Or.inr rfl) hk fun hmore r hr => ?_
  -- An empty page is before everything.
  have hempty : Exhausted σ.stream hides σ.client := hasMoreHistory_loadOlder.1 hmore
  rw [Exhausted, Stream.getMessages_eq_nil (by decide)] at hempty
  have hin : r ∈ σ.stream.rows.filter
      (Stream.inHistory hides (pagingPoint σ.client.messages)) := (List.mem_insertionSort _).1 hr
  rw [hempty] at hin
  cases hin

-- A purge marker is what takes the flag down.
theorem hasMoreHistory_fold {st : RoomState} {es : List Message}
    (h : ∀ e ∈ es, e.kind ≠ .deleteAll) : (st.fold es).hasMoreHistory = st.hasMoreHistory := by
  induction es generalizing st with
  | nil => rfl
  | cons e es ih =>
      rw [RoomState.fold_cons, ih fun x hx => h x (List.mem_cons_of_mem e hx)]
      have he := h e List.mem_cons_self
      unfold RoomState.foldOne
      cases hk : e.kind with
      | deleteAll => exact absurd hk he
      | emoticonAdd | emoticonRemove => cases e.reaction? <;> rfl
      | add | edit | delete | unknown => rfl

/-- The rows of the next sync page. -/
def nextPage (hides : WalletAddress → Bool) (σ : Session) : List Message :=
  (σ.stream.pending hides σ.client.cursor).take syncLimit

theorem mem_nextPage {e : Message} (he : e ∈ σ.nextPage hides) :
    e ∈ σ.stream.rows ∧ σ.client.cursor < e.msgSerial := by
  rcases Stream.mem_pending.1 (List.mem_of_mem_take he) with ⟨hrow, hlt, -⟩
  exact ⟨hrow, hlt⟩

-- A message that is listed is removed by no row but a purge marker.
theorem not_removes (h : σ.Window hides) {r e : Message} (hr : r ∈ σ.stream.history hides)
    (he : e ∈ σ.stream.rows) (hpurge : e.kind = .deleteAll → e.msgSerial < r.msgSerial)
    (hle : r.msgSerial ≤ e.msgSerial) : ¬ e.Removes r.id := by
  rintro (hall | ⟨hdel, hid⟩)
  · have hlt := hpurge hall
    omega
  · rcases List.mem_filter.1 hr with ⟨hrow, hshown⟩
    rw [h.presentable.sound.ordered.eq_of_id he hrow hid] at hdel
    simp only [Stream.inHistory, Message.displayable, hdel, MsgKind.isRenderable,
      Bool.false_and] at hshown
    cases hshown

/-- After a sync page a message that is listed is held if the page brings it, and if it was held
    before. -/
theorem held_sync (h : σ.Window hides)
    (hpurge : ∀ e ∈ σ.nextPage hides, e.kind = .deleteAll → ∀ r ∈ σ.stream.history hides,
      e.msgSerial < r.msgSerial) {r : Message} (hr : r ∈ σ.stream.history hides)
    (hfrom : r ∈ σ.nextPage hides ∨
      (r.msgSerial ≤ σ.client.cursor ∧ (σ.client.held r.id).isSome)) :
    ((σ.client.fold (σ.nextPage hides)).held r.id).isSome := by
  have hs := h.presentable.sound.ordered
  rcases hfrom with hin | ⟨hle, hheld⟩
  · have hsorted : (σ.nextPage hides).Pairwise fun a b => a.msgSerial < b.msgSerial :=
      (Stream.pending_sorted hs hides _).sublist (List.take_sublist _ _)
    rcases List.append_of_mem hin with ⟨front, back, hpage⟩
    rw [hpage] at hsorted
    have hbehind := (List.pairwise_cons.1 (List.pairwise_append.1 hsorted).2.1).1
    have hmem : ∀ e ∈ back, e ∈ σ.nextPage hides := fun e he => by
      rw [hpage]
      exact List.mem_append_right _ (List.mem_cons_of_mem r he)
    rw [hpage, RoomState.fold_append, RoomState.fold_cons]
    refine RoomState.isSome_fold _ (fun e he => ?_) ?_
    · exact not_removes h hr (mem_nextPage (hmem e he)).1
        (fun hk => hpurge e (hmem e he) hk r hr) (hbehind e he).le
    · -- The row itself puts the message there.
      have hshown := (List.mem_filter.1 hr).2
      rw [RoomState.held_foldOne]
      cases hk : r.kind with
      | add | edit => simp
      | delete | deleteAll | emoticonAdd | emoticonRemove | unknown =>
          simp only [Stream.inHistory, Message.displayable, hk, MsgKind.isRenderable,
            Bool.false_and] at hshown
          cases hshown
  · refine RoomState.isSome_fold _ (fun e he => ?_) hheld
    have hlt := (mem_nextPage he).2
    exact not_removes h hr (mem_nextPage he).1 (fun hk => hpurge e he hk r hr) (by omega)

theorem window_sync {source : Nat} (h : σ.Window hides)
    (hk : σ.KeepsWindow hides (.sync source)) : (visit hides σ (.sync source)).Window hides := by
  have hs := h.presentable.sound.ordered
  rcases hk with ⟨hsource, hk⟩
  rw [Stream.syncMessages_eq] at hk
  have hpurge : ∀ e ∈ σ.nextPage hides, e.kind = .deleteAll → ∀ r ∈ σ.stream.history hides,
      e.msgSerial < r.msgSerial := fun e he => (hk e he).2
  have hclient : (visit hides σ (.sync source)).client = σ.client.fold (σ.nextPage hides) := by
    rw [visit, max_eq_left hsource, Stream.syncMessages_eq]
    rfl
  have hcursor : (visit hides σ (.sync source)).client.cursor =
      max σ.client.cursor (highestSerial (σ.nextPage hides)) := by
    rw [hclient, RoomState.cursor_fold]
  -- What has been synced now is on the page, or had been synced before.
  have hsynced : ∀ r ∈ σ.stream.history hides,
      r.msgSerial ≤ (visit hides σ (.sync source)).client.cursor →
      r ∈ σ.nextPage hides ∨ r.msgSerial ≤ σ.client.cursor := by
    intro r hr hle
    rw [hcursor] at hle
    rcases List.mem_filter.1 hr with ⟨hrow, hshown⟩
    have hvis : hides r.senderAddress = false := by
      unfold Stream.inHistory at hshown
      simp only [Bool.and_eq_true, Bool.not_eq_true'] at hshown
      exact hshown.2
    by_cases hold : r.msgSerial ≤ σ.client.cursor
    · exact Or.inr hold
    · exact Or.inl (Stream.mem_take_pending hs hrow hvis (by omega)
        ((le_max_iff.1 hle).resolve_left hold))
  refine ⟨presentable_visit σ _ h.presentable trivial, ?_, fun r hr hle hnone m hm => ?_,
    fun hmore r hr hle => ?_⟩
  · rw [hcursor]
    refine max_lt h.behind (highestSerial_lt (Nat.zero_lt_of_lt h.behind) fun e he => ?_)
    exact hs.below e (mem_nextPage he).1
  · rw [hclient] at hnone hm
    -- It is not on the page, and was not held before.
    have hfree : ∀ {P : Prop}, (P → ((σ.client.fold (σ.nextPage hides)).held r.id).isSome) → ¬ P :=
      fun himp hp => by
        have hsome := himp hp
        rw [hnone] at hsome
        cases hsome
    have hpage : r ∉ σ.nextPage hides := hfree fun hin => held_sync h hpurge hr (Or.inl hin)
    have hold := (hsynced r hr hle).resolve_left hpage
    have hbefore : σ.client.held r.id = none := by
      have hnot := hfree fun hsome => held_sync h hpurge hr (Or.inr ⟨hold, hsome⟩)
      simpa using hnot
    rcases RoomState.mem_fold hm with hm | ⟨hm, hkind⟩
    · exact h.joined r hr hold hbefore m hm
    · exact (hk m hm).1 hkind r hr hold hbefore
  · rw [hclient] at hmore ⊢
    refine held_sync h hpurge hr ((hsynced r hr hle).imp_right fun hold => ⟨hold, ?_⟩)
    -- A purge on the page would be numbered before the row.
    have hno : ∀ e ∈ σ.nextPage hides, e.kind ≠ .deleteAll := by
      intro e he hkind
      have hlt := hpurge e he hkind r hr
      have hpending := (mem_nextPage he).2
      omega
    rw [hasMoreHistory_fold hno] at hmore
    exact h.flagged hmore r hr hold

-- What a snapshot cuts is no newer than what it keeps.
theorem older_of_cut {rows : List Message} {m x : Message} (hm : m ∈ RoomState.capRows rows)
    (hx : x ∈ rows) (hcut : x ∉ RoomState.capRows rows) :
    x.messageTimestamp ≤ m.messageTimestamp := by
  have hsorted := Stream.newestFirst_sorted rows
  have hmem : x ∈ rows.insertionSort Message.newestFirst := (List.mem_insertionSort _).2 hx
  rw [RoomState.capRows, List.mem_reverse] at hm hcut
  rw [← List.take_append_drop maxRows (rows.insertionSort Message.newestFirst)] at hsorted hmem
  have hdrop := (List.mem_append.1 hmem).resolve_left hcut
  have hnewer := (List.pairwise_append.1 hsorted).2.2 m hm x hdrop
  unfold Message.newestFirst at hnewer
  omega

theorem window_hydrate (h : σ.Window hides) (hk : σ.KeepsWindow hides .hydrate) :
    (visit hides σ .hydrate).Window hides := by
  rcases hk with ⟨hserials, hcut⟩
  have hmessages : (visit hides σ .hydrate).client.messages = σ.client.toCached.rows :=
    RoomState.messages_reopen h.presentable.sound.keyed h.presentable.shown
  have hkeyed : Table.Keyed Message.id σ.client.toCached.rows :=
    RoomState.keyed_capRows h.presentable.sound.keyed
  have hcursor : (visit hides σ .hydrate).client.cursor = σ.client.cursor := by
    refine RoomState.cursor_reopen.trans (max_eq_right ?_)
    by_cases hnil : σ.client.toCached.rows = []
    · rw [hnil]
      exact Nat.zero_le _
    · rcases highestSerial_mem hnil with ⟨m, hm, hmax⟩
      rw [← hmax]
      exact hserials m hm
  have hkept : ∀ {x}, x ∈ σ.client.toCached.rows →
      (visit hides σ .hydrate).client.held x.id = some x := by
    intro x hx
    rw [RoomState.held, hmessages]
    exact Table.lookup_of_mem hkeyed hx
  refine ⟨presentable_visit σ _ h.presentable trivial, ?_, fun r hr hle hnone m hm => ?_,
    fun hmore r hr hle => ?_⟩
  · rw [hcursor]
    exact h.behind
  · rw [hcursor] at hle
    rw [hmessages] at hm
    rcases hheld : σ.client.held r.id with _ | x
    · exact h.joined r hr hle hheld m (RoomState.mem_capRows hm)
    · -- The message was held and has been cut.
      have hx : x ∈ σ.client.messages := Table.mem_of_lookup hheld
      have hid : x.id = r.id := Table.key_of_lookup hheld
      have hgone : x ∉ σ.client.toCached.rows := by
        intro hin
        have hsome := hkept hin
        rw [hid, hnone] at hsome
        cases hsome
      rw [← h.presentable.dated.same x hx r (List.mem_filter.1 hr).1 hid]
      exact lt_of_le_of_ne (older_of_cut hm hx hgone) ((hcut x hx hgone).2 m hm)
  · rw [hcursor] at hle
    have hflag : σ.client.hasMoreHistory = false := RoomState.hasMoreHistory_reopen.symm.trans hmore
    rcases Option.isSome_iff_exists.1 (h.flagged hflag r hr hle) with ⟨x, hheld⟩
    have hx : x ∈ σ.client.messages := Table.mem_of_lookup hheld
    have hin : x ∈ σ.client.toCached.rows := by
      by_contra hgone
      exact absurd (hflag.symm.trans (hcut x hx hgone).1) (by decide)
    have hid : x.id = r.id := Table.key_of_lookup hheld
    rw [← hid, hkept hin]
    rfl

theorem window_forgetRoom (h : σ.Window hides) : (visit hides σ .forgetRoom).Window hides := by
  -- No row is numbered zero.
  have hnone : ∀ r ∈ σ.stream.history hides, ¬ r.msgSerial ≤ 0 := by
    intro r hr hle
    have hpos := h.presentable.sound.ordered.positive r (List.mem_filter.1 hr).1
    omega
  refine ⟨presentable_visit σ _ h.presentable trivial, Nat.zero_lt_of_lt h.behind, ?_, ?_⟩
  · exact fun r hr hle => absurd hle (hnone r hr)
  · exact fun _ r hr hle => absurd hle (hnone r hr)

/-- Acts that meet the condition keep the window. -/
theorem window_step (σ : Session) (a : RoomAct) (h : σ.Window hides)
    (ha : σ.Timed a ∧ σ.KeepsWindow hides a) : (visit hides σ a).Window hides := by
  cases a with
  | write m => exact window_write h ha.1
  | openRoom => exact window_openRoom h ha.2
  | sync source => exact window_sync h ha.2
  | loadOlder => exact window_loadOlder h ha.2
  | hydrate => exact window_hydrate h ha.2
  | forgetRoom => exact window_forgetRoom h

/-- Where nothing is left to be synced, a window leaves no gap. -/
theorem contiguous_of_window (h : σ.Window hides)
    (hsynced : ∀ r ∈ σ.stream.history hides, r.msgSerial ≤ σ.client.cursor)
    (hunsplit : Keyset.Unsplit Message.messageTimestamp
      (σ.stream.rows.filter (Stream.inHistory hides (pagingPoint σ.client.messages))) pageSize) :
    Contiguous σ.stream hides σ.client := by
  refine ⟨fun r hr => ?_, fun hmore r hr => h.flagged hmore r hr (hsynced r hr),
    fun _ => hunsplit⟩
  rcases hheld : σ.client.held r.id with _ | x
  · exact Or.inr (h.joined r hr (hsynced r hr) hheld)
  · exact Or.inl rfl

end Session

/-- In every state that a client reaches, loading older pages until there is no more leaves nothing
    out exactly if no gap is left. If all steps of the run keep the window, no gap is left in any
    state in which nothing is left to be synced. -/
theorem backward_loading_iff (hides : WalletAddress → Bool) (now : Nat) (acts : List RoomAct)
    (hnow : 0 < now)
    (hacts : Run.Along (Session.visit hides) Session.Timed (Session.start now) acts) :
    (LoadsAll (Session.visited hides now acts).stream hides
        (Session.visited hides now acts).client ↔
      Contiguous (Session.visited hides now acts).stream hides
        (Session.visited hides now acts).client) ∧
    (Run.Along (Session.visit hides) (Session.KeepsWindow hides) (Session.start now) acts →
      (∀ r ∈ (Session.visited hides now acts).stream.history hides,
        r.msgSerial ≤ (Session.visited hides now acts).client.cursor) →
      Keyset.Unsplit Message.messageTimestamp
        ((Session.visited hides now acts).stream.rows.filter (Stream.inHistory hides
          (pagingPoint (Session.visited hides now acts).client.messages))) pageSize →
      LoadsAll (Session.visited hides now acts).stream hides
        (Session.visited hides now acts).client) := by
  have h : (Session.visited hides now acts).Presentable :=
    Run.along_inv Session.presentable_visit _ acts (Session.presentable_start hnow) hacts
  have hiff : LoadsAll (Session.visited hides now acts).stream hides
      (Session.visited hides now acts).client ↔ _ := loads_all_iff h.sound.ordered h.dated
  refine ⟨hiff, fun hkeeps hsynced hunsplit => hiff.2 ?_⟩
  have hw : (Session.visited hides now acts).Window hides :=
    Run.along_inv Session.window_step _ acts (Session.window_start hnow)
      (Run.along_both _ acts hacts hkeeps)
  exact Session.contiguous_of_window hw hsynced hunsplit

namespace Sample

/-- So many messages, a millisecond apart. -/
def notes (n : Nat) : List RoomAct :=
  (List.range n).map fun i => .write (.createMessage (1000 + i) (note (toString i) alice))

theorem backward_loading_opened :
    LoadsAll (Session.visited nobody 1000 (notes 52 ++ [.openRoom])).stream nobody
      (Session.visited nobody 1000 (notes 52 ++ [.openRoom])).client := by
  have hiff := (backward_loading_iff nobody 1000 (notes 52 ++ [.openRoom]) (by decide)
    (by decide +kernel)).1
  exact hiff.2 ⟨by decide +kernel, by decide +kernel, by decide +kernel⟩

/-- The client has synced all messages and forgets the room. It opens it again with the newest
    page, and goes on from the cursor it has kept. Then somebody edits the first message. -/
def editedFirst : List RoomAct :=
  notes 52 ++ [.sync 0, .forgetRoom, .openRoom, .write (.updateMessage 2000 ⟨"0"⟩ plainEdit),
    .sync 1051]

/-- The second message is never loaded: it is newer than the first and older than the newest
    page. -/
theorem edit_leaves_gap : ¬ ∀ hides now acts, 0 < now →
    Run.Along (Session.visit hides) Session.Timed (Session.start now) acts →
      LoadsAll (Session.visited hides now acts).stream hides
        (Session.visited hides now acts).client := by
  intro h
  rcases h nobody 1000 editedFirst (by decide) (by decide +kernel) with ⟨n, st', hload, hall⟩
  have hend : (Session.visited nobody 1000 editedFirst).client.hasMoreHistory = true ∧
      (loadOlder (Session.visited nobody 1000 editedFirst).stream nobody
        (Session.visited nobody 1000 editedFirst).client).hasMoreHistory = false ∧
      ∃ r ∈ (Session.visited nobody 1000 editedFirst).stream.history nobody,
        ((loadOlder (Session.visited nobody 1000 editedFirst).stream nobody
          (Session.visited nobody 1000 editedFirst).client).held r.id).isSome = false := by
    decide +kernel
  rcases hend with ⟨hmore, hdone, r, hr, hfree⟩
  -- One page is loaded, and it is empty.
  rcases n with _ | _ | n
  · cases hload
  · rw [loadBack, if_pos hmore] at hload
    cases hload
  · rw [loadBack, if_pos hmore, loadBack, hdone, if_neg (by decide)] at hload
    have hheld := hall r hr
    rw [← Option.some.inj hload, hfree] at hheld
    cases hheld

end Sample

end PocketSkynet
