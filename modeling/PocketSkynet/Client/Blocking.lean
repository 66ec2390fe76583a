import PocketSkynet.Client.Seen

/-!
# Blocking

A viewer blocks and unblocks people while the room goes on. The server leaves the rows of whom
the viewer blocks out of what it sends; the client leaves out of what it shows whoever is on its
own list, which it fetches now and then, and to which those who block the viewer belong too. What
a client shows that has drained is compared with what a client shows that starts from nothing,
with the same lists.

The server drops rows by their sender, and the cursor moves on past them. So a purge by somebody
blocked is never heard of, although it takes away what others wrote; and what somebody did while
they were blocked is not sent any more once they are not. `Viewing.NothingLost` is the condition
under which neither matters.

## Main definitions

* `RoomState.ordered`, `RoomState.reactionsFor`: What is shown.
* `Viewing`, `Viewing.step`: A room, a client of it, and the lists.
* `Viewing.ShowsFresh`: The client shows what a fresh one would.
* `Viewing.NothingLost`: The condition on a step.

## Theorems

* `Viewing.inv_step`: Steps that meet the condition let the client follow.
* `Viewing.blocking_hides_only`: Then blocking hides messages and nothing else.
* `Sample.blocking_loses`: A purge that is not heard of, and a message that is not sent again.
-/

namespace PocketSkynet

namespace RoomState

/-- Messages in display order, without those of hidden senders. -/
def ordered (st : RoomState) (hides : WalletAddress → Bool) : List Message :=
  (st.messages.filter fun m => !hides m.senderAddress).insertionSort
    fun a b => Message.newestFirst b a

/-- Visible reactions for a message, with hidden reactors removed. -/
def reactionsFor (st : RoomState) (id : MessageId) (hides : WalletAddress → Bool) :
    Finset Reaction :=
  st.reactions.filter fun τ => τ.target = id ∧ hides τ.sender = false

/-- The same messages in the same order, and under each the same reactions. -/
def ShowsSame (hides : WalletAddress → Bool) (st st' : RoomState) : Prop :=
  st.ordered hides = st'.ordered hides ∧
    ∀ m ∈ st.ordered hides, st.reactionsFor m.id hides = st'.reactionsFor m.id hides

instance (hides : WalletAddress → Bool) (st st' : RoomState) :
    Decidable (ShowsSame hides st st') :=
  inferInstanceAs (Decidable (_ ∧ ∀ m ∈ st.ordered hides, _))

end RoomState

/-- Whether content from this address should be hidden. -/
def hiddenBy (blocks : List WalletAddress) (who : WalletAddress) : Bool := decide (who ∈ blocks)

/-- A room, the viewer's client, whom the viewer blocks and who blocks the viewer, and the list
    the client has of both. -/
structure Viewing where
  stream : Stream
  client : RoomState
  blocked : List WalletAddress
  blockedBy : List WalletAddress
  blocks : List WalletAddress
deriving DecidableEq

namespace Viewing

/-- What can happen: somebody writes, the client asks for a page, or the lists change. -/
inductive Act where
  | write (m : Mutation)
  | sync
  | history (before limit : Nat) (hasMore : Bool)
  | block (who : WalletAddress)
  | unblock (who : WalletAddress)
  | blockedBy (who : WalletAddress) (blocked : Bool)
  -- either list may fail to load, and counts as empty then
  | refreshBlocks (mine theirs : Bool)
deriving DecidableEq, Repr

/-- Whom the server hides from the viewer. -/
def hides (σ : Viewing) : WalletAddress → Bool := hiddenBy σ.blocked

def step (σ : Viewing) : Act → Viewing
  | .write m => { σ with stream := σ.stream.apply m }
  | .sync =>
      { σ with client := σ.client.fold (σ.stream.syncMessages σ.hides σ.client.cursor).1 }
  | .history before limit hasMore =>
      { σ with
        client := σ.client.takeHistory (σ.stream.getMessages σ.hides before limit) hasMore }
  | .block who => { σ with blocked := σ.blocked.insert who }
  | .unblock who => { σ with blocked := σ.blocked.filter fun a => a ≠ who }
  | .blockedBy who blocked =>
      { σ with
        blockedBy := if blocked then σ.blockedBy.insert who
          else σ.blockedBy.filter fun a => a ≠ who }
  | .refreshBlocks mine theirs =>
      { σ with
        blocks := (if mine then σ.blocked else []) ++ if theirs then σ.blockedBy else [] }

/-- A room created at `now` and a viewer who has not looked at it. -/
def start (now : Nat) : Viewing := ⟨Stream.create now, RoomState.empty, [], [], []⟩

/-- The client's list is the server's. -/
def UpToDate (σ : Viewing) : Prop :=
  (∀ a ∈ σ.blocks, a ∈ σ.blocked ++ σ.blockedBy) ∧ ∀ a ∈ σ.blocked ++ σ.blockedBy, a ∈ σ.blocks

instance (σ : Viewing) : Decidable σ.UpToDate := inferInstanceAs (Decidable (_ ∧ _))

/-- With its list up to date and after a drain, the client shows what a fresh client would. -/
def ShowsFresh (σ : Viewing) : Prop :=
  σ.UpToDate → ∀ requests, (σ.stream.pending σ.hides 0).length ≤ syncLimit * requests →
    RoomState.ShowsSame (hiddenBy σ.blocks)
      (drainSync σ.stream σ.hides requests σ.client.cursor σ.client)
      (drainSync σ.stream σ.hides requests 0 RoomState.empty)

end Viewing

/-- Who purges the room by a write. -/
def Mutation.purger : Mutation → Option WalletAddress
  | .deleteAllMessages _ caller _ => some caller
  | _ => none

namespace Viewing

/-- Nothing is lost by a step. A write is aimed at a row it is meant for, and somebody blocked
    purges the room only when the client holds nothing of those who are not. Somebody is blocked
    only if no purge of theirs is pending that took what the client holds of others, and
    unblocked only if what the cursor has passed of theirs has been taken in, or a purge is
    pending that will clear it. -/
def NothingLost (σ : Viewing) : Act → Prop
  | .write m => m.OnMessages σ.stream ∧
      ∀ caller ∈ m.purger, σ.hides caller = true → HoldsNone σ.hides σ.client
  | .block who => who ∉ σ.blocked →
      (∃ x ∈ σ.stream.rows, x.kind = .deleteAll ∧ x.senderAddress = who ∧
        σ.client.cursor < x.msgSerial) →
      Swept (step σ (.block who)).hides σ.stream σ.client
  | .unblock who => who ∈ σ.blocked →
      (σ.stream.seen (step σ (.unblock who)).hides).MarkersFolded σ.client.cursor →
      TakenIn σ.stream σ.client who
  | _ => True

instance (s : Stream) (cursor : Nat) : Decidable (s.MarkersFolded cursor) :=
  inferInstanceAs (Decidable (∀ m ∈ s.rows, m.kind = .deleteAll → m.msgSerial ≤ cursor))

instance (σ : Viewing) : DecidablePred σ.NothingLost
  | .write m => inferInstanceAs (Decidable (m.OnMessages σ.stream ∧
      ∀ caller ∈ m.purger, σ.hides caller = true → HoldsNone σ.hides σ.client))
  | .block _ => inferInstanceAs (Decidable (_ → _ → Swept ..))
  | .unblock _ => inferInstanceAs (Decidable (_ → _ → TakenIn ..))
  | .sync | .history .. | .blockedBy .. | .refreshBlocks .. => inferInstanceAs (Decidable True)

end Viewing

/-! ### What is shown -/

section Shown

variable {s : Stream} {st st' : RoomState} {hides display : WalletAddress → Bool}

/-- What a client that follows and has drained holds of those who are not hidden. -/
theorem mem_shown (hf : Follows hides s st)
    (hdone : ∀ r ∈ (s.seen hides).rows, r.msgSerial ≤ st.cursor) (m : Message)
    (hvis : hides m.senderAddress = false) :
    m ∈ st.messages ↔ m ∈ s.rows ∧ m.displayable = true := by
  have hmarkers : (s.seen hides).MarkersFolded st.cursor := fun x hx _ => hdone x hx
  constructor
  · intro hm
    rcases hf.owned m hm hvis with ⟨r, hr, hid, hmsg, hsender⟩ | hnot
    · have hrseen : r ∈ (s.seen hides).rows := by
        rw [Stream.mem_seen, hsender]
        exact ⟨hr, hvis⟩
      have hheld := hf.messages hmarkers r hrseen hmsg (hdone r hrseen)
      rw [hid, RoomState.held, Table.lookup_of_mem hf.keyed hm] at hheld
      cases hd : r.displayable with
      | true =>
          rw [hd, if_pos rfl] at hheld
          rw [Option.some.inj hheld]
          exact ⟨hr, hd⟩
      | false =>
          rw [hd, if_neg Bool.false_ne_true] at hheld
          cases hheld
    · exact absurd hmarkers hnot
  · rintro ⟨hr, hd⟩
    have hrseen : m ∈ (s.seen hides).rows := Stream.mem_seen.2 ⟨hr, hvis⟩
    have hheld := hf.messages hmarkers m hrseen (Message.isMessage_of_displayable hd)
      (hdone m hrseen)
    rw [hd, if_pos rfl] at hheld
    exact Table.mem_of_lookup hheld

-- And of their reactions to what it shows.
theorem mem_reactions_shown (hs : s.Regular) (hf : Follows hides s st)
    (hdone : ∀ r ∈ (s.seen hides).rows, r.msgSerial ≤ st.cursor) {m : Message}
    (hm : m ∈ s.rows) (hd : m.displayable = true) (τ : Reaction) (htarget : τ.target = m.id)
    (hvis : hides τ.sender = false) : τ ∈ st.reactions ↔ Reacts s.rows τ := by
  rw [← reacts_seen hvis]
  refine hf.reactions (fun x hx _ => hdone x hx) τ hvis ?_ fun r hr _ _ => hdone r hr
  intro r hr hid hdel
  rw [hs.wellFormed.eq_of_id hr hm (hid.trans htarget)] at hdel
  simp [Message.displayable, MsgKind.isRenderable, hdel] at hd

-- Rows with different serials have one order.
theorem ordered_eq (hs : s.WellFormed) (hk : Table.Keyed Message.id st.messages)
    (hk' : Table.Keyed Message.id st'.messages)
    (hmem : ∀ m, display m.senderAddress = false → (m ∈ st.messages ↔ m ∈ st'.messages))
    (hrows : ∀ m ∈ st.messages, display m.senderAddress = false → m ∈ s.rows) :
    st.ordered display = st'.ordered display := by
  have hsame : ∀ m, m ∈ st.messages.filter (fun m => !display m.senderAddress) ↔
      m ∈ st'.messages.filter fun m => !display m.senderAddress := by
    intro m
    rw [List.mem_filter, List.mem_filter, Bool.not_eq_true']
    exact and_congr_left fun hvis => hmem m hvis
  have hsorted : ∀ l : List Message,
      (l.insertionSort fun a b => Message.newestFirst b a).Pairwise
        fun a b => Message.newestFirst b a := by
    intro l
    have : IsTrans Message fun a b => Message.newestFirst b a :=
      ⟨fun a b c hab hbc => Message.newestFirst_trans c b a hbc hab⟩
    have : Std.Total fun a b => Message.newestFirst b a :=
      ⟨fun a b => Message.newestFirst_total b a⟩
    exact List.pairwise_insertionSort _ _
  refine List.Perm.eq_of_pairwise (fun a b ha hb hab hba => ?_) (hsorted _) (hsorted _) ?_
  · rw [RoomState.ordered, List.mem_insertionSort] at ha hb
    rw [← hsame] at hb
    rw [List.mem_filter, Bool.not_eq_true'] at ha hb
    refine hs.eq_of_serial (hrows a ha.1 ha.2) (hrows b hb.1 hb.2) ?_
    unfold Message.newestFirst at hab hba
    omega
  · refine (List.perm_insertionSort _ _).trans (List.Perm.trans ?_
      (List.perm_insertionSort _ _).symm)
    have hnodup := (List.Nodup.of_map _ hk).filter fun m => !display m.senderAddress
    have hnodup' := (List.Nodup.of_map _ hk').filter fun m => !display m.senderAddress
    exact (List.perm_ext_iff_of_nodup hnodup hnodup').2 hsame

/-- Two clients that follow and have drained show the same. -/
theorem showsSame_of_follows (hs : s.Regular) (hf : Follows hides s st)
    (hf' : Follows hides s st') (hdone : ∀ r ∈ (s.seen hides).rows, r.msgSerial ≤ st.cursor)
    (hdone' : ∀ r ∈ (s.seen hides).rows, r.msgSerial ≤ st'.cursor)
    (hdisplay : ∀ a, display a = false → hides a = false) :
    RoomState.ShowsSame display st st' := by
  have hordered : st.ordered display = st'.ordered display := by
    refine ordered_eq hs.wellFormed hf.keyed hf'.keyed (fun m hvis => ?_) fun m hm hvis => ?_
    · rw [mem_shown hf hdone m (hdisplay _ hvis), mem_shown hf' hdone' m (hdisplay _ hvis)]
    · exact ((mem_shown hf hdone m (hdisplay _ hvis)).1 hm).1
  refine ⟨hordered, fun m hm => ?_⟩
  rw [RoomState.ordered, List.mem_insertionSort, List.mem_filter, Bool.not_eq_true'] at hm
  rcases (mem_shown hf hdone m (hdisplay _ hm.2)).1 hm.1 with ⟨hrow, hd⟩
  ext τ
  rw [RoomState.reactionsFor, RoomState.reactionsFor, Finset.mem_filter, Finset.mem_filter]
  refine and_congr_left fun h => ?_
  rw [mem_reactions_shown hs hf hdone hrow hd τ h.1 (hdisplay _ h.2),
    mem_reactions_shown hs hf' hdone' hrow hd τ h.1 (hdisplay _ h.2)]

end Shown

/-! ### Runs -/

namespace Viewing

/-- The client follows what it sees of a regular stream. -/
structure Inv (σ : Viewing) : Prop where
  regular : σ.stream.Regular
  follows : Follows σ.hides σ.stream σ.client

theorem inv_start {now : Nat} (h : 0 < now) : (start now).Inv :=
  ⟨regular_create h, follows_empty (regular_create h) _⟩

theorem hides_eq_false {blocked : List WalletAddress} {a : WalletAddress} :
    hiddenBy blocked a = false ↔ a ∉ blocked := decide_eq_false_iff_not

/-- A step that loses nothing lets the client follow. -/
theorem inv_step (σ : Viewing) (a : Act) (hi : σ.Inv) (hlost : σ.NothingLost a) :
    (step σ a).Inv := by
  cases a with
  | write m =>
      refine ⟨regular_apply σ.stream m hi.regular hlost.1, ?_⟩
      refine follows_apply hi.regular m hlost.1 (fun now caller id hm hvis => ?_) hi.follows
      exact hlost.2 caller (by rw [hm]; rfl) hvis
  | sync =>
      refine ⟨hi.regular, ?_⟩
      rw [step, Stream.syncMessages_eq]
      exact follows_fold hi.regular hi.follows _
  | history before limit hasMore =>
      have hf : Follows σ.hides σ.stream
          (σ.client.mergeHistory (σ.stream.getMessages σ.hides before limit)) := by
        refine follows_mergeHistory hi.regular _ (fun m hm => ?_) hi.follows
        rcases Stream.mem_getMessages hm with ⟨hrow, hpage⟩
        rw [Stream.inHistory, Bool.and_eq_true, Bool.not_eq_true'] at hpage
        exact Stream.mem_seen.2 ⟨hrow, hpage.2⟩
      exact ⟨hi.regular, hf.keyed, hf.bounded, hf.messages, hf.owned, hf.reactions⟩
  | block who =>
      refine ⟨hi.regular, ?_⟩
      by_cases hblocked : who ∈ σ.blocked
      · rw [step, hides, List.insert_of_mem hblocked]
        exact hi.follows
      · refine follows_block hi.regular (fun a => ?_) (hlost hblocked) hi.follows
        rw [step, hides, hides, hides_eq_false, hides_eq_false, List.mem_insert_iff, not_or]
        exact and_comm
  | unblock who =>
      refine ⟨hi.regular, ?_⟩
      by_cases hblocked : who ∈ σ.blocked
      · refine follows_unblock (fun a => ?_) (hlost hblocked) hi.follows
        rw [step, hides, hides, hides_eq_false, hides_eq_false, List.mem_filter]
        by_cases ha : a = who <;> simp [ha]
      · have hsame : σ.blocked.filter (fun a => a ≠ who) = σ.blocked := by
          rw [List.filter_eq_self]
          intro a ha
          exact decide_eq_true fun h => hblocked (h ▸ ha)
        rw [step, hides, hsame]
        exact hi.follows
  | blockedBy | refreshBlocks => exact ⟨hi.regular, hi.follows⟩

-- A client that has drained has nothing pending.
theorem follows_drain {s : Stream} {st : RoomState} {hides : WalletAddress → Bool}
    (hs : s.Regular) (hf : Follows hides s st) :
    Follows hides s (st.fold (s.pending hides st.cursor)) ∧
      ∀ r ∈ (s.seen hides).rows, r.msgSerial ≤ (st.fold (s.pending hides st.cursor)).cursor := by
  constructor
  · have hfold := follows_fold hs hf (s.pending hides st.cursor).length
    rw [List.take_length] at hfold
    exact hfold
  · intro r hr
    rcases Stream.mem_seen.1 hr with ⟨hrow, hvis⟩
    rw [RoomState.cursor_fold]
    by_cases hle : r.msgSerial ≤ st.cursor
    · exact le_trans hle (le_max_left _ _)
    · have hmem := Stream.mem_pending.2 ⟨hrow, Nat.not_le.1 hle, hvis⟩
      exact le_trans (le_highestSerial hmem) (le_max_right _ _)

theorem length_pending_mono (s : Stream) (hides : WalletAddress → Bool) (cursor : Nat) :
    (s.pending hides cursor).length ≤ (s.pending hides 0).length := by
  rw [Stream.pending, Stream.pending, Stream.bySerial, Stream.bySerial,
    List.length_insertionSort, List.length_insertionSort]
  refine (List.monotone_filter_right s.rows fun m hm => ?_).length_le
  rw [Bool.and_eq_true] at hm ⊢
  exact ⟨decide_eq_true (lt_of_le_of_lt (Nat.zero_le _) (of_decide_eq_true hm.1)), hm.2⟩

theorem showsFresh_of_inv (σ : Viewing) (hi : σ.Inv) : σ.ShowsFresh := by
  intro hdate requests hlength
  have hwell := hi.regular.wellFormed
  have hshort := le_trans
    (length_pending_mono σ.stream σ.hides σ.client.cursor) hlength
  rw [drainSync_eq hwell _ hshort, drainSync_eq hwell _ hlength]
  rcases follows_drain hi.regular hi.follows with ⟨hf, hdone⟩
  rcases follows_drain hi.regular (follows_empty hi.regular σ.hides) with ⟨hf', hdone'⟩
  refine showsSame_of_follows hi.regular hf hf' hdone hdone' fun a ha => ?_
  -- Whom the server hides is on the client's list.
  rw [hides_eq_false] at ha
  rw [hides, hides_eq_false]
  exact fun hblocked => ha (hdate.2 a (List.mem_append_left _ hblocked))

/-- Where nothing is lost, blocking hides somebody's messages and reactions and nothing else:
    whenever the client's list is up to date, it shows after a drain what a fresh client would. -/
theorem blocking_hides_only (now : Nat) (hnow : 0 < now) (acts : List Act)
    (hacts : Run.Along step NothingLost (start now) acts) :
    Run.Throughout step ShowsFresh (start now) acts :=
  Run.throughout_mono showsFresh_of_inv _ _
    (Run.throughout_of_along inv_step _ _ (inv_start hnow) hacts)

end Viewing

namespace Sample

open Viewing

/-- Bob is blocked and posts, Alice posts, and Bob is unblocked before the viewer looks. He is
    blocked again, purges when nothing is held, and is heard of again. -/
def lookedAway : List Viewing.Act :=
  [.block bob, .refreshBlocks true true, .write (.createMessage 10 (note "msg_1" bob)),
    .write (.deleteAllMessages 11 bob ⟨"marker_1"⟩),
    .write (.createMessage 12 (note "msg_2" bob)), .unblock bob, .refreshBlocks true true,
    .write (.createEmoticonEvent 13 ⟨"emoticon_1"⟩ alice ⟨"msg_2"⟩ "thumbs_up" "" true),
    .sync, .history 0 50 false, .block bob, .refreshBlocks true true,
    .write (.createMessage 14 (note "msg_3" alice)), .sync, .unblock bob]

theorem blocking_hides_only_lookedAway :
    Run.Throughout step Viewing.ShowsFresh (start 10) lookedAway :=
  blocking_hides_only 10 (by decide) lookedAway (by decide +kernel)

/-- Bob is blocked and purges the room, of which the viewer holds a message of Alice's. -/
def purgedUnheard : List Viewing.Act :=
  [.write (.createMessage 10 (note "msg_1" alice)), .sync, .block bob, .refreshBlocks true true,
    .write (.deleteAllMessages 11 bob ⟨"marker_1"⟩)]

/-- Bob posts while he is blocked, and the viewer reads on. -/
def skipped : List Viewing.Act :=
  [.block bob, .write (.createMessage 10 (note "msg_1" bob)),
    .write (.createMessage 11 (note "msg_2" alice)), .sync, .unblock bob,
    .refreshBlocks true true]

/-- The purge is never heard of, and the message is not sent again. -/
theorem blocking_loses :
    ¬ Run.Throughout step Viewing.ShowsFresh (start 10) purgedUnheard ∧
      ¬ Run.Throughout step Viewing.ShowsFresh (start 10) skipped := by
  constructor
  · intro h
    have hlast := Run.throughout_last _ _ h (by decide +kernel) 1 (by decide +kernel)
    exact absurd hlast (by decide +kernel)
  · intro h
    have hlast := Run.throughout_last _ _ h (by decide +kernel) 1 (by decide +kernel)
    exact absurd hlast (by decide +kernel)

end Sample

end PocketSkynet
