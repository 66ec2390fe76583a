import PocketSkynet.Web.Accounts
import PocketSkynet.Web.OpenRoom
import PocketSkynet.Web.StaleRetry

/-!
# When a Room Is Complete

Opening or resyncing a room should leave the user with what a client that is new to the room
would show, as far back as the room is said to be loaded, and should report as read whatever
there is. What the tasks do falls short of that in two ways.

They report the cursor of the handle, which is that of before. So whenever anything is
fetched, too little is reported. And they fetch only what is past the cursor they start from,
which is that of the handle or one that an earlier session has left behind. What is at or
below it has to be there already: in memory, in the cache, or on the one page of history,
which has no replies and no reactions.

## Main definitions

* `Stream.fresh`: A client that has been sent everything.
* `Shows`: A room shows what a new client would, as far back as it is loaded.
* `Complete`: And all of it is reported as read.
* `Settled`: There was nothing to do.

## Theorems

* `completes_iff`: A task completes a room exactly if there was nothing to do.
* `settled_of_follows`: There is nothing to do in a room that is up to date already.
* `shows_visit`: A room whose arrival keeps track shows what it should after fewer than 64
  requests, whatever is written meanwhile.
-/

namespace PocketSkynet

/-- A client that has been sent everything there is to be sent to somebody who is new. -/
def Stream.fresh (s : Stream) (hides : WalletAddress → Bool) : RoomState :=
  RoomState.empty.fold (s.pending hides 0)

/-- The message belongs to the part of the room that is said to be loaded. -/
def RoomState.covers (st : RoomState) (m : Message) : Bool :=
  !st.hasMoreHistory || st.oldestTimestamp.any fun t => decide (t ≤ m.messageTimestamp)

namespace Web

/-- The room shows what a new client would, as far back as it is loaded. -/
structure Shows (s : Stream) (hides : WalletAddress → Bool) (st : RoomState) : Prop where
  messages : ∀ id, st.held id = ((s.fresh hides).held id).filter st.covers
  reactions : ∀ r : Reaction, (st.held r.target).isSome →
    (r ∈ st.reactions ↔ r ∈ (s.fresh hides).reactions)

/-- A room that shows what it should, and a read pointer that is at the highest serial that
    has been folded and below no row. -/
structure Complete (s : Stream) (hides : WalletAddress → Bool) (st : RoomState)
    (pointer : Nat) : Prop where
  shows : Shows s hides st
  folded : pointer = st.cursor
  read : ∀ m ∈ st.messages, m.msgSerial ≤ pointer

section

variable {Secret Point : Type} (P : Primitives Secret Point) (c : StreamCourse)
  (hides : WalletAddress → Bool) (keys : Nat → Except ApiError (List RoomKey))
  (markRead : Nat → Except ApiError Nat)

/-- The room is complete after a task, for the server at its last request for events. -/
def Completes (v : Visit) (d : Device Secret) (room : RoomId) : Prop :=
  Complete (c.sync ((visit P v d room (c.answers hides keys markRead)).pages.length - 1)) hides
    ((d.applyAll (visit P v d room (c.answers hides keys markRead)).effects).stream room)
    ((visit P v d room (c.answers hides keys markRead)).read.getD 0)

/-- There is nothing to do: the server has nothing past the point from which the room is
    drained, and what the task starts with shows what it should and has been read up to the
    cursor of before. -/
structure Settled (v : Visit) (d : Device Secret) (room : RoomId) : Prop where
  still : ∀ r ∈ (c.sync 0).rows, hides r.senderAddress = false →
    r.msgSerial ≤ drainsFrom v d room
  level : (d.stream room).cursor = (arrival v d room (c.page hides)).cursor
  read : ∀ m ∈ (arrival v d room (c.page hides)).messages, m.msgSerial ≤ (d.stream room).cursor
  shows : Shows (c.sync 0) hides (arrival v d room (c.page hides))

variable {c hides}

-- Nothing is pending exactly if there is nothing visible past the cursor.
theorem pending_eq_nil {s : Stream} {since : Nat} :
    s.pending hides since = [] ↔
      ∀ r ∈ s.rows, hides r.senderAddress = false → r.msgSerial ≤ since := by
  constructor
  · intro h r hr hvisible
    by_contra hlt
    have hmem : r ∈ s.pending hides since := Stream.mem_pending.2 ⟨hr, by omega, hvisible⟩
    rw [h] at hmem
    cases hmem
  · intro h
    refine List.eq_nil_iff_forall_not_mem.2 fun r hr => ?_
    rcases Stream.mem_pending.1 hr with ⟨hrow, hlt, hvisible⟩
    have hle := h r hrow hvisible
    omega

-- Where nothing is pending, one request is made and brings nothing.
theorem drainPages_nil {left n since : Nat} (h : (c.sync n).pending hides since = []) :
    (drainPages (c.answers hides keys markRead) (left + 1) n since).1 = [[]] := by
  have hpage : (c.sync n).syncMessages hides since = ([], false) := by
    rw [Stream.syncMessages_eq, h]
    rfl
  unfold drainPages
  simp only [StreamCourse.answers, hpage]
  rfl

-- The first page is what is pending, up to the limit.
theorem drainPages_first (left n since : Nat) :
    ∃ rest, (drainPages (c.answers hides keys markRead) (left + 1) n since).1 =
      ((c.sync n).pending hides since).take syncLimit :: rest := by
  unfold drainPages
  simp only [StreamCourse.answers, Stream.syncMessages_eq]
  split
  · exact ⟨[], rfl⟩
  · exact ⟨_, rfl⟩

-- A drain that has not moved the cursor past where it started was sent nothing.
theorem pending_of_cursor {left n since : Nat} {st : RoomState}
    (h : (st.fold (drainPages (c.answers hides keys markRead) (left + 1) n since).1.flatten).cursor
      ≤ since) : (c.sync n).pending hides since = [] := by
  obtain ⟨rest, hrest⟩ : ∃ rest, (drainPages (c.answers hides keys markRead) (left + 1) n since).1 =
      ((c.sync n).pending hides since).take syncLimit :: rest :=
    drainPages_first keys markRead left n since
  rw [hrest, List.flatten_cons, RoomState.cursor_fold] at h
  cases hpending : (c.sync n).pending hides since with
  | nil => rfl
  | cons r rs =>
      have hr : r ∈ (c.sync n).pending hides since := hpending ▸ List.mem_cons_self
      have hlt := (Stream.mem_pending.1 hr).2.1
      have hpage : r ∈ ((c.sync n).pending hides since).take syncLimit ++ rest.flatten := by
        rw [hpending]
        exact List.mem_append_left _ List.mem_cons_self
      have hle := le_highestSerial hpage
      omega

/-- A task completes a room exactly if there was nothing to do. -/
theorem completes_iff (v : Visit) (d : Device Secret) (room : RoomId) :
    Completes P c hides keys markRead v d room ↔ Settled c hides v d room := by
  rw [Completes, stream_visit, read_visit, pages_visit]
  have hfrom : (d.stream room).cursor ≤ drainsFrom v d room := by
    cases v with
    | opening => exact le_max_left _ _
    | resync => exact le_rfl
  -- Whichever side holds, the drain was sent nothing, and then they say the same.
  have hsame : (c.sync 0).pending hides (drainsFrom v d room) = [] →
      (Complete (c.sync ((drainPages (c.answers hides keys markRead) maxDrain 0
          (drainsFrom v d room)).1.length - 1)) hides
        ((arrival v d room (c.page hides)).fold (drainPages (c.answers hides keys markRead)
          maxDrain 0 (drainsFrom v d room)).1.flatten) (d.stream room).cursor ↔
      Settled c hides v d room) := by
    intro hnil
    rw [show maxDrain = 63 + 1 from rfl, drainPages_nil keys markRead hnil]
    constructor
    · exact fun h => ⟨pending_eq_nil.1 hnil, h.folded, h.read, h.shows⟩
    · exact fun h => ⟨h.shows, h.level, h.read⟩
  constructor
  · intro h
    have hcursor : ((arrival v d room (c.page hides)).fold
        (drainPages (c.answers hides keys markRead) (63 + 1) 0
          (drainsFrom v d room)).1.flatten).cursor ≤ drainsFrom v d room :=
      le_trans (le_of_eq h.folded.symm) hfrom
    exact (hsame (pending_of_cursor keys markRead hcursor)).1 h
  · intro h
    exact (hsame (pending_eq_nil.2 h.still)).2 h

/-! ### While the room is written to -/

/-- Writes that are aimed at the rows they are meant for. -/
def Writes (s s' : Stream) : Prop :=
  ∃ ms, Run.Along Stream.apply (fun s m => m.OnMessages s) s ms ∧ Run.run Stream.apply s ms = s'

/-- A regular stream and a room that keeps track of it. -/
structure Follows (s : Stream) (st : RoomState) : Prop where
  regular : s.Regular
  tracks : Tracks s st

theorem follows_writes {s s' : Stream} {st : RoomState} (h : Follows s st) (hw : Writes s s') :
    Follows s' st := by
  rcases hw with ⟨ms, halong, rfl⟩
  refine Run.along_inv (J := fun s => Follows s st) ?_ s ms h halong
  intro s m h hm
  exact ⟨regular_apply s m h.regular hm, tracks_apply s m h.regular hm h.tracks⟩

-- The room takes a page in.
theorem follows_page {s : Stream} {st : RoomState} (h : Follows s st) :
    Follows s (st.fold ((s.pending nobody st.cursor).take syncLimit)) :=
  ⟨h.regular, tracks_fold_take h.regular syncLimit h.tracks⟩

-- A full page, and the drain goes on behind it.
theorem drainPages_more {left n since : Nat}
    (h : syncLimit < ((c.sync n).pending hides since).length) :
    (drainPages (c.answers hides keys markRead) (left + 1) n since).1 =
      ((c.sync n).pending hides since).take syncLimit ::
        (drainPages (c.answers hides keys markRead) left (n + 1)
          (max since (highestSerial (((c.sync n).pending hides since).take syncLimit)))).1 := by
  have hlength : (((c.sync n).pending hides since).take syncLimit).length = syncLimit := by
    rw [List.length_take]
    omega
  have hnext : nextSyncCursor since
      (highestSerial (((c.sync n).pending hides since).take syncLimit))
      (decide (syncLimit < ((c.sync n).pending hides since).length))
      (((c.sync n).pending hides since).take syncLimit).length =
        some (max since (highestSerial (((c.sync n).pending hides since).take syncLimit))) := by
    rw [nextSyncCursor, hlength, decide_eq_true h, if_neg (by decide)]
  rw [drainPages]
  simp only [StreamCourse.answers, Stream.syncMessages_eq, hnext]

-- The last page has everything.
theorem drainPages_last {left n since : Nat}
    (h : ((c.sync n).pending hides since).length ≤ syncLimit) :
    (drainPages (c.answers hides keys markRead) (left + 1) n since).1 =
      [(c.sync n).pending hides since] := by
  have hmore : decide (syncLimit < ((c.sync n).pending hides since).length) = false :=
    decide_eq_false (by omega)
  have hnext : ∀ page : List Message,
      nextSyncCursor since (highestSerial page) false page.length = none := fun _ => rfl
  rw [drainPages]
  simp only [StreamCourse.answers, Stream.syncMessages_eq, hmore, hnext, List.take_of_length_le h]

/-- A drain that ends by itself leaves the room with what the server shows. -/
theorem follows_drainPages (hwrites : ∀ n, Writes (c.sync n) (c.sync (n + 1))) (left n : Nat)
    (st : RoomState) (h : Follows (c.sync n) st)
    (hends : (drainPages (c.answers nobody keys markRead) left n st.cursor).1.length < left) :
    Follows
        (c.sync (n + (drainPages (c.answers nobody keys markRead) left n st.cursor).1.length - 1))
        (st.fold (drainPages (c.answers nobody keys markRead) left n st.cursor).1.flatten) ∧
      Converged
        (c.sync (n + (drainPages (c.answers nobody keys markRead) left n st.cursor).1.length - 1))
        (st.fold (drainPages (c.answers nobody keys markRead) left n st.cursor).1.flatten) := by
  induction left generalizing n st with
  | zero => exact absurd hends (Nat.not_lt_zero _)
  | succ left ih =>
      have hpage := follows_page h
      by_cases hmore : syncLimit < ((c.sync n).pending nobody st.cursor).length
      · rw [drainPages_more keys markRead hmore] at hends ⊢
        rw [List.length_cons] at hends ⊢
        rw [List.flatten_cons, RoomState.fold_append]
        have hnext := ih (n + 1) _ (follows_writes hpage (hwrites n))
        rw [RoomState.cursor_fold] at hnext
        have hindex : ∀ k, n + (k + 1) - 1 = n + 1 + k - 1 := fun k => by omega
        rw [hindex]
        exact hnext (by omega)
      · have hall : ((c.sync n).pending nobody st.cursor).length ≤ syncLimit := by omega
        rw [List.take_of_length_le hall] at hpage
        rw [drainPages_last keys markRead hall, List.flatten_cons, List.flatten_nil,
          List.append_nil, List.length_singleton, Nat.add_sub_cancel]
        refine ⟨hpage, converged_of_tracks hpage.regular hpage.tracks fun r hr => ?_⟩
        rw [RoomState.cursor_fold]
        by_cases hle : r.msgSerial ≤ st.cursor
        · exact le_trans hle (le_max_left _ _)
        · have hmem := (mem_pending_nobody st.cursor r).2 ⟨hr, by omega⟩
          exact le_trans (le_highestSerial hmem) (le_max_right _ _)

-- Somebody who is new has converged when everything has been sent.
theorem converged_fresh {s : Stream} (hs : s.Regular) : Converged s (s.fresh nobody) := by
  have hstart : Tracks s RoomState.empty := by
    refine ⟨hs.wellFormed.started, ?_, ?_, ?_⟩
    · intro _ r hr _ hle
      exact absurd hle (Nat.not_le.2 (hs.wellFormed.positive r hr))
    · intro id m hheld
      cases hheld
    · intro _ τ _ hevents
      constructor
      · intro hin
        cases hin
      · rintro ⟨r, hr, hadd, hτ, -⟩
        have hle := hevents r hr (isReaction_of_add hadd) hτ
        exact absurd hle (Nat.not_le.2 (hs.wellFormed.positive r hr))
  have hfold := tracks_fold_take hs (s.pending nobody 0).length hstart
  have hcursor : RoomState.empty.cursor = 0 := rfl
  rw [hcursor, List.take_length] at hfold
  refine converged_of_tracks hs hfold fun r hr => ?_
  have hmem := (mem_pending_nobody 0 r).2 ⟨hr, hs.wellFormed.positive r hr⟩
  rw [Stream.fresh, RoomState.cursor_fold]
  exact le_trans (le_highestSerial hmem) (le_max_right _ _)

-- Whatever is held is in the part that is loaded.
theorem covers_of_mem {st : RoomState} {m : Message} (h : m ∈ st.messages) :
    st.covers m = true := by
  unfold RoomState.covers RoomState.oldestTimestamp
  cases hmin : (st.messages.map Message.messageTimestamp).min? with
  | none =>
      rw [List.min?_eq_none_iff, List.map_eq_nil_iff] at hmin
      rw [hmin] at h
      cases h
  | some t =>
      have hle := (List.min?_eq_some_iff.1 hmin).2 _ (List.mem_map_of_mem h)
      simp [hle]

/-- A room that has converged shows what it should. -/
theorem shows_of_converged {s : Stream} {st : RoomState} (hs : s.Regular)
    (h : Converged s st) : Shows s nobody st := by
  have hfresh := converged_fresh hs
  constructor
  · intro id
    rw [hfresh.messages id, ← h.messages id]
    cases hheld : st.held id with
    | none => rfl
    | some m =>
        have hcovers := covers_of_mem (Table.mem_of_lookup hheld)
        rw [Option.filter_some, hcovers, if_pos rfl]
  · intro r hsome
    have hsome' : ((s.fresh nobody).held r.target).isSome := by
      rw [hfresh.messages, ← h.messages]
      exact hsome
    exact (h.reactions r.target hsome r.code r.sender).trans
      (hfresh.reactions r.target hsome' r.code r.sender).symm

/-- There is nothing to do in a room that is in memory, keeps track, and is where the server
    is. -/
theorem settled_of_follows {d : Device Secret} {room : RoomId}
    (h : Follows (c.sync 0) (d.stream room)) (hheld : (d.stream room).messages ≠ [])
    (hkeyed : Table.Keyed Message.id (d.stream room).messages)
    (hstill : ∀ r ∈ (c.sync 0).rows, r.msgSerial ≤ (d.stream room).cursor) :
    Settled c nobody .opening d room := by
  have harrival : arrival .opening d room (c.page nobody) = d.stream room := by
    rw [arrival, if_neg (by simpa using hheld)]
  have hconverged := converged_of_tracks h.regular h.tracks hstill
  refine ⟨fun r hr _ => le_trans (hstill r hr) (le_max_left _ _), ?_, ?_, ?_⟩
  · rw [harrival]
  · rw [harrival]
    intro m hm
    -- What is held is a row of the server, and none of these is past the cursor.
    have hshown := (hconverged.messages m.id).symm.trans (Table.lookup_of_mem hkeyed hm)
    exact hstill m (Table.mem_of_lookup (Option.filter_eq_some_iff.1 hshown).1)
  · rw [harrival]
    exact shows_of_converged h.regular hconverged

/-- A room that keeps track from where it is drained shows what it should, whatever is written
    meanwhile, if fewer requests are made than may be made. -/
theorem shows_visit (hwrites : ∀ n, Writes (c.sync n) (c.sync (n + 1))) (v : Visit)
    (d : Device Secret) (room : RoomId)
    (h : Follows (c.sync 0) (arrival v d room (c.page nobody)))
    (hfrom : (arrival v d room (c.page nobody)).cursor = drainsFrom v d room)
    (hends : (visit P v d room (c.answers nobody keys markRead)).pages.length < maxDrain) :
    Shows (c.sync ((visit P v d room (c.answers nobody keys markRead)).pages.length - 1)) nobody
      ((d.applyAll (visit P v d room (c.answers nobody keys markRead)).effects).stream room) := by
  rw [stream_visit]
  rw [pages_visit, ← hfrom] at hends ⊢
  have hdrained := follows_drainPages keys markRead hwrites maxDrain 0 _ h hends
  rw [Nat.zero_add] at hdrained
  exact shows_of_converged hdrained.1.regular hdrained.2

end

namespace Sample

open PocketSkynet.Sample

/-- Alice posts, and Bob reacts. -/
def reactedTo : Stream :=
  Run.run Stream.apply (Stream.create 10)
    [.createMessage 10 (note "msg_1" alice),
      .createEmoticonEvent 11 ⟨"emoticon_1"⟩ bob ⟨"msg_1"⟩ "thumbs_up" "" true]

/-- And then Alice posts once more. -/
def postedTo : Stream := reactedTo.apply (.createMessage 12 (note "msg_2" alice))

def quietKeys : Nat → Except ApiError (List RoomKey) := fun _ => .ok []

def quietRead : Nat → Except ApiError Nat := .ok

/-- A server on which nothing is written meanwhile. -/
def still (s : Stream) : StreamCourse := ⟨s, fun _ => s⟩

/-- Bob's tab, which has folded what Alice posted and his own reaction. -/
def upToDate : Device Unit :=
  (alicesWorld []).device.applyAll
    [.dispatch (.setAuth (.unlocked (sessionOf bob))),
      .dispatch (.sync team (reactedTo.syncMessages nobody 0).1)]

/-- Bob has signed out and in again. -/
def backAgain : Device Unit :=
  upToDate.applyAll [.signOut, .dispatch (.setAuth (.unlocked (sessionOf bob)))]

/-- When Bob comes back his reaction is not there any more, because the cursor of before is
    still on the device. Nor is it after a resync. And of Alice's second message it is not
    reported that he has read it. -/
theorem comes_back_incomplete :
    ¬ Completes openPrimitives (still reactedTo) nobody quietKeys quietRead .opening backAgain
        team ∧
      ¬ Completes openPrimitives (still reactedTo) nobody quietKeys quietRead .resync upToDate
        team ∧
      ¬ Completes openPrimitives (still postedTo) nobody quietKeys quietRead .opening upToDate
        team := by
  refine ⟨fun h => ?_, fun h => ?_, fun h => ?_⟩
  · rw [Completes, stream_visit, read_visit, pages_visit] at h
    have hreacts := h.shows.reactions ⟨⟨"msg_1"⟩, "thumbs_up", bob⟩ (by decide +kernel)
    exact absurd (hreacts.2 (by decide +kernel)) (by decide +kernel)
  · rw [Completes, stream_visit, read_visit, pages_visit] at h
    have hreacts := h.shows.reactions ⟨⟨"msg_1"⟩, "thumbs_up", bob⟩ (by decide +kernel)
    exact absurd (hreacts.2 (by decide +kernel)) (by decide +kernel)
  · rw [Completes, stream_visit, read_visit, pages_visit] at h
    exact absurd h.folded (by decide +kernel)

end Sample

end Web

end PocketSkynet
