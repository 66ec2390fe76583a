import PocketSkynet.Client.Session
import PocketSkynet.Client.Tracking
import PocketSkynet.Server.Sample

/-!
# Convergence

A client that keeps asking for pages and folding them ends up with what the
server shows a fresh client, whenever it asks and wherever the pages end: the
displayable rows as they stand, and under each of them the reactions the server
aggregates. The condition is that edits and deletions are aimed at messages and
that no purge marker is anchored.

Without it the fold loses reactions and purges. A reaction event is a row like
any other to the routes that edit and delete, and both overwrite its kind. The
server then no longer replays the event, while a client that has folded it is
told of an edit or a deletion of a message, which has no bearing on the reaction
it holds.

## Main definitions

* `Converged`: The client shows what the server shows.
* `Session.OnMessages`: The condition on one act.

## Theorems

* `tracks_run`: So does every run that meets the condition.
* `converged_after_drain`: Convergence.
* `deleted_reaction_stays`: A client that does not converge.
-/

namespace PocketSkynet

/-- The client shows what the server shows somebody who hides nobody. -/
structure Converged (s : Stream) (st : RoomState) : Prop where
  messages : ∀ id, st.held id = (s.row? id).filter Message.displayable
  reactions : ∀ id, (st.held id).isSome → ∀ code who, (⟨id, code, who⟩ : Reaction) ∈ st.reactions ↔
    ∃ a ∈ s.aggregateEmoticons nobody id, a.emoticonCode = code ∧ who ∈ a.reactors

section Folding

variable {s : Stream} {st : RoomState}

/-- What folding the next pending row keeps, folding rows from the front of the pending ones
    keeps. -/
theorem fold_queue {rows : List Message} {J : RoomState → Prop}
    (next : ∀ st e, J st → e ∈ rows → st.cursor < e.msgSerial →
      (∀ r ∈ rows, st.cursor < r.msgSerial → e.msgSerial ≤ r.msgSerial) → J (st.foldOne e))
    (es rest : List Message) (hqueue : ∀ r, r ∈ es ++ rest ↔ r ∈ rows ∧ st.cursor < r.msgSerial)
    (hsorted : (es ++ rest).Pairwise fun a b => a.msgSerial < b.msgSerial) (h : J st) :
    J (st.fold es) := by
  induction es generalizing st with
  | nil => exact h
  | cons e es ih =>
      obtain ⟨hfirst, hrest⟩ := List.pairwise_cons.1 hsorted
      obtain ⟨he, hpending⟩ := (hqueue e).1 (by simp)
      have hnext : ∀ r ∈ rows, st.cursor < r.msgSerial → e.msgSerial ≤ r.msgSerial := by
        intro r hr hlt
        rcases List.mem_cons.1 ((hqueue r).2 ⟨hr, hlt⟩) with rfl | hr
        · exact le_rfl
        · exact le_of_lt (hfirst r hr)
      refine ih ?_ hrest (next st e h he hpending hnext)
      intro r
      rw [RoomState.cursor_foldOne]
      constructor
      · intro hr
        obtain ⟨hmem, hlt⟩ := (hqueue r).1 (List.mem_cons_of_mem e hr)
        exact ⟨hmem, max_lt hlt (hfirst r hr)⟩
      · rintro ⟨hmem, hlt⟩
        rcases List.mem_cons.1 ((hqueue r).2 ⟨hmem, lt_of_le_of_lt (le_max_left _ _) hlt⟩) with
          rfl | hr
        · exact absurd (lt_of_le_of_lt (le_max_right _ _) hlt) (lt_irrefl _)
        · exact hr

/-- Folding rows from the front of the pending ones keeps track. -/
theorem tracks_fold (hs : s.Regular) (es rest : List Message)
    (hqueue : ∀ r, r ∈ es ++ rest ↔ r ∈ s.rows ∧ st.cursor < r.msgSerial)
    (hsorted : (es ++ rest).Pairwise fun a b => a.msgSerial < b.msgSerial)
    (ht : Tracks s st) : Tracks s (st.fold es) :=
  fold_queue (J := Tracks s) (fun _ _ ht he hpending hnext => tracks_next hs ht he hpending hnext)
    es rest hqueue hsorted ht

theorem mem_pending_nobody (cursor : Nat) (r : Message) :
    r ∈ s.pending nobody cursor ↔ r ∈ s.rows ∧ cursor < r.msgSerial := by
  rw [Stream.mem_pending]
  simp [nobody]

theorem tracks_fold_take (hs : s.Regular) (k : Nat) (ht : Tracks s st) :
    Tracks s (st.fold ((s.pending nobody st.cursor).take k)) := by
  refine tracks_fold hs _ ((s.pending nobody st.cursor).drop k) ?_ ?_ ht
  · rw [List.take_append_drop]
    exact mem_pending_nobody st.cursor
  · rw [List.take_append_drop]
    exact Stream.pending_sorted hs.wellFormed nobody st.cursor

end Folding

/-- Merging a row the server holds keeps track: it is held already, or pending. -/
theorem tracks_mergeOne {s : Stream} {st : RoomState}
    {m : Message} (hs : s.Regular) (hm : m ∈ s.rows) (ht : Tracks s st) :
    Tracks s (st.mergeOne m) := by
  refine ⟨by rw [RoomState.cursor_mergeOne]; exact ht.bounded, ?_, ?_, ?_⟩
  · intro hmarkers r hr hmsg hle
    rw [RoomState.cursor_mergeOne] at hmarkers hle
    rw [RoomState.held_mergeOne, ht.messages hmarkers r hr hmsg hle]
    split
    next hsame =>
      rw [hs.wellFormed.eq_of_id hr hm hsame.1, hsame.2]
      rfl
    next => rfl
  · intro id m' hheld
    rw [RoomState.cursor_mergeOne]
    rw [RoomState.held_mergeOne] at hheld
    split at hheld
    next hsame =>
      exact Or.inl ⟨m, hm, hsame.1.symm, Message.isMessage_of_displayable hsame.2⟩
    next => exact ht.known id m' hheld
  · intro hmarkers τ hlive hevents
    rw [RoomState.cursor_mergeOne] at hmarkers hevents
    rw [RoomState.reactions_mergeOne]
    exact ht.reactions hmarkers τ hlive hevents

theorem tracks_mergeHistory {s : Stream} {st : RoomState} (hs : s.Regular)
    (page : List Message) (hpage : ∀ m ∈ page, m ∈ s.rows) (ht : Tracks s st) : Tracks s (st.mergeHistory page) := by
  induction page generalizing st with
  | nil => exact ht
  | cons m ms ih =>
      rw [RoomState.mergeHistory_cons]
      exact ih (fun x hx => hpage x (List.mem_cons_of_mem m hx))
        (tracks_mergeOne hs (hpage m List.mem_cons_self) ht)

namespace Session

/-- The condition on one act: a write is aimed at a row it is meant for. -/
def OnMessages (σ : Session) : Act → Prop
  | .write m => m.OnMessages σ.stream
  | _ => True

instance (σ : Session) : (a : Act) → Decidable (σ.OnMessages a)
  | .write m => inferInstanceAs (Decidable (m.OnMessages σ.stream))
  | .sync => .isTrue trivial
  | .history .. => .isTrue trivial

/-- Everything is tracked, in a regular stream. -/
structure Tracked (σ : Session) : Prop where
  regular : σ.stream.Regular
  tracks : Tracks σ.stream σ.client

theorem tracked_start {now : Nat} (h : 0 < now) : (start now).Tracked where
  regular := regular_create h
  tracks := by
    refine ⟨h, ?_, ?_, ?_⟩
    · intro _ r hr
      cases hr
    · intro id m hheld
      cases hheld
    · intro _ τ _ _
      simp [start, RoomState.empty, Reacts, Stream.create]

theorem tracked_step (σ : Session) (a : Act) (h : σ.Tracked) (ha : σ.OnMessages a) :
    (step nobody σ a).Tracked := by
  cases a with
  | write m =>
      exact ⟨regular_apply σ.stream m h.regular ha, tracks_apply σ.stream m h.regular ha h.tracks⟩
  | sync =>
      refine ⟨h.regular, ?_⟩
      rw [step, Stream.syncMessages_eq]
      exact tracks_fold_take h.regular _ h.tracks
  | history before limit hasMore =>
      have ht := tracks_mergeHistory h.regular (σ.stream.getMessages nobody before limit)
        (fun m hm => (Stream.mem_getMessages hm).1) h.tracks
      exact ⟨h.regular, ht.bounded, ht.messages, ht.known, ht.reactions⟩

end Session

/-- **A client that tracks and has nothing pending has converged.** -/
theorem converged_of_tracks {s : Stream} {st : RoomState} (hs : s.Regular)
    (ht : Tracks s st)
    (hdone : ∀ r ∈ s.rows, r.msgSerial ≤ st.cursor) : Converged s st := by
  have hmarkers : s.MarkersFolded st.cursor := fun m hm _ => hdone m hm
  have hheld : ∀ id, st.held id = (s.row? id).filter Message.displayable := by
    intro id
    cases hr : s.row? id with
    | some r =>
        have hmem : r ∈ s.rows := Table.mem_of_lookup hr
        have hid : r.id = id := Table.key_of_lookup hr
        cases hmsg : r.isMessage with
        | true =>
            have hrow := ht.messages hmarkers r hmem hmsg (hdone r hmem)
            rw [hid] at hrow
            rw [hrow]
            cases hd : r.displayable <;> simp [Option.filter, hd]
        | false =>
            -- No message has this id, so nothing is held under it either.
            have hd : r.displayable = false := by
              cases hd : r.displayable with
              | false => rfl
              | true => rw [Message.isMessage_of_displayable hd] at hmsg; exact hmsg
            rw [Option.filter_some, hd, if_neg Bool.false_ne_true]
            cases hm : st.held id with
            | none => rfl
            | some m =>
                rcases ht.known id m hm with ⟨x, hx, hxid, hxmsg⟩ | hno
                · rw [hs.wellFormed.eq_of_id hx hmem (hxid.trans hid.symm), hmsg] at hxmsg
                  cases hxmsg
                · exact absurd hmarkers hno
    | none =>
        cases hm : st.held id with
        | none => rfl
        | some m =>
            rcases ht.known id m hm with ⟨x, hx, hxid, -⟩ | hno
            · exact absurd hxid (Table.lookup_eq_none.1 hr x hx)
            · exact absurd hmarkers hno
  refine ⟨hheld, ?_⟩
  intro id hshown code who
  rw [ht.reactions hmarkers ⟨id, code, who⟩ ?_ (fun r hr _ _ => hdone r hr)]
  · exact (Stream.mem_aggregateEmoticons hs.wellFormed rfl).symm
  · -- The message is shown, so its row is no tombstone.
    intro r hr hid hdel
    have hrow : s.row? id = some r := by
      have hfind := Table.lookup_of_mem hs.wellFormed.keyed hr
      rwa [hid] at hfind
    have hd : r.displayable = false := by simp [Message.displayable, MsgKind.isRenderable, hdel]
    rw [hheld, hrow, Option.filter_some, hd] at hshown
    cases hshown

/-- **Convergence.** After any run whose edits and deletions are aimed at
    messages, draining leaves the client with what the server shows, for every
    number of requests that covers what is pending. -/
theorem converged_after_drain (now requests : Nat) (acts : List Session.Act) (hnow : 0 < now)
    (hacts : Run.Along (Session.step nobody) Session.OnMessages (Session.start now) acts)
    (hrequests : ((Session.after nobody now acts).pending nobody).length ≤ syncLimit * requests) :
    Converged (Session.after nobody now acts).stream
      ((Session.after nobody now acts).drain nobody requests) := by
  have htracked : (Session.after nobody now acts).Tracked :=
    Run.along_inv Session.tracked_step _ acts (Session.tracked_start hnow) hacts
  revert htracked hrequests
  generalize Session.after nobody now acts = σ
  intro hrequests htracked
  rw [Session.drain, drainSync_eq htracked.regular.wellFormed _ hrequests]
  have hfold := tracks_fold_take htracked.regular
    (σ.stream.pending nobody σ.client.cursor).length htracked.tracks
  rw [List.take_length] at hfold
  refine converged_of_tracks htracked.regular hfold fun r hr => ?_
  rw [RoomState.cursor_fold]
  by_cases hle : r.msgSerial ≤ σ.client.cursor
  · exact le_trans hle (le_max_left _ _)
  · have hmem := (mem_pending_nobody σ.client.cursor r).2 ⟨hr, by omega⟩
    exact le_trans (le_highestSerial hmem) (le_max_right _ _)

section Sample

open Sample

/-- Alice posts and Bob reacts; the client looks in before Alice edits and Bob
    takes his reaction back. -/
def editedAndUnreacted : List Session.Act :=
  [.write (.createMessage 10 (note "msg_1" alice)),
    .write (.createEmoticonEvent 11 ⟨"emoticon_1"⟩ bob ⟨"msg_1"⟩ "thumbs_up" "" true), .sync,
    .write (.updateMessage 12 ⟨"msg_1"⟩ ⟨"hi", "", none, none, 1, 1⟩),
    .write (.createEmoticonEvent 13 ⟨"emoticon_2"⟩ bob ⟨"msg_1"⟩ "thumbs_up" "" false)]

theorem editedAndUnreacted_converges :
    Converged (Session.after nobody 10 editedAndUnreacted).stream
      ((Session.after nobody 10 editedAndUnreacted).drain nobody 1) :=
  converged_after_drain 10 1 editedAndUnreacted (by decide) (by decide +kernel)
    (by decide +kernel)

/-- Bob deletes the row of his reaction, as the route lets any sender do, after
    the client has folded it. -/
def reactionRowDeleted : List Session.Act :=
  [.write (.createMessage 10 (note "msg_1" alice)),
    .write (.createEmoticonEvent 11 ⟨"emoticon_1"⟩ bob ⟨"msg_1"⟩ "thumbs_up" "" true), .sync,
    .write (.softDeleteMessage 12 ⟨"emoticon_1"⟩)]

/-- The server shows no reaction any more, and the client keeps showing Bob's. -/
theorem deleted_reaction_stays :
    ((Session.after nobody 10 reactionRowDeleted).pending nobody).length ≤ syncLimit * 1 ∧
      ¬ Converged (Session.after nobody 10 reactionRowDeleted).stream
        ((Session.after nobody 10 reactionRowDeleted).drain nobody 1) := by
  refine ⟨by decide +kernel, fun h => ?_⟩
  have hstands := (h.reactions ⟨"msg_1"⟩ (by decide +kernel) "thumbs_up" bob).1
    (by decide +kernel)
  exact absurd hstands (by decide +kernel)

end Sample

end PocketSkynet
