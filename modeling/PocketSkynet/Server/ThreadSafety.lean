import Mathlib.Data.List.Induction
import PocketSkynet.Server.Threads

/-!
# Threads Are Flat

Whatever a client claims as the parent of a message, the message is filed under one that is no
reply. This is so when the parent is looked up, because every reply there is names such a message
already; and it stays so until the row is inserted, because a root is not made a reply by anything.
It may be gone by then, so what a reply names is a root that is or was in the room.

As no id is drawn twice, an id stands for one message for good. A thread is therefore the same from
whichever of its messages it is opened, and it never leaves its room. Its replies come oldest
first, which is not the serial order: an edit gives its row a new serial and no new time.

## Main definitions

* `Threads.Flat`: Every reply names a root that is or was in its room.
* `Threads.Steady`: An id stands for one message in one room.

## Theorems

* `parent_of_rowsStep`, `parent_step`: No write changes what a row replies to.
* `threads_flat`: All of it, for every run.
* `edited_out_of_order`: A thread with an edited reply is not in serial order.
-/

namespace PocketSkynet

/-- What the row that a write inserts replies to. -/
def Mutation.parent : Mutation → Option MessageId
  | .createMessage _ new => new.parentMessageId
  | _ => none

-- No write changes what a row replies to.
theorem parent_of_rowsStep {rows rows' : List Message} {m : Mutation} {n : Nat}
    (h : RowsStep n rows m rows') {x : Message} (hx : x ∈ rows') :
    (∃ y ∈ rows, y.id = x.id ∧ y.parentMessageId = x.parentMessageId) ∨
      (m.newId = some x.id ∧ x.parentMessageId = m.parent) := by
  rcases origin_of_rowsStep h hx with ⟨y, hy, hid, hparent, -⟩ | hnew
  · exact Or.inl ⟨y, hy, hid, hparent⟩
  · cases m <;> cases hnew <;> exact Or.inr ⟨rfl, rfl⟩

namespace Streams

variable {ss ss' : Streams} {room : RoomId}

theorem parent_transact {m : Mutation} (h : ss.transact room m = some ss') {r : RoomId}
    {x : Message} (hx : ss'.Has r x) :
    (∃ y, ss.Has r y ∧ y.id = x.id ∧ y.parentMessageId = x.parentMessageId) ∨
      (r = room ∧ m.newId = some x.id ∧ x.parentMessageId = m.parent) := by
  rcases has_transact_iff h with ⟨n, st, st', hst, -, -, hstep, hafter⟩
  rcases (hafter r x).1 hx with ⟨rfl, hmem⟩ | ⟨-, hold⟩
  · rcases parent_of_rowsStep hstep hmem with ⟨y, hy, hid, hparent⟩ | ⟨hnew, hparent⟩
    · exact Or.inl ⟨y, (has_room hst).2 hy, hid, hparent⟩
    · exact Or.inr ⟨rfl, hnew, hparent⟩
  · exact Or.inl ⟨x, hold, rfl, rfl⟩

/-- The root of a message that is there. -/
theorem threadRoot_eq (hd : ss.Distinct) {m : Message} (hm : ss.Has room m) :
    ss.threadRoot m.id true = some (m.parentMessageId.getD m.id, room) := by
  rw [threadRoot, (row?_eq_some hd).2 ⟨hm, rfl⟩]
  rfl

/-- A parent that is found is in the room, and the reply is filed under its root. -/
theorem resolveParent_eq_ok (hd : ss.Distinct) {parentId root : MessageId}
    (h : ss.resolveParent parentId room = .ok root) :
    ∃ m, ss.Has room m ∧ m.id = parentId ∧ root = m.parentMessageId.getD m.id := by
  rcases (bind_eq_ok _ _ _).1 h with ⟨⟨root', room'⟩, hroot, h⟩
  rcases (bind_eq_ok _ _ _).1 h with ⟨_, hroom, hok⟩
  have hsame : room' = room := by simpa using (ensure_eq_ok _ _ _).1 hroom
  cases hok
  have hfound := (orRefuse_eq_ok _ _ _).1 hroot
  rcases Option.map_eq_some_iff.1 hfound with ⟨⟨r, m⟩, hrow, heq⟩
  cases heq
  rcases (row?_eq_some hd).1 (Option.filter_eq_some_iff.1 hrow).1 with ⟨hm, hid⟩
  exact ⟨m, hsame ▸ hm, hid, rfl⟩

end Streams

namespace Threads

variable {p : Threads} {turns : List (Turn ThreadCall Unit)} {turn : Turn ThreadCall Unit}

/-! ### One turn -/

theorem distinct_step (turn : Turn ThreadCall Unit) (hd : p.shared.Distinct) :
    (p.step turn).shared.Distinct := by
  cases turn with
  | start call => exact hd
  | tick i u =>
      rcases ht : p.procs[i]? with _ | t
      · rwa [step, Pool.step_tick_none ht]
      rw [step, Pool.step_tick ht]
      cases t with
      | resolving room now new =>
          simp only [ThreadTask.advance]
          split
          · exact hd
          · split <;> exact hd
      | writing room m =>
          simp only [ThreadTask.advance]
          split
          · exact hd
          next ss' hss' => exact Streams.distinct_transact hd hss'
      | opening room => exact Streams.distinct_createRoom hd
      | destroying room => exact Streams.distinct_deleteRoom hd
      | answered answer => exact hd

/-- A row after a turn was there before, with what it replies to, or a task has inserted it and is
    done. -/
theorem parent_step {r : RoomId} {x : Message} (hx : (p.step turn).shared.Has r x) :
    (∃ y, p.shared.Has r y ∧ y.id = x.id ∧ y.parentMessageId = x.parentMessageId) ∨
      ∃ i m, turn = .tick i () ∧ p.procs[i]? = some (.writing r m) ∧ m.newId = some x.id ∧
        x.parentMessageId = m.parent ∧
        (p.step turn).procs = p.procs.set i (.answered (.ok ())) := by
  cases turn with
  | start call => exact Or.inl ⟨x, hx, rfl, rfl⟩
  | tick i u =>
      rcases ht : p.procs[i]? with _ | t
      · rw [step, Pool.step_tick_none ht] at hx
        exact Or.inl ⟨x, hx, rfl, rfl⟩
      rw [step, Pool.step_tick ht] at hx ⊢
      cases t with
      | resolving room now new =>
          simp only [ThreadTask.advance] at hx
          split at hx
          · exact Or.inl ⟨x, hx, rfl, rfl⟩
          · split at hx <;> exact Or.inl ⟨x, hx, rfl, rfl⟩
      | writing room m =>
          simp only [ThreadTask.advance] at hx ⊢
          split at hx
          · exact Or.inl ⟨x, hx, rfl, rfl⟩
          next ss' hss' =>
            rcases Streams.parent_transact hss' hx with hold | ⟨rfl, hnew, hparent⟩
            · exact Or.inl hold
            · exact Or.inr ⟨i, m, rfl, ht, hnew, hparent, rfl⟩
      | opening room => exact Or.inl ⟨x, Streams.has_createRoom.1 hx, rfl, rfl⟩
      | destroying room => exact Or.inl ⟨x, (Streams.has_deleteRoom.1 hx).1, rfl, rfl⟩
      | answered answer => exact Or.inl ⟨x, hx, rfl, rfl⟩

/-- A task after a turn was there before, or has just started, or has taken its next step. -/
theorem task_step {j : Nat} {t : ThreadTask} (h : (p.step turn).procs[j]? = some t) :
    p.procs[j]? = some t ∨
      (∃ call, turn = .start call ∧ j = p.procs.length ∧ t = ThreadTask.enter call) ∨
      ∃ old, turn = .tick j () ∧ p.procs[j]? = some old ∧
        t = (ThreadTask.advance () p.shared old).2 := by
  cases turn with
  | start call =>
      have hprocs : (p.step (.start call)).procs = p.procs ++ [ThreadTask.enter call] := rfl
      rw [hprocs] at h
      by_cases hj : j < p.procs.length
      · rw [List.getElem?_append_left hj] at h
        exact Or.inl h
      · rw [List.getElem?_append_right (by omega)] at h
        rcases List.getElem?_eq_some_iff.1 h with ⟨hlt, heq⟩
        have hzero : j - p.procs.length = 0 := by simpa using hlt
        simp only [hzero, List.getElem_cons_zero] at heq
        exact Or.inr (Or.inl ⟨call, rfl, by omega, heq.symm⟩)
  | tick i u =>
      rcases ht : p.procs[i]? with _ | old
      · rw [step, Pool.step_tick_none ht] at h
        exact Or.inl h
      rw [step, Pool.step_tick ht] at h
      by_cases hij : i = j
      · subst hij
        rw [List.getElem?_set_self (List.getElem?_eq_some_iff.1 ht).1] at h
        exact Or.inr (Or.inr ⟨old, rfl, ht, (Option.some.inj h).symm⟩)
      · rw [List.getElem?_set_ne hij] at h
        exact Or.inl h

-- A task inserts the row it has drawn an id for, and then no other.
theorem newId_advance {ss : Streams} {t : ThreadTask} {id : MessageId}
    (h : (ThreadTask.advance () ss t).2.newId = some id) : t.newId = some id := by
  cases t with
  | resolving room now new =>
      simp only [ThreadTask.advance] at h
      split at h
      · exact h
      · split at h
        · cases h
        · exact h
  | writing room m =>
      simp only [ThreadTask.advance] at h
      split at h <;> cases h
  | opening room => cases h
  | destroying room => cases h
  | answered answer => cases h

theorem newId_enter (call : ThreadCall) : (ThreadTask.enter call).newId = drawn (.start call) := by
  cases call with
  | write room m => cases m <;> rfl
  | createRoom room => rfl
  | deleteRoom room => rfl

/-! ### What has ever been -/

theorem after_concat (turns : List (Turn ThreadCall Unit)) (turn : Turn ThreadCall Unit) :
    after (turns ++ [turn]) = (after turns).step turn := by
  rw [after, after, Run.run_append, Run.run_cons, Run.run_nil]

theorem ever_concat {room : RoomId} {x : Message} : Ever (turns ++ [turn]) room x ↔
    Ever turns room x ∨ (after (turns ++ [turn])).shared.Has room x := by
  constructor
  · rintro ⟨pre, hpre, hx⟩
    rcases List.prefix_concat_iff.1 hpre with rfl | hpre
    · exact Or.inr hx
    · exact Or.inl ⟨pre, hpre, hx⟩
  · rintro (⟨pre, hpre, hx⟩ | hx)
    · exact ⟨pre, hpre.trans (List.prefix_append _ _), hx⟩
    · exact ⟨_, List.prefix_refl _, hx⟩

theorem ever_of_has {room : RoomId} {x : Message} (h : (after turns).shared.Has room x) :
    Ever turns room x := ⟨turns, List.prefix_refl _, h⟩

theorem wasRoot_concat {room : RoomId} {id : MessageId} (h : WasRoot turns room id) :
    WasRoot (turns ++ [turn]) room id := by
  rcases h with ⟨x, hx, hid, hroot⟩
  exact ⟨x, ever_concat.2 (Or.inl hx), hid, hroot⟩

theorem distinct_after (turns : List (Turn ThreadCall Unit)) : (after turns).shared.Distinct := by
  induction turns using List.reverseRecOn with
  | nil => exact Streams.distinct_nil
  | append_singleton turns turn ih =>
      rw [after_concat]
      exact distinct_step turn ih

/-- Every reply names a root that is or was in its room, and so does every reply that is about to
    be inserted. -/
structure Flat (turns : List (Turn ThreadCall Unit)) : Prop where
  rows : ∀ room m id, (after turns).shared.Has room m → m.parentMessageId = some id →
    WasRoot turns room id
  tasks : ∀ room m id, .writing room m ∈ (after turns).procs → m.parent = some id →
    WasRoot turns room id

/-- Replies name roots. -/
theorem flat_after (turns : List (Turn ThreadCall Unit)) : Flat turns := by
  induction turns using List.reverseRecOn with
  | nil =>
      refine ⟨fun room m id hm => ?_, fun room m id hm => absurd hm List.not_mem_nil⟩
      rcases hm with ⟨st, hst, -⟩
      cases hst
  | append_singleton turns turn ih =>
      constructor
      · intro room m id hm hparent
        rw [after_concat] at hm
        rcases parent_step hm with ⟨y, hy, -, hsame⟩ | ⟨i, w, -, htask, -, hinserted, -⟩
        · exact wasRoot_concat (ih.rows room y id hy (hsame.trans hparent))
        · refine wasRoot_concat (ih.tasks room w id (List.mem_of_getElem? htask) ?_)
          rw [← hinserted, hparent]
      · intro room m id hm hparent
        rw [after_concat] at hm
        rcases List.mem_iff_getElem?.1 hm with ⟨j, hj⟩
        rcases task_step hj with hold | ⟨call, -, -, hnew⟩ | ⟨old, -, hold, hnext⟩
        · exact wasRoot_concat (ih.tasks room m id (List.mem_of_getElem? hold) hparent)
        · -- A new message starts with its parent to be looked up, and other writes have none.
          cases call with
          | write room' m' => cases m' <;> cases hnew <;> cases hparent
          | createRoom room' => cases hnew
          | deleteRoom room' => cases hnew
        · cases old with
          | resolving room' now new =>
              simp only [ThreadTask.advance] at hnext
              split at hnext
              next hnone =>
                cases hnext
                rw [Mutation.parent, hnone] at hparent
                cases hparent
              next claimed hclaimed =>
                split at hnext
                · cases hnext
                next root hroot =>
                  cases hnext
                  have hid : root = id := Option.some.inj hparent
                  rcases Streams.resolveParent_eq_ok (distinct_after turns) hroot with
                    ⟨x, hx, -, hxroot⟩
                  refine wasRoot_concat ?_
                  -- The message that is replied to is a reply itself, or a root.
                  cases hxparent : x.parentMessageId with
                  | none =>
                      rw [hxparent, Option.getD_none] at hxroot
                      exact ⟨x, ever_of_has hx, hxroot.symm.trans hid, hxparent⟩
                  | some id' =>
                      rw [hxparent, Option.getD_some] at hxroot
                      rw [← hid, hxroot]
                      exact ih.rows room x id' hx hxparent
          | writing room' m' =>
              simp only [ThreadTask.advance] at hnext
              split at hnext <;> cases hnext
          | opening room' => cases hnext
          | destroying room' => cases hnext
          | answered answer => cases hnext

/-! ### An id is one message -/

theorem fresh_concat (h : Fresh (turns ++ [turn])) :
    Fresh turns ∧ ∀ id, drawn turn = some id → id ∉ turns.filterMap drawn := by
  rw [Fresh, List.filterMap_append] at h
  refine ⟨(List.nodup_append.1 h).1, fun id hid hmem => ?_⟩
  exact (List.nodup_append.1 h).2.2 id hmem id (by simp [hid]) rfl

theorem mem_drawn_concat {id : MessageId} : id ∈ (turns ++ [turn]).filterMap drawn ↔
    id ∈ turns.filterMap drawn ∨ drawn turn = some id := by
  rw [List.filterMap_append, List.mem_append]
  refine or_congr_right ?_
  rcases h : drawn turn with _ | id' <;> simp [h, eq_comm]

-- A task that is to insert a row had its id before, or has just started with it.
theorem newId_step {j : Nat} {t : ThreadTask} {id : MessageId}
    (h : (p.step turn).procs[j]? = some t) (hid : t.newId = some id) :
    (∃ old, p.procs[j]? = some old ∧ old.newId = some id) ∨
      (j = p.procs.length ∧ drawn turn = some id) := by
  rcases task_step h with hold | ⟨call, rfl, hj, rfl⟩ | ⟨old, -, hold, rfl⟩
  · exact Or.inl ⟨t, hold, hid⟩
  · exact Or.inr ⟨hj, (newId_enter call).symm.trans hid⟩
  · exact Or.inl ⟨old, hold, newId_advance hid⟩

-- A row that has ever been there is one that was, or has been inserted at the last turn.
theorem ever_step {room : RoomId} {x : Message} (h : Ever (turns ++ [turn]) room x) :
    (∃ y, Ever turns room y ∧ y.id = x.id ∧ y.parentMessageId = x.parentMessageId) ∨
      ∃ i m, turn = .tick i () ∧ (after turns).procs[i]? = some (.writing room m) ∧
        m.newId = some x.id ∧ x.parentMessageId = m.parent ∧
        (after (turns ++ [turn])).procs = (after turns).procs.set i (.answered (.ok ())) := by
  rcases ever_concat.1 h with hold | hnow
  · exact Or.inl ⟨x, hold, rfl, rfl⟩
  · rw [after_concat] at hnow ⊢
    rcases parent_step hnow with ⟨y, hy, hsame⟩ | hnew
    · exact Or.inl ⟨y, ever_of_has hy, hsame⟩
    · exact Or.inr hnew

/-- An id stands for one message in one room, and one that is still to be inserted for none yet. -/
structure Steady (turns : List (Turn ThreadCall Unit)) : Prop where
  same : ∀ room room' x x', Ever turns room x → Ever turns room' x' → x.id = x'.id →
    room = room' ∧ x.parentMessageId = x'.parentMessageId
  unused : ∀ (j : Nat) t id, (after turns).procs[j]? = some t → t.newId = some id →
    ∀ room x, Ever turns room x → x.id ≠ id
  apart : ∀ (i j : Nat) t t' id, (after turns).procs[i]? = some t →
    (after turns).procs[j]? = some t' → t.newId = some id → t'.newId = some id → i = j
  tasks : ∀ (j : Nat) t id, (after turns).procs[j]? = some t → t.newId = some id →
    id ∈ turns.filterMap drawn
  rows : ∀ room x, Ever turns room x → x.id ∈ turns.filterMap drawn

/-- An id stands for one message. -/
theorem steady_after (turns : List (Turn ThreadCall Unit)) (hfresh : Fresh turns) :
    Steady turns := by
  induction turns using List.reverseRecOn with
  | nil =>
      have hever : ∀ room x, ¬ Ever [] room x := by
        rintro room x ⟨pre, hpre, st, hst, -⟩
        rw [List.prefix_nil.1 hpre] at hst
        cases hst
      have hprocs : ∀ (j : Nat) t, (after []).procs[j]? ≠ some t := by
        intro j t hj
        cases hj
      exact ⟨fun room _ x _ hx => absurd hx (hever room x), fun j t _ hj => absurd hj (hprocs j t),
        fun i _ t _ _ hi => absurd hi (hprocs i t), fun j t _ hj => absurd hj (hprocs j t),
        fun room x hx => absurd hx (hever room x)⟩
  | append_singleton turns turn ih =>
      rcases fresh_concat hfresh with ⟨hturns, hdrawn⟩
      have ih := ih hturns
      constructor
      · intro room room' x x' hx hx' hid
        rcases ever_step hx with ⟨y, hy, hyid, hyp⟩ | ⟨i, m, hi, htask, hnew, hparent, -⟩
        · rcases ever_step hx' with ⟨y', hy', hyid', hyp'⟩ | ⟨j, m', -, htask', hnew', -, -⟩
          · rw [← hyp, ← hyp']
            exact ih.same room room' y y' hy hy' (hyid.trans (hid.trans hyid'.symm))
          · exact absurd (hyid.trans hid) (ih.unused j _ _ htask' hnew' room y hy)
        · rcases ever_step hx' with ⟨y', hy', hyid', -⟩ | ⟨j, m', hj, htask', -, hparent', -⟩
          · exact absurd (hyid'.trans hid.symm) (ih.unused i _ _ htask hnew room' y' hy')
          · -- One turn inserts one row.
            cases hi.symm.trans hj
            cases htask.symm.trans htask'
            exact ⟨rfl, hparent.trans hparent'.symm⟩
      · intro j t id hj hid room x hx hxid
        rw [after_concat] at hj
        rcases newId_step hj hid with ⟨old, hold, hoid⟩ | ⟨-, hstart⟩
        · rcases ever_step hx with ⟨y, hy, hyid, -⟩ | ⟨i, m, hi, htask, hnew, -, hprocs⟩
          · exact ih.unused j old id hold hoid room y hy (hyid.trans hxid)
          · -- The task that has inserted the row is done, and no other has its id.
            cases ih.apart i j _ _ id htask hold (hnew.trans (by rw [hxid])) hoid
            rw [← after_concat, hprocs,
              List.getElem?_set_self (List.getElem?_eq_some_iff.1 htask).1] at hj
            cases hj
            cases hid
        · rcases ever_step hx with ⟨y, hy, hyid, -⟩ | ⟨i, m, rfl, -⟩
          · rw [← hxid, ← hyid] at hstart
            exact hdrawn _ hstart (ih.rows room y hy)
          · cases hstart
      · intro i j t t' id hi hj hid hid'
        rw [after_concat] at hi hj
        rcases newId_step hi hid with ⟨old, hold, hoid⟩ | ⟨hilast, hstart⟩
        · rcases newId_step hj hid' with ⟨old', hold', hoid'⟩ | ⟨-, hstart⟩
          · exact ih.apart i j old old' id hold hold' hoid hoid'
          · exact absurd (ih.tasks i old id hold hoid) (hdrawn id hstart)
        · rcases newId_step hj hid' with ⟨old', hold', hoid'⟩ | ⟨hjlast, -⟩
          · exact absurd (ih.tasks j old' id hold' hoid') (hdrawn id hstart)
          · rw [hilast, hjlast]
      · intro j t id hj hid
        rw [after_concat] at hj
        rcases newId_step hj hid with ⟨old, hold, hoid⟩ | ⟨-, hstart⟩
        · exact mem_drawn_concat.2 (Or.inl (ih.tasks j old id hold hoid))
        · exact mem_drawn_concat.2 (Or.inr hstart)
      · intro room x hx
        refine mem_drawn_concat.2 (Or.inl ?_)
        rcases ever_step hx with ⟨y, hy, hyid, -⟩ | ⟨i, m, -, htask, hnew, -, -⟩
        · rw [← hyid]
          exact ih.rows room y hy
        · exact ih.tasks i _ _ htask hnew

/-! ### How a thread is read -/

variable {isMember : RoomId → Bool} {hides : WalletAddress → Bool}

-- The root that a message names is in its room, if it is still there.
theorem root_of (hs : Steady turns) {room room' : RoomId} {m root : Message} {id : MessageId}
    (hm : (after turns).shared.Has room m) (hparent : m.parentMessageId = some id)
    (hroot : (after turns).shared.Has room' root) (hid : root.id = id) :
    room' = room ∧ root.parentMessageId = none := by
  rcases (flat_after turns).rows room m id hm hparent with ⟨x, hx, hxid, hxroot⟩
  rcases hs.same room room' x root hx (ever_of_has hroot) (hxid.trans hid.symm) with ⟨hr, hp⟩
  exact ⟨hr.symm, hp.symm.trans hxroot⟩

/-- A thread is the same from a reply as from its root. -/
theorem thread_reply (hs : Steady turns) {room : RoomId} {m : Message} {id : MessageId}
    (hm : (after turns).shared.Has room m) (hparent : m.parentMessageId = some id)
    (hmember : isMember room = true) :
    (after turns).shared.thread isMember hides m.id =
      (after turns).shared.thread isMember hides id := by
  have hd := distinct_after turns
  have hfrom : (after turns).shared.threadRoot m.id true = some (id, room) := by
    rw [Streams.threadRoot_eq hd hm, hparent, Option.getD_some]
  have hin : ensure (isMember room) .accessDenied = .ok () := by rw [hmember]; rfl
  cases hrow : (after turns).shared.row? id with
  | none =>
      -- The root is gone, and neither finds it.
      have hroot : (after turns).shared.threadRoot id true = none := by
        rw [Streams.threadRoot, hrow]
        rfl
      have hthread : (after turns).shared.getThread id hides = none := by
        rw [Streams.getThread, hrow]
        rfl
      simp only [Streams.thread, hfrom, hroot, orRefuse]
      change (ensure (isMember room) .accessDenied >>= _) = _
      rw [hin]
      change orRefuse ((after turns).shared.getThread id hides) _ = _
      rw [hthread]
      rfl
  | some found =>
      rcases found with ⟨room', root⟩
      rcases (Streams.row?_eq_some hd).1 hrow with ⟨hroot, hid⟩
      rcases root_of hs hm hparent hroot hid with ⟨rfl, hnone⟩
      have hto : (after turns).shared.threadRoot id true = some (id, room') := by
        rw [← hid, Streams.threadRoot_eq hd hroot, hnone, Option.getD_none]
      simp only [Streams.thread, hfrom, hto]

/-- The rows of a thread as it is read: its root, and every reply that is shown, once and oldest
    first. -/
structure Reads (ss : Streams) (hides : WalletAddress → Bool) (room : RoomId) (root : Message)
    (replies : List Message) : Prop where
  start : ss.Has room root ∧ root.parentMessageId = none ∧ hides root.senderAddress = false
  listed : ∀ m, m ∈ replies ↔ ss.Has room m ∧ Streams.isReply root.id hides m = true
  once : replies.Nodup
  ordered : replies.Pairwise Message.oldestFirst

theorem mem_rows {ss : Streams} (hd : ss.Distinct) {m : Message} :
    m ∈ ss.rows ↔ ∃ room, ss.Has room m := by
  rw [Streams.rows, List.mem_flatMap]
  constructor
  · rintro ⟨p, hp, hm⟩
    exact ⟨p.1, p.2, Streams.stream_of_mem hd.rooms hp, hm⟩
  · rintro ⟨room, st, hst, hm⟩
    exact ⟨(room, st), Streams.mem_of_stream hst, hm⟩

theorem rows_nodup {ss : Streams} (hd : ss.Distinct) : ss.rows.Nodup := by
  refine List.nodup_flatMap.2 ⟨fun p hp => ?_, ?_⟩
  · exact List.Nodup.of_map _ (hd.keyed p.1 p.2 (Streams.stream_of_mem hd.rooms hp))
  · refine (List.pairwise_map.1 hd.rooms).imp_of_mem fun {p q} hp hq hne m hmp hmq => ?_
    exact hne (hd.apart p.1 q.1 m m ⟨p.2, Streams.stream_of_mem hd.rooms hp, hmp⟩
      ⟨q.2, Streams.stream_of_mem hd.rooms hq, hmq⟩ rfl)

/-- A thread that is answered is one thread of one room that the caller is a member of. -/
theorem thread_reads (hs : Steady turns) {id : MessageId} {list : List Message}
    (h : (after turns).shared.thread isMember hides id = .ok list) :
    ∃ room root replies, list = root :: replies ∧ isMember room = true ∧
      Reads (after turns).shared hides room root replies := by
  have hd := distinct_after turns
  rcases (bind_eq_ok _ _ _).1 h with ⟨⟨rootId, room⟩, hfrom, h⟩
  rcases (bind_eq_ok _ _ _).1 h with ⟨_, hmember, hread⟩
  have hin : isMember room = true := (ensure_eq_ok _ _ _).1 hmember
  rcases Option.map_eq_some_iff.1 ((orRefuse_eq_ok _ _ _).1 hread) with ⟨⟨room', root⟩, hrow, rfl⟩
  rcases Option.filter_eq_some_iff.1 hrow with ⟨hrow, hshown⟩
  rcases (Streams.row?_eq_some hd).1 hrow with ⟨hroot, hid⟩
  -- The message that is asked for is the root, or names it.
  have hplace : room' = room ∧ root.parentMessageId = none := by
    rcases Option.map_eq_some_iff.1 ((orRefuse_eq_ok _ _ _).1 hfrom) with ⟨⟨r, m⟩, hasked, heq⟩
    rcases (Streams.row?_eq_some hd).1 (Option.filter_eq_some_iff.1 hasked).1 with ⟨hm, -⟩
    cases hparent : m.parentMessageId with
    | none =>
        rw [hparent, Option.getD_none] at heq
        cases heq
        rcases hd.eq_of_id hroot hm hid with ⟨hsame, rfl⟩
        exact ⟨hsame, hparent⟩
    | some p =>
        rw [hparent, Option.getD_some] at heq
        cases heq
        exact root_of hs hm hparent hroot hid
  rcases hplace with ⟨rfl, hnone⟩
  refine ⟨room', root, _, rfl, hin, ⟨hroot, hnone, by simpa using hshown⟩, fun m => ?_, ?_, ?_⟩
  · rw [Streams.replies, List.mem_insertionSort, List.mem_filter, mem_rows hd, ← hid]
    constructor
    · rintro ⟨⟨r, hm⟩, hreply⟩
      have hparent : m.parentMessageId = some root.id := by
        simp only [Streams.isReply, Bool.and_eq_true, beq_iff_eq] at hreply
        exact hreply.1.1
      rw [(root_of hs hm hparent hroot rfl).1]
      exact ⟨hm, hreply⟩
    · rintro ⟨hm, hreply⟩
      exact ⟨⟨room', hm⟩, hreply⟩
  · exact (List.perm_insertionSort _ _).nodup_iff.2 ((rows_nodup hd).filter _)
  · exact List.pairwise_insertionSort _ _

end Threads

/-- Whatever is claimed, replies name roots of their rooms, and a thread is the same from each of
    its messages: its root and every reply that is shown, oldest first. -/
theorem threads_flat (turns : List (Turn ThreadCall Unit)) (hfresh : Threads.Fresh turns) :
    (∀ room m id, (Threads.after turns).shared.Has room m → m.parentMessageId = some id →
      Threads.WasRoot turns room id ∧
        ∀ (isMember : RoomId → Bool) (hides : WalletAddress → Bool), isMember room = true →
          (Threads.after turns).shared.thread isMember hides m.id =
            (Threads.after turns).shared.thread isMember hides id) ∧
      ∀ isMember hides id list,
        (Threads.after turns).shared.thread isMember hides id = .ok list →
          ∃ room root replies, list = root :: replies ∧ isMember room = true ∧
            Threads.Reads (Threads.after turns).shared hides room root replies := by
  have hs := Threads.steady_after turns hfresh
  constructor
  · intro room m id hm hparent
    refine ⟨(Threads.flat_after turns).rows room m id hm hparent, ?_⟩
    intro isMember hides hmember
    exact Threads.thread_reply hs hm hparent hmember
  · intro isMember hides id list h
    exact Threads.thread_reads hs h

namespace Sample

/-- A note that answers the one of an id. -/
def answer (id parent : String) (sender : WalletAddress) : NewMessage :=
  { note id sender with parentMessageId := some ⟨parent⟩ }

/-- A note with two replies, of which the second claims the first as its parent. Then the first is
    edited. -/
def answeredTwice : List (Turn ThreadCall Unit) :=
  [.start (.createRoom team), .tick 0 (),
    .start (.write team (.createMessage 1000 (note "m1" alice))), .tick 1 (), .tick 1 (),
    .start (.write team (.createMessage 1001 (answer "m2" "m1" bob))), .tick 2 (), .tick 2 (),
    .start (.write team (.createMessage 1002 (answer "m3" "m2" alice))), .tick 3 (), .tick 3 (),
    .start (.write team (.updateMessage 1003 ⟨"m2"⟩ plainEdit)), .tick 4 ()]

theorem threads_flat_answered : Threads.Fresh answeredTwice ∧
    Threads.WasRoot answeredTwice team ⟨"m1"⟩ ∧
    ∀ hides, (Threads.after answeredTwice).shared.thread (· == team) hides ⟨"m3"⟩ =
      (Threads.after answeredTwice).shared.thread (· == team) hides ⟨"m1"⟩ := by
  have hfresh : Threads.Fresh answeredTwice := by decide +kernel
  have hrow : ((Threads.after answeredTwice).shared.row? ⟨"m3"⟩).map
      (fun p => (p.1, p.2.parentMessageId)) = some (team, some ⟨"m1"⟩) := by decide +kernel
  rcases Option.map_eq_some_iff.1 hrow with ⟨⟨room, m⟩, hrow, heq⟩
  rcases (Streams.row?_eq_some (Threads.distinct_after _)).1 hrow with ⟨hm, hid⟩
  have hparent : m.parentMessageId = some ⟨"m1"⟩ := congrArg Prod.snd heq
  have hroom : room = team := congrArg Prod.fst heq
  rw [hroom] at hm
  rcases (threads_flat answeredTwice hfresh).1 team m ⟨"m1"⟩ hm hparent with ⟨hroot, hsame⟩
  refine ⟨hfresh, hroot, fun hides => ?_⟩
  rw [← hid]
  exact hsame _ hides (by decide)

/-- A thread with an edited reply is not in serial order. -/
theorem edited_out_of_order : ¬ ∀ (turns : List (Turn ThreadCall Unit)), Threads.Fresh turns →
    ∀ isMember hides id root replies,
      (Threads.after turns).shared.thread isMember hides id = .ok (root :: replies) →
        (replies.map Message.msgSerial).Pairwise (· < ·) := by
  intro h
  have hread : ((Threads.after answeredTwice).shared.thread (· == team) (fun _ => false)
      ⟨"m1"⟩).toOption.map (List.map Message.msgSerial) = some [1000, 1003, 1002] := by
    decide +kernel
  rcases Option.map_eq_some_iff.1 hread with ⟨list, hlist, hserials⟩
  cases hthread : (Threads.after answeredTwice).shared.thread (· == team) (fun _ => false)
      ⟨"m1"⟩ with
  | error e =>
      rw [hthread] at hlist
      cases hlist
  | ok found =>
      rw [hthread] at hlist
      cases hlist
      cases list with
      | nil => cases hserials
      | cons root replies =>
          have hpairs := h answeredTwice (by decide +kernel) _ _ _ root replies hthread
          rw [List.map_cons] at hserials
          rw [(List.cons.inj hserials).2] at hpairs
          revert hpairs
          decide

end Sample

end PocketSkynet
