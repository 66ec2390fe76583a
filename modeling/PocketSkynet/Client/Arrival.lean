import PocketSkynet.Client.Drain
import PocketSkynet.Server.Sample

/-!
# Pages Arriving in Any Order

Answers given at different times reach the client in any order, sync pages and
history pages alike, with overlaps and repetitions. The server numbers every
version of a row, so a version can be told from a later one by its serial. What
the client should hold under an id is the version with the highest serial among
those delivered, and nothing if a deletion or a purge is higher.

The fold does not compare serials. It applies what arrives last, and it keeps no
trace of what it has removed, so the client holds the newest version exactly as
long as nothing arrives that is older than what bears on it already.

## Main definitions

* `Stream.snapshot`: The stream after some of a room's writes.
* `Fetch`: A page, given by the snapshot it was taken from.
* `Inbox`, `Inbox.receive`: A client, and everything delivered to it.
* `Inbox.Newest`: A version is the newest delivered under its id.
* `Inbox.Freshest`: The client holds the newest version of everything.
* `Inbox.InOrder`: The condition on one delivery.

## Theorems

* `keep_receive`, `sharp_receive`: The condition keeps the client fresh, and
  nothing weaker does.
* `freshest_iff`: The deliveries that leave the client fresh.
* `late_history_resurrects`: A message that comes back.
-/

namespace PocketSkynet

namespace Stream

/-- The stream of a room created at `now` after its first `i` writes. -/
def snapshot (now : Nat) (ms : List Mutation) (i : Nat) : Stream :=
  Run.run apply (create now) (ms.take i)

theorem wellFormed_snapshot {now : Nat} (h : 0 < now) (ms : List Mutation) (i : Nat) :
    (snapshot now ms i).WellFormed :=
  Run.run_inv (fun s m hs => s.wellFormed_apply m hs) _ _ (wellFormed_create h)

/-- A row numbered below the counter of an earlier state was there already. -/
theorem mem_of_mem_run {s : Stream} (hs : s.WellFormed) (ms : List Mutation) {r : Message}
    (hr : r ∈ (Run.run apply s ms).rows) (hlt : r.msgSerial < s.nextSerial) : r ∈ s.rows := by
  induction ms generalizing s with
  | nil => exact hr
  | cons m ms ih =>
      have hnext := s.nextSerial_le_apply m
      rcases mem_apply hs (ih (s.wellFormed_apply m hs) hr (by omega)) with hr | hge
      · exact hr
      · omega

/-- Two versions with one serial are one version, whenever they were read. -/
theorem eq_of_snapshot_serial {now : Nat} (hnow : 0 < now) {ms : List Mutation} {i j : Nat}
    {a b : Message} (ha : a ∈ (snapshot now ms i).rows) (hb : b ∈ (snapshot now ms j).rows)
    (he : a.msgSerial = b.msgSerial) : a = b := by
  have hle : ∀ {i j : Nat} {a b : Message}, i ≤ j → a ∈ (snapshot now ms i).rows →
      b ∈ (snapshot now ms j).rows → a.msgSerial = b.msgSerial → a = b := by
    intro i j a b hij ha hb he
    have hi := wellFormed_snapshot hnow ms i
    obtain ⟨k, rfl⟩ := Nat.exists_eq_add_of_le hij
    rw [snapshot, List.take_add, Run.run_append] at hb
    have hlt := hi.below a ha
    exact hi.eq_of_serial ha (mem_of_mem_run hi _ hb (he ▸ hlt)) he
  rcases le_total i j with hij | hji
  · exact hle hij ha hb he
  · exact (hle hji hb ha he.symm).symm

end Stream

/-- One row reaching the client, in a sync page or in a history page. -/
inductive Delivery where
  | event (m : Message)
  | row (m : Message)
deriving DecidableEq, Repr

/-- What is delivered, whichever way. -/
def Delivery.message : Delivery → Message
  | .event m => m
  | .row m => m

/-- A request, with the number of writes that had happened when it was answered. -/
inductive Fetch where
  | sync (writes since : Nat)
  | history (writes before limit : Nat)
deriving DecidableEq, Repr

/-- The rows of the answer, one by one. -/
def Fetch.deliveries (hides : WalletAddress → Bool) (now : Nat) (ms : List Mutation) :
    Fetch → List Delivery
  | .sync writes since =>
      ((Stream.snapshot now ms writes).syncMessages hides since).1.map .event
  | .history writes before limit =>
      ((Stream.snapshot now ms writes).getMessages hides before limit).map .row

/-- A version the room has had; history pages carry only what can be shown. -/
def Delivery.Genuine (now : Nat) (ms : List Mutation) (d : Delivery) : Prop :=
  (∃ i, d.message ∈ (Stream.snapshot now ms i).rows) ∧
    ∀ m, d = .row m → m.displayable = true

theorem genuine_deliveries (hides : WalletAddress → Bool) (now : Nat) (ms : List Mutation)
    (fetches : List Fetch) :
    ∀ d ∈ fetches.flatMap (Fetch.deliveries hides now ms), d.Genuine now ms := by
  intro d hd
  obtain ⟨f, -, hd⟩ := List.mem_flatMap.1 hd
  cases f with
  | sync writes since =>
      rw [Fetch.deliveries, Stream.syncMessages_eq] at hd
      obtain ⟨m, hm, rfl⟩ := List.mem_map.1 hd
      refine ⟨⟨writes, (Stream.mem_pending.1 (List.mem_of_mem_take hm)).1⟩, ?_⟩
      intro m' h
      cases h
  | history writes before limit =>
      obtain ⟨m, hm, rfl⟩ := List.mem_map.1 hd
      refine ⟨⟨writes, (Stream.mem_getMessages hm).1⟩, ?_⟩
      intro m' h
      cases h
      exact Stream.displayable_getMessages hm

/-- A client and everything delivered to it so far. -/
structure Inbox where
  client : RoomState
  delivered : List Message
deriving DecidableEq

namespace Inbox

def start : Inbox := ⟨RoomState.empty, []⟩

/-- Fold an event, or merge a row of history. -/
def receive (b : Inbox) : Delivery → Inbox
  | .event m => ⟨b.client.foldOne m, b.delivered ++ [m]⟩
  | .row m => ⟨b.client.mergeOne m, b.delivered ++ [m]⟩

/-- The version is the newest delivered under its id, and can be shown. -/
def Newest (delivered : List Message) (id : MessageId) (m : Message) : Prop :=
  m ∈ delivered ∧ m.id = id ∧ m.displayable = true ∧
    ∀ v ∈ delivered, v.Concerns id → v.msgSerial ≤ m.msgSerial

/-- Held is what is newest, under every id. -/
def Freshest (b : Inbox) : Prop :=
  ∀ id m, b.client.held id = some m ↔ Newest b.delivered id m

/-- Nothing delivered so far that bears on the id is newer. -/
def Latest (delivered : List Message) (id : MessageId) (m : Message) : Prop :=
  ∀ v ∈ delivered, v.Concerns id → v.msgSerial ≤ m.msgSerial

/-- The condition on one delivery: a version folded is the latest of its message,
    a deletion or a purge is no older than what it removes, and a row of history
    is no newer than what is held, or the latest if nothing is. -/
def InOrder (b : Inbox) : Delivery → Prop
  | .event e =>
      match e.kind with
      | .add | .edit => Latest b.delivered e.id e
      | .delete => ∀ m ∈ b.client.held e.id, m.msgSerial ≤ e.msgSerial
      | .deleteAll => ∀ m ∈ b.client.messages, m.msgSerial ≤ e.msgSerial
      | _ => True
  | .row m =>
      match b.client.held m.id with
      | some h => m.msgSerial ≤ h.msgSerial
      | none => Latest b.delivered m.id m

instance (delivered : List Message) (id : MessageId) (m : Message) :
    Decidable (Latest delivered id m) :=
  inferInstanceAs (Decidable (∀ v ∈ delivered, _ → _))

instance (b : Inbox) (d : Delivery) : Decidable (b.InOrder d) := by
  unfold InOrder
  split <;> split <;> infer_instance

/-! ### The newest version -/

/-- What has no bearing on an id leaves its newest version alone. -/
theorem newest_append_other {delivered : List Message} {e : Message} {id : MessageId}
    (he : ¬ e.Concerns id) (m : Message) :
    Newest (delivered ++ [e]) id m ↔ Newest delivered id m := by
  constructor
  · rintro ⟨hm, hid, hd, hmax⟩
    refine ⟨?_, hid, hd, fun v hv => hmax v (List.mem_append_left _ hv)⟩
    rcases List.mem_append.1 hm with hm | hm
    · exact hm
    · rw [← List.mem_singleton.1 hm] at he
      exact absurd (Or.inr ⟨Message.isMessage_of_displayable hd, hid⟩) he
  · rintro ⟨hm, hid, hd, hmax⟩
    refine ⟨List.mem_append_left _ hm, hid, hd, fun v hv hc => ?_⟩
    rcases List.mem_append.1 hv with hv | hv
    · exact hmax v hv hc
    · exact absurd (List.mem_singleton.1 hv ▸ hc) he

/-- What bears on an id becomes its newest version, or leaves one that is newer. -/
theorem newest_append {delivered : List Message} {e : Message} {id : MessageId}
    (he : e.Concerns id) (m : Message) :
    Newest (delivered ++ [e]) id m ↔
      (m = e ∧ e.id = id ∧ e.displayable = true ∧ Latest delivered id e) ∨
        (Newest delivered id m ∧ e.msgSerial ≤ m.msgSerial) := by
  constructor
  · rintro ⟨hm, hid, hd, hmax⟩
    have hlast := hmax e (by simp) he
    rcases List.mem_append.1 hm with hm | hm
    · exact Or.inr ⟨⟨hm, hid, hd, fun v hv => hmax v (List.mem_append_left _ hv)⟩, hlast⟩
    · obtain rfl := List.mem_singleton.1 hm
      exact Or.inl ⟨rfl, hid, hd, fun v hv => hmax v (List.mem_append_left _ hv)⟩
  · rintro (⟨rfl, hid, hd, hlatest⟩ | ⟨⟨hm, hid, hd, hmax⟩, hle⟩)
    · refine ⟨by simp, hid, hd, fun v hv hc => ?_⟩
      rcases List.mem_append.1 hv with hv | hv
      · exact hlatest v hv hc
      · rw [List.mem_singleton.1 hv]
    · refine ⟨List.mem_append_left _ hm, hid, hd, fun v hv hc => ?_⟩
      rcases List.mem_append.1 hv with hv | hv
      · exact hmax v hv hc
      · rwa [List.mem_singleton.1 hv]

/-! ### One delivery -/

/-- What is kept along the way: the client is fresh, everything delivered is a
    version the room has had, and no two rows held share an id. -/
structure Inv (now : Nat) (ms : List Mutation) (b : Inbox) : Prop where
  fresh : b.Freshest
  genuine : ∀ v ∈ b.delivered, ∃ i, v ∈ (Stream.snapshot now ms i).rows
  keyed : Table.Keyed Message.id b.client.messages

section Step

variable {now : Nat} {ms : List Mutation} {b : Inbox} {d : Delivery}

theorem inv_start : Inv now ms start where
  fresh := by
    intro id m
    constructor
    · intro h
      cases h
    · rintro ⟨hm, -⟩
      cases hm
  genuine := fun _ hv => by cases hv
  keyed := Table.keyed_nil

/-- A version and a tombstone or a purge have different serials. -/
theorem serial_ne (hnow : 0 < now) (h : Inv now ms b) {e m : Message}
    (he : ∃ i, e ∈ (Stream.snapshot now ms i).rows) (hd : e.displayable = false) {id : MessageId}
    (hm : Newest b.delivered id m) (hle : e.msgSerial ≤ m.msgSerial)
    (hge : m.msgSerial ≤ e.msgSerial) : False := by
  obtain ⟨i, hi⟩ := h.genuine m hm.1
  obtain ⟨j, hj⟩ := he
  have hsame := Stream.eq_of_snapshot_serial hnow hi hj (le_antisymm hge hle)
  rw [← hsame, hm.2.2.1] at hd
  cases hd

/-- A delivery that keeps the client fresh keeps the rest as well. -/
theorem inv_receive (hd : d.Genuine now ms) (h : Inv now ms b) (hfresh : (b.receive d).Freshest) :
    Inv now ms (b.receive d) := by
  refine ⟨hfresh, ?_, ?_⟩
  · intro v hv
    cases d with
    | event m =>
        rcases List.mem_append.1 hv with hv | hv
        · exact h.genuine v hv
        · rw [List.mem_singleton.1 hv]
          exact hd.1
    | row m =>
        rcases List.mem_append.1 hv with hv | hv
        · exact h.genuine v hv
        · rw [List.mem_singleton.1 hv]
          exact hd.1
  · cases d with
    | event m => exact b.client.keyed_foldOne m h.keyed
    | row m => exact RoomState.keyed_mergeHistory b.client [m] h.keyed

/-- The version folded is the latest, so it is what should be held. -/
theorem fresh_upsert (hnow : 0 < now) (h : Inv now ms b) {e : Message}
    (he : ∃ i, e ∈ (Stream.snapshot now ms i).rows) (hd : e.displayable = true)
    (hlatest : Latest b.delivered e.id e) {st : RoomState}
    (hst : ∀ id, st.held id = if id = e.id then some e else b.client.held id) :
    Freshest ⟨st, b.delivered ++ [e]⟩ := by
  intro id m
  dsimp only
  rw [hst]
  by_cases hid : id = e.id
  · subst hid
    rw [if_pos rfl, newest_append (Or.inr ⟨Message.isMessage_of_displayable hd, rfl⟩)]
    constructor
    · intro hm
      cases hm
      exact Or.inl ⟨rfl, rfl, hd, hlatest⟩
    · rintro (⟨rfl, -⟩ | ⟨hm, hle⟩)
      · rfl
      · -- A version delivered before is no newer, so it has the same serial.
        have hge := hlatest m hm.1
          (Or.inr ⟨Message.isMessage_of_displayable hm.2.2.1, hm.2.1⟩)
        obtain ⟨i, hi⟩ := h.genuine m hm.1
        obtain ⟨j, hj⟩ := he
        rw [Stream.eq_of_snapshot_serial hnow hj hi (le_antisymm hle hge)]
  · rw [if_neg hid, h.fresh, newest_append_other]
    rintro (hk | ⟨-, hsame⟩)
    · simp [Message.displayable, MsgKind.isRenderable, hk] at hd
    · exact hid hsame.symm

/-- What removes rows that are no newer removes what should not be held. -/
theorem fresh_remove (hnow : 0 < now) (h : Inv now ms b) {e : Message}
    (he : ∃ i, e ∈ (Stream.snapshot now ms i).rows) (hd : e.displayable = false)
    (hold : ∀ id, e.Concerns id → ∀ m, b.client.held id = some m → m.msgSerial ≤ e.msgSerial)
    {st : RoomState}
    (hst : ∀ id, st.held id = if e.Concerns id then none else b.client.held id) :
    Freshest ⟨st, b.delivered ++ [e]⟩ := by
  intro id m
  dsimp only
  rw [hst]
  by_cases hid : e.Concerns id
  · rw [if_pos hid, newest_append hid]
    constructor
    · intro hm
      cases hm
    · rintro (⟨-, -, hshown, -⟩ | ⟨hm, hle⟩)
      · rw [hd] at hshown
        cases hshown
      · exact (serial_ne hnow h he hd hm hle (hold id hid m ((h.fresh id m).2 hm))).elim
  · rw [if_neg hid, h.fresh, newest_append_other hid]

/-- Where nothing newer than the removal was held, conversely. -/
theorem removed_older (h : Inv now ms b) {e : Message} (st : RoomState)
    (hst : ∀ id, e.Concerns id → st.held id = none) (hfresh : Freshest ⟨st, b.delivered ++ [e]⟩)
    {id : MessageId} (hid : e.Concerns id) {m : Message} (hm : b.client.held id = some m) :
    m.msgSerial ≤ e.msgSerial := by
  by_contra hlt
  have hnewest : Newest (b.delivered ++ [e]) id m :=
    (newest_append hid m).2 (Or.inr ⟨(h.fresh id m).1 hm, by omega⟩)
  have hheld := (hfresh id m).2 hnewest
  dsimp only at hheld
  rw [hst id hid] at hheld
  cases hheld

/-- Merging into an id that is held leaves everything as it is. -/
theorem held_mergeOne_held {st : RoomState} {m h : Message} (hh : st.held m.id = some h)
    (id : MessageId) : (st.mergeOne m).held id = st.held id := by
  rw [RoomState.held_mergeOne]
  split
  next hid => rw [hid.1, hh, Option.some_or]
  next => rfl

/-- Merging into an id that is not held inserts. -/
theorem held_mergeOne_free {st : RoomState} {m : Message} (hm : m.displayable = true)
    (hh : st.held m.id = none) (id : MessageId) :
    (st.mergeOne m).held id = if id = m.id then some m else st.held id := by
  rw [RoomState.held_mergeOne]
  by_cases hid : id = m.id
  · rw [if_pos ⟨hid, hm⟩, if_pos hid, hid, hh, Option.none_or]
  · rw [if_neg hid, if_neg fun h => hid h.1]

theorem concerns_delete {e : Message} (hk : e.kind = .delete) (id : MessageId) :
    e.Concerns id ↔ id = e.id := by
  simp [Message.Concerns, Message.isMessage, hk, eq_comm]

theorem not_displayable {e : Message} (hk : e.kind ≠ .add) (hk' : e.kind ≠ .edit) :
    e.displayable = false := by
  unfold Message.displayable MsgKind.isRenderable
  cases h : e.kind <;> simp_all

/-- **The step lemma.** What arrives in order keeps the client fresh. -/
theorem keep_receive (hnow : 0 < now) (hd : d.Genuine now ms) (h : Inv now ms b)
    (hc : b.InOrder d) : (b.receive d).Freshest := by
  cases d with
  | event e =>
      have he : ∃ i, e ∈ (Stream.snapshot now ms i).rows := hd.1
      have hshown : e.kind.isRenderable = true → e.displayable = true := by
        obtain ⟨i, hi⟩ := he
        exact (Stream.wellFormed_snapshot hnow ms i).displayable hi
      unfold InOrder at hc
      cases hk : e.kind with
      | add =>
          simp only [hk] at hc
          refine fresh_upsert hnow h he (hshown (by rw [hk]; rfl)) hc fun id => ?_
          simp only [RoomState.held_foldOne, hk]
      | edit =>
          simp only [hk] at hc
          refine fresh_upsert hnow h he (hshown (by rw [hk]; rfl)) hc fun id => ?_
          simp only [RoomState.held_foldOne, hk]
      | delete =>
          simp only [hk] at hc
          refine fresh_remove hnow h he (not_displayable (by simp [hk]) (by simp [hk])) ?_ ?_
          · intro id hid m hm
            rw [(concerns_delete hk id).1 hid] at hm
            exact hc m hm
          · intro id
            simp only [RoomState.held_foldOne, hk, concerns_delete hk id]
      | deleteAll =>
          simp only [hk] at hc
          refine fresh_remove hnow h he (not_displayable (by simp [hk]) (by simp [hk])) ?_ ?_
          · exact fun id _ m hm => hc m (Table.mem_of_lookup hm)
          · intro id
            have hid : e.Concerns id := Or.inl hk
            rw [if_pos hid, RoomState.held_foldOne, hk]
      | emoticonAdd | emoticonRemove | unknown =>
          have hother : ∀ id, ¬ e.Concerns id := fun id => by
            simp [Message.Concerns, Message.isMessage, hk]
          intro id m
          rw [receive, newest_append_other (hother id), ← h.fresh]
          simp only [RoomState.held_foldOne, hk]
  | row m =>
      have hshown := hd.2 m rfl
      unfold InOrder at hc
      cases hh : b.client.held m.id with
      | none =>
          simp only [hh] at hc
          exact fresh_upsert hnow h hd.1 hshown hc (held_mergeOne_free hshown hh)
      | some h' =>
          simp only [hh] at hc
          have hnew := (h.fresh m.id h').1 hh
          intro id x
          rw [receive]
          dsimp only
          rw [held_mergeOne_held hh]
          by_cases hid : m.Concerns id
          · have hsame : m.id = id := by
              rcases hid with hk | ⟨-, hid⟩
              · simp [Message.displayable, MsgKind.isRenderable, hk] at hshown
              · exact hid
            subst hsame
            rw [newest_append hid, hh]
            constructor
            · intro hx
              cases hx
              exact Or.inr ⟨hnew, hc⟩
            · rintro (⟨rfl, -, -, hlatest⟩ | ⟨hx, -⟩)
              · -- The row delivered is the version held, delivered once more.
                have hge := hlatest h' hnew.1
                  (Or.inr ⟨Message.isMessage_of_displayable hnew.2.2.1, hnew.2.1⟩)
                obtain ⟨i, hi⟩ := h.genuine h' hnew.1
                obtain ⟨j, hj⟩ := hd.1
                rw [Stream.eq_of_snapshot_serial hnow hi hj (le_antisymm hge hc)]
                rfl
              · rw [← hh]
                exact (h.fresh m.id x).2 hx
          · rw [newest_append_other hid]
            exact h.fresh id x

/-- What arrives out of order leaves the client holding something else. -/
theorem sharp_receive (hd : d.Genuine now ms) (h : Inv now ms b)
    (hfresh : (b.receive d).Freshest) : b.InOrder d := by
  cases d with
  | event e =>
      have hupsert : e.kind = .add ∨ e.kind = .edit → Latest b.delivered e.id e := by
        intro hk v hv
        have hheld : (b.client.foldOne e).held e.id = some e := by
          rw [RoomState.held_foldOne]
          rcases hk with hk | hk <;> simp [hk]
        exact ((hfresh e.id e).1 hheld).2.2.2 v (List.mem_append_left _ hv)
      cases hk : e.kind with
      | add =>
          simp only [InOrder, hk]
          exact hupsert (Or.inl hk)
      | edit =>
          simp only [InOrder, hk]
          exact hupsert (Or.inr hk)
      | delete =>
          simp only [InOrder, hk]
          intro m hm
          refine removed_older h (b.client.foldOne e) ?_ hfresh
            ((concerns_delete hk e.id).2 rfl) hm
          intro id hid
          simp [RoomState.held_foldOne, hk, (concerns_delete hk id).1 hid]
      | deleteAll =>
          simp only [InOrder, hk]
          intro m hm
          refine removed_older h (b.client.foldOne e) ?_ hfresh (Or.inl hk)
            (Table.lookup_of_mem h.keyed hm)
          intro id _
          simp [RoomState.held_foldOne, hk]
      | emoticonAdd | emoticonRemove | unknown => simp only [InOrder, hk]
  | row m =>
      have hshown := hd.2 m rfl
      have hmsg := Message.isMessage_of_displayable hshown
      cases hh : b.client.held m.id with
      | none =>
          simp only [InOrder, hh]
          intro v hv
          have hheld : (b.client.mergeOne m).held m.id = some m := by
            rw [held_mergeOne_free hshown hh, if_pos rfl]
          exact ((hfresh m.id m).1 hheld).2.2.2 v (List.mem_append_left _ hv)
      | some h' =>
          simp only [InOrder, hh]
          have hheld : (b.client.mergeOne m).held m.id = some h' := by
            rw [held_mergeOne_held hh, hh]
          have hin : m ∈ b.delivered ++ [m] := by simp
          exact ((hfresh m.id h').1 hheld).2.2.2 m hin (Or.inr ⟨hmsg, rfl⟩)

end Step

end Inbox

/-- **Any order.** The deliveries that leave the client with the newest version
    of everything, all along, are those that arrive in order. -/
theorem freshest_iff (hides : WalletAddress → Bool) (now : Nat) (ms : List Mutation)
    (fetches : List Fetch) (hnow : 0 < now) :
    Run.Throughout Inbox.receive Inbox.Freshest Inbox.start
        (fetches.flatMap (Fetch.deliveries hides now ms)) ↔
      Run.Along Inbox.receive Inbox.InOrder Inbox.start
        (fetches.flatMap (Fetch.deliveries hides now ms)) := by
  have keep : ∀ b d, Delivery.Genuine now ms d → Inbox.Inv now ms b → b.InOrder d →
      Inbox.Inv now ms (b.receive d) :=
    fun _ _ hd h hc => Inbox.inv_receive hd h (Inbox.keep_receive hnow hd h hc)
  have sharp : ∀ b d, Delivery.Genuine now ms d → Inbox.Inv now ms b →
      (b.receive d).Freshest → b.InOrder d :=
    fun _ _ hd h hf => Inbox.sharp_receive hd h hf
  exact Run.throughout_iff_along_of keep (fun _ h => h.fresh) sharp _ _
    (genuine_deliveries hides now ms fetches) Inbox.inv_start

section Sample

open Sample

/-- Alice posts, and takes the message back. -/
def postedAndDeleted : List Mutation :=
  [.createMessage 10 (note "msg_1" alice), .softDeleteMessage 11 ⟨"msg_1"⟩]

/-- A history page from between the two writes and the deletion, in both orders. -/
def historyThenSync : List Delivery :=
  [Fetch.history 1 0 50, .sync 2 0].flatMap (Fetch.deliveries (fun _ => false) 10 postedAndDeleted)

def syncThenHistory : List Delivery :=
  [Fetch.sync 2 0, .history 1 0 50].flatMap (Fetch.deliveries (fun _ => false) 10 postedAndDeleted)

theorem historyThenSync_fresh :
    Run.Throughout Inbox.receive Inbox.Freshest Inbox.start historyThenSync :=
  (freshest_iff (fun _ => false) 10 postedAndDeleted _ (by decide)).2 (by decide +kernel)

/-- Fetched before the deletion and merged after it, the page brings the message
    back. -/
theorem late_history_resurrects :
    ¬ Run.Throughout Inbox.receive Inbox.Freshest Inbox.start syncThenHistory := by
  intro h
  have hfresh := Run.throughout_last _ _ h
  have hback : ∃ m ∈ (Run.run Inbox.receive Inbox.start syncThenHistory).client.held ⟨"msg_1"⟩,
      ∃ v ∈ (Run.run Inbox.receive Inbox.start syncThenHistory).delivered,
        v.Concerns ⟨"msg_1"⟩ ∧ m.msgSerial < v.msgSerial := by
    decide +kernel
  obtain ⟨m, hm, v, hv, hc, hlt⟩ := hback
  have hle := ((hfresh ⟨"msg_1"⟩ m).1 hm).2.2.2 v hv hc
  omega

end Sample

end PocketSkynet
