import Mathlib.Data.List.Nodup
import PocketSkynet.Web.Tabs

/-!
# When Tabs Do Not Disturb Each Other

The serials of the local store are in order whatever the tabs do, as one transaction takes the
serial and writes the row. The rest of what is promised is not: a change of a message writes back
what it read before, and a purge leaves its marker in a transaction of its own. So a row can be
written back after another tab has moved it, deleted it or purged it, and a tab can sync to the
end between the purge and its marker, which may never come.

The invariant says where the row of every message is, what a tab that has read something may rely
on, and that every change is shown by a row of the store unless a purge has yet to leave its
marker. Rows never change in their place and new ones have new serials, so what one tab relies
on is not disturbed by another tab's step.

## Main definitions

* `Read`, `Task.Assertion`: What a tab relies on that has read something.
* `Serials`, `Placed`, `Shown`, `Inv`: What is so between any two steps.
* `History.put`, `History.clear`: What the steps do to the store.

## Theorems

* `Task.Assertion.later`: What a tab relies on stays so.
* `Serials.put`, `Placed.put`, `Inv.put`, `Inv.clear`, `Inv.drained`: The invariant, one step.
* `serials_run`: The serials are in order in every run.
* `tabs_safe`: Runs of careful steps keep what is promised throughout.
* `Sample.deleted_reappears`: Two tabs of which one deletes a message and the other one edits
  it, and a tab that syncs while a purge is at its second step.
-/

namespace PocketSkynet

namespace Local

open LocalRequests

variable {owner agent : WalletAddress}

/-- The id has been found at the key: if there is a row, it is the row of that message. -/
structure Read (h : History) (id : MessageId) (key : Key) : Prop where
  minted : id ∈ h.minted
  serial : key.serial ≤ h.store.serial
  row : ∀ e ∈ h.store.messages, e.1 = key → e.2.id = id ∧ e.2.isMessage = true

/-- What a tab relies on. -/
def Task.Assertion (h : History) : Task → Prop
  | reading id _ key => Read h id key
  | mutating id _ key row =>
      Read h id key ∧ row.id = id ∧ row.isMessage = true ∧
        ∀ e ∈ h.store.messages, e.1 = key → e.2 = row
  | paging room start since seen =>
      since ≤ max start h.store.serial ∧ ∀ e ∈ h.store.messages, e.1.room = room →
        start < e.1.serial → e.1.serial ≤ since → e.2 ∈ seen
  | _ => True

/-- The event is of a purge that has yet to leave its marker. -/
def Unmarked (s : Store) (ev : Event) : Prop :=
  ev.change = .purged ∧ ∀ e ∈ s.messages, e.1.room = ev.room → e.2.kind = .deleteAll →
    e.1.serial < ev.serial

/-- The serial of a row is in its key, no other row has it, and serials are in the order of the
    commits. -/
structure Serials (last : ℕ) (rows : List (Key × Message)) (commits : List ℕ) : Prop where
  row : ∀ e ∈ rows, e.2.msgSerial = e.1.serial
  serial : ∀ e ∈ rows, e.1.serial ≤ last
  distinct : (rows.map (·.1.serial)).Nodup
  increasing : commits.Pairwise (· < ·)
  committed : ∀ n ∈ commits, n ≤ last

/-- Where the rows are, and what the index says. -/
structure Placed (h : History) : Prop extends
    Serials h.store.serial h.store.messages h.commits where
  limit : h.store.serial ≤ serialLimit
  stored : ∀ e ∈ h.store.messages, e.1.Stored
  ids : (h.store.messages.map (·.2.id)).Nodup
  minted : ∀ e ∈ h.store.messages, e.2.id ∈ h.minted
  indexed : ∀ e ∈ h.store.messages, e.2.isMessage = true → h.store.msgid e.2.id = some e.1
  found : ∀ id key, h.store.msgid id = some key → Read h id key

/-- The event is shown by a row, or waits for the marker of a purge. -/
def Shown (h : History) (ev : Event) : Prop :=
  (∃ e ∈ h.store.messages, e.1.room = ev.room ∧ ev.Shows e.2) ∨
    ∃ purge ∈ h.events, purge.room = ev.room ∧ ev.serial ≤ purge.serial ∧ Unmarked h.store purge

/-- What is so between any two steps. -/
structure Inv (h : History) : Prop extends Placed h where
  goneMinted : ∀ id ∈ h.gone, id ∈ h.minted
  gone : ∀ e ∈ h.store.messages, e.2.id ∈ h.gone → e.2.kind = .delete
  happened : ∀ ev ∈ h.events, ev.serial ≤ h.store.serial + 1
  shown : ∀ ev ∈ h.events, Shown h ev
  learned : ∀ d ∈ h.drains, ∀ ev ∈ d.known, d.start < ev.serial → ∃ m ∈ d.seen, ev.Shows m

/-! ### What stays so -/

/-- The rows of a later store are rows of the earlier one, or have a new serial. -/
structure Later (h h' : History) : Prop where
  minted : h.minted ⊆ h'.minted
  serial : h.store.serial ≤ h'.store.serial
  rows : ∀ e ∈ h'.store.messages, e ∈ h.store.messages ∨ e.1.serial = h.store.serial + 1

theorem Read.later {h h' : History} {id : MessageId} {key : Key} (hread : Read h id key)
    (hlater : Later h h') : Read h' id key := by
  have hserial := hread.serial
  refine ⟨hlater.minted hread.minted, hserial.trans hlater.serial, fun e he hkey => ?_⟩
  rcases hlater.rows e he with hold | hnew
  · exact hread.row e hold hkey
  · rw [hkey] at hnew
    omega

/-- What a tab relies on stays so, as no row comes where it has looked. -/
theorem Task.Assertion.later {h h' : History} {c : Task} (hc : c.Assertion h)
    (hlater : Later h h') : c.Assertion h' := by
  cases c with
  | reading id act key => exact Read.later hc hlater
  | mutating id change key row =>
      rcases hc with ⟨hread, hid, hmessage, hrow⟩
      refine ⟨hread.later hlater, hid, hmessage, fun e he hkey => ?_⟩
      have hserial := hread.serial
      rcases hlater.rows e he with hold | hnew
      · exact hrow e hold hkey
      · rw [hkey] at hnew
        omega
  | paging room start since seen =>
      rcases hc with ⟨hsince, hseen⟩
      have hserial := hlater.serial
      refine ⟨by omega, fun e he hroom hstart hend => ?_⟩
      rcases hlater.rows e he with hold | hnew
      · exact hseen e hold hroom hstart hend
      · omega
  | answered answer => trivial
  | closed => trivial
  | sending room sender body => trivial
  | finding id act => trivial
  | reacting target code add room => trivial
  | clearing room => trivial
  | marking room => trivial

/-! ### What the steps do -/

/-- A row has been committed behind the rows that are kept. -/
def History.put (h : History) (kept : List (Key × Message)) (room : StaticKind) (row : Message)
    (minted gone : List MessageId) (events : List Event) : History where
  store :=
    { serial := h.store.serial + 1
      messages := kept ++ [(⟨room, h.store.serial + 1⟩, row)]
      msgid :=
        if row.isMessage then
          Function.update h.store.msgid row.id (some ⟨room, h.store.serial + 1⟩)
        else h.store.msgid }
  minted := h.minted ++ minted
  commits := h.commits ++ [h.store.serial + 1]
  gone := h.gone ++ gone
  events := h.events ++ events
  drains := h.drains

/-- A room has been purged, and has yet to be marked. -/
def History.clear (h : History) (room : StaticKind) : History :=
  { h with
    store := { h.store with messages := h.store.messages.filter fun e => e.1.room ≠ room }
    gone := h.gone ++
      (h.store.messages.filter fun e => e.1.room = room ∧ e.2.isMessage = true).map (·.2.id)
    events := h.events ++ [⟨room, h.store.serial + 1, .purged⟩] }

section Put

variable {h : History} {kept : List (Key × Message)} {room : StaticKind} {row : Message}
  {minted gone : List MessageId} {events : List Event}

theorem mem_put {e : Key × Message} :
    e ∈ (h.put kept room row minted gone events).store.messages ↔
      e ∈ kept ∨ e = (⟨room, h.store.serial + 1⟩, row) := by
  rw [History.put, List.mem_append, List.mem_singleton]

theorem later_put (hkept : kept.Sublist h.store.messages) :
    Later h (h.put kept room row minted gone events) := by
  refine ⟨List.subset_append_left _ _, Nat.le_succ _, fun e he => ?_⟩
  rcases mem_put.1 he with he | rfl
  · exact Or.inl (hkept.subset he)
  · exact Or.inr rfl

end Put

theorem later_clear (h : History) (room : StaticKind) : Later h (h.clear room) :=
  ⟨List.Subset.refl _, Nat.le_refl _, fun _ he => Or.inl (List.mem_of_mem_filter he)⟩

namespace Serials

variable {last : ℕ} {rows kept : List (Key × Message)} {commits : List ℕ} {row : Message}

theorem sublist (hs : Serials last rows commits) (hkept : kept.Sublist rows) :
    Serials last kept commits where
  row e he := hs.row e (hkept.subset he)
  serial e he := hs.serial e (hkept.subset he)
  distinct := hs.distinct.sublist (hkept.map _)
  increasing := hs.increasing
  committed := hs.committed

/-- A commit takes a serial behind all others. -/
theorem put (hs : Serials last rows commits) (hkept : kept.Sublist rows) (room : StaticKind)
    (hserial : row.msgSerial = last + 1) :
    Serials (last + 1) (kept ++ [(⟨room, last + 1⟩, row)]) (commits ++ [last + 1]) := by
  refine ⟨?_, ?_, ?_, ?_, ?_⟩
  · intro e he
    rcases List.mem_append.1 he with he | he
    · exact hs.row e (hkept.subset he)
    · rw [List.mem_singleton.1 he]
      exact hserial
  · intro e he
    rcases List.mem_append.1 he with he | he
    · exact (hs.serial e (hkept.subset he)).trans (Nat.le_succ _)
    · rw [List.mem_singleton.1 he]
  · rw [List.map_append]
    refine List.nodup_append.2
      ⟨hs.distinct.sublist (hkept.map _), List.nodup_singleton _, fun n hn m hm => ?_⟩
    rcases List.mem_map.1 hn with ⟨e, he, rfl⟩
    rw [List.mem_singleton.1 hm]
    exact Nat.ne_of_lt (Nat.lt_succ_of_le (hs.serial e (hkept.subset he)))
  · refine List.pairwise_append.2 ⟨hs.increasing, List.pairwise_singleton _ _, ?_⟩
    intro n hn m hm
    rw [List.mem_singleton.1 hm]
    exact Nat.lt_succ_of_le (hs.committed n hn)
  · intro n hn
    rcases List.mem_append.1 hn with hn | hn
    · exact (hs.committed n hn).trans (Nat.le_succ _)
    · exact (List.mem_singleton.1 hn).le

end Serials

namespace Placed

variable {h : History}

-- Two rows with one serial are one.
theorem eq_of_serial (hp : Placed h) {a b : Key × Message} (ha : a ∈ h.store.messages)
    (hb : b ∈ h.store.messages) (heq : a.1.serial = b.1.serial) : a = b :=
  List.inj_on_of_nodup_map hp.distinct ha hb heq

theorem eq_of_id (hp : Placed h) {a b : Key × Message} (ha : a ∈ h.store.messages)
    (hb : b ∈ h.store.messages) (heq : a.2.id = b.2.id) : a = b :=
  List.inj_on_of_nodup_map hp.ids ha hb heq

-- No row is in the place of a new one.
theorem ne_new (hp : Placed h) (room : StaticKind) {e : Key × Message}
    (he : e ∈ h.store.messages) : e.1 ≠ ⟨room, h.store.serial + 1⟩ := by
  intro heq
  have hserial := hp.serial e he
  rw [heq] at hserial
  exact Nat.not_succ_le_self _ hserial

variable {kept : List (Key × Message)} {room : StaticKind} {row : Message}
  {minted gone : List MessageId} {events : List Event}

-- What the index says of the message whose row is new, and of all others.
theorem found_put (hp : Placed h) (hkept : kept.Sublist h.store.messages)
    (hminted : row.id ∈ h.minted ++ minted) {id : MessageId} {key : Key}
    (hkey : (h.put kept room row minted gone events).store.msgid id = some key) :
    Read (h.put kept room row minted gone events) id key := by
  have hlater := @later_put h kept room row minted gone events hkept
  simp only [History.put] at hkey
  by_cases hmessage : row.isMessage = true
  · rw [if_pos hmessage] at hkey
    by_cases hid : id = row.id
    · rw [hid, Function.update_self] at hkey
      cases hkey
      refine ⟨hid ▸ hminted, Nat.le_refl _, fun e he heq => ?_⟩
      rcases mem_put.1 he with he | rfl
      · exact absurd heq (hp.ne_new room (hkept.subset he))
      · exact ⟨hid.symm, hmessage⟩
    · rw [Function.update_of_ne hid] at hkey
      exact (hp.found id key hkey).later hlater
  · rw [if_neg hmessage] at hkey
    exact (hp.found id key hkey).later hlater

theorem indexed_put (hp : Placed h) (hkept : kept.Sublist h.store.messages)
    (hids : ∀ e ∈ kept, e.2.id ≠ row.id) {e : Key × Message}
    (he : e ∈ (h.put kept room row minted gone events).store.messages)
    (hmessage : e.2.isMessage = true) :
    (h.put kept room row minted gone events).store.msgid e.2.id = some e.1 := by
  simp only [History.put]
  rcases mem_put.1 he with he | rfl
  · rw [← hp.indexed e (hkept.subset he) hmessage]
    by_cases hrow : row.isMessage = true
    · rw [if_pos hrow, Function.update_of_ne (hids e he)]
    · rw [if_neg hrow]
  · rw [if_pos hmessage, Function.update_self]

/-- A commit puts its row in a place of its own, if no row that is kept is of its message. -/
theorem put (hp : Placed h) (hkept : kept.Sublist h.store.messages)
    (hlimit : h.store.serial < serialLimit) (hserial : row.msgSerial = h.store.serial + 1)
    (hids : ∀ e ∈ kept, e.2.id ≠ row.id) (hminted : row.id ∈ h.minted ++ minted) :
    Placed (h.put kept room row minted gone events) := by
  refine { hp.toSerials.put hkept room hserial with
    limit := hlimit
    stored := ?_
    ids := ?_
    minted := ?_
    indexed := fun e he => hp.indexed_put hkept hids he
    found := fun id key hkey => hp.found_put hkept hminted hkey }
  · intro e he
    rcases mem_put.1 he with he | rfl
    · exact hp.stored e (hkept.subset he)
    · exact ⟨Nat.succ_pos _, hlimit⟩
  · simp only [History.put, List.map_append]
    refine List.nodup_append.2
      ⟨hp.ids.sublist (hkept.map _), List.nodup_singleton _, fun id hid other hother => ?_⟩
    rcases List.mem_map.1 hid with ⟨e, he, rfl⟩
    rw [List.mem_singleton.1 hother]
    exact hids e he
  · intro e he
    rcases mem_put.1 he with he | rfl
    · exact List.mem_append_left _ (hp.minted e (hkept.subset he))
    · exact hminted

end Placed

namespace Inv

variable {h : History}

section Put

variable {kept : List (Key × Message)} {room : StaticKind} {row : Message}
  {minted gone : List MessageId} {events : List Event}

-- What a row showed that is not kept is shown by the new one. A marker shows whatever has
-- happened in its room.
theorem shown_put (hinv : Inv h) (hkept : kept.Sublist h.store.messages)
    (hserial : row.msgSerial = h.store.serial + 1)
    (hmoved : ∀ e ∈ h.store.messages, e ∉ kept → e.1.room = room ∧
      ∀ ev ∈ h.events, ev.Shows e.2 → ev.Shows row) {ev : Event} (hev : ev ∈ h.events) :
    Shown (h.put kept room row minted gone events) ev := by
  have hmem := (@mem_put h kept room row minted gone events _).2 (Or.inr rfl)
  by_cases hmark : row.kind = .deleteAll ∧ ev.room = room
  · refine Or.inl ⟨_, hmem, hmark.2.symm, ?_, Or.inl hmark.1⟩
    rw [hserial]
    exact hinv.happened ev hev
  rcases hinv.shown ev hev with ⟨e, he, hroom, hshows⟩ | ⟨purge, hpurge, hroom, hle, hunmarked⟩
  · by_cases hkeep : e ∈ kept
    · exact Or.inl ⟨e, mem_put.2 (Or.inl hkeep), hroom, hshows⟩
    · rcases hmoved e he hkeep with ⟨hsame, hshown⟩
      exact Or.inl ⟨_, hmem, hsame.symm.trans hroom, hshown ev hev hshows⟩
  · refine Or.inr ⟨purge, List.mem_append_left _ hpurge, hroom, hle, hunmarked.1, ?_⟩
    intro e he heroom hkind
    rcases mem_put.1 he with he | rfl
    · exact hunmarked.2 e (hkept.subset he) heroom hkind
    · exact absurd ⟨hkind, hroom.symm.trans heroom.symm⟩ hmark

/-- A commit keeps the invariant, if the new row shows what has happened and what a row
    showed that is not kept, and is a tombstone if its message is gone. -/
theorem put (hinv : Inv h) (hplaced : Placed (h.put kept room row minted gone events))
    (hkept : kept.Sublist h.store.messages) (hserial : row.msgSerial = h.store.serial + 1)
    (hids : ∀ e ∈ kept, e.2.id ≠ row.id) (hgone : ∀ id ∈ gone, id = row.id)
    (hminted : row.id ∈ h.minted ++ minted)
    (htombstone : row.id ∈ h.gone ++ gone → row.kind = .delete)
    (hmoved : ∀ e ∈ h.store.messages, e ∉ kept → e.1.room = room ∧
      ∀ ev ∈ h.events, ev.Shows e.2 → ev.Shows row)
    (hevents : ∀ ev ∈ events, ev.room = room ∧ ev.serial = h.store.serial + 1 ∧ ev.Shows row) :
    Inv (h.put kept room row minted gone events) := by
  refine { hplaced with
    goneMinted := ?_, gone := ?_, happened := ?_, shown := ?_, learned := hinv.learned }
  · intro id hid
    rcases List.mem_append.1 hid with hid | hid
    · exact List.mem_append_left _ (hinv.goneMinted id hid)
    · rw [hgone id hid]
      exact hminted
  · intro e he hin
    rcases mem_put.1 he with he | rfl
    · rcases List.mem_append.1 hin with hin | hin
      · exact hinv.gone e (hkept.subset he) hin
      · exact absurd (hgone _ hin) (hids e he)
    · exact htombstone hin
  · intro ev hev
    rcases List.mem_append.1 hev with hev | hev
    · exact (hinv.happened ev hev).trans (Nat.le_succ _)
    · rw [(hevents ev hev).2.1]
      exact Nat.le_succ _
  · intro ev hev
    rcases List.mem_append.1 hev with hev | hev
    · exact hinv.shown_put hkept hserial hmoved hev
    · exact Or.inl ⟨_, mem_put.2 (Or.inr rfl), (hevents ev hev).1.symm, (hevents ev hev).2.2⟩

end Put

/-- A purge keeps the invariant: what has happened in the room waits for the marker. -/
theorem clear (hinv : Inv h) (room : StaticKind) : Inv (h.clear room) := by
  have hlater := later_clear h room
  have hkept : ∀ e ∈ (h.clear room).store.messages, e ∈ h.store.messages ∧ e.1.room ≠ room := by
    intro e he
    rcases List.mem_filter.1 he with ⟨he, hroom⟩
    exact ⟨he, of_decide_eq_true hroom⟩
  have hwaits : Unmarked (h.clear room).store ⟨room, h.store.serial + 1, .purged⟩ :=
    ⟨rfl, fun e he hroom _ => absurd hroom (hkept e he).2⟩
  have hpurge : (⟨room, h.store.serial + 1, .purged⟩ : Event) ∈ (h.clear room).events :=
    List.mem_append_right _ (List.mem_singleton.2 rfl)
  have hplaced : Placed (h.clear room) :=
    { hinv.toSerials.sublist List.filter_sublist with
      limit := hinv.limit
      stored := fun e he => hinv.stored e (hkept e he).1
      ids := hinv.ids.sublist (List.filter_sublist.map _)
      minted := fun e he => hinv.minted e (hkept e he).1
      indexed := fun e he => hinv.indexed e (hkept e he).1
      found := fun id key hkey => (hinv.found id key hkey).later hlater }
  refine { hplaced with
    goneMinted := ?_, gone := ?_, happened := ?_, shown := ?_, learned := hinv.learned }
  · intro id hid
    rcases List.mem_append.1 hid with hid | hid
    · exact hinv.goneMinted id hid
    · rcases List.mem_map.1 hid with ⟨e, he, rfl⟩
      exact hinv.minted e (List.mem_of_mem_filter he)
  · intro e he hin
    rcases hkept e he with ⟨he, hroom⟩
    rcases List.mem_append.1 hin with hin | hin
    · exact hinv.gone e he hin
    · -- A message that is gone with the room has no row elsewhere.
      rcases List.mem_map.1 hin with ⟨other, hother, hid⟩
      rcases List.mem_filter.1 hother with ⟨hother, hwhere⟩
      rw [hinv.eq_of_id hother he hid] at hwhere
      exact absurd (of_decide_eq_true hwhere).1 hroom
  · intro ev hev
    rcases List.mem_append.1 hev with hev | hev
    · exact hinv.happened ev hev
    · rw [List.mem_singleton.1 hev]
      exact Nat.le_refl _
  · intro ev hev
    by_cases hroom : ev.room = room
    · refine Or.inr ⟨_, hpurge, hroom.symm, ?_, hwaits⟩
      rcases List.mem_append.1 hev with hev | hev
      · exact hinv.happened ev hev
      · rw [List.mem_singleton.1 hev]
    · rcases List.mem_append.1 hev with hev | hev
      · rcases hinv.shown ev hev with ⟨e, he, heroom, hshown⟩ | ⟨purge, hin, hsame, hle, hmark⟩
        · refine Or.inl ⟨e, List.mem_filter.2 ⟨he, decide_eq_true ?_⟩, heroom, hshown⟩
          rw [heroom]
          exact hroom
        · refine Or.inr ⟨purge, List.mem_append_left _ hin, hsame, hle, hmark.1, ?_⟩
          exact fun e he => hmark.2 e (hkept e he).1
      · rw [List.mem_singleton.1 hev] at hroom
        exact absurd rfl hroom

/-- A drain that has learned of everything may end. -/
theorem drained (hinv : Inv h) {d : Drained}
    (hlearned : ∀ ev ∈ d.known, d.start < ev.serial → ∃ m ∈ d.seen, ev.Shows m) :
    Inv { h with drains := h.drains ++ [d] } := by
  refine { hinv with found := fun id key hkey => ?_, learned := fun other hother => ?_ }
  · have hread := hinv.found id key hkey
    exact ⟨hread.minted, hread.serial, hread.row⟩
  · rcases List.mem_append.1 hother with hother | hother
    · exact hinv.learned other hother
    · rw [List.mem_singleton.1 hother]
      exact hlearned

end Inv

/-! ### The steps of a tab -/

section Steps

variable {h : History} {x : Moment}

-- The put of a new row takes no row out.
theorem Inv.filter_new (hinv : Inv h) {kept : List (Key × Message)}
    (hkept : kept.Sublist h.store.messages) (room : StaticKind) :
    kept.filter (fun e => e.1 ≠ ⟨room, h.store.serial + 1⟩) = kept :=
  List.filter_eq_self.2 fun _ he => decide_eq_true (hinv.ne_new room (hkept.subset he))

-- What a step does that is not the last one of a drain and takes a serial.
theorem watch_commits {c : Task} {kept : List (Key × Message)} {room : StaticKind} {row : Message}
    {minted : List MessageId} (hends : c.ends owner h = none) (hcommits : c.commits = true)
    (hstore : c.effect owner x h.store =
      (h.put kept room row minted (c.removes owner h.store) (c.happens h.store).toList).store)
    (hminted : (c.mints x).toList = minted) :
    c.watch owner x h =
      h.put kept room row minted (c.removes owner h.store) (c.happens h.store).toList := by
  rw [Task.watch, hstore, hends, hcommits, hminted, Option.toList_none, List.append_nil, if_pos rfl]
  rfl

theorem watch_sending (hinv : Inv h) (room : StaticKind) (sender : WalletAddress) (body : Body) :
    Task.watch owner x h (.sending room sender body) =
      h.put h.store.messages room (messageRow body x.id sender (h.store.serial + 1) x.now) [x.id]
        [] [] := by
  refine watch_commits rfl rfl ?_ rfl
  simp only [Task.effect, Store.commitWithSerial, List.foldl_cons, List.foldl_nil, Store.apply,
    hinv.filter_new (List.Sublist.refl _) room]
  rfl

theorem watch_reacting (hinv : Inv h) (target : MessageId) (code : String) (add : Bool)
    (room : StaticKind) : Task.watch owner x h (.reacting target code add room) =
      h.put h.store.messages room
        (reactionRow add x.id owner target code (h.store.serial + 1) x.now) [x.id] [] [] := by
  refine watch_commits rfl rfl ?_ rfl
  simp only [Task.effect, Store.commitWithSerial, List.foldl_cons, List.foldl_nil, Store.apply,
    hinv.filter_new (List.Sublist.refl _) room]
  cases add <;> rfl

theorem watch_marking (hinv : Inv h) (room : StaticKind) : Task.watch owner x h (.marking room) =
    h.put h.store.messages room (purgeMarker x.id owner (h.store.serial + 1) x.now) [x.id]
      [] [] := by
  refine watch_commits rfl rfl ?_ rfl
  simp only [Task.effect, Store.commitWithSerial, List.foldl_cons, List.foldl_nil, Store.apply,
    hinv.filter_new (List.Sublist.refl _) room]
  rfl

theorem watch_mutating (hinv : Inv h) {id : MessageId} (change : MessageChange) (key : Key)
    {row : Message} (hid : row.id = id) :
    Task.watch owner x h (.mutating id change key row) =
      h.put (h.store.messages.filter fun e => e.1 ≠ key) key.room
        (change.rewrite row (h.store.serial + 1) x.now) []
        (Task.removes owner h.store (.mutating id change key row))
        (Task.happens h.store (.mutating id change key row)).toList := by
  have hnew := hinv.filter_new (List.filter_sublist (p := fun e => decide (e.1 ≠ key))) key.room
  have hrow : (change.rewrite row (h.store.serial + 1) x.now).id = id := by
    cases change <;> exact hid
  refine watch_commits rfl rfl ?_ rfl
  simp only [Task.effect, Store.commitWithSerial, List.foldl_cons, List.foldl_nil, Store.apply,
    hnew, History.put, hrow]
  cases change <;> rfl

theorem watch_clearing (hinv : Inv h) (room : StaticKind) :
    Task.watch owner x h (.clearing room) = h.clear room := by
  have hrange : ∀ e ∈ h.store.messages,
      Store.inRange owner (roomRange (room.name owner)) e = decide (e.1.room = room) :=
    fun e he => Bool.eq_iff_iff.2 ((inRange_room_iff (hinv.stored e he)).trans
      decide_eq_true_iff.symm)
  have hkept : (h.store.messages.filter fun e =>
      !Store.inRange owner (roomRange (room.name owner)) e) =
        h.store.messages.filter fun e => e.1.room ≠ room := by
    refine List.filter_congr fun e he => ?_
    rw [hrange e he, decide_not]
  have hgone : (h.store.messages.filter fun e =>
      Store.inRange owner (roomRange (room.name owner)) e && e.2.isMessage) =
        h.store.messages.filter fun e => e.1.room = room ∧ e.2.isMessage = true := by
    refine List.filter_congr fun e he => ?_
    rw [hrange e he, Bool.decide_and, Bool.decide_eq_true]
  simp only [Task.watch, Task.effect, Store.deleteRange, hkept, Task.mints, Task.commits,
    Task.removes, hgone, Task.happens, Task.ends, Option.toList_none, Bool.false_eq_true,
    if_false, List.append_nil, History.clear]
  rfl

/-- What a step leads to: the invariant, a later store, and what the tab relies on next. -/
structure Leads (owner : WalletAddress) (x : Moment) (h : History) (c : Task) : Prop where
  inv : Inv (c.watch owner x h)
  later : Later h (c.watch owner x h)
  next : (c.next owner x h.store).Assertion (c.watch owner x h)

theorem later_refl (h : History) : Later h h :=
  ⟨List.Subset.refl _, Nat.le_refl _, fun _ he => Or.inl he⟩

-- A step that reads only.
theorem watch_eq {c : Task} (heffect : c.effect owner x h.store = h.store)
    (hmints : c.mints x = none) (hcommits : c.commits = false)
    (hremoves : c.removes owner h.store = []) (hhappens : c.happens h.store = none) :
    c.watch owner x h = { h with drains := h.drains ++ (c.ends owner h).toList } := by
  rw [Task.watch, heffect, hmints, hcommits, hremoves, hhappens]
  simp only [Option.toList_none, List.append_nil, Bool.false_eq_true, if_false]

-- A step that reads, and is not the last one of a drain.
theorem leads_of_watch_eq (hinv : Inv h) {c : Task} (hwatch : c.watch owner x h = h)
    (hnext : (c.next owner x h.store).Assertion h) : Leads owner x h c := by
  refine ⟨?_, ?_, ?_⟩
  · rw [hwatch]
    exact hinv
  · rw [hwatch]
    exact later_refl h
  · rw [hwatch]
    exact hnext

theorem leads_finding (hinv : Inv h) (id : MessageId) (act : Act) :
    Leads owner x h (.finding id act) := by
  refine leads_of_watch_eq hinv ?_ ?_
  · rw [watch_eq rfl rfl rfl rfl rfl]
    exact congrArg (fun ds => { h with drains := ds }) (List.append_nil h.drains)
  · simp only [Task.next]
    cases hkey : h.store.msgid id with
    | none => trivial
    | some key => exact hinv.found id key hkey

theorem leads_reading (hinv : Inv h) {id : MessageId} (act : Act) {key : Key}
    (hread : Read h id key) : Leads owner x h (.reading id act key) := by
  refine leads_of_watch_eq hinv ?_ ?_
  · rw [watch_eq rfl rfl rfl rfl rfl]
    exact congrArg (fun ds => { h with drains := ds }) (List.append_nil h.drains)
  · simp only [Task.next]
    cases hrow : h.store.getMessage key with
    | none => trivial
    | some row =>
        rcases Option.map_eq_some_iff.1 hrow with ⟨e, he, rfl⟩
        have hmem := List.mem_of_find?_eq_some he
        have hkey : e.1 = key := by
          have hfound := List.find?_some he
          rwa [decide_eq_true_eq] at hfound
        cases act with
        | react code add => trivial
        | change change =>
            refine ⟨hread, (hread.row e hmem hkey).1, (hread.row e hmem hkey).2, ?_⟩
            intro other hother hsame
            rw [hinv.eq_of_serial hother hmem (by rw [hsame, hkey])]

-- A new row of an id that has not been minted disturbs nothing.
theorem leads_new (hinv : Inv h) {c : Task} {room : StaticKind} {row : Message}
    (hwatch : c.watch owner x h = h.put h.store.messages room row [row.id] [] [])
    (hlimit : h.store.serial < serialLimit) (hnew : row.id ∉ h.minted)
    (hserial : row.msgSerial = h.store.serial + 1)
    (hnext : (c.next owner x h.store).Assertion (h.put h.store.messages room row [row.id] [] [])) :
    Leads owner x h c := by
  have hkept := List.Sublist.refl h.store.messages
  have hids : ∀ e ∈ h.store.messages, e.2.id ≠ row.id := fun e he heq =>
    hnew (heq ▸ hinv.minted e he)
  have hminted : row.id ∈ h.minted ++ [row.id] :=
    List.mem_append_right _ (List.mem_singleton.2 rfl)
  refine ⟨?_, ?_, ?_⟩
  · rw [hwatch]
    refine hinv.put (hinv.toPlaced.put hkept hlimit hserial hids hminted) hkept hserial hids
      (fun _ hid => absurd hid List.not_mem_nil) hminted (fun hgone => ?_)
      (fun e he hnot => absurd he hnot) (fun _ hev => absurd hev List.not_mem_nil)
    rw [List.append_nil] at hgone
    exact absurd (hinv.goneMinted _ hgone) hnew
  · rw [hwatch]
    exact later_put hkept
  · rw [hwatch]
    exact hnext

-- What the old row of a message showed is shown by the row that is written back.
theorem shows_rewrite {change : MessageChange} {row : Message} {serial now : ℕ} {ev : Event}
    (hmessage : row.isMessage = true) (hkind : change ≠ .tombstone → row.kind ≠ .delete)
    (hle : ev.serial ≤ serial) (hshows : ev.Shows row) :
    ev.Shows (change.rewrite row serial now) := by
  have hmarker : row.kind ≠ .deleteAll := by
    intro hkind
    rw [Message.isMessage, hkind] at hmessage
    cases hmessage
  have hnamed := hshows.2.resolve_left hmarker
  refine ⟨hle.trans ?_, Or.inr ?_⟩
  · cases change <;> exact Nat.le_refl _
  cases hchange : ev.change with
  | purged =>
      rw [hchange] at hnamed
      exact hnamed.elim
  | edited id =>
      rw [hchange] at hnamed
      cases change <;> exact ⟨hnamed.1, rfl⟩
  | deleted id =>
      rw [hchange] at hnamed
      cases change with
      | tombstone => exact ⟨hnamed.1, rfl⟩
      | edit body => exact absurd hnamed.2 (hkind (by simp))

/-- The row that is written back is the only one of its message. -/
theorem inv_mutating (hinv : Inv h) {id : MessageId} {change : MessageChange} {key : Key}
    {row : Message} (hread : Task.Assertion h (.mutating id change key row))
    (hcareful : Task.Careful owner x h (.mutating id change key row)) :
    Inv (Task.watch owner x h (.mutating id change key row)) := by
  rcases hread with ⟨hread, hid, hmessage, hrow⟩
  rcases hcareful with ⟨hlimit, honly, hedit⟩
  have hkept := List.filter_sublist (l := h.store.messages) (p := fun e => decide (e.1 ≠ key))
  have hserial : (change.rewrite row (h.store.serial + 1) x.now).msgSerial =
      h.store.serial + 1 := by
    cases change <;> rfl
  have hsame : (change.rewrite row (h.store.serial + 1) x.now).id = id := by
    cases change <;> exact hid
  have hids : ∀ e ∈ h.store.messages.filter fun e => e.1 ≠ key,
      e.2.id ≠ (change.rewrite row (h.store.serial + 1) x.now).id := by
    intro e he heq
    rcases List.mem_filter.1 he with ⟨he, hne⟩
    exact of_decide_eq_true hne (honly e he (heq.trans hsame))
  have hminted : (change.rewrite row (h.store.serial + 1) x.now).id ∈ h.minted ++ [] := by
    rw [hsame, List.append_nil]
    exact hread.minted
  rw [watch_mutating hinv change key hid]
  refine hinv.put (hinv.toPlaced.put hkept hlimit hserial hids hminted) hkept hserial hids ?_
    hminted ?_ ?_ ?_
  · intro other hother
    rw [hsame]
    cases change with
    | edit body => cases hother
    | tombstone => exact List.mem_singleton.1 hother
  · -- An edit is of a row that is there and no tombstone, so its message is not gone.
    cases change with
    | tombstone => exact fun _ => rfl
    | edit body =>
        intro hgone
        rcases hedit (by simp) with ⟨hkind, e, he, hkey⟩
        have hstored := hrow e he hkey
        rw [hsame] at hgone
        refine absurd (hinv.gone e he ?_) ?_
        · rw [hstored, hid]
          exact (List.mem_append.1 hgone).resolve_right List.not_mem_nil
        · rw [hstored]
          exact hkind
  · intro e he hnot
    have hkey : e.1 = key := by
      by_contra hne
      exact hnot (List.mem_filter.2 ⟨he, decide_eq_true hne⟩)
    refine ⟨by rw [hkey], fun ev hev hshows => ?_⟩
    rw [hrow e he hkey] at hshows
    exact shows_rewrite hmessage (fun hne => (hedit hne).1) (hinv.happened ev hev) hshows
  · intro ev hev
    cases change with
    | edit body =>
        rw [List.mem_singleton.1 hev]
        exact ⟨rfl, rfl, Nat.le_refl _, Or.inr ⟨hid, rfl⟩⟩
    | tombstone =>
        rw [List.mem_singleton.1 hev]
        exact ⟨rfl, rfl, Nat.le_refl _, Or.inr ⟨hid, rfl⟩⟩

theorem leads_mutating (hinv : Inv h) {id : MessageId} {change : MessageChange} {key : Key}
    {row : Message} (hread : Task.Assertion h (.mutating id change key row))
    (hcareful : Task.Careful owner x h (.mutating id change key row)) :
    Leads owner x h (.mutating id change key row) := by
  refine ⟨inv_mutating hinv hread hcareful, ?_, trivial⟩
  rw [watch_mutating hinv change key hread.2.1]
  exact later_put List.filter_sublist

theorem leads_clearing (hinv : Inv h) (room : StaticKind) :
    Leads owner x h (.clearing room) := by
  have hwatch := @watch_clearing owner h x hinv room
  refine ⟨?_, ?_, trivial⟩
  · rw [hwatch]
    exact hinv.clear room
  · rw [hwatch]
    exact later_clear h room

-- The rows of a page have serials that have been taken.
theorem highest_page_le (hinv : Inv h) (room : StaticKind) (since : ℕ) :
    highestSerial (Task.page owner h.store room since).1 ≤ h.store.serial := by
  by_cases hnil : (Task.page owner h.store room since).1 = []
  · rw [hnil]
    exact Nat.zero_le _
  · rcases highestSerial_mem hnil with ⟨m, hm, hhighest⟩
    rcases List.mem_map.1 (List.mem_of_mem_take hm) with ⟨e, he, rfl⟩
    have hmem := (mem_entries.1 he).1
    rw [← hhighest, hinv.row e hmem]
    exact hinv.serial e hmem

-- A row behind where the drain has come to is in the page, or comes behind it.
theorem mem_page (hinv : Inv h) {room : StaticKind} {since : ℕ} {e : Key × Message}
    (he : e ∈ h.store.messages) (hroom : e.1.room = room) (hsince : since < e.1.serial) :
    e.2 ∈ (Task.page owner h.store room since).1 ∨
      (Task.page owner h.store room since).2 = true ∧
        highestSerial (Task.page owner h.store room since).1 < e.1.serial :=
  mem_syncPage (fun a ha => ⟨hinv.stored a ha, hinv.row a ha⟩)
    (fun _ ha _ hb => hinv.eq_of_serial ha hb) he hroom hsince

/-- A drain that reads its last page has seen a row for everything that has happened. -/
theorem learned_of_page (hinv : Inv h) {room : StaticKind} {start since : ℕ}
    {seen : List Message} (hassert : Task.Assertion h (.paging room start since seen))
    (hcareful : Task.Careful owner x h (.paging room start since seen))
    (hlast : (Task.page owner h.store room since).2 = false) {ev : Event} (hev : ev ∈ h.events)
    (hroom : ev.room = room) (hstart : start < ev.serial) :
    ∃ m ∈ seen ++ (Task.page owner h.store room since).1, ev.Shows m := by
  have hmarked := hcareful (not_lt.1 (of_decide_eq_false hlast))
  rcases hinv.shown ev hev with ⟨e, he, heroom, hshows⟩ | ⟨purge, hpurge, hsame, hle, hunmarked⟩
  · refine ⟨e.2, ?_, hshows⟩
    have hserial := hshows.1
    rw [hinv.row e he] at hserial
    by_cases hold : e.1.serial ≤ since
    · exact List.mem_append_left _
        (hassert.2 e he (heroom.trans hroom) (hstart.trans_le hserial) hold)
    · rcases mem_page hinv he (heroom.trans hroom) (not_le.1 hold) with hpage | hpage
      · exact List.mem_append_right _ hpage
      · rw [hlast] at hpage
        exact absurd hpage.1 Bool.false_ne_true
  · -- The marker that the purge has left is a row that shows it.
    rcases hmarked purge hpurge (hsame.trans hroom) hunmarked.1 (hstart.trans_le hle) with
      ⟨e, he, heroom, hkind, hmarker⟩
    have hlt := hunmarked.2 e he (heroom.trans (hsame.trans hroom).symm) hkind
    omega

theorem leads_paging (hinv : Inv h) {room : StaticKind} {start since : ℕ} {seen : List Message}
    (hassert : Task.Assertion h (.paging room start since seen))
    (hcareful : Task.Careful owner x h (.paging room start since seen)) :
    Leads owner x h (.paging room start since seen) := by
  have hwatch := @watch_eq owner h x (.paging room start since seen) rfl rfl rfl rfl rfl
  cases hmore : (Task.page owner h.store room since).2 with
  | true =>
      refine leads_of_watch_eq hinv ?_ ?_
      · rw [hwatch]
        simp only [Task.ends, hmore, if_true, Option.toList_none, List.append_nil]
      · simp only [Task.next, hmore, nextSyncCursor]
        split
        · rename_i cursor hcursor
          split at hcursor
          · cases hcursor
          · -- What has been seen is behind the start up to the last row of the page.
            cases hcursor
            have hhighest := @highest_page_le owner h hinv room since
            have hsince := hassert.1
            refine ⟨by omega, fun e he hroom hstart hend => ?_⟩
            by_cases hold : e.1.serial ≤ since
            · exact List.mem_append_left _ (hassert.2 e he hroom hstart hold)
            · rcases @mem_page owner h hinv _ _ _ he hroom (not_le.1 hold) with hpage | hpage
              · exact List.mem_append_right _ hpage
              · have hbehind := hpage.2
                omega
        · trivial
  | false =>
      have hends : Task.ends owner h (.paging room start since seen) =
          some ⟨start, seen ++ (Task.page owner h.store room since).1,
            h.events.filter fun ev => ev.room = room⟩ := by
        simp only [Task.ends, hmore, Bool.false_eq_true, if_false]
      rw [hends, Option.toList_some] at hwatch
      refine ⟨?_, ?_, ?_⟩
      · rw [hwatch]
        refine hinv.drained fun ev hev hstart => ?_
        rcases List.mem_filter.1 hev with ⟨hev, hroom⟩
        exact learned_of_page hinv hassert hcareful hmore hev (of_decide_eq_true hroom) hstart
      · rw [hwatch]
        exact ⟨List.Subset.refl _, Nat.le_refl _, fun _ he => Or.inl he⟩
      · simp only [Task.next, hmore, nextSyncCursor, Bool.not_false, Bool.true_or, if_true]
        trivial

/-- Every step of a tab that is careful leads on. -/
theorem leads (hinv : Inv h) {c : Task} (hc : c.Assertion h) (hcareful : c.Careful owner x h)
    (hover : c.isOver = false) : Leads owner x h c := by
  cases c with
  | answered answer => cases hover
  | closed => cases hover
  | sending room sender body =>
      exact leads_new hinv (watch_sending hinv room sender body) hcareful.2 hcareful.1 rfl trivial
  | finding id act => exact leads_finding hinv id act
  | reading id act key => exact leads_reading hinv act hc
  | mutating id change key row => exact leads_mutating hinv hc hcareful
  | reacting target code add room =>
      exact leads_new hinv (watch_reacting hinv target code add room) hcareful.2 hcareful.1 rfl
        trivial
  | clearing room => exact leads_clearing hinv room
  | marking room =>
      exact leads_new hinv (watch_marking hinv room) hcareful.2 hcareful.1 rfl trivial
  | paging room start since seen => exact leads_paging hinv hc hcareful

end Steps

/-! ### Runs -/

-- A drain that has just begun has nothing behind its start.
theorem assertion_enter (h : History) (call : Call) :
    (Task.enter owner agent call).Assertion h := by
  cases call with
  | send room body asAgent =>
      simp only [Task.enter]
      split
      · trivial
      · split <;> trivial
  | act id act =>
      cases act with
      | change change => trivial
      | react code add =>
          simp only [Task.enter]
          split <;> trivial
  | purge room =>
      simp only [Task.enter]
      split <;> trivial
  | drain room since =>
      simp only [Task.enter]
      split
      · trivial
      · refine ⟨le_max_left _ _, fun e _ _ hstart hend => ?_⟩
        omega

-- Where a tab that is careful comes to, however its step goes.
theorem leads_advance {h : History} {x : Moment} {c : Task} (hinv : Inv h) (hc : c.Assertion h)
    (hcareful : x.chance ≠ .fails → c.Careful owner x h) :
    Inv (c.watchedAdvance owner x h).1 ∧ Later h (c.watchedAdvance owner x h).1 ∧
      (c.watchedAdvance owner x h).2.Assertion (c.watchedAdvance owner x h).1 := by
  unfold Task.watchedAdvance
  by_cases hover : c.isOver = true
  · rw [if_pos hover]
    exact ⟨hinv, later_refl h, hc⟩
  · rw [if_neg hover]
    have hrun := Bool.eq_false_of_not_eq_true hover
    cases hchance : x.chance with
    | fails => exact ⟨hinv, later_refl h, trivial⟩
    | ok =>
        have hleads := leads hinv hc (hcareful (by rw [hchance]; decide)) hrun
        exact ⟨hleads.inv, hleads.later, hleads.next⟩
    | cutOff =>
        have hleads := leads hinv hc (hcareful (by rw [hchance]; decide)) hrun
        exact ⟨hleads.inv, hleads.later, trivial⟩

/-- A careful turn keeps the invariant and what every tab relies on. -/
theorem holds_turn {p : WatchedTabs} (h : p.Holds Inv Task.Assertion)
    (turn : Turn Call Moment) (hcareful : Careful owner p turn) :
    (WatchedTabs.step owner agent p turn).Holds Inv Task.Assertion := by
  cases turn with
  | start call =>
      refine ⟨h.1, fun d hd => ?_⟩
      rcases Pool.mem_start hd with hd | rfl
      · exact h.2 d hd
      · exact assertion_enter p.shared call
  | tick i x =>
      cases hc : p.procs[i]? with
      | none =>
          rw [WatchedTabs.step, Pool.step_tick_none hc]
          exact h
      | some c =>
          have hleads := leads_advance h.1 (h.2 c (Pool.mem_of_getElem? hc)) (hcareful c hc)
          rw [WatchedTabs.step, Pool.step_tick hc]
          refine ⟨hleads.1, fun d hd => ?_⟩
          rcases List.mem_or_eq_of_mem_set hd with hd | rfl
          · exact (h.2 d hd).later hleads.2.1
          · exact hleads.2.2

theorem serials_empty : Serials 0 [] [] where
  row _ he := absurd he List.not_mem_nil
  serial _ he := absurd he List.not_mem_nil
  distinct := List.nodup_nil
  increasing := List.Pairwise.nil
  committed _ hn := absurd hn List.not_mem_nil

theorem commits_watch {h : History} {c : Task} (x : Moment) (hcommits : c.commits = false) :
    (c.watch owner x h).commits = h.commits := by
  simp only [Task.watch, hcommits, Bool.false_eq_true, if_false, List.append_nil]

-- What a step does to the serials, careful or not.
theorem serials_watch {h : History} (hs : Serials h.store.serial h.store.messages h.commits)
    (x : Moment) (c : Task) :
    Serials (c.watch owner x h).store.serial (c.watch owner x h).store.messages
      (c.watch owner x h).commits := by
  cases c with
  | sending room sender body => exact hs.put List.filter_sublist room rfl
  | mutating id change key row =>
      refine hs.put (List.filter_sublist.trans List.filter_sublist) key.room ?_
      cases change <;> rfl
  | reacting target code add room => exact hs.put List.filter_sublist room rfl
  | marking room => exact hs.put List.filter_sublist room rfl
  | clearing room =>
      rw [commits_watch x rfl]
      exact hs.sublist List.filter_sublist
  | answered answer | closed | finding id act | reading id act key
  | paging room start since seen =>
      rw [commits_watch x rfl]
      exact hs

/-- The serials are in order in every run. -/
theorem serials_run (owner agent : WalletAddress) (turns : List (Turn Call Moment)) :
    Run.Throughout (WatchedTabs.step owner agent)
      (fun p => Serials p.shared.store.serial p.shared.store.messages p.shared.commits)
      (Pool.idle History.empty) turns := by
  refine Run.throughout_of_step (fun p turn hs => ?_) _ turns serials_empty
  cases turn with
  | start call => exact hs
  | tick i x =>
      cases hc : p.procs[i]? with
      | none =>
          rw [WatchedTabs.step, Pool.step_tick_none hc]
          exact hs
      | some c =>
          rw [WatchedTabs.step, Pool.step_tick hc]
          simp only [Task.watchedAdvance]
          split
          · exact hs
          · cases x.chance with
            | fails => exact hs
            | ok | cutOff => exact serials_watch hs x c

theorem inv_empty : Inv History.empty where
  toSerials := serials_empty
  limit := Nat.zero_le _
  stored _ he := absurd he List.not_mem_nil
  ids := List.nodup_nil
  minted _ he := absurd he List.not_mem_nil
  indexed _ he := absurd he List.not_mem_nil
  found _ _ hkey := by cases hkey
  goneMinted _ hid := absurd hid List.not_mem_nil
  gone _ he := absurd he List.not_mem_nil
  happened _ hev := absurd hev List.not_mem_nil
  shown _ hev := absurd hev List.not_mem_nil
  learned _ hd := absurd hd List.not_mem_nil

theorem safe_of_inv {p : WatchedTabs} (h : Inv p.shared) : Safe p where
  increasing := h.increasing
  distinct := by
    have hserials : p.shared.store.messages.map (·.2.msgSerial) =
        p.shared.store.messages.map (·.1.serial) :=
      List.map_congr_left h.row
    rw [hserials]
    exact h.distinct
  indexed _ := ⟨h.ids, h.indexed⟩
  gone := h.gone
  learned := h.learned

/-- Runs of careful steps keep what is promised throughout. -/
theorem tabs_safe (owner agent : WalletAddress) (turns : List (Turn Call Moment))
    (h : Run.Along (WatchedTabs.step owner agent) (Careful owner) (Pool.idle History.empty)
      turns) :
    Run.Throughout (WatchedTabs.step owner agent) Safe (Pool.idle History.empty) turns := by
  have hholds : Run.Throughout (WatchedTabs.step owner agent) (Pool.Holds Inv Task.Assertion)
      (Pool.idle History.empty) turns :=
    Run.throughout_of_along (fun _ turn hp => holds_turn hp turn) _ turns
      (Pool.holds_idle inv_empty) h
  exact Run.throughout_mono (fun _ hp => safe_of_inv hp.1) _ turns hholds

namespace Sample

def hello : MessageId := ⟨"msg_1_00000000"⟩

def words : Body := ⟨"hello", "", false, none, none, 1, 1, none⟩

/-- The steps of one tab, one after another. -/
def ticks (i n : ℕ) (id : MessageId) : List (Turn Call Moment) :=
  List.replicate n (.tick i ⟨.ok, 1, id⟩)

def post : List (Turn Call Moment) :=
  .start (.send (StaticKind.note.roomId Sample.alice) words false) :: ticks 0 1 hello

/-- A message is edited while a tab syncs; then its room is purged, and a tab syncs on. -/
def calm : List (Turn Call Moment) :=
  post ++ .start (.act hello (.change (.edit words))) :: ticks 1 2 hello ++
    .start (.drain (StaticKind.note.roomId Sample.alice) 0) :: ticks 2 1 hello ++ ticks 1 1 hello ++
    .start (.purge (StaticKind.note.roomId Sample.alice)) :: ticks 3 2 ⟨"msg_2_00000000"⟩ ++
    .start (.drain (StaticKind.note.roomId Sample.alice) 1) :: ticks 4 1 hello

/-- One tab deletes a message that another tab has read for an edit. -/
def racing : List (Turn Call Moment) :=
  post ++ .start (.act hello (.change .tombstone)) :: ticks 1 2 hello ++
    .start (.act hello (.change (.edit words))) :: ticks 2 2 hello ++ ticks 1 1 hello ++
    ticks 2 1 hello

/-- A tab syncs between a purge and its marker. -/
def purging : List (Turn Call Moment) :=
  post ++ .start (.purge (StaticKind.note.roomId Sample.alice)) :: ticks 1 1 hello ++
    .start (.drain (StaticKind.note.roomId Sample.alice) 0) :: ticks 2 1 hello

end Sample

theorem Sample.tabs_safe_calm :
    Safe (Run.run (WatchedTabs.step Sample.alice Sample.bob) (Pool.idle History.empty)
        Sample.calm) ∧
      (Run.run (WatchedTabs.step Sample.alice Sample.bob) (Pool.idle History.empty)
        Sample.calm).shared.commits = [1, 2, 3] :=
  ⟨Run.throughout_last _ _ (tabs_safe Sample.alice Sample.bob Sample.calm (by decide +kernel)),
    by decide +kernel⟩

/-- A message that has been deleted has two rows, and one of them is an edit of it. A tab that
    has synced from the start to the end has not learned of a purge. -/
theorem Sample.deleted_reappears :
    ¬ Run.Throughout (WatchedTabs.step Sample.alice Sample.bob) Safe (Pool.idle History.empty)
        Sample.racing ∧
      ¬ Run.Throughout (WatchedTabs.step Sample.alice Sample.bob) Safe
        (Pool.idle History.empty) Sample.purging := by
  refine ⟨fun h => ?_, fun h => ?_⟩
  · have hback : ¬ ∀ e ∈ (Run.run (WatchedTabs.step Sample.alice Sample.bob)
          (Pool.idle History.empty) Sample.racing).shared.store.messages,
        e.2.id ∈ (Run.run (WatchedTabs.step Sample.alice Sample.bob)
          (Pool.idle History.empty) Sample.racing).shared.gone → e.2.kind = .delete := by
      decide +kernel
    exact hback (Run.throughout_last _ _ h).gone
  · have hdrains : (Run.run (WatchedTabs.step Sample.alice Sample.bob)
          (Pool.idle History.empty) Sample.purging).shared.drains =
        [⟨0, [], [⟨.note, 2, .purged⟩]⟩] := by
      decide +kernel
    have hlearned := (Run.throughout_last _ _ h).learned
    rw [hdrains] at hlearned
    rcases hlearned _ (List.mem_singleton.2 rfl) _ (List.mem_singleton.2 rfl) (by decide) with
      ⟨m, hm, -⟩
    exact absurd hm List.not_mem_nil

end Local

end PocketSkynet
