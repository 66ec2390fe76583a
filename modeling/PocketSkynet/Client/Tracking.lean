import PocketSkynet.Client.RoomState
import PocketSkynet.Server.Emoticons

/-!
# Tracking the Stream

What a client that folds the stream knows, stated against the rows the server
holds. The client is behind, so nothing is said of rows past its cursor: they
are pending, and folding them will settle what they touch. Nothing is said
either while a purge marker is pending, because folding it will clear
everything.

`Tracks` says the rest: a message whose row is not pending is held exactly as
the row stands, nothing is held that the server has no message for, and a
reaction none of whose events is pending is held exactly if its last event adds
it.

Two facts carry it through a run. `tracks_next` folds the next pending row.
`tracks_apply` lets the server write, provided edits and deletions are aimed at
messages and no purge marker is moved. Rows of other kinds are events: an edit
or a deletion of one rewrites history that clients have already folded.

## Main definitions

* `Stream.Regular`: A stream that its purge marker, if it has one, begins.
* `Mutation.OnMessages`: A write aimed at a row it is meant for.
* `Tracks`: The client's knowledge of the rows that are not pending.

## Theorems

* `regular_apply`: Such writes keep a stream regular.
* `tracks_next`: Folding the next pending row keeps track.
* `tracks_apply`: The server's writes keep track.
-/

namespace PocketSkynet

namespace Stream

/-- A marker precedes every other row. -/
structure Regular (s : Stream) : Prop where
  wellFormed : s.WellFormed
  marker : ∀ m ∈ s.rows, m.kind = .deleteAll → ∀ r ∈ s.rows, r ≠ m → m.msgSerial < r.msgSerial

/-- Every purge marker of the stream has been folded by a client at `cursor`. -/
def MarkersFolded (s : Stream) (cursor : Nat) : Prop :=
  ∀ m ∈ s.rows, m.kind = .deleteAll → m.msgSerial ≤ cursor

end Stream

/-- Edits and deletions are aimed at messages, and no anchoring at a marker. -/
def Mutation.OnMessages (s : Stream) : Mutation → Prop
  | .updateMessage _ id _ => ∀ m, s.getMessage id = some m → m.kind.isRenderable = true
  | .softDeleteMessage _ id => ∀ m, s.getMessage id = some m → m.kind.isRenderable = true
  | .publishTxHash _ id _ => ∀ m, s.row? id = some m → m.kind ≠ .deleteAll
  | _ => True

instance decidableOnMessages (s : Stream) : (m : Mutation) → Decidable (m.OnMessages s)
  | .updateMessage _ id _ =>
      inferInstanceAs (Decidable (∀ m ∈ s.getMessage id, m.kind.isRenderable = true))
  | .softDeleteMessage _ id =>
      inferInstanceAs (Decidable (∀ m ∈ s.getMessage id, m.kind.isRenderable = true))
  | .publishTxHash _ id _ =>
      inferInstanceAs (Decidable (∀ m ∈ s.row? id, m.kind ≠ .deleteAll))
  | .createMessage .. => .isTrue trivial
  | .createEmoticonEvent .. => .isTrue trivial
  | .deleteAllMessages .. => .isTrue trivial

/-- What a client knows of the rows that are not pending. -/
structure Tracks (s : Stream) (st : RoomState) : Prop where
  bounded : st.cursor < s.nextSerial
  messages : s.MarkersFolded st.cursor → ∀ r ∈ s.rows, r.isMessage = true →
    r.msgSerial ≤ st.cursor → st.held r.id = if r.displayable then some r else none
  known : ∀ id m, st.held id = some m →
    (∃ r ∈ s.rows, r.id = id ∧ r.isMessage = true) ∨ ¬ s.MarkersFolded st.cursor
  reactions : s.MarkersFolded st.cursor → ∀ τ,
    (∀ r ∈ s.rows, r.id = τ.target → r.kind ≠ .delete) →
    (∀ r ∈ s.rows, r.isReaction = true → r.reaction? = some τ → r.msgSerial ≤ st.cursor) →
    (τ ∈ st.reactions ↔ Reacts s.rows τ)

/-! ### Writes that are not purges -/

/-- How a write other than a purge changes the rows: what is new has the fresh
    serial and is no marker, and what was there stays or is replaced by a row
    of its own sort. -/
structure Grows (n : Nat) (rows rows' : List Message) : Prop where
  back : ∀ x ∈ rows', x ∈ rows ∨ (x.msgSerial = n ∧ x.kind ≠ .deleteAll)
  forth : ∀ r ∈ rows, r ∈ rows' ∨ (r.kind ≠ .deleteAll ∧ ∃ x ∈ rows', x.msgSerial = n ∧
    x.id = r.id ∧ (r.isMessage = true → x.isMessage = true) ∧
    (r.kind = .delete → x.kind = .delete) ∧
    (r.isReaction = true → x.isReaction = true ∧ x.reaction? = r.reaction?))

theorem grows_append {n : Nat} {rows : List Message} {x : Message} (hn : x.msgSerial = n)
    (hkind : x.kind ≠ .deleteAll) : Grows n rows (rows ++ [x]) where
  back := by
    intro y hy
    rcases List.mem_append.1 hy with hy | hy
    · exact Or.inl hy
    · rw [List.mem_singleton.1 hy]
      exact Or.inr ⟨hn, hkind⟩
  forth := fun r hr => Or.inl (List.mem_append_left _ hr)

theorem grows_modify {n : Nat} {rows : List Message} (hk : Table.Keyed Message.id rows)
    {id : MessageId} {m : Message} (hm : Table.lookup Message.id id rows = some m)
    {f : Message → Message} (hid : (f m).id = m.id) (hn : (f m).msgSerial = n)
    (hold : m.kind ≠ .deleteAll) (hnew : (f m).kind ≠ .deleteAll)
    (hmsg : m.isMessage = true → (f m).isMessage = true)
    (htomb : m.kind = .delete → (f m).kind = .delete)
    (hreact : m.isReaction = true → (f m).isReaction = true ∧ (f m).reaction? = m.reaction?) :
    Grows n rows (Table.modify Message.id id f rows) where
  back := by
    intro y hy
    rcases (Stream.mem_modify_row hk hm f y).1 hy with rfl | ⟨hy, -⟩
    · exact Or.inr ⟨hn, hnew⟩
    · exact Or.inl hy
  forth := by
    intro r hr
    by_cases hrid : r.id = id
    · have hsame : r = m := by
        have hfind := Table.lookup_of_mem hk hr
        rw [hrid, hm] at hfind
        exact (Option.some.inj hfind).symm
      subst hsame
      exact Or.inr ⟨hold, f r, (Stream.mem_modify_row hk hm f _).2 (Or.inl rfl), hn, hid, hmsg,
        htomb, hreact⟩
    · exact Or.inl ((Stream.mem_modify_row hk hm f r).2 (Or.inr ⟨hr, hrid⟩))

theorem renderable_cases {m : Message} (h : m.kind.isRenderable = true) :
    m.kind = .add ∨ m.kind = .edit := by
  unfold MsgKind.isRenderable at h
  cases hk : m.kind <;> simp [hk] at h ⊢

-- A row that is not deleted is what is found under its id.
theorem getMessage_of_live {s : Stream} {id : MessageId} {r : Message}
    (hr : Table.lookup Message.id id s.rows = some r) (hd : r.isDeleted = false) :
    s.getMessage id = some r := by
  simp [Stream.getMessage, Stream.row?, hr, hd]

section Updates

variable {rows : List Message} {id : MessageId} {r : Message} {now n : Nat}

theorem grows_edited (hk : Table.Keyed Message.id rows)
    (hr : Table.lookup Message.id id rows = some r) (hkind : r.kind.isRenderable = true)
    (e : MessageEdit) :
    Grows n rows (Table.modify Message.id id (Stream.editRow e now n) rows) := by
  have hkind := renderable_cases hkind
  refine grows_modify hk hr rfl rfl ?_ ?_ ?_ ?_ ?_
  · rcases hkind with h | h <;> simp [h]
  · simp [Stream.editRow]
  · simp [Stream.editRow, Message.isMessage]
  · rcases hkind with h | h <;> simp [h]
  · rcases hkind with h | h <;> simp [h, Message.isReaction]

theorem grows_deleted (hk : Table.Keyed Message.id rows)
    (hr : Table.lookup Message.id id rows = some r) (hkind : r.kind.isRenderable = true) :
    Grows n rows (Table.modify Message.id id (Stream.deleteRow n) rows) := by
  have hkind := renderable_cases hkind
  refine grows_modify hk hr rfl rfl ?_ ?_ ?_ ?_ ?_
  · rcases hkind with h | h <;> simp [h]
  · simp [Stream.deleteRow]
  · simp [Stream.deleteRow, Message.isMessage]
  · simp [Stream.deleteRow]
  · rcases hkind with h | h <;> simp [h, Message.isReaction]

end Updates

/-- A write that is no purge and is aimed at the right row makes the rows grow. -/
theorem grows_of_rowsStep {s : Stream} (hs : s.Regular) {m : Mutation} {n : Nat}
    {rows' : List Message} (hm : m.OnMessages s) (h : RowsStep n s.rows m rows') :
    Grows n s.rows rows' ∨ ∃ now caller id,
      rows' = [Stream.eventRow id caller "" now n .deleteAll none none] := by
  have hk := hs.wellFormed.keyed
  cases h with
  | created now new hid => exact Or.inl (grows_append rfl (by simp [Stream.newRow]))
  | reacted now id sender target code hash add hid =>
      cases add
      · exact Or.inl (grows_append rfl (by simp [Stream.eventRow]))
      · exact Or.inl (grows_append rfl (by simp [Stream.eventRow]))
  | edited now id e r hr hd =>
      exact Or.inl (grows_edited hk hr (hm r (getMessage_of_live hr hd)) e)
  | deleted now id r hr hd =>
      exact Or.inl (grows_deleted hk hr (hm r (getMessage_of_live hr hd)))
  | missed now id =>
      exact Or.inl ⟨fun x hx => Or.inl hx, fun r hr => Or.inl hr⟩
  | purged now caller markerId => exact Or.inr ⟨now, caller, markerId, rfl⟩
  | published now id hash r hr =>
      have hkind : r.kind ≠ .deleteAll := hm r hr
      exact Or.inl (grows_modify hk hr rfl rfl hkind hkind (fun h => h) (fun h => h)
        fun h => ⟨h, rfl⟩)

theorem regular_create {now : Nat} (h : 0 < now) : (Stream.create now).Regular where
  wellFormed := Stream.wellFormed_create h
  marker := fun _ hm => by cases hm

/-- Writes aimed at the right rows keep a stream regular. -/
theorem regular_apply (s : Stream) (m : Mutation) (hs : s.Regular) (hm : m.OnMessages s) :
    (s.apply m).Regular := by
  rcases s.apply_cases m with hsame | ⟨n, hn, hnext, hstep⟩
  · rwa [hsame]
  refine ⟨s.wellFormed_apply m hs.wellFormed, ?_⟩
  rcases grows_of_rowsStep hs hm hstep with hg | ⟨now, caller, id, hrows⟩
  · intro x hx hkind r hr hne
    rcases hg.back x hx with hx | ⟨-, hx⟩
    · rcases hg.back r hr with hr | ⟨hr, -⟩
      · exact hs.marker x hx hkind r hr hne
      · have hlt := hs.wellFormed.below x hx
        omega
    · exact absurd hkind hx
  · intro x hx _ r hr hne
    rw [hrows, List.mem_singleton] at hx hr
    exact absurd (hr.trans hx.symm) hne

/-! ### Folding the next row -/

section Next

variable {s : Stream} {st : RoomState} {e : Message}

/-- After the next row only that row has stopped being pending. -/
theorem folded_next (hs : s.Regular) (he : e ∈ s.rows) (hpending : st.cursor < e.msgSerial)
    (hnext : ∀ r ∈ s.rows, st.cursor < r.msgSerial → e.msgSerial ≤ r.msgSerial) {r : Message}
    (hr : r ∈ s.rows) : r.msgSerial ≤ (st.foldOne e).cursor ↔ r.msgSerial ≤ st.cursor ∨ r = e := by
  rw [RoomState.cursor_foldOne]
  constructor
  · intro hle
    by_cases hold : r.msgSerial ≤ st.cursor
    · exact Or.inl hold
    · have hge := hnext r hr (by omega)
      exact Or.inr (hs.wellFormed.eq_of_serial hr he (by omega))
  · rintro (hle | rfl)
    · exact le_trans hle (le_max_left _ _)
    · exact le_max_right _ _

/-- Unless the next row is a marker itself, markers stay as folded as they were. -/
theorem markersFolded_next (hs : s.Regular) (he : e ∈ s.rows) (hpending : st.cursor < e.msgSerial)
    (hnext : ∀ r ∈ s.rows, st.cursor < r.msgSerial → e.msgSerial ≤ r.msgSerial)
    (hkind : e.kind ≠ .deleteAll) :
    s.MarkersFolded (st.foldOne e).cursor ↔ s.MarkersFolded st.cursor := by
  constructor
  · intro h m hm hmk
    rcases (folded_next hs he hpending hnext hm).1 (h m hm hmk) with hle | rfl
    · exact hle
    · exact absurd hmk hkind
  · intro h m hm hmk
    exact (folded_next hs he hpending hnext hm).2 (Or.inl (h m hm hmk))

/-- The next row is a marker: everything goes, and every other row is pending. -/
theorem tracks_marker (hs : s.Regular) (he : e ∈ s.rows) (hpending : st.cursor < e.msgSerial)
    (hkind : e.kind = .deleteAll) : Tracks s (st.foldOne e) := by
  have honly : ∀ r ∈ s.rows, r.msgSerial ≤ (st.foldOne e).cursor → r = e := by
    intro r hr hle
    by_contra hne
    have hlt := hs.marker e he hkind r hr hne
    rw [RoomState.cursor_foldOne] at hle
    omega
  refine ⟨?_, ?_, ?_, ?_⟩
  · have hlt := hs.wellFormed.below e he
    rw [RoomState.cursor_foldOne]
    omega
  · intro _ r hr hmsg hle
    rw [honly r hr hle, Message.isMessage, hkind] at hmsg
    cases hmsg
  · intro id m hheld
    rw [RoomState.held_foldOne, hkind] at hheld
    cases hheld
  · intro _ τ _ hevents
    rw [RoomState.mem_reactions_foldOne, hkind]
    refine ⟨False.elim, ?_⟩
    rintro ⟨r, hr, hadd, hτ, -⟩
    have hreact : r.isReaction = true := by simp [Message.isReaction, hadd]
    rw [honly r hr (hevents r hr hreact hτ), hkind] at hadd
    cases hadd

/-- What is held under the id of a row that is not pending, after the next row. -/
theorem held_next (hs : s.Regular) (he : e ∈ s.rows) (hpending : st.cursor < e.msgSerial)
    (hnext : ∀ r ∈ s.rows, st.cursor < r.msgSerial → e.msgSerial ≤ r.msgSerial)
    (hkind : e.kind ≠ .deleteAll) {r : Message} (hr : r ∈ s.rows) (hmsg : r.isMessage = true)
    (hprev : r.msgSerial ≤ st.cursor → st.held r.id = if r.displayable then some r else none)
    (hle : r.msgSerial ≤ (st.foldOne e).cursor) :
    (st.foldOne e).held r.id = if r.displayable then some r else none := by
  rw [RoomState.held_foldOne]
  rcases (folded_next hs he hpending hnext hr).1 hle with hold | rfl
  · -- Another row: its id is not the event's, so its message stays.
    have hne : r.id ≠ e.id := by
      intro hid
      rw [hs.wellFormed.eq_of_id hr he hid] at hold
      omega
    have hheld := hprev hold
    cases hk : e.kind <;> simp_all
  · -- The event itself: a message becomes what it says, a tombstone nothing.
    have hdel := hs.wellFormed.tombstone r hr
    cases hk : r.kind <;> simp_all [Message.isMessage, Message.displayable,
      MsgKind.isRenderable]

/-- What is known of a reaction none of whose events is pending, after the next row. -/
theorem reactions_next (hs : s.Regular) (he : e ∈ s.rows) (hpending : st.cursor < e.msgSerial)
    (hnext : ∀ r ∈ s.rows, st.cursor < r.msgSerial → e.msgSerial ≤ r.msgSerial)
    (hkind : e.kind ≠ .deleteAll) {τ : Reaction} (htarget : e.kind = .delete → τ.target ≠ e.id)
    (hbefore : (∀ r ∈ s.rows, r.isReaction = true → r.reaction? = some τ →
      r.msgSerial ≤ st.cursor) → (τ ∈ st.reactions ↔ Reacts s.rows τ))
    (hevents : ∀ r ∈ s.rows, r.isReaction = true → r.reaction? = some τ →
      r.msgSerial ≤ (st.foldOne e).cursor) :
    τ ∈ (st.foldOne e).reactions ↔ Reacts s.rows τ := by
  have hfolded := fun {r} (hr : r ∈ s.rows) => folded_next hs he hpending hnext hr
  -- A row that is no event of this reaction leaves its events as folded as before.
  have hprev : (e.isReaction = true → e.reaction? ≠ some τ) →
      (τ ∈ st.reactions ↔ Reacts s.rows τ) := by
    intro hother
    refine hbefore fun r hr hrk hrτ => ?_
    rcases (hfolded hr).1 (hevents r hr hrk hrτ) with hle | rfl
    · exact hle
    · exact absurd hrτ (hother hrk)
  have hlast : e.isReaction = true → e.reaction? = some τ →
      (Reacts s.rows τ ↔ e.kind = .emoticonAdd) := by
    intro hek heτ
    constructor
    · rintro ⟨r, hr, hadd, hrτ, hmax⟩
      have hle := hevents r hr (by simp [Message.isReaction, hadd]) hrτ
      have hge := hmax e he hek heτ
      have hsame : r = e := by
        rcases (hfolded hr).1 hle with hle | hsame
        · omega
        · exact hsame
      exact hsame ▸ hadd
    · intro hadd
      refine ⟨e, he, hadd, heτ, fun r hr hrk hrτ => ?_⟩
      have hle := hevents r hr hrk hrτ
      rw [RoomState.cursor_foldOne] at hle
      omega
  rw [RoomState.mem_reactions_foldOne]
  cases hk : e.kind with
  | add => exact hprev fun h => by simp [Message.isReaction, hk] at h
  | edit => exact hprev fun h => by simp [Message.isReaction, hk] at h
  | delete =>
      rw [← hprev fun h => by simp [Message.isReaction, hk] at h]
      exact and_iff_left (htarget hk)
  | deleteAll => exact absurd hk hkind
  | emoticonAdd =>
      have hek : e.isReaction = true := by simp [Message.isReaction, hk]
      by_cases heτ : e.reaction? = some τ
      · rw [hlast hek heτ]
        simp [hk, heτ]
      · rw [← hprev fun _ => heτ]
        exact or_iff_left heτ
  | emoticonRemove =>
      have hek : e.isReaction = true := by simp [Message.isReaction, hk]
      by_cases heτ : e.reaction? = some τ
      · rw [hlast hek heτ]
        simp [hk, heτ]
      · rw [← hprev fun _ => heτ]
        exact and_iff_left heτ
  | unknown => exact hprev fun h => by simp [Message.isReaction, hk] at h

/-- **The step lemma of the fold.** Folding the next pending row keeps track. -/
theorem tracks_next (hs : s.Regular) (ht : Tracks s st) (he : e ∈ s.rows)
    (hpending : st.cursor < e.msgSerial)
    (hnext : ∀ r ∈ s.rows, st.cursor < r.msgSerial → e.msgSerial ≤ r.msgSerial) :
    Tracks s (st.foldOne e) := by
  by_cases hkind : e.kind = .deleteAll
  · exact tracks_marker hs he hpending hkind
  have hmarkers := markersFolded_next hs he hpending hnext hkind
  refine ⟨?_, ?_, ?_, ?_⟩
  · have hlt := hs.wellFormed.below e he
    rw [RoomState.cursor_foldOne]
    exact max_lt ht.bounded hlt
  · intro hm r hr hmsg hle
    exact held_next hs he hpending hnext hkind hr hmsg
      (ht.messages (hmarkers.1 hm) r hr hmsg) hle
  · intro id m hheld
    rw [RoomState.held_foldOne] at hheld
    rw [hmarkers]
    by_cases hid : id = e.id
    · cases hk : e.kind with
      | add => exact Or.inl ⟨e, he, hid.symm, by simp [Message.isMessage, hk]⟩
      | edit => exact Or.inl ⟨e, he, hid.symm, by simp [Message.isMessage, hk]⟩
      | delete => simp [hk, hid] at hheld
      | deleteAll => exact absurd hk hkind
      | emoticonAdd => exact ht.known id m (by simpa [hk] using hheld)
      | emoticonRemove => exact ht.known id m (by simpa [hk] using hheld)
      | unknown => exact ht.known id m (by simpa [hk] using hheld)
    · refine ht.known id m ?_
      cases hk : e.kind <;> simp_all
  · intro hm τ hlive hevents
    exact reactions_next hs he hpending hnext hkind (fun hk h => hlive e he h.symm hk)
      (ht.reactions (hmarkers.1 hm) τ hlive) hevents

end Next

/-! ### Writing while the client is behind -/

section Write

variable {s s' : Stream} {st : RoomState} {n : Nat}

theorem markersFolded_grows (hg : Grows n s.rows s'.rows) (cursor : Nat) :
    s'.MarkersFolded cursor ↔ s.MarkersFolded cursor := by
  constructor
  · intro h m hm hk
    rcases hg.forth m hm with hm | ⟨hne, -⟩
    · exact h m hm hk
    · exact absurd hk hne
  · intro h m hm hk
    rcases hg.back m hm with hm | ⟨-, hne⟩
    · exact h m hm hk
    · exact absurd hk hne

/-- A reaction none of whose events is pending has the same events as before. -/
theorem reacts_grows (hg : Grows n s.rows s'.rows) {cursor : Nat} (hn : cursor < n) {τ : Reaction}
    (hevents : ∀ r ∈ s'.rows, r.isReaction = true → r.reaction? = some τ → r.msgSerial ≤ cursor) :
    Reacts s'.rows τ ↔ Reacts s.rows τ := by
  have hadded : ∀ {r : Message}, r.kind = .emoticonAdd → r.isReaction = true :=
    fun h => by simp [Message.isReaction, h]
  have hsame : ∀ r, r.isReaction = true → r.reaction? = some τ → (r ∈ s'.rows ↔ r ∈ s.rows) := by
    intro r hrk hrτ
    constructor
    · intro hr
      rcases hg.back r hr with hold | ⟨hserial, -⟩
      · exact hold
      · have hle := hevents r hr hrk hrτ
        omega
    · intro hr
      rcases hg.forth r hr with hold | ⟨-, x, hx, hserial, -, -, -, hreact⟩
      · exact hold
      · obtain ⟨hxk, hxτ⟩ := hreact hrk
        have hle := hevents x hx hxk (hxτ.trans hrτ)
        omega
  constructor
  · rintro ⟨r, hr, hadd, hrτ, hmax⟩
    refine ⟨r, (hsame r (hadded hadd) hrτ).1 hr, hadd, hrτ, fun r' hr' hrk' hrτ' => ?_⟩
    exact hmax r' ((hsame r' hrk' hrτ').2 hr') hrk' hrτ'
  · rintro ⟨r, hr, hadd, hrτ, hmax⟩
    refine ⟨r, (hsame r (hadded hadd) hrτ).2 hr, hadd, hrτ, fun r' hr' hrk' hrτ' => ?_⟩
    exact hmax r' ((hsame r' hrk' hrτ').1 hr') hrk' hrτ'

theorem tracks_grows (hg : Grows n s.rows s'.rows) (hn : s.nextSerial ≤ n)
    (hnext : s'.nextSerial = n + 1) (ht : Tracks s st) : Tracks s' st := by
  have hbehind : st.cursor < n := lt_of_lt_of_le ht.bounded hn
  refine ⟨by omega, ?_, ?_, ?_⟩
  · intro hm r hr hmsg hle
    rcases hg.back r hr with hr | ⟨hserial, -⟩
    · exact ht.messages ((markersFolded_grows hg _).1 hm) r hr hmsg hle
    · omega
  · intro id m hheld
    rw [markersFolded_grows hg]
    rcases ht.known id m hheld with ⟨r, hr, hid, hmsg⟩ | hm
    · rcases hg.forth r hr with hr | ⟨-, x, hx, -, hxid, hxmsg, -⟩
      · exact Or.inl ⟨r, hr, hid, hmsg⟩
      · exact Or.inl ⟨x, hx, hxid.trans hid, hxmsg hmsg⟩
    · exact Or.inr hm
  · intro hm τ hlive hevents
    rw [reacts_grows hg hbehind hevents]
    refine ht.reactions ((markersFolded_grows hg _).1 hm) τ ?_ ?_
    · intro r hr hid hdel
      rcases hg.forth r hr with hr | ⟨-, x, hx, -, hxid, -, htomb, -⟩
      · exact hlive r hr hid hdel
      · exact hlive x hx (hxid.trans hid) (htomb hdel)
    · intro r hr hrk hrτ
      rcases hg.forth r hr with hr | ⟨-, x, hx, hserial, -, -, -, hreact⟩
      · exact hevents r hr hrk hrτ
      · obtain ⟨hxk, hxτ⟩ := hreact hrk
        have hle := hevents x hx hxk (hxτ.trans hrτ)
        omega

/-- **The step lemma of the server.** Writes aimed at the right rows keep track. -/
theorem tracks_apply (s : Stream) (m : Mutation) (hs : s.Regular) (hm : m.OnMessages s)
    (ht : Tracks s st) : Tracks (s.apply m) st := by
  rcases s.apply_cases m with hsame | ⟨n, hn, hnext, hstep⟩
  · rwa [hsame]
  rcases grows_of_rowsStep hs hm hstep with hg | ⟨now, caller, id, hrows⟩
  · exact tracks_grows hg hn hnext ht
  · -- The marker is pending, and until it is folded nothing is claimed.
    have hbehind : st.cursor < n := lt_of_lt_of_le ht.bounded hn
    have hnot : ¬ (s.apply m).MarkersFolded st.cursor := by
      intro h
      have hle : n ≤ st.cursor := h _ (by rw [hrows]; exact List.mem_singleton_self _) rfl
      omega
    exact ⟨by omega, fun h => absurd h hnot, fun _ _ _ => Or.inr hnot, fun h => absurd h hnot⟩

end Write

end PocketSkynet
