import PocketSkynet.Server.Emoticons
import PocketSkynet.Server.Sample

/-!
# What Is Displayed Has Been Sent

Messages, their tombstones, reaction events and purge markers are rows of one table, and the
history shows a row by its kind. An edit, a deletion and an anchoring find their row by its
id, whatever its kind is. As long as they are aimed at messages, what is shown is exactly
what has been sent and not deleted since, an event stays what it is, and a marker stays as it
is until the next purge leaves one in its place.

## Main definitions

* `Stream.listMessages`: The history query, with all its filters.
* `Posted`: A stream, with the ids of what has been sent and not deleted since.
* `AtMessage`: The step is aimed at a message.
* `Posted.Listed`, `Posted.Stays`: What is shown, and what a step leaves alone.

## Theorems

* `traced_step`: What is shown is what has been sent, after each step.
* `stays_step`: No step turns another row into a message, or takes an event or a marker away.
* `display_from_sends`: Both in every run that is aimed at messages.
-/

namespace PocketSkynet

/-- A row that is an event for the clients, and never shown. -/
def MsgKind.isEvent : MsgKind → Bool
  | .emoticonAdd | .emoticonRemove | .deleteAll => true
  | .add | .edit | .delete | .unknown => false

/-- A row that is shown: not deleted, and no event. -/
def Message.shown (m : Message) : Bool := !m.isDeleted && !m.kind.isEvent

namespace Stream

/-- The filters of the history query. A bound of zero is none. -/
def listed (hides : WalletAddress → Bool) (since before : Nat) (includeReplies : Bool)
    (m : Message) : Bool :=
  m.shown && (includeReplies || m.parentMessageId.isNone) &&
    (since == 0 || decide (since ≤ m.messageTimestamp)) &&
    (before == 0 || decide (m.messageTimestamp < before)) && !hides m.senderAddress

/-- The history query: the newest rows that pass, oldest first. -/
def listMessages (s : Stream) (hides : WalletAddress → Bool) (since before limit : Nat)
    (includeReplies : Bool) : List Message :=
  (((s.rows.filter (listed hides since before includeReplies)).insertionSort
    Message.newestFirst).take limit).reverse

/-- Somebody is counted under a code as a reactor to a message. -/
def CountsReactor (s : Stream) (hides : WalletAddress → Bool) (τ : Reaction) : Prop :=
  ∃ a ∈ s.aggregateEmoticons hides τ.target, a.emoticonCode = τ.code ∧ τ.sender ∈ a.reactors

end Stream

/-- A stream, and the ids of the messages that have been sent and not deleted since. -/
structure Posted where
  stream : Stream
  sent : List MessageId
deriving DecidableEq, Repr

namespace Posted

/-- What a write does to the list of messages. -/
def recordSent (sent : List MessageId) : Mutation → List MessageId
  | .createMessage _ new => new.id :: sent
  | .softDeleteMessage _ id => sent.filter (· ≠ id)
  | .deleteAllMessages _ _ _ => []
  | .createEmoticonEvent _ _ _ _ _ _ _ | .updateMessage _ _ _ | .publishTxHash _ _ _ => sent

def step (p : Posted) (m : Mutation) : Posted :=
  match p.stream.transact m with
  | none => p
  | some s' => ⟨s', recordSent p.sent m⟩

/-- An edit, a deletion or an anchoring is aimed at a message, if at any row. -/
def AtMessage (p : Posted) : Mutation → Prop
  | .updateMessage _ id _ | .softDeleteMessage _ id | .publishTxHash _ id _ =>
      (p.stream.row? id).all Message.isMessage = true
  | .createMessage _ _ | .createEmoticonEvent _ _ _ _ _ _ _ | .deleteAllMessages _ _ _ => True

instance (p : Posted) : DecidablePred p.AtMessage
  | .updateMessage _ id _ | .softDeleteMessage _ id | .publishTxHash _ id _ =>
      inferInstanceAs (Decidable ((p.stream.row? id).all Message.isMessage = true))
  | .createMessage _ _ | .createEmoticonEvent _ _ _ _ _ _ _ | .deleteAllMessages _ _ _ =>
      inferInstanceAs (Decidable True)

/-- What is listed has been sent and not deleted since, each message once, and a list without
    bounds has all of it. -/
def Listed (p : Posted) : Prop :=
  (∀ hides since before limit includeReplies,
    ((p.stream.listMessages hides since before limit includeReplies).map Message.id).Nodup ∧
      ∀ x ∈ p.stream.listMessages hides since before limit includeReplies, x.id ∈ p.sent) ∧
  ∀ limit, p.stream.rows.length ≤ limit → ∀ id ∈ p.sent,
    ∃ x ∈ p.stream.listMessages (fun _ => false) 0 0 limit true, x.id = id

/-- No row that was not shown comes to be shown, unless it is sent now. Who is counted as a
    reactor is so until an event of theirs on the same message and code, or a purge. A marker
    stays as it is until a purge. -/
def Stays (p : Posted) (m : Mutation) : Prop :=
  (∀ x' ∈ (p.step m).stream.rows, x'.shown = true →
    (∃ x ∈ p.stream.rows, x.id = x'.id ∧ x.shown = true) ∨
      ∃ now new, m = .createMessage now new ∧ new.id = x'.id) ∧
  (∀ hides τ, hides τ.sender = false → p.stream.CountsReactor hides τ →
    (p.step m).stream.CountsReactor hides τ ∨
      (∃ now id hash add, m = .createEmoticonEvent now id τ.sender τ.target τ.code hash add) ∨
      ∃ now caller id, m = .deleteAllMessages now caller id) ∧
  ∀ x ∈ p.stream.rows, x.kind = .deleteAll →
    x ∈ (p.step m).stream.rows ∨ ∃ now caller id, m = .deleteAllMessages now caller id

/-- The invariant: the rows that are shown are those that have been sent. -/
structure Traced (p : Posted) : Prop where
  wellFormed : p.stream.WellFormed
  shown : ∀ x ∈ p.stream.rows, x.shown = true ↔ x.id ∈ p.sent
  held : ∀ id ∈ p.sent, ∃ x ∈ p.stream.rows, x.id = id

variable {p : Posted} {m : Mutation}

/-! ### The rows after a write -/

-- A message that is not deleted is shown.
theorem shown_of_isMessage {x : Message} (hmsg : x.isMessage = true)
    (hdel : x.isDeleted = true ↔ x.kind = .delete) : x.shown = !x.isDeleted := by
  unfold Message.shown Message.isMessage at *
  cases hk : x.kind <;> simp_all [MsgKind.isEvent]

theorem isReaction_of_isMessage {x : Message} (hmsg : x.isMessage = true) :
    x.isReaction = false := by
  unfold Message.isMessage Message.isReaction at *
  cases hk : x.kind <;> simp_all

/-- A row of another kind that changes bears on no reaction. -/
theorem reacts_modify {rows : List Message} (hk : Table.Keyed Message.id rows) {id : MessageId}
    {x : Message} (hx : Table.lookup Message.id id rows = some x) {f : Message → Message}
    (hbefore : x.isReaction = false) (hafter : (f x).isReaction = false) (τ : Reaction) :
    Reacts (Table.modify Message.id id f rows) τ ↔ Reacts rows τ := by
  have hsame : ∀ r, r.isReaction = true → (r ∈ Table.modify Message.id id f rows ↔ r ∈ rows) := by
    intro r hr
    rw [Stream.mem_modify_row hk hx]
    constructor
    · rintro (rfl | ⟨hmem, -⟩)
      · rw [hafter] at hr
        cases hr
      · exact hmem
    · intro hmem
      refine Or.inr ⟨hmem, fun hid => ?_⟩
      have hfind := Table.lookup_of_mem hk hmem
      rw [hid, hx] at hfind
      cases hfind
      rw [hbefore] at hr
      cases hr
  constructor
  · rintro ⟨r, hr, hadd, hrτ, hmax⟩
    exact ⟨r, (hsame r (isReaction_of_add hadd)).1 hr, hadd, hrτ,
      fun r' hr' hk' hτ' => hmax r' ((hsame r' hk').2 hr') hk' hτ'⟩
  · rintro ⟨r, hr, hadd, hrτ, hmax⟩
    exact ⟨r, (hsame r (isReaction_of_add hadd)).2 hr, hadd, hrτ,
      fun r' hr' hk' hτ' => hmax r' ((hsame r' hk').1 hr') hk' hτ'⟩

-- A deletion finds a live row, or leaves the rows as they were.
theorem softDelete_cases {s s' : Stream} {now : Nat} {id : MessageId}
    (h : s.transact (.softDeleteMessage now id) = some s') :
    (s.getMessage id = none ∧ s'.rows = s.rows) ∨
      ∃ x n, Table.lookup Message.id id s.rows = some x ∧
        s'.rows = Table.modify Message.id id (Stream.deleteRow n) s.rows := by
  simp only [Stream.transact, Stream.softDeleteMessage, Option.bind_eq_bind,
    Option.bind_eq_some_iff] at h
  rcases h with ⟨a, ha, h⟩
  cases Stream.allocate_eq_some ha
  by_cases hnone : (s.getMessage id).isNone = true
  · rw [if_pos hnone] at h
    cases h
    exact Or.inl ⟨Option.isNone_iff_eq_none.1 hnone, rfl⟩
  · rw [if_neg hnone] at h
    cases h
    rcases Stream.getMessage_isSome hnone with ⟨x, hx, -⟩
    exact Or.inr ⟨x, _, hx, rfl⟩

theorem isMessage_of_atMessage {id : MessageId} {x : Message}
    (hm : (p.stream.row? id).all Message.isMessage = true)
    (hx : Table.lookup Message.id id p.stream.rows = some x) : x.isMessage = true := by
  rw [Stream.row?, hx] at hm
  exact hm

-- A row that is changed in its place is shown as before, if it is shown after as before.
theorem traced_modify (h : p.Traced) {id : MessageId} {x : Message} {f : Message → Message}
    (hx : Table.lookup Message.id id p.stream.rows = some x) (hid : (f x).id = x.id)
    (hshown : (f x).shown = x.shown) {s' : Stream} (hwell : s'.WellFormed)
    (hrows : s'.rows = Table.modify Message.id id f p.stream.rows) :
    Traced ⟨s', p.sent⟩ := by
  have hmem : ∀ y, y ∈ s'.rows ↔ y = f x ∨ (y ∈ p.stream.rows ∧ y.id ≠ id) := by
    intro y
    rw [hrows]
    exact Stream.mem_modify_row h.wellFormed.keyed hx f y
  have hxid := Table.key_of_lookup hx
  refine ⟨hwell, fun y hy => ?_, fun id' hid' => ?_⟩
  · rcases (hmem y).1 hy with rfl | ⟨hy, -⟩
    · rw [hshown, hid]
      exact h.shown x (Table.mem_of_lookup hx)
    · exact h.shown y hy
  · rcases h.held id' hid' with ⟨y, hy, rfl⟩
    by_cases hyid : y.id = id
    · exact ⟨f x, (hmem _).2 (Or.inl rfl), hid.trans (hxid.trans hyid.symm)⟩
    · exact ⟨y, (hmem _).2 (Or.inr ⟨hy, hyid⟩), rfl⟩

theorem traced_delete (h : p.Traced) {id : MessageId} {x : Message} {n : Nat}
    (hx : Table.lookup Message.id id p.stream.rows = some x) {s' : Stream}
    (hwell : s'.WellFormed)
    (hrows : s'.rows = Table.modify Message.id id (Stream.deleteRow n) p.stream.rows) :
    Traced ⟨s', p.sent.filter (· ≠ id)⟩ := by
  have hmem : ∀ y, y ∈ s'.rows ↔ y = Stream.deleteRow n x ∨ (y ∈ p.stream.rows ∧ y.id ≠ id) := by
    intro y
    rw [hrows]
    exact Stream.mem_modify_row h.wellFormed.keyed hx (Stream.deleteRow n) y
  have hxid : x.id = id := Table.key_of_lookup hx
  refine ⟨hwell, fun y hy => ?_, fun id' hid' => ?_⟩
  · rw [List.mem_filter, decide_eq_true_eq]
    rcases (hmem y).1 hy with rfl | ⟨hy, hne⟩
    · simp [Message.shown, Stream.deleteRow, hxid]
    · rw [h.shown y hy]
      exact ⟨fun hsent => ⟨hsent, hne⟩, fun hsent => hsent.1⟩
  · rw [List.mem_filter, decide_eq_true_eq] at hid'
    rcases h.held id' hid'.1 with ⟨y, hy, rfl⟩
    exact ⟨y, (hmem y).2 (Or.inr ⟨hy, hid'.2⟩), rfl⟩

-- A new row has an id that no row had, and so none that was sent.
theorem traced_append (h : p.Traced) {x : Message} {s' : Stream} (hwell : s'.WellFormed)
    (hfree : Table.lookup Message.id x.id p.stream.rows = none)
    (hrows : s'.rows = p.stream.rows ++ [x]) {sent : List MessageId}
    (hsent : sent = if x.shown then x.id :: p.sent else p.sent) : Traced ⟨s', sent⟩ := by
  have hnew : ∀ y ∈ p.stream.rows, y.id ≠ x.id := Table.lookup_eq_none.1 hfree
  have hnot : x.id ∉ p.sent := by
    intro hin
    rcases h.held x.id hin with ⟨y, hy, hyid⟩
    exact hnew y hy hyid
  subst hsent
  refine ⟨hwell, fun y hy => ?_, fun id hid => ?_⟩
  · rw [hrows] at hy
    rcases List.mem_append.1 hy with hy | hy
    · rw [h.shown y hy]
      by_cases hx : x.shown = true
      · simp [hx, hnew y hy]
      · simp [hx]
    · rw [List.mem_singleton.1 hy]
      by_cases hx : x.shown = true
      · simp [hx]
      · simp [hx, hnot]
  · have hold : id = x.id ∨ id ∈ p.sent := by
      by_cases hx : x.shown = true
      · simpa [hx] using hid
      · exact Or.inr (by simpa [hx] using hid)
    rw [hrows]
    rcases hold with rfl | hold
    · exact ⟨x, List.mem_append_right _ List.mem_cons_self, rfl⟩
    · rcases h.held id hold with ⟨y, hy, hyid⟩
      exact ⟨y, List.mem_append_left _ hy, hyid⟩

theorem step_some {s' : Stream} (h : p.stream.transact m = some s') :
    p.step m = ⟨s', recordSent p.sent m⟩ := by
  rw [step, h]

theorem wellFormed_transact {s' : Stream} (hp : p.stream.WellFormed)
    (h : p.stream.transact m = some s') : s'.WellFormed := by
  have hkeep := Stream.wellFormed_apply p.stream m hp
  rwa [Stream.apply, h, Option.getD_some] at hkeep

/-- What is shown is what has been sent, after each step that is aimed at a message. -/
theorem traced_step (h : p.Traced) (hm : p.AtMessage m) : (p.step m).Traced := by
  cases htx : p.stream.transact m with
  | none =>
      rw [step, htx]
      exact h
  | some s' =>
      have hwell := wellFormed_transact h.wellFormed htx
      rw [step_some htx]
      rcases Stream.transact_cases htx with ⟨n, -, -, hstep⟩
      generalize hrows : s'.rows = rows at hstep
      cases hstep with
      | created now new hid => exact traced_append h hwell hid hrows rfl
      | reacted now id sender target code hash add hid =>
          refine traced_append h hwell hid hrows ?_
          cases add <;> rfl
      | edited now id e x hx hlive =>
          refine traced_modify h hx rfl ?_ hwell hrows
          have hmsg := isMessage_of_atMessage hm hx
          have htomb := h.wellFormed.tombstone x (Table.mem_of_lookup hx)
          rw [shown_of_isMessage hmsg htomb]
          simp [Message.shown, Stream.editRow, MsgKind.isEvent]
      | deleted now id x hx hlive => exact traced_delete h hx hwell hrows
      | missed now id =>
          rcases softDelete_cases htx with ⟨hnone, -⟩ | ⟨x, k, hx, hrows'⟩
          · -- What is not there to be deleted is none of what was sent.
            have hkeep : p.sent.filter (· ≠ id) = p.sent := by
              refine List.filter_eq_self.2 fun id' hid' => ?_
              rw [decide_eq_true_eq]
              rintro rfl
              rcases h.held id' hid' with ⟨y, hy, rfl⟩
              have hshown := (h.shown y hy).2 hid'
              rw [Stream.getMessage, Stream.row?,
                Table.lookup_of_mem h.wellFormed.keyed hy] at hnone
              simp only [Message.shown, Bool.and_eq_true, Bool.not_eq_true'] at hshown
              simp [hshown.1] at hnone
            refine ⟨hwell, fun x hx => ?_, fun id' hid' => ?_⟩
            · rw [recordSent, hkeep]
              exact h.shown x (hrows ▸ hx)
            · rw [recordSent, hkeep] at hid'
              rcases h.held id' hid' with ⟨y, hy, hyid⟩
              exact ⟨y, by rw [hrows]; exact hy, hyid⟩
          · exact traced_delete h hx hwell hrows'
      | purged now caller markerId =>
          refine ⟨hwell, fun x hx => ?_, fun id hid => absurd hid List.not_mem_nil⟩
          rw [hrows] at hx
          rw [List.mem_singleton.1 hx]
          simp [recordSent, Message.shown, Stream.eventRow, MsgKind.isEvent]
      | published now id hash x hx => exact traced_modify h hx rfl rfl hwell hrows

/-! ### What a step leaves alone -/

-- Who reacted does so still, unless it is their own event or a purge.
theorem reacts_step (h : p.Traced) (hm : p.AtMessage m) {τ : Reaction}
    (hτ : Reacts p.stream.rows τ) :
    Reacts (p.step m).stream.rows τ ∨
      (∃ now id hash add, m = .createEmoticonEvent now id τ.sender τ.target τ.code hash add) ∨
      ∃ now caller id, m = .deleteAllMessages now caller id := by
  cases htx : p.stream.transact m with
  | none =>
      rw [step, htx]
      exact Or.inl hτ
  | some s' =>
      rw [step_some htx]
      rcases Stream.transact_cases htx with ⟨n, hn, -, hstep⟩
      have hlast : ∀ x ∈ p.stream.rows, x.msgSerial < n := fun x hx =>
        Nat.lt_of_lt_of_le (h.wellFormed.below x hx) hn
      have hkeyed := h.wellFormed.keyed
      generalize s'.rows = rows at hstep
      cases hstep with
      | created now new hid =>
          refine Or.inl ((Stream.reacts_append hlast).2 ?_)
          rw [if_neg (by simp [Stream.newRow, Message.isReaction])]
          exact hτ
      | reacted now id sender target code hash add hid =>
          by_cases hown : (Stream.eventRow id sender hash now n
              (if add then .emoticonAdd else .emoticonRemove) (some target) (some code)).reaction? =
                some τ
          · cases hown
            exact Or.inr (Or.inl ⟨now, id, hash, add, rfl⟩)
          · refine Or.inl ((Stream.reacts_append hlast).2 ?_)
            rw [if_neg fun hboth => hown hboth.2]
            exact hτ
      | edited now id e x hx hlive =>
          have hmsg := isMessage_of_atMessage hm hx
          exact Or.inl ((reacts_modify hkeyed hx (isReaction_of_isMessage hmsg) rfl τ).2 hτ)
      | deleted now id x hx hlive =>
          have hmsg := isMessage_of_atMessage hm hx
          exact Or.inl ((reacts_modify hkeyed hx (isReaction_of_isMessage hmsg) rfl τ).2 hτ)
      | missed now id => exact Or.inl hτ
      | purged now caller markerId => exact Or.inr (Or.inr ⟨now, caller, markerId, rfl⟩)
      | published now id hash x hx =>
          have hmsg := isReaction_of_isMessage (isMessage_of_atMessage hm hx)
          exact Or.inl ((reacts_modify hkeyed hx hmsg hmsg τ).2 hτ)

theorem marker_step (h : p.Traced) (hm : p.AtMessage m) {x : Message}
    (hx : x ∈ p.stream.rows) (hk : x.kind = .deleteAll) :
    x ∈ (p.step m).stream.rows ∨ ∃ now caller id, m = .deleteAllMessages now caller id := by
  -- A message that is changed is another row than the marker.
  have hother : ∀ {id y} (f : Message → Message), Table.lookup Message.id id p.stream.rows = some y →
      (p.stream.row? id).all Message.isMessage = true →
        x ∈ Table.modify Message.id id f p.stream.rows := by
    intro id y f hy hmsg
    refine (Stream.mem_modify_row h.wellFormed.keyed hy f x).2 (Or.inr ⟨hx, fun hid => ?_⟩)
    have hfind := Table.lookup_of_mem h.wellFormed.keyed hx
    rw [hid] at hfind
    have hmessage := isMessage_of_atMessage hmsg hfind
    simp [Message.isMessage, hk] at hmessage
  cases htx : p.stream.transact m with
  | none =>
      rw [step, htx]
      exact Or.inl hx
  | some s' =>
      rw [step_some htx]
      rcases Stream.transact_cases htx with ⟨n, -, -, hstep⟩
      generalize s'.rows = rows at hstep
      cases hstep with
      | created now new hid => exact Or.inl (List.mem_append_left _ hx)
      | reacted now id sender target code hash add hid => exact Or.inl (List.mem_append_left _ hx)
      | edited now id e y hy hlive => exact Or.inl (hother _ hy hm)
      | deleted now id y hy hlive => exact Or.inl (hother _ hy hm)
      | missed now id => exact Or.inl hx
      | purged now caller markerId => exact Or.inr ⟨now, caller, markerId, rfl⟩
      | published now id hash y hy => exact Or.inl (hother _ hy hm)

theorem sent_of_recordSent {sent : List MessageId} {id : MessageId}
    (h : id ∈ recordSent sent m) :
    id ∈ sent ∨ ∃ now new, m = .createMessage now new ∧ new.id = id := by
  cases m with
  | createMessage now new =>
      rcases List.mem_cons.1 h with rfl | h
      · exact Or.inr ⟨now, new, rfl, rfl⟩
      · exact Or.inl h
  | softDeleteMessage now id' => exact Or.inl (List.mem_of_mem_filter h)
  | deleteAllMessages now caller markerId => exact absurd h List.not_mem_nil
  | createEmoticonEvent now id' sender target code hash add => exact Or.inl h
  | updateMessage now id' e => exact Or.inl h
  | publishTxHash now id' hash => exact Or.inl h

theorem stays_step (h : p.Traced) (hm : p.AtMessage m) : p.Stays m := by
  have hafter := traced_step h hm
  refine ⟨fun x' hx' hshown => ?_, fun hides τ hwho hcounts => ?_, fun x hx hk => ?_⟩
  · -- It is one of those that have been sent, before or now.
    have hsent := (hafter.shown x' hx').1 hshown
    have hold : x'.id ∈ p.sent ∨ ∃ now new, m = .createMessage now new ∧ new.id = x'.id := by
      cases htx : p.stream.transact m with
      | none =>
          rw [step, htx] at hsent
          exact Or.inl hsent
      | some s' =>
          rw [step_some htx] at hsent
          exact sent_of_recordSent hsent
    rcases hold with hold | hnew
    · rcases h.held x'.id hold with ⟨x, hx, hid⟩
      exact Or.inl ⟨x, hx, hid, (h.shown x hx).2 (hid ▸ hold)⟩
    · exact Or.inr hnew
  · have hreacts := (Stream.mem_aggregateEmoticons h.wellFormed hwho).1 hcounts
    rcases reacts_step h hm hreacts with hreacts | hother
    · exact Or.inl ((Stream.mem_aggregateEmoticons hafter.wellFormed hwho).2 hreacts)
    · exact Or.inr hother
  · exact marker_step h hm hx hk

/-! ### What is listed -/

theorem mem_listMessages {s : Stream} {hides : WalletAddress → Bool} {since before limit : Nat}
    {includeReplies : Bool} {x : Message}
    (h : x ∈ s.listMessages hides since before limit includeReplies) :
    x ∈ s.rows ∧ x.shown = true := by
  unfold Stream.listMessages at h
  have hmem := (List.mem_insertionSort _).1 (List.mem_of_mem_take (List.mem_reverse.1 h))
  rcases List.mem_filter.1 hmem with ⟨hx, hlisted⟩
  simp only [Stream.listed, Bool.and_eq_true] at hlisted
  exact ⟨hx, hlisted.1.1.1.1⟩

theorem listed_of_traced (h : p.Traced) : p.Listed := by
  refine ⟨fun hides since before limit includeReplies => ⟨?_, fun x hx => ?_⟩,
    fun limit hlimit id hid => ?_⟩
  · -- The rows of a page are some of the rows, in another order.
    rw [Stream.listMessages, List.map_reverse, List.nodup_reverse]
    refine ((List.take_sublist _ _).map Message.id).nodup ?_
    refine ((List.perm_insertionSort _ _).map Message.id).nodup_iff.2 ?_
    exact (List.filter_sublist.map Message.id).nodup h.wellFormed.keyed
  · rcases mem_listMessages hx with ⟨hmem, hshown⟩
    exact (h.shown x hmem).1 hshown
  · rcases h.held id hid with ⟨x, hx, rfl⟩
    refine ⟨x, ?_, rfl⟩
    have hshown := (h.shown x hx).2 hid
    have hlisted : Stream.listed (fun _ => false) 0 0 true x = true := by
      simp [Stream.listed, hshown]
    have hlength : ((p.stream.rows.filter (Stream.listed (fun _ => false) 0 0 true)).insertionSort
        Message.newestFirst).length ≤ limit := by
      rw [List.length_insertionSort]
      exact Nat.le_trans (List.length_filter_le _ _) hlimit
    rw [Stream.listMessages, List.mem_reverse, List.take_of_length_le hlength,
      List.mem_insertionSort, List.mem_filter]
    exact ⟨hx, hlisted⟩

theorem traced_create {now : Nat} (hnow : 0 < now) : Traced ⟨Stream.create now, []⟩ where
  wellFormed := Stream.wellFormed_create hnow
  shown := fun _ hx => absurd hx List.not_mem_nil
  held := fun _ hid => absurd hid List.not_mem_nil

/-- In every state of a run of a new room whose edits, deletions and anchorings are aimed at
    messages, what is listed is what has been sent and not deleted since; and no step makes a
    message of another row, takes a reaction away but by its own sender or a purge, or
    changes a marker but by a purge. -/
theorem display_from_sends {now : Nat} (hnow : 0 < now) (ms : List Mutation)
    (h : Run.Along step AtMessage ⟨Stream.create now, []⟩ ms) :
    Run.Throughout step Listed ⟨Stream.create now, []⟩ ms ∧
      Run.Along step Stays ⟨Stream.create now, []⟩ ms :=
  ⟨Run.throughout_mono (fun _ => listed_of_traced) _ _
      (Run.throughout_of_along (fun _ _ => traced_step) _ _ (traced_create hnow) h),
    Run.along_of_inv (fun _ _ => traced_step) (fun _ _ => stays_step) _ _ (traced_create hnow) h⟩

end Posted

namespace Sample

def plainEdit : MessageEdit := ⟨"edited", "9c1185a5c5e9fc54", none, none, 1, 1⟩

/-- Alice writes and edits a message, Bob reacts, and Alice deletes it. -/
def writtenAndDeleted : List Mutation :=
  [.createMessage 1000 (note "m1" alice), .updateMessage 1001 ⟨"m1"⟩ plainEdit,
    .createEmoticonEvent 1002 ⟨"e1"⟩ bob ⟨"m1"⟩ "+1" "" true, .softDeleteMessage 1003 ⟨"m1"⟩]

theorem display_from_sends_deleted :
    Run.Throughout Posted.step Posted.Listed ⟨Stream.create 1000, []⟩ writtenAndDeleted ∧
      Run.Along Posted.step Posted.Stays ⟨Stream.create 1000, []⟩ writtenAndDeleted :=
  Posted.display_from_sends (by decide) writtenAndDeleted (by decide +kernel)

/-- Alice purges the room and edits the marker, which is shown from then on. She purges it
    again, and the marker is gone. -/
theorem marker_shown_and_gone :
    let purged := Run.run Posted.step ⟨Stream.create 1000, []⟩ [.deleteAllMessages 1000 alice ⟨"m1"⟩]
    let edited := purged.step (.updateMessage 1001 ⟨"m1"⟩ plainEdit)
    let again := purged.step (.deleteAllMessages 1001 alice ⟨"m2"⟩)
    (edited.stream.listMessages (fun _ => false) 0 0 50 true).map
        (fun x => (x.id, x.content)) = [(⟨"m1"⟩, "edited")] ∧
      edited.sent = [] ∧
      purged.stream.rows.map Message.id = [⟨"m1"⟩] ∧
      again.stream.rows.map Message.id = [⟨"m2"⟩] := by
  decide +kernel

end Sample

end PocketSkynet
