import PocketSkynet.Client.Drain
import PocketSkynet.Server.Sample

/-!
# The Cursor

A client with several requests under way. Answers are given by the room as it
stands when they are asked for and are received whenever they arrive, in any
order: sync pages, history pages, and the row an own message was stored as.
Every fold and every merge writes the snapshot through, a fold saves the cursor
beside it, and a reload starts from the two.

The cursor claims that every visible row up to it has been folded. A sync page
keeps that claim however late it arrives, because it carries every row from its
own start to its own end. The two other ways to move the cursor carry no such
thing. An own row moves it past whatever others wrote in between, and a reload
moves it to the highest serial among the kept rows, which a history page may
have brought. The claim survives exactly the runs in which nothing unfolded
lies between when that happens.

## Main definitions

* `Tab`: A room, a client, its storage, and the answers under way.
* `Tab.Act`, `Tab.step`: What happens, and what it does.
* `Tab.Sound`: The claim, and what a drain makes of it.
* `Tab.Covered`: No visible row up to a serial is still unfolded.
* `Tab.NoSkip`: The condition on one act.

## Theorems

* `inv_step`: What the claim rests on is kept.
* `sound_iff`: The runs in which the cursor is sound.
* `own_row_skips`: A run in which it is not.
-/

namespace PocketSkynet

/-- An answer on its way, as it was given. -/
inductive Response where
  | page (since : Nat) (rows : List Message)
  | own (row : Message)
  | history (rows : List Message) (hasMore : Bool)
deriving DecidableEq, Repr

/-- A room, one client of it, what the client has stored, and what it has asked
    for. `folded` remembers the serials the client has folded so far. -/
structure Tab where
  stream : Stream
  client : RoomState
  cache : Option CachedRoom
  savedCursor : Nat
  inFlight : List Response
  folded : List Nat
deriving DecidableEq

namespace Tab

inductive Act where
  | write (m : Mutation)
  | send (now : Nat) (new : NewMessage)
  | ask (since : Nat)
  | askHistory (before : Nat)
  | receive (i : Nat)
  | reload
deriving DecidableEq, Repr

def start (now : Nat) : Tab :=
  { stream := Stream.create now, client := RoomState.empty, cache := none, savedCursor := 0,
    inFlight := [], folded := [] }

/-- `Action::Sync`: fold, save the cursor if the page carried anything, and write
    the snapshot through. -/
def onSync (σ : Tab) (events : List Message) : Tab :=
  let (st, out) := σ.client.foldReport events
  { σ with
    client := st
    savedCursor := if 0 < out.maxSerial then st.cursor else σ.savedCursor
    cache := some st.toCached
    folded := σ.folded ++ events.map Message.msgSerial }

/-- `Action::History`: merge and write the snapshot through. -/
def onHistory (σ : Tab) (page : List Message) (hasMore : Bool) : Tab :=
  let st := σ.client.takeHistory page hasMore
  { σ with client := st, cache := some st.toCached }

/-- Receive one answer. -/
def deliver (σ : Tab) : Response → Tab
  | .page _ rows => σ.onSync rows
  | .own row => σ.onSync [row]
  | .history rows hasMore => σ.onHistory rows hasMore

/-- One act. A drain never asks from beyond its cursor, and a reload loses what
    was under way. -/
def step (hides : WalletAddress → Bool) (σ : Tab) : Act → Tab
  | .write m => { σ with stream := σ.stream.apply m }
  | .send now new =>
      match σ.stream.createMessage now new with
      | some s =>
          { σ with
            stream := s
            inFlight := σ.inFlight ++ [.own (Stream.newRow new now (σ.stream.serialAt now))] }
      | none => σ
  | .ask since =>
      if since ≤ σ.client.cursor then
        { σ with
          inFlight := σ.inFlight ++ [.page since (σ.stream.syncMessages hides since).1] }
      else σ
  | .askHistory before =>
      let rows := σ.stream.getMessages hides before pageSize
      { σ with inFlight := σ.inFlight ++ [.history rows (!rows.isEmpty)] }
  | .receive i =>
      match σ.inFlight[i]? with
      | some answer => { σ with inFlight := σ.inFlight.eraseIdx i }.deliver answer
      | none => σ
  | .reload =>
      { σ with
        client := match σ.cache with
          | some cached => RoomState.fromCached cached σ.savedCursor
          | none => RoomState.empty
        inFlight := [] }

/-- The drain loop, each page folded before the next is asked for. -/
def drain (hides : WalletAddress → Bool) : Nat → Tab → Tab
  | 0, σ => σ
  | requests + 1, σ =>
      drain hides requests (σ.onSync (σ.stream.syncMessages hides σ.client.cursor).1)

/-- Every visible row up to the cursor has been folded, and after a drain that is
    allowed enough requests every visible row has. -/
structure Sound (hides : WalletAddress → Bool) (σ : Tab) : Prop where
  folded : ∀ r ∈ σ.stream.rows, hides r.senderAddress = false →
    r.msgSerial ≤ σ.client.cursor → r.msgSerial ∈ σ.folded
  drained : ∀ requests,
    (σ.stream.pending hides σ.client.cursor).length ≤ syncLimit * requests →
    ∀ r ∈ σ.stream.rows, hides r.senderAddress = false →
      r.msgSerial ∈ (drain hides requests σ).folded

/-- No visible row past the cursor and up to `n` is still to be folded, apart
    from those under way. -/
def Covered (hides : WalletAddress → Bool) (σ : Tab) (folding : List Nat) (n : Nat) : Prop :=
  ∀ r ∈ σ.stream.rows, hides r.senderAddress = false → σ.client.cursor < r.msgSerial →
    r.msgSerial ≤ n → r.msgSerial ∈ σ.folded ++ folding

/-- The condition on one act: what moves the cursor without carrying what lies
    between, an own row or a reload, has nothing to move it past. -/
def NoSkip (hides : WalletAddress → Bool) (σ : Tab) : Act → Prop
  | .receive i =>
      match σ.inFlight[i]? with
      | some (.own row) => σ.Covered hides [row.msgSerial] row.msgSerial
      | _ => True
  | .reload =>
      match σ.cache with
      | some cached => σ.Covered hides [] (highestSerial cached.rows)
      | none => True
  | _ => True

instance (hides : WalletAddress → Bool) (σ : Tab) (folding : List Nat) (n : Nat) :
    Decidable (σ.Covered hides folding n) :=
  inferInstanceAs (Decidable (∀ r ∈ σ.stream.rows, _ → _ → _ → _))

instance (hides : WalletAddress → Bool) (σ : Tab) (a : Act) : Decidable (σ.NoSkip hides a) := by
  unfold NoSkip
  split <;> try infer_instance
  all_goals split <;> infer_instance

section Invariant

variable {hides : WalletAddress → Bool}

/-- What an answer under way can be relied on for. -/
def Dependable (hides : WalletAddress → Bool) (σ : Tab) : Response → Prop
  | .page since rows => since ≤ σ.client.cursor ∧ highestSerial rows < σ.stream.nextSerial ∧
      ∀ r ∈ σ.stream.rows, hides r.senderAddress = false → since < r.msgSerial →
        r.msgSerial ≤ highestSerial rows → r.msgSerial ∈ rows.map Message.msgSerial
  | .own row => row.msgSerial < σ.stream.nextSerial
  | .history rows _ => highestSerial rows < σ.stream.nextSerial

/-- Every serial the client has seen is one the room has handed out, everything
    visible up to the cursor and up to the saved cursor has been folded, and what
    is under way is dependable. -/
structure Inv (hides : WalletAddress → Bool) (σ : Tab) : Prop where
  ordered : σ.stream.WellFormed
  behind : σ.client.cursor < σ.stream.nextSerial
  held : ∀ m ∈ σ.client.messages, m.msgSerial < σ.stream.nextSerial
  cached : ∀ c, σ.cache = some c → highestSerial c.rows < σ.stream.nextSerial
  saved : σ.savedCursor < σ.stream.nextSerial
  foldedSaved : ∀ r ∈ σ.stream.rows, hides r.senderAddress = false →
    r.msgSerial ≤ σ.savedCursor → r.msgSerial ∈ σ.folded
  folded : ∀ r ∈ σ.stream.rows, hides r.senderAddress = false →
    r.msgSerial ≤ σ.client.cursor → r.msgSerial ∈ σ.folded
  flights : ∀ a ∈ σ.inFlight, Dependable hides σ a

theorem inv_start {now : Nat} (h : 0 < now) : Inv hides (start now) where
  ordered := Stream.wellFormed_create h
  behind := h
  held := fun _ hm => by cases hm
  cached := fun _ hc => by cases hc
  saved := h
  foldedSaved := fun _ hr => by cases hr
  folded := fun _ hr => by cases hr
  flights := fun _ ha => by cases ha

/-! ### The fields after a fold -/

@[simp] theorem client_onSync (σ : Tab) (es : List Message) :
    (σ.onSync es).client = σ.client.fold es := RoomState.foldReport_fst σ.client es

@[simp] theorem stream_onSync (σ : Tab) (es : List Message) : (σ.onSync es).stream = σ.stream :=
  rfl

@[simp] theorem folded_onSync (σ : Tab) (es : List Message) :
    (σ.onSync es).folded = σ.folded ++ es.map Message.msgSerial := rfl

theorem cache_onSync (σ : Tab) (es : List Message) :
    (σ.onSync es).cache = some (σ.client.fold es).toCached := by
  rw [← RoomState.foldReport_fst]
  rfl

theorem savedCursor_onSync (σ : Tab) (es : List Message) :
    (σ.onSync es).savedCursor =
      if 0 < highestSerial es then (σ.client.fold es).cursor else σ.savedCursor := by
  rw [← RoomState.foldReport_fst, ← RoomState.foldReport_maxSerial σ.client]
  rfl

/-! ### Steps -/

theorem cached_lt {st : RoomState} {n : Nat} (hn : 0 < n)
    (h : ∀ m ∈ st.messages, m.msgSerial < n) : highestSerial st.toCached.rows < n :=
  highestSerial_lt hn fun m hm => h m (RoomState.mem_capRows hm)

/-- Whatever has been promised about the rows up to a serial, a write adds none. -/
theorem covers_write {s : Stream} {m : Mutation} (hs : s.WellFormed) {n : Nat}
    (hn : n < s.nextSerial) {P : Message → Prop} (h : ∀ r ∈ s.rows, r.msgSerial ≤ n → P r) :
    ∀ r ∈ (s.apply m).rows, r.msgSerial ≤ n → P r := by
  intro r hr hle
  rcases Stream.mem_apply hs hr with hr | hge
  · exact h r hr hle
  · omega

theorem inv_write (σ : Tab) (m : Mutation) (h : Inv hides σ) :
    Inv hides { σ with stream := σ.stream.apply m } := by
  have hnext := σ.stream.nextSerial_le_apply m
  refine ⟨σ.stream.wellFormed_apply m h.ordered, lt_of_lt_of_le h.behind hnext,
    fun x hx => lt_of_lt_of_le (h.held x hx) hnext,
    fun c hc => lt_of_lt_of_le (h.cached c hc) hnext, lt_of_lt_of_le h.saved hnext, ?_, ?_, ?_⟩
  · intro r hr hvis hle
    exact covers_write (P := fun r => hides r.senderAddress = false → r.msgSerial ∈ σ.folded)
      h.ordered h.saved (fun r hr hle hvis => h.foldedSaved r hr hvis hle) r hr hle hvis
  · intro r hr hvis hle
    exact covers_write (P := fun r => hides r.senderAddress = false → r.msgSerial ∈ σ.folded)
      h.ordered h.behind (fun r hr hle hvis => h.folded r hr hvis hle) r hr hle hvis
  · intro a ha
    have hdep := h.flights a ha
    cases a with
    | page since rows =>
        refine ⟨hdep.1, lt_of_lt_of_le hdep.2.1 hnext, ?_⟩
        intro r hr hvis hlt hle
        exact covers_write (P := fun r => hides r.senderAddress = false → since < r.msgSerial →
          r.msgSerial ∈ rows.map Message.msgSerial) h.ordered hdep.2.1
          (fun r hr hle hvis hlt => hdep.2.2 r hr hvis hlt hle) r hr hle hvis hlt
    | own row => exact lt_of_lt_of_le hdep hnext
    | history rows hasMore => exact lt_of_lt_of_le hdep hnext

theorem inv_fly (σ : Tab) (a : Response) (h : Inv hides σ) (ha : Dependable hides σ a) :
    Inv hides { σ with inFlight := σ.inFlight ++ [a] } := by
  refine ⟨h.ordered, h.behind, h.held, h.cached, h.saved, h.foldedSaved, h.folded, ?_⟩
  intro b hb
  rcases List.mem_append.1 hb with hb | hb
  · exact h.flights b hb
  · rw [List.mem_singleton.1 hb]
    exact ha

theorem inv_land (σ : Tab) (i : Nat) (h : Inv hides σ) :
    Inv hides { σ with inFlight := σ.inFlight.eraseIdx i } :=
  ⟨h.ordered, h.behind, h.held, h.cached, h.saved, h.foldedSaved, h.folded,
    fun a ha => h.flights a (List.mem_of_mem_eraseIdx ha)⟩

/-- Folding events that leave no visible row out keeps the invariant. -/
theorem inv_onSync (σ : Tab) (es : List Message) (h : Inv hides σ)
    (hlt : ∀ e ∈ es, e.msgSerial < σ.stream.nextSerial)
    (hcov : σ.Covered hides (es.map Message.msgSerial) (highestSerial es)) :
    Inv hides (σ.onSync es) := by
  have hpos := h.ordered.started
  have hhigh : highestSerial es < σ.stream.nextSerial := highestSerial_lt hpos hlt
  have hbehind : (σ.client.fold es).cursor < σ.stream.nextSerial := by
    rw [RoomState.cursor_fold]
    exact max_lt h.behind hhigh
  have hheld : ∀ m ∈ (σ.client.fold es).messages, m.msgSerial < σ.stream.nextSerial := by
    intro m hm
    rcases RoomState.mem_fold hm with hm | ⟨hm, -⟩
    · exact h.held m hm
    · exact hlt m hm
  have hfolded : ∀ r ∈ σ.stream.rows, hides r.senderAddress = false →
      r.msgSerial ≤ (σ.client.fold es).cursor → r.msgSerial ∈ σ.folded ++ es.map Message.msgSerial := by
    intro r hr hvis hle
    rw [RoomState.cursor_fold] at hle
    by_cases hold : r.msgSerial ≤ σ.client.cursor
    · exact List.mem_append_left _ (h.folded r hr hvis hold)
    · exact hcov r hr hvis (by omega) (by omega)
  refine ⟨h.ordered, ?_, ?_, ?_, ?_, ?_, ?_, ?_⟩
  · rw [client_onSync]
    exact hbehind
  · rw [client_onSync]
    exact hheld
  · intro c hc
    rw [cache_onSync] at hc
    cases hc
    exact cached_lt hpos hheld
  · rw [savedCursor_onSync]
    split
    · exact hbehind
    · exact h.saved
  · intro r hr hvis hle
    rw [savedCursor_onSync] at hle
    split at hle
    · exact hfolded r hr hvis hle
    · exact List.mem_append_left _ (h.foldedSaved r hr hvis hle)
  · rw [client_onSync]
    exact hfolded
  · intro a ha
    have hdep := h.flights a ha
    cases a with
    | page since rows =>
        refine ⟨?_, hdep.2⟩
        rw [client_onSync]
        exact le_trans hdep.1 (RoomState.le_cursor_fold _ _)
    | own row => exact hdep
    | history rows hasMore => exact hdep

/-- Merging history does not touch the cursor, so nothing is claimed anew. -/
theorem inv_onHistory (σ : Tab) (page : List Message) (hasMore : Bool) (h : Inv hides σ)
    (hlt : ∀ m ∈ page, m.msgSerial < σ.stream.nextSerial) :
    Inv hides (σ.onHistory page hasMore) := by
  have hheld : ∀ m ∈ (σ.client.takeHistory page hasMore).messages,
      m.msgSerial < σ.stream.nextSerial := by
    intro m hm
    rcases RoomState.mem_mergeHistory hm with hm | hm
    · exact h.held m hm
    · exact hlt m hm
  have hcursor : (σ.onHistory page hasMore).client.cursor = σ.client.cursor :=
    RoomState.cursor_takeHistory σ.client page hasMore
  refine ⟨h.ordered, ?_, hheld, ?_, h.saved, h.foldedSaved, ?_, ?_⟩
  · rw [hcursor]
    exact h.behind
  · intro c hc
    cases hc
    exact cached_lt h.ordered.started hheld
  · rw [hcursor]
    exact h.folded
  · intro a ha
    have hdep := h.flights a ha
    cases a with
    | page since rows =>
        refine ⟨?_, hdep.2⟩
        rw [hcursor]
        exact hdep.1
    | own row => exact hdep
    | history rows hasMore => exact hdep

/-- A reload starts from the snapshot and the saved cursor. -/
theorem inv_reload (σ : Tab) (h : Inv hides σ) (hskip : σ.NoSkip hides .reload) :
    Inv hides (step hides σ .reload) := by
  unfold step
  dsimp only
  cases hc : σ.cache with
  | none =>
      refine ⟨h.ordered, h.ordered.started, (fun _ hm => by cases hm), (fun _ hc => by cases hc),
        h.saved, h.foldedSaved, ?_, (fun _ ha => by cases ha)⟩
      intro r hr _ hle
      have hpos := h.ordered.positive r hr
      change r.msgSerial ≤ 0 at hle
      omega
  | some c =>
      have hcached := h.cached c hc
      rw [NoSkip, hc] at hskip
      have hlt : ∀ m ∈ c.rows, m.msgSerial < σ.stream.nextSerial := fun m hm =>
        lt_of_le_of_lt (le_highestSerial hm) hcached
      refine ⟨h.ordered, ?_, fun m hm => hlt m (RoomState.mem_fromCached hm),
        (fun c' hc' => by cases hc'; exact hcached), h.saved, h.foldedSaved, ?_,
        (fun _ ha => by cases ha)⟩
      · rw [RoomState.cursor_fromCached]
        exact max_lt hcached h.saved
      · intro r hr hvis hle
        rw [RoomState.cursor_fromCached] at hle
        by_cases hsaved : r.msgSerial ≤ σ.savedCursor
        · exact h.foldedSaved r hr hvis hsaved
        · by_cases hold : r.msgSerial ≤ σ.client.cursor
          · exact h.folded r hr hvis hold
          · have hmem := hskip r hr hvis (by omega) (by omega)
            rwa [List.append_nil] at hmem

theorem dependable_page (σ : Tab) (since : Nat) (h : Inv hides σ) (hle : since ≤ σ.client.cursor) :
    Dependable hides σ (.page since (σ.stream.syncMessages hides since).1) := by
  rw [Stream.syncMessages_eq]
  refine ⟨hle, highestSerial_lt h.ordered.started fun m hm => ?_, ?_⟩
  · exact h.ordered.below m (Stream.mem_pending.1 (List.mem_of_mem_take hm)).1
  · intro r hr hvis hlt hhigh
    exact List.mem_map_of_mem (Stream.mem_take_pending h.ordered hr hvis hlt hhigh)

/-- **The step lemma.** An act that skips nothing keeps the invariant. -/
theorem inv_step (σ : Tab) (a : Act) (h : Inv hides σ) (ha : σ.NoSkip hides a) :
    Inv hides (step hides σ a) := by
  cases a with
  | write m => exact inv_write σ m h
  | send now new =>
      cases hs : σ.stream.createMessage now new with
      | none =>
          simp only [step, hs]
          exact h
      | some s =>
          simp only [step, hs]
          have happly : σ.stream.apply (.createMessage now new) = s := by
            rw [Stream.apply, Stream.transact, hs, Option.getD_some]
          have hw := inv_write σ (.createMessage now new) h
          rw [happly] at hw
          refine inv_fly { σ with stream := s } _ hw ?_
          simp only [Stream.createMessage, Option.bind_eq_bind, Option.bind_eq_some_iff] at hs
          obtain ⟨s', hs', hs⟩ := hs
          cases Stream.allocate_eq_some hs'
          obtain ⟨-, rfl⟩ := Stream.insert_eq_some hs
          exact Nat.lt_succ_self (σ.stream.serialAt now)
  | ask since =>
      simp only [step]
      split
      next hle => exact inv_fly σ _ h (dependable_page σ since h hle)
      next => exact h
  | askHistory before =>
      refine inv_fly σ _ h (highestSerial_lt h.ordered.started fun m hm => ?_)
      exact h.ordered.below m (Stream.mem_getMessages hm).1
  | receive i =>
      cases hi : σ.inFlight[i]? with
      | none =>
          simp only [step, hi]
          exact h
      | some answer =>
          simp only [step, hi]
          have hdep := h.flights answer (List.mem_of_getElem? hi)
          simp only [NoSkip, hi] at ha
          cases answer with
          | page since rows =>
              refine inv_onSync _ rows (inv_land σ i h)
                (fun e he => lt_of_le_of_lt (le_highestSerial he) hdep.2.1) ?_
              intro r hr hvis hlt hle
              have hsince : since < r.msgSerial := lt_of_le_of_lt hdep.1 hlt
              exact List.mem_append_right _ (hdep.2.2 r hr hvis hsince hle)
          | own row =>
              refine inv_onSync _ [row] (inv_land σ i h)
                (fun e he => by rw [List.mem_singleton.1 he]; exact hdep) ?_
              simpa [Covered] using ha
          | history rows hasMore =>
              exact inv_onHistory _ rows hasMore (inv_land σ i h)
                fun m hm => lt_of_le_of_lt (le_highestSerial hm) hdep
  | reload => exact inv_reload σ h ha

/-- An act that skips a visible row leaves the cursor beyond a row not folded. -/
theorem sharp_step (σ : Tab) (a : Act) (hs : (step hides σ a).Sound hides) :
    σ.NoSkip hides a := by
  have hfolded := hs.folded
  unfold NoSkip
  split
  next i =>
    split
    next row hi =>
      intro r hr hvis _ hle
      simp only [step, hi, deliver, stream_onSync, client_onSync, folded_onSync,
        RoomState.cursor_fold] at hfolded
      exact hfolded r hr hvis (le_trans (by simpa using hle) (le_max_right _ _))
    next => trivial
  next =>
    split
    next c hc =>
      intro r hr hvis _ hle
      simp only [step, hc, RoomState.cursor_fromCached] at hfolded
      rw [List.append_nil]
      exact hfolded r hr hvis (le_trans hle (le_max_left _ _))
    next => trivial
  next => trivial

/-- Under the invariant a drain folds everything that is visible. -/
theorem drain_folds (σ : Tab) (requests : Nat) (h : Inv hides σ)
    (hlen : (σ.stream.pending hides σ.client.cursor).length ≤ syncLimit * requests) :
    ∀ r ∈ σ.stream.rows, hides r.senderAddress = false →
      r.msgSerial ∈ (drain hides requests σ).folded := by
  induction requests generalizing σ with
  | zero =>
      intro r hr hvis
      refine h.folded r hr hvis ?_
      by_contra hlt
      have hmem : r ∈ σ.stream.pending hides σ.client.cursor :=
        Stream.mem_pending.2 ⟨hr, by omega, hvis⟩
      have hnil : σ.stream.pending hides σ.client.cursor = [] :=
        List.length_eq_zero_iff.1 (by omega)
      rw [hnil] at hmem
      cases hmem
  | succ requests ih =>
      have hdep := dependable_page σ σ.client.cursor h le_rfl
      rw [Stream.syncMessages_eq] at hdep
      have hinv : Inv hides (σ.onSync ((σ.stream.pending hides σ.client.cursor).take syncLimit)) := by
        refine inv_onSync σ _ h (fun e he => lt_of_le_of_lt (le_highestSerial he) hdep.2.1) ?_
        exact fun r hr hvis hlt hle => List.mem_append_right _ (hdep.2.2 r hr hvis hlt hle)
      intro r hr hvis
      rw [drain, Stream.syncMessages_eq]
      refine ih _ hinv ?_ r hr hvis
      rw [stream_onSync, client_onSync, RoomState.cursor_fold]
      by_cases hpos : 0 < (σ.stream.pending hides σ.client.cursor).length
      · rw [Stream.pending_drop h.ordered (by decide) hpos, List.length_drop]
        rw [Nat.mul_succ] at hlen
        omega
      · have hnil := List.length_eq_zero_iff.1 (Nat.eq_zero_of_not_pos hpos)
        rw [hnil, List.take_nil, highestSerial_nil, Nat.max_zero, hnil]
        exact Nat.zero_le _

theorem sound_of_inv (σ : Tab) (h : Inv hides σ) : σ.Sound hides :=
  ⟨h.folded, fun requests hlen => drain_folds σ requests h hlen⟩

end Invariant

/-- **The cursor.** The runs in which it is sound in every state are the runs
    whose own rows and reloads skip nothing. -/
theorem sound_iff (hides : WalletAddress → Bool) (now : Nat) (acts : List Act) (hnow : 0 < now) :
    Run.Throughout (step hides) (Sound hides) (start now) acts ↔
      Run.Along (step hides) (NoSkip hides) (start now) acts :=
  Run.throughout_iff_along inv_step sound_of_inv (fun σ a _ hs => sharp_step σ a hs) _ acts
    (inv_start hnow)

section Sample

open Sample

/-- Bob writes, the client drains, Alice sends from it, and the row comes back. -/
def drainedFirst : List Act :=
  [.write (.createMessage 10 (note "msg_1" bob)), .ask 0, .receive 0,
    .send 11 (note "msg_2" alice), .receive 0, .reload]

theorem drainedFirst_sound :
    Run.Throughout (step fun _ => false) (Sound fun _ => false) (start 10) drainedFirst :=
  (sound_iff (fun _ => false) 10 drainedFirst (by decide)).2 (by decide +kernel)

/-- Alice's client has not seen Bob's message when her own comes back. -/
def ownRowFirst : List Act :=
  [.write (.createMessage 10 (note "msg_1" bob)), .send 11 (note "msg_2" alice), .receive 0]

/-- Her cursor is past Bob's row, which no sync will ever bring. -/
theorem own_row_skips :
    ¬ Run.Throughout (step fun _ => false) (Sound fun _ => false) (start 10) ownRowFirst := by
  intro h
  have hlast := Run.throughout_last _ _ h
  have hmissing : ∃ r ∈ (Run.run (step fun _ => false) (start 10) ownRowFirst).stream.rows,
      r.msgSerial ≤ (Run.run (step fun _ => false) (start 10) ownRowFirst).client.cursor ∧
        r.msgSerial ∉ (Run.run (step fun _ => false) (start 10) ownRowFirst).folded := by
    decide +kernel
  obtain ⟨r, hr, hle, hno⟩ := hmissing
  exact hno (hlast.folded r hr rfl hle)

end Sample

end Tab

end PocketSkynet
