import PocketSkynet.Lib.Firsts
import PocketSkynet.Server.Emoticons
import PocketSkynet.Server.Sample

/-!
# Reactions by Their Last Event

The events of reactions are rows among the messages of a room, in the order in which they were
made. A row that is deleted or edited afterwards is no event any more, and keeps its place. The
response about a message replays its events in the order of their serials. For events this is the
order in which they were made, as long as none of them is anchored: that gives a row a new serial.

So somebody is listed under a code if the last event that is left of the two adds it, and if the
viewer has not blocked the sender. The codes are listed in the order in which they were first
added.

## Main definitions

* `Stream.Stands`: The last event of a reaction adds it.
* `Stream.LastWins`: What is asked of the response.
* `Mutation.anchors`: The write gives a row a new serial and keeps what it is.

## Theorems

* `Stream.gather_eq`: So they are replayed in that order.
* `Stream.stands_replay`, `Stream.order_replay`: What a replay comes to.
* `Stream.lastWins_run`: The last event wins, after every run.
-/

namespace PocketSkynet

/-- The write gives a row a new serial and keeps what it is. -/
def Mutation.anchors : Mutation → Bool
  | .publishTxHash .. => true
  | _ => false

/-- The reactors whose profile is known, as the response shows them. -/
def EmoticonAggregation.users (known : WalletAddress → Bool) (a : Stream.EmoticonAggregation) :
    List WalletAddress := a.reactors.filter known

namespace Stream

/-- The events of a reaction, in the order in which they were made. -/
def eventsOf (rows : List Message) (τ : Reaction) : List Message :=
  rows.filter fun r => r.isReaction && decide (r.reaction? = some τ)

/-- The last event of a reaction adds it. -/
def Stands (rows : List Message) (τ : Reaction) : Prop :=
  ∃ r, (eventsOf rows τ).getLast? = some r ∧ r.kind = .emoticonAdd

/-- The events about a message, by senders that are not hidden. -/
def eventsAbout (rows : List Message) (hides : WalletAddress → Bool) (target : MessageId) :
    List Message :=
  rows.filter fun r => r.isReaction &&
    (decide (r.targetMessageId = some target) && !hides r.senderAddress)

/-- The codes that are added, in the order in which that was done. -/
def addedCodes (es : List Message) : List String :=
  (es.filter fun r => r.kind == .emoticonAdd).filterMap Message.emoticonCode

/-- A reaction is listed if it stands and its sender is not hidden. Each code is listed once, with
    its senders counted, in the order in which they were first added. -/
structure LastWins (s : Stream) (hides : WalletAddress → Bool) (target : MessageId) : Prop where
  listed : ∀ code who, (∃ a ∈ s.aggregateEmoticons hides target,
      a.emoticonCode = code ∧ who ∈ a.reactors) ↔
    hides who = false ∧ Stands s.rows ⟨target, code, who⟩
  once : ((s.aggregateEmoticons hides target).map EmoticonAggregation.emoticonCode).Nodup
  ordered : ((s.aggregateEmoticons hides target).map EmoticonAggregation.emoticonCode).Sublist
    (keepUnseen id [] (addedCodes (eventsAbout s.rows hides target)))
  counted : ∀ a ∈ s.aggregateEmoticons hides target,
    a.count = a.reactors.length ∧ a.reactors.Nodup ∧ a.reactors ≠ []
  profiled : ∀ known : WalletAddress → Bool,
    (∀ r ∈ s.rows, r.isReaction = true → known r.senderAddress = true) →
      ∀ a ∈ s.aggregateEmoticons hides target, EmoticonAggregation.users known a = a.reactors

/-! ### The order of events -/

/-- Events are numbered in the order in which they were made. -/
def InOrder (rows : List Message) : Prop :=
  (rows.filter Message.isReaction).Pairwise fun a b => a.msgSerial < b.msgSerial

-- A row that becomes something else leaves the events.
theorem inOrder_modify {rows : List Message} (h : InOrder rows) (id : MessageId)
    {f : Message → Message} (hf : ∀ m, (f m).isReaction = false) :
    InOrder (Table.modify Message.id id f rows) := by
  have hsub : ((Table.modify Message.id id f rows).filter Message.isReaction).Sublist
      (rows.filter Message.isReaction) := by
    clear h
    induction rows with
    | nil => exact List.Sublist.refl _
    | cons m rows ih =>
        rw [Table.modify, List.map_cons]
        by_cases hid : m.id = id
        · rw [if_pos hid, List.filter_cons_of_neg (by simp [hf])]
          exact ih.trans (List.Sublist.filter _ (List.sublist_cons_self m rows))
        · rw [if_neg hid]
          by_cases hm : m.isReaction = true
          · rw [List.filter_cons_of_pos hm, List.filter_cons_of_pos hm]
            exact ih.cons_cons m
          · rw [List.filter_cons_of_neg hm, List.filter_cons_of_neg hm]
            exact ih
  exact h.sublist hsub

/-- A write that does not anchor a row keeps events in their order. -/
theorem inOrder_apply {s : Stream} {m : Mutation} (hs : s.WellFormed) (h : InOrder s.rows)
    (hm : m.anchors = false) : InOrder (s.apply m).rows := by
  rcases s.apply_cases m with hsame | ⟨n, hn, -, hstep⟩
  · rwa [hsame]
  · generalize (s.apply m).rows = rows' at hstep
    cases hstep with
    | created now new hid =>
        rw [InOrder, List.filter_append, List.filter_cons_of_neg (by simp [Message.isReaction,
          newRow]), List.filter_nil, List.append_nil]
        exact h
    | reacted now id sender target code hash add hid =>
        rw [InOrder, List.filter_append]
        refine List.pairwise_append.2 ⟨h, ?_, fun a ha b hb => ?_⟩
        · exact List.Pairwise.filter _ (List.pairwise_singleton _ _)
        · have hlt := hs.below a (List.mem_of_mem_filter ha)
          rw [List.mem_singleton.1 (List.mem_of_mem_filter hb)]
          exact Nat.lt_of_lt_of_le hlt hn
    | edited now id e r hr hlive => exact inOrder_modify h id fun _ => rfl
    | deleted now id r hr hlive => exact inOrder_modify h id fun _ => rfl
    | missed now id => exact h
    | purged now caller markerId => exact List.Pairwise.nil
    | published now id hash r hr => cases hm

/-- After every run in which no row is anchored, events are numbered in the order in which they
    were made. -/
theorem inOrder_run {s : Stream} {ms : List Mutation} (hs : s.WellFormed) (h : InOrder s.rows)
    (hms : ∀ m ∈ ms, m.anchors = false) :
    (Run.run apply s ms).WellFormed ∧ InOrder (Run.run apply s ms).rows := by
  induction ms generalizing s with
  | nil => exact ⟨hs, h⟩
  | cons m ms ih =>
      have hstep := inOrder_apply hs h (hms m List.mem_cons_self)
      exact ih (wellFormed_apply s m hs) hstep fun m' hm' => hms m' (List.mem_cons_of_mem m hm')

-- What is no event changes nothing in a replay.
theorem replay_filter (es : List Message) (g : Gathered) :
    es.foldl Gathered.replay g = (es.filter Message.isReaction).foldl Gathered.replay g := by
  induction es generalizing g with
  | nil => rfl
  | cons e es ih =>
      by_cases he : e.isReaction = true
      · rw [List.filter_cons_of_pos he, List.foldl_cons, List.foldl_cons, ih]
      · have hsame : g.replay e = g := by
          unfold Gathered.replay
          cases hc : e.emoticonCode with
          | none => rfl
          | some c =>
              cases hk : e.kind with
              | emoticonAdd => exact absurd (isReaction_of_add hk) he
              | emoticonRemove => exact absurd (by simp [Message.isReaction, hk]) he
              | _ => rfl
        rw [List.filter_cons_of_neg he, List.foldl_cons, hsame, ih]

/-- The events about a message are replayed in the order in which they were made. -/
theorem gather_eq {s : Stream} (hs : s.WellFormed) (h : InOrder s.rows)
    (hides : WalletAddress → Bool) (target : MessageId) :
    s.gather hides target =
      (eventsAbout s.rows hides target).foldl Gathered.replay ⟨[], []⟩ := by
  rw [gather, replay_filter]
  refine congrArg (List.foldl Gathered.replay ⟨[], []⟩) ?_
  have hperm := (List.perm_insertionSort (fun a b : Message => a.msgSerial ≤ b.msgSerial)
    (s.rows.filter fun m => decide (m.targetMessageId = some target) &&
      !hides m.senderAddress)).filter Message.isReaction
  have habout : (s.rows.filter fun m => decide (m.targetMessageId = some target) &&
      !hides m.senderAddress).filter Message.isReaction = eventsAbout s.rows hides target := by
    rw [List.filter_filter]
    rfl
  rw [habout] at hperm
  have hread : ((bySerial (s.rows.filter fun m => decide (m.targetMessageId = some target) &&
      !hides m.senderAddress)).filter Message.isReaction).Pairwise
        fun a b => a.msgSerial < b.msgSerial :=
    (bySerial_sorted (hs.serials.sublist (List.filter_sublist.map _))).filter _
  have hmade : (eventsAbout s.rows hides target).Pairwise
      fun a b => a.msgSerial < b.msgSerial := by
    refine h.sublist ?_
    rw [← habout, List.filter_filter, ← List.filter_filter, List.filter_comm]
    exact List.filter_sublist
  exact hperm.eq_of_pairwise (fun a b _ _ hab hba =>
    absurd (Nat.lt_trans hab hba) (Nat.lt_irrefl a.msgSerial)) hread hmade

/-! ### What a replay comes to -/

variable {target : MessageId} {code : String} {who : WalletAddress}

-- The last of some events, if it is one of the reaction.
theorem stands_append (es : List Message) (e : Message) (τ : Reaction) :
    Stands (es ++ [e]) τ ↔
      if e.isReaction = true ∧ e.reaction? = some τ then e.kind = .emoticonAdd
      else Stands es τ := by
  unfold Stands eventsOf
  rw [List.filter_append]
  by_cases he : e.isReaction = true ∧ e.reaction? = some τ
  · rw [if_pos he, List.filter_cons_of_pos (by simp [he]), List.filter_nil,
      List.getLast?_append, List.getLast?_singleton, Option.some_or]
    simp only [Option.some.injEq, exists_eq_left']
  · rw [if_neg he, List.filter_cons_of_neg (by simpa using he), List.filter_nil, List.append_nil]

/-- A replay gathers the reactions whose last event adds them. -/
theorem stands_replay {es : List Message} (htarget : ∀ m ∈ es, m.targetMessageId = some target) :
    (code, who) ∈ (es.foldl Gathered.replay ⟨[], []⟩).reactors ↔
      Stands es ⟨target, code, who⟩ := by
  induction es using List.reverseRecOn with
  | nil => simp [Stands, eventsOf]
  | append_singleton es e ih =>
      rw [List.foldl_append, List.foldl_cons, List.foldl_nil,
        mem_reactors_replay _ e (htarget e (by simp)), stands_append,
        ih fun m hm => htarget m (List.mem_append_left _ hm)]

theorem addedCodes_cons (e : Message) (es : List Message) : addedCodes (e :: es) =
    (if e.kind = .emoticonAdd then e.emoticonCode.toList else []) ++ addedCodes es := by
  unfold addedCodes
  by_cases hk : e.kind = .emoticonAdd
  · rw [if_pos hk, List.filter_cons, if_pos (beq_iff_eq.2 hk)]
    cases hc : e.emoticonCode with
    | none => rw [List.filterMap_cons_none hc]; rfl
    | some c => rw [List.filterMap_cons_some hc]; rfl
  · rw [if_neg hk, List.filter_cons, if_neg (fun h => hk (beq_iff_eq.1 h)), List.nil_append]

/-- A replay lists the codes in the order in which they are first added. -/
theorem order_replay (es : List Message) (g : Gathered) :
    (es.foldl Gathered.replay g).order = g.order ++ keepUnseen id g.order (addedCodes es) := by
  induction es generalizing g with
  | nil => rw [addedCodes, List.filter_nil, List.filterMap_nil, keepUnseen, List.append_nil]; rfl
  | cons e es ih =>
      rw [List.foldl_cons, ih]
      have hskip : (g.replay e).order = g.order → addedCodes (e :: es) = addedCodes es →
          (g.replay e).order ++ keepUnseen id (g.replay e).order (addedCodes es) =
            g.order ++ keepUnseen id g.order (addedCodes (e :: es)) := by
        intro horder hcodes
        rw [horder, hcodes]
      cases hc : e.emoticonCode with
      | none =>
          refine hskip (by simp [Gathered.replay, hc]) ?_
          rw [addedCodes_cons, hc, Option.toList_none, ite_self, List.nil_append]
      | some c =>
          by_cases hk : e.kind = .emoticonAdd
          · have hcodes : addedCodes (e :: es) = c :: addedCodes es := by
              rw [addedCodes_cons, if_pos hk, hc]
              rfl
            have horder : (g.replay e).order =
                if c ∈ g.order then g.order else g.order ++ [c] := by
              simp [Gathered.replay, hc, hk]
            rw [hcodes, horder, keepUnseen, id_eq]
            by_cases hin : c ∈ g.order
            · rw [if_pos hin, if_pos hin]
            · rw [if_neg hin, if_neg hin, List.append_assoc, List.singleton_append]
              refine congrArg (g.order ++ c :: ·) (keepUnseen_congr (fun k => ?_) _)
              rw [List.mem_append, List.mem_singleton, List.mem_cons, or_comm]
          · refine hskip ?_ ?_
            · unfold Gathered.replay
              rw [hc]
              cases hkind : e.kind with
              | emoticonAdd => exact absurd hkind hk
              | _ => rfl
            · rw [addedCodes_cons, if_neg hk, List.nil_append]

-- Nobody is gathered twice.
theorem nodup_replay (es : List Message) {g : Gathered} (h : g.reactors.Nodup) :
    (es.foldl Gathered.replay g).reactors.Nodup := by
  induction es generalizing g with
  | nil => exact h
  | cons e es ih =>
      refine ih ?_
      unfold Gathered.replay
      cases hc : e.emoticonCode with
      | none => exact h
      | some c =>
          cases hk : e.kind with
          | emoticonAdd =>
              dsimp only
              split
              · exact h
              · next hnew =>
                  refine List.nodup_append.2 ⟨h, List.nodup_singleton _, fun a ha b hb => ?_⟩
                  rw [List.mem_singleton.1 hb]
                  exact fun heq => hnew (heq ▸ ha)
          | emoticonRemove => exact h.filter _
          | _ => exact h

/-- The events of a reaction are all about its message and by its sender. -/
theorem stands_eventsAbout {rows : List Message} {hides : WalletAddress → Bool} :
    Stands (eventsAbout rows hides target) ⟨target, code, who⟩ ↔
      hides who = false ∧ Stands rows ⟨target, code, who⟩ := by
  have hevents : eventsOf (eventsAbout rows hides target) ⟨target, code, who⟩ =
      if hides who then [] else eventsOf rows ⟨target, code, who⟩ := by
    unfold eventsOf eventsAbout
    rw [List.filter_filter]
    by_cases hhides : hides who = true
    · rw [if_pos hhides, List.filter_eq_nil_iff]
      intro r _ hr
      simp only [Bool.and_eq_true, decide_eq_true_eq, Bool.not_eq_true'] at hr
      rw [(reaction?_eq_some hr.1.2).2, hhides] at hr
      exact absurd hr.2.2.2 Bool.noConfusion
    · rw [if_neg hhides]
      refine List.filter_congr fun r _ => ?_
      rw [Bool.not_eq_true] at hhides
      rw [Bool.eq_iff_iff]
      simp only [Bool.and_eq_true, decide_eq_true_eq, Bool.not_eq_true']
      refine ⟨And.left, fun h => ⟨h, h.1, ?_⟩⟩
      rcases reaction?_eq_some h.2 with ⟨htarget, hsender⟩
      exact ⟨htarget, by rw [hsender]; exact hhides⟩
  unfold Stands
  rw [hevents]
  by_cases hhides : hides who = true
  · rw [if_pos hhides]
    simp [hhides]
  · rw [if_neg hhides]
    simp [hhides]

/-! ### The response -/

variable {s : Stream} {hides : WalletAddress → Bool}

/-- The senders of a code in the response. -/
def reactorsOf (g : Gathered) (code : String) : List WalletAddress :=
  ((g.reactors.filter (·.1 = code)).map Prod.snd).insertionSort fun a b => a.str ≤ b.str

theorem mem_response {a : EmoticonAggregation} : a ∈ s.aggregateEmoticons hides target ↔
    a.emoticonCode ∈ (s.gather hides target).order ∧
      reactorsOf (s.gather hides target) a.emoticonCode ≠ [] ∧
      a = ⟨a.emoticonCode, (reactorsOf (s.gather hides target) a.emoticonCode).length,
        reactorsOf (s.gather hides target) a.emoticonCode⟩ := by
  rw [aggregateEmoticons, List.mem_filterMap]
  constructor
  · rintro ⟨c, hc, ha⟩
    dsimp only at ha
    split at ha
    · cases ha
    · next hsome =>
        rw [Option.some.injEq] at ha
        rw [← ha]
        exact ⟨hc, fun h => hsome (List.isEmpty_iff.2 h), rfl⟩
  · rintro ⟨hc, hsome, ha⟩
    refine ⟨a.emoticonCode, hc, ?_⟩
    have hfull : ¬ (reactorsOf (s.gather hides target) a.emoticonCode).isEmpty = true :=
      fun h => hsome (List.isEmpty_iff.1 h)
    exact (if_neg hfull).trans (congrArg some ha.symm)

theorem mem_reactorsOf {g : Gathered} : who ∈ reactorsOf g code ↔ (code, who) ∈ g.reactors := by
  rw [reactorsOf, List.mem_insertionSort, List.mem_map]
  constructor
  · rintro ⟨⟨c, w⟩, hp, rfl⟩
    rw [List.mem_filter, decide_eq_true_eq] at hp
    exact hp.2 ▸ hp.1
  · intro hp
    exact ⟨(code, who), List.mem_filter.2 ⟨hp, decide_eq_true rfl⟩, rfl⟩

theorem nodup_reactorsOf {g : Gathered} (h : g.reactors.Nodup) : (reactorsOf g code).Nodup := by
  rw [reactorsOf, (List.perm_insertionSort _ _).nodup_iff]
  refine List.Nodup.map_on (fun p hp q hq heq => ?_) (h.filter _)
  rw [List.mem_filter, decide_eq_true_eq] at hp hq
  exact Prod.ext (hp.2.trans hq.2.symm) heq

-- The codes of the response are those in the order of which a sender is left.
theorem codes_response : (s.aggregateEmoticons hides target).map EmoticonAggregation.emoticonCode =
    (s.gather hides target).order.filter
      fun c => !(reactorsOf (s.gather hides target) c).isEmpty := by
  rw [aggregateEmoticons, List.map_filterMap, ← List.filterMap_eq_filter]
  refine List.filterMap_congr fun c _ => ?_
  change Option.map _ (if (reactorsOf (s.gather hides target) c).isEmpty = true then none
    else some _) = _
  by_cases hempty : (reactorsOf (s.gather hides target) c).isEmpty = true
  · rw [if_pos hempty, Option.map_none, Option.guard, if_neg (by simp [hempty])]
  · rw [if_neg hempty, Option.map_some, Option.guard, if_pos (by simpa using hempty)]

-- The reactions of a response are by senders of events.
theorem sender_of_stands {rows : List Message} {τ : Reaction} (h : Stands rows τ) :
    ∃ r ∈ rows, r.isReaction = true ∧ r.senderAddress = τ.sender := by
  rcases h with ⟨r, hlast, -⟩
  have hr := List.mem_of_getLast? hlast
  rw [eventsOf, List.mem_filter, Bool.and_eq_true, decide_eq_true_eq] at hr
  exact ⟨r, hr.1, hr.2.1, (reaction?_eq_some hr.2.2).2⟩

/-- Where events are in their order, the last one wins. -/
theorem lastWins (hs : s.WellFormed) (h : InOrder s.rows) : LastWins s hides target := by
  have hgather := gather_eq hs h hides target
  have htarget : ∀ m ∈ eventsAbout s.rows hides target, m.targetMessageId = some target := by
    intro m hm
    rw [eventsAbout, List.mem_filter] at hm
    simp only [Bool.and_eq_true, decide_eq_true_eq] at hm
    exact hm.2.2.1
  have hstands : ∀ code who, (code, who) ∈ (s.gather hides target).reactors ↔
      hides who = false ∧ Stands s.rows ⟨target, code, who⟩ := by
    intro code who
    rw [hgather, stands_replay htarget, stands_eventsAbout]
  have horder : (s.gather hides target).order =
      keepUnseen id [] (addedCodes (eventsAbout s.rows hides target)) := by
    rw [hgather, order_replay, List.nil_append]
  have hnodup : (s.gather hides target).order.Nodup := by
    have hkept : ((keepUnseen id [] (addedCodes (eventsAbout s.rows hides target))).map id).Nodup :=
      (nodup_keepUnseen [] _).1
    rwa [List.map_id, ← horder] at hkept
  refine ⟨fun code who => ?_, ?_, ?_, fun a ha => ?_, fun known hknown a ha => ?_⟩
  · rw [← hstands code who]
    constructor
    · rintro ⟨a, ha, rfl, hwho⟩
      rw [(mem_response.1 ha).2.2] at hwho
      exact mem_reactorsOf.1 hwho
    · intro hp
      have hwho := mem_reactorsOf.2 hp
      have hcode := code_mem_order _ ⟨[], []⟩ (fun p hp => absurd hp List.not_mem_nil)
        (code, who) hp
      refine ⟨⟨code, (reactorsOf (s.gather hides target) code).length,
        reactorsOf (s.gather hides target) code⟩, mem_response.2 ⟨hcode, ?_, rfl⟩, rfl, hwho⟩
      exact List.ne_nil_of_mem hwho
  · rw [codes_response]
    exact hnodup.filter _
  · rw [codes_response, ← horder]
    exact List.filter_sublist
  · rcases mem_response.1 ha with ⟨-, hsome, heq⟩
    rw [heq]
    refine ⟨rfl, nodup_reactorsOf ?_, hsome⟩
    rw [hgather]
    exact nodup_replay _ List.nodup_nil
  · refine List.filter_eq_self.2 fun who hwho => ?_
    rw [(mem_response.1 ha).2.2] at hwho
    rcases sender_of_stands ((hstands _ _).1 (mem_reactorsOf.1 hwho)).2 with
      ⟨r, hr, hevent, hsender⟩
    have hknow := hknown r hr hevent
    rw [hsender] at hknow
    exact hknow

/-- **The last event wins**, after every run of writes that anchor nothing, for every viewer and
    every message. -/
theorem lastWins_run (now : Nat) (hnow : 0 < now) (ms : List Mutation)
    (hms : ∀ m ∈ ms, m.anchors = false) (hides : WalletAddress → Bool) (target : MessageId) :
    LastWins (Run.run apply (create now) ms) hides target := by
  rcases inOrder_run (wellFormed_create hnow) List.Pairwise.nil hms with ⟨hs, h⟩
  exact lastWins hs h

/-- Alice takes back her reaction, and Bob's is deleted after he has made it again. -/
def takenBack : List Mutation :=
  [.createMessage 1 (Sample.note "m" Sample.alice),
    .createEmoticonEvent 2 ⟨"e1"⟩ Sample.alice ⟨"m"⟩ "heart" "h" true,
    .createEmoticonEvent 3 ⟨"e2"⟩ Sample.bob ⟨"m"⟩ "heart" "h" true,
    .createEmoticonEvent 4 ⟨"e3"⟩ Sample.bob ⟨"m"⟩ "heart" "h" false,
    .createEmoticonEvent 5 ⟨"e4"⟩ Sample.alice ⟨"m"⟩ "heart" "h" false,
    .softDeleteMessage 6 ⟨"e3"⟩]

theorem lastWins_takenBack : LastWins (Run.run apply (create 1) takenBack)
    (fun _ => false) ⟨"m"⟩ :=
  lastWins_run 1 (by decide) takenBack (by decide) (fun _ => false) ⟨"m"⟩

end Stream

end PocketSkynet
