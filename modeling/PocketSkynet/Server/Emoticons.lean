import Mathlib.Data.List.Induction
import PocketSkynet.Server.StreamOrder

/-!
# Reactions as the Server Shows Them

`aggregateEmoticons` replays the events about one message. What it ends up with
depends only on the last event of each reaction: somebody is listed under a
code exactly if the last event of that target, code and sender adds it.

## Main definitions

* `Reacts`: The last event of a reaction adds it.

## Theorems

* `mem_reactors_replay`: What one event does to one reaction.
* `mem_gather`: The replay gathers the reactions whose last event adds them.
* `mem_aggregateEmoticons`: And the response lists the same.
-/

namespace PocketSkynet

/-- The last event of the reaction adds it. -/
def Reacts (rows : List Message) (τ : Reaction) : Prop :=
  ∃ r ∈ rows, r.kind = .emoticonAdd ∧ r.reaction? = some τ ∧
    ∀ r' ∈ rows, r'.isReaction = true → r'.reaction? = some τ → r'.msgSerial ≤ r.msgSerial

theorem isReaction_of_add {m : Message} (h : m.kind = .emoticonAdd) : m.isReaction = true := by
  simp [Message.isReaction, h]

namespace Stream

variable {target : MessageId} {code : String} {who : WalletAddress}

/-- What replaying one event about the message does to one reaction. -/
theorem mem_reactors_replay (g : Gathered) (m : Message) (hm : m.targetMessageId = some target) :
    (code, who) ∈ (g.replay m).reactors ↔
      if m.isReaction = true ∧ m.reaction? = some ⟨target, code, who⟩ then m.kind = .emoticonAdd
      else (code, who) ∈ g.reactors := by
  unfold Gathered.replay
  cases hc : m.emoticonCode with
  | none => simp [Message.reaction?, hm, hc]
  | some c =>
      have hτ : m.reaction? = some ⟨target, code, who⟩ ↔ (code, who) = (c, m.senderAddress) := by
        simp only [Message.reaction?, hm, hc, Option.some.injEq, Reaction.mk.injEq, true_and,
          Prod.mk.injEq, eq_comm]
      simp only [hτ]
      cases hk : m.kind with
      | emoticonAdd =>
          have hgot : (code, who) ∈ (if (c, m.senderAddress) ∈ g.reactors then g.reactors
              else g.reactors ++ [(c, m.senderAddress)]) ↔
                (code, who) ∈ g.reactors ∨ (code, who) = (c, m.senderAddress) := by
            split
            next hin =>
              refine ⟨Or.inl, ?_⟩
              rintro (h | h)
              · exact h
              · exact h ▸ hin
            next => simp
          simp only [hgot, Message.isReaction, hk]
          by_cases h : (code, who) = (c, m.senderAddress) <;> simp [h]
      | emoticonRemove =>
          simp only [List.mem_filter, Message.isReaction, hk]
          by_cases h : (code, who) = (c, m.senderAddress) <;> simp [h]
      | add => simp [Message.isReaction, hk]
      | edit => simp [Message.isReaction, hk]
      | delete => simp [Message.isReaction, hk]
      | deleteAll => simp [Message.isReaction, hk]
      | unknown => simp [Message.isReaction, hk]

/-- One more event, later than all others, settles its own reaction. -/
theorem reacts_append {rows : List Message} {e : Message} {τ : Reaction}
    (hlast : ∀ r ∈ rows, r.msgSerial < e.msgSerial) :
    Reacts (rows ++ [e]) τ ↔
      if e.isReaction = true ∧ e.reaction? = some τ then e.kind = .emoticonAdd
      else Reacts rows τ := by
  by_cases he : e.isReaction = true ∧ e.reaction? = some τ
  · rw [if_pos he]
    constructor
    · rintro ⟨r, hr, hadd, hrτ, hmax⟩
      have hge := hmax e (by simp) he.1 he.2
      rcases List.mem_append.1 hr with hr | hr
      · have hlt := hlast r hr
        omega
      · rwa [← List.mem_singleton.1 hr]
    · intro hadd
      refine ⟨e, by simp, hadd, he.2, fun r hr _ _ => ?_⟩
      rcases List.mem_append.1 hr with hr | hr
      · exact le_of_lt (hlast r hr)
      · rw [List.mem_singleton.1 hr]
  · rw [if_neg he]
    constructor
    · rintro ⟨r, hr, hadd, hrτ, hmax⟩
      rcases List.mem_append.1 hr with hr | hr
      · exact ⟨r, hr, hadd, hrτ, fun r' hr' => hmax r' (List.mem_append_left _ hr')⟩
      · rw [List.mem_singleton.1 hr] at hadd hrτ
        exact absurd ⟨isReaction_of_add hadd, hrτ⟩ he
    · rintro ⟨r, hr, hadd, hrτ, hmax⟩
      refine ⟨r, List.mem_append_left _ hr, hadd, hrτ, fun r' hr' hk' hτ' => ?_⟩
      rcases List.mem_append.1 hr' with hr' | hr'
      · exact hmax r' hr' hk' hτ'
      · rw [List.mem_singleton.1 hr'] at hk' hτ'
        exact absurd ⟨hk', hτ'⟩ he

/-- Replaying sorted events about one message gathers the reactions that stand. -/
theorem mem_replayed (es : List Message) (htarget : ∀ m ∈ es, m.targetMessageId = some target)
    (hsorted : es.Pairwise fun a b => a.msgSerial < b.msgSerial) :
    (code, who) ∈ (es.foldl Gathered.replay ⟨[], []⟩).reactors ↔ Reacts es ⟨target, code, who⟩ := by
  induction es using List.reverseRecOn with
  | nil => simp [Reacts]
  | append_singleton es e ih =>
      obtain ⟨hes, -, hlast⟩ := List.pairwise_append.1 hsorted
      rw [List.foldl_append, List.foldl_cons, List.foldl_nil,
        mem_reactors_replay _ e (htarget e (by simp)),
        reacts_append fun r hr => hlast r hr e (by simp),
        ih (fun m hm => htarget m (List.mem_append_left _ hm)) hes]

-- The event of a reaction is about its target and by its sender.
theorem reaction?_eq_some {m : Message} {τ : Reaction} (h : m.reaction? = some τ) :
    m.targetMessageId = some τ.target ∧ m.senderAddress = τ.sender := by
  unfold Message.reaction? at h
  split at h
  next ht _ =>
    cases h
    exact ⟨ht, rfl⟩
  next => cases h

/-- **The replay agrees with the last events**, for somebody whom the viewer does not hide. -/
theorem mem_gather {s : Stream} (hs : s.WellFormed) {hides : WalletAddress → Bool}
    (hwho : hides who = false) :
    (code, who) ∈ (s.gather hides target).reactors ↔ Reacts s.rows ⟨target, code, who⟩ := by
  unfold gather
  have hmem : ∀ m, m ∈ bySerial (s.rows.filter fun m =>
      decide (m.targetMessageId = some target) && !hides m.senderAddress) ↔
        m ∈ s.rows ∧ m.targetMessageId = some target ∧ hides m.senderAddress = false := by
    intro m
    rw [mem_bySerial, List.mem_filter]
    simp
  -- The events of the reaction are all among those that are replayed.
  have hevent : ∀ {r : Message}, r ∈ s.rows → r.reaction? = some ⟨target, code, who⟩ →
      r ∈ bySerial (s.rows.filter fun m =>
        decide (m.targetMessageId = some target) && !hides m.senderAddress) := by
    intro r hr hrτ
    rcases reaction?_eq_some hrτ with ⟨htarget, hsender⟩
    exact (hmem r).2 ⟨hr, htarget, by rw [hsender]; exact hwho⟩
  rw [mem_replayed _ fun m hm => ((hmem m).1 hm).2.1]
  · constructor
    · rintro ⟨r, hr, hadd, hrτ, hmax⟩
      exact ⟨r, ((hmem r).1 hr).1, hadd, hrτ, fun r' hr' hk' hτ' =>
        hmax r' (hevent hr' hτ') hk' hτ'⟩
    · rintro ⟨r, hr, hadd, hrτ, hmax⟩
      exact ⟨r, hevent hr hrτ, hadd, hrτ, fun r' hr' hk' hτ' =>
        hmax r' ((hmem r').1 hr').1 hk' hτ'⟩
  · exact bySerial_sorted (hs.serials.sublist (List.filter_sublist.map _))

/-- Every code somebody reacts with has its place in the order. -/
theorem code_mem_order (es : List Message) (g : Gathered)
    (h : ∀ p ∈ g.reactors, p.1 ∈ g.order) :
    ∀ p ∈ (es.foldl Gathered.replay g).reactors, p.1 ∈ (es.foldl Gathered.replay g).order := by
  induction es generalizing g with
  | nil => exact h
  | cons e es ih =>
      refine ih (g.replay e) ?_
      intro p hp
      unfold Gathered.replay at hp ⊢
      cases hc : e.emoticonCode with
      | none =>
          rw [hc] at hp
          exact h p hp
      | some c =>
          rw [hc] at hp
          cases hk : e.kind <;> rw [hk] at hp <;> simp only at hp ⊢
          case emoticonAdd =>
            have hin : p ∈ g.reactors ∨ p = (c, e.senderAddress) := by
              split at hp
              next => exact Or.inl hp
              next => simpa using hp
            rcases hin with hin | rfl
            · split
              next => exact h p hin
              next => exact List.mem_append_left _ (h p hin)
            · split
              next hc' => exact hc'
              next => simp
          case emoticonRemove => exact h p (List.mem_of_mem_filter hp)
          all_goals exact h p hp

/-- The response lists somebody under a code exactly if the reaction stands. -/
theorem mem_aggregateEmoticons {s : Stream} (hs : s.WellFormed) {hides : WalletAddress → Bool}
    (hwho : hides who = false) :
    (∃ a ∈ s.aggregateEmoticons hides target,
        a.emoticonCode = code ∧ who ∈ a.reactors) ↔ Reacts s.rows ⟨target, code, who⟩ := by
  rw [← mem_gather hs hwho, aggregateEmoticons]
  have hmem : ∀ c, who ∈ (((s.gather hides target).reactors.filter (·.1 = c)).map
      Prod.snd).insertionSort (fun a b => a.str ≤ b.str) ↔
        (c, who) ∈ (s.gather hides target).reactors := by
    intro c
    rw [List.mem_insertionSort, List.mem_map]
    constructor
    · rintro ⟨⟨c', w⟩, hp, rfl⟩
      simp only [List.mem_filter, decide_eq_true_eq] at hp
      obtain ⟨hp, rfl⟩ := hp
      exact hp
    · intro hp
      exact ⟨(c, who), by simpa using hp, rfl⟩
  constructor
  · rintro ⟨a, ha, rfl, hwho⟩
    obtain ⟨c, -, hc⟩ := List.mem_filterMap.1 ha
    dsimp only at hc
    split at hc
    next => cases hc
    next =>
      cases hc
      exact (hmem c).1 hwho
  · intro hp
    have horder := code_mem_order _ ⟨[], []⟩ (by simp) (code, who) hp
    have hwho := (hmem code).2 hp
    have hne := mt List.isEmpty_iff.1 (List.ne_nil_of_mem hwho)
    exact ⟨_, List.mem_filterMap.2 ⟨code, horder, if_neg hne⟩, rfl, hwho⟩

end Stream

end PocketSkynet
