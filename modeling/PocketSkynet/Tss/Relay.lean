import PocketSkynet.Lib.Run

/-!
# The Relay of a Ceremony

All parties of a key ceremony live in one process and talk through a relay. A party asks
for a message id and receives the payload once some party has published it. A text that is
a header and nothing else is an ask, a longer one is a publication under the id in its
header.

The relay keeps one slot for each id, which holds the payload or the parties that wait for
it, and one queue for each party, with the waker the party has left behind if it found the
queue empty. Whoever puts something into a queue takes the waker and wakes it.

The history says what has happened, newest event first. What a party is owed is read off
the history alone: an ask brings one copy of what was published first under its id, at once
if that has been published and with the publication if not. `LocalCoordinator.delivers`
compares the relay with that.

## Main definitions

* `Slot`, `PartyQueue`, `Shared`: What the relay keeps.
* `Shared.startSend`, `Shared.pollNext`: What a party does with it.
* `LocalCoordinator`, `LocalCoordinator.step`: The relay with its history.
* `copies`: The copies of one id that a party is owed.
* `available`: What a party is owed, in the order in which it came to be.
* `parked`: The waker of a party that was told to wait and has not been woken.
* `Delivers`: The relay has delivered what it owes, and nobody sleeps on a full queue.

## Theorems

* `filter_available`: The copies of one id among what a party is owed.
* `inv_step`: Every step keeps the slots and the queues in line with the history.
* `LocalCoordinator.delivers`: The relay delivers in every run.
-/

namespace PocketSkynet

namespace Relay

/-- One message id's state: published, or a list of parties waiting for it. -/
inductive Slot where
  | ready (payload : List UInt8)
  | waiters (parties : List Nat)
deriving DecidableEq, Repr

/-- What has come for a party, and the waker it has left behind. -/
structure PartyQueue (ω : Type) where
  queue : List (List UInt8)
  waker : Option ω

/-- What all parties of one ceremony share. -/
structure Shared (μ ω : Type) where
  messages : μ → Option Slot
  queues : List (PartyQueue ω)

/-- The format of the messages: how long a header is, and the id in it. -/
structure Wire (μ : Type) where
  headerSize : Nat
  id : List UInt8 → Option μ

namespace Shared

variable {μ ω : Type}

def empty : Shared μ ω := ⟨fun _ => none, []⟩

/-- One party's connection. Its number is the number of those before it. -/
def connect (s : Shared μ ω) : Shared μ ω := { s with queues := s.queues ++ [⟨[], none⟩] }

/-- What waits for a party to receive it. -/
def queue (s : Shared μ ω) (party : Nat) : List (List UInt8) :=
  match s.queues[party]? with
  | some q => q.queue
  | none => []

/-- The waker a party has left behind. -/
def waker (s : Shared μ ω) (party : Nat) : Option ω := s.queues[party]?.bind PartyQueue.waker

/-- Put a payload into the queue of a party. Its waker is taken, and is to be woken. -/
def deliver (s : Shared μ ω) (m : List UInt8) (party : Nat) : Shared μ ω × List ω :=
  match s.queues[party]? with
  | some q => ({ s with queues := s.queues.set party ⟨q.queue ++ [m], none⟩ }, q.waker.toList)
  | none => (s, [])

/-- The same for a list of parties, one after the other. -/
def deliverAll (s : Shared μ ω) (m : List UInt8) : List Nat → Shared μ ω × List ω
  | [] => (s, [])
  | party :: parties =>
      let first := s.deliver m party
      let rest := first.1.deliverAll m parties
      (rest.1, first.2 ++ rest.2)

/-- A party takes what is next in its queue, or leaves its waker behind. -/
def pollNext (s : Shared μ ω) (party : Nat) (w : ω) : Shared μ ω × Option (List UInt8) :=
  match s.queues[party]? with
  | some ⟨m :: rest, waker⟩ => ({ s with queues := s.queues.set party ⟨rest, waker⟩ }, some m)
  | some ⟨[], _⟩ => ({ s with queues := s.queues.set party ⟨[], some w⟩ }, none)
  | none => (s, none)

variable [DecidableEq μ]

def setSlot (s : Shared μ ω) (id : μ) (slot : Slot) : Shared μ ω :=
  { s with messages := Function.update s.messages id (some slot) }

/-- An ask is answered at once if the id has been published, else it waits. -/
def ask (s : Shared μ ω) (party : Nat) (id : μ) : Shared μ ω × List ω :=
  match s.messages id with
  | some (.ready m) => s.deliver m party
  | some (.waiters parties) => (s.setSlot id (.waiters (parties ++ [party])), [])
  | none => (s.setSlot id (.waiters [party]), [])

/-- A publication goes to everyone already asking. A second one is ignored. -/
def publish (s : Shared μ ω) (id : μ) (m : List UInt8) : Shared μ ω × List ω :=
  match s.messages id with
  | some (.ready _) => (s, [])
  | some (.waiters parties) => (s.setSlot id (.ready m)).deliverAll m parties
  | none => (s.setSlot id (.ready m), [])

/-- What a party sends is an ask or a publication. Without a header it is an error. -/
def startSend (wire : Wire μ) (s : Shared μ ω) (party : Nat) (item : List UInt8) :
    Option (Shared μ ω × List ω) :=
  (wire.id item).map fun id =>
    if item.length = wire.headerSize then s.ask party id else s.publish id item

end Shared

/-! ### The history -/

/-- What can happen at a relay. -/
inductive Event (μ ω : Type) where
  | connected
  | refused (party : Nat)
  | asked (party : Nat) (id : μ)
  | published (id : μ) (payload : List UInt8)
  | woke (w : ω)
  | received (party : Nat) (payload : List UInt8)
  | pending (party : Nat) (w : ω)
deriving DecidableEq, Repr

section History

variable {μ ω : Type}

/-- What a party has received, in that order. -/
def received (party : Nat) : List (Event μ ω) → List (List UInt8)
  | [] => []
  | .received p m :: h => received party h ++ if p = party then [m] else []
  | _ :: h => received party h

/-- The waker of a party whose last poll was pending, if nobody has woken it since. -/
def parked [DecidableEq ω] (party : Nat) : List (Event μ ω) → Option ω
  | [] => none
  | .pending p w :: h => if p = party then some w else parked party h
  | .received p _ :: h => if p = party then none else parked party h
  | .woke w :: h => if parked party h = some w then none else parked party h
  | _ :: h => parked party h

variable [DecidableEq μ]

/-- What was published first under an id. -/
def firstPublished (id : μ) : List (Event μ ω) → Option (List UInt8)
  | [] => none
  | .published id' m :: h =>
      match firstPublished id h with
      | some first => some first
      | none => if id' = id then some m else none
  | _ :: h => firstPublished id h

/-- How often a party has asked for an id. -/
def asks (party : Nat) (id : μ) : List (Event μ ω) → Nat
  | [] => 0
  | .asked p id' :: h => asks party id h + if p = party ∧ id' = id then 1 else 0
  | _ :: h => asks party id h

/-- One copy of what was published first under an id for each ask of a party. -/
def copies (party : Nat) (id : μ) (h : List (Event μ ω)) : List (List UInt8) :=
  match firstPublished id h with
  | some m => List.replicate (asks party id h) m
  | none => []

/-- What has come to be there for a party, in that order. An ask for what has been
    published brings one copy of the first payload, and a first publication brings one for
    every ask before it. -/
def available (party : Nat) : List (Event μ ω) → List (List UInt8)
  | [] => []
  | .asked p id :: h =>
      available party h ++ if p = party then (firstPublished id h).toList else []
  | .published id m :: h =>
      available party h ++
        if firstPublished id h = none then List.replicate (asks party id h) m else []
  | _ :: h => available party h

end History

/-! ### Runs -/

/-- What the parties do: connect, send a text, or poll with a waker. -/
inductive Act (ω : Type) where
  | connect
  | send (party : Nat) (item : List UInt8)
  | poll (party : Nat) (w : ω)
deriving DecidableEq, Repr

/-- The relay all parties of one ceremony connect to, and what has happened at it. -/
structure LocalCoordinator (μ ω : Type) where
  shared : Shared μ ω
  history : List (Event μ ω)

namespace LocalCoordinator

variable {μ ω : Type}

def start : LocalCoordinator μ ω := ⟨Shared.empty, []⟩

/-- What a text is for the history. -/
def sent (wire : Wire μ) (party : Nat) (item : List UInt8) : Event μ ω :=
  match wire.id item with
  | some id => if item.length = wire.headerSize then .asked party id else .published id item
  | none => .refused party

variable [DecidableEq μ]

/-- One act of a party. Only a party that has connected can send or poll. -/
def step (wire : Wire μ) (c : LocalCoordinator μ ω) : Act ω → LocalCoordinator μ ω
  | .connect => ⟨c.shared.connect, .connected :: c.history⟩
  | .send party item =>
      if party < c.shared.queues.length then
        match c.shared.startSend wire party item with
        | some (shared, woken) =>
            ⟨shared, woken.reverse.map .woke ++ sent wire party item :: c.history⟩
        | none => ⟨c.shared, sent wire party item :: c.history⟩
      else c
  | .poll party w =>
      if party < c.shared.queues.length then
        match c.shared.pollNext party w with
        | (shared, some m) => ⟨shared, .received party m :: c.history⟩
        | (shared, none) => ⟨shared, .pending party w :: c.history⟩
      else c

end LocalCoordinator

/-! ### What one operation does -/

section Operations

variable {μ ω : Type} {s : Shared μ ω}

@[simp] theorem queue_empty (p : Nat) : (Shared.empty : Shared μ ω).queue p = [] := rfl

@[simp] theorem waker_empty (p : Nat) : (Shared.empty : Shared μ ω).waker p = none := rfl

-- A new connection has an empty queue and no waker, like a number nobody has.
theorem find_connect (p : Nat) : s.connect.queues[p]? = s.queues[p]? ∨
    (s.queues[p]? = none ∧ s.connect.queues[p]? = some ⟨[], none⟩) := by
  unfold Shared.connect
  by_cases hp : p < s.queues.length
  · exact Or.inl (List.getElem?_append_left hp)
  · rw [List.getElem?_append_right (by omega), List.getElem?_eq_none (by omega : _ ≤ p)]
    by_cases hlast : p - s.queues.length = 0
    · rw [hlast]
      exact Or.inr ⟨rfl, rfl⟩
    · exact Or.inl (List.getElem?_eq_none (by simp only [List.length_singleton]; omega))

theorem queue_connect (p : Nat) : s.connect.queue p = s.queue p := by
  unfold Shared.queue
  rcases find_connect (s := s) p with h | ⟨hnone, h⟩
  · rw [h]
  · rw [h, hnone]

theorem waker_connect (p : Nat) : s.connect.waker p = s.waker p := by
  unfold Shared.waker
  rcases find_connect (s := s) p with h | ⟨hnone, h⟩
  · rw [h]
  · rw [h, hnone]
    rfl

@[simp] theorem queues_deliver (m : List UInt8) (p : Nat) :
    (s.deliver m p).1.queues.length = s.queues.length := by
  unfold Shared.deliver
  split
  · exact List.length_set
  · rfl

@[simp] theorem messages_deliver (m : List UInt8) (p : Nat) :
    (s.deliver m p).1.messages = s.messages := by
  unfold Shared.deliver
  split <;> rfl

-- The queue that gets the payload, and all others.
theorem queue_deliver {p : Nat} (hp : p < s.queues.length) (m : List UInt8) (r : Nat) :
    (s.deliver m p).1.queue r = s.queue r ++ if p = r then [m] else [] := by
  have hget : s.queues[p]? = some s.queues[p] := List.getElem?_eq_getElem hp
  simp only [Shared.deliver, Shared.queue, hget]
  by_cases hr : p = r
  · subst hr
    rw [List.getElem?_set_self hp, hget, if_pos rfl]
  · rw [List.getElem?_set_ne hr, if_neg hr, List.append_nil]

theorem waker_deliver {p : Nat} (hp : p < s.queues.length) (m : List UInt8) (r : Nat) :
    (s.deliver m p).1.waker r = if p = r then none else s.waker r := by
  have hget : s.queues[p]? = some s.queues[p] := List.getElem?_eq_getElem hp
  simp only [Shared.deliver, Shared.waker, hget]
  by_cases hr : p = r
  · subst hr
    rw [List.getElem?_set_self hp, if_pos rfl]
    rfl
  · rw [List.getElem?_set_ne hr, if_neg hr]

theorem woken_deliver {p : Nat} (m : List UInt8) : (s.deliver m p).2 = (s.waker p).toList := by
  unfold Shared.deliver Shared.waker
  split
  · rename_i q hget
    rw [hget]
    rfl
  · rename_i hget
    rw [hget]
    rfl

@[simp] theorem queues_deliverAll (m : List UInt8) (ps : List Nat) :
    (s.deliverAll m ps).1.queues.length = s.queues.length := by
  induction ps generalizing s with
  | nil => rfl
  | cons p ps ih => exact ih.trans (queues_deliver m p)

@[simp] theorem messages_deliverAll (m : List UInt8) (ps : List Nat) :
    (s.deliverAll m ps).1.messages = s.messages := by
  induction ps generalizing s with
  | nil => rfl
  | cons p ps ih => exact ih.trans (messages_deliver m p)

/-- Everyone who waits gets one copy for each time it waits. -/
theorem queue_deliverAll {m : List UInt8} {ps : List Nat} (hps : ∀ p ∈ ps, p < s.queues.length)
    (r : Nat) :
    (s.deliverAll m ps).1.queue r = s.queue r ++ List.replicate (ps.count r) m := by
  induction ps generalizing s with
  | nil => simp [Shared.deliverAll]
  | cons p ps ih =>
      have hp := hps p List.mem_cons_self
      have hrest : ∀ q ∈ ps, q < (s.deliver m p).1.queues.length := by
        intro q hq
        rw [queues_deliver]
        exact hps q (List.mem_cons_of_mem p hq)
      rw [Shared.deliverAll, ih hrest, queue_deliver hp, List.append_assoc]
      by_cases hr : p = r
      · rw [hr, if_pos rfl, List.count_cons_self, List.replicate_succ, List.singleton_append]
      · rw [if_neg hr, List.count_cons_of_ne hr, List.nil_append]

/-- Whoever has got something has no waker left, and the one it had is to be woken. -/
theorem waker_deliverAll {m : List UInt8} {ps : List Nat} (hps : ∀ p ∈ ps, p < s.queues.length)
    (r : Nat) :
    (s.deliverAll m ps).1.waker r = (if r ∈ ps then none else s.waker r) ∧
      ∀ w, r ∈ ps → s.waker r = some w → w ∈ (s.deliverAll m ps).2 := by
  induction ps generalizing s with
  | nil => exact ⟨rfl, fun _ hr => absurd hr List.not_mem_nil⟩
  | cons p ps ih =>
      have hp := hps p List.mem_cons_self
      have hrest : ∀ q ∈ ps, q < (s.deliver m p).1.queues.length := by
        intro q hq
        rw [queues_deliver]
        exact hps q (List.mem_cons_of_mem p hq)
      have hlater := ih hrest
      have hfirst := waker_deliver (s := s) hp m r
      rw [hfirst] at hlater
      refine ⟨?_, fun w hr hw => ?_⟩
      · rw [Shared.deliverAll]
        refine hlater.1.trans ?_
        by_cases hmem : r ∈ ps
        · rw [if_pos hmem, if_pos (List.mem_cons_of_mem p hmem)]
        · by_cases hpr : p = r
          · rw [if_neg hmem, if_pos hpr, if_pos (by rw [hpr]; exact List.mem_cons_self)]
          · have hne : r ∉ p :: ps := fun h =>
              (List.mem_cons.1 h).elim (fun h => hpr h.symm) hmem
            rw [if_neg hmem, if_neg hpr, if_neg hne]
      · rw [Shared.deliverAll]
        -- It is woken by the first delivery, or it has kept its waker until a later one.
        by_cases hpr : p = r
        · refine List.mem_append_left _ ?_
          rw [woken_deliver, hpr, hw]
          exact List.mem_singleton_self w
        · refine List.mem_append_right _ (hlater.2 w ?_ (by rw [if_neg hpr, hw]))
          exact (List.mem_cons.1 hr).resolve_left fun h => hpr h.symm

-- A delivery to one party is one to a list of one.
theorem deliverAll_singleton (m : List UInt8) (p : Nat) :
    s.deliverAll m [p] = s.deliver m p := by
  simp [Shared.deliverAll]

theorem queue_pollNext {p : Nat} (hp : p < s.queues.length) (w : ω) :
    (s.pollNext p w).2.toList ++ (s.pollNext p w).1.queue p = s.queue p := by
  have hget : s.queues[p]? = some s.queues[p] := List.getElem?_eq_getElem hp
  unfold Shared.pollNext Shared.queue
  rw [hget]
  cases hq : s.queues[p] with
  | mk queue waker =>
      cases queue with
      | nil => simp [hp]
      | cons m rest => simp [hp]

theorem others_pollNext {p r : Nat} (hr : p ≠ r) (w : ω) :
    (s.pollNext p w).1.queues[r]? = s.queues[r]? := by
  unfold Shared.pollNext
  split
  · exact List.getElem?_set_ne hr
  · exact List.getElem?_set_ne hr
  · rfl

-- Who finds its queue empty leaves its waker.
theorem pending_pollNext {p : Nat} (hp : p < s.queues.length) (w : ω)
    (hnone : (s.pollNext p w).2 = none) :
    (s.pollNext p w).1.queue p = [] ∧ (s.pollNext p w).1.waker p = some w := by
  have hget : s.queues[p]? = some s.queues[p] := List.getElem?_eq_getElem hp
  unfold Shared.pollNext at hnone ⊢
  rw [hget] at hnone ⊢
  cases hq : s.queues[p] with
  | mk queue waker =>
      cases queue with
      | nil => simp [Shared.queue, Shared.waker, hp]
      | cons m rest => simp [hq] at hnone

@[simp] theorem queues_pollNext (p : Nat) (w : ω) :
    (s.pollNext p w).1.queues.length = s.queues.length := by
  unfold Shared.pollNext
  split <;> simp

@[simp] theorem messages_pollNext (p : Nat) (w : ω) :
    (s.pollNext p w).1.messages = s.messages := by
  unfold Shared.pollNext
  split <;> rfl

end Operations

/-! ### The relay keeps up with its history -/

section Invariant

variable {μ ω : Type} {h : List (Event μ ω)}

@[simp] theorem received_woke (p : Nat) (ws : List ω) :
    received p (ws.map .woke ++ h) = received p h := by
  induction ws with
  | nil => rfl
  | cons w ws ih => exact ih

-- Waking parks nobody, and it does not leave anybody parked whose waker it is.
theorem parked_woke [DecidableEq ω] {p : Nat} {ws : List ω} {w : ω}
    (hp : parked p (ws.map .woke ++ h) = some w) : parked p h = some w ∧ w ∉ ws := by
  induction ws with
  | nil => exact ⟨hp, List.not_mem_nil⟩
  | cons v ws ih =>
      simp only [List.map_cons, List.cons_append, parked] at hp
      by_cases hv : parked p (ws.map .woke ++ h) = some v
      · rw [if_pos hv] at hp
        cases hp
      · rw [if_neg hv] at hp
        refine ⟨(ih hp).1, fun hmem => ?_⟩
        rcases List.mem_cons.1 hmem with rfl | hmem
        · exact hv hp
        · exact (ih hp).2 hmem

variable [DecidableEq μ]

@[simp] theorem firstPublished_woke (id : μ) (ws : List ω) :
    firstPublished id (ws.map .woke ++ h) = firstPublished id h := by
  induction ws with
  | nil => rfl
  | cons w ws ih => exact ih

@[simp] theorem asks_woke (p : Nat) (id : μ) (ws : List ω) :
    asks p id (ws.map .woke ++ h) = asks p id h := by
  induction ws with
  | nil => rfl
  | cons w ws ih => exact ih

@[simp] theorem available_woke (p : Nat) (ws : List ω) :
    available p (ws.map .woke ++ h) = available p h := by
  induction ws with
  | nil => rfl
  | cons w ws ih => exact ih

/-- What a slot says of its id is what the history says. -/
def SlotFits (h : List (Event μ ω)) (parties : Nat) (id : μ) : Option Slot → Prop
  | some (.ready m) => firstPublished id h = some m
  | some (.waiters ps) =>
      firstPublished id h = none ∧ (∀ p, ps.count p = asks p id h) ∧ ∀ p ∈ ps, p < parties
  | none => firstPublished id h = none ∧ ∀ p, asks p id h = 0

variable {wire : Wire μ}

-- What was published first under an id has that id.
theorem id_of_firstPublished (hnamed : ∀ id m, .published id m ∈ h → wire.id m = some id) {id : μ}
    {m : List UInt8} (hm : firstPublished id h = some m) : wire.id m = some id := by
  induction h with
  | nil => cases hm
  | cons e h ih =>
      have hrest := ih fun id m hmem => hnamed id m (List.mem_cons_of_mem e hmem)
      cases e with
      | published id' m' =>
          rw [firstPublished] at hm
          cases hfirst : firstPublished id h with
          | some first =>
              rw [hfirst] at hm
              exact hrest (hfirst.trans hm)
          | none =>
              simp only [hfirst, Option.ite_none_right_eq_some] at hm
              rcases hm with ⟨rfl, hm⟩
              cases hm
              exact hnamed _ _ List.mem_cons_self
      | connected => exact hrest hm
      | refused => exact hrest hm
      | asked => exact hrest hm
      | woke => exact hrest hm
      | received => exact hrest hm
      | pending => exact hrest hm

/-- Among what a party is owed there is one copy of an id's payload for each of its asks. -/
theorem filter_available (hnamed : ∀ id m, .published id m ∈ h → wire.id m = some id) (p : Nat)
    (id : μ) : (available p h).filter (fun m => wire.id m = some id) = copies p id h := by
  induction h with
  | nil => rfl
  | cons e h ih =>
      have hbefore : ∀ id m, .published id m ∈ h → wire.id m = some id :=
        fun id m hmem => hnamed id m (List.mem_cons_of_mem e hmem)
      have hrest := ih hbefore
      cases e with
      | connected => exact hrest
      | refused => exact hrest
      | woke => exact hrest
      | received => exact hrest
      | pending => exact hrest
      | asked p' id' =>
          rw [available, List.filter_append, hrest]
          by_cases hp : p' = p
          · rw [if_pos hp]
            by_cases hid : id' = id
            · subst hid
              cases hfirst : firstPublished id' h with
              | none => simp [copies, firstPublished, hfirst]
              | some m =>
                  have hm := id_of_firstPublished hbefore hfirst
                  simp [copies, firstPublished, asks, hfirst, hp, hm, List.replicate_succ']
            · -- What it asks for comes under another id.
              have hnone : ((firstPublished id' h).toList).filter (fun m => wire.id m = some id) =
                  [] := by
                cases hfirst : firstPublished id' h with
                | none => rfl
                | some m => simp [id_of_firstPublished hbefore hfirst, hid]
              rw [hnone]
              simp [copies, firstPublished, asks, hid]
          · simp [copies, firstPublished, asks, hp]
      | published id' m =>
          have hm := hnamed id' m List.mem_cons_self
          rw [available, List.filter_append, hrest]
          by_cases hid : id' = id
          · subst hid
            cases hfirst : firstPublished id' h with
            | none => simp [copies, firstPublished, asks, hfirst, hm]
            | some first => simp [copies, firstPublished, asks, hfirst]
          · have hnone : (if firstPublished id' h = none then List.replicate (asks p id' h) m
                else []).filter (fun m => wire.id m = some id) = [] := by
              split
              · simp [hm, hid]
              · rfl
            rw [hnone, List.append_nil]
            cases hfirst : firstPublished id h with
            | none => simp [copies, firstPublished, hfirst, hid]
            | some first => simp [copies, firstPublished, asks, hfirst]

-- A slot that still fits when nothing is said of its id.
theorem slotFits_mono {n n' : Nat} (hn : n ≤ n') {id : μ} {slot : Option Slot}
    {h' : List (Event μ ω)}
    (hfirst : firstPublished id h' = firstPublished id h) (hasks : ∀ p, asks p id h' = asks p id h)
    (hs : SlotFits h n id slot) : SlotFits h' n' id slot := by
  cases slot with
  | none => exact ⟨hfirst.trans hs.1, fun p => (hasks p).trans (hs.2 p)⟩
  | some slot =>
      cases slot with
      | ready m => exact hfirst.trans hs
      | waiters ps =>
          refine ⟨hfirst.trans hs.1, fun p => (hs.2.1 p).trans (hasks p).symm, fun p hp => ?_⟩
          exact Nat.lt_of_lt_of_le (hs.2.2 p hp) hn

variable [DecidableEq ω]

/-- The queues hold what has not been received of what is there, and who is parked has an
    empty queue and its waker in it. -/
structure Kept (s : Shared μ ω) (h : List (Event μ ω)) : Prop where
  delivered : ∀ p, received p h ++ s.queue p = available p h
  asleep : ∀ p w, parked p h = some w → s.queue p = [] ∧ s.waker p = some w

/-- The relay keeps up with its history. -/
structure Inv (wire : Wire μ) (c : LocalCoordinator μ ω) : Prop where
  slots : ∀ id, SlotFits c.history c.shared.queues.length id (c.shared.messages id)
  kept : Kept c.shared c.history
  named : ∀ id m, .published id m ∈ c.history → wire.id m = some id

/-- An event that makes a payload available goes with its delivery. -/
theorem kept_deliverAll {s : Shared μ ω} (hk : Kept s h) (s' : Shared μ ω) {m : List UInt8}
    {ps : List Nat} (hps : ∀ p ∈ ps, p < s.queues.length) (hqueues : s'.queues = s.queues)
    {e : Event μ ω}
    (havailable : ∀ p, available p (e :: h) = available p h ++ List.replicate (ps.count p) m)
    (hreceived : ∀ p, received p (e :: h) = received p h)
    (hparked : ∀ p, parked p (e :: h) = parked p h) :
    Kept (s'.deliverAll m ps).1 ((s'.deliverAll m ps).2.reverse.map .woke ++ e :: h) := by
  have hqueue : ∀ p, s'.queue p = s.queue p := fun p => by rw [Shared.queue, hqueues, Shared.queue]
  have hwaker : ∀ p, s'.waker p = s.waker p := fun p => by rw [Shared.waker, hqueues, Shared.waker]
  rw [← hqueues] at hps
  refine ⟨fun p => ?_, fun p w hp => ?_⟩
  · rw [received_woke, available_woke, hreceived, havailable, queue_deliverAll hps, hqueue,
      ← List.append_assoc, hk.delivered]
  · rcases parked_woke hp with ⟨hbefore, hnot⟩
    rw [hparked] at hbefore
    have hasleep := hk.asleep p w hbefore
    rcases waker_deliverAll (m := m) hps p with ⟨hafter, hwoken⟩
    -- Had it got something, its waker would have been woken.
    have hidle : p ∉ ps := fun hmem =>
      hnot (List.mem_reverse.2 (hwoken w hmem (by rw [hwaker, hasleep.2])))
    rw [if_neg hidle, hwaker] at hafter
    rw [queue_deliverAll hps, hqueue, List.count_eq_zero_of_not_mem hidle, hafter]
    exact ⟨by rw [hasleep.1]; rfl, hasleep.2⟩

variable {c : LocalCoordinator μ ω}

theorem inv_connect (hi : Inv wire c) : Inv wire (c.step wire .connect) := by
  refine ⟨fun id => ?_, ⟨fun p => ?_, fun p w hp => ?_⟩, fun id m hmem => ?_⟩
  · refine slotFits_mono ?_ rfl (fun _ => rfl) (hi.slots id)
    simp [LocalCoordinator.step, Shared.connect]
  · exact (congrArg _ (queue_connect p)).trans (hi.kept.delivered p)
  · rw [LocalCoordinator.step, queue_connect, waker_connect]
    exact hi.kept.asleep p w hp
  · rcases List.mem_cons.1 hmem with h | h
    · cases h
    · exact hi.named id m h

-- Only publications have to be named rightly.
theorem named_cons (hi : Inv wire c) (ws : List ω) {e : Event μ ω}
    (he : ∀ id m, e = .published id m → wire.id m = some id) (id : μ) (m : List UInt8)
    (hmem : .published id m ∈ ws.map .woke ++ e :: c.history) : wire.id m = some id := by
  rcases List.mem_append.1 hmem with h | h
  · rcases List.mem_map.1 h with ⟨w, -, hw⟩
    cases hw
  · rcases List.mem_cons.1 h with h | h
    · exact he id m h.symm
    · exact hi.named id m h

/-- A party that asks too early waits in the slot. -/
theorem inv_wait (hi : Inv wire c) {party : Nat} (hparty : party < c.shared.queues.length) {id : μ}
    {ps : List Nat} (hslot : SlotFits c.history c.shared.queues.length id (some (.waiters ps))) :
    Inv wire ⟨c.shared.setSlot id (.waiters (ps ++ [party])),
      .asked party id :: c.history⟩ := by
  have havailable : ∀ p, available p (.asked party id :: c.history) =
      available p c.history ++ List.replicate (([] : List Nat).count p) [] := by
    intro p
    simp [available, hslot.1]
  have hkept := kept_deliverAll hi.kept (c.shared.setSlot id (.waiters (ps ++ [party])))
    (fun p hp => absurd hp List.not_mem_nil) rfl havailable (fun _ => rfl) (fun _ => rfl)
  refine ⟨fun id' => ?_, hkept, named_cons hi [] nofun⟩
  by_cases hid : id' = id
  · subst hid
    simp only [Shared.setSlot, Function.update_self]
    refine ⟨hslot.1, fun p => ?_, fun p hp => ?_⟩
    · rw [List.count_append, hslot.2.1 p, List.count_singleton]
      simp [asks]
    · rcases List.mem_append.1 hp with hp | hp
      · exact hslot.2.2 p hp
      · rw [List.mem_singleton.1 hp]
        exact hparty
  · simp only [Shared.setSlot, Function.update_of_ne hid]
    refine slotFits_mono (h := c.history) (Nat.le_refl _) rfl (fun p => ?_) (hi.slots id')
    simp [asks, Ne.symm hid]

/-- An ask is answered from the slot, or waits in it. -/
theorem inv_ask (hi : Inv wire c) {party : Nat} (hparty : party < c.shared.queues.length) (id : μ) :
    Inv wire ⟨(c.shared.ask party id).1,
      (c.shared.ask party id).2.reverse.map .woke ++ .asked party id :: c.history⟩ := by
  have hslot := hi.slots id
  unfold Shared.ask
  cases hm : c.shared.messages id with
  | none =>
      rw [hm] at hslot
      have hfits : SlotFits c.history c.shared.queues.length id (some (.waiters [])) :=
        ⟨hslot.1, fun p => (hslot.2 p).symm, fun p hp => absurd hp List.not_mem_nil⟩
      exact inv_wait hi hparty hfits
  | some slot =>
      rw [hm] at hslot
      cases slot with
      | waiters ps => exact inv_wait hi hparty hslot
      | ready m =>
          have hfirst : firstPublished id c.history = some m := hslot
          have havailable : ∀ p, available p (.asked party id :: c.history) =
              available p c.history ++ List.replicate ([party].count p) m := by
            intro p
            by_cases hp : party = p
            · simp [available, hfirst, hp]
            · simp [available, hp]
          have hkept := kept_deliverAll hi.kept c.shared
            (fun p hp => by rw [List.mem_singleton.1 hp]; exact hparty) rfl havailable
            (fun _ => rfl) (fun _ => rfl)
          rw [deliverAll_singleton] at hkept
          refine ⟨fun id' => ?_, hkept, named_cons hi _ nofun⟩
          simp only [messages_deliver, queues_deliver]
          by_cases hid : id' = id
          · subst hid
            rw [hm]
            exact (firstPublished_woke id' _).trans hfirst
          · refine slotFits_mono (h := c.history) (Nat.le_refl _) (firstPublished_woke id' _)
              (fun p => (asks_woke p id' _).trans ?_) (hi.slots id')
            simp [asks, Ne.symm hid]

/-- A first publication goes to everyone who waits, and a later one to nobody. -/
theorem inv_publish (hi : Inv wire c) {id : μ} {m : List UInt8} (hid : wire.id m = some id) :
    Inv wire ⟨(c.shared.publish id m).1,
      (c.shared.publish id m).2.reverse.map .woke ++ .published id m :: c.history⟩ := by
  have hslot := hi.slots id
  have hnamed : ∀ id' m', (.published id m : Event μ ω) = .published id' m' →
      wire.id m' = some id' := by
    intro id' m' h
    cases h
    exact hid
  -- Another id has been published first, or not, as before.
  have hother : ∀ id', id' ≠ id →
      firstPublished id' (.published id m :: c.history) = firstPublished id' c.history := by
    intro id' hne
    rw [firstPublished]
    cases firstPublished id' c.history with
    | some first => rfl
    | none => exact if_neg (Ne.symm hne)
  unfold Shared.publish
  cases hm : c.shared.messages id with
  | none =>
      rw [hm] at hslot
      have havailable : ∀ p, available p (.published id m :: c.history) =
          available p c.history ++ List.replicate (([] : List Nat).count p) m := by
        intro p
        simp [available, hslot.1, hslot.2 p]
      have hkept := kept_deliverAll hi.kept (c.shared.setSlot id (.ready m))
        (fun p hp => absurd hp List.not_mem_nil) rfl havailable (fun _ => rfl) (fun _ => rfl)
      refine ⟨fun id' => ?_, hkept, named_cons hi [] hnamed⟩
      by_cases hne : id' = id
      · subst hne
        simp [Shared.setSlot, SlotFits, firstPublished, hslot.1]
      · simp only [Shared.setSlot, Function.update_of_ne hne]
        exact slotFits_mono (h := c.history) (Nat.le_refl _) (hother id' hne) (fun _ => rfl)
          (hi.slots id')
  | some slot =>
      rw [hm] at hslot
      cases slot with
      | ready first =>
          have hfirst : firstPublished id c.history = some first := hslot
          have havailable : ∀ p, available p (.published id m :: c.history) =
              available p c.history ++ List.replicate (([] : List Nat).count p) m := by
            intro p
            simp [available, hfirst]
          have hkept := kept_deliverAll hi.kept c.shared
            (fun p hp => absurd hp List.not_mem_nil) rfl havailable (fun _ => rfl) (fun _ => rfl)
          refine ⟨fun id' => ?_, hkept, named_cons hi [] hnamed⟩
          by_cases hne : id' = id
          · subst hne
            simp [hm, SlotFits, firstPublished, hfirst]
          · exact slotFits_mono (h := c.history) (Nat.le_refl _) (hother id' hne) (fun _ => rfl)
              (hi.slots id')
      | waiters ps =>
          have havailable : ∀ p, available p (.published id m :: c.history) =
              available p c.history ++ List.replicate (ps.count p) m := by
            intro p
            simp [available, hslot.1, hslot.2.1 p]
          have hkept := kept_deliverAll hi.kept (c.shared.setSlot id (.ready m)) hslot.2.2
            rfl havailable (fun _ => rfl) (fun _ => rfl)
          refine ⟨fun id' => ?_, hkept, named_cons hi _ hnamed⟩
          simp only [messages_deliverAll, queues_deliverAll]
          by_cases hne : id' = id
          · subst hne
            simp only [Shared.setSlot, Function.update_self]
            refine (firstPublished_woke id' _).trans ?_
            simp [firstPublished, hslot.1]
          · simp only [Shared.setSlot, Function.update_of_ne hne]
            refine slotFits_mono (h := c.history) (Nat.le_refl _) ?_ (fun p => asks_woke p id' _)
              (hi.slots id')
            exact (firstPublished_woke id' _).trans (hother id' hne)

/-- A poll hands out what is next, or parks the party. -/
theorem inv_poll (hi : Inv wire c) {party : Nat} (hparty : party < c.shared.queues.length) (w : ω) :
    Inv wire (c.step wire (.poll party w)) := by
  have hqueue := queue_pollNext hparty w
  have hmessages := messages_pollNext (s := c.shared) party w
  have hlength := queues_pollNext (s := c.shared) party w
  have hpending := pending_pollNext hparty w
  have hothers : ∀ r, party ≠ r → (c.shared.pollNext party w).1.queue r = c.shared.queue r ∧
      (c.shared.pollNext party w).1.waker r = c.shared.waker r := by
    intro r hr
    rw [Shared.queue, Shared.waker, others_pollNext hr]
    exact ⟨rfl, rfl⟩
  simp only [LocalCoordinator.step, if_pos hparty]
  cases hpoll : c.shared.pollNext party w with
  | mk shared result =>
      simp only [hpoll] at hqueue hmessages hlength hpending hothers
      cases result with
      | none =>
          simp only [Option.toList_none, List.nil_append] at hqueue
          refine ⟨fun id => ?_, ⟨fun p => ?_, fun p v hp => ?_⟩, fun id m hmem => ?_⟩
          · rw [hmessages, hlength]
            exact slotFits_mono (h := c.history) (Nat.le_refl _) rfl (fun _ => rfl) (hi.slots id)
          · by_cases hp : party = p
            · rw [← hp, hqueue]
              exact hi.kept.delivered party
            · rw [(hothers p hp).1]
              exact hi.kept.delivered p
          · rw [parked] at hp
            by_cases hsame : party = p
            · rw [if_pos hsame] at hp
              cases hp
              rw [← hsame]
              exact hpending rfl
            · rw [if_neg hsame] at hp
              rw [(hothers p hsame).1, (hothers p hsame).2]
              exact hi.kept.asleep p v hp
          · exact named_cons (e := .pending party w) hi [] nofun id m hmem
      | some m =>
          simp only [Option.toList_some, List.singleton_append] at hqueue
          refine ⟨fun id => ?_, ⟨fun p => ?_, fun p v hp => ?_⟩, fun id m' hmem => ?_⟩
          · rw [hmessages, hlength]
            exact slotFits_mono (h := c.history) (Nat.le_refl _) rfl (fun _ => rfl) (hi.slots id)
          · have hbefore := hi.kept.delivered p
            by_cases hp : party = p
            · subst hp
              simp only [received, available, if_pos]
              rw [← hbefore, ← hqueue, List.append_assoc, List.singleton_append]
            · simp only [received, available, if_neg hp, List.append_nil]
              rw [(hothers p hp).1]
              exact hbefore
          · rw [parked] at hp
            by_cases hsame : party = p
            · rw [if_pos hsame] at hp
              cases hp
            · rw [if_neg hsame] at hp
              rw [(hothers p hsame).1, (hothers p hsame).2]
              exact hi.kept.asleep p v hp
          · exact named_cons (e := .received party m) hi [] nofun id m' hmem

/-- Every act keeps the relay in line with its history. -/
theorem inv_step (hi : Inv wire c) (act : Act ω) : Inv wire (c.step wire act) := by
  cases act with
  | connect => exact inv_connect hi
  | poll party w =>
      by_cases hparty : party < c.shared.queues.length
      · exact inv_poll hi hparty w
      · rwa [LocalCoordinator.step, if_neg hparty]
  | send party item =>
      by_cases hparty : party < c.shared.queues.length
      · rw [LocalCoordinator.step, if_pos hparty, LocalCoordinator.sent, Shared.startSend]
        cases hid : wire.id item with
        | none =>
            -- No header: an error, and nothing has changed.
            refine ⟨fun id => ?_, ⟨hi.kept.delivered, hi.kept.asleep⟩, fun id m hmem => ?_⟩
            · exact slotFits_mono (h := c.history) (Nat.le_refl _) rfl (fun _ => rfl) (hi.slots id)
            · exact named_cons (e := .refused party) hi [] nofun id m hmem
        | some id =>
            simp only [Option.map_some]
            by_cases hask : item.length = wire.headerSize
            · rw [if_pos hask, if_pos hask]
              exact inv_ask hi hparty id
            · rw [if_neg hask, if_neg hask]
              exact inv_publish hi hid
      · rwa [LocalCoordinator.step, if_neg hparty]

end Invariant

/-- The relay has delivered what it owes. What a party has received and what waits for it
    is what it is owed, in the order in which that came to be there; for every id that is
    one copy of what was published first for each of its asks; and a party that waits with
    its last waker unwoken has nothing in its queue. -/
structure Delivers {μ ω : Type} [DecidableEq μ] [DecidableEq ω] (wire : Wire μ)
    (c : LocalCoordinator μ ω) : Prop where
  inOrder : ∀ p, received p c.history ++ c.shared.queue p = available p c.history
  oneEach : ∀ p id, (received p c.history ++ c.shared.queue p).filter
    (fun m => wire.id m = some id) = copies p id c.history
  noLostWake : ∀ p w, parked p c.history = some w → c.shared.queue p = []

/-- In every run, whoever connects, asks, publishes and polls in whatever order, the relay
    has delivered what it owes. -/
theorem LocalCoordinator.delivers {μ ω : Type} [DecidableEq μ] [DecidableEq ω] (wire : Wire μ)
    (acts : List (Act ω)) :
    Delivers wire (Run.run (LocalCoordinator.step wire) LocalCoordinator.start acts) := by
  have hstart : Inv wire (LocalCoordinator.start : LocalCoordinator μ ω) :=
    ⟨fun id => ⟨rfl, fun _ => rfl⟩, ⟨fun _ => rfl, nofun⟩, nofun⟩
  have hi := Run.run_inv (J := Inv wire) (fun _ act hi => inv_step hi act) _ acts hstart
  refine ⟨hi.kept.delivered, fun p id => ?_, fun p w hp => (hi.kept.asleep p w hp).1⟩
  rw [hi.kept.delivered p]
  exact filter_available hi.named p id

-- A party that asks before the publication and one that asks after it get the same bytes,
-- and the waker of the first is woken. A second publication changes nothing.
example :
    let wire : Wire UInt8 := ⟨1, List.head?⟩
    let acts : List (Act Nat) := [.connect, .connect, .connect, .poll 1 9, .send 1 [7],
      .send 0 [7, 42], .send 0 [7, 43], .send 2 [7], .poll 1 9, .poll 2 8, .poll 2 8]
    (Run.run (LocalCoordinator.step wire) LocalCoordinator.start acts).history =
      [.pending 2 8, .received 2 [7, 42], .received 1 [7, 42], .asked 2 7,
        .published 7 [7, 43], .woke 9, .published 7 [7, 42], .asked 1 7, .pending 1 9,
        .connected, .connected, .connected] := by decide

end Relay

end PocketSkynet
