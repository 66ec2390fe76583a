import PocketSkynet.Server.Sample
import PocketSkynet.Server.Statements

/-!
# The Forward-Secrecy Gate under Interleaving

The gate of an encrypted send or edit is one database call and the store that
it guards is another. Nothing ties the two together, so the store can commit
into an epoch that the gate never saw: after a rotation, after a flag, or after
somebody who holds the key has left. And a departure removes its member in one
statement and sets the flag in a later one, so the gate itself can be passed in
between.

The interleaved system is watched by a history that changes nothing in it.
Beside each room it keeps an `Epoch`: who has held a wrap of the current epoch,
who of them has since stopped being a member, and a count of the disturbances,
the moments at which the room was rotated, was flagged, or lost such a holder.
Beside each request it keeps the count at which the gate was passed. The epoch
is computed from the room before and after each statement and from nothing else.

`forwardSecrecy_iff` is sharp: in a run, every ciphertext is stored into the
epoch it is sealed under, unflagged and with every holder still a member,
exactly when no store has been disturbed since its gate.

## Main definitions

* `Epoch`, `Epoch.observe`: The history of one room.
* `Watched`, `Gated`: The tables and a request, with their histories.
* `StoresUnderCurrentEpoch`: What every store of ciphertext should find.
* `Undisturbed`: Nothing has happened to the room since the gate.

## Theorems

* `watched_run`: Watching a run does not change it.
* `accounts_step`: The count at the gate keeps telling whether it is still good.
* `forwardSecrecy_iff`: The runs in which the gate does its work, characterised.
* `stored_after_leave`: A store that went through after somebody had left.
-/

namespace PocketSkynet

namespace Room

/-- Everybody with a wrap of the current epoch. -/
def holders (r : Room) : List WalletAddress :=
  (r.keys.filter (·.keyVersion = r.currentKeyVersion)).map (·.wrap.userAddress)

end Room

/-- The history of a room since its current epoch was installed: who has held a
    wrap of it, who of them has ceased to be a member since, and how often the
    room has been rotated, flagged or left by one of them, ever. -/
structure Epoch where
  held : List WalletAddress
  departed : List WalletAddress
  disturbances : Nat
deriving DecidableEq, Repr

namespace Epoch

/-- The holders of the epoch's key that a statement takes out of the room. -/
def gone (e : Epoch) (r r' : Room) : List WalletAddress :=
  r.members.filter fun a => a ∈ e.held && a ∉ r'.members

/-- The history after a statement that took the room from `r` to `r'`. -/
def observe (e : Epoch) (r r' : Room) : Epoch :=
  if r'.currentKeyVersion ≠ r.currentKeyVersion then ⟨r'.holders, [], e.disturbances + 1⟩
  else
    { held := e.held ++ r'.holders
      departed := e.departed ++ e.gone r r'
      disturbances :=
        if (e.gone r r').isEmpty && (r.keyRotationPending || !r'.keyRotationPending)
          then e.disturbances else e.disturbances + 1 }

/-- The room is unflagged, in epoch `k`, and nobody who held its key has left. -/
def Clean (e : Epoch) (r : Room) (k : Nat) : Prop :=
  r.keyRotationPending = false ∧ r.currentKeyVersion = k ∧ e.departed = []

instance (e : Epoch) (r : Room) (k : Nat) : Decidable (e.Clean r k) :=
  inferInstanceAs (Decidable (_ ∧ _ ∧ _))

theorem disturbances_observe (e : Epoch) (r r' : Room) :
    e.disturbances ≤ (e.observe r r').disturbances := by
  unfold observe
  split
  · exact Nat.le_succ _
  · dsimp only
    split
    · exact Nat.le_refl _
    · exact Nat.le_succ _

/-- A statement that counts as no disturbance leaves everything as it was. -/
theorem observe_undisturbed {e : Epoch} {r r' : Room} (hon : r.Onward r')
    (h : (e.observe r r').disturbances = e.disturbances) (k : Nat) :
    (e.observe r r').Clean r' k ↔ e.Clean r k := by
  unfold observe at h ⊢
  split at h
  · exact absurd h (Nat.succ_ne_self _)
  · rename_i hv
    have hv : r'.currentKeyVersion = r.currentKeyVersion := not_not.1 hv
    dsimp only at h
    split at h
    · rename_i hquiet
      rw [Bool.and_eq_true, List.isEmpty_iff] at hquiet
      obtain ⟨hgone, hflag⟩ := hquiet
      have hkeep : r.keyRotationPending = true → r'.keyRotationPending = true := by
        rcases hon with hlt | ⟨-, hkeep⟩
        · omega
        · exact hkeep
      have hp : r'.keyRotationPending = r.keyRotationPending := by
        cases hb : r.keyRotationPending with
        | true => exact hkeep hb
        | false => simpa [hb] using hflag
      rw [if_neg (not_not.2 hv)]
      simp only [Clean, hp, hv, hgone, List.append_nil]
    · exact absurd h (Nat.succ_ne_self _)

/-- A disturbance ends every epoch up to the current one, flags the room or
    takes a holder out of it. -/
theorem observe_disturbed {e : Epoch} {r r' : Room} (hon : r.Onward r')
    (h : (e.observe r r').disturbances ≠ e.disturbances) {k : Nat}
    (hk : k ≤ r.currentKeyVersion) : ¬ (e.observe r r').Clean r' k := by
  rintro ⟨hp, hv', hd⟩
  unfold observe at h hd
  split at h
  · rename_i hne
    rcases hon with hlt | ⟨hv, -⟩
    · omega
    · exact hne hv
  · rename_i hv
    rw [if_neg hv] at hd
    dsimp only at h hd
    split at h
    · exact h rfl
    · rename_i hloud
      refine hloud ?_
      rw [(List.append_eq_nil_iff.1 hd).2, hp]
      simp

/-- A statement that leaves the room alone is no disturbance. -/
theorem disturbances_observe_self (e : Epoch) (r : Room) :
    (e.observe r r).disturbances = e.disturbances := by
  have hgone : e.gone r r = [] := by
    refine List.filter_eq_nil_iff.2 fun a ha => ?_
    simp [ha]
  unfold observe
  rw [if_neg (not_not.2 rfl), hgone]
  cases r.keyRotationPending <;> rfl

end Epoch

/-- The tables, with the history of every room. -/
structure Watched where
  shared : Shared
  epoch : RoomId → Epoch

/-- A request, with the count of disturbances at which it passed its gate. There
    is none if a holder had left the room and the gate was open all the same. -/
structure Gated where
  proc : Proc
  passed : Option Nat

namespace Watched

/-- The history begins: whoever has a wrap now has held one. -/
def start (s : Shared) : Watched :=
  ⟨s, fun id => ⟨((s.server.rooms id).map Room.holders).getD [], [], 0⟩⟩

/-- The history after a statement that left `s'`. -/
def observe (w : Watched) (s' : Shared) : Watched :=
  { shared := s'
    epoch := fun id =>
      match w.shared.server.rooms id, s'.server.rooms id with
      | some r, some r' => (w.epoch id).observe r r'
      | _, _ => w.epoch id }

/-- What is noted when the gate of a room is read. -/
def passing (w : Watched) (room : RoomId) : Option Nat :=
  if (w.epoch room).departed = [] then some (w.epoch room).disturbances else none

theorem epoch_observe {w : Watched} {s' : Shared} {id : RoomId} {r r' : Room}
    (hr : w.shared.server.rooms id = some r) (hr' : s'.server.rooms id = some r') :
    (w.observe s').epoch id = (w.epoch id).observe r r' := by
  simp [observe, hr, hr']

end Watched

namespace Gated

def enter (call : Call) : Gated := ⟨Proc.enter call, none⟩

/-- The next statement of a request, with the histories kept. -/
def advance (now : Nat) (w : Watched) (g : Gated) : Watched × Gated :=
  (w.observe (g.proc.effect now w.shared),
    { proc := g.proc.next now w.shared
      passed := match g.proc.gate with
        | some room => w.passing room
        | none => g.passed })

end Gated

/-- The interleaved system, watched. -/
def watch : Pool Watched Gated → Turn Call Nat → Pool Watched Gated :=
  Pool.step Gated.enter Gated.advance

/-- Watching a run does not change it. -/
theorem watched_run (p : Pool Watched Gated) (turns : List (Turn Call Nat)) :
    (Run.run watch p turns).map Watched.shared Gated.proc =
      Run.run requests (p.map Watched.shared Gated.proc) turns := by
  refine Pool.map_run ?_ ?_ p turns
  · exact fun _ => rfl
  · exact fun _ _ _ => rfl

/-- Ciphertext that the step stores under epoch `k` goes into a room that is in
    epoch `k`, unflagged, with every holder of its key still a member. -/
def StoresUnderCurrentEpoch (p : Pool Watched Gated) : Turn Call Nat → Prop
  | .start _ => True
  | .tick i now => ∀ g room m, p.procs[i]? = some g →
      g.proc.stores now p.shared.shared = some (room, m) → m.isEncrypted = true →
      ∃ r, p.shared.shared.server.rooms room = some r ∧
        (p.shared.epoch room).Clean r m.keyVersion

/-- Ciphertext that the step stores passed its gate with every holder of the key
    a member, and the room has not been disturbed since. -/
def Undisturbed (p : Pool Watched Gated) : Turn Call Nat → Prop
  | .start _ => True
  | .tick i now => ∀ g room m, p.procs[i]? = some g →
      g.proc.stores now p.shared.shared = some (room, m) → m.isEncrypted = true →
      g.passed = some (p.shared.epoch room).disturbances

/-- The count a request noted at its gate tells whether the room is still in the
    state the gate found it in. -/
def Accounts (w : Watched) (g : Gated) : Prop :=
  ∀ room k, g.proc.seals = some (room, k) → ∃ r, w.shared.server.rooms room = some r ∧
    k ≤ r.currentKeyVersion ∧
    (∀ n, g.passed = some n → n ≤ (w.epoch room).disturbances) ∧
    (g.passed = some (w.epoch room).disturbances ↔ (w.epoch room).Clean r k)

theorem accounts_enter (w : Watched) (call : Call) : Accounts w (Gated.enter call) := by
  intro room k h
  cases call with
  | store caller room' wrap version =>
      obtain ⟨v, hv⟩ := Proc.seals_after h
      cases hv
  | _ => cases h

/-- The statement of any other request leaves the account in order. -/
theorem accounts_observe {w : Watched} {g : Gated} (now : Nat) (p : Proc) (h : Accounts w g) :
    Accounts (w.observe (p.effect now w.shared)) g := by
  intro room k hseals
  obtain ⟨r, hr, hk, hle, hiff⟩ := h room k hseals
  obtain ⟨r', hr', hon⟩ := Proc.effect_onward now w.shared p hr
  have hk' : k ≤ r'.currentKeyVersion := by
    rcases hon with hlt | ⟨hv, -⟩ <;> omega
  have hmono := (w.epoch room).disturbances_observe r r'
  refine ⟨r', hr', hk', ?_⟩
  rw [Watched.epoch_observe hr hr']
  refine ⟨fun n hn => (hle n hn).trans hmono, ?_⟩
  by_cases hsame : ((w.epoch room).observe r r').disturbances = (w.epoch room).disturbances
  · rw [hsame, hiff, Epoch.observe_undisturbed hon hsame]
  · -- The count has moved past whatever was noted, and the epoch is spoilt.
    refine iff_of_false (fun hp => ?_) (Epoch.observe_disturbed hon hsame hk)
    have := hle _ hp
    omega

/-- A request that goes on to a store has just noted the count at its gate. -/
theorem accounts_advance (now : Nat) (w : Watched) (g : Gated) :
    Accounts (g.advance now w).1 (g.advance now w).2 := by
  intro room k hseals
  obtain ⟨hgate, heffect, r, hr, hp, hv⟩ := Proc.seals_next now w.shared g.proc hseals
  have hpassed : (g.advance now w).2.passed = w.passing room := by
    simp [Gated.advance, hgate]
  have hself := (w.epoch room).disturbances_observe_self r
  have hepoch : (g.advance now w).1.epoch room = (w.epoch room).observe r r := by
    rw [Gated.advance, heffect, Watched.epoch_observe hr hr]
  have hclean : ((w.epoch room).observe r r).Clean r k ↔ (w.epoch room).departed = [] := by
    rw [Epoch.observe_undisturbed (Room.Onward.refl r) hself]
    exact ⟨fun h => h.2.2, fun h => ⟨hp, hv, h⟩⟩
  refine ⟨r, by rw [Gated.advance, heffect]; exact hr, le_of_eq hv.symm, ?_⟩
  rw [hpassed, hepoch, hself, hclean, Watched.passing]
  by_cases hd : (w.epoch room).departed = []
  · simp [hd]
  · simp [hd]

/-- The step lemma. -/
theorem accounts_step (p : Pool Watched Gated) (turn : Turn Call Nat)
    (h : p.Holds (fun _ => True) Accounts) : (watch p turn).Holds (fun _ => True) Accounts :=
  Pool.holds_step (fun w call _ => accounts_enter w call)
    (fun now w g _ _ => ⟨trivial, accounts_advance now w g⟩)
    (fun now _ g _ _ _ hd => accounts_observe now g.proc hd) p turn h

/-- Where the accounts are in order, a store is good exactly when undisturbed. -/
theorem stores_iff_undisturbed (p : Pool Watched Gated) (turn : Turn Call Nat)
    (h : p.Holds (fun _ => True) Accounts) :
    StoresUnderCurrentEpoch p turn ↔ Undisturbed p turn := by
  cases turn with
  | start call => exact Iff.rfl
  | tick i now =>
      refine forall_congr' fun g => forall_congr' fun room => forall_congr' fun m => ?_
      refine imp_congr_right fun hg => imp_congr_right fun hstores => imp_congr_right fun hm => ?_
      obtain ⟨hseals, -⟩ := Proc.seals_row hstores hm
      obtain ⟨r, hr, -, -, hiff⟩ := h.2 g (Pool.mem_of_getElem? hg) room m.keyVersion hseals
      rw [hiff]
      constructor
      · rintro ⟨r', hr', hclean⟩
        cases Option.some.inj (hr.symm.trans hr')
        exact hclean
      · exact fun hclean => ⟨r, hr, hclean⟩

/-- **Forward secrecy under interleaving.** Whatever the tables hold at first and
    however the requests interleave, every ciphertext is stored into the epoch it
    is sealed under, unflagged and with every holder of the key still a member,
    exactly when each of them is stored undisturbed: nobody has rotated or flagged
    the room since the gate was read and no holder of the key has left since then,
    nor had one left, unflagged, when it was read. -/
theorem forwardSecrecy_iff (s : Shared) (turns : List (Turn Call Nat)) :
    Run.Along watch StoresUnderCurrentEpoch (Pool.idle (Watched.start s)) turns ↔
      Run.Along watch Undisturbed (Pool.idle (Watched.start s)) turns :=
  Run.along_congr (fun p turn h _ => accounts_step p turn h)
    (fun p turn h => stores_iff_undisturbed p turn h) _ turns (Pool.holds_idle trivial)

namespace Sample

/-- A message of Alice's, sealed under the first epoch. -/
def sealedNote : NewMessage :=
  { note "msg_1" alice with isEncrypted := true, iv := some "00", hmac := some "11" }

/-- Alice's message passes the gate, Bob leaves, and then the message is stored. -/
def lateStore : List (Turn Call Nat) :=
  [.start (.send team sealedNote), .tick 0 2, .tick 0 2, .start (.leave bob team)] ++
    List.replicate 8 (.tick 1 3) ++ [.tick 0 4]

end Sample

/-- The gate was open when Alice's message passed it. The message is stored when
    the room is flagged and Bob, who has the key it is sealed under, is gone. -/
theorem stored_after_leave :
    ¬ Run.Along watch StoresUnderCurrentEpoch (Pool.idle (Watched.start Sample.keyed))
      Sample.lateStore := by
  intro h
  have hlast := ((Run.along_append _ (Sample.lateStore.take 12) _).1 h).2.1
  obtain ⟨r, hr, hpending, -, -⟩ := hlast _ _ _ rfl rfl rfl
  cases hr
  revert hpending
  decide

end PocketSkynet
