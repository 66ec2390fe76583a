import PocketSkynet.Server.Presence
import PocketSkynet.Server.Sample

/-!
# Announced and Derived Presence

A status only sinks while nothing happens: connections grow idle and beacons expire, and neither
raises anybody. So what is announced is at least what would be derived, and a sweep has to look
only at the wallets that are announced to be there.

An operation changes what is derived for one wallet, up to the sweep, which changes nothing that is
still derived. It announces that wallet, so behind it the announced status is the derived one. Then
it is offline exactly when nothing speaks for the wallet any more, because a connection never
contributes offline and nobody can declare it.

## Main definitions

* `PresenceHub.Gone`: A wallet has no connection, and no beacon that counts.
* `PresenceHub.Inv`, `PresenceHub.Ceiling`: What every operation keeps.
* `PresenceTurn.reading`: When a turn derives the status of a wallet to compare it.
* `Consistent`, `Timely`: What holds behind a turn, and that the clock does not go back.

## Theorems

* `performs_perform`, `settled_perform`: What an operation does before it announces, and what it
  leaves unannounced.
* `consistent_step`, `ceiling_after`: One turn, and what is announced behind a run.
* `presence_consistent`: In every run what is announced, what is derived and what is published
  agree.
-/

namespace PocketSkynet

namespace PresenceHub

open PresenceStatus

variable {s s' : PresenceHub} {w : WalletAddress} {t t' now : Int} {p : PresenceStatus}

/-! ### What is derived -/

-- A connection is somebody being there.
theorem offline_lt_presence (v : Signs) (t : Int) : offline < v.presence t := by
  unfold Signs.presence
  by_cases haway : v.declaredAway = true
  · rw [if_pos haway]
    decide
  · rw [if_neg haway]
    by_cases hidle : awayAfterMs ≤ t - v.lastActiveAt
    · rw [if_pos hidle]
      decide
    · rw [if_neg hidle]
      decide

theorem presence_antitone (v : Signs) (h : t ≤ t') : v.presence t' ≤ v.presence t := by
  unfold Signs.presence
  by_cases haway : v.declaredAway = true
  · rw [if_pos haway, if_pos haway]
  · rw [if_neg haway, if_neg haway]
    by_cases hidle : awayAfterMs ≤ t - v.lastActiveAt
    · have hlater : awayAfterMs ≤ t' - v.lastActiveAt := by omega
      rw [if_pos hidle, if_pos hlater]
    · rw [if_neg hidle]
      exact le_online _

theorem presence_markActive (v : Signs) (now : Int) : (v.markActive now).presence now = online := by
  have hfresh : ¬ awayAfterMs ≤ now - now := by
    unfold awayAfterMs
    omega
  exact (if_neg Bool.false_ne_true).trans (if_neg hfresh)

theorem foldr_max_le_iff {l : List PresenceStatus} : l.foldr max ⊥ ≤ p ↔ ∀ q ∈ l, q ≤ p :=
  ⟨fun h _ hq => (List.le_max_of_le hq le_rfl).trans h, List.max_le_of_forall_le l p⟩

theorem fromConnections_le_iff (hi : s.hub.Indexed) : s.fromConnections w t ≤ p ↔
    ∀ c ∈ s.hub.conns, c.wallet = w → (s.signs c.id).presence t ≤ p := by
  rw [fromConnections, foldr_max_le_iff, List.forall_mem_map]
  constructor
  · intro h c hc hwallet
    refine h c (List.mem_filterMap.2 ⟨c.id, ?_, Table.lookup_of_mem hi.keyed hc⟩)
    exact (hi.users w c.id).2 ⟨c, hc, rfl, hwallet⟩
  · intro h c hc
    rcases List.mem_filterMap.1 hc with ⟨id, hid, hfind⟩
    rcases (hi.users w id).1 hid with ⟨c', hc', hid', hwallet⟩
    rw [← hi.eq_of_id hfind hc' hid']
    exact h c' hc' hwallet

/-- A bound on what is derived is one on the connections and on the beacon. -/
theorem derivePresence_le_iff (hi : s.hub.Indexed) : s.derivePresence w t ≤ p ↔
    (∀ c ∈ s.hub.conns, c.wallet = w → (s.signs c.id).presence t ≤ p) ∧
      s.fromBeacon w t ≤ p := by
  rw [derivePresence, max_le_iff, fromConnections_le_iff hi]

theorem fromBeacon_antitone (h : t ≤ t') : s.fromBeacon w t' ≤ s.fromBeacon w t := by
  unfold fromBeacon
  cases Table.lookup Prod.fst w s.hub.beacons with
  | none => exact le_rfl
  | some b =>
      rw [Option.filter_some, Option.filter_some]
      by_cases hfresh : t' - b.2.2 < beaconTtlMs
      · have hbefore : t - b.2.2 < beaconTtlMs := by omega
        rw [if_pos (decide_eq_true hfresh), if_pos (decide_eq_true hbefore)]
      · rw [if_neg (by simpa using hfresh)]
        exact bot_le

/-- While nothing happens, nobody becomes more present. -/
theorem derivePresence_antitone (hi : s.hub.Indexed) (h : t ≤ t') :
    s.derivePresence w t' ≤ s.derivePresence w t := by
  rw [derivePresence_le_iff hi]
  rcases (derivePresence_le_iff hi).1 (le_refl (s.derivePresence w t)) with ⟨hconns, hbeacon⟩
  refine ⟨fun c hc hwallet => ?_, (fromBeacon_antitone h).trans hbeacon⟩
  exact (presence_antitone _ h).trans (hconns c hc hwallet)

-- The status of a wallet is derived from its own connections and its own beacon.
theorem derivePresence_congr (hi : s.hub.Indexed) (hi' : s'.hub.Indexed)
    (hconns : ∀ c, c.wallet = w → (c ∈ s'.hub.conns ↔ c ∈ s.hub.conns))
    (hsigns : ∀ c ∈ s.hub.conns, c.wallet = w → s'.signs c.id = s.signs c.id)
    (hbeacon : s'.fromBeacon w t = s.fromBeacon w t) :
    s'.derivePresence w t = s.derivePresence w t := by
  refine eq_of_forall_ge_iff fun p => ?_
  rw [derivePresence_le_iff hi, derivePresence_le_iff hi', hbeacon]
  refine and_congr_left fun _ => ?_
  constructor
  · intro h c hc hwallet
    rw [← hsigns c hc hwallet]
    exact h c ((hconns c hwallet).2 hc) hwallet
  · intro h c hc hwallet
    have hold := (hconns c hwallet).1 hc
    rw [hsigns c hold hwallet]
    exact h c hold hwallet

/-- A wallet has no connection, and no beacon that counts. -/
def Gone (s : PresenceHub) (w : WalletAddress) (t : Int) : Prop :=
  (∀ c ∈ s.hub.conns, c.wallet ≠ w) ∧
    ∀ b ∈ s.hub.beacons, b.1 = w → beaconTtlMs ≤ t - b.2.2

/-- What every operation keeps: the indexes are in line, numbers are fresh, what is announced is
    in order, and a beacon speaks for nobody who has a connection. -/
structure Inv (s : PresenceHub) : Prop where
  indexed : s.hub.Indexed
  below : ∀ c ∈ s.hub.conns, c.id < s.nextId
  proper : Sparse.Proper .offline s.presence
  keyed : Table.Keyed Prod.fst s.hub.beacons
  declared : ∀ b ∈ s.hub.beacons, b.2.1 ≠ .offline
  alone : ∀ b ∈ s.hub.beacons, ∀ c ∈ s.hub.conns, c.wallet ≠ b.1

/-- What is announced is at least what would be derived. -/
def Ceiling (s : PresenceHub) (t : Int) : Prop :=
  ∀ w, s.derivePresence w t ≤ s.announcedPresence w

theorem fromBeacon_eq_offline (h : s.Inv) : s.fromBeacon w t = .offline ↔
    ∀ b ∈ s.hub.beacons, b.1 = w → beaconTtlMs ≤ t - b.2.2 := by
  unfold fromBeacon
  cases hfind : Table.lookup Prod.fst w s.hub.beacons with
  | none =>
      refine iff_of_true rfl fun b hb hw => ?_
      exact absurd hw (Table.lookup_eq_none.1 hfind b hb)
  | some b =>
      have hb := Table.mem_of_lookup hfind
      have hw : b.1 = w := Table.key_of_lookup hfind
      -- It is the only beacon of the wallet.
      have honly : ∀ b' ∈ s.hub.beacons, b'.1 = w → b' = b := by
        intro b' hb' hw'
        have hfind' := Table.lookup_of_mem h.keyed hb'
        rw [hw', hfind] at hfind'
        exact (Option.some.inj hfind').symm
      rw [Option.filter_some]
      by_cases hfresh : t - b.2.2 < beaconTtlMs
      · rw [if_pos (decide_eq_true hfresh)]
        refine iff_of_false (h.declared b hb) fun hall => ?_
        have hexpired := hall b hb hw
        omega
      · rw [if_neg (by simpa using hfresh)]
        refine iff_of_true rfl fun b' hb' hw' => ?_
        rw [honly b' hb' hw']
        omega

/-- Offline is what is left when a wallet has neither. -/
theorem derivePresence_eq_offline (h : s.Inv) : s.derivePresence w t = .offline ↔ s.Gone w t := by
  have hbot : ∀ q : PresenceStatus, q ≤ .offline ↔ q = .offline := fun q => le_bot_iff
  rw [← hbot, derivePresence_le_iff h.indexed, hbot, fromBeacon_eq_offline h]
  refine and_congr_left fun _ => ?_
  constructor
  · intro hall c hc hwallet
    exact absurd (hall c hc hwallet) (not_le.2 (offline_lt_presence _ _))
  · intro hnone c hc hwallet
    exact absurd hwallet (hnone c hc)

/-! ### Announcements -/

/-- What an announcement publishes: a status that has changed, if somebody is there to be told. -/
def notice (s : PresenceHub) (w : WalletAddress) (now : Int) (rooms : Option (List RoomId)) :
    Option (Target × Option WalletAddress × ServerEvent) :=
  if s.announcedPresence w = s.derivePresence w now then none
  else (rooms.filter fun roomIds => roomIds ≠ []).map fun roomIds =>
    (.rooms roomIds, some w, .presence w (s.derivePresence w now))

/-- An announcement replaces one status, and it publishes what has changed. -/
theorem spec_announce (hs : Sparse.Proper .offline s.presence) (w : WalletAddress) (now : Int)
    (rooms : Option (List RoomId)) : s.announcePresence w now rooms =
      { s with
        presence := Sparse.put .offline w (s.derivePresence w now) s.presence
        published := s.published ++ (s.notice w now rooms).toList } := by
  have hmoves := Sparse.moves_iff (k := w) (v := s.derivePresence w now) hs
  unfold announcePresence notice
  by_cases hsame : s.announcedPresence w = s.derivePresence w now
  · have hstill : ¬ Sparse.moves .offline w (s.derivePresence w now) s.presence = true :=
      fun h => hmoves.1 h hsame
    simp only [if_pos hstill, if_pos hsame, Option.toList_none, List.append_nil]
  · have hmoved : Sparse.moves .offline w (s.derivePresence w now) s.presence = true :=
      hmoves.2 hsame
    simp only [hmoved, not_true, if_false, if_neg hsame]
    cases rooms with
    | none => simp only [Option.filter_none, Option.map_none, Option.toList_none, List.append_nil]
    | some roomIds =>
        cases roomIds with
        | nil =>
            have hnobody : (some ([] : List RoomId)).filter (fun roomIds => decide (roomIds ≠ [])) =
                none := rfl
            rw [hnobody, Option.map_none, Option.toList_none, List.append_nil]
        | cons room roomIds => rfl

theorem filterMap_cons_toList {α β : Type*} (f : α → Option β) (a : α) (l : List α) :
    (a :: l).filterMap f = (f a).toList ++ l.filterMap f := by
  cases h : f a with
  | none => rw [List.filterMap_cons_none h, Option.toList_none, List.nil_append]
  | some b => rw [List.filterMap_cons_some h, Option.toList_some, List.singleton_append]

/-- The announcements at the end of an operation. -/
def announceAll (s : PresenceHub) (told : WalletAddress → Int)
    (rooms : WalletAddress → Option (List RoomId)) (ws : List WalletAddress) : PresenceHub :=
  ws.foldl (fun s w => s.announcePresence w (told w) (rooms w)) s

/-- What a series of announcements does. Each is about another wallet, so none sees what an
    earlier one has changed. -/
theorem spec_announceAll (told : WalletAddress → Int)
    (rooms : WalletAddress → Option (List RoomId)) {ws : List WalletAddress} (hws : ws.Nodup)
    (hs : Sparse.Proper .offline s.presence) :
    ∃ presence, s.announceAll told rooms ws =
        { s with
          presence := presence
          published := s.published ++ ws.filterMap fun w => s.notice w (told w) (rooms w) } ∧
      Sparse.Proper .offline presence ∧
      ∀ w, Sparse.value .offline w presence =
        if w ∈ ws then s.derivePresence w (told w) else s.announcedPresence w := by
  induction ws generalizing s with
  | nil =>
      refine ⟨s.presence, ?_, hs, fun w => (if_neg List.not_mem_nil).symm⟩
      rw [List.filterMap_nil, List.append_nil]
      rfl
  | cons w₀ ws ih =>
      rcases List.nodup_cons.1 hws with ⟨hnot, hws⟩
      have hstep := spec_announce hs w₀ (told w₀) (rooms w₀)
      have hproper : Sparse.Proper .offline
          (Sparse.put .offline w₀ (s.derivePresence w₀ (told w₀)) s.presence) :=
        Sparse.proper_put hs
      rcases ih hws (s := s.announcePresence w₀ (told w₀) (rooms w₀)) (by rw [hstep]; exact hproper)
        with ⟨presence, hall, hproper', hvalue⟩
      rw [hstep] at hall hvalue
      refine ⟨presence, ?_, hproper', fun w => ?_⟩
      · -- The other wallets are announced as they would have been before.
        have hnotices : (ws.filterMap fun w => notice { s with
              presence := Sparse.put .offline w₀ (s.derivePresence w₀ (told w₀)) s.presence
              published := s.published ++ (s.notice w₀ (told w₀) (rooms w₀)).toList }
              w (told w) (rooms w)) = ws.filterMap fun w => s.notice w (told w) (rooms w) := by
          refine List.filterMap_congr fun w hw => ?_
          have hne : w ≠ w₀ := fun he => hnot (he ▸ hw)
          have hvalue : Sparse.value .offline w
              (Sparse.put .offline w₀ (s.derivePresence w₀ (told w₀)) s.presence) =
                s.announcedPresence w := by
            rw [Sparse.value_put, if_neg hne]
            rfl
          unfold notice
          rw [announcedPresence, hvalue]
          rfl
        have hfirst : s.announceAll told rooms (w₀ :: ws) =
            (s.announcePresence w₀ (told w₀) (rooms w₀)).announceAll told rooms ws := rfl
        rw [hfirst, hstep, hall, hnotices, List.append_assoc, filterMap_cons_toList]
      · rw [hvalue w]
        by_cases hw : w ∈ ws
        · rw [if_pos hw, if_pos (List.mem_cons_of_mem _ hw)]
          rfl
        · rw [if_neg hw, announcedPresence, Sparse.value_put]
          by_cases he : w = w₀
          · rw [if_pos he, if_pos (he ▸ List.mem_cons_self), he]
          · have hcons : w ∉ w₀ :: ws := fun h => (List.mem_cons.1 h).elim he hw
            rw [if_neg he, if_neg hcons]
            rfl

/-! ### Operations up to their announcements -/

/-- Whether an operation compares the status of a wallet without announcing it. -/
def examines (s : PresenceHub) : PresenceOp → WalletAddress → Bool
  | .noteActivity id, w => (s.hub.conn id).map ConnHandle.wallet = some w
  | .sweepPresence, _ => true
  | _, _ => false

/-- What an operation does before it announces: it publishes nothing, and a wallet that it does
    not announce is derived as before or is announced to be online already. -/
structure Performs (s s' : PresenceHub) (ws : List WalletAddress) (now : Int) : Prop where
  inv : s'.Inv
  presence : s'.presence = s.presence
  published : s'.published = s.published
  nodup : ws.Nodup
  others : ∀ w ∉ ws, ∀ t, now ≤ t →
    s'.derivePresence w t = s.derivePresence w t ∨ s.announcedPresence w = online

theorem performs_nothing (h : s'.Inv) (hpresence : s'.presence = s.presence)
    (hpublished : s'.published = s.published)
    (hsame : ∀ w t, s'.derivePresence w t = s.derivePresence w t) : Performs s s' [] now :=
  ⟨h, hpresence, hpublished, List.nodup_nil, fun w _ t _ => Or.inl (hsame w t)⟩

-- What an operation changes is derived for one wallet, which it announces.
theorem performs_one {w₀ : WalletAddress} (h : s'.Inv) (hpresence : s'.presence = s.presence)
    (hpublished : s'.published = s.published)
    (hsame : ∀ w, w ≠ w₀ → ∀ t, s'.derivePresence w t = s.derivePresence w t) :
    Performs s s' [w₀] now :=
  ⟨h, hpresence, hpublished, List.nodup_singleton _,
    fun w hw t _ => Or.inl (hsame w (fun he => hw (he ▸ List.mem_singleton_self w)) t)⟩

theorem inv_sign (h : s.Inv) (id : Nat) (v : Signs) : (s.sign id v).Inv :=
  ⟨h.indexed, h.below, h.proper, h.keyed, h.declared, h.alone⟩

-- The signs of a connection matter to its holder only.
theorem derivePresence_sign (h : s.Inv) {id : Nat} (v : Signs)
    (hother : ∀ c ∈ s.hub.conns, c.wallet = w → c.id ≠ id) :
    (s.sign id v).derivePresence w t = s.derivePresence w t := by
  refine derivePresence_congr h.indexed h.indexed (fun c _ => Iff.rfl) ?_ rfl
  intro c hc hwallet
  exact Function.update_of_ne (hother c hc hwallet) _ _

theorem derivePresence_sign_conn (h : s.Inv) {id : Nat} {c : ConnHandle} (v : Signs)
    (hc : s.hub.conn id = some c) (hw : w ≠ c.wallet) :
    (s.sign id v).derivePresence w t = s.derivePresence w t := by
  refine derivePresence_sign h v fun c' hc' hwallet hid => hw ?_
  rw [← hwallet, h.indexed.eq_of_id hc hc' hid]

-- The indexes know nothing of beacons.
theorem indexed_beacons {hub : Hub} (hi : hub.Indexed)
    (beacons : List (WalletAddress × PresenceStatus × Int)) :
    ({ hub with beacons := beacons } : Hub).Indexed :=
  ⟨hi.keyed, hi.total, hi.roomsTidy, hi.usersTidy, hi.rooms, hi.users⟩

theorem performs_connect (h : s.Inv) (wallet : WalletAddress) (view : ConnView) :
    Performs s (s.perform now (.connect wallet view)).1
      (s.perform now (.connect wallet view)).2 now := by
  rw [perform]
  by_cases hcap : ¬ s.hub.hasCapacity = true
  · rw [if_pos hcap]
    exact performs_nothing h rfl rfl fun _ _ => rfl
  rw [if_neg hcap]
  have hfresh : ∀ c ∈ s.hub.conns, c.id ≠ s.nextId := fun c hc => Nat.ne_of_lt (h.below c hc)
  cases hreg : s.hub.register ⟨s.nextId, wallet, view⟩ with
  | error e =>
      refine performs_nothing ⟨h.indexed, ?_, h.proper, h.keyed, h.declared, h.alone⟩ rfl rfl ?_
      · exact fun c hc => Nat.lt_succ_of_lt (h.below c hc)
      · exact fun w t => derivePresence_sign h _ fun c hc _ => hfresh c hc
  | ok hub =>
      have hnew : s.hub.conn s.nextId = none := Table.lookup_eq_none.2 hfresh
      have hindexed := Hub.indexed_register h.indexed hnew hreg
      have hhub := Hub.conns_register hnew hreg
      have hconns : ∀ c, c ∈ hub.conns ↔ c ∈ s.hub.conns ∨ c = ⟨s.nextId, wallet, view⟩ := by
        rw [hhub]
        exact fun c => List.mem_append.trans (or_congr_right List.mem_singleton)
      have hbeacons : hub.beacons = s.hub.beacons.filter fun b => b.1 ≠ wallet := by rw [hhub]
      refine performs_one ⟨hindexed, ?_, h.proper, ?_, ?_, ?_⟩ rfl rfl ?_
      · intro c hc
        rcases (hconns c).1 hc with hold | rfl
        · exact Nat.lt_succ_of_lt (h.below c hold)
        · exact Nat.lt_succ_self s.nextId
      · dsimp only
        rw [hbeacons]
        exact Table.keyed_filter _ h.keyed
      · intro b hb
        dsimp only at hb
        rw [hbeacons] at hb
        exact h.declared b (List.mem_of_mem_filter hb)
      · -- The beacon of the wallet is retired, and the others are of wallets that have not moved.
        intro b hb c hc
        dsimp only at hb
        rw [hbeacons] at hb
        rcases List.mem_filter.1 hb with ⟨hb, hne⟩
        rcases (hconns c).1 hc with hold | rfl
        · exact h.alone b hb c hold
        · exact Ne.symm (of_decide_eq_true hne)
      · intro w hw t
        refine derivePresence_congr h.indexed hindexed ?_ ?_ ?_
        · intro c hwallet
          refine (hconns c).trans ⟨fun hc => hc.resolve_right fun he => hw ?_, Or.inl⟩
          rw [← hwallet, he]
        · intro c hc _
          exact Function.update_of_ne (hfresh c hc) _ _
        · unfold fromBeacon
          dsimp only
          rw [hbeacons, Table.lookup_filter (fun k => decide (k ≠ wallet)),
            if_pos (decide_eq_true hw)]

theorem performs_disconnect (h : s.Inv) (id : Nat) :
    Performs s (s.perform now (.disconnect id)).1 (s.perform now (.disconnect id)).2 now := by
  rw [perform]
  cases hc : s.hub.conn id with
  | none => exact performs_nothing h rfl rfl fun _ _ => rfl
  | some c =>
      have hindexed := Hub.indexed_unregister h.indexed id
      have hmem : ∀ x, x ∈ (s.hub.unregister id).conns ↔ x ∈ s.hub.conns ∧ x.id ≠ id := by
        intro x
        rw [Hub.unregister, hc]
        exact Table.mem_erase
      have hbeacons : (s.hub.unregister id).beacons = s.hub.beacons := by rw [Hub.unregister, hc]
      refine performs_one ⟨hindexed, ?_, h.proper, ?_, ?_, ?_⟩ rfl rfl ?_
      · exact fun x hx => h.below x ((hmem x).1 hx).1
      · dsimp only
        rw [hbeacons]
        exact h.keyed
      · dsimp only
        rw [hbeacons]
        exact h.declared
      · dsimp only
        rw [hbeacons]
        exact fun b hb x hx => h.alone b hb x ((hmem x).1 hx).1
      · intro w hw t
        refine derivePresence_congr h.indexed hindexed ?_ (fun _ _ _ => rfl) ?_
        · intro x hwallet
          refine (hmem x).trans ⟨And.left, fun hx => ⟨hx, fun hid => hw ?_⟩⟩
          rw [← hwallet, h.indexed.eq_of_id hc hx hid]
        · unfold fromBeacon
          dsimp only
          rw [hbeacons]

theorem performs_declarePresence (h : s.Inv) (id : Nat) (status : PresenceStatus) :
    Performs s (s.perform now (.declarePresence id status)).1
      (s.perform now (.declarePresence id status)).2 now := by
  rw [perform]
  cases hc : s.hub.conn id with
  | none => exact performs_nothing h rfl rfl fun _ _ => rfl
  | some c =>
      dsimp only
      by_cases hdeclarable : status.isDeclarable = true
      · rw [if_pos hdeclarable]
        exact performs_one (inv_sign h id _) rfl rfl fun w hw t =>
          derivePresence_sign_conn h _ hc hw
      · rw [if_neg hdeclarable]
        exact performs_nothing h rfl rfl fun _ _ => rfl

-- Whoever is announced to be online is not announced again when they do something.
theorem performs_noteActivity (h : s.Inv) (id : Nat) :
    Performs s (s.perform now (.noteActivity id)).1 (s.perform now (.noteActivity id)).2 now := by
  rw [perform]
  cases hc : s.hub.conn id with
  | none => exact performs_nothing h rfl rfl fun _ _ => rfl
  | some c =>
      dsimp only
      have hsame : ∀ w, w ≠ c.wallet → ∀ t,
          (s.sign id ((s.signs id).markActive now)).derivePresence w t = s.derivePresence w t :=
        fun w hw t => derivePresence_sign_conn h _ hc hw
      by_cases honline : s.announcedPresence c.wallet = online
      · rw [if_neg (not_not.2 honline)]
        refine ⟨inv_sign h id _, rfl, rfl, List.nodup_nil, fun w _ t _ => ?_⟩
        by_cases hw : w = c.wallet
        · rw [hw]
          exact Or.inr honline
        · exact Or.inl (hsame w hw t)
      · rw [if_pos honline]
        exact performs_one (inv_sign h id _) rfl rfl hsame

-- A declaration for several connections changes their signs and nothing else.
theorem spec_declareAll (status : PresenceStatus) (now : Int) (ids : List Nat) :
    ∃ signs, s.declareAll status now ids = { s with signs := signs } ∧
      ∀ id ∉ ids, signs id = s.signs id := by
  induction ids generalizing s with
  | nil => exact ⟨s.signs, rfl, fun _ _ => rfl⟩
  | cons id ids ih =>
      have hcons : s.declareAll status now (id :: ids) =
          (if (s.hub.conn id).isSome then s.sign id ((s.signs id).declare status now)
            else s).declareAll status now ids := rfl
      rw [hcons]
      by_cases hconn : (s.hub.conn id).isSome = true
      · rw [if_pos hconn]
        rcases ih (s := s.sign id ((s.signs id).declare status now)) with ⟨signs, heq, hkeep⟩
        refine ⟨signs, heq, fun id' hid' => ?_⟩
        rcases not_or.1 (mt List.mem_cons.2 hid') with ⟨hne, hnot⟩
        rw [hkeep id' hnot]
        exact Function.update_of_ne hne _ _
      · rw [if_neg hconn]
        rcases ih (s := s) with ⟨signs, heq, hkeep⟩
        exact ⟨signs, heq, fun id' hid' => hkeep id' fun hm => hid' (List.mem_cons_of_mem _ hm)⟩

theorem performs_beacon (h : s.Inv) (wallet : WalletAddress) (status : PresenceStatus) :
    Performs s (s.perform now (.beacon wallet status)).1
      (s.perform now (.beacon wallet status)).2 now := by
  rw [perform]
  by_cases hdeclarable : ¬ status.isDeclarable = true
  · rw [if_pos hdeclarable]
    exact performs_nothing h rfl rfl fun _ _ => rfl
  rw [if_neg hdeclarable]
  by_cases hempty : s.hub.byUser.bucket wallet = []
  · -- Nothing else speaks for this wallet, so the beacon does.
    rw [if_pos hempty]
    have hnobody : ∀ c ∈ s.hub.conns, c.wallet ≠ wallet := by
      intro c hc hwallet
      have hid := (h.indexed.users wallet c.id).2 ⟨c, hc, rfl, hwallet⟩
      rw [hempty] at hid
      exact List.not_mem_nil hid
    have hindexed := indexed_beacons h.indexed
      (Table.upsert Prod.fst (wallet, status, now) s.hub.beacons)
    refine performs_one ⟨hindexed, h.below, h.proper, Table.keyed_upsert _ h.keyed, ?_, ?_⟩
      rfl rfl ?_
    · intro b hb hoffline
      rcases Table.mem_of_mem_upsert hb with rfl | hold
      · exact hdeclarable fun hd => by rw [show status = .offline from hoffline] at hd; cases hd
      · exact h.declared b hold hoffline
    · intro b hb c hc
      rcases Table.mem_of_mem_upsert hb with rfl | hold
      · exact hnobody c hc
      · exact h.alone b hold c hc
    · intro w hw t
      refine derivePresence_congr h.indexed hindexed (fun _ _ => Iff.rfl) (fun _ _ _ => rfl) ?_
      unfold fromBeacon
      dsimp only
      rw [Table.lookup_upsert, if_neg hw]
  · -- The connections speak, and an earlier beacon is dropped.
    rw [if_neg hempty]
    rcases spec_declareAll (s := s) status now (s.hub.byUser.bucket wallet) with
      ⟨signs, hdeclared, hkeep⟩
    dsimp only
    rw [hdeclared]
    have hindexed := indexed_beacons h.indexed (Table.erase Prod.fst wallet s.hub.beacons)
    refine performs_one ⟨hindexed, h.below, h.proper, Table.keyed_erase _ h.keyed, ?_, ?_⟩
      rfl rfl ?_
    · exact fun b hb => h.declared b (Table.mem_erase.1 hb).1
    · exact fun b hb => h.alone b (Table.mem_erase.1 hb).1
    · intro w hw t
      refine derivePresence_congr h.indexed hindexed (fun _ _ => Iff.rfl) ?_ ?_
      · intro c hc hwallet
        refine hkeep c.id fun hid => hw ?_
        rcases (h.indexed.users wallet c.id).1 hid with ⟨c', hc', hid', hwallet'⟩
        have hfind : s.hub.conn c.id = some c := Table.lookup_of_mem h.indexed.keyed hc
        rw [← hwallet, ← h.indexed.eq_of_id hfind hc' hid', hwallet']
      · unfold fromBeacon
        dsimp only
        rw [Table.lookup_erase, if_neg hw]

-- Beacons that are swept away do not count any more, now or later.
theorem fromBeacon_sweep (h : s.Inv) (ht : now ≤ t) :
    (s.perform now .sweepPresence).1.fromBeacon w t = s.fromBeacon w t := by
  unfold perform fromBeacon
  dsimp only
  rw [Table.lookup_filter_of_keyed h.keyed]
  cases Table.lookup Prod.fst w s.hub.beacons with
  | none => rfl
  | some b =>
      rw [Option.filter_some, Option.filter_some]
      by_cases hfresh : now - b.2.2 < beaconTtlMs
      · rw [if_pos (decide_eq_true hfresh), Option.filter_some]
      · have hgone : ¬ t - b.2.2 < beaconTtlMs := by omega
        rw [if_neg (by simpa using hfresh), if_neg (by simpa using hgone)]
        rfl

theorem derivePresence_sweep (h : s.Inv) (ht : now ≤ t) :
    (s.perform now .sweepPresence).1.derivePresence w t = s.derivePresence w t := by
  have hindexed := indexed_beacons h.indexed
    (s.hub.beacons.filter fun b => now - b.2.2 < beaconTtlMs)
  exact derivePresence_congr h.indexed hindexed (fun _ _ => Iff.rfl) (fun _ _ _ => rfl)
    (fromBeacon_sweep h ht)

theorem performs_sweepPresence (h : s.Inv) :
    Performs s (s.perform now .sweepPresence).1 (s.perform now .sweepPresence).2 now := by
  refine ⟨⟨?_, h.below, h.proper, Table.keyed_filter _ h.keyed, ?_, ?_⟩, rfl, rfl, ?_, ?_⟩
  · exact indexed_beacons h.indexed _
  · exact fun b hb => h.declared b (List.mem_of_mem_filter hb)
  · exact fun b hb => h.alone b (List.mem_of_mem_filter hb)
  · exact Table.keyed_filter _ h.proper.keyed
  · exact fun w _ t ht => Or.inl (derivePresence_sweep h ht)

/-- What every operation does before it announces. -/
theorem performs_perform (h : s.Inv) (now : Int) (op : PresenceOp) :
    Performs s (s.perform now op).1 (s.perform now op).2 now := by
  cases op with
  | connect wallet view => exact performs_connect h wallet view
  | disconnect id => exact performs_disconnect h id
  | declarePresence id status => exact performs_declarePresence h id status
  | noteActivity id => exact performs_noteActivity h id
  | beacon wallet status => exact performs_beacon h wallet status
  | sweepPresence => exact performs_sweepPresence h

-- Whoever has just done something is online, as is announced.
theorem settled_noteActivity (h : s.Inv) (id : Nat) (hw : w ∉ (s.perform now (.noteActivity id)).2)
    (hex : s.examines (.noteActivity id) w = true) :
    (s.perform now (.noteActivity id)).1.derivePresence w now = s.announcedPresence w := by
  rw [perform] at hw ⊢
  cases hc : s.hub.conn id with
  | none =>
      rw [examines, hc] at hex
      cases of_decide_eq_true hex
  | some c =>
      rw [examines, hc] at hex
      have hwallet : c.wallet = w := Option.some.inj (of_decide_eq_true hex)
      rw [hc] at hw
      dsimp only at hw ⊢
      have honline : s.announcedPresence c.wallet = online := by
        by_contra hother
        rw [if_pos hother] at hw
        exact hw (hwallet ▸ List.mem_singleton_self _)
      rw [← hwallet, honline]
      refine le_antisymm (le_online _) ?_
      have hconns := ((derivePresence_le_iff (s := s.sign id ((s.signs id).markActive now))
        h.indexed).1 (le_refl (derivePresence _ c.wallet now))).1 c (Table.mem_of_lookup hc) rfl
      have hsigns : (s.sign id ((s.signs id).markActive now)).signs c.id =
          (s.signs id).markActive now := by
        rw [Table.key_of_lookup hc]
        exact Function.update_self _ _ _
      rw [hsigns, presence_markActive] at hconns
      exact hconns

-- A sweep looks at the wallets that are announced to be there. The others have nothing left that
-- could be derived.
theorem settled_sweepPresence (h : s.Inv) (hceiling : s.Ceiling now)
    (hw : w ∉ (s.perform now .sweepPresence).2) :
    (s.perform now .sweepPresence).1.derivePresence w now = s.announcedPresence w := by
  by_cases hoffline : s.announcedPresence w = .offline
  · have hle := hceiling w
    rw [derivePresence_sweep h le_rfl, hoffline]
    rw [hoffline] at hle
    exact le_bot_iff.1 hle
  · by_contra hmoved
    refine hw (List.mem_map.2 ⟨(w, s.announcedPresence w), List.mem_filter.2 ⟨?_, ?_⟩, rfl⟩)
    · exact (Sparse.mem_iff h.proper).2 ⟨rfl, hoffline⟩
    · exact decide_eq_true hmoved

/-- A wallet that is compared and not announced has been announced as it is. -/
theorem settled_perform (h : s.Inv) (hceiling : s.Ceiling now) {op : PresenceOp}
    (hw : w ∉ (s.perform now op).2) (hex : s.examines op w = true) :
    (s.perform now op).1.derivePresence w now = s.announcedPresence w := by
  cases op with
  | connect wallet view => cases hex
  | disconnect id => cases hex
  | declarePresence id status => cases hex
  | noteActivity id => exact settled_noteActivity h id hw hex
  | beacon wallet status => cases hex
  | sweepPresence => exact settled_sweepPresence h hceiling hw

theorem inv_start : start.Inv where
  indexed := Hub.indexed_empty
  below := fun _ h => absurd h List.not_mem_nil
  proper := Sparse.proper_nil
  keyed := Table.keyed_nil
  declared := fun _ h => absurd h List.not_mem_nil
  alone := fun _ h => absurd h List.not_mem_nil

theorem ceiling_start (t : Int) : start.Ceiling t := by
  intro w
  have hgone : start.Gone w t :=
    ⟨fun _ hc => absurd hc List.not_mem_nil, fun _ hb => absurd hb List.not_mem_nil⟩
  rw [(derivePresence_eq_offline inv_start).2 hgone]
  exact bot_le

end PresenceHub

/-! ### Turns -/

namespace PresenceTurn

variable {s : PresenceHub} {turn : PresenceTurn}

/-- When a turn derives the status of a wallet to compare it with the one that is announced. -/
def reading (s : PresenceHub) (turn : PresenceTurn) (w : WalletAddress) : Option Int :=
  if w ∈ (s.perform turn.now turn.op).2 then some (turn.told w)
  else if s.examines turn.op w then some turn.now
  else none

/-- What holds behind a turn. Of the wallets it compares, the announced status is the one that was
    derived, and it is offline for those that are gone. Of all others the announced status is as
    before, and no wallet is more present than announced, now or later. What is offline has no
    row, a beacon is of a wallet without connections, and published is each status that has
    changed, once, if somebody is there to be told. -/
structure Consistent (s : PresenceHub) (turn : PresenceTurn) : Prop where
  derived : ∀ w t, turn.reading s w = some t →
    (turn.step s).announcedPresence w = (turn.step s).derivePresence w t
  offline : ∀ w t, turn.reading s w = some t →
    ((turn.step s).announcedPresence w = .offline ↔ (turn.step s).Gone w t)
  others : ∀ w, turn.reading s w = none →
    (turn.step s).announcedPresence w = s.announcedPresence w
  ceiling : ∀ t, (∀ w, turn.told w ≤ t) → (turn.step s).Ceiling t
  rows : ∀ e ∈ (turn.step s).presence, e.2 ≠ .offline
  beacons : ∀ b ∈ (turn.step s).hub.beacons, ∀ c ∈ (turn.step s).hub.conns, c.wallet ≠ b.1
  published : ∃ new, (turn.step s).published = s.published ++ new ∧ new.Nodup ∧
    ∀ e, e ∈ new ↔ ∃ w roomIds, turn.rooms w = some roomIds ∧ roomIds ≠ [] ∧
      (turn.step s).announcedPresence w ≠ s.announcedPresence w ∧
      e = (.rooms roomIds, some w, .presence w ((turn.step s).announcedPresence w))

/-- A turn is an operation, and then what is announced of the wallets it names. -/
theorem spec_step (h : s.Inv) (turn : PresenceTurn) :
    (turn.step s).Inv ∧
      (∀ w t, (turn.step s).derivePresence w t =
        (s.perform turn.now turn.op).1.derivePresence w t) ∧
      (∀ w, (turn.step s).announcedPresence w =
        if w ∈ (s.perform turn.now turn.op).2 then
          (s.perform turn.now turn.op).1.derivePresence w (turn.told w)
        else s.announcedPresence w) ∧
      (turn.step s).published = s.published ++ (s.perform turn.now turn.op).2.filterMap fun w =>
        (s.perform turn.now turn.op).1.notice w (turn.told w) (turn.rooms w) := by
  have hp := PresenceHub.performs_perform h turn.now turn.op
  rcases PresenceHub.spec_announceAll turn.told turn.rooms hp.nodup hp.inv.proper with ⟨presence, hall, hproper, hvalue⟩
  have hstep : turn.step s = (s.perform turn.now turn.op).1.announceAll turn.told turn.rooms
    (s.perform turn.now turn.op).2 := rfl
  rw [hstep, hall]
  refine ⟨⟨hp.inv.indexed, hp.inv.below, hproper, hp.inv.keyed, hp.inv.declared, hp.inv.alone⟩,
    fun w t => rfl, fun w => ?_, ?_⟩
  · refine (hvalue w).trans ?_
    rw [PresenceHub.announcedPresence, hp.presence]
    rfl
  · rw [hp.published]

-- A status that was announced is at least what is derived from then on.
theorem ceiling_step (h : s.Inv) (hceiling : ∀ t, turn.now ≤ t → s.Ceiling t)
    (hafter : ∀ w, turn.now ≤ turn.told w) {t : Int} (ht : ∀ w, turn.told w ≤ t) :
    (turn.step s).Ceiling t := by
  intro w
  have hnow : turn.now ≤ t := (hafter w).trans (ht w)
  have hp := PresenceHub.performs_perform h turn.now turn.op
  rcases spec_step h turn with ⟨-, hderive, hannounced, -⟩
  rw [hderive, hannounced]
  by_cases hw : w ∈ (s.perform turn.now turn.op).2
  · rw [if_pos hw]
    exact PresenceHub.derivePresence_antitone hp.inv.indexed (ht w)
  · rw [if_neg hw]
    rcases hp.others w hw t hnow with hsame | honline
    · rw [hsame]
      exact hceiling t hnow w
    · rw [honline]
      exact PresenceStatus.le_online _

theorem derived_step (h : s.Inv) (hceiling : s.Ceiling turn.now) (w : WalletAddress) (t : Int)
    (hreading : turn.reading s w = some t) :
    (turn.step s).announcedPresence w = (turn.step s).derivePresence w t := by
  rcases spec_step h turn with ⟨-, hderive, hannounced, -⟩
  rw [hderive, hannounced]
  unfold reading at hreading
  by_cases hw : w ∈ (s.perform turn.now turn.op).2
  · rw [if_pos hw] at hreading ⊢
    rw [Option.some.inj hreading]
  · rw [if_neg hw] at hreading ⊢
    by_cases hex : s.examines turn.op w = true
    · rw [if_pos hex] at hreading
      rw [← Option.some.inj hreading]
      exact (PresenceHub.settled_perform h hceiling hw hex).symm
    · rw [if_neg hex] at hreading
      cases hreading

-- An event tells whom it is about, so no two announcements of a turn publish the same one.
theorem notice_injective {told : WalletAddress → Int}
    {rooms : WalletAddress → Option (List RoomId)} {w w' : WalletAddress}
    {e : Target × Option WalletAddress × ServerEvent}
    (he : s.notice w (told w) (rooms w) = some e)
    (he' : s.notice w' (told w') (rooms w') = some e) : w = w' := by
  have horigin : ∀ v, s.notice v (told v) (rooms v) = some e → e.2.1 = some v := by
    intro v hv
    unfold PresenceHub.notice at hv
    split at hv
    · cases hv
    · rcases Option.map_eq_some_iff.1 hv with ⟨roomIds, -, rfl⟩
      rfl
  exact Option.some.inj ((horigin w he).symm.trans (horigin w' he'))

/-- What holds behind one turn. -/
theorem consistent_step (h : s.Inv) (hceiling : ∀ t, turn.now ≤ t → s.Ceiling t)
    (hafter : ∀ w, turn.now ≤ turn.told w) : Consistent s turn := by
  have hp := PresenceHub.performs_perform h turn.now turn.op
  rcases spec_step h turn with ⟨hinv, hderive, hannounced, hpublished⟩
  have hderived := derived_step h (hceiling turn.now le_rfl)
  refine ⟨hderived, ?_, ?_, fun t => ceiling_step h hceiling hafter, hinv.proper.uncommon,
    hinv.alone, _, hpublished, ?_, ?_⟩
  · intro w t hreading
    rw [hderived w t hreading]
    exact PresenceHub.derivePresence_eq_offline hinv
  · intro w hreading
    rw [hannounced]
    refine if_neg fun hw => ?_
    rw [reading, if_pos hw] at hreading
    cases hreading
  · exact hp.nodup.filterMap fun w w' e he he' => notice_injective he he'
  · intro e
    have hbefore : ∀ w, (s.perform turn.now turn.op).1.announcedPresence w =
        s.announcedPresence w := by
      intro w
      rw [PresenceHub.announcedPresence, hp.presence]
      rfl
    rw [List.mem_filterMap]
    constructor
    · rintro ⟨w, hw, hnotice⟩
      have hvalue := hannounced w
      rw [if_pos hw] at hvalue
      rw [PresenceHub.notice, hbefore, ← hvalue] at hnotice
      split at hnotice
      · cases hnotice
      next hne =>
        rcases Option.map_eq_some_iff.1 hnotice with ⟨roomIds, hrooms, rfl⟩
        rcases Option.filter_eq_some_iff.1 hrooms with ⟨hrooms, hsome⟩
        exact ⟨w, roomIds, hrooms, of_decide_eq_true hsome, Ne.symm hne, rfl⟩
    · rintro ⟨w, roomIds, hrooms, hsome, hchanged, rfl⟩
      have hw : w ∈ (s.perform turn.now turn.op).2 := by
        by_contra hw
        have hvalue := hannounced w
        rw [if_neg hw] at hvalue
        exact hchanged hvalue
      refine ⟨w, hw, ?_⟩
      have hvalue := hannounced w
      rw [if_pos hw] at hvalue
      rw [PresenceHub.notice, hbefore, ← hvalue, if_neg (Ne.symm hchanged), hrooms,
        Option.filter_some, if_pos (decide_eq_true hsome)]
      rfl

end PresenceTurn

/-! ### Runs -/

namespace PresenceHub

/-- The hub behind a run. -/
def after (turns : List PresenceTurn) : PresenceHub :=
  Run.run (fun s turn => turn.step s) start turns

/-- The clock does not go back: an announcement comes after its operation, and the next operation
    after that. -/
def Timely (turns : List PresenceTurn) : Prop :=
  (∀ turn ∈ turns, ∀ w, turn.now ≤ turn.told w) ∧
    turns.Pairwise fun turn later => ∀ w, turn.told w ≤ later.now

theorem after_concat (turns : List PresenceTurn) (turn : PresenceTurn) :
    after (turns ++ [turn]) = turn.step (after turns) := by
  rw [after, after, Run.run_append, Run.run_cons, Run.run_nil]

theorem inv_after (turns : List PresenceTurn) : (after turns).Inv := by
  induction turns using List.reverseRecOn with
  | nil => exact inv_start
  | append_singleton turns turn ih =>
      rw [after_concat]
      exact (PresenceTurn.spec_step ih turn).1

theorem timely_concat {turns : List PresenceTurn} {turn : PresenceTurn}
    (h : Timely (turns ++ [turn])) : Timely turns ∧ (∀ w, turn.now ≤ turn.told w) ∧
      ∀ earlier ∈ turns, ∀ w, earlier.told w ≤ turn.now := by
  rcases h with ⟨hafter, hpairs⟩
  rcases List.pairwise_append.1 hpairs with ⟨hturns, -, hlast⟩
  exact ⟨⟨fun e he => hafter e (List.mem_append_left _ he), hturns⟩,
    hafter turn (List.mem_append_right _ (List.mem_singleton_self turn)),
    fun e he => hlast e he turn (List.mem_singleton_self turn)⟩

/-- Behind a run what is announced is at least what is derived from then on. -/
theorem ceiling_after (turns : List PresenceTurn) (htimely : Timely turns) {t : Int}
    (ht : ∀ turn ∈ turns, ∀ w, turn.told w ≤ t) : (after turns).Ceiling t := by
  induction turns using List.reverseRecOn generalizing t with
  | nil => exact ceiling_start t
  | append_singleton turns turn ih =>
      rcases timely_concat htimely with ⟨hturns, hown, hearlier⟩
      rw [after_concat]
      refine PresenceTurn.ceiling_step (inv_after turns) ?_ hown
        (ht turn (List.mem_append_right _ (List.mem_singleton_self turn)))
      exact fun t' ht' => ih hturns fun e he w => (hearlier e he w).trans ht'

/-- A turn whose announcements all read the clock once, and find one room. -/
def turnAt (op : PresenceOp) (now told : Int) : PresenceTurn :=
  ⟨op, now, fun _ => told, fun _ => some [Sample.team]⟩

/-- Two connections of one wallet and a beacon of another one, before a sweep. -/
def someTurns : List PresenceTurn :=
  [turnAt (.connect Sample.alice ⟨[Sample.team], []⟩) 1000 1010,
    turnAt (.beacon Sample.bob .online) 2000 2001,
    turnAt (.connect Sample.alice ⟨[Sample.team], []⟩) 30000 30001,
    turnAt (.declarePresence 1 .away) 200000 200001]

-- The sweep finds the beacon expired, and one of the two connections idle.
example : ((turnAt .sweepPresence 320000 320002).step (after someTurns)).published =
    (after someTurns).published ++
      [(Target.rooms [Sample.team], some Sample.bob, .presence Sample.bob .offline)] := by
  decide +kernel

end PresenceHub

end PocketSkynet
