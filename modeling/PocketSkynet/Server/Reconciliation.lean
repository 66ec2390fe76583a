import PocketSkynet.Server.Provision
import PocketSkynet.Server.StaticRooms

/-!
# A Provisioning Pass Reconciles

The transactions of a pass are about different rooms, so that what one of them has settled the
others leave alone. What has been done to the tables is told room by room: who is a member
now, who moved, what was kept of those who stay, and where a new key is owed. Where all rooms
are settled a transaction finds nothing to do, so that a second pass only writes the profile
of the agent again.

## Main definitions

* `Promise`: A room, whose it is, and who its members should be.
* `Reconciled`: What transactions for some rooms have done.

## Theorems

* `Reconciled.cons`: Rooms are reconciled one after the other.
* `reconcileRoom_settled`: A settled room is left as it is.
* `provision_reconciles`: A pass, and a second one after it.
-/

namespace PocketSkynet

namespace Rosters

variable {low : Lowering}

namespace StaticTables

/-! ### Several transactions -/

/-- A room, whose it is, and who its members should be. -/
structure Promise where
  id : RoomId
  owner : String
  roster : List String

/-- What transactions for some rooms have done to the tables, and who has moved. -/
structure Reconciled (ps : List Promise) (t t' : StaticTables) (moved : List String) : Prop where
  settled : ∀ p ∈ ps, Settled t' p.id p.owner p.roster
  moved : ∀ a, a ∈ moved ↔ ∃ p ∈ ps, t'.isMember p.id a ≠ t.isMember p.id a
  pending : ∀ id, t'.isPending id = true ↔ t.isPending id = true ∨ ∃ p ∈ ps,
    id = p.id ∧ t.hasEncryption id = true ∧ ∃ a, t'.isMember id a ≠ t.isMember id a
  elsewhere : ∀ id, (∀ p ∈ ps, id ≠ p.id) → ∀ a, t'.isMember id a = t.isMember id a
  readsOf : ∀ id a, (t'.isMember id a = true ∨ ∀ p ∈ ps, id ≠ p.id) →
    t'.readsOf id a = t.readsOf id a
  hiddenOf : ∀ id a, (t'.isMember id a = true ∨ ∀ p ∈ ps, id ≠ p.id) →
    t'.hiddenOf id a = t.hiddenOf id a
  rooms : ∀ id, (∃ r ∈ t.rooms, r.id = id) → ∃ r ∈ t'.rooms, r.id = id
  serials : ∀ r ∈ t.serials, r ∈ t'.serials
  admins : ∀ r ∈ t.admins, r ∈ t'.admins
  reads : ∀ r ∈ t'.reads, r ∈ t.reads
  hidden : ∀ h ∈ t'.hidden, h ∈ t.hidden
  wraps : t'.wraps = t.wraps
  users : t'.users = t.users

/-- One transaction reconciles its room. -/
theorem reconciled_reconcileRoom (t : StaticTables) (p : Promise) (kind : RoomKind) (now : Nat)
    (hroster : p.roster.Nodup) :
    Reconciled [p] t (t.reconcileRoom p.id kind p.owner p.roster now).1
      (t.reconcileRoom p.id kind p.owner p.roster now).2 := by
  rw [reconcileRoom_eq t p.id kind p.owner now hroster]
  generalize hs : settle p.id kind p.owner p.roster now t = s
  have hmember : ∀ i a, (s.flagMoved p.id (t.movers p.id p.roster)).isMember i a = true ↔
      if i = p.id then a ∈ p.roster else t.isMember i a = true := by
    intro i a
    rw [← isMember_settle t p.id kind p.owner p.roster now, hs]
    simp only [isMember, flagMoved_members]
  have hroom : ∃ r ∈ s.rooms, r.id = p.id := by
    rw [← hs]
    exact Table.exists_insertNew RoomRow.id _ t.rooms
  have hchanged : ∀ a, a ∈ t.movers p.id p.roster ↔
      (s.flagMoved p.id (t.movers p.id p.roster)).isMember p.id a ≠ t.isMember p.id a := by
    intro a
    have hiff := hmember p.id a
    rw [if_pos rfl] at hiff
    rw [mem_movers, ← hiff]
    exact not_congr ⟨fun h => (Bool.eq_iff_iff.2 h).symm, fun h => by rw [h]⟩
  have hinside : ∀ i a, ((s.flagMoved p.id (t.movers p.id p.roster)).isMember i a = true ∨
      ∀ q ∈ [p], i ≠ q.id) → i = p.id → a ∈ p.roster := by
    rintro i a (h | h) hid
    · rw [hmember, if_pos hid] at h
      exact h
    · exact absurd hid (h p (List.mem_singleton_self p))
  constructor
  case settled =>
    intro q hq
    rw [List.mem_singleton.1 hq]
    constructor
    case room => exact (exists_flagMoved s p.id _).2 hroom
    case serial =>
      rw [flagMoved_serials, ← hs]
      exact Table.exists_insertNew SerialRow.roomId _ t.serials
    case admin =>
      rw [flagMoved_admins, ← hs]
      exact Table.exists_insertNew (fun r : AdminRow => (r.roomId, r.walletAddress)) _ t.admins
    case members =>
      intro a
      rw [hmember, if_pos rfl]
    case reads =>
      intro r hr hid
      rw [flagMoved_reads, ← hs] at hr
      have hkeep := of_decide_eq_true (List.mem_filter.1 hr).2
      exact not_not.1 fun hout => hkeep ⟨hid, hout⟩
    case hidden =>
      intro h hh hid
      rw [flagMoved_hidden, ← hs] at hh
      have hkeep := of_decide_eq_true (List.mem_filter.1 hh).2
      exact not_not.1 fun hout => hkeep ⟨hid, hout⟩
  case moved =>
    intro a
    rw [hchanged]
    simp
  case pending =>
    intro id
    have hkeyed : s.hasEncryption p.id = t.hasEncryption p.id := by
      rw [← hs]
      rfl
    have hold : s.isPending id = true ↔ t.isPending id = true := by
      rw [← hs]
      exact isPending_insertRoom t p.id kind now
    rw [isPending_flagMoved s p.id _ hroom, hold, hkeyed]
    simp only [hchanged, List.mem_singleton, exists_eq_left]
    refine or_congr_right (and_congr_right fun hid => ?_)
    rw [hid]
  case elsewhere =>
    intro id hid a
    rw [Bool.eq_iff_iff, hmember, if_neg (hid p (List.mem_singleton_self p))]
  case readsOf =>
    intro id a h
    rw [← readsOf_settle t p.id kind p.owner p.roster now (hinside id a h), hs]
    simp only [StaticTables.readsOf, flagMoved_reads]
  case hiddenOf =>
    intro id a h
    rw [← hiddenOf_settle t p.id kind p.owner p.roster now (hinside id a h), hs]
    simp only [StaticTables.hiddenOf, flagMoved_hidden]
  case rooms =>
    rintro id ⟨r, hr, hid⟩
    rw [exists_flagMoved, ← hs]
    exact ⟨r, Table.mem_insertNew_of_mem hr, hid⟩
  case serials =>
    intro r hr
    rw [flagMoved_serials, ← hs]
    exact Table.mem_insertNew_of_mem hr
  case admins =>
    intro r hr
    rw [flagMoved_admins, ← hs]
    exact Table.mem_insertNew_of_mem hr
  case reads =>
    intro r hr
    rw [flagMoved_reads, ← hs] at hr
    exact (List.mem_filter.1 hr).1
  case hidden =>
    intro h hh
    rw [flagMoved_hidden, ← hs] at hh
    exact (List.mem_filter.1 hh).1
  case wraps =>
    rw [flagMoved_wraps, ← hs]
    rfl
  case users =>
    rw [flagMoved_users, ← hs]
    rfl

theorem reconciled_nil (t : StaticTables) : Reconciled [] t t [] where
  settled := fun _ hp => absurd hp List.not_mem_nil
  moved := fun _ => by simp
  pending := fun _ => by simp
  elsewhere := fun _ _ _ => rfl
  readsOf := fun _ _ _ => rfl
  hiddenOf := fun _ _ _ => rfl
  rooms := fun _ h => h
  serials := fun _ h => h
  admins := fun _ h => h
  reads := fun _ h => h
  hidden := fun _ h => h
  wraps := rfl
  users := rfl

-- What is settled stays settled while other rooms are reconciled.
theorem Reconciled.keeps {ps : List Promise} {t t' : StaticTables} {moved : List String}
    (h : Reconciled ps t t' moved) {id : RoomId} {owner : String} {roster : List String}
    (hid : ∀ p ∈ ps, id ≠ p.id) (hsettled : Settled t id owner roster) :
    Settled t' id owner roster := by
  rcases hsettled.serial with ⟨serial, hserial, hroom⟩
  rcases hsettled.admin with ⟨admin, hadmin, hkey⟩
  constructor
  case room => exact h.rooms id hsettled.room
  case serial => exact ⟨serial, h.serials serial hserial, hroom⟩
  case admin => exact ⟨admin, h.admins admin hadmin, hkey⟩
  case members =>
    intro a
    rw [h.elsewhere id hid]
    exact hsettled.members a
  case reads => exact fun r hr => hsettled.reads r (h.reads r hr)
  case hidden => exact fun r hr => hsettled.hidden r (h.hidden r hr)

/-- Rooms are reconciled one after the other. -/
theorem Reconciled.cons {p : Promise} {ps : List Promise} {t t' t'' : StaticTables}
    {moved moved' : List String} (h : Reconciled [p] t t' moved)
    (h' : Reconciled ps t' t'' moved') (hp : ∀ q ∈ ps, p.id ≠ q.id) :
    Reconciled (p :: ps) t t'' (moved ++ moved') := by
  -- The first room is as its own transaction left it, the others are as they were before it.
  have hfirst : ∀ a, t''.isMember p.id a = t'.isMember p.id a := h'.elsewhere p.id hp
  have hothers : ∀ q ∈ ps, ∀ a, t'.isMember q.id a = t.isMember q.id a := fun q hq =>
    h.elsewhere q.id fun q' hq' => by
      rw [List.mem_singleton.1 hq']
      exact (hp q hq).symm
  have hbetween : ∀ id a, (t''.isMember id a = true ∨ ∀ q ∈ p :: ps, id ≠ q.id) →
      (t''.isMember id a = true ∨ ∀ q ∈ ps, id ≠ q.id) ∧
        (t'.isMember id a = true ∨ ∀ q ∈ [p], id ≠ q.id) := by
    intro id a hin
    by_cases hid : id = p.id
    · subst hid
      rcases hin with hin | hin
      · exact ⟨Or.inl hin, Or.inl ((hfirst a).symm.trans hin)⟩
      · exact absurd rfl (hin p List.mem_cons_self)
    · refine ⟨hin.imp_right fun hall q hq => hall q (List.mem_cons_of_mem p hq), Or.inr ?_⟩
      intro q hq
      rw [List.mem_singleton.1 hq]
      exact hid
  constructor
  case settled =>
    intro q hq
    rcases List.mem_cons.1 hq with rfl | hq
    · exact h'.keeps hp (h.settled q (List.mem_singleton_self q))
    · exact h'.settled q hq
  case moved =>
    intro a
    rw [List.mem_append, h.moved, h'.moved]
    simp only [List.exists_mem_cons_iff, List.not_mem_nil, false_and, exists_false, or_false,
      hfirst]
    refine or_congr_right (exists_congr fun q => and_congr_right fun hq => ?_)
    rw [hothers q hq]
  case pending =>
    intro id
    have hkeyed : ∀ i, t'.hasEncryption i = t.hasEncryption i := fun i => by
      rw [hasEncryption, hasEncryption, h.wraps]
    rw [h'.pending, h.pending, or_assoc]
    simp only [List.exists_mem_cons_iff, List.not_mem_nil, false_and, exists_false, or_false,
      hkeyed]
    refine or_congr_right (or_congr (and_congr_right fun hid => ?_)
      (exists_congr fun q => and_congr_right fun hq => and_congr_right fun hid => ?_))
    · rw [hid]
      simp only [hfirst]
    · rw [hid]
      simp only [hothers q hq]
  case elsewhere =>
    intro id hid a
    rw [h'.elsewhere id (fun q hq => hid q (List.mem_cons_of_mem p hq)),
      h.elsewhere id fun q hq => List.mem_singleton.1 hq ▸ hid p List.mem_cons_self]
  case readsOf =>
    intro id a hin
    rw [h'.readsOf id a (hbetween id a hin).1, h.readsOf id a (hbetween id a hin).2]
  case hiddenOf =>
    intro id a hin
    rw [h'.hiddenOf id a (hbetween id a hin).1, h.hiddenOf id a (hbetween id a hin).2]
  case rooms => exact fun id hroom => h'.rooms id (h.rooms id hroom)
  case serials => exact fun r hr => h'.serials r (h.serials r hr)
  case admins => exact fun r hr => h'.admins r (h.admins r hr)
  case reads => exact fun r hr => h.reads r (h'.reads r hr)
  case hidden => exact fun r hr => h.hidden r (h'.hidden r hr)
  case wraps => exact h'.wraps.trans h.wraps
  case users => exact h'.users.trans h.users

/-- A room that is settled is left as it is, and nobody moves. -/
theorem reconcileRoom_settled {t : StaticTables} {id : RoomId} {owner : String}
    {roster : List String} (h : Settled t id owner roster) (hroster : roster.Nodup)
    (kind : RoomKind) (now : Nat) : t.reconcileRoom id kind owner roster now = (t, []) := by
  have hmissing : t.missing id roster = [] := by
    refine List.filter_eq_nil_iff.2 fun a ha => ?_
    rw [(h.members a).2 ha]
    exact Bool.false_ne_true
  have hin : ∀ m ∈ t.members, m.roomId = id → m.userAddress ∈ roster := fun m hm hid =>
    (h.members _).1 (isMember_iff.2 ⟨m, hm, hid, rfl⟩)
  have hstrangers : t.strangers id roster = [] := by
    have hnone : (t.members.filter fun m => m.roomId = id ∧ m.userAddress ∉ roster) = [] := by
      refine List.filter_eq_nil_iff.2 fun m hm hout => ?_
      have hrow := of_decide_eq_true hout
      exact hrow.2 (hin m hm hrow.1)
    rw [strangers, hnone, List.map_nil]
  have hmovers : t.movers id roster = [] := by rw [movers, hmissing, hstrangers, List.nil_append]
  have hrows : t.ensureRows id kind owner now = t := by
    rw [ensureRows, insertRoom, Table.insertNew_of_exists h.room, insertSerial,
      Table.insertNew_of_exists h.serial, insertAdmin, Table.insertNew_of_exists h.admin]
  have hdrop : t.dropStrangers id roster = t := by
    have hmembers : t.members.filter (fun m => ¬ (m.roomId = id ∧ m.userAddress ∉ roster)) =
        t.members :=
      List.filter_eq_self.2 fun m hm => decide_eq_true fun hout => hout.2 (hin m hm hout.1)
    have hreads : t.reads.filter (fun r => ¬ (r.roomId = id ∧ r.userAddress ∉ roster)) =
        t.reads :=
      List.filter_eq_self.2 fun r hr => decide_eq_true fun hout => hout.2 (h.reads r hr hout.1)
    have hhidden : t.hidden.filter (fun r => ¬ (r.roomId = id ∧ r.userAddress ∉ roster)) =
        t.hidden :=
      List.filter_eq_self.2 fun r hr => decide_eq_true fun hout => hout.2 (h.hidden r hr hout.1)
    rw [dropStrangers, hmembers, hreads, hhidden]
  have hsettle : settle id kind owner roster now t = t := by
    rw [settle, hrows, hmissing]
    refine Eq.trans (congrArg (dropStrangers · id roster) ?_) hdrop
    simp [insertMembers]
  rw [reconcileRoom_eq t id kind owner now hroster, hsettle, hmovers]
  rfl

/-! ### A pass -/

section Pass

variable (low : Lowering) (agent owner : String) (admins : List String)

/-- What is promised of a built-in room. -/
def promise (kind : RoomKind) : Promise :=
  ⟨staticRoomId low kind owner, low.toLowercase owner,
    staticRoster low agent owner admins kind⟩

variable (clock : RoomKind → Nat)

/-- The built-in rooms are reconciled one after the other. -/
theorem reconciled_foldl (kinds : List RoomKind) (hkinds : kinds.Nodup) (t : StaticTables)
    (before : List String) :
    ∃ t' moved, kinds.foldl (provisionNext low agent owner admins clock) (t, before) =
        (t', before ++ moved) ∧
      Reconciled (kinds.map (promise low agent owner admins)) t t' moved := by
  induction kinds generalizing t before with
  | nil => exact ⟨t, [], by rw [List.foldl_nil, List.append_nil], reconciled_nil t⟩
  | cons kind kinds ih =>
      rcases List.nodup_cons.1 hkinds with ⟨hkind, hrest⟩
      have hfirst := reconciled_reconcileRoom t (promise low agent owner admins kind) kind
        (clock kind) (nodup_staticRoster agent owner admins kind)
      rcases ih hrest (provisionKind low agent owner admins clock t kind).1
        (before ++ (provisionKind low agent owner admins clock t kind).2) with
        ⟨t', moved, hfold, hothers⟩
      refine ⟨t', (provisionKind low agent owner admins clock t kind).2 ++ moved, ?_, ?_⟩
      · rw [List.foldl_cons, provisionNext, hfold, List.append_assoc]
      · refine hfirst.cons hothers fun q hq heq => ?_
        rcases List.mem_map.1 hq with ⟨kind', hkind', rfl⟩
        exact hkind (staticRoomId_injective heq ▸ hkind')

/-- Once all rooms are settled a pass finds nothing to do. -/
theorem foldl_settled (kinds : List RoomKind) (t : StaticTables) (before : List String)
    (h : ∀ kind ∈ kinds, Settled t (staticRoomId low kind owner) (low.toLowercase owner)
      (staticRoster low agent owner admins kind)) :
    kinds.foldl (provisionNext low agent owner admins clock) (t, before) = (t, before) := by
  induction kinds with
  | nil => rfl
  | cons kind kinds ih =>
      have hfirst : provisionKind low agent owner admins clock t kind = (t, []) :=
        reconcileRoom_settled (h kind List.mem_cons_self)
          (nodup_staticRoster agent owner admins kind) kind (clock kind)
      rw [List.foldl_cons, provisionNext, hfirst, List.append_nil]
      exact ih fun kind' hkind' => h kind' (List.mem_cons_of_mem kind hkind')

end Pass

/-- The profile row of an address has been written again. -/
def touchUser (t : StaticTables) (a : String) (now : Nat) : StaticTables :=
  { t with users := t.users.map fun u =>
      if u.walletAddress = a then { u with updatedAt := now } else u }

-- Writing a profile again under the same name moves nothing but its time.
theorem upsertUser_upsertUser (t : StaticTables) (a username : String) (now now' : Nat) :
    (t.upsertUser a username now).upsertUser a username now' =
      (t.upsertUser a username now).touchUser a now' := by
  have hsome :
      (Table.lookup UserRow.walletAddress a (t.upsertUser a username now).users).isSome := by
    rw [Table.lookup_isSome]
    unfold upsertUser
    split
    · rename_i h
      rcases Table.lookup_isSome.1 h with ⟨v, hv, ha⟩
      refine ⟨_, List.mem_map_of_mem hv, ?_⟩
      rw [if_pos ha]
      exact ha
    · exact ⟨_, List.mem_append_right _ (List.mem_singleton_self _), rfl⟩
  have hname : ∀ u ∈ (t.upsertUser a username now).users, u.walletAddress = a →
      u.username = username := by
    unfold upsertUser
    split
    · intro u hu ha
      rcases List.mem_map.1 hu with ⟨v, -, rfl⟩
      by_cases hv : v.walletAddress = a
      · rw [if_pos hv]
      · rw [if_neg hv] at ha
        exact absurd ha hv
    · rename_i h
      intro u hu ha
      rcases List.mem_append.1 hu with hu | hu
      · exact absurd (Table.lookup_isSome.2 ⟨u, hu, ha⟩) h
      · rw [List.mem_singleton.1 hu]
  generalize t.upsertUser a username now = s at hsome hname ⊢
  have husers : Table.modify UserRow.walletAddress a
      (fun u => { u with username := username, updatedAt := now' }) s.users =
      s.users.map fun u => if u.walletAddress = a then { u with updatedAt := now' } else u := by
    refine List.map_congr_left fun u hu => ?_
    by_cases ha : u.walletAddress = a
    · rw [if_pos ha, if_pos ha, ← hname u hu ha]
    · rw [if_neg ha, if_neg ha]
  rw [upsertUser, touchUser, if_pos hsome, husers]

section Whole

variable (low : Lowering) (agentOf : WalletAddress → WalletAddress) (t : StaticTables)
  (owner : WalletAddress) (admins : List String)

-- What a pass answers, once its rooms have been gone through.
theorem provision_eq {clock : RoomKind → Nat} {p : StaticTables × List String}
    (h : staticRoomKinds.foldl (provisionNext low (agentOf owner).str owner.str admins clock)
      (t, []) = p) (later : Nat) :
    provision low agentOf clock later t owner.str admins =
      .ok (p.1.upsertUser (agentOf owner).str "Jarvis" later,
        keysUp (· ≤ ·) (p.2.filter (· ≠ (agentOf owner).str))) := by
  rw [provision, WalletAddress.new_str, ← h]
  rfl

/-- A pass reconciles the three rooms and writes the profile of the agent. -/
theorem exists_pass (clock : RoomKind → Nat) :
    ∃ s moved, Reconciled
        (staticRoomKinds.map (promise low (agentOf owner).str owner.str admins)) t s moved ∧
      ∀ later, provision low agentOf clock later t owner.str admins =
        .ok (s.upsertUser (agentOf owner).str "Jarvis" later,
          keysUp (· ≤ ·) (moved.filter (· ≠ (agentOf owner).str))) := by
  rcases reconciled_foldl low (agentOf owner).str owner.str admins clock staticRoomKinds
    (by decide) t [] with ⟨s, moved, hfold, h⟩
  exact ⟨s, moved, h, provision_eq low agentOf t owner admins hfold⟩

end Whole

/-- A pass says who is in each room, and a second one changes nothing of it. -/
theorem provision_reconciles (low : Lowering) (agentOf : WalletAddress → WalletAddress)
    (now now' : RoomKind → Nat) (later later' : Nat) (t : StaticTables) (owner : WalletAddress)
    (configured : Option String) :
    ∃ t' changed,
      provision low agentOf now later t owner.str (serverAdmins low configured) =
        .ok (t', changed) ∧
      -- Every built-in room exists, and its members are who it is for.
      (∀ kind ∈ staticRoomKinds, (∃ r ∈ t'.rooms, r.id = staticRoomId low kind owner.str) ∧
        ∀ a, t'.isMember (staticRoomId low kind owner.str) a = true ↔
          Promised (agentOf owner).str owner.str (serverAdmins low configured) kind a) ∧
      -- Those are named whose membership has changed, each once, without the agent.
      (∀ a, a ∈ changed ↔ a ≠ (agentOf owner).str ∧ ∃ kind ∈ staticRoomKinds,
        t'.isMember (staticRoomId low kind owner.str) a ≠
          t.isMember (staticRoomId low kind owner.str) a) ∧ changed.Nodup ∧
      -- Whoever stays keeps the read pointer and the hidden flag.
      (∀ id a, t.isMember id a = true → t'.isMember id a = true →
        t'.readsOf id a = t.readsOf id a ∧ t'.hiddenOf id a = t.hiddenOf id a) ∧
      -- A new key is owed where somebody moved in a room that has one.
      (∀ id, t'.isPending id = true ↔ t.isPending id = true ∨ ∃ kind ∈ staticRoomKinds,
        id = staticRoomId low kind owner.str ∧ t.hasEncryption id = true ∧
          ∃ a, t'.isMember id a ≠ t.isMember id a) ∧
      -- A second pass writes the profile of the agent again, and nothing else.
      provision low agentOf now' later' t' owner.str (serverAdmins low configured) =
        .ok (t'.touchUser (agentOf owner).str later', []) := by
  rcases exists_pass low agentOf t owner (serverAdmins low configured) now with
    ⟨s, moved, h, hpass⟩
  have hpromise : ∀ kind ∈ staticRoomKinds,
      promise low (agentOf owner).str owner.str (serverAdmins low configured) kind ∈
        staticRoomKinds.map
          (promise low (agentOf owner).str owner.str (serverAdmins low configured)) :=
    fun _ => List.mem_map_of_mem
  refine ⟨s.upsertUser (agentOf owner).str "Jarvis" later,
    keysUp (· ≤ ·) (moved.filter (· ≠ (agentOf owner).str)), hpass later, ?_, ?_, ?_, ?_, ?_, ?_⟩
  · intro kind hkind
    have hsettled := h.settled _ (hpromise kind hkind)
    refine ⟨hsettled.room, fun a => ?_⟩
    rw [← mem_staticRoster a]
    exact hsettled.members a
  · intro a
    rw [mem_keysUp, List.mem_filter, h.moved, and_comm, decide_eq_true_eq]
    simp only [List.mem_map, exists_exists_and_eq_and]
    exact Iff.rfl
  · exact (sorted_keysUp _).imp fun hab => hab.2
  · exact fun id a _ hin => ⟨h.readsOf id a (Or.inl hin), h.hiddenOf id a (Or.inl hin)⟩
  · intro id
    have hpending := h.pending id
    simp only [List.mem_map, exists_exists_and_eq_and] at hpending
    exact hpending
  · -- The profile of the agent is no business of the rooms, which are settled still.
    have hsettled : ∀ kind ∈ staticRoomKinds, Settled
        (s.upsertUser (agentOf owner).str "Jarvis" later) (staticRoomId low kind owner.str)
        (low.toLowercase owner.str)
        (staticRoster low (agentOf owner).str owner.str (serverAdmins low configured) kind) := by
      intro kind hkind
      rcases h.settled _ (hpromise kind hkind) with ⟨hroom, hserial, hadmin, hmem, hreads, hhidden⟩
      exact ⟨hroom, hserial, hadmin, hmem, hreads, hhidden⟩
    rw [provision_eq low agentOf _ owner _
      (foldl_settled low _ _ _ now' staticRoomKinds _ [] hsettled), upsertUser_upsertUser]
    rfl

end StaticTables

end Rosters

/-! ### The lobby of an owner -/

namespace Sample

open Rosters StaticTables

/-- A small letter is left alone. -/
theorem toLower_toLower (c : Char) : c.toLower.toLower = c.toLower := by
  by_cases hupper : 'A'.val ≤ c.val ∧ c.val ≤ 'Z'.val
  · have hlow : 65 ≤ c.val.toNat := UInt32.le_iff_toNat_le.1 hupper.1
    have hhigh : c.val.toNat ≤ 90 := UInt32.le_iff_toNat_le.1 hupper.2
    have hgap : ('a'.val - 'A'.val).toNat = 32 := by decide
    have hsmall : c.toLower.val.toNat = c.val.toNat + 32 := by
      have hlower : c.toLower.val = c.val + ('a'.val - 'A'.val) :=
        congrArg Char.val (dif_pos hupper)
      rw [hlower]
      simp only [UInt32.toNat_add, hgap]
      omega
    refine dif_neg fun h => ?_
    have hle : c.toLower.val.toNat ≤ 90 := UInt32.le_iff_toNat_le.1 h.2
    omega
  · have hself : c.toLower = c := dif_neg hupper
    rw [hself, hself]

/-- The lower case of texts whose letters are Latin. -/
def latin : Lowering where
  toLowercase s := String.ofList (s.toList.map Char.toLower)
  lowered s := by
    rw [String.toList_ofList, List.map_map]
    exact congrArg String.ofList (List.map_congr_left fun c _ => toLower_toLower c)
  address a := by rw [a.map_toLower_str, String.ofList_toList]

/-- An address that stands for anybody's agent. -/
def machine : WalletAddress := ⟨"0xa100000000000000000000000000000000000000", by decide⟩

/-- No room has been made. -/
def unprovisioned : StaticTables :=
  { rooms := [], serials := [], members := [], admins := [], reads := [], hidden := [],
    wraps := [], users := [] }

/-- The tables after a pass. -/
def provisioned (t : StaticTables) (configured : Option String) (later : Nat) : StaticTables :=
  ((provision latin (fun _ => machine) (fun _ => 1) later t alice.str
    (serverAdmins latin configured)).toOption.map Prod.fst).getD t

/-- Alice's lobby, which has got a key from her. -/
def keyedLobby : StaticTables :=
  { provisioned unprovisioned none 1 with
    wraps := [⟨Rosters.staticRoomId latin .lobby alice.str, alice.str, 1⟩] }

/-- Bob is named an administrator, and nobody is removed: the key of the lobby is owed all the
    same. And a second pass is not without a trace. -/
theorem seated_flags :
    (∀ a, keyedLobby.isMember (Rosters.staticRoomId latin .lobby alice.str) a = true →
      (provisioned keyedLobby (some bob.str) 2).isMember
        (Rosters.staticRoomId latin .lobby alice.str) a = true) ∧
    (provisioned keyedLobby (some bob.str) 2).isPending
      (Rosters.staticRoomId latin .lobby alice.str) = true ∧
    keyedLobby.isPending (Rosters.staticRoomId latin .lobby alice.str) = false ∧
    provisioned (provisioned keyedLobby (some bob.str) 2) (some bob.str) 3 ≠
      provisioned keyedLobby (some bob.str) 2 := by
  refine ⟨fun a ha => ?_, by decide +kernel, by decide +kernel, by decide +kernel⟩
  have hall : ∀ m ∈ keyedLobby.members,
      m ∈ (provisioned keyedLobby (some bob.str) 2).members := by decide +kernel
  rcases isMember_iff.1 ha with ⟨m, hm, hid, hma⟩
  exact isMember_iff.2 ⟨m, hall m hm, hid, hma⟩

end Sample

end PocketSkynet
