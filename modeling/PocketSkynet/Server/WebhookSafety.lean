import PocketSkynet.Server.Provision
import PocketSkynet.Server.Sample
import PocketSkynet.Server.Webhooks

/-!
# The Safety of Webhooks

A post reads whether its room is keyed in one statement and stores its message in another, and
a creation counts the webhooks of the room in one statement and inserts in another. Each check
holds when it is made, and what it found is still so later if nobody commits the opposite in
between. A room that is destroyed does not come back, so the kind of a room that was looked at
needs no such care.

`Undisturbed` says it of the step that would disturb: no key is stored and no rotation committed
in a room, and no webhook revoked, while a post is past its check; and a creation passes its
count only if those that have passed it before leave a place.

## Main definitions

* `HookProc.Checked`: What a request has found, and relies on.
* `Hooks.Undisturbed`: The condition on a step.

## Theorems

* `kind_step`, `keyed_step`: What a step can do to a room.
* `inv_step`: Undisturbed steps keep the invariant.
* `webhooks_sound`: In undisturbed runs webhooks do what is claimed.
* `webhooks_disturbed`: Three runs in which they do not.
-/

namespace PocketSkynet

namespace Proc

/-- The requests for keys. -/
def Keying : Proc → Bool
  | replied _ | rotateMember _ _ _ _ | rotateRoster _ _ _ | rotateCommit _ _ _ _
  | storeCallerMember _ _ _ _ | storeCallerAdmin _ _ _ _ | storeCallerInvited _ _ _ _
  | storeRoom _ _ _ _ | storeMember _ _ _ _ | storeInvited _ _ _ _ | storeAdmin _ _ _ _
  | storeExists _ _ _ | storeKey _ _ _ => true
  | _ => false

theorem keying_check {c : Bool} {e : ApiError} {p : Proc} (h : p.Keying = true) :
    (check c e p).Keying = true := by
  unfold check
  split
  · exact h
  · rfl

theorem keying_after {α : Type} {x : Except ApiError α} {p : α → Proc}
    (h : ∀ a, (p a).Keying = true) : (after x p).Keying = true := by
  cases x with
  | ok a => exact h a
  | error e => rfl

theorem keying_storeEligible (caller : WalletAddress) (room : RoomId) (wrap : KeyWrap)
    (version : Nat) : (storeEligible caller room wrap version).Keying = true := by
  unfold storeEligible
  split <;> rfl

theorem keying_next (now : Nat) (s : Shared) (p : Proc) (h : p.Keying = true) :
    (next now s p).Keying = true := by
  cases p with
  | replied reply => rfl
  | rotateMember caller room newVersion keys =>
      exact keying_check (keying_after fun _ => rfl)
  | rotateRoster room version keys => exact keying_after fun _ => rfl
  | rotateCommit room version keys roster =>
      refine keying_after fun r => ?_
      cases (r.rotate version keys).1 <;> rfl
  | storeCallerMember caller room wrap version =>
      simp only [next]
      split <;> rfl
  | storeCallerAdmin caller room wrap version =>
      simp only [next]
      split <;> rfl
  | storeCallerInvited caller room wrap version => exact keying_check rfl
  | storeRoom caller room wrap version => exact keying_check rfl
  | storeMember caller room wrap version =>
      simp only [next]
      split
      · exact keying_storeEligible caller room wrap version
      · rfl
  | storeInvited caller room wrap version =>
      exact keying_check (keying_storeEligible caller room wrap version)
  | storeAdmin caller room wrap version => exact keying_check rfl
  | storeExists room wrap version => exact keying_check rfl
  | storeKey room wrap version => rfl
  | _ => cases h

/-- The room in which the next statement stores a wrap, if it does. -/
def keys (s : Shared) : Proc → Option RoomId
  | storeKey room _ _ => if (s.server.getRoom room).isSome then some room else none
  | rotateCommit room version _ _ =>
      if (s.server.getRoom room).any (fun r => version = r.currentKeyVersion + 1) then some room
      else none
  | _ => none

/-- A request for keys changes one room, of which the kind stays. -/
theorem rooms_effect (now : Nat) (s : Shared) (p : Proc) (h : p.Keying = true) :
    (effect now s p).server.rooms = s.server.rooms ∨
      ∃ room r r', s.server.rooms room = some r ∧ p.keys s = some room ∧ r'.kind = r.kind ∧
        (effect now s p).server.rooms =
          fun id => if id = room then some r' else s.server.rooms id := by
  have hupdate : ∀ (room : RoomId) (f : Room → Room) (r : Room), s.server.rooms room = some r →
      (s.server.updateRoom room f).rooms =
        fun id => if id = room then some (f r) else s.server.rooms id := by
    intro room f r hr
    funext id
    rw [Server.rooms_updateRoom]
    by_cases hid : id = room
    · rw [if_pos hid, if_pos hid, hid, hr]
      rfl
    · rw [if_neg hid, if_neg hid]
  have hnone : ∀ (room : RoomId) (f : Room → Room), s.server.rooms room = none →
      (s.server.updateRoom room f).rooms = s.server.rooms := by
    intro room f hr
    funext id
    rw [Server.rooms_updateRoom]
    by_cases hid : id = room
    · rw [if_pos hid, hid, hr]
      rfl
    · rw [if_neg hid]
  cases p with
  | rotateCommit room version keyList roster =>
      cases hr : s.server.rooms room with
      | none => exact Or.inl (hnone room _ hr)
      | some r =>
          rcases r.rotate_cases version keyList with ⟨-, hrotate⟩ | ⟨hversion, hrotate⟩
          · left
            refine (hupdate room _ r hr).trans ?_
            funext id
            rw [hrotate]
            by_cases hid : id = room
            · rw [if_pos hid, hid, hr]
            · rw [if_neg hid]
          · refine Or.inr ⟨room, r, (r.rotate version keyList).2, hr, ?_, ?_, hupdate room _ r hr⟩
            · simp [keys, Server.getRoom, hr, hversion]
            · rw [hrotate]
  | storeKey room wrap version =>
      cases hr : s.server.rooms room with
      | none => exact Or.inl (hnone room _ hr)
      | some r =>
          refine Or.inr ⟨room, r, r.storeKey wrap version, hr, ?_, rfl, hupdate room _ r hr⟩
          simp [keys, Server.getRoom, hr]
  | replied | rotateMember | rotateRoster | storeCallerMember | storeCallerAdmin
  | storeCallerInvited | storeRoom | storeMember | storeInvited | storeAdmin | storeExists =>
      exact Or.inl rfl
  | _ => cases h

end Proc

namespace HookProc

/-- What a request has found, and relies on. -/
def Checked (s : HookState) : HookProc → Prop
  | createKeyed new | createCount new | createInsert new =>
      ∀ r, s.shared.server.rooms new.roomId = some r → r.isStatic = false ∧ r.isDirect = false
  | postKeyed w _ _ => w.token ∉ s.revoked
  | postCreate w _ _ =>
      w.token ∉ s.revoked ∧ s.shared.server.hasEncryption w.roomId = false
  | member p => p.Keying = true
  | _ => True

/-- The token by which a post has been let in. -/
def token : HookProc → Option String
  | postKeyed w _ _ | postCreate w _ _ => some w.token
  | _ => none

/-- The room that a post has found without a key. -/
def plainRoom : HookProc → Option RoomId
  | postCreate w _ _ => some w.roomId
  | _ => none

/-- A creation that has passed the count of the room. -/
def counted (room : RoomId) : HookProc → Nat
  | createInsert new => if new.roomId = room then 1 else 0
  | _ => 0

end HookProc

namespace Hooks

variable (webhookSender : String → WalletAddress) (msgHash : String → String)

/-- The system after a turn. -/
abbrev step (p : Hooks) (turn : Turn HookCall HookInput) : Hooks :=
  Pool.step HookProc.called (HookProc.advance webhookSender msgHash) p turn

/-- A creation passes its count if those that have passed before leave a place; a webhook is
    revoked, a key stored or a rotation committed if no post relies on the opposite. -/
def Allows (p : Hooks) : HookProc → Prop
  | .createCount new =>
      p.shared.countForRoom new.roomId < maxWebhooksPerRoom →
        p.shared.countForRoom new.roomId + p.total (HookProc.counted new.roomId) <
          maxWebhooksPerRoom
  | .revokeDelete room id =>
      ∀ w ∈ p.shared.webhooks, w.roomId = room → w.id = id →
        ∀ c ∈ p.procs, c.token ≠ some w.token
  | .member q => ∀ room ∈ q.keys p.shared.shared, ∀ c ∈ p.procs, c.plainRoom ≠ some room
  | _ => True

instance (p : Hooks) : DecidablePred p.Allows
  | .createCount _ => inferInstanceAs (Decidable (_ < _ → _ < _))
  | .revokeDelete _ _ => inferInstanceAs (Decidable (∀ w ∈ _, _ = _ → _ = _ → ∀ c ∈ _, _ ≠ _))
  | .member _ => inferInstanceAs (Decidable (∀ room ∈ _, ∀ c ∈ _, _ ≠ _))
  | .called _ | .replied _ | .createAdmin _ | .createRoom _ | .createKeyed _ | .createInsert _
  | .revokeAdmin _ _ _ | .revokeRoom _ _ | .postLookup _ _ _ | .postKeyed _ _ _
  | .postCreate _ _ _ | .destroyExists _ _ | .destroyAdmin _ _ | .destroyStatic _
  | .destroyDelete _ => .isTrue trivial

/-- The condition on a step. -/
def Undisturbed (p : Hooks) : Turn HookCall HookInput → Prop
  | .start _ => True
  | .tick i _ => ∀ c ∈ p.procs[i]?, p.Allows c

instance (p : Hooks) : DecidablePred p.Undisturbed
  | .start _ => .isTrue trivial
  | .tick _ _ => inferInstanceAs (Decidable (∀ c ∈ _, _))

/-- Tokens are unique and not revoked, and every webhook is of a channel that is there. -/
structure Tidy (s : HookState) : Prop where
  posted : ∀ x ∈ s.posted, x.keyed = false ∧ x.revoked = false
  placed : ∀ w ∈ s.webhooks, ∃ r, s.shared.server.rooms w.roomId = some r ∧
    r.isStatic = false ∧ r.isDirect = false
  unique : Table.Keyed Webhook.token s.webhooks
  valid : ∀ w ∈ s.webhooks, w.token ∉ s.revoked

/-- The places that are taken or promised are not too many, and every request may rely on what
    it has found. -/
structure Inv (p : Hooks) : Prop where
  tidy : Tidy p.shared
  capped : ∀ room, p.shared.countForRoom room + p.total (HookProc.counted room) ≤
    maxWebhooksPerRoom
  checked : ∀ c ∈ p.procs, c.Checked p.shared

/-- What a step leaves of what requests rely on. -/
structure Keeps (p : Hooks) (s : HookState) : Prop where
  kind : ∀ id r', s.shared.server.rooms id = some r' →
    ∃ r, p.shared.shared.server.rooms id = some r ∧ r'.kind = r.kind
  keyed : ∀ c ∈ p.procs, ∀ room ∈ c.plainRoom,
    s.shared.server.hasEncryption room = true → p.shared.shared.server.hasEncryption room = true
  revoked : ∀ c ∈ p.procs, ∀ token ∈ c.token, token ∈ s.revoked → token ∈ p.shared.revoked

section

variable {webhookSender msgHash} {p : Hooks} {i : Nat} {c c' : HookProc} {s : HookState}

theorem keeps_refl (p : Hooks) : p.Keeps p.shared :=
  ⟨fun _ r h => ⟨r, h, rfl⟩, fun _ _ _ _ h => h, fun _ _ _ _ h => h⟩

theorem channel_of_kind {r r' : Room} (h : r'.kind = r.kind)
    (hr : r.isStatic = false ∧ r.isDirect = false) : r'.isStatic = false ∧ r'.isDirect = false := by
  rw [Room.isStatic, Room.isDirect, h]
  exact hr

-- What a request relies on is kept.
theorem checked_of_keeps (hkeeps : p.Keeps s) (hc : c ∈ p.procs) (h : c.Checked p.shared) :
    c.Checked s := by
  have hkind : ∀ id, (∀ r, p.shared.shared.server.rooms id = some r →
      r.isStatic = false ∧ r.isDirect = false) → ∀ r', s.shared.server.rooms id = some r' →
        r'.isStatic = false ∧ r'.isDirect = false := by
    intro id hold r' hr'
    rcases hkeeps.kind id r' hr' with ⟨r, hr, hsame⟩
    exact channel_of_kind hsame (hold r hr)
  cases c with
  | createKeyed new => exact hkind new.roomId h
  | createCount new => exact hkind new.roomId h
  | createInsert new => exact hkind new.roomId h
  | postKeyed w content id => exact fun hr => h (hkeeps.revoked _ hc w.token rfl hr)
  | postCreate w content id =>
      refine ⟨fun hr => h.1 (hkeeps.revoked _ hc w.token rfl hr), ?_⟩
      by_contra hkeyed
      have hbefore := hkeeps.keyed _ hc w.roomId rfl (Bool.not_eq_false _ ▸ hkeyed)
      rw [h.2] at hbefore
      cases hbefore
  | _ => exact h

/-- A step that keeps what requests rely on, and takes no more places. -/
theorem inv_of_keeps (hi : p.Inv) (ht : p.procs[i]? = some c) (hkeeps : p.Keeps s)
    (htidy : Tidy s)
    (hcapped : ∀ room, s.countForRoom room + c'.counted room ≤
      p.shared.countForRoom room + c.counted room)
    (hchecked : c'.Checked s) : Inv ⟨s, p.procs.set i c'⟩ := by
  refine ⟨htidy, fun room => ?_, fun d hd => ?_⟩
  · have hsum : ((p.procs.set i c').map (HookProc.counted room)).sum + c.counted room =
        p.total (HookProc.counted room) + c'.counted room :=
      Pool.sum_map_set (HookProc.counted room) p.procs i c c' ht
    have hroom := hcapped room
    have hold := hi.capped room
    change s.countForRoom room + ((p.procs.set i c').map (HookProc.counted room)).sum ≤ _
    omega
  · rcases List.mem_or_eq_of_mem_set hd with hd | rfl
    · exact checked_of_keeps hkeeps hd (hi.checked d hd)
    · exact hchecked

-- The request that moves reads, and changes nothing.
theorem inv_of_read (hi : p.Inv) (ht : p.procs[i]? = some c)
    (hcounted : ∀ room, c'.counted room ≤ c.counted room) (hchecked : c'.Checked p.shared) :
    Inv ⟨p.shared, p.procs.set i c'⟩ :=
  inv_of_keeps hi ht (keeps_refl p) hi.tidy
    (fun room => Nat.add_le_add_left (hcounted room) _) hchecked

theorem checked_check {b : Bool} {e : ApiError} (h : b = true → c.Checked s) :
    (HookProc.check b e c).Checked s := by
  unfold HookProc.check
  split
  · exact h ‹_›
  · trivial

theorem counted_check {b : Bool} {e : ApiError} (room : RoomId) :
    (HookProc.check b e c).counted room ≤ c.counted room := by
  unfold HookProc.check
  split
  · exact Nat.le_refl _
  · exact Nat.zero_le _

-- The gate lets a request on to a channel.
theorem checked_checkRoom {room : Option Room}
    (h : ∀ r, room = some r → r.isStatic = false ∧ r.isDirect = false → c.Checked s) :
    (HookProc.checkRoom room c).Checked s := by
  cases room with
  | none => trivial
  | some r =>
      refine checked_check fun hstatic => checked_check fun hdirect => h r rfl ⟨?_, ?_⟩
      · simpa using hstatic
      · simpa using hdirect

theorem counted_checkRoom {room : Option Room} (id : RoomId) :
    (HookProc.checkRoom room c).counted id ≤ c.counted id := by
  cases room with
  | none => exact Nat.zero_le _
  | some r => exact Nat.le_trans (counted_check id) (counted_check id)

theorem checked_enter (x : HookInput) (call : HookCall) :
    (HookProc.enter x call).Checked s ∧ ∀ room, (HookProc.enter x call).counted room = 0 := by
  cases call with
  | create caller room name =>
      simp only [HookProc.enter]
      cases Validate.webhookName name with
      | ok name => exact ⟨trivial, fun _ => rfl⟩
      | error e => exact ⟨trivial, fun _ => rfl⟩
  | revoke caller room id => exact ⟨trivial, fun _ => rfl⟩
  | post token text =>
      simp only [HookProc.enter]
      by_cases htoken : webhookToken token = true
      · rw [if_pos htoken]
        cases Validate.messageContent text with
        | ok content => exact ⟨trivial, fun _ => rfl⟩
        | error e => exact ⟨trivial, fun _ => rfl⟩
      · rw [if_neg htoken]
        exact ⟨trivial, fun _ => rfl⟩
  | store caller room wrap version => exact ⟨Proc.keying_after fun _ => rfl, fun _ => rfl⟩
  | rotate caller room newVersion keys => exact ⟨rfl, fun _ => rfl⟩
  | destroy caller room => exact ⟨trivial, fun _ => rfl⟩

/-! ### The steps that write -/

-- The count of each room after an insertion.
theorem countForRoom_insert {s s' : HookState} {w : Webhook}
    (h : s.insert webhookSender w = some s') (room : RoomId) :
    s'.countForRoom room = s.countForRoom room + if w.roomId = room then 1 else 0 := by
  unfold HookState.insert at h
  split at h
  · cases h
    simp [HookState.countForRoom, List.countP_append, List.countP_singleton]
  · cases h

theorem inv_insert (hi : p.Inv) {new : Webhook} (ht : p.procs[i]? = some (.createInsert new))
    {now : Nat} {reply : Except ApiError HookAnswer}
    (h : p.shared.insert webhookSender { new with createdAt := now } = some s) :
    Inv ⟨s, p.procs.set i (.replied reply)⟩ := by
  have hcount := countForRoom_insert h
  have hchannel : HookProc.Checked p.shared (.createInsert new) :=
    hi.checked _ (Pool.mem_of_getElem? ht)
  unfold HookState.insert at h
  by_cases hfree : ((p.shared.shared.server.rooms new.roomId).isSome &&
      p.shared.webhooks.all fun v => v.id ≠ new.id && v.token ≠ new.token) = true
  · rw [if_pos hfree] at h
    cases h
    simp only [Bool.and_eq_true, List.all_eq_true, decide_eq_true_eq] at hfree
    rcases hfree with ⟨hroom, htaken⟩
    have hrooms : ∀ a, (p.shared.shared.server.upsertUser a).rooms =
        p.shared.shared.server.rooms := Server.rooms_upsertUser _
    refine inv_of_keeps hi ht ⟨fun id r hr => ?_, fun _ _ room _ hk => ?_, fun _ _ _ _ hr => ?_⟩
      ⟨hi.tidy.posted, fun w hw => ?_, ?_, fun w hw hr => ?_⟩ (fun room => ?_) trivial
    · rw [hrooms] at hr
      exact ⟨r, hr, rfl⟩
    · rwa [Server.hasEncryption, hrooms] at hk
    · exact (List.mem_filter.1 hr).1
    · dsimp only
      rw [hrooms]
      rcases List.mem_append.1 hw with hw | hw
      · exact hi.tidy.placed w hw
      · cases List.mem_singleton.1 hw
        rcases Option.isSome_iff_exists.1 hroom with ⟨r, hr⟩
        exact ⟨r, hr, hchannel r hr⟩
    · exact Table.keyed_append_one hi.tidy.unique
        (Table.lookup_eq_none.2 fun v hv => (htaken v hv).2)
    · rcases List.mem_append.1 hw with hw | hw
      · exact hi.tidy.valid w hw (List.mem_filter.1 hr).1
      · cases List.mem_singleton.1 hw
        exact of_decide_eq_true (List.mem_filter.1 hr).2 rfl
    · exact Nat.le_of_eq (hcount room)
  · rw [if_neg hfree] at h
    cases h

theorem inv_revoke (hi : p.Inv) {room : RoomId} {id : String}
    (ht : p.procs[i]? = some (.revokeDelete room id)) (hallows : p.Allows (.revokeDelete room id))
    (hchecked : c'.Checked (p.shared.revoke room id)) (hcounted : ∀ r, c'.counted r = 0) :
    Inv ⟨p.shared.revoke room id, p.procs.set i c'⟩ := by
  refine inv_of_keeps hi ht ⟨fun _ r hr => ⟨r, hr, rfl⟩, fun _ _ _ _ hk => hk,
    fun c hc token htoken hr => ?_⟩
    ⟨hi.tidy.posted, fun w hw => ?_, Table.keyed_filter _ hi.tidy.unique, fun w hw hr => ?_⟩
    (fun r => ?_) hchecked
  · rcases List.mem_append.1 hr with hr | hr
    · exact hr
    · -- The token that goes is not one by which a post has been let in.
      rcases List.mem_map.1 hr with ⟨w, hw, rfl⟩
      have hmem := List.mem_filter.1 hw
      simp only [Bool.and_eq_true, decide_eq_true_eq] at hmem
      exact absurd htoken (hallows w hmem.1 hmem.2.1 hmem.2.2 c hc)
  · exact hi.tidy.placed w (List.mem_filter.1 hw).1
  · have hmem := List.mem_filter.1 hw
    rcases List.mem_append.1 hr with hr | hr
    · exact hi.tidy.valid w hmem.1 hr
    · -- A token names one webhook, so the one that stays has another.
      rcases List.mem_map.1 hr with ⟨v, hv, hsame⟩
      have hgone := List.mem_filter.1 hv
      have hv : v = w := by
        have hlookup := Table.lookup_of_mem hi.tidy.unique hgone.1
        rw [hsame, Table.lookup_of_mem hi.tidy.unique hmem.1] at hlookup
        exact (Option.some.inj hlookup).symm
      subst hv
      rw [hgone.2] at hmem
      cases hmem.2
  · rw [hcounted]
    exact Nat.le_trans (List.Sublist.countP_le List.filter_sublist) (Nat.le_add_right _ _)

theorem inv_destroy (hi : p.Inv) {room : RoomId} {reply : Except ApiError HookAnswer}
    (ht : p.procs[i]? = some (.destroyDelete room)) :
    Inv ⟨p.shared.destroyRoom room, p.procs.set i (.replied reply)⟩ := by
  have hrooms : ∀ id r, (p.shared.destroyRoom room).shared.server.rooms id = some r →
      p.shared.shared.server.rooms id = some r := by
    intro id r hr
    change (if id = room then none else p.shared.shared.server.rooms id) = some r at hr
    by_cases hid : id = room
    · rw [if_pos hid] at hr
      cases hr
    · rwa [if_neg hid] at hr
  refine inv_of_keeps hi ht ⟨fun id r hr => ⟨r, hrooms id r hr, rfl⟩, fun _ _ id _ hk => ?_,
    fun _ _ _ _ hr => hr⟩ ⟨hi.tidy.posted, fun w hw => ?_, Table.keyed_filter _ hi.tidy.unique,
      fun w hw => hi.tidy.valid w (List.mem_filter.1 hw).1⟩ (fun r => ?_) trivial
  · rw [Server.hasEncryption, Option.any_eq_true] at hk ⊢
    rcases hk with ⟨r, hr, hkeyed⟩
    exact ⟨r, hrooms id r hr, hkeyed⟩
  · have hmem := List.mem_filter.1 hw
    rcases hi.tidy.placed w hmem.1 with ⟨r, hr, hchannel⟩
    refine ⟨r, ?_, hchannel⟩
    exact (if_neg (of_decide_eq_true hmem.2)).trans hr
  · exact Nat.le_trans (List.Sublist.countP_le List.filter_sublist) (Nat.le_add_right _ _)

theorem inv_member (hi : p.Inv) {q : Proc} {x : HookInput}
    (ht : p.procs[i]? = some (.member q)) (hallows : p.Allows (.member q)) :
    Inv ⟨{ p.shared with shared := (q.advance x.now p.shared.shared).1 },
      p.procs.set i (.member (q.advance x.now p.shared.shared).2)⟩ := by
  have hkeying : q.Keying = true := hi.checked _ (Pool.mem_of_getElem? ht)
  have hnext := Proc.keying_next x.now p.shared.shared q hkeying
  rcases Proc.rooms_effect x.now p.shared.shared q hkeying with
    hrooms | ⟨room, r, r', hr, hkeys, hkind, hrooms⟩
  · refine inv_of_keeps hi ht ⟨fun id r hr => ⟨r, ?_, rfl⟩, fun _ _ id _ hk => ?_,
      fun _ _ _ _ hr => hr⟩ ⟨hi.tidy.posted, fun w hw => ?_, hi.tidy.unique, hi.tidy.valid⟩
      (fun _ => Nat.le_refl _) hnext
    · rwa [← hrooms]
    · rw [Server.hasEncryption] at hk ⊢
      rwa [← hrooms]
    · rcases hi.tidy.placed w hw with ⟨r, hr, hchannel⟩
      exact ⟨r, (congrFun hrooms w.roomId).trans hr, hchannel⟩
  · refine inv_of_keeps hi ht ⟨fun id r₀ hr₀ => ?_, fun c hc id hid hk => ?_,
      fun _ _ _ _ hr => hr⟩ ⟨hi.tidy.posted, fun w hw => ?_, hi.tidy.unique, hi.tidy.valid⟩
      (fun _ => Nat.le_refl _) hnext
    · have hr₀ := (congrFun hrooms id).symm.trans hr₀
      by_cases hsame : id = room
      · rw [if_pos hsame] at hr₀
        cases hr₀
        exact ⟨r, hsame ▸ hr, hkind⟩
      · rw [if_neg hsame] at hr₀
        exact ⟨r₀, hr₀, rfl⟩
    · -- The room that is keyed is not one that a post has found without a key.
      by_cases hsame : id = room
      · subst hsame
        exact absurd hid (hallows id hkeys c hc)
      · rw [Server.hasEncryption, Option.any_eq_true] at hk ⊢
        rcases hk with ⟨r₀, hr₀, hkeyed⟩
        refine ⟨r₀, ?_, hkeyed⟩
        have hr₀ := (congrFun hrooms id).symm.trans hr₀
        rwa [if_neg hsame] at hr₀
    · rcases hi.tidy.placed w hw with ⟨r₀, hr₀, hchannel⟩
      by_cases hsame : w.roomId = room
      · refine ⟨r', (congrFun hrooms w.roomId).trans (if_pos hsame), ?_⟩
        rw [hsame, hr] at hr₀
        cases hr₀
        exact channel_of_kind hkind hchannel
      · exact ⟨r₀, (congrFun hrooms w.roomId).trans ((if_neg hsame).trans hr₀), hchannel⟩

theorem server_writeStream (s : Shared) (room : RoomId) (tx : Stream → Option Stream) :
    (s.writeStream room tx).server = s.server := by
  unfold Shared.writeStream
  split <;> rfl

-- What a post has found is still so when it is stored.
theorem inv_post (hi : p.Inv) {w : Webhook} {content : String} {id : MessageId}
    (ht : p.procs[i]? = some (.postCreate w content id)) (tx : Stream → Option Stream)
    {reply : Except ApiError HookAnswer} :
    Inv ⟨{ p.shared with
        shared := p.shared.shared.writeStream w.roomId tx
        posted := p.shared.posted ++ [⟨w.roomId, id, p.shared.shared.server.hasEncryption w.roomId,
          p.shared.revoked.contains w.token⟩] }, p.procs.set i (.replied reply)⟩ := by
  have hserver := server_writeStream p.shared.shared w.roomId tx
  have hfound : HookProc.Checked p.shared (.postCreate w content id) :=
    hi.checked _ (Pool.mem_of_getElem? ht)
  refine inv_of_keeps hi ht ⟨fun id r hr => ⟨r, ?_, rfl⟩, fun _ _ room _ hk => ?_,
    fun _ _ _ _ hr => hr⟩ ⟨fun x hx => ?_, fun v hv => ?_, hi.tidy.unique, hi.tidy.valid⟩
    (fun _ => Nat.le_refl _) trivial
  · dsimp only at hr
    rwa [hserver] at hr
  · dsimp only at hk
    rwa [hserver] at hk
  · rcases List.mem_append.1 hx with hx | hx
    · exact hi.tidy.posted x hx
    · cases List.mem_singleton.1 hx
      refine ⟨hfound.2, ?_⟩
      rw [List.contains_eq_mem, decide_eq_false hfound.1]
  · dsimp only
    rw [hserver]
    exact hi.tidy.placed v hv

/-- A creation passes its count. -/
theorem inv_count (hi : p.Inv) {new : Webhook} {e : ApiError}
    (ht : p.procs[i]? = some (.createCount new)) (hallows : p.Allows (.createCount new)) :
    Inv ⟨p.shared, p.procs.set i (HookProc.check
      (decide (p.shared.countForRoom new.roomId < maxWebhooksPerRoom)) e (.createInsert new))⟩ := by
  have hfound : HookProc.Checked p.shared (.createCount new) :=
    hi.checked _ (Pool.mem_of_getElem? ht)
  by_cases hroom : p.shared.countForRoom new.roomId < maxWebhooksPerRoom
  · rw [HookProc.check, if_pos (decide_eq_true hroom)]
    refine ⟨hi.tidy, fun room => ?_, fun d hd => ?_⟩
    · have hsum : ((p.procs.set i (.createInsert new)).map (HookProc.counted room)).sum + 0 =
          p.total (HookProc.counted room) + if new.roomId = room then 1 else 0 :=
        Pool.sum_map_set (HookProc.counted room) p.procs i _ (.createInsert new) ht
      have hold := hi.capped room
      change p.shared.countForRoom room +
        ((p.procs.set i (.createInsert new)).map (HookProc.counted room)).sum ≤ _
      by_cases hsame : new.roomId = room
      · -- The place it takes is one that is left.
        subst hsame
        rw [if_pos rfl] at hsum
        have hplace := hallows hroom
        omega
      · rw [if_neg hsame] at hsum
        omega
    · rcases List.mem_or_eq_of_mem_set hd with hd | rfl
      · exact hi.checked d hd
      · exact hfound
  · rw [HookProc.check, if_neg (fun h => hroom (of_decide_eq_true h))]
    exact inv_of_read hi ht (fun _ => Nat.le_refl _) trivial

/-- The step lemma. -/
theorem inv_step (p : Hooks) (turn : Turn HookCall HookInput) (hi : p.Inv)
    (h : p.Undisturbed turn) : (p.step webhookSender msgHash turn).Inv := by
  cases turn with
  | start call =>
      refine ⟨hi.tidy, fun room => ?_, fun c hc => ?_⟩
      · have hsum : (p.step webhookSender msgHash (.start call)).total (HookProc.counted room) =
            p.total (HookProc.counted room) + 0 := Pool.total_start (HookProc.counted room) p call
        rw [hsum]
        exact hi.capped room
      · rcases List.mem_append.1 hc with hc | hc
        · exact hi.checked c hc
        · cases List.mem_singleton.1 hc
          exact trivial
  | tick i x =>
      rcases ht : p.procs[i]? with _ | c
      · rwa [step, Pool.step_tick_none ht]
      have hallows : p.Allows c := h c ht
      have hfound : c.Checked p.shared := hi.checked c (Pool.mem_of_getElem? ht)
      have hzero : ∀ {c' d : HookProc}, (∀ room, c'.counted room = 0) →
          ∀ room, c'.counted room ≤ d.counted room := fun h room => h room ▸ Nat.zero_le _
      rw [step, Pool.step_tick ht]
      cases c with
      | called call =>
          have henter := checked_enter (s := p.shared) x call
          exact inv_of_read hi ht (hzero henter.2) henter.1
      | replied reply => exact inv_of_read hi ht (fun _ => Nat.le_refl _) trivial
      | createAdmin new =>
          exact inv_of_read hi ht (fun r => counted_check r) (checked_check fun _ => trivial)
      | createRoom new =>
          refine inv_of_read hi ht (fun r => counted_checkRoom r) ?_
          refine checked_checkRoom fun r hr hchannel r' hr' => ?_
          cases hr.symm.trans hr'
          exact hchannel
      | createKeyed new =>
          exact inv_of_read hi ht (fun r => counted_check r) (checked_check fun _ => hfound)
      | createCount new => exact inv_count hi ht hallows
      | createInsert new =>
          simp only [HookProc.advance]
          cases hinsert : p.shared.insert webhookSender { new with createdAt := x.now } with
          | none => exact inv_of_read hi ht (hzero fun _ => rfl) trivial
          | some s => exact inv_insert hi ht hinsert
      | revokeAdmin caller room id =>
          exact inv_of_read hi ht (fun r => counted_check r) (checked_check fun _ => trivial)
      | revokeRoom room id =>
          exact inv_of_read hi ht (fun r => counted_checkRoom r)
            (checked_checkRoom fun _ _ _ => trivial)
      | revokeDelete room id =>
          refine inv_revoke hi ht hallows (checked_check fun _ => trivial) fun r => ?_
          exact Nat.le_zero.1 (counted_check r)
      | postLookup token content id =>
          simp only [HookProc.advance]
          cases hlookup : p.shared.findByToken token with
          | none => exact inv_of_read hi ht (fun _ => Nat.le_refl _) trivial
          | some w =>
              exact inv_of_read hi ht (fun _ => Nat.le_refl _)
                (hi.tidy.valid w (Table.mem_of_lookup hlookup))
      | postKeyed w content id =>
          refine inv_of_read hi ht (fun r => counted_check r) (checked_check fun hplain => ?_)
          exact ⟨hfound, by simpa using hplain⟩
      | postCreate w content id =>
          simp only [HookProc.advance]
          split
          · exact inv_post hi ht _
          · exact inv_of_read hi ht (fun _ => Nat.le_refl _) trivial
      | member q => exact inv_member hi ht hallows
      | destroyExists caller room =>
          exact inv_of_read hi ht (fun r => counted_check r) (checked_check fun _ => trivial)
      | destroyAdmin caller room =>
          exact inv_of_read hi ht (fun r => counted_check r) (checked_check fun _ => trivial)
      | destroyStatic room =>
          simp only [HookProc.advance]
          split
          · exact inv_of_read hi ht (fun _ => Nat.le_refl _) trivial
          · exact inv_of_read hi ht (fun r => counted_check r) (checked_check fun _ => trivial)
      | destroyDelete room => exact inv_destroy hi ht

theorem sound_of_inv (p : Hooks) (hi : p.Inv) : p.shared.Sound where
  posted := hi.tidy.posted
  capped room := Nat.le_trans (Nat.le_add_right _ _) (hi.capped room)
  placed := hi.tidy.placed

/-- **Webhooks.** From tables in which webhooks are as they should be, in every run whose steps
    are undisturbed, no webhook message is stored in a room that holds a wrap by then or by a
    token that has been revoked, no room has more webhooks than it may, and every webhook is of
    a channel that is there. -/
theorem webhooks_sound (webhookSender : String → WalletAddress) (msgHash : String → String)
    (shared : Shared) (webhooks : List Webhook) (hunique : Table.Keyed Webhook.token webhooks)
    (hsound : HookState.Sound ⟨shared, webhooks, [], []⟩)
    (turns : List (Turn HookCall HookInput))
    (h : Run.Along (step webhookSender msgHash) Undisturbed
      (Pool.idle ⟨shared, webhooks, [], []⟩) turns) :
    Run.Throughout (step webhookSender msgHash) (fun p => p.shared.Sound)
      (Pool.idle ⟨shared, webhooks, [], []⟩) turns := by
  refine Run.throughout_mono sound_of_inv _ turns
    (Run.throughout_of_along inv_step _ turns ?_ h)
  refine ⟨⟨hsound.posted, hsound.placed, hunique, fun _ _ => List.not_mem_nil⟩,
    fun room => ?_, fun c hc => by cases hc⟩
  rw [Pool.total_idle]
  exact hsound.capped room

end

end Hooks

namespace Sample

/-- A channel without a key. -/
def openTeam : Shared :=
  { server := { Server.empty [] with
      rooms := fun id => if id = team then some (Room.create team alice) else none
      users := [alice] }
    streams := [(team, Stream.create 1)] }

def hexDigit (n : Nat) : Char := Char.ofNat (if n < 10 then 48 + n else 87 + n)

/-- A token that ends in a number. -/
def hookToken (n : Nat) : String :=
  String.ofList ("whk_".toList ++ List.replicate 62 'a' ++ [hexDigit (n / 16), hexDigit (n % 16)])

def hook (id : String) (n : Nat) : Webhook := ⟨id, team, "CI", hookToken n, alice, 1⟩

def ciOnly : List Webhook := [hook "h0" 0]

/-- Nobody in particular. -/
def robot (_ : String) : WalletAddress := carol

/-- What is drawn, and the time. -/
def drawn (id : String) (n : Nat) : HookInput := ⟨5, id, hookToken n⟩

/-- A request goes on for a number of steps. -/
def proceeds (i n : Nat) (x : HookInput) : List (Turn HookCall HookInput) :=
  List.replicate n (.tick i x)

/-- A webhook posts, and another is created. Then Alice stores a key. -/
def ciTurns : List (Turn HookCall HookInput) :=
  .start (.post (hookToken 0) (some "green")) :: proceeds 0 4 (drawn "m1" 1) ++
    .start (.create alice team (some "CD")) :: proceeds 1 6 (drawn "h1" 1) ++
      .start (.store alice team (wrapFor alice) none) :: proceeds 2 5 (drawn "" 2)

theorem sound_ciOnly : HookState.Sound ⟨openTeam, ciOnly, [], []⟩ where
  posted := fun x hx => by cases hx
  capped room := by
    have hlength : HookState.countForRoom ⟨openTeam, ciOnly, [], []⟩ room ≤ ciOnly.length :=
      List.countP_le_length
    exact Nat.le_trans hlength (by decide)
  placed w hw := by
    rw [List.mem_singleton.1 hw]
    exact ⟨_, rfl, by decide, by decide⟩

theorem webhooks_sound_ci :
    Run.Throughout (Hooks.step robot id) (fun p => p.shared.Sound)
      (Pool.idle ⟨openTeam, ciOnly, [], []⟩) ciTurns :=
  Hooks.webhooks_sound robot id openTeam ciOnly (List.nodup_singleton _) sound_ciOnly ciTurns
    (by decide +kernel)

/-- A post has passed its check when Alice stores a key. -/
def keyedMeanwhile : List (Turn HookCall HookInput) :=
  .start (.post (hookToken 0) (some "green")) :: proceeds 0 3 (drawn "m1" 1) ++
    .start (.store alice team (wrapFor alice) none) :: proceeds 1 5 (drawn "" 2) ++
      proceeds 0 1 (drawn "" 2)

/-- A post has passed its check when Alice revokes the webhook. -/
def revokedMeanwhile : List (Turn HookCall HookInput) :=
  .start (.post (hookToken 0) (some "green")) :: proceeds 0 3 (drawn "m1" 1) ++
    .start (.revoke alice team "h0") :: proceeds 1 4 (drawn "" 2) ++
      proceeds 0 1 (drawn "" 2)

/-- Two creations count the webhooks of the channel, and then both insert. -/
def countedTwice : List (Turn HookCall HookInput) :=
  [.start (.create alice team (some "CD")), .start (.create alice team (some "CD"))] ++
    proceeds 0 5 (drawn "x" 30) ++ proceeds 1 5 (drawn "y" 31) ++
      [.tick 0 (drawn "" 2), .tick 1 (drawn "" 2)]

/-- One webhook less than there may be. -/
def nearlyFull : List Webhook :=
  (List.range 19).map fun n => hook (String.ofList (List.replicate n 'h')) n

/-- Plain text in a room with a key; a post by a revoked token; one webhook too many. -/
theorem webhooks_disturbed :
    ¬ Run.Throughout (Hooks.step robot id) (fun p => p.shared.Sound)
        (Pool.idle ⟨openTeam, ciOnly, [], []⟩) keyedMeanwhile ∧
      ¬ Run.Throughout (Hooks.step robot id) (fun p => p.shared.Sound)
        (Pool.idle ⟨openTeam, ciOnly, [], []⟩) revokedMeanwhile ∧
      ¬ Run.Throughout (Hooks.step robot id) (fun p => p.shared.Sound)
        (Pool.idle ⟨openTeam, nearlyFull, [], []⟩) countedTwice := by
  refine ⟨fun h => ?_, fun h => ?_, fun h => ?_⟩
  · have hlast := (Run.throughout_last _ _ h).posted ⟨team, ⟨"m1"⟩, true, false⟩
      (by decide +kernel)
    exact absurd hlast.1 (by decide)
  · have hlast := (Run.throughout_last _ _ h).posted ⟨team, ⟨"m1"⟩, false, true⟩
      (by decide +kernel)
    exact absurd hlast.2 (by decide)
  · exact absurd ((Run.throughout_last _ _ h).capped team) (by decide +kernel)

end Sample

end PocketSkynet
