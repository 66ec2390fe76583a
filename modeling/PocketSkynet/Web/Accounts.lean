import PocketSkynet.Web.Tasks

/-!
# Switching Accounts

One tab, one storage, and one account after another. What an account leaves behind is in
many places: the fields of the store that an identity switch clears, the fields that it does
not clear, and the keys of the local storage, of which signing out removes some. Meanwhile
the tasks of the account go on. Each holds the handle it was started with, and what it does
to the device comes whenever an answer comes.

Two runs are compared that differ only in what other accounts have had to do with. What is
theirs is collected in `Cleared` and `Kept`; the rest of the device is public and the same
in both runs. Once the account in question is signed in, both devices should be equal, and
nobody else's task should sign it out.

## Main definitions

* `Cleared`, `Kept`: The data of an account that an identity switch clears, or keeps.
* `SamePublic`: Two devices differ in nothing else.
* `World`, `Event`, `step`: The device and the tasks of one account among others.
* `Guarded`: Nothing of others is left behind, and nobody interferes.
* `Agree`, `Stays`: The two halves of isolation.

## Theorems

* `apply_harmless`: A harmless effect touches no account's data.
* `inv_step`: One step of both runs.
* `isolated`: Guarded runs isolate the account.
-/

namespace PocketSkynet.Web

/-- The data of an account that an identity switch clears. -/
structure Cleared where
  isServerAdmin : Bool
  rooms : List RoomWithMembers
  invitations : List Invitation
  blocks : Finset WalletAddress
  roomStates : RoomId → Option RoomEntry
  bundles : RoomId → Option RoomKeyBundle
  pending : RoomId → Option (List Pending)
  presence : WalletAddress → Option PresenceStatus

/-- The data of an account that an identity switch does not clear. -/
structure Kept where
  blocked : List BlockedUser
  roomLoad : RoomId → Option Load
  typing : RoomId → WalletAddress → Option Int
  toasts : List Toast
  modal : Option Modal
  dissolving : Finset MessageId
  transfers : List Transfer
  knowledgeSeed : Option KnowledgeSeed
  cursors : RoomId → Option Nat
  rooms : Option (List RoomWithMembers)
  msgs : RoomId → Option CachedRoom
  wraps : RoomId → Option (List RoomKey)
  index : Option (List RoomId)

def Cleared.none : Cleared :=
  ⟨false, [], [], ∅, fun _ => .none, fun _ => .none, fun _ => .none, fun _ => .none⟩

def Kept.none : Kept :=
  ⟨[], fun _ => .none, fun _ _ => .none, [], .none, ∅, [], .none, fun _ => .none, .none,
    fun _ => .none, fun _ => .none, .none⟩

section

variable {Secret : Type}

namespace Device

def cleared (d : Device Secret) : Cleared :=
  ⟨d.state.isServerAdmin, d.state.rooms, d.state.invitations, d.state.blocks,
    d.state.roomStates, d.state.bundles, d.state.pending, d.state.presence⟩

def kept (d : Device Secret) : Kept :=
  ⟨d.state.blocked, d.state.roomLoad, d.state.typing, d.state.toasts, d.state.modal,
    d.state.dissolving, d.state.transfers, d.state.knowledgeSeed, d.storage.cursors,
    d.storage.rooms, d.storage.msgs, d.storage.wraps, d.storage.index⟩

/-- A device with other data of an account. -/
def put (d : Device Secret) (c : Cleared) (k : Kept) : Device Secret :=
  { state := { d.state with
      isServerAdmin := c.isServerAdmin, rooms := c.rooms, invitations := c.invitations,
      blocks := c.blocks, roomStates := c.roomStates, bundles := c.bundles,
      pending := c.pending, presence := c.presence, blocked := k.blocked,
      roomLoad := k.roomLoad, typing := k.typing, toasts := k.toasts, modal := k.modal,
      dissolving := k.dissolving, transfers := k.transfers, knowledgeSeed := k.knowledgeSeed }
    storage := { d.storage with
      cursors := k.cursors, rooms := k.rooms, msgs := k.msgs, wraps := k.wraps,
      index := k.index } }

/-- What is left of a device without any account's data. -/
def wipe (d : Device Secret) : Device Secret := d.put .none .none

theorem put_wipe (d : Device Secret) : d.wipe.put d.cleared d.kept = d := rfl

end Device

/-- Two devices that differ in an account's data only. -/
def SamePublic (d d' : Device Secret) : Prop := d.wipe = d'.wipe

-- A device is its public part and the data.
theorem eq_of_samePublic {d d' : Device Secret} (h : SamePublic d d')
    (hcleared : d.cleared = d'.cleared) (hkept : d.kept = d'.kept) : d = d' := by
  rw [← d.put_wipe, ← d'.put_wipe, h, hcleared, hkept]

/-- An account is signed in. -/
def In (b : WalletAddress) (d : Device Secret) : Prop := d.state.auth.address = some b

instance (b : WalletAddress) (d : Device Secret) : Decidable (In b d) :=
  inferInstanceAs (Decidable (_ = _))

theorem samePublic_in {b : WalletAddress} {d d' : Device Secret} (h : SamePublic d d') :
    In b d ↔ In b d' := by
  have hauth : d.state.auth = d'.state.auth := congrArg (fun w => w.state.auth) h
  rw [In, In, hauth]

/-! ### Signing in and out -/

theorem wipe_setAuth (d : Device Secret) (a : Auth Secret) :
    (reduce d (.setAuth a)).wipe = { d.wipe with
      state := { d.wipe.state with
        client := d.wipe.state.client.withToken a.token, auth := a } } := by
  unfold reduce
  by_cases h : a.address ≠ d.state.auth.address
  · simp only [if_pos h]
    rfl
  · simp only [if_neg h]
    rfl

theorem kept_setAuth (d : Device Secret) (a : Auth Secret) :
    (reduce d (.setAuth a)).kept = d.kept := by
  unfold reduce
  by_cases h : a.address ≠ d.state.auth.address
  · simp only [if_pos h]
    rfl
  · simp only [if_neg h]
    rfl

-- An identity switch clears what it is meant to clear.
theorem cleared_setAuth {d : Device Secret} {a : Auth Secret}
    (h : a.address ≠ d.state.auth.address) : (reduce d (.setAuth a)).cleared = .none := by
  unfold reduce
  simp only [if_pos h]
  rfl

/-! ### Harmless effects -/

/-- An action that bears on no account's data, and on nobody's being signed in. A profile
    counts if it is not that of `b`. -/
def Action.harmless (b : WalletAddress) : Action Secret → Bool
  | .roomsLoading | .roomsFailed _ | .invitationsLoading | .invitationsFailed _ => true
  | .setConn _ | .setOnline _ | .setMode _ | .setClient _ => true
  | .setTheme _ | .setSkin _ | .setShellLayout _ | .setFontFace _ | .setFontScale _
  | .setLanguage _ => true
  | .profileUpdated user => user.walletAddress ≠ b
  | _ => false

def Effect.harmless (b : WalletAddress) : Effect Secret → Bool
  | .dispatch a => a.harmless b
  | .persist _ | .remember _ => true
  | .saveWraps _ _ | .forgetCached _ | .signOut => false

-- Somebody else's profile is not taken over.
theorem profileUpdated_other {b : WalletAddress} {d : Device Secret} {user : User}
    (hin : In b d) (h : user.walletAddress ≠ b) : profileUpdated d user = d := by
  unfold profileUpdated
  unfold In at hin
  cases hauth : d.state.auth with
  | signedOut => rfl
  | locked p =>
      rw [hauth] at hin
      have hp : p.walletAddress = b := Option.some.inj hin
      have hne : p.walletAddress ≠ user.walletAddress := fun he => h (he.symm.trans hp)
      simp only [if_neg hne]
  | unlocked session =>
      rw [hauth] at hin
      have hs : session.user.walletAddress = b := Option.some.inj hin
      have hne : session.user.walletAddress ≠ user.walletAddress := fun he => h (he.symm.trans hs)
      simp only [if_neg hne]

/-- A harmless effect touches no account's data, and leaves `b` signed in. -/
theorem apply_harmless {b : WalletAddress} {d : Device Secret} {x : Effect Secret}
    (hin : In b d) (h : x.harmless b = true) :
    (d.apply x).cleared = d.cleared ∧ (d.apply x).kept = d.kept ∧ In b (d.apply x) := by
  cases x with
  | dispatch a =>
      cases a with
      | profileUpdated user =>
          have hother : user.walletAddress ≠ b := by
            simpa [Effect.harmless, Action.harmless] using h
          have hsame : d.apply (.dispatch (.profileUpdated user)) = d :=
            profileUpdated_other hin hother
          rw [hsame]
          exact ⟨rfl, rfl, hin⟩
      | roomsLoading | roomsFailed | invitationsLoading | invitationsFailed => exact ⟨rfl, rfl, hin⟩
      | setConn | setOnline | setMode | setClient => exact ⟨rfl, rfl, hin⟩
      | setTheme | setSkin | setShellLayout | setFontFace | setFontScale | setLanguage =>
          exact ⟨rfl, rfl, hin⟩
      | _ => cases h
  | persist session => exact ⟨rfl, rfl, hin⟩
  | remember wallet => exact ⟨rfl, rfl, hin⟩
  | saveWraps room wraps => cases h
  | forgetCached room => cases h
  | signOut => cases h

theorem applyAll_harmless {b : WalletAddress} {d : Device Secret} {es : List (Effect Secret)}
    (hin : In b d) (h : ∀ x ∈ es, x.harmless b = true) :
    (d.applyAll es).cleared = d.cleared ∧ (d.applyAll es).kept = d.kept ∧ In b (d.applyAll es) := by
  induction es generalizing d with
  | nil => exact ⟨rfl, rfl, hin⟩
  | cons x es ih =>
      rcases apply_harmless hin (h x List.mem_cons_self) with ⟨hcleared, hkept, hin'⟩
      rcases ih hin' fun y hy => h y (List.mem_cons_of_mem x hy) with ⟨hcleared', hkept', hin''⟩
      exact ⟨hcleared'.trans hcleared, hkept'.trans hkept, hin''⟩

/-! ### One account among others -/

/-- The device, and the handles that tasks of the account were started with. -/
structure World (Secret : Type) where
  device : Device Secret
  handles : List (AppState Secret)

/-- What happens. Other accounts' tasks, and whatever happens while the account is not
    signed in, do to the device what they will. A task of the account goes on with what an
    answer to it brings, reading its own handle and the storage. -/
inductive Event (Secret : Type) where
  | others (es : List (Effect Secret))
  | signIn (session : Session Secret)
  | boot
  | begin
  | own (task : Nat) (f : AppState Secret → LocalStorage → List (Effect Secret))

def step (w : World Secret) : Event Secret → World Secret
  | .others es => { w with device := w.device.applyAll es }
  | .signIn session => { w with device := reduce w.device (.setAuth (.unlocked session)) }
  | .boot => { w with device := reduce w.device .finishBoot }
  | .begin => { w with handles := w.handles ++ [w.device.state] }
  | .own task f =>
      match w.handles[task]? with
      | none => w
      | some handle => { w with device := w.device.applyAll (f handle w.device.storage) }

/-- An event is what it says about the account `b`: others do not sign it in, and its own
    tasks are only looked at while it is. -/
def Proper (b : WalletAddress) (w : World Secret) : Event Secret → Prop
  | .others es => ¬ In b w.device → ¬ In b (w.device.applyAll es)
  | .signIn session => session.user.walletAddress = b
  | .boot => ∃ session, w.device.state.pendingBoot = some session ∧
      session.user.walletAddress = b
  | .begin | .own _ _ => In b w.device

/-- The events of two runs that differ only in other accounts' data. What others do may
    depend on that data, as long as it leaves the public part alike. -/
inductive Alike (w w' : World Secret) : Event Secret → Event Secret → Prop where
  | others (es es' : List (Effect Secret))
      (h : SamePublic (w.device.applyAll es) (w'.device.applyAll es')) :
      Alike w w' (.others es) (.others es')
  | signIn (session : Session Secret) : Alike w w' (.signIn session) (.signIn session)
  | boot : Alike w w' .boot .boot
  | begin : Alike w w' .begin .begin
  | own (task : Nat) (f : AppState Secret → LocalStorage → List (Effect Secret)) :
      Alike w w' (.own task f) (.own task f)

/-- Both runs take a step. -/
def pairStep (p : World Secret × World Secret) (e : Event Secret × Event Secret) :
    World Secret × World Secret := (step p.1 e.1, step p.2 e.2)

/-- The step is one of two runs that are to be compared. -/
def Comparable (b : WalletAddress) (p : World Secret × World Secret)
    (e : Event Secret × Event Secret) : Prop :=
  Alike p.1 p.2 e.1 e.2 ∧ Proper b p.1 e.1 ∧ Proper b p.2 e.2

/-- Nobody interferes while the account is in. -/
def Quiet (b : WalletAddress) (w : World Secret) : Event Secret → Prop
  | .others es => In b w.device → ∀ x ∈ es, x.harmless b = true
  | _ => True

/-- What is left in place when the account comes in is not other accounts' data: it is the
    same in both runs. -/
def Clean (b : WalletAddress) (p : World Secret × World Secret) : Event Secret → Prop
  | .signIn _ => ¬ In b p.1.device → p.1.device.kept = p.2.device.kept
  | .boot => ¬ In b p.1.device →
      p.1.device.kept = p.2.device.kept ∧ p.1.device.cleared = p.2.device.cleared
  | _ => True

/-- Nothing of others is left behind, and nobody interferes. -/
def Guarded (b : WalletAddress) (p : World Secret × World Secret)
    (e : Event Secret × Event Secret) : Prop :=
  Clean b p e.1 ∧ Quiet b p.1 e.1 ∧ Quiet b p.2 e.2

/-- Once the account is in, everything is the same in both runs. -/
def Agree (b : WalletAddress) (p : World Secret × World Secret) : Prop :=
  (In b p.1.device ↔ In b p.2.device) ∧ (In b p.1.device → p.1.device = p.2.device)

/-- Nobody else signs the account out. -/
def Stays (b : WalletAddress) (w : World Secret) : Event Secret → Prop
  | .others es => In b w.device → In b (w.device.applyAll es)
  | _ => True

/-- What both runs keep. -/
structure Inv (b : WalletAddress) (p : World Secret × World Secret) : Prop where
  same : SamePublic p.1.device p.2.device
  handles : p.1.handles = p.2.handles
  agree : In b p.1.device → p.1.device = p.2.device

theorem agree_of_inv {b : WalletAddress} {p : World Secret × World Secret} (h : Inv b p) :
    Agree b p := ⟨samePublic_in h.same, h.agree⟩

variable {b : WalletAddress} {p : World Secret × World Secret}

-- What others do to equal devices while the account is in.
theorem agree_others {d d' : Device Secret} {es es' : List (Effect Secret)}
    (heq : In b d → d = d') (hin : In b d) (hin' : In b d')
    (hsame : SamePublic (d.applyAll es) (d'.applyAll es'))
    (hes : ∀ x ∈ es, x.harmless b = true) (hes' : ∀ x ∈ es', x.harmless b = true) :
    d.applyAll es = d'.applyAll es' := by
  rcases applyAll_harmless hin hes with ⟨hcleared, hkept, -⟩
  rcases applyAll_harmless hin' hes' with ⟨hcleared', hkept', -⟩
  refine eq_of_samePublic hsame ?_ ?_
  · rw [hcleared, hcleared', heq hin]
  · rw [hkept, hkept', heq hin]

-- The account comes in and the switch clears what was not clear already.
theorem agree_signIn {d d' : Device Secret} {session : Session Secret}
    (hsame : SamePublic d d') (heq : In b d → d = d') (hb : session.user.walletAddress = b)
    (hkept : ¬ In b d → d.kept = d'.kept) :
    reduce d (.setAuth (.unlocked session)) = reduce d' (.setAuth (.unlocked session)) := by
  by_cases hin : In b d
  · rw [heq hin]
  · have hin' : ¬ In b d' := fun h => hin ((samePublic_in hsame).2 h)
    have haddress : (Auth.unlocked session).address = some b := congrArg some hb
    -- The switch clears one half, and the other half was the same before it.
    refine eq_of_samePublic ?_ ?_ ?_
    · rw [SamePublic, wipe_setAuth, wipe_setAuth, hsame]
    · rw [cleared_setAuth fun h => hin (h.symm.trans haddress),
        cleared_setAuth fun h => hin' (h.symm.trans haddress)]
    · rw [kept_setAuth, kept_setAuth, hkept hin]

-- The end of the boot sequence clears nothing.
theorem agree_boot {d d' : Device Secret} (hsame : SamePublic d d') (heq : In b d → d = d')
    (hclean : ¬ In b d → d.kept = d'.kept ∧ d.cleared = d'.cleared) : d = d' := by
  by_cases hin : In b d
  · exact heq hin
  · exact eq_of_samePublic hsame (hclean hin).2 (hclean hin).1

-- Where the devices are equal, the runs are.
theorem inv_of_eq {w w' : World Secret} (hdevice : w.device = w'.device)
    (hhandles : w.handles = w'.handles) : Inv b (w, w') :=
  ⟨congrArg Device.wipe hdevice, hhandles, fun _ => hdevice⟩

theorem stays_of_quiet {w : World Secret} {e : Event Secret} (h : Quiet b w e) :
    Stays b w e := by
  cases e with
  | others es => exact fun hin => (applyAll_harmless hin (h hin)).2.2
  | _ => trivial

/-- One step of both runs. -/
theorem inv_step (p : World Secret × World Secret) (e : Event Secret × Event Secret)
    (h : Inv b p)
    (hc : Comparable b p e ∧ Guarded b p e) : Inv b (pairStep p e) := by
  rcases p with ⟨w, w'⟩
  rcases e with ⟨e, e'⟩
  rcases hc with ⟨⟨halike, hproper, hproper'⟩, hclean, hquiet, hquiet'⟩
  cases halike with
  | others es es' hsame =>
      refine ⟨hsame, h.handles, fun hafter => ?_⟩
      by_cases hin : In b w.device
      · have hin' : In b w'.device := (samePublic_in h.same).1 hin
        exact agree_others h.agree hin hin' hsame (hquiet hin) (hquiet' hin')
      · exact absurd hafter (hproper hin)
  | signIn session =>
      exact inv_of_eq (agree_signIn h.same h.agree hproper hclean) h.handles
  | boot =>
      have heq : w.device = w'.device := agree_boot h.same h.agree hclean
      exact inv_of_eq (by simp only [step, heq]) h.handles
  | begin =>
      have heq : w.device = w'.device := h.agree hproper
      have hhandles : w.handles = w'.handles := h.handles
      exact inv_of_eq heq (by simp only [step, heq, hhandles])
  | own task f =>
      -- Equal handles and an equal storage make equal effects.
      have hworld : w = w' := by
        rcases w with ⟨d, handles⟩
        rcases w' with ⟨d', handles'⟩
        rw [World.mk.injEq]
        exact ⟨h.agree hproper, h.handles⟩
      rw [hworld]
      exact inv_of_eq rfl rfl

/-- In two runs that differ in other accounts' data only, and in which nothing of it is left
    behind and nobody interferes, everything is the same in every state in which the account is
    signed in, and nobody else signs it out. -/
theorem isolated (b : WalletAddress) (p : World Secret × World Secret)
    (es : List (Event Secret × Event Secret)) (h : Inv b p)
    (hruns : Run.Along pairStep (Comparable b) p es)
    (hguard : Run.Along pairStep (Guarded b) p es) :
    Run.Throughout pairStep (Agree b) p es ∧
      Run.Along pairStep (fun p e => Stays b p.1 e.1 ∧ Stays b p.2 e.2) p es := by
  have hboth := Run.along_both p es hruns hguard
  refine ⟨?_, ?_⟩
  · exact Run.throughout_mono (fun _ => agree_of_inv) p es
      (Run.throughout_of_along inv_step p es h hboth)
  · refine Run.along_of_inv inv_step ?_ p es h hboth
    rintro p ⟨e, e'⟩ - ⟨-, -, hquiet, hquiet'⟩
    exact ⟨stays_of_quiet hquiet, stays_of_quiet hquiet'⟩

end

namespace Sample

open PocketSkynet.Sample

def sessionOf (a : WalletAddress) : Session Unit := ⟨a.str, ⟨a, "", none⟩, ⟨(), none⟩⟩

/-- Alice's tab, with some rooms in its list. -/
def alicesWorld (rooms : List RoomWithMembers) : World Unit :=
  { device :=
      { state := { AppState.new (.unlocked (sessionOf alice)) ⟨"", some alice.str, false⟩ .empty
          none with rooms := rooms }
        storage := .empty }
    handles := [] }

def teamListed : RoomWithMembers := ⟨⟨team, "Team", "channel", 1, false⟩, false, some 0, none⟩

/-- A message with its serial. -/
def messageAt (serial : Nat) : Message := Stream.newRow (note "msg_1_a" carol) serial serial

/-- Alice's room list is gone with her, Bob's task goes on, and of Alice's requests one fails
    late. -/
def apart : List (Event Unit × Event Unit) :=
  [(.signIn (sessionOf bob), .signIn (sessionOf bob)),
    (.begin, .begin),
    (.own 0 fun _ _ => [.dispatch (.roomsLoaded [teamListed])],
      .own 0 fun _ _ => [.dispatch (.roomsLoaded [teamListed])]),
    (.others [.dispatch (.invitationsFailed "timeout")],
      .others [.dispatch (.invitationsFailed "timeout")])]

/-- Alice reads a room up to a serial, signs out, and Bob signs in. -/
def inTurn (serial serial' : Nat) : List (Event Unit × Event Unit) :=
  [(.others [.dispatch (.sync team [messageAt serial])],
      .others [.dispatch (.sync team [messageAt serial'])]),
    (.others [.signOut], .others [.signOut]),
    (.signIn (sessionOf bob), .signIn (sessionOf bob))]

/-- Bob signs in, and then the answer to Alice's request for her rooms arrives. -/
def overtaken : List (Event Unit × Event Unit) :=
  let late : List (Effect Unit) := refreshRooms (.error (received (.unauthorized "Token expired")))
  [(.signIn (sessionOf bob), .signIn (sessionOf bob)), (.others late, .others late)]

theorem isolated_apart :
    Run.Throughout pairStep (Agree bob) (alicesWorld [teamListed], alicesWorld []) apart ∧
      Run.Along pairStep (fun p e => Stays bob p.1 e.1 ∧ Stays bob p.2 e.2)
        (alicesWorld [teamListed], alicesWorld []) apart := by
  have hout : ∀ rooms, ¬ In bob (alicesWorld rooms).device := by
    intro rooms hin
    exact absurd (Option.some.inj hin) (by decide)
  refine isolated bob _ _ ⟨rfl, rfl, fun hin => absurd hin (hout _)⟩ ?_ ?_
  · refine ⟨⟨.signIn _, rfl, rfl⟩, ⟨.begin, rfl, rfl⟩, ⟨.own _ _, rfl, rfl⟩, ⟨.others _ _ rfl, ?_, ?_⟩,
      trivial⟩
    · exact fun hnot => absurd rfl hnot
    · exact fun hnot => absurd rfl hnot
  · refine ⟨⟨fun _ => rfl, trivial, trivial⟩, ⟨trivial, trivial, trivial⟩,
      ⟨trivial, trivial, trivial⟩, ⟨trivial, ?_, ?_⟩, trivial⟩
    · exact fun _ x hx => by rw [List.mem_singleton.1 hx]; rfl
    · exact fun _ x hx => by rw [List.mem_singleton.1 hx]; rfl

/-- Two runs that differ in how far Alice has read leave Bob with different cursors. And a
    refusal of Alice's token signs Bob out. -/
theorem cursor_outlives_account :
    Inv bob (alicesWorld [], alicesWorld []) ∧
    Run.Along pairStep (Comparable bob) (alicesWorld [], alicesWorld []) (inTurn 5 7) ∧
    ¬ Run.Throughout pairStep (Agree bob) (alicesWorld [], alicesWorld []) (inTurn 5 7) ∧
    Run.Along pairStep (Comparable bob) (alicesWorld [], alicesWorld []) overtaken ∧
    ¬ Run.Along pairStep (fun p e => Stays bob p.1 e.1 ∧ Stays bob p.2 e.2)
      (alicesWorld [], alicesWorld []) overtaken := by
  refine ⟨⟨rfl, rfl, fun _ => rfl⟩, ?_, ?_, ?_, ?_⟩
  · refine ⟨⟨.others _ _ rfl, ?_, ?_⟩, ⟨.others _ _ rfl, ?_, ?_⟩, ⟨.signIn _, rfl, rfl⟩, trivial⟩
    · exact fun _ hin => absurd (Option.some.inj hin) (by decide)
    · exact fun _ hin => absurd (Option.some.inj hin) (by decide)
    · intro _ hin
      cases hin
    · intro _ hin
      cases hin
  · intro hagree
    have hlast := (Run.throughout_last _ _ hagree).2 rfl
    have hcursor := congrArg (fun d => d.storage.loadCursor team) hlast
    exact absurd hcursor (by decide +kernel)
  · refine ⟨⟨.signIn _, rfl, rfl⟩, ⟨.others _ _ rfl, ?_, ?_⟩, trivial⟩
    · exact fun hnot => absurd rfl hnot
    · exact fun hnot => absurd rfl hnot
  · rintro ⟨-, ⟨hstays, -⟩, -⟩
    have hin := hstays rfl
    cases hin

end Sample

end PocketSkynet.Web
