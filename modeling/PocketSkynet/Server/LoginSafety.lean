import PocketSkynet.Server.Login
import PocketSkynet.Server.Sample

/-!
# What a Login Leaves Behind

A login that succeeds has used up a challenge that nobody else has, which was issued to its
wallet, was still valid and has been signed. A key in the table always comes with a signature
that binds it, and the salt of an account is the same in every answer. All of this holds in
every run.

A login without a name writes back the name it has read, so a name that was set in between is
lost. `logins_iff` says that the account is left alone exactly in the runs where the name that
is written back is still the stored one.

## Main definitions

* `AccountTables.Inv`, `AccountProc.Holds`: What is known of the tables and of a request.
* `Logins.Sound`: What is claimed of a state.
* `Logins.Undisturbed`, `Logins.NameCurrent`: What is claimed of a step, and its condition.

## Theorems

* `grows_advance`: What no step takes back.
* `inv_advance`, `holds_advance`, `single_step`: What every step keeps.
* `logins_iff`: The claim, with its condition.
* `renamed_meanwhile`: A name that is lost.
-/

namespace PocketSkynet

section Safety

variable {Secret Point : Type} (P : Primitives Secret Point)
  (recoverAddress : String → String → Option WalletAddress)

/-- An account has no key, or one with a signature that binds it. -/
def User.Bound (u : User) : Prop :=
  u.publicKey = none ∨ ∃ key sig, u.publicKey = some key ∧ u.publicKeySig = some sig ∧
    keyBound P recoverAddress u.walletAddress key sig = true

namespace AccountTables

/-- What is known of the tables. -/
structure Inv (t : AccountTables) : Prop where
  bound : ∀ u ∈ t.users, u.Bound P recoverAddress
  keyed : Table.Keyed Challenge.id t.challenges
  numbered : ∀ c ∈ t.issued, c.serial < t.issued.length
  issued : ∀ c ∈ t.challenges, c ∈ t.issued
  message : ∀ c ∈ t.issued, c.message = challengeMessage c.walletAddress c.nonce

/-- What no step takes back. -/
structure Grows (t t' : AccountTables) : Prop where
  clock : t.clock ≤ t'.clock
  issued : ∀ c ∈ t.issued, c ∈ t'.issued
  user : ∀ a, (t.getUser a).isSome → (t'.getUser a).isSome
  salt : ∀ a v, Table.lookup Prod.fst a t.salts = some (a, v) →
    Table.lookup Prod.fst a t'.salts = some (a, v)

end AccountTables

namespace AccountProc

/-- The challenge a login has used up, and when. -/
def taken : AccountProc → Option Taken
  | checking _ taken => taken
  | reading _ taken => some taken
  | writing _ taken _ _ => some taken
  | loggedOff _ taken _ => taken
  | _ => none

/-- The login a request is. -/
def attempt : AccountProc → Option LoginAttempt
  | consuming a => some a
  | checking a _ => some a
  | reading a _ => some a
  | writing a _ _ _ => some a
  | loggedOff a _ _ => some a
  | _ => none

/-- The salt that has been answered with, and whose it is. -/
def answeredSalt : AccountProc → Option (WalletAddress × String)
  | loggedOff a _ (.loggedIn _ salt) => some (a.wallet, salt)
  | salted caller salt => some (caller, salt)
  | _ => none

end AccountProc

/-- The challenge was issued to the wallet of the login, it was taken while it was valid, and
    the wallet has signed its message. -/
structure Genuine (a : LoginAttempt) (taken : Taken) : Prop where
  wallet : taken.challenge.walletAddress = a.wallet
  inTime : taken.time ≤ taken.challenge.expiresAt
  signed : recoverAddress taken.challenge.message a.signature = some a.wallet

/-- What a login writes: a name, which is an old one if it brings none, and a key that is
    bound if it brings one. -/
structure Prepared (t : AccountTables) (a : LoginAttempt) (key : Option (String × String)) :
    Prop where
  user : a.Nameless → (t.getUser a.wallet).isSome
  bound : ∀ k ∈ key, keyBound P recoverAddress a.wallet k.1 k.2 = true
  keyless : a.Keyless → key = none

/-- The challenge that has been taken was issued, and not later than now. -/
def Held (t : AccountTables) (taken : Taken) : Prop :=
  taken.challenge ∈ t.issued ∧ taken.time ≤ t.clock

/-- What is known of a request. -/
def AccountProc.Holds (t : AccountTables) : AccountProc → Prop
  | checking _ taken => ∀ tk ∈ taken, Held t tk
  | reading a tk => Held t tk ∧ Genuine recoverAddress a tk
  | writing a tk _ key =>
      Held t tk ∧ Genuine recoverAddress a tk ∧ Prepared P recoverAddress t a key
  | loggedOff a taken answer => (∀ tk ∈ taken, Held t tk) ∧
      ∀ user salt, answer = .loggedIn user salt →
        Table.lookup Prod.fst a.wallet t.salts = some (a.wallet, salt) ∧
          ∃ tk, taken = some tk ∧ Genuine recoverAddress a tk
  | salted caller salt => Table.lookup Prod.fst caller t.salts = some (caller, salt)
  | publishing caller key sig => keyBound P recoverAddress caller key sig = true
  | _ => True

/-- The requests and the tables. -/
abbrev Logins := Pool AccountTables AccountProc

namespace Logins

/-- The system after a turn. -/
abbrev step (p : Logins) (turn : Turn AccountCall Moment) : Logins :=
  Pool.step (AccountProc.enter P recoverAddress) (AccountProc.advance P recoverAddress) p turn

/-- A server nobody has logged in to. -/
def start : Logins := Pool.idle .empty

/-- A login that has succeeded has used up a challenge of its wallet that nobody else has. -/
def SingleUse (p : Logins) (i : Nat) (a : LoginAttempt) (taken : Option Taken) : Prop :=
  ∃ tk, taken = some tk ∧
    tk.challenge ∈ p.shared.issued ∧ tk.challenge ∉ p.shared.challenges ∧
    Genuine recoverAddress a tk ∧
    tk.challenge.message = challengeMessage a.wallet tk.challenge.nonce ∧
    ∀ j tk', j ≠ i → (p.procs[j]?).bind AccountProc.taken = some tk' →
      tk'.challenge ≠ tk.challenge

/-- What is claimed of a state. -/
structure Sound (p : Logins) : Prop where
  single : ∀ i a taken user salt,
    p.procs[i]? = some (.loggedOff a taken (.loggedIn user salt)) →
    SingleUse recoverAddress p i a taken
  bound : ∀ u ∈ p.shared.users, u.Bound P recoverAddress
  salt : ∀ c ∈ p.procs, ∀ d ∈ p.procs, ∀ wallet v v',
    c.answeredSalt = some (wallet, v) → d.answeredSalt = some (wallet, v') → v = v'

/-- What is claimed of a step of a login: without a name it leaves the name of the account
    as it is, and without a key the key with its signature. -/
def Undisturbed (p : Logins) (turn : Turn AccountCall Moment) : Prop :=
  ∀ i x a, turn = .tick i x → (p.procs[i]?).bind AccountProc.attempt = some a →
    let before := p.shared.getUser a.wallet
    let after := (step P recoverAddress p turn).shared.getUser a.wallet
    (a.Nameless → after.map User.username = before.map User.username) ∧
    (a.Keyless → after.bind User.publicKey = before.bind User.publicKey ∧
      after.bind User.publicKeySig = before.bind User.publicKeySig)

/-- The name that a login without one writes back is still the stored one. -/
def NameCurrent (p : Logins) (turn : Turn AccountCall Moment) : Prop :=
  ∀ i x a taken username key, turn = .tick i x →
    p.procs[i]? = some (.writing a taken username key) → a.Nameless → x.chance ≠ .fails →
    (p.shared.getUser a.wallet).map User.username = some username

end Logins

/-! ### The statements -/

variable {P recoverAddress}

namespace AccountTables

variable {t : AccountTables}

theorem Grows.refl (t : AccountTables) : t.Grows t :=
  ⟨le_rfl, fun _ h => h, fun _ h => h, fun _ _ h => h⟩

theorem Grows.trans {t t' t'' : AccountTables} (h : t.Grows t') (h' : t'.Grows t'') :
    t.Grows t'' :=
  ⟨h.clock.trans h'.clock, fun c hc => h'.issued c (h.issued c hc),
    fun a ha => h'.user a (h.user a ha), fun a v hv => h'.salt a v (h.salt a v hv)⟩

-- A change of an account keeps its address.
theorem getUser_modify (a a' : WalletAddress) (f : User → User)
    (hf : ∀ u, (f u).walletAddress = u.walletAddress) (t : AccountTables) :
    ({ t with users := Table.modify User.walletAddress a f t.users }).getUser a' =
      if a' = a then (t.getUser a').map f else t.getUser a' :=
  Table.lookup_modify a a' f hf t.users

@[simp] theorem walletAddress_upserted (t : AccountTables) (username : String)
    (publicKey publicKeySig : Option String) (u : User) :
    (t.upserted username publicKey publicKeySig u).walletAddress = u.walletAddress := by
  cases publicKey <;> rfl

/-- The account after a login has been written, whether it was there or not. -/
theorem getUser_upsertUser (t : AccountTables) (a a' : WalletAddress) (username : String)
    (publicKey publicKeySig : Option String) :
    (t.upsertUser a username publicKey publicKeySig).getUser a' =
      if a' = a then
        some (((t.getUser a).map (t.upserted username publicKey publicKeySig)).getD
          (t.newUser a username publicKey publicKeySig))
      else t.getUser a' := by
  unfold upsertUser
  cases hu : t.getUser a with
  | none =>
      rw [getUser, Table.lookup_append]
      by_cases ha : a' = a
      · subst ha
        have hnone : Table.lookup User.walletAddress a' t.users = none := hu
        rw [hnone]
        simp [newUser]
      · have hother : (t.newUser a username publicKey publicKeySig).walletAddress ≠ a' :=
          Ne.symm ha
        rw [if_neg ha, Table.lookup_cons, if_neg hother, Table.lookup_nil, Option.or_none]
        rfl
  | some u =>
      have hmodify := getUser_modify a a' (t.upserted username publicKey publicKeySig)
        (t.walletAddress_upserted username publicKey publicKeySig) t
      refine Eq.trans ?_ (hmodify.trans ?_)
      · rfl
      · by_cases ha : a' = a
        · rw [if_pos ha, if_pos ha, ha, hu]
          rfl
        · rw [if_neg ha, if_neg ha]

-- Each statement takes nothing back.
theorem grows_clock (t : AccountTables) (n : Nat) : t.Grows { t with clock := t.clock + n } :=
  ⟨Nat.le_add_right _ _, fun _ h => h, fun _ h => h, fun _ _ h => h⟩

theorem grows_upsertUser (t : AccountTables) (a : WalletAddress) (username : String)
    (publicKey publicKeySig : Option String) :
    t.Grows (t.upsertUser a username publicKey publicKeySig) := by
  refine ⟨?_, ?_, fun a' ha' => ?_, ?_⟩
  · unfold upsertUser
    split <;> exact le_rfl
  · unfold upsertUser
    split <;> exact fun _ h => h
  · rw [getUser_upsertUser]
    by_cases h : a' = a
    · rw [if_pos h]
      rfl
    · rwa [if_neg h]
  · unfold upsertUser
    split <;> exact fun _ _ h => h

theorem grows_modify (t : AccountTables) (a : WalletAddress) (f : User → User)
    (hf : ∀ u, (f u).walletAddress = u.walletAddress) :
    t.Grows { t with users := Table.modify User.walletAddress a f t.users } := by
  refine ⟨le_rfl, fun _ h => h, fun a' ha' => ?_, fun _ _ h => h⟩
  rw [getUser_modify a a' f hf]
  by_cases h : a' = a
  · rwa [if_pos h, Option.isSome_map]
  · rwa [if_neg h]

theorem grows_getOrCreateSalt (t : AccountTables) (a : WalletAddress) (candidate : String) :
    t.Grows (t.getOrCreateSalt a candidate).2 := by
  refine ⟨le_rfl, fun _ h => h, fun _ h => h, fun a' v hv => ?_⟩
  dsimp only [getOrCreateSalt]
  rw [Table.lookup_insertNew]
  by_cases h : a' = a
  · rw [if_pos h, hv]
    rfl
  · rwa [if_neg h]

theorem grows_insertChallenge (t : AccountTables) (id : String) (a : WalletAddress)
    (nonce message : String) (expiresAt : Nat) :
    t.Grows (t.gcChallenges.insertChallenge id a nonce message expiresAt).2 := by
  unfold insertChallenge
  split
  · exact ⟨le_rfl, fun _ h => h, fun _ h => h, fun _ _ h => h⟩
  · exact ⟨le_rfl, fun _ h => List.mem_append_left _ h, fun _ h => h, fun _ _ h => h⟩

theorem grows_consumeChallenge (t : AccountTables) (id : String) :
    t.Grows (t.consumeChallenge id).2 :=
  ⟨le_rfl, fun _ h => h, fun _ h => h, fun _ _ h => h⟩

-- And keeps the invariant.
theorem inv_clock (h : t.Inv P recoverAddress) (n : Nat) :
    { t with clock := t.clock + n }.Inv P recoverAddress :=
  ⟨h.bound, h.keyed, h.numbered, h.issued, h.message⟩

theorem inv_users (h : t.Inv P recoverAddress) {users : List User}
    (hbound : ∀ u ∈ users, u.Bound P recoverAddress) :
    { t with users := users }.Inv P recoverAddress :=
  ⟨hbound, h.keyed, h.numbered, h.issued, h.message⟩

/-- A change of one account that leaves it bound. -/
theorem inv_modify (h : t.Inv P recoverAddress) (a : WalletAddress) (f : User → User)
    (hf : ∀ u, u.walletAddress = a → u.Bound P recoverAddress →
      (f u).Bound P recoverAddress) :
    { t with users := Table.modify User.walletAddress a f t.users }.Inv P recoverAddress := by
  refine inv_users h fun u hu => ?_
  rcases Table.mem_modify.1 hu with ⟨v, hv, rfl⟩
  by_cases ha : v.walletAddress = a
  · rw [if_pos ha]
    exact hf v ha (h.bound v hv)
  · rw [if_neg ha]
    exact h.bound v hv

theorem inv_upsertUser (h : t.Inv P recoverAddress) (a : WalletAddress) (username : String)
    {key : Option (String × String)}
    (hkey : ∀ k ∈ key, keyBound P recoverAddress a k.1 k.2 = true) :
    (t.upsertUser a username (key.map Prod.fst) (key.map Prod.snd)).Inv P recoverAddress := by
  unfold upsertUser
  cases hu : t.getUser a with
  | none =>
      refine inv_users h fun u hu => ?_
      rcases List.mem_append.1 hu with hu | hu
      · exact h.bound u hu
      · rw [List.mem_singleton.1 hu]
        cases key with
        | none => exact Or.inl rfl
        | some k => exact Or.inr ⟨k.1, k.2, rfl, rfl, hkey k rfl⟩
  | some v =>
      refine inv_modify h a _ fun u hu hbound => ?_
      cases key with
      | none => exact hbound
      | some k =>
          refine Or.inr ⟨k.1, k.2, rfl, rfl, ?_⟩
          rw [walletAddress_upserted, hu]
          exact hkey k rfl

theorem inv_insertChallenge (h : t.Inv P recoverAddress) (id : String) (a : WalletAddress)
    (nonce : String) (expiresAt : Nat) :
    (t.gcChallenges.insertChallenge id a nonce (challengeMessage a nonce) expiresAt).2.Inv P
      recoverAddress := by
  have hkept : ∀ c ∈ t.gcChallenges.challenges, c ∈ t.issued := fun c hc =>
    h.issued c (List.mem_filter.1 hc).1
  have hkeyed : Table.Keyed Challenge.id t.gcChallenges.challenges := Table.keyed_filter _ h.keyed
  unfold insertChallenge
  by_cases htaken : (Table.lookup Challenge.id id t.gcChallenges.challenges).isSome
  · rw [if_pos htaken]
    exact ⟨h.bound, hkeyed, h.numbered, hkept, h.message⟩
  · rw [if_neg htaken]
    refine ⟨h.bound, Table.keyed_append_one hkeyed (by simpa using htaken), ?_, ?_, ?_⟩
    · intro c hc
      rw [List.length_append, List.length_singleton]
      rcases List.mem_append.1 hc with hc | hc
      · exact Nat.lt_succ_of_lt (h.numbered c hc)
      · rw [List.mem_singleton.1 hc]
        exact Nat.lt_succ_self _
    · intro c hc
      rcases List.mem_append.1 hc with hc | hc
      · exact List.mem_append_left _ (hkept c hc)
      · exact List.mem_append_right _ hc
    · intro c hc
      rcases List.mem_append.1 hc with hc | hc
      · exact h.message c hc
      · rw [List.mem_singleton.1 hc]

theorem inv_consumeChallenge (h : t.Inv P recoverAddress) (id : String) :
    (t.consumeChallenge id).2.Inv P recoverAddress :=
  ⟨h.bound, Table.keyed_erase id h.keyed, h.numbered,
    fun c hc => h.issued c (Table.mem_erase.1 hc).1, h.message⟩

-- The salt that is answered with is the stored one.
theorem lookup_getOrCreateSalt (t : AccountTables) (a : WalletAddress) (candidate : String) :
    Table.lookup Prod.fst a (t.getOrCreateSalt a candidate).2.salts =
      some (a, (t.getOrCreateSalt a candidate).1) := by
  dsimp only [getOrCreateSalt]
  rw [Table.lookup_insertNew, if_pos rfl]
  cases hsalt : Table.lookup Prod.fst a t.salts with
  | none => rfl
  | some s =>
      have hkey : s.1 = a := Table.key_of_lookup hsalt
      simp [← hkey]

end AccountTables

theorem Held.mono {t t' : AccountTables} {tk : Taken} (h : Held t tk) (hgrows : t.Grows t') :
    Held t' tk :=
  ⟨hgrows.issued _ h.1, h.2.trans hgrows.clock⟩

/-- What is known of a request is not undone by the steps of others. -/
theorem AccountProc.holds_mono {t t' : AccountTables} (hgrows : t.Grows t') {proc : AccountProc}
    (h : proc.Holds P recoverAddress t) : proc.Holds P recoverAddress t' := by
  cases proc with
  | checking a taken => exact fun tk htk => (h tk htk).mono hgrows
  | reading a tk => exact ⟨h.1.mono hgrows, h.2⟩
  | writing a tk username key =>
      exact ⟨h.1.mono hgrows, h.2.1, fun hname => hgrows.user _ (h.2.2.user hname), h.2.2.bound,
        h.2.2.keyless⟩
  | loggedOff a taken answer =>
      refine ⟨fun tk htk => (h.1 tk htk).mono hgrows, fun user salt hanswer => ?_⟩
      exact ⟨hgrows.salt _ _ (h.2 user salt hanswer).1, (h.2 user salt hanswer).2⟩
  | salted caller salt => exact hgrows.salt _ _ h
  | publishing caller key sig => exact h
  | _ => trivial

/-! ### The checks -/

theorem checkChallenge_eq_ok {a : LoginAttempt} {taken : Option Taken} {now : Nat} {tk : Taken}
    (h : checkChallenge recoverAddress a taken now = .ok tk) :
    taken = some tk ∧ now ≤ tk.challenge.expiresAt ∧ tk.challenge.walletAddress = a.wallet ∧
      recoverAddress tk.challenge.message a.signature = some a.wallet := by
  simp only [checkChallenge, verifyChallengeSignature, bind_eq_ok, orRefuse_eq_ok, ensure_eq_ok,
    pure_eq_ok, decide_eq_true_eq] at h
  rcases h with ⟨tk', htaken, _, htime, _, hwallet, _, ⟨recovered, hrecovered, hsame⟩, rfl⟩
  exact ⟨htaken, htime, hwallet, hrecovered.trans (congrArg some hsame)⟩

theorem checkAccount_eq_ok {a : LoginAttempt} {existing : Option User} {suspended : Bool}
    {username : String} {key : Option (String × String)}
    (h : checkAccount P recoverAddress a existing suspended = .ok (username, key)) :
    resolveUsername a existing = .ok username ∧ resolveKey P recoverAddress a = .ok key := by
  simp only [checkAccount, bind_eq_ok, pure_eq_ok, Prod.mk.injEq] at h
  rcases h with ⟨name, hname, key', hkey, _, -, rfl, rfl⟩
  exact ⟨hname, hkey⟩

-- Without a name the one of the account is used.
theorem resolveUsername_nameless {a : LoginAttempt} {existing : Option User} {username : String}
    (hname : a.Nameless) (h : resolveUsername a existing = .ok username) :
    existing.map User.username = some username := by
  have hempty : a.username = "" := hname
  rw [resolveUsername, if_pos hempty, orRefuse_eq_ok, Option.filter_eq_some_iff] at h
  exact h.1

theorem resolveKey_bound {a : LoginAttempt} {key : Option (String × String)}
    (h : resolveKey P recoverAddress a = .ok key) :
    (∀ k ∈ key, keyBound P recoverAddress a.wallet k.1 k.2 = true) ∧
      (a.Keyless → key = none) := by
  unfold resolveKey at h
  split at h
  · rename_i k sig hkey hsig
    simp only [bind_eq_ok, ensure_eq_ok, pure_eq_ok] at h
    rcases h with ⟨k', -, sig', -, _, hbound, rfl⟩
    refine ⟨fun k hk => ?_, fun hkeyless => ?_⟩
    · cases hk
      exact hbound
    · rcases hkeyless with hnone | hnone
      · rw [hkey] at hnone
        cases hnone
      · rw [hsig] at hnone
        cases hnone
  · have hnone : none = key := Except.ok.inj h
    rw [← hnone]
    exact ⟨fun k hk => absurd hk (Option.not_mem_none k), fun _ => rfl⟩

theorem checkKey_bound {caller : WalletAddress} {publicKey publicKeySig : Option String}
    {key : String × String}
    (h : checkKey P recoverAddress caller publicKey publicKeySig = .ok key) :
    keyBound P recoverAddress caller key.1 key.2 = true := by
  simp only [checkKey, bind_eq_ok, ensure_eq_ok, pure_eq_ok] at h
  rcases h with ⟨k, -, sig, -, _, hbound, rfl⟩
  exact hbound

/-! ### Steps -/

/-- The tables have taken nothing back and kept the invariant, and what is to be known of the
    request is. -/
def Kept (P : Primitives Secret Point) (recoverAddress : String → String → Option WalletAddress)
    (t : AccountTables) (r : AccountTables × AccountProc) : Prop :=
  t.Grows r.1 ∧ r.1.Inv P recoverAddress ∧ r.2.Holds P recoverAddress r.1

namespace AccountProc

variable {t : AccountTables}

-- A login that has come to nothing.
theorem holds_loggedOff {a : LoginAttempt} {taken : Option Taken} {answer : AccountAnswer}
    (htaken : ∀ tk ∈ taken, Held t tk)
    (hanswer : ∀ user salt, answer ≠ .loggedIn user salt) :
    (loggedOff a taken answer).Holds P recoverAddress t :=
  ⟨htaken, fun user salt h => absurd h (hanswer user salt)⟩

theorem holds_enter (call : AccountCall) (t : AccountTables) :
    (enter P recoverAddress call).Holds P recoverAddress t := by
  cases call with
  | challenge walletAddress =>
      rw [enter]
      split <;> trivial
  | login body =>
      rw [enter]
      split <;> trivial
  | encryptionSalt caller => trivial
  | encryptionKey caller publicKey publicKeySig =>
      rw [enter]
      split
      · rename_i key hkey
        exact checkKey_bound hkey
      · trivial
  | profile caller => trivial
  | updateProfile caller username profileImage =>
      rw [enter]
      split <;> trivial

-- A step that changes nothing.
theorem kept_same {proc : AccountProc} (h : t.Inv P recoverAddress)
    (hproc : proc.Holds P recoverAddress t) : Kept P recoverAddress t (t, proc) :=
  ⟨.refl t, h, hproc⟩

theorem kept_signIn (h : t.Inv P recoverAddress) {a : LoginAttempt} {taken : Taken}
    (username : String) {key : Option (String × String)} (candidate : Option String)
    (hheld : Held t taken) (hgenuine : Genuine recoverAddress a taken)
    (hprepared : Prepared P recoverAddress t a key) :
    Kept P recoverAddress t (signIn t a taken username key candidate) := by
  have hgrows := t.grows_upsertUser a.wallet username (key.map Prod.fst) (key.map Prod.snd)
  have hinv := AccountTables.inv_upsertUser h a.wallet username hprepared.bound
  unfold signIn
  generalize t.upsertUser a.wallet username (key.map Prod.fst) (key.map Prod.snd) = t' at *
  dsimp only
  split
  · rename_i user candidate _
    have hsalt := t'.grows_getOrCreateSalt a.wallet candidate
    refine ⟨hgrows.trans hsalt, ⟨hinv.bound, hinv.keyed, hinv.numbered, hinv.issued,
      hinv.message⟩, fun tk htk => ?_, fun user' salt' hanswer => ?_⟩
    · cases htk
      exact hheld.mono (hgrows.trans hsalt)
    · cases hanswer
      exact ⟨t'.lookup_getOrCreateSalt a.wallet candidate, taken, rfl, hgenuine⟩
  · refine ⟨hgrows, hinv, holds_loggedOff (fun tk htk => ?_) fun user salt h => by cases h⟩
    cases htk
    exact hheld.mono hgrows

/-- What every step keeps. -/
theorem kept_stepAt (h : t.Inv P recoverAddress) (x : Moment) {proc : AccountProc}
    (hproc : proc.Holds P recoverAddress t) :
    Kept P recoverAddress t (stepAt P recoverAddress x t proc) := by
  cases proc with
  | drafting wallet =>
      refine kept_same h ?_
      cases x.nonce <;> trivial
  | issuing wallet nonce id expiresAt =>
      have hgrows := t.grows_insertChallenge id wallet nonce (challengeMessage wallet nonce)
        expiresAt
      have hinv := AccountTables.inv_insertChallenge h id wallet nonce expiresAt
      exact x.chance.meet_of (motive := Kept P recoverAddress t) ⟨hgrows, hinv, trivial⟩
        (kept_same h trivial) ⟨hgrows, hinv, trivial⟩
  | consuming a =>
      have hgrows := t.grows_consumeChallenge a.challengeId
      have hinv := AccountTables.inv_consumeChallenge h a.challengeId
      have hheld : ∀ tk ∈ ((t.consumeChallenge a.challengeId).1.map fun c => ⟨c, t.clock⟩ :
          Option Taken), Held (t.consumeChallenge a.challengeId).2 tk := by
        intro tk htk
        rcases Option.map_eq_some_iff.1 htk with ⟨c, hc, rfl⟩
        exact ⟨h.issued c (Table.mem_of_lookup hc), le_rfl⟩
      exact x.chance.meet_of (motive := Kept P recoverAddress t) ⟨hgrows, hinv, hheld⟩
        (kept_same h (holds_loggedOff (fun _ h => by cases h) fun _ _ h => by cases h))
        ⟨hgrows, hinv, holds_loggedOff hheld fun _ _ h => by cases h⟩
  | checking a taken =>
      refine kept_same h ?_
      cases hcheck : checkChallenge recoverAddress a taken t.clock with
      | error e => exact holds_loggedOff hproc fun _ _ h => by cases h
      | ok tk =>
          rcases checkChallenge_eq_ok hcheck with ⟨htaken, hnow, hwallet, hsigned⟩
          have hheld := hproc tk htaken
          exact ⟨hheld, hwallet, hheld.2.trans hnow, hsigned⟩
  | reading a taken =>
      have hheld : ∀ tk ∈ some taken, Held t tk := fun tk htk => by
        cases htk
        exact hproc.1
      have hfailed : (loggedOff a (some taken) databaseFailed).Holds P recoverAddress t :=
        holds_loggedOff hheld fun _ _ h => by cases h
      have hgone : (loggedOff a (some taken) .gone).Holds P recoverAddress t :=
        holds_loggedOff hheld fun _ _ h => by cases h
      refine x.chance.meet_of (motive := Kept P recoverAddress t) (kept_same h ?_)
        (kept_same h hfailed) (kept_same h hgone)
      cases hcheck : checkAccount P recoverAddress a (t.getUser a.wallet) x.suspended with
      | error e => exact holds_loggedOff hheld fun _ _ h => by cases h
      | ok ready =>
          rcases checkAccount_eq_ok hcheck with ⟨hname, hkey⟩
          refine ⟨hproc.1, hproc.2, fun hnameless => ?_, (resolveKey_bound hkey).1,
            (resolveKey_bound hkey).2⟩
          have huser := resolveUsername_nameless hnameless hname
          rw [← Option.isSome_map, huser]
          rfl
  | writing a taken username key =>
      have hsign := kept_signIn h username x.salt hproc.1 hproc.2.1 hproc.2.2
      have hheld : ∀ {t'}, t.Grows t' → ∀ tk ∈ some taken, Held t' tk := by
        intro t' hgrows tk htk
        cases htk
        exact hproc.1.mono hgrows
      exact x.chance.meet_of (motive := Kept P recoverAddress t) hsign
        (kept_same h (holds_loggedOff (hheld (.refl t)) fun _ _ h => by cases h))
        ⟨hsign.1, hsign.2.1, holds_loggedOff (hheld hsign.1) fun _ _ h => by cases h⟩
  | salting caller =>
      rw [stepAt]
      cases x.salt with
      | none => exact kept_same h trivial
      | some candidate =>
          have hgrows := t.grows_getOrCreateSalt caller candidate
          have hinv : (t.getOrCreateSalt caller candidate).2.Inv P recoverAddress :=
            ⟨h.bound, h.keyed, h.numbered, h.issued, h.message⟩
          exact x.chance.meet_of (motive := Kept P recoverAddress t)
            ⟨hgrows, hinv, t.lookup_getOrCreateSalt caller candidate⟩ (kept_same h trivial)
            ⟨hgrows, hinv, trivial⟩
  | publishing caller publicKey publicKeySig =>
      have hgrows : t.Grows (t.setEncryptionKey caller publicKey publicKeySig) :=
        t.grows_modify caller _ fun _ => rfl
      have hinv : (t.setEncryptionKey caller publicKey publicKeySig).Inv P recoverAddress := by
        refine AccountTables.inv_modify h caller _ fun u hu _ => ?_
        have hbound : keyBound P recoverAddress u.walletAddress publicKey publicKeySig = true := by
          rw [hu]
          exact hproc
        exact Or.inr ⟨publicKey, publicKeySig, rfl, rfl, hbound⟩
      exact x.chance.meet_of (motive := Kept P recoverAddress t) ⟨hgrows, hinv, trivial⟩
        (kept_same h trivial) ⟨hgrows, hinv, trivial⟩
  | viewing caller =>
      exact x.chance.meet_of (motive := Kept P recoverAddress t) (kept_same h trivial)
        (kept_same h trivial) (kept_same h trivial)
  | updating caller username image =>
      have hgrows : t.Grows (t.updateProfile caller username image) :=
        t.grows_modify caller _ fun _ => rfl
      have hinv : (t.updateProfile caller username image).Inv P recoverAddress :=
        AccountTables.inv_modify h caller _ fun _ _ hbound => hbound
      exact x.chance.meet_of (motive := Kept P recoverAddress t) ⟨hgrows, hinv, trivial⟩
        (kept_same h trivial) ⟨hgrows, hinv, trivial⟩
  | loggedOff a taken answer => exact kept_same h hproc
  | salted caller salt => exact kept_same h hproc
  | done answer => exact kept_same h hproc

theorem kept_advance (h : t.Inv P recoverAddress) (x : Moment) {proc : AccountProc}
    (hproc : proc.Holds P recoverAddress t) :
    Kept P recoverAddress t (advance P recoverAddress x t proc) := by
  have hclock := t.grows_clock x.elapsed
  rcases kept_stepAt (AccountTables.inv_clock h x.elapsed) x (holds_mono hclock hproc) with
    ⟨hgrows, hinv, hnext⟩
  exact ⟨hclock.trans hgrows, hinv, hnext⟩

end AccountProc

namespace Logins

/-- What every turn keeps. -/
theorem holds_step (p : Logins) (turn : Turn AccountCall Moment)
    (h : p.Holds (AccountTables.Inv P recoverAddress) (AccountProc.Holds P recoverAddress)) :
    (step P recoverAddress p turn).Holds (AccountTables.Inv P recoverAddress)
      (AccountProc.Holds P recoverAddress) :=
  Pool.holds_step (fun t call _ => AccountProc.holds_enter call t)
    (fun x _ _ ht hc => (AccountProc.kept_advance ht x hc).2)
    (fun x _ _ _ ht hc hd =>
      AccountProc.holds_mono (AccountProc.kept_advance ht x hc).1 hd) p turn h

/-! ### Single use -/

/-- The request has taken the challenge of that number. -/
def holding (n : Nat) (proc : AccountProc) : Nat :=
  if proc.taken.map (fun tk => tk.challenge.serial) = some n then 1 else 0

/-- How many challenges of that number are in the table. -/
def waiting (n : Nat) (t : AccountTables) : Nat := t.challenges.countP fun c => c.serial = n

/-- Each challenge is in the table, or somebody has taken it, or neither. -/
def Single (p : Logins) : Prop := ∀ n, p.total (holding n) + waiting n p.shared ≤ 1

theorem holding_of_taken {n : Nat} {proc : AccountProc} {tk : Taken} (h : proc.taken = some tk) :
    holding n proc = if tk.challenge.serial = n then 1 else 0 := by
  rw [holding, h]
  simp

theorem holding_none {n : Nat} {proc : AccountProc} (h : proc.taken = none) :
    holding n proc = 0 := by
  simp [holding, h]

theorem taken_enter (call : AccountCall) :
    (AccountProc.enter P recoverAddress call).taken = none := by
  cases call with
  | encryptionSalt caller => rfl
  | profile caller => rfl
  | _ =>
      rw [AccountProc.enter]
      split <;> rfl

-- A new number is given to a new challenge.
theorem waiting_insertChallenge (n : Nat) (t : AccountTables) (id : String) (a : WalletAddress)
    (nonce message : String) (expiresAt : Nat) :
    waiting n (t.gcChallenges.insertChallenge id a nonce message expiresAt).2 ≤
      waiting n t + if t.issued.length = n then 1 else 0 := by
  have hkept : waiting n t.gcChallenges ≤ waiting n t :=
    List.Sublist.countP_le List.filter_sublist
  unfold AccountTables.insertChallenge
  split
  · exact hkept.trans (Nat.le_add_right _ _)
  · rw [waiting, List.countP_append, List.countP_singleton]
    have hserial : t.gcChallenges.issued.length = t.issued.length := rfl
    simp only [hserial, decide_eq_true_eq]
    exact Nat.add_le_add_right hkept _

theorem challenges_upsertUser (t : AccountTables) (a : WalletAddress) (username : String)
    (publicKey publicKeySig : Option String) :
    (t.upsertUser a username publicKey publicKeySig).challenges = t.challenges := by
  unfold AccountTables.upsertUser
  split <;> rfl

theorem signIn_challenges (t : AccountTables) (a : LoginAttempt) (tk : Taken) (username : String)
    (key : Option (String × String)) (candidate : Option String) :
    (AccountProc.signIn t a tk username key candidate).1.challenges = t.challenges ∧
      (AccountProc.signIn t a tk username key candidate).2.taken = some tk := by
  have hupsert := challenges_upsertUser t a.wallet username (key.map Prod.fst) (key.map Prod.snd)
  unfold AccountProc.signIn
  dsimp only
  split
  · exact ⟨hupsert, rfl⟩
  · exact ⟨hupsert, rfl⟩

/-- What a step takes from the table it holds, and a new challenge has a new number. -/
theorem balance_stepAt (n : Nat) (x : Moment) (t : AccountTables) (proc : AccountProc) :
    holding n (AccountProc.stepAt P recoverAddress x t proc).2 +
        waiting n (AccountProc.stepAt P recoverAddress x t proc).1 ≤
      holding n proc + (waiting n t + if t.issued.length = n then 1 else 0) := by
  let motive := fun r : AccountTables × AccountProc =>
    holding n r.2 + waiting n r.1 ≤
      holding n proc + (waiting n t + if t.issued.length = n then 1 else 0)
  -- A step that keeps what the request has taken, and the table but for a new challenge.
  have hkept : ∀ (t' : AccountTables) (q : AccountProc), q.taken = proc.taken →
      waiting n t' ≤ waiting n t + (if t.issued.length = n then 1 else 0) → motive (t', q) := by
    intro t' q hq hwaiting
    have hholding : holding n q = holding n proc := by rw [holding, hq, ← holding]
    change holding n q + waiting n t' ≤ _
    rw [hholding]
    exact Nat.add_le_add_left hwaiting _
  have hsame : ∀ (t' : AccountTables) (q : AccountProc), q.taken = proc.taken →
      t'.challenges = t.challenges → motive (t', q) := by
    intro t' q hq hchallenges
    refine hkept t' q hq ?_
    rw [waiting, hchallenges]
    exact Nat.le_add_right _ _
  cases proc with
  | drafting wallet =>
      refine hsame t _ ?_ rfl
      cases x.nonce <;> rfl
  | issuing wallet nonce id expiresAt =>
      have hnew := waiting_insertChallenge n t id wallet nonce (challengeMessage wallet nonce)
        expiresAt
      exact x.chance.meet_of (motive := motive) (hkept _ _ rfl hnew) (hsame t _ rfl rfl)
        (hkept _ _ rfl hnew)
  | consuming a =>
      have htaken : ∀ q : AccountProc,
          q.taken = (t.consumeChallenge a.challengeId).1.map (fun c => ⟨c, t.clock⟩) →
          motive ((t.consumeChallenge a.challengeId).2, q) := by
        intro q hq
        refine Nat.le_trans ?_ (Nat.add_le_add_left (Nat.le_add_right _ _) _)
        have hnone : holding n (.consuming a) = 0 := holding_none rfl
        rw [hnone, Nat.zero_add]
        cases hfound : (t.consumeChallenge a.challengeId).1 with
        | none =>
            rw [hfound] at hq
            rw [holding_none hq, Nat.zero_add]
            exact List.Sublist.countP_le List.filter_sublist
        | some c =>
            rw [hfound] at hq
            have hcount := Table.countP_erase (fun c : Challenge => decide (c.serial = n)) hfound
            simp only [decide_eq_true_eq] at hcount
            rw [holding_of_taken hq, Nat.add_comm]
            exact hcount
      exact x.chance.meet_of (motive := motive) (htaken _ rfl) (hsame t _ rfl rfl) (htaken _ rfl)
  | checking a taken =>
      refine hsame t _ ?_ rfl
      cases hcheck : checkChallenge recoverAddress a taken t.clock with
      | error e => rfl
      | ok tk => exact (checkChallenge_eq_ok hcheck).1.symm
  | reading a taken =>
      refine x.chance.meet_of (motive := motive) (hsame t _ ?_ rfl) (hsame t _ rfl rfl)
        (hsame t _ rfl rfl)
      cases checkAccount P recoverAddress a (t.getUser a.wallet) x.suspended <;> rfl
  | writing a taken username key =>
      have hsign := signIn_challenges t a taken username key x.salt
      exact x.chance.meet_of (motive := motive) (hsame _ _ hsign.2 hsign.1) (hsame t _ rfl rfl)
        (hsame _ _ rfl hsign.1)
  | salting caller =>
      cases hsalt : x.salt with
      | none =>
          simp only [AccountProc.stepAt, hsalt]
          exact hsame t _ rfl rfl
      | some candidate =>
          simp only [AccountProc.stepAt, hsalt]
          exact x.chance.meet_of (motive := motive) (hsame _ _ rfl rfl) (hsame t _ rfl rfl)
            (hsame _ _ rfl rfl)
  | publishing caller publicKey publicKeySig =>
      exact x.chance.meet_of (motive := motive) (hsame _ _ rfl rfl) (hsame t _ rfl rfl)
        (hsame _ _ rfl rfl)
  | viewing caller =>
      exact x.chance.meet_of (motive := motive) (hsame t _ rfl rfl) (hsame t _ rfl rfl)
        (hsame t _ rfl rfl)
  | updating caller username image =>
      exact x.chance.meet_of (motive := motive) (hsame _ _ rfl rfl) (hsame t _ rfl rfl)
        (hsame _ _ rfl rfl)
  | loggedOff a taken answer => exact hsame t _ rfl rfl
  | salted caller salt => exact hsame t _ rfl rfl
  | done answer => exact hsame t _ rfl rfl

/-- What every turn keeps, together. -/
def Inv (P : Primitives Secret Point) (recoverAddress : String → String → Option WalletAddress)
    (p : Logins) : Prop :=
  p.Holds (AccountTables.Inv P recoverAddress) (AccountProc.Holds P recoverAddress) ∧ p.Single

-- What is known of a request says that what it has taken was issued.
theorem held_of_holds {t : AccountTables} {proc : AccountProc}
    (h : proc.Holds P recoverAddress t) : ∀ tk ∈ proc.taken, Held t tk := by
  intro tk htk
  cases proc with
  | checking a taken => exact h tk htk
  | reading a taken =>
      cases htk
      exact h.1
  | writing a taken username key =>
      cases htk
      exact h.1
  | loggedOff a taken answer => exact h.1 tk htk
  | _ => cases htk

-- Nobody has a challenge of the next number.
theorem unused_next {p : Logins} (h : p.Inv P recoverAddress) :
    p.total (holding p.shared.issued.length) + waiting p.shared.issued.length p.shared = 0 := by
  have htotal : p.total (holding p.shared.issued.length) = 0 := by
    rw [Pool.total_eq_zero]
    intro c hc
    cases htaken : c.taken with
    | none => exact holding_none htaken
    | some tk =>
        have hlt := h.1.1.numbered _ (held_of_holds (h.1.2 c hc) tk htaken).1
        rw [holding_of_taken htaken, if_neg (by omega)]
  have hwaiting : waiting p.shared.issued.length p.shared = 0 := by
    rw [waiting, List.countP_eq_zero]
    intro c hc
    have hlt := h.1.1.numbered c (h.1.1.issued c hc)
    simp only [decide_eq_true_eq]
    omega
  omega

theorem single_step (p : Logins) (turn : Turn AccountCall Moment) (h : p.Inv P recoverAddress) :
    (step P recoverAddress p turn).Single := by
  intro n
  cases turn with
  | start call =>
      rw [Pool.total_start, holding_none (taken_enter call), Nat.add_zero]
      exact h.2 n
  | tick i x =>
      cases hc : p.procs[i]? with
      | none =>
          rw [step, Pool.step_tick_none hc]
          exact h.2 n
      | some c =>
          have htotal : (step P recoverAddress p (.tick i x)).total (holding n) + holding n c =
              p.total (holding n) +
                holding n (AccountProc.advance P recoverAddress x p.shared c).2 :=
            Pool.total_tick (holding n) hc
          have hbalance : holding n (AccountProc.advance P recoverAddress x p.shared c).2 +
              waiting n (AccountProc.advance P recoverAddress x p.shared c).1 ≤
              holding n c + (waiting n p.shared + if p.shared.issued.length = n then 1 else 0) :=
            balance_stepAt n x { p.shared with clock := p.shared.clock + x.elapsed } c
          have hshared : (step P recoverAddress p (.tick i x)).shared =
              (AccountProc.advance P recoverAddress x p.shared c).1 := by
            rw [step, Pool.step_tick hc]
          have hsingle := h.2 n
          rw [hshared]
          by_cases hnext : p.shared.issued.length = n
          · -- The next number is new, so at most one has it.
            subst hnext
            have hunused := unused_next h
            rw [if_pos rfl] at hbalance
            omega
          · rw [if_neg hnext] at hbalance
            omega

theorem inv_step (p : Logins) (turn : Turn AccountCall Moment) (h : p.Inv P recoverAddress) :
    (step P recoverAddress p turn).Inv P recoverAddress :=
  ⟨holds_step p turn h.1, single_step p turn h⟩

theorem inv_start : start.Inv P recoverAddress := by
  refine ⟨Pool.holds_idle ⟨?_, Table.keyed_nil, ?_, ?_, ?_⟩, fun n => ?_⟩
  · intro u hu
    cases hu
  · intro c hc
    cases hc
  · intro c hc
    cases hc
  · intro c hc
    cases hc
  · exact Nat.zero_le 1

/-! ### The claim -/

-- Two that have taken one challenge are one.
theorem eq_of_taken {p : Logins} (h : p.Single) {i j : Nat} {tk tk' : Taken}
    (hi : (p.procs[i]?).bind AccountProc.taken = some tk)
    (hj : (p.procs[j]?).bind AccountProc.taken = some tk')
    (hsame : tk'.challenge = tk.challenge) : j = i := by
  rcases Option.bind_eq_some_iff.1 hi with ⟨c, hc, htk⟩
  rcases Option.bind_eq_some_iff.1 hj with ⟨d, hd, htk'⟩
  by_cases hne : j = i
  · exact hne
  · have hboth := Pool.add_le_total (holding tk.challenge.serial) hne hd hc
    rw [holding_of_taken htk, holding_of_taken htk', hsame, if_pos rfl] at hboth
    have hsingle := h tk.challenge.serial
    omega

-- What has been taken is not in the table.
theorem not_waiting {p : Logins} (h : p.Single) {i : Nat} {c : AccountProc} {tk : Taken}
    (hc : p.procs[i]? = some c) (htk : c.taken = some tk) :
    tk.challenge ∉ p.shared.challenges := by
  intro hmem
  have hheld := Pool.le_total (holding tk.challenge.serial) (Pool.mem_of_getElem? hc)
  rw [holding_of_taken htk, if_pos rfl] at hheld
  have hwaiting : 0 < waiting tk.challenge.serial p.shared :=
    List.countP_pos_iff.2 ⟨tk.challenge, hmem, by simp⟩
  have hsingle := h tk.challenge.serial
  omega

theorem salt_of_holds {t : AccountTables} {proc : AccountProc} {wallet : WalletAddress}
    {v : String} (h : proc.Holds P recoverAddress t)
    (hsalt : proc.answeredSalt = some (wallet, v)) :
    Table.lookup Prod.fst wallet t.salts = some (wallet, v) := by
  cases proc with
  | loggedOff a taken answer =>
      cases answer with
      | loggedIn user salt =>
          cases hsalt
          exact (h.2 user v rfl).1
      | _ => cases hsalt
  | salted caller salt =>
      cases hsalt
      exact h
  | _ => cases hsalt

/-- Every state that keeps the invariant is sound. -/
theorem sound_of_inv (p : Logins) (h : p.Inv P recoverAddress) : p.Sound P recoverAddress where
  single i a taken user salt hproc := by
    have hholds := h.1.2 _ (Pool.mem_of_getElem? hproc)
    rcases (hholds.2 user salt rfl).2 with ⟨tk, rfl, hgenuine⟩
    have hissued := (hholds.1 tk rfl).1
    refine ⟨tk, rfl, hissued, not_waiting h.2 hproc rfl, hgenuine, ?_, ?_⟩
    · rw [h.1.1.message _ hissued, hgenuine.wallet]
    · intro j tk' hne htk' hsame
      exact hne (eq_of_taken h.2 (by rw [hproc]; rfl) htk' hsame)
  bound := h.1.1.bound
  salt c hc d hd wallet v v' hv hv' := by
    have hfirst := salt_of_holds (h.1.2 c hc) hv
    rw [salt_of_holds (h.1.2 d hd) hv'] at hfirst
    exact (congrArg Prod.snd (Option.some.inj hfirst)).symm

/-! ### What a login leaves alone -/

theorem users_signIn (t : AccountTables) (a : LoginAttempt) (tk : Taken) (username : String)
    (key : Option (String × String)) (candidate : Option String) :
    (AccountProc.signIn t a tk username key candidate).1.users =
      (t.upsertUser a.wallet username (key.map Prod.fst) (key.map Prod.snd)).users := by
  unfold AccountProc.signIn
  dsimp only
  split <;> rfl

/-- Only the last step of a login writes an account. -/
theorem users_stepAt {t : AccountTables} {x : Moment} {proc : AccountProc} {a : LoginAttempt}
    (hattempt : proc.attempt = some a) :
    (AccountProc.stepAt P recoverAddress x t proc).1.users = t.users ∨
      x.chance ≠ .fails ∧ ∃ tk username key, proc = .writing a tk username key ∧
        (AccountProc.stepAt P recoverAddress x t proc).1.users =
          (t.upsertUser a.wallet username (key.map Prod.fst) (key.map Prod.snd)).users := by
  let same := fun r : AccountTables × AccountProc => r.1.users = t.users
  cases proc with
  | consuming b => exact Or.inl (x.chance.meet_of (motive := same) rfl rfl rfl)
  | checking b taken => exact Or.inl rfl
  | reading b taken => exact Or.inl (x.chance.meet_of (motive := same) rfl rfl rfl)
  | loggedOff b taken answer => exact Or.inl rfl
  | writing b taken username key =>
      cases hattempt
      have hsign := users_signIn t a taken username key x.salt
      cases hchance : x.chance with
      | fails =>
          left
          simp only [AccountProc.stepAt, hchance, Chance.meet_fails]
      | ok =>
          refine Or.inr ⟨by decide, taken, username, key, rfl, ?_⟩
          simpa only [AccountProc.stepAt, hchance, Chance.meet_ok] using hsign
      | cutOff =>
          refine Or.inr ⟨by decide, taken, username, key, rfl, ?_⟩
          simpa only [AccountProc.stepAt, hchance, Chance.meet_cutOff] using hsign
  | _ => cases hattempt

-- What becomes of the account that is written.
theorem username_upsertUser (t : AccountTables) (a : WalletAddress) (username : String)
    (publicKey publicKeySig : Option String) :
    ((t.upsertUser a username publicKey publicKeySig).getUser a).map User.username =
      some username := by
  rw [AccountTables.getUser_upsertUser, if_pos rfl]
  cases t.getUser a with
  | none => rfl
  | some u => cases publicKey <;> rfl

theorem key_upsertUser (t : AccountTables) (a : WalletAddress) (username : String) :
    ((t.upsertUser a username none none).getUser a).bind User.publicKey =
        (t.getUser a).bind User.publicKey ∧
      ((t.upsertUser a username none none).getUser a).bind User.publicKeySig =
        (t.getUser a).bind User.publicKeySig := by
  rw [AccountTables.getUser_upsertUser, if_pos rfl]
  cases t.getUser a with
  | none => exact ⟨rfl, rfl⟩
  | some u => exact ⟨rfl, rfl⟩

theorem getUser_congr {t t' : AccountTables} (h : t.users = t'.users) (a : WalletAddress) :
    t.getUser a = t'.getUser a := by
  rw [AccountTables.getUser, AccountTables.getUser, h]

/-- What a step of a login does to its account: nothing, or it writes what it has read. -/
theorem getUser_step {p : Logins} {i : Nat} {x : Moment} {c : AccountProc} {a : LoginAttempt}
    (hc : p.procs[i]? = some c) (ha : c.attempt = some a) :
    (step P recoverAddress p (.tick i x)).shared.getUser a.wallet = p.shared.getUser a.wallet ∨
      x.chance ≠ .fails ∧ ∃ tk username key, c = .writing a tk username key ∧
        (step P recoverAddress p (.tick i x)).shared.getUser a.wallet =
          ({ p.shared with clock := p.shared.clock + x.elapsed }.upsertUser a.wallet username
            (key.map Prod.fst) (key.map Prod.snd)).getUser a.wallet := by
  have hshared : (step P recoverAddress p (.tick i x)).shared =
      (AccountProc.advance P recoverAddress x p.shared c).1 := by
    rw [step, Pool.step_tick hc]
  rw [hshared]
  have husers := @users_stepAt _ _ P recoverAddress
    { p.shared with clock := p.shared.clock + x.elapsed } x c a ha
  rcases husers with hsame | ⟨hchance, tk, username, key, hproc, hwritten⟩
  · exact Or.inl (getUser_congr hsame a.wallet)
  · exact Or.inr ⟨hchance, tk, username, key, hproc, getUser_congr hwritten a.wallet⟩

/-- The last step of a login, if its database call goes through. -/
theorem getUser_writing {p : Logins} {i : Nat} {x : Moment} {a : LoginAttempt} {tk : Taken}
    {username : String} {key : Option (String × String)}
    (hproc : p.procs[i]? = some (.writing a tk username key)) (hchance : x.chance ≠ .fails) :
    ((step P recoverAddress p (.tick i x)).shared.getUser a.wallet).map User.username =
      some username := by
  have hsign := users_signIn { p.shared with clock := p.shared.clock + x.elapsed } a tk username
    key x.salt
  have husers : (step P recoverAddress p (.tick i x)).shared.users =
      ({ p.shared with clock := p.shared.clock + x.elapsed }.upsertUser a.wallet username
        (key.map Prod.fst) (key.map Prod.snd)).users := by
    rw [step, Pool.step_tick hproc]
    cases hcase : x.chance with
    | fails => exact absurd hcase hchance
    | ok => simpa only [AccountProc.advance, AccountProc.stepAt, hcase, Chance.meet_ok] using hsign
    | cutOff =>
        simpa only [AccountProc.advance, AccountProc.stepAt, hcase, Chance.meet_cutOff] using hsign
  rw [getUser_congr husers]
  exact username_upsertUser _ a.wallet username _ _

/-- A login leaves the account alone exactly if the name it writes back is still the stored
    one. -/
theorem undisturbed_iff (p : Logins) (turn : Turn AccountCall Moment)
    (h : p.Inv P recoverAddress) :
    p.Undisturbed P recoverAddress turn ↔ p.NameCurrent turn := by
  constructor
  · intro hundisturbed i x a tk username key hturn hproc hname hchance
    subst hturn
    have hleft := (hundisturbed i x a rfl (by rw [hproc]; rfl)).1 hname
    rw [← hleft]
    exact getUser_writing hproc hchance
  · intro hcurrent i x a hturn hattempt
    subst hturn
    rcases Option.bind_eq_some_iff.1 hattempt with ⟨c, hc, ha⟩
    rcases @getUser_step _ _ P recoverAddress p i x c a hc ha with
      hsame | ⟨hchance, tk, username, key, rfl, hwritten⟩
    · rw [hsame]
      exact ⟨fun _ => rfl, fun _ => ⟨rfl, rfl⟩⟩
    · refine ⟨fun hname => ?_, fun hkeyless => ?_⟩
      · have hread := hcurrent i x a tk username key rfl hc hname hchance
        rw [hread]
        exact getUser_writing hc hchance
      · -- A login without a key comes here without one.
        have hprepared := (h.1.2 _ (Pool.mem_of_getElem? hc)).2.2
        have hnone := hprepared.keyless hkeyless
        subst hnone
        rw [hwritten]
        exact key_upsertUser _ a.wallet username

/-- **Logins.** In every run each login that succeeds has used up a challenge of its own, every
    key is bound and every salt stays the same. And every login leaves alone what it does not
    bring exactly in the runs in which a name that is written back is still the stored one. -/
theorem logins_iff (P : Primitives Secret Point)
    (recoverAddress : String → String → Option WalletAddress)
    (turns : List (Turn AccountCall Moment)) :
    Run.Throughout (step P recoverAddress) (Sound P recoverAddress) start turns ∧
        Run.Along (step P recoverAddress) (Undisturbed P recoverAddress) start turns ↔
      Run.Along (step P recoverAddress) NameCurrent start turns := by
  have hsound : Run.Throughout (step P recoverAddress) (Sound P recoverAddress) start turns :=
    Run.throughout_mono sound_of_inv _ turns
      (Run.throughout_of_step inv_step _ turns inv_start)
  have hsame := Run.along_congr (C := NameCurrent) (fun p turn h _ => inv_step p turn h)
    (@undisturbed_iff _ _ P recoverAddress) start turns inv_start
  rw [hsame]
  exact and_iff_right hsound

end Logins

end Safety

namespace Sample

/-- Signatures that tell their wallet. -/
def signedBy (_ signature : String) : Option WalletAddress :=
  if signature = "0xa11ce" then some alice else none

def aliceLogsIn (name : JsonName) (challengeId : String) : LoginBody :=
  ⟨some alice.str, name, some challengeId, some "0xa11ce", none, none⟩

/-- All goes well. -/
def smoothly (id : String) : Moment := ⟨1, .ok, id, some "00ff", some "5a17", false⟩

/-- Alice signs up under a name. She logs in again on another device, and while the server is
    at it she changes her name. -/
def renamedTurns : List (Turn AccountCall Moment) :=
  [.start (.challenge (some alice.str)), .tick 0 (smoothly "c0"), .tick 0 (smoothly "c0"),
    .start (.login (aliceLogsIn (.string "Alice") "c0")), .tick 1 (smoothly ""),
    .tick 1 (smoothly ""), .tick 1 (smoothly ""), .tick 1 (smoothly ""),
    .start (.challenge (some alice.str)), .tick 2 (smoothly "c1"), .tick 2 (smoothly "c1"),
    .start (.login (aliceLogsIn .null "c1")), .tick 3 (smoothly ""), .tick 3 (smoothly ""),
    .tick 3 (smoothly ""), .start (.updateProfile alice (some "Alicia") none),
    .tick 4 (smoothly ""), .tick 3 (smoothly "")]

/-- The second login, as it is checked. -/
def aliceAgain : LoginAttempt := ⟨alice, "c1", "0xa11ce", "", none, none⟩

/-- The name that was set meanwhile is lost. -/
theorem renamed_meanwhile :
    ¬ (Run.Throughout (Logins.step openPrimitives signedBy) (Logins.Sound openPrimitives signedBy)
        Logins.start renamedTurns ∧
      Run.Along (Logins.step openPrimitives signedBy) (Logins.Undisturbed openPrimitives signedBy)
        Logins.start renamedTurns) := by
  rintro ⟨-, hleft⟩
  have hsplit : renamedTurns = renamedTurns.take 17 ++ [.tick 3 (smoothly "")] := by
    decide +kernel
  rw [hsplit, Run.along_append] at hleft
  have hlast := hleft.2.1 3 (smoothly "") aliceAgain rfl (by decide +kernel)
  exact absurd (hlast.1 rfl) (by decide +kernel)

end Sample

end PocketSkynet
