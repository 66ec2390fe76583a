import PocketSkynet.Server.Hub
import PocketSkynet.Server.Sample
import PocketSkynet.Server.Validate

/-!
# Suspension

A token cannot be revoked, so a suspension takes effect where a token is presented. The set
that is asked there is a copy of a table. Whoever changes the table reads it afterwards in one
step and overwrites the set with the reading in another.

Administrative requests, other requests and streams are processes that take turns. A stream
asks the set when it is opened and before every live event, and not while it replays. A file
is sent to whoever holds a link to it or a session token, and the set is not asked.

Beside the state a run keeps the accounts that are to be refused: those whose suspension has
been answered, until a reinstatement of them begins.

## Main definitions

* `Gate`: The table, the set and the log of events.
* `AccessCall`, `AccessProc`, `AccessProc.advance`: What comes in, step by step.
* `AccessProc.sent`: What a step sends on a stream.
* `Access.Synced`, `Access.Refuses`: What is claimed of a state, and of a step.
* `Access.Guarded`: The condition on a step.

## Theorems

* `inv_step`: Guarded steps keep every refused account in the set.
* `suspension_exact`: Then suspensions are exact and immediate.
* `suspension_escapes`: Three runs in which they are not.
-/

namespace PocketSkynet

/-- A suspended account. -/
structure Suspension where
  walletAddress : WalletAddress
  reason : Option String
  suspendedBy : WalletAddress
  createdAt : Nat
deriving DecidableEq, Repr

/-- The table, the set that stands for it, the log of events, and the accounts that are to be
    refused. -/
structure Gate where
  table : List Suspension
  set : List WalletAddress
  log : EventLog
  barred : List WalletAddress
deriving DecidableEq, Repr

namespace Gate

/-- Every suspended address. -/
def suspendedAddresses (g : Gate) : List WalletAddress := g.table.map Suspension.walletAddress

/-- A server that has just started, and loaded the set. -/
def boot (table : List Suspension) : Gate :=
  let addresses := table.map Suspension.walletAddress
  ⟨table, addresses, .empty, addresses⟩

def isSuspended (g : Gate) (address : WalletAddress) : Bool := g.set.contains address

/-- Suspend an account. To do it again renews the reason. -/
def suspend (g : Gate) (address : WalletAddress) (reason : Option String)
    (suspendedBy : WalletAddress) (now : Nat) : Gate :=
  match Table.lookup Suspension.walletAddress address g.table with
  | none => { g with table := g.table ++ [⟨address, reason, suspendedBy, now⟩] }
  | some _ =>
      { g with
        table := Table.modify Suspension.walletAddress address
          (fun row => { row with reason := reason, suspendedBy := suspendedBy }) g.table }

/-- Lift a suspension. -/
def reinstate (g : Gate) (address : WalletAddress) : Gate :=
  { g with table := Table.erase Suspension.walletAddress address g.table }

end Gate

/-! ### Credentials -/

/-- What a request has in a place for a token: nothing, something that does not verify, or
    something that does. -/
inductive Credential (α : Type) where
  | absent
  | invalid
  | valid (a : α)
deriving DecidableEq, Repr

/-- The credentials of a request: a session token, and the link of a download with the wallet
    and the scope it was minted for. -/
structure Credentials where
  bearer : Credential WalletAddress
  dl : Credential (WalletAddress × String)
deriving DecidableEq, Repr

def suspendedError : ApiError :=
  .unauthorized "This account has been suspended by a server administrator."

/-- The caller of a request with a session token. -/
def authUser (g : Gate) (bearer : Credential WalletAddress) : Except ApiError WalletAddress :=
  match bearer with
  | .absent => .error (.unauthorized "No token provided")
  | .invalid => .error (.unauthorized "Invalid token")
  | .valid wallet => if g.isSuspended wallet then .error suspendedError else .ok wallet

/-- The scope of a link to a file. -/
def downloadScope (id : String) : String := "file:" ++ id

/-- Who is asking for a file. A link is the credential if there is one. -/
def resolveDownloader (id : String) (c : Credentials) : Except ApiError WalletAddress :=
  match c.dl with
  | .valid (wallet, scope) =>
      if scope = downloadScope id then .ok wallet
      else .error (.unauthorized "Invalid or expired download link")
  | .invalid => .error (.unauthorized "Invalid or expired download link")
  | .absent =>
      match c.bearer with
      | .absent => .error (.unauthorized "Missing token")
      | .invalid => .error (.unauthorized "Invalid token")
      | .valid wallet => .ok wallet

/-- An administrator of the server. -/
def serverAdmin (admins : List WalletAddress) (g : Gate) (bearer : Credential WalletAddress) :
    Except ApiError WalletAddress := do
  let wallet ← authUser g bearer
  ensure (admins.contains wallet) (.forbidden "This action requires a server administrator.")
  return wallet

/-- A stream is opened with a ticket or a token. -/
def resolveActive (g : Gate) (credential : Credential WalletAddress) :
    Except ApiError WalletAddress :=
  authUser g credential

/-! ### Requests -/

/-- What comes in. The files are their ids, and a stream has the cursor of its client. -/
inductive AccessCall where
  | suspend (bearer : Credential WalletAddress) (target : String) (reason : Option String)
  | evict (bearer : Credential WalletAddress) (target : String)
  | reinstate (bearer : Credential WalletAddress) (target : String)
  | request (bearer : Credential WalletAddress)
  | download (id : String) (credentials : Credentials)
  | thumbnail (id : String) (credentials : Credentials)
  | stream (credential : Credential WalletAddress) (cursor : Option Nat)
  | publish (publication : Target × Option WalletAddress × ServerEvent)
deriving DecidableEq, Repr

/-- What an administrative request has done. -/
inductive Ruling where
  | suspended (wallet : WalletAddress)
  | reinstated (wallet : WalletAddress)
deriving DecidableEq, Repr

/-- How far it has got. -/
inductive AccessProc where
  | called (call : AccessCall)
  | suspending (target : WalletAddress) (reason : Option String) (admin : WalletAddress)
  | reinstating (target : WalletAddress)
  | loading (ruling : Ruling)
  | storing (reading : List WalletAddress) (ruling : Ruling)
  | returning (ruling : Ruling)
  | opening (wallet : WalletAddress) (cursor : Option Nat)
  | registering (wallet : WalletAddress) (cursor : Option Nat)
  | replaying (wallet : WalletAddress) (cursor : Nat)
  | resuming (wallet : WalletAddress) (envelopes : List Envelope)
  | live (wallet : WalletAddress)
  | answered (answer : Except ApiError WalletAddress)
  | done
deriving DecidableEq, Repr

/-- What the loop of a stream meets. -/
inductive Incoming where
  | event (env : Envelope)
  | lagged
  | deadline
  | closed
deriving DecidableEq, Repr

/-- What a turn meets: the time, whether the caller may see the file, whether the server takes
    no more connections, the view of the connection by now, whether the log refuses to replay,
    whether the token of a stream has expired, and what comes in on it. -/
structure AccessInput where
  now : Nat
  visible : Bool
  full : Bool
  view : ConnView
  refused : Bool
  tokenExpired : Bool
  incoming : Incoming
deriving DecidableEq, Repr

/-- Whom an administrator can suspend. -/
def checkTarget (admins : List WalletAddress) (admin : WalletAddress) (target selfText : String) :
    Except ApiError WalletAddress := do
  let target ← Validate.walletAddress "walletAddress" (some target)
  ensure (target ≠ admin) (.badRequest selfText)
  ensure (!admins.contains target) (.badRequest ("That wallet is a server administrator. " ++
    "Remove it from VITE_FRUITNATION_ADMIN first."))
  return target

/-- A reason as it is kept. -/
def keptReason (reason : Option String) : Option String :=
  ((reason.map trimmed).filter (· ≠ "")).map fun r => String.ofList (r.toList.take 500)

namespace AccessProc

variable (admins : List WalletAddress)

/-- A request that has arrived is checked. -/
def allowIn (x : AccessInput) (g : Gate) : AccessCall → Gate × AccessProc
  | .suspend bearer target reason =>
      (g, match (do
          let admin ← serverAdmin admins g bearer
          let target ← checkTarget admins admin target ("You cannot suspend yourself. " ++
            "Remove your address from VITE_FRUITNATION_ADMIN instead.")
          return (admin, target) : Except ApiError (WalletAddress × WalletAddress)) with
        | .ok (admin, target) => suspending target (keptReason reason) admin
        | .error e => answered (.error e))
  | .evict bearer target =>
      (g, match (do
          let admin ← serverAdmin admins g bearer
          let target ← checkTarget admins admin target "You cannot remove yourself."
          return (admin, target) : Except ApiError (WalletAddress × WalletAddress)) with
        | .ok (admin, target) => suspending target (some "Removed from the server") admin
        | .error e => answered (.error e))
  | .reinstate bearer target =>
      match (do
          let _ ← serverAdmin admins g bearer
          Validate.walletAddress "walletAddress" (some target) :
            Except ApiError WalletAddress) with
      | .ok target => ({ g with barred := g.barred.filter (· ≠ target) }, reinstating target)
      | .error e => (g, answered (.error e))
  | .request bearer => (g, answered (authUser g bearer))
  | .download id credentials | .thumbnail id credentials =>
      (g, answered (do
        let caller ← resolveDownloader id credentials
        ensure x.visible (.notFound "File not found")
        return caller))
  | .stream credential cursor =>
      (g, match resolveActive g credential with
        | .ok wallet => opening wallet cursor
        | .error e => answered (.error e))
  | .publish publication => ({ g with log := g.log.append (some publication) }, done)

/-- An administrative request is over. Its record is written, and a suspended account is told. -/
def conclude (g : Gate) : Ruling → Gate
  | .suspended wallet =>
      { g with
        log := (g.log.append none).append
          (some (.user wallet, none, .sessionExpired "Account suspended"))
        barred := wallet :: g.barred }
  | .reinstated _ => { g with log := g.log.append none }

/-- One turn of the loop of a stream, with what it sends. -/
def listen (x : AccessInput) (g : Gate) (wallet : WalletAddress) :
    AccessProc × Option ServerEvent :=
  match x.incoming with
  | .event env =>
      if !x.view.accepts env wallet then (live wallet, none)
      else if x.tokenExpired then (done, some (.sessionExpired "token_expired"))
      else if g.isSuspended wallet then (done, some (.sessionExpired "suspended"))
      else (live wallet, some env.event)
  | .lagged => (live wallet, some (.resyncRequired .lagged 0 g.log.laggedSeq))
  | .deadline => (done, some (.sessionExpired "stream_lifetime"))
  | .closed => (done, none)

/-- The next step, with what it sends on a stream. -/
def act (x : AccessInput) (g : Gate) : AccessProc → (Gate × AccessProc) × Option ServerEvent
  | called call => (allowIn admins x g call, none)
  | suspending target reason admin =>
      ((g.suspend target reason admin x.now, loading (.suspended target)), none)
  | reinstating target => ((g.reinstate target, loading (.reinstated target)), none)
  | loading ruling => ((g, storing g.suspendedAddresses ruling), none)
  | storing reading ruling => (({ g with set := reading }, returning ruling), none)
  | returning ruling => ((conclude g ruling, done), none)
  | opening wallet cursor =>
      ((g, if x.full then done else registering wallet cursor), none)
  | registering wallet cursor =>
      ((g, if x.full then done
        else match cursor with
          | some cursor => replaying wallet cursor
          | none => live wallet), none)
  | replaying wallet cursor =>
      match g.log.replaySince x.refused cursor x.view wallet with
      | some envelopes => ((g, resuming wallet envelopes), none)
      | none =>
          ((g, live wallet), some (.resyncRequired .cursorTooOld cursor g.log.laggedSeq))
  | resuming wallet [] => ((g, live wallet), none)
  | resuming wallet (env :: rest) => ((g, resuming wallet rest), some env.event)
  | live wallet => ((g, (listen x g wallet).1), (listen x g wallet).2)
  | answered answer => ((g, answered answer), none)
  | done => ((g, done), none)

def advance (x : AccessInput) (g : Gate) (proc : AccessProc) : Gate × AccessProc :=
  (act admins x g proc).1

def sent (x : AccessInput) (g : Gate) (proc : AccessProc) : Option ServerEvent :=
  (act admins x g proc).2

/-- An administrative request that has begun and not been answered. -/
def InProgress : AccessProc → Bool
  | suspending _ _ _ | reinstating _ | loading _ | storing _ _ | returning _ => true
  | _ => false

/-- Whose stream it is. -/
def listener : AccessProc → Option WalletAddress
  | opening wallet _ | registering wallet _ | replaying wallet _ | resuming wallet _
  | live wallet => some wallet
  | _ => none

def IsRefused : AccessProc → Bool
  | answered (.error _) => true
  | _ => false

end AccessProc

namespace Credential

def wallet : Credential WalletAddress → Option WalletAddress
  | valid wallet => some wallet
  | _ => none

end Credential

/-- Whose token or link a request goes by. -/
def AccessCall.presents : AccessCall → Option WalletAddress
  | suspend bearer _ _ | evict bearer _ | reinstate bearer _ | request bearer
  | stream bearer _ => bearer.wallet
  | download _ c | thumbnail _ c =>
      match c.dl with
      | .valid link => some link.1
      | .invalid => none
      | .absent => c.bearer.wallet
  | publish _ => none

/-- The set has what the table has. -/
def Gate.Reflects (g : Gate) (reading : List WalletAddress) : Prop :=
  (∀ a ∈ reading, a ∈ g.suspendedAddresses) ∧ ∀ a ∈ g.suspendedAddresses, a ∈ reading

instance (g : Gate) (reading : List WalletAddress) : Decidable (g.Reflects reading) :=
  inferInstanceAs (Decidable ((∀ a ∈ _, _) ∧ ∀ a ∈ _, _))

namespace AccessProc

/-- It is still to read the table, or to store what the table says. -/
def Repairs (g : Gate) : AccessProc → Prop
  | suspending _ _ _ | reinstating _ | loading _ => True
  | storing reading _ => g.Reflects reading
  | _ => False

instance (g : Gate) : DecidablePred (Repairs g)
  | suspending _ _ _ | reinstating _ | loading _ => .isTrue trivial
  | storing reading _ => inferInstanceAs (Decidable (g.Reflects reading))
  | called _ | returning _ | opening _ _ | registering _ _ | replaying _ _ | resuming _ _
  | live _ | answered _ | done => .isFalse id

/-- The account whose suspension has been stored and is about to be answered. -/
def secured : AccessProc → List WalletAddress
  | returning (.suspended wallet) => [wallet]
  | _ => []

end AccessProc

/-- The account that has been suspended. -/
def Ruling.target : Ruling → List WalletAddress
  | suspended wallet => [wallet]
  | reinstated _ => []

/-- The requests and the tables. -/
abbrev Access := Pool Gate AccessProc

namespace Access

variable (admins : List WalletAddress)

/-- The system after a turn. -/
abbrev step (p : Access) (turn : Turn AccessCall AccessInput) : Access :=
  Pool.step AccessProc.called (AccessProc.advance admins) p turn

/-- Whenever no administrative request is in progress the set equals the table. -/
def Synced (p : Access) : Prop :=
  (∀ t ∈ p.procs, t.InProgress = false) → p.shared.Reflects p.shared.set

/-- What is claimed of a step: a request of an account that is to be refused is refused, and
    on its streams nothing is sent but the notice with which a stream ends. -/
def Refuses (p : Access) (turn : Turn AccessCall AccessInput) : Prop :=
  ∀ i x t, turn = .tick i x → p.procs[i]? = some t →
    (∀ call, t = .called call → ∀ a ∈ call.presents, a ∈ p.shared.barred →
      (t.advance admins x p.shared).2.IsRefused = true) ∧
    (∀ a ∈ t.listener, a ∈ p.shared.barred → ∀ e ∈ t.sent admins x p.shared,
      (t.advance admins x p.shared).2 = .done ∧ ∃ reason, e = .sessionExpired reason)

/-- The accounts that a reading must have to be stored: those that are to be refused, and
    those whose suspension is about to be answered. -/
def owed (p : Access) : List WalletAddress := p.shared.barred ++ p.procs.flatMap AccessProc.secured

/-- A reading that is stored has every account it must have, and is what the table says by
    now or is not the last one. No file goes to an account that is to be refused, and its
    streams are not replayed and not told to start over. -/
def Allows (p : Access) (i : Nat) (x : AccessInput) : AccessProc → Prop
  | .storing reading ruling =>
      (∀ a ∈ p.owed ++ ruling.target, a ∈ reading) ∧
        (p.shared.Reflects reading ∨ ∃ t ∈ p.procs.eraseIdx i, t.Repairs p.shared)
  | .called (.download id c) | .called (.thumbnail id c) =>
      x.visible = true → ∀ a ∈ p.shared.barred, resolveDownloader id c ≠ .ok a
  | .replaying wallet cursor =>
      wallet ∈ p.shared.barred →
        (p.shared.log.replaySince x.refused cursor x.view wallet).isSome = true
  | .resuming wallet envelopes => envelopes ≠ [] → wallet ∉ p.shared.barred
  | .live wallet => x.incoming = .lagged → wallet ∉ p.shared.barred
  | _ => True

/-- The condition on a step: the process that moves is allowed to. -/
def Guarded (p : Access) : Turn AccessCall AccessInput → Prop
  | .start _ => True
  | .tick i x => ∀ t ∈ p.procs[i]?, p.Allows i x t

instance (p : Access) (i : Nat) (x : AccessInput) : DecidablePred (p.Allows i x)
  | .storing _ _ => inferInstanceAs (Decidable ((∀ a ∈ _, _) ∧ (_ ∨ ∃ t ∈ _, _)))
  | .called (.download _ _) | .called (.thumbnail _ _) =>
      inferInstanceAs (Decidable (_ = _ → ∀ a ∈ _, _ ≠ _))
  | .replaying _ _ => inferInstanceAs (Decidable (_ ∈ _ → _ = _))
  | .resuming _ _ => inferInstanceAs (Decidable (_ ≠ _ → _ ∉ _))
  | .live _ => inferInstanceAs (Decidable (_ = _ → _ ∉ _))
  | .called (.suspend _ _ _) | .called (.evict _ _) | .called (.reinstate _ _)
  | .called (.request _) | .called (.stream _ _) | .called (.publish _) | .suspending _ _ _
  | .reinstating _ | .loading _ | .returning _ | .opening _ _ | .registering _ _ | .answered _
  | .done => .isTrue trivial

instance (p : Access) : DecidablePred p.Guarded
  | .start _ => .isTrue trivial
  | .tick _ _ => inferInstanceAs (Decidable (∀ t ∈ _, _))

/-- Every account that must be is in the set, and the set equals the table or somebody is
    coming to repair it. -/
def Inv (p : Access) : Prop :=
  (∀ a ∈ p.owed, a ∈ p.shared.set) ∧
    (p.shared.Reflects p.shared.set ∨ ∃ t ∈ p.procs, t.Repairs p.shared)

section

variable {admins} {p : Access} {i : Nat} {t t' : AccessProc} {g : Gate}

-- Whom a turn owes a place in the set.
theorem owed_set (a : WalletAddress) (ha : a ∈ owed ⟨g, p.procs.set i t'⟩) :
    a ∈ g.barred ∨ a ∈ t'.secured ∨ a ∈ p.procs.flatMap AccessProc.secured := by
  rcases List.mem_append.1 ha with ha | ha
  · exact Or.inl ha
  · rcases List.mem_flatMap.1 ha with ⟨u, hu, hau⟩
    rcases List.mem_or_eq_of_mem_set hu with hu | rfl
    · exact Or.inr (Or.inr (List.mem_flatMap.2 ⟨u, hu, hau⟩))
    · exact Or.inr (Or.inl hau)

/-- A step that changes neither the set nor the table, and gives nobody up. -/
theorem inv_of_same (hi : p.Inv) (ht : p.procs[i]? = some t) (hset : g.set = p.shared.set)
    (htable : g.table = p.shared.table)
    (howed : ∀ a, a ∈ g.barred ∨ a ∈ t'.secured → a ∈ p.owed)
    (hrepairs : t.Repairs p.shared → t'.Repairs g) : Inv ⟨g, p.procs.set i t'⟩ := by
  have hsame : ∀ u : AccessProc, u.Repairs p.shared → u.Repairs g := by
    intro u hu
    cases u with
    | storing reading ruling =>
        change g.Reflects reading
        rw [Gate.Reflects, Gate.suspendedAddresses, htable]
        exact hu
    | _ => exact hu
  refine ⟨fun a ha => ?_, ?_⟩
  · have hold : a ∈ p.owed := by
      rcases owed_set a ha with ha | ha | ha
      · exact howed a (Or.inl ha)
      · exact howed a (Or.inr ha)
      · exact List.mem_append_right _ ha
    change a ∈ g.set
    rw [hset]
    exact hi.1 a hold
  · rcases hi.2 with hfresh | hrep
    · left
      change g.Reflects g.set
      rw [Gate.Reflects, Gate.suspendedAddresses, htable, hset]
      exact hfresh
    · right
      exact Pool.exists_mem_set ht hrepairs hsame hrep

/-- A step that changes the table, and whose task is still to read it. -/
theorem inv_of_written (hi : p.Inv) (ht : p.procs[i]? = some t) (hset : g.set = p.shared.set)
    (hbarred : g.barred = p.shared.barred) (ruling : Ruling) :
    Inv ⟨g, p.procs.set i (.loading ruling)⟩ := by
  have hlt := (List.getElem?_eq_some_iff.1 ht).1
  refine ⟨fun a ha => ?_, Or.inr ⟨.loading ruling, List.mem_set hlt _, trivial⟩⟩
  change a ∈ g.set
  rw [hset]
  refine hi.1 a ?_
  rcases owed_set a ha with ha | ha | ha
  · rw [hbarred] at ha
    exact List.mem_append_left _ ha
  · cases ha
  · exact List.mem_append_right _ ha

-- What has arrived changes neither, and begins with nobody's suspension stored.
theorem admit_same (admins : List WalletAddress) (x : AccessInput) (g : Gate) (call : AccessCall) :
    (AccessProc.allowIn admins x g call).1.set = g.set ∧
      (AccessProc.allowIn admins x g call).1.table = g.table ∧
      (∀ a ∈ (AccessProc.allowIn admins x g call).1.barred, a ∈ g.barred) ∧
      (AccessProc.allowIn admins x g call).2.secured = [] := by
  cases call with
  | suspend bearer target reason =>
      refine ⟨rfl, rfl, fun _ h => h, ?_⟩
      rw [AccessProc.allowIn]
      dsimp only
      split <;> rfl
  | evict bearer target =>
      refine ⟨rfl, rfl, fun _ h => h, ?_⟩
      rw [AccessProc.allowIn]
      dsimp only
      split <;> rfl
  | reinstate bearer target =>
      rw [AccessProc.allowIn]
      split
      · exact ⟨rfl, rfl, fun a ha => (List.mem_filter.1 ha).1, rfl⟩
      · exact ⟨rfl, rfl, fun _ h => h, rfl⟩
  | stream credential cursor =>
      refine ⟨rfl, rfl, fun _ h => h, ?_⟩
      rw [AccessProc.allowIn]
      dsimp only
      split <;> rfl
  | _ => exact ⟨rfl, rfl, fun _ h => h, rfl⟩

-- A step of a stream, or of a request that has been answered.
theorem inv_of_idle (hi : p.Inv) (ht : p.procs[i]? = some t)
    (hrepairs : t.Repairs p.shared → t'.Repairs p.shared) (hsecured : t'.secured = []) :
    Inv ⟨p.shared, p.procs.set i t'⟩ := by
  refine inv_of_same hi ht rfl rfl (fun a ha => ?_) hrepairs
  rw [hsecured] at ha
  rcases ha with ha | ha
  · exact List.mem_append_left _ ha
  · cases ha

-- A stream goes on or ends.
theorem listen_next (x : AccessInput) (g : Gate) (wallet : WalletAddress) :
    (AccessProc.listen x g wallet).1 = .live wallet ∨ (AccessProc.listen x g wallet).1 = .done := by
  unfold AccessProc.listen
  cases x.incoming with
  | event env =>
      dsimp only
      by_cases haccepts : (!x.view.accepts env wallet) = true
      · rw [if_pos haccepts]
        exact Or.inl rfl
      · rw [if_neg haccepts]
        by_cases hexpired : x.tokenExpired = true
        · rw [if_pos hexpired]
          exact Or.inr rfl
        · rw [if_neg hexpired]
          by_cases hsuspended : g.isSuspended wallet = true
          · rw [if_pos hsuspended]
            exact Or.inr rfl
          · rw [if_neg hsuspended]
            exact Or.inl rfl
  | lagged => exact Or.inl rfl
  | deadline => exact Or.inr rfl
  | closed => exact Or.inr rfl

/-- Guarded steps keep the invariant. -/
theorem inv_step (p : Access) (turn : Turn AccessCall AccessInput) (hi : p.Inv)
    (hguarded : p.Guarded turn) : (p.step admins turn).Inv := by
  cases turn with
  | start call =>
      refine ⟨fun a ha => hi.1 a ?_, ?_⟩
      · rcases List.mem_append.1 ha with ha | ha
        · exact List.mem_append_left _ ha
        · refine List.mem_append_right _ ?_
          simpa [step, Pool.step, AccessProc.secured] using ha
      · rcases hi.2 with hfresh | ⟨t, ht, hrep⟩
        · exact Or.inl hfresh
        · exact Or.inr ⟨t, List.mem_append_left _ ht, hrep⟩
  | tick i x =>
      rcases ht : p.procs[i]? with _ | t
      · rwa [step, Pool.step_tick_none ht]
      have hlt := (List.getElem?_eq_some_iff.1 ht).1
      rw [step, Pool.step_tick ht]
      cases t with
      | called call =>
          have hsame := admit_same admins x p.shared call
          refine inv_of_same hi ht hsame.1 hsame.2.1 (fun a ha => ?_) fun h => h.elim
          rcases ha with ha | ha
          · exact List.mem_append_left _ (hsame.2.2.1 a ha)
          · have hnil : (AccessProc.allowIn admins x p.shared call).2.secured = [] := hsame.2.2.2
            change a ∈ (AccessProc.allowIn admins x p.shared call).2.secured at ha
            rw [hnil] at ha
            cases ha
      | suspending target reason admin =>
          have hset : (p.shared.suspend target reason admin x.now).set = p.shared.set ∧
              (p.shared.suspend target reason admin x.now).barred = p.shared.barred := by
            unfold Gate.suspend
            split <;> exact ⟨rfl, rfl⟩
          exact inv_of_written hi ht hset.1 hset.2 _
      | reinstating target =>
          exact inv_of_written (g := p.shared.reinstate target) hi ht rfl rfl (.reinstated target)
      | loading ruling =>
          exact inv_of_idle hi ht (fun _ => ⟨fun _ h => h, fun _ h => h⟩) rfl
      | storing reading ruling =>
          have hallows : p.Allows i x (.storing reading ruling) := hguarded _ ht
          refine ⟨fun a ha => ?_, ?_⟩
          · change a ∈ reading
            refine hallows.1 a ?_
            rcases owed_set a ha with ha | ha | ha
            · exact List.mem_append_left _ (List.mem_append_left _ ha)
            · refine List.mem_append_right _ ?_
              cases ruling with
              | suspended wallet => exact ha
              | reinstated wallet => exact ha
            · exact List.mem_append_left _ (List.mem_append_right _ ha)
          · rcases hallows.2 with hfresh | ⟨u, hu, hrep⟩
            · exact Or.inl hfresh
            · -- Somebody else is coming to repair the set.
              rcases List.mem_eraseIdx_iff_getElem?.1 hu with ⟨j, hj, hget⟩
              refine Or.inr ⟨u, List.mem_of_getElem? (i := j) ?_, ?_⟩
              · exact (List.getElem?_set_ne (Ne.symm hj)).trans hget
              · cases u <;> exact hrep
      | returning ruling =>
          cases ruling with
          | suspended wallet =>
              refine inv_of_same hi ht rfl rfl (fun a ha => ?_) fun h => h.elim
              rcases ha with ha | ha
              · rcases List.mem_cons.1 ha with rfl | ha
                · exact List.mem_append_right _ (List.mem_flatMap.2
                    ⟨_, List.mem_of_getElem? ht, List.mem_singleton.2 rfl⟩)
                · exact List.mem_append_left _ ha
              · cases ha
          | reinstated wallet =>
              refine inv_of_same hi ht rfl rfl (fun a ha => ?_) fun h => h.elim
              rcases ha with ha | ha
              · exact List.mem_append_left _ ha
              · cases ha
      | opening wallet cursor =>
          refine inv_of_idle hi ht (fun h => h.elim) ?_
          change (if x.full then AccessProc.done else .registering wallet cursor).secured = []
          cases x.full <;> rfl
      | registering wallet cursor =>
          simp only [AccessProc.advance, AccessProc.act]
          refine inv_of_idle hi ht (fun h => h.elim) ?_
          cases x.full <;> cases cursor <;> rfl
      | replaying wallet cursor =>
          simp only [AccessProc.advance, AccessProc.act]
          cases p.shared.log.replaySince x.refused cursor x.view wallet with
          | none => exact inv_of_idle hi ht (fun h => h.elim) rfl
          | some envelopes => exact inv_of_idle hi ht (fun h => h.elim) rfl
      | resuming wallet envelopes =>
          cases envelopes with
          | nil => exact inv_of_idle hi ht (fun h => h.elim) rfl
          | cons env rest => exact inv_of_idle hi ht (fun h => h.elim) rfl
      | live wallet =>
          refine inv_of_idle hi ht (fun h => h.elim) ?_
          rcases listen_next x p.shared wallet with hnext | hnext
          · exact congrArg AccessProc.secured hnext
          · exact congrArg AccessProc.secured hnext
      | answered answer => exact inv_of_idle hi ht (fun h => h.elim) rfl
      | done => exact inv_of_idle hi ht (fun h => h.elim) rfl

theorem synced_of_inv (p : Access) (hi : p.Inv) : p.Synced := by
  intro hrest
  rcases hi.2 with hfresh | ⟨t, ht, hrepairs⟩
  · exact hfresh
  · have hidle : t.InProgress = false := hrest t ht
    exfalso
    cases t with
    | suspending | reinstating | loading | storing => cases hidle
    | _ => exact hrepairs

-- An account in the set does not get past its token.
theorem authUser_suspended {g : Gate} {bearer : Credential WalletAddress} {a : WalletAddress}
    (ha : a ∈ bearer.wallet) (hset : a ∈ g.set) : authUser g bearer = .error suspendedError := by
  cases bearer with
  | absent => cases ha
  | invalid => cases ha
  | valid wallet =>
      cases ha
      have hcontains : g.isSuspended a = true := List.contains_iff_mem.2 hset
      rw [authUser, if_pos hcontains]

theorem serverAdmin_suspended {g : Gate} {bearer : Credential WalletAddress} {a : WalletAddress}
    (ha : a ∈ bearer.wallet) (hset : a ∈ g.set) :
    serverAdmin admins g bearer = .error suspendedError := by
  rw [serverAdmin, authUser_suspended ha hset]
  rfl

-- Whoever is let through is the one the request goes by.
theorem resolveDownloader_ok {id : String} {c : Credentials} {a wallet : WalletAddress}
    (ha : a ∈ (AccessCall.download id c).presents)
    (hok : resolveDownloader id c = .ok wallet) : wallet = a := by
  unfold resolveDownloader at hok
  rcases c with ⟨bearer, dl⟩
  cases dl with
  | absent =>
      cases bearer with
      | absent => cases ha
      | invalid => cases ha
      | valid w =>
          cases ha
          cases hok
          rfl
  | invalid => cases ha
  | valid link =>
      cases ha
      dsimp only at hok
      by_cases hscope : link.2 = downloadScope id
      · rw [if_pos hscope] at hok
        cases hok
        rfl
      · rw [if_neg hscope] at hok
        cases hok

-- A file is refused to an account whose link or token would not be let through.
theorem download_refused {id : String} {c : Credentials} {a : WalletAddress} {x : AccessInput}
    (ha : a ∈ (AccessCall.download id c).presents)
    (hguard : x.visible = true → resolveDownloader id c ≠ .ok a) :
    (AccessProc.answered (do
      let caller ← resolveDownloader id c
      ensure x.visible (.notFound "File not found")
      return caller)).IsRefused = true := by
  cases hresolve : resolveDownloader id c with
  | error e => rfl
  | ok wallet =>
      have hwallet : wallet = a := resolveDownloader_ok ha hresolve
      cases hvisible : x.visible with
      | false => rfl
      | true =>
          rw [hwallet] at hresolve
          exact absurd hresolve (hguard hvisible)

/-- A request of an account that is in the set is refused, but for a file that is there for
    whoever has a link to it. -/
theorem admit_refused {g : Gate} {call : AccessCall} {a : WalletAddress} {x : AccessInput}
    (ha : a ∈ call.presents) (hset : a ∈ g.set)
    (hguard : ∀ id c, call = .download id c ∨ call = .thumbnail id c →
      x.visible = true → resolveDownloader id c ≠ .ok a) :
    (AccessProc.allowIn admins x g call).2.IsRefused = true := by
  cases call with
  | suspend bearer target reason =>
      rw [AccessProc.allowIn, serverAdmin_suspended ha hset]
      rfl
  | evict bearer target =>
      rw [AccessProc.allowIn, serverAdmin_suspended ha hset]
      rfl
  | reinstate bearer target =>
      rw [AccessProc.allowIn, serverAdmin_suspended ha hset]
      rfl
  | request bearer =>
      rw [AccessProc.allowIn, authUser_suspended ha hset]
      rfl
  | download id c => exact download_refused ha (hguard id c (Or.inl rfl))
  | thumbnail id c => exact download_refused ha (hguard id c (Or.inr rfl))
  | stream credential cursor =>
      rw [AccessProc.allowIn, resolveActive, authUser_suspended ha hset]
      rfl
  | publish publication => cases ha

/-- A live stream of an account that is in the set ends with the next event it would have. -/
theorem listen_refused {g : Gate} {wallet : WalletAddress} {x : AccessInput} {e : ServerEvent}
    (hset : wallet ∈ g.set) (hlag : x.incoming ≠ .lagged)
    (he : e ∈ (AccessProc.listen x g wallet).2) :
    (AccessProc.listen x g wallet).1 = .done ∧ ∃ reason, e = .sessionExpired reason := by
  unfold AccessProc.listen at he ⊢
  cases hincoming : x.incoming with
  | event env =>
      simp only [hincoming] at he ⊢
      by_cases haccepts : (!x.view.accepts env wallet) = true
      · rw [if_pos haccepts] at he
        cases he
      · rw [if_neg haccepts] at he ⊢
        by_cases hexpired : x.tokenExpired = true
        · rw [if_pos hexpired] at he ⊢
          cases he
          exact ⟨rfl, "token_expired", rfl⟩
        · have hcontains : g.isSuspended wallet = true := List.contains_iff_mem.2 hset
          rw [if_neg hexpired, if_pos hcontains] at he ⊢
          cases he
          exact ⟨rfl, "suspended", rfl⟩
  | lagged => exact absurd hincoming hlag
  | deadline =>
      rw [hincoming] at he
      cases he
      exact ⟨rfl, "stream_lifetime", rfl⟩
  | closed =>
      simp only [hincoming] at he
      cases he

/-- With every refused account in the set, a guarded step refuses it. -/
theorem refuses_of_inv (p : Access) (turn : Turn AccessCall AccessInput) (hi : p.Inv)
    (hguarded : p.Guarded turn) : p.Refuses admins turn := by
  rintro i x t rfl ht
  have hallows : p.Allows i x t := hguarded t ht
  have hbarred : ∀ a ∈ p.shared.barred, a ∈ p.shared.set :=
    fun a ha => hi.1 a (List.mem_append_left _ ha)
  constructor
  · rintro call rfl a ha hbar
    refine admit_refused ha (hbarred a hbar) fun id c hcall hvisible => ?_
    rcases hcall with rfl | rfl
    · exact hallows hvisible a hbar
    · exact hallows hvisible a hbar
  · intro a ha hbar e he
    cases t with
    | opening wallet cursor => cases he
    | registering wallet cursor => cases he
    | replaying wallet cursor =>
        cases ha
        rcases Option.isSome_iff_exists.1 (hallows hbar) with ⟨envelopes, hreplay⟩
        simp only [AccessProc.sent, AccessProc.act, hreplay] at he
        cases he
    | resuming wallet envelopes =>
        cases ha
        cases envelopes with
        | nil => cases he
        | cons env rest => exact absurd hbar (hallows (List.cons_ne_nil env rest))
    | live wallet =>
        cases ha
        exact listen_refused (hbarred a hbar) (fun hlag => hallows hlag hbar) he
    | _ => cases ha

theorem inv_boot (table : List Suspension) : Inv (Pool.idle (Gate.boot table)) :=
  ⟨fun a ha => by simpa [owed, Pool.idle, Gate.boot] using ha,
    Or.inl ⟨fun _ h => h, fun _ h => h⟩⟩

/-- **Suspension.** In every run of guarded steps, from a server that has started on any table,
    the set equals the table whenever no administrative request is in progress, and an account
    that has been suspended is refused until its reinstatement begins. -/
theorem suspension_exact (admins : List WalletAddress) (table : List Suspension)
    (turns : List (Turn AccessCall AccessInput))
    (h : Run.Along (step admins) Guarded (Pool.idle (Gate.boot table)) turns) :
    Run.Throughout (step admins) Synced (Pool.idle (Gate.boot table)) turns ∧
      Run.Along (step admins) (Refuses admins) (Pool.idle (Gate.boot table)) turns :=
  ⟨Run.throughout_mono synced_of_inv _ turns
      (Run.throughout_of_along inv_step _ turns (inv_boot table) h),
    Run.along_of_inv inv_step refuses_of_inv _ turns (inv_boot table) h⟩

end

end Access

namespace Sample

/-- The connection of a member of the team, to which nothing comes. -/
def connected : AccessInput := ⟨1, true, false, ⟨[team], []⟩, false, false, .closed⟩

/-- A process goes on for a number of steps. -/
def goesOn (i n : Nat) : List (Turn AccessCall AccessInput) :=
  List.replicate n (.tick i connected)

/-- Alice suspends somebody. -/
def aliceSuspends (target : WalletAddress) : Turn AccessCall AccessInput :=
  .start (.suspend (.valid alice) target.str (some "spam"))

/-- What happens in the team. -/
def teamNews : Target × Option WalletAddress × ServerEvent :=
  (.room team, none, .newMessage team 1)

/-- Alice suspends Bob while he has a stream, and he comes back for another. -/
def suspendedTurns : List (Turn AccessCall AccessInput) :=
  .start (.stream (.valid bob) none) :: goesOn 0 3 ++ aliceSuspends bob :: goesOn 1 5 ++
    [.start (.publish teamNews), .tick 2 connected,
      .tick 0 { connected with incoming := .event ⟨3, teamNews.1, teamNews.2.1, teamNews.2.2⟩ },
      .start (.stream (.valid bob) (some 0)), .tick 3 connected]

theorem suspension_exact_bob :
    Run.Throughout (Access.step [alice]) Access.Synced (Pool.idle (Gate.boot [])) suspendedTurns ∧
      Run.Along (Access.step [alice]) (Access.Refuses [alice]) (Pool.idle (Gate.boot []))
        suspendedTurns :=
  Access.suspension_exact [alice] [] suspendedTurns (by decide +kernel)

/-- Bob is suspended, and asks for a file. -/
def downloadTurns : List (Turn AccessCall AccessInput) :=
  aliceSuspends bob :: goesOn 0 5 ++ [.start (.download "f1" ⟨.valid bob, .absent⟩)]

/-- The second reading overtakes the first. -/
def crossedTurns : List (Turn AccessCall AccessInput) :=
  aliceSuspends bob :: goesOn 0 3 ++ aliceSuspends carol :: goesOn 1 5 ++ goesOn 0 2

/-- Bob is suspended while his stream replays what he has missed. -/
def replayTurns : List (Turn AccessCall AccessInput) :=
  [.start (.publish teamNews), .tick 0 connected, .start (.stream (.valid bob) (some 0))] ++
    goesOn 1 4 ++ aliceSuspends bob :: goesOn 2 5

/-- The file is sent; the set lacks Carol when nobody is at work; the event is sent. -/
theorem suspension_escapes :
    ¬ Run.Along (Access.step [alice]) (Access.Refuses [alice]) (Pool.idle (Gate.boot []))
        (downloadTurns ++ [.tick 1 connected]) ∧
      ¬ Run.Throughout (Access.step [alice]) Access.Synced (Pool.idle (Gate.boot []))
        crossedTurns ∧
      ¬ Run.Along (Access.step [alice]) (Access.Refuses [alice]) (Pool.idle (Gate.boot []))
        (replayTurns ++ [.tick 1 connected]) := by
  refine ⟨fun h => ?_, fun h => ?_, fun h => ?_⟩
  · rw [Run.along_append] at h
    have hlast := (h.2.1 1 connected (.called (.download "f1" ⟨.valid bob, .absent⟩)) rfl
      (by decide +kernel)).1 _ rfl bob rfl (by decide +kernel)
    exact absurd hlast (by decide +kernel)
  · have hlast := Run.throughout_last _ _ h (by decide +kernel)
    exact absurd hlast (by decide +kernel)
  · rw [Run.along_append] at h
    have hlast := (h.2.1 1 connected
      (.resuming bob [⟨1, teamNews.1, teamNews.2.1, teamNews.2.2⟩]) rfl
      (by decide +kernel)).2 bob rfl (by decide +kernel) teamNews.2.2 (by decide +kernel)
    exact absurd hlast.1 (by decide +kernel)

end Sample

end PocketSkynet
