import PocketSkynet.Lib.Interleave
import PocketSkynet.Lib.Table
import PocketSkynet.Server.Validate

/-!
# Logging In

A wallet logs in with a signature over a challenge. The challenge is taken out of its table
before anything is checked. A name comes with the login or is the one the account has, and so
does a key. The account is read in one database call and written in another.

Requests are processes that take turns, one database call or one check at a time. A call can
fail, and a request can be cut off after one. Time passes between turns. Challenges are
numbered in the order of issue, to tell two of them apart whatever their ids are.

## Main definitions

* `User`, `Challenge`, `AccountTables`: The tables.
* `upsertUser`, `updateProfile`, `setEncryptionKey`, `getOrCreateSalt`, `consumeChallenge`:
  The statements.
* `LoginBody`, `LoginAttempt`: A login as it arrives, and with its fields checked.
* `AccountCall`, `AccountProc`, `AccountProc.advance`: The requests, step by step.
-/

namespace PocketSkynet

/-! ### Tables -/

/-- How long a challenge stays valid. -/
def challengeTtlMs : Nat := 10 * 60 * 1000

/-- An account as it is stored. -/
structure User where
  walletAddress : WalletAddress
  username : String
  publicKey : Option String
  publicKeySig : Option String
  profileImage : Option String
  createdAt : Nat
  updatedAt : Nat
deriving DecidableEq, Repr

/-- A challenge, with its number. -/
structure Challenge where
  serial : Nat
  id : String
  walletAddress : WalletAddress
  nonce : String
  message : String
  expiresAt : Nat
  createdAt : Nat
deriving DecidableEq, Repr

/-- The tables, the challenges that have been issued, and the time. -/
structure AccountTables where
  users : List User
  salts : List (WalletAddress × String)
  challenges : List Challenge
  issued : List Challenge
  clock : Nat
deriving DecidableEq, Repr

/-- The text to sign. -/
def challengeMessage (wallet : WalletAddress) (nonce : String) : String :=
  "Welcome to FruitNation!\n\nClick to sign in and accept the FruitNation Terms of Service.\n\n" ++
    "This request will not trigger a blockchain transaction or cost any gas fees.\n\n" ++
    "Wallet address:\n" ++ wallet.str ++ "\n\nNonce:\n" ++ nonce

namespace AccountTables

/-- A server nobody has logged in to. -/
def empty : AccountTables := ⟨[], [], [], [], 0⟩

def getUser (t : AccountTables) (address : WalletAddress) : Option User :=
  Table.lookup User.walletAddress address t.users

/-- What a login writes for an account that is there. Without a key both key columns are left
    as they are. -/
def upserted (t : AccountTables) (username : String) (publicKey publicKeySig : Option String)
    (u : User) : User :=
  match publicKey with
  | some key =>
      { u with
        username := username, publicKey := some key, publicKeySig := publicKeySig,
        updatedAt := t.clock }
  | none => { u with username := username, updatedAt := t.clock }

/-- What it writes for an account that is not. -/
def newUser (t : AccountTables) (address : WalletAddress) (username : String)
    (publicKey publicKeySig : Option String) : User :=
  ⟨address, username, publicKey, publicKey.bind fun _ => publicKeySig, none, t.clock, t.clock⟩

/-- Create or update a user at login. -/
def upsertUser (t : AccountTables) (address : WalletAddress) (username : String)
    (publicKey publicKeySig : Option String) : AccountTables :=
  match t.getUser address with
  | none => { t with users := t.users ++ [t.newUser address username publicKey publicKeySig] }
  | some _ =>
      { t with
        users := Table.modify User.walletAddress address
          (t.upserted username publicKey publicKeySig) t.users }

/-- Update a profile. An image that is `none` leaves the stored one. -/
def updateProfile (t : AccountTables) (address : WalletAddress) (username : String)
    (image : Option (Option String)) : AccountTables :=
  { t with
    users := Table.modify User.walletAddress address (fun u =>
      { u with username := username, profileImage := image.getD u.profileImage,
               updatedAt := t.clock }) t.users }

/-- Publish or rotate a key together with its signature. -/
def setEncryptionKey (t : AccountTables) (address : WalletAddress)
    (publicKey publicKeySig : String) : AccountTables :=
  { t with
    users := Table.modify User.walletAddress address (fun u =>
      { u with publicKey := some publicKey, publicKeySig := some publicKeySig,
               updatedAt := t.clock }) t.users }

/-- The salt of an account, which is the candidate if there was none. -/
def getOrCreateSalt (t : AccountTables) (address : WalletAddress) (candidate : String) :
    String × AccountTables :=
  let salts := Table.insertNew Prod.fst (address, candidate) t.salts
  (((Table.lookup Prod.fst address salts).map Prod.snd).getD candidate, { t with salts := salts })

/-- Delete expired challenges. -/
def gcChallenges (t : AccountTables) : AccountTables :=
  { t with challenges := t.challenges.filter fun c => t.clock ≤ c.expiresAt }

/-- Insert a challenge, unless its id is taken. -/
def insertChallenge (t : AccountTables) (id : String) (address : WalletAddress)
    (nonce message : String) (expiresAt : Nat) : Bool × AccountTables :=
  if (Table.lookup Challenge.id id t.challenges).isSome then (false, t)
  else
    let c : Challenge := ⟨t.issued.length, id, address, nonce, message, expiresAt, t.clock⟩
    (true, { t with challenges := t.challenges ++ [c], issued := t.issued ++ [c] })

/-- Take a challenge, whatever becomes of the login. -/
def consumeChallenge (t : AccountTables) (id : String) : Option Challenge × AccountTables :=
  (Table.lookup Challenge.id id t.challenges,
    { t with challenges := Table.erase Challenge.id id t.challenges })

end AccountTables

/-! ### Requests -/

/-- A name as it comes with a login: any JSON value. A number is told by its text and by
    whether it is zero, an array or an object by its text. -/
inductive JsonName where
  | absent
  | null
  | bool (b : Bool)
  | string (s : String)
  | number (isZero : Bool) (text : String)
  | other (text : String)
deriving DecidableEq, Repr

/-- The falsy values all collapse to empty. -/
def jsStringOrEmpty : JsonName → String
  | .absent | .null => ""
  | .bool b => if b then "true" else ""
  | .string s => trimmed s
  | .number isZero text => if isZero then "" else text
  | .other text => text

structure LoginBody where
  walletAddress : Option String
  username : JsonName
  challengeId : Option String
  signature : Option String
  publicKey : Option String
  publicKeySig : Option String
deriving DecidableEq, Repr

/-- A login whose fields have been checked. The key and its signature come later. -/
structure LoginAttempt where
  wallet : WalletAddress
  challengeId : String
  signature : String
  username : String
  publicKey : Option String
  publicKeySig : Option String
deriving DecidableEq, Repr

def LoginBody.attempt (body : LoginBody) : Except ApiError LoginAttempt := do
  let wallet ← Validate.walletAddress "walletAddress" body.walletAddress
  let challengeId ← orRefuse (body.challengeId.filter (· ≠ ""))
    (Validate.required "challengeId" "Challenge ID")
  let signature ← Validate.signature "signature" body.signature
  return ⟨wallet, challengeId, signature, jsStringOrEmpty body.username, body.publicKey,
    body.publicKeySig⟩

namespace LoginAttempt

/-- The login brings no name. -/
def Nameless (a : LoginAttempt) : Prop := a.username = ""

/-- The login brings no key with a signature. -/
def Keyless (a : LoginAttempt) : Prop := a.publicKey = none ∨ a.publicKeySig = none

instance (a : LoginAttempt) : Decidable a.Nameless := inferInstanceAs (Decidable (a.username = ""))

instance (a : LoginAttempt) : Decidable a.Keyless :=
  inferInstanceAs (Decidable (a.publicKey = none ∨ a.publicKeySig = none))

end LoginAttempt

/-- What a login has taken: the challenge, and when. -/
structure Taken where
  challenge : Challenge
  time : Nat
deriving DecidableEq, Repr

section Login

variable {Secret Point : Type} (P : Primitives Secret Point)
  (recoverAddress : String → String → Option WalletAddress)

/-- The signature over the key recovers the wallet. -/
def keyBound (wallet : WalletAddress) (publicKey publicKeySig : String) : Bool :=
  (verifyKeyBinding P recoverAddress wallet (some publicKey) (some publicKeySig)).isOk

def verifyChallengeSignature (wallet : WalletAddress) (message signature : String) :
    Except ApiError Unit := do
  let recovered ← orRefuse (recoverAddress message signature)
    (.unauthorized "Invalid signature format")
  ensure (recovered = wallet) (.unauthorized "Invalid signature")

/-- What is asked of the challenge that has been taken. -/
def checkChallenge (a : LoginAttempt) (taken : Option Taken) (now : Nat) :
    Except ApiError Taken := do
  let taken ← orRefuse taken (.badRequest "Invalid or expired challenge")
  let c := taken.challenge
  ensure (decide (now ≤ c.expiresAt)) (.badRequest "Challenge has expired")
  ensure (c.walletAddress = a.wallet) (.badRequest "Wallet address mismatch")
  verifyChallengeSignature recoverAddress a.wallet c.message a.signature
  return taken

/-- An explicit name wins, and an existing one is reused. -/
def resolveUsername (a : LoginAttempt) (existing : Option User) : Except ApiError String :=
  if a.username = "" then
    orRefuse ((existing.map User.username).filter (· ≠ ""))
      (.badRequest "Username is required for first-time login")
  else Validate.username (some a.username)

/-- A key is taken only with its signature. -/
def resolveKey (a : LoginAttempt) : Except ApiError (Option (String × String)) :=
  match a.publicKey, a.publicKeySig with
  | some key, some sig => do
      let key ← Validate.publicKey (some key)
      let sig ← Validate.signature "publicKeySig" (some sig)
      ensure (keyBound P recoverAddress a.wallet key sig)
        (.badRequest "Invalid public key binding signature")
      return some (key, sig)
  | _, _ => .ok none

/-- What is checked after the account has been read. -/
def checkAccount (a : LoginAttempt) (existing : Option User) (suspended : Bool) :
    Except ApiError (String × Option (String × String)) := do
  let username ← resolveUsername a existing
  let key ← resolveKey P recoverAddress a
  ensure (!suspended)
    (.forbidden "This account has been suspended by a server administrator.")
  return (username, key)

/-- A key that is to be published. -/
def checkKey (caller : WalletAddress) (publicKey publicKeySig : Option String) :
    Except ApiError (String × String) := do
  let key ← Validate.publicKey publicKey
  let sig ← Validate.signature "publicKeySig" publicKeySig
  ensure (keyBound P recoverAddress caller key sig)
    (.badRequest "Invalid public key binding signature")
  return (key, sig)

def checkProfile (username profileImage : Option String) :
    Except ApiError (String × Option (Option String)) := do
  let username ← Validate.username username
  let image ← Validate.profileImage profileImage
  return (username, image)

end Login

/-- A request as it arrives. The caller of the last four has been authenticated. -/
inductive AccountCall where
  | challenge (walletAddress : Option String)
  | login (body : LoginBody)
  | encryptionSalt (caller : WalletAddress)
  | encryptionKey (caller : WalletAddress) (publicKey publicKeySig : Option String)
  | profile (caller : WalletAddress)
  | updateProfile (caller : WalletAddress) (username profileImage : Option String)
deriving DecidableEq, Repr

inductive AccountAnswer where
  | refused (e : ApiError)
  | challenge (id message : String) (expiresAt : Nat)
  | loggedIn (user : User) (salt : String)
  | salt (salt : String)
  | keyPublished (caller : WalletAddress) (publicKey : String)
  | user (user : User)
  | gone
deriving DecidableEq, Repr

/-- How far a request has got. -/
inductive AccountProc where
  | drafting (wallet : WalletAddress)
  | issuing (wallet : WalletAddress) (nonce id : String) (expiresAt : Nat)
  | consuming (a : LoginAttempt)
  | checking (a : LoginAttempt) (taken : Option Taken)
  | reading (a : LoginAttempt) (taken : Taken)
  | writing (a : LoginAttempt) (taken : Taken) (username : String) (key : Option (String × String))
  | loggedOff (a : LoginAttempt) (taken : Option Taken) (answer : AccountAnswer)
  | salting (caller : WalletAddress)
  | salted (caller : WalletAddress) (salt : String)
  | publishing (caller : WalletAddress) (publicKey publicKeySig : String)
  | viewing (caller : WalletAddress)
  | updating (caller : WalletAddress) (username : String) (image : Option (Option String))
  | done (answer : AccountAnswer)
deriving DecidableEq, Repr

/-- What a turn meets: the time that has passed, whether the database call goes well, what is
    drawn, and whether the account is suspended. A draw can fail. -/
structure Moment where
  elapsed : Nat
  chance : Chance
  id : String
  nonce : Option String
  salt : Option String
  suspended : Bool
deriving DecidableEq, Repr

/-- The answer of a server whose database call has failed. -/
def databaseFailed : AccountAnswer := .refused (.internal "database")

/-- The answer of a server that nothing random can be drawn on. -/
def nothingDrawn : AccountAnswer := .refused (.internal "randomness")

namespace AccountProc

/-- Where a request starts, once its body has been checked. -/
def enter {Secret Point : Type} (P : Primitives Secret Point)
    (recoverAddress : String → String → Option WalletAddress) : AccountCall → AccountProc
  | .challenge walletAddress =>
      match Validate.walletAddress "walletAddress" walletAddress with
      | .ok wallet => drafting wallet
      | .error e => done (.refused e)
  | .login body =>
      match body.attempt with
      | .ok a => consuming a
      | .error e => done (.refused e)
  | .encryptionSalt caller => salting caller
  | .encryptionKey caller publicKey publicKeySig =>
      match checkKey P recoverAddress caller publicKey publicKeySig with
      | .ok key => publishing caller key.1 key.2
      | .error e => done (.refused e)
  | .profile caller => viewing caller
  | .updateProfile caller username profileImage =>
      match checkProfile username profileImage with
      | .ok profile => updating caller profile.1 profile.2
      | .error e => done (.refused e)

/-- The account is written and its salt read, in one call. -/
def signIn (t : AccountTables) (a : LoginAttempt) (taken : Taken) (username : String)
    (key : Option (String × String)) (candidate : Option String) : AccountTables × AccountProc :=
  let t := t.upsertUser a.wallet username (key.map Prod.fst) (key.map Prod.snd)
  match t.getUser a.wallet, candidate with
  | some user, some candidate =>
      let (salt, t) := t.getOrCreateSalt a.wallet candidate
      (t, loggedOff a (some taken) (.loggedIn user salt))
  | _, _ => (t, loggedOff a (some taken) nothingDrawn)

/-- An answer about an account, if there is one. -/
def userAnswer (user : Option User) : AccountAnswer :=
  match user with
  | some user => .user user
  | none => .refused (.notFound "User not found")

/-- The next step, at the time it is. -/
def stepAt {Secret Point : Type} (P : Primitives Secret Point)
    (recoverAddress : String → String → Option WalletAddress) (x : Moment) (t : AccountTables) :
    AccountProc → AccountTables × AccountProc
  | drafting wallet =>
      (t, match x.nonce with
        | some nonce => issuing wallet nonce x.id (t.clock + challengeTtlMs)
        | none => done nothingDrawn)
  | issuing wallet nonce id expiresAt =>
      let message := challengeMessage wallet nonce
      let (inserted, t') := t.gcChallenges.insertChallenge id wallet nonce message expiresAt
      x.chance.meet t
        (t', done (if inserted then .challenge id message expiresAt else databaseFailed))
        (done databaseFailed) (done .gone)
  | consuming a =>
      let (found, t') := t.consumeChallenge a.challengeId
      let taken := found.map fun c => ⟨c, t.clock⟩
      x.chance.meet t (t', checking a taken) (loggedOff a none databaseFailed)
        (loggedOff a taken .gone)
  | checking a taken =>
      (t, match checkChallenge recoverAddress a taken t.clock with
        | .ok taken => reading a taken
        | .error e => loggedOff a taken (.refused e))
  | reading a taken =>
      x.chance.meet t
        (t, match checkAccount P recoverAddress a (t.getUser a.wallet) x.suspended with
          | .ok (username, key) => writing a taken username key
          | .error e => loggedOff a (some taken) (.refused e))
        (loggedOff a (some taken) databaseFailed) (loggedOff a (some taken) .gone)
  | writing a taken username key =>
      x.chance.meet t (signIn t a taken username key x.salt)
        (loggedOff a (some taken) databaseFailed) (loggedOff a (some taken) .gone)
  | salting caller =>
      match x.salt with
      | some candidate =>
          let (salt, t') := t.getOrCreateSalt caller candidate
          x.chance.meet t (t', salted caller salt) (done databaseFailed) (done .gone)
      | none => (t, done nothingDrawn)
  | publishing caller publicKey publicKeySig =>
      let t' := t.setEncryptionKey caller publicKey publicKeySig
      x.chance.meet t
        (t', done (match t.getUser caller with
          | some _ => .keyPublished caller publicKey
          | none => .refused (.notFound "User not found")))
        (done databaseFailed) (done .gone)
  | viewing caller =>
      x.chance.meet t (t, done (userAnswer (t.getUser caller))) (done databaseFailed) (done .gone)
  | updating caller username image =>
      let t' := t.updateProfile caller username image
      x.chance.meet t (t', done (userAnswer (t'.getUser caller))) (done databaseFailed) (done .gone)
  | loggedOff a taken answer => (t, loggedOff a taken answer)
  | salted caller salt => (t, salted caller salt)
  | done answer => (t, done answer)

/-- A turn: time passes, and the request takes its next step. -/
def advance {Secret Point : Type} (P : Primitives Secret Point)
    (recoverAddress : String → String → Option WalletAddress) (x : Moment) (t : AccountTables)
    (proc : AccountProc) : AccountTables × AccountProc :=
  stepAt P recoverAddress x { t with clock := t.clock + x.elapsed } proc

end AccountProc

end PocketSkynet
