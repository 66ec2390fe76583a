import Mathlib.Data.List.Sort
import PocketSkynet.Server.Sample
import PocketSkynet.Server.Validate

/-!
# The Password Store

Sealed entries, one table for all accounts. A request is checked and then runs one statement,
or one immediate transaction, so concurrent requests take effect one after the other. The id
is the primary key of the whole table and every statement compares the owner as well.

A store is run together with the list of what it has accepted, to say where an entry comes
from.

## Main definitions

* `PasswordRow`, `EntryBody`, `NewEntry`: An entry as it is stored, sent and accepted.
* `Passwords.list`, `createCapped`, `replace`, `delete`: The statements.
* `handlePassword`: A request.
* `PasswordStore`, `PasswordStore.step`: The table and what has been accepted.
* `Paired`, `Listed`, `Confined`: What is claimed of a state, and of a step.

## Theorems

* `own_of_outcome`: It leaves the rows of others as they are.
* `handle_apart`: It does not depend on them, except for an id that is taken.
* `passwords_isolated`: Every run keeps all of this.
-/

namespace PocketSkynet

/-- Entries one account may hold. -/
def maxEntries : Nat := 500

/-- Entries at most in one list. -/
def listLimit : Nat := maxEntries

/-- One entry as it is answered with. -/
structure PasswordEntry where
  id : String
  key : SealedField
  value : SealedField
  encVer : Int
  createdAt : Nat
  updatedAt : Nat
deriving DecidableEq, Repr

/-- One entry as it is stored. -/
structure PasswordRow where
  owner : WalletAddress
  entry : PasswordEntry
deriving DecidableEq, Repr

/-- The primary key. -/
def PasswordRow.id (r : PasswordRow) : String := r.entry.id

/-- An entry that has been checked. -/
structure NewEntry where
  id : String
  owner : WalletAddress
  key : SealedField
  value : SealedField
  encVer : Int
deriving DecidableEq, Repr

/-- What is stored for it. -/
def NewEntry.entry (new : NewEntry) (now : Nat) : PasswordEntry :=
  ⟨new.id, new.key, new.value, new.encVer, now, now⟩

/-- One half of an entry. -/
def NewEntry.field (new : NewEntry) : SecretField → SealedField
  | .key => new.key
  | .value => new.value

def PasswordEntry.field (e : PasswordEntry) : SecretField → SealedField
  | .key => e.key
  | .value => e.value

/-! ### Statements -/

namespace Passwords

/-- The rows of one owner. -/
def own (rows : List PasswordRow) (owner : WalletAddress) : List PasswordRow :=
  rows.filter fun r => r.owner = owner

/-- The order of a list: newest change first, then by id. -/
def Precedes (a b : PasswordEntry) : Prop :=
  b.updatedAt < a.updatedAt ∨ (b.updatedAt = a.updatedAt ∧ a.id ≤ b.id)

instance : DecidableRel Precedes := fun a b =>
  inferInstanceAs (Decidable (b.updatedAt < a.updatedAt ∨ (b.updatedAt = a.updatedAt ∧ a.id ≤ b.id)))

/-- One owner's entries, most recently changed first. -/
def list (rows : List PasswordRow) (owner : WalletAddress) (limit : Nat) : List PasswordEntry :=
  (((own rows owner).map PasswordRow.entry).insertionSort Precedes).take limit

def count (rows : List PasswordRow) (owner : WalletAddress) : Nat := (own rows owner).length

/-- Insert a new entry. `none` when the id is already taken, by anybody. -/
def create (rows : List PasswordRow) (new : NewEntry) (now : Nat) :
    Option PasswordEntry × List PasswordRow :=
  if (Table.lookup PasswordRow.id new.id rows).isSome then (none, rows)
  else (some (new.entry now), rows ++ [⟨new.owner, new.entry now⟩])

inductive CreateOutcome where
  | created (entry : PasswordEntry)
  | capReached
  | idTaken
deriving DecidableEq, Repr

/-- Check the cap of the owner and insert, in one transaction. -/
def createCapped (rows : List PasswordRow) (new : NewEntry) (now maxEntries : Nat) :
    CreateOutcome × List PasswordRow :=
  if maxEntries ≤ count rows new.owner then (.capReached, rows)
  else
    match create rows new now with
    | (some entry, rows') => (.created entry, rows')
    | (none, _) => (.idTaken, rows)

/-- The row is this owner's row of that id. -/
def Matches (owner : WalletAddress) (id : String) (r : PasswordRow) : Prop :=
  r.owner = owner ∧ r.id = id

instance (owner : WalletAddress) (id : String) : DecidablePred (Matches owner id) := fun r =>
  inferInstanceAs (Decidable (r.owner = owner ∧ r.id = id))

/-- Both fields of a row are replaced. -/
def rewrite (new : NewEntry) (now : Nat) (r : PasswordRow) : PasswordRow :=
  if Matches new.owner new.id r then
    { r with entry := { new.entry now with createdAt := r.entry.createdAt } }
  else r

/-- Replace both fields of an existing entry. `none` when no row of this owner has the id. -/
def replace (rows : List PasswordRow) (new : NewEntry) (now : Nat) :
    Option PasswordEntry × List PasswordRow :=
  ((rows.find? (Matches new.owner new.id)).map fun r =>
      { new.entry now with createdAt := r.entry.createdAt },
    rows.map (rewrite new now))

/-- Delete one entry. `false` when this owner has no such row. -/
def delete (rows : List PasswordRow) (owner : WalletAddress) (id : String) :
    Bool × List PasswordRow :=
  (rows.any fun r => decide (Matches owner id r), rows.filter fun r => ¬ Matches owner id r)

end Passwords

/-! ### Requests -/

/-- One sealed field as it arrives. -/
structure SealedBody where
  ciphertext : Option String
  iv : Option String
  hmac : Option String
deriving DecidableEq, Repr

/-- An entry as it arrives. -/
structure EntryBody where
  id : Option String
  key : Option SealedBody
  value : Option SealedBody
  encVer : Option Int
deriving DecidableEq, Repr

/-- Check one sealed field. The digits are kept in the case they came in. -/
def parseSealed (name : String) (body : Option SealedBody) : Except ApiError SealedField := do
  let body ← orRefuse body (Validate.required name "A sealed field")
  let ciphertext ← Validate.sealedCiphertext (name ++ ".ciphertext") body.ciphertext
  let iv ← Validate.roomKeyHex (name ++ ".iv") body.iv 32
  let hmac ← Validate.roomKeyHex (name ++ ".hmac") body.hmac 64
  return ⟨ciphertext, iv, hmac⟩

/-- An entry under an id. -/
def parseEntry (caller : WalletAddress) (id : String) (body : EntryBody) :
    Except ApiError NewEntry := do
  let id ← Validate.secretEntryId id
  let key ← parseSealed "key" body.key
  let value ← parseSealed "value" body.value
  let encVer ← Validate.secretEncVer body.encVer
  return ⟨id, caller, key, value, encVer⟩

/-- A new entry, under the id that the client has minted. -/
def parseNew (caller : WalletAddress) (body : EntryBody) : Except ApiError NewEntry := do
  let id ← orRefuse body.id (Validate.required "id" "An entry id")
  parseEntry caller id body

/-- A request to the store. The id of a replacement is that of the path. -/
inductive PasswordRequest where
  | list
  | create (body : EntryBody)
  | replace (id : String) (body : EntryBody)
  | remove (id : String)
deriving DecidableEq, Repr

inductive PasswordAnswer where
  | entries (es : List PasswordEntry)
  | entry (e : PasswordEntry)
  | message (text : String)
deriving DecidableEq, Repr

/-- The entries an answer shows. -/
def PasswordAnswer.shown : PasswordAnswer → List PasswordEntry
  | .entries es => es
  | .entry e => [e]
  | .message _ => []

/-- The refusal for a missing or unowned entry. -/
def entryNotFound : ApiError := .notFound "Entry not found"

/-- The refusal of an id that is in use. -/
def entryTaken : ApiError := .plainConflict "That entry already exists"

def entryCapReached : ApiError :=
  .badRequest ("You have reached the limit of " ++ toString maxEntries ++ " saved passwords.")

/-- The answer to a request and the table after it. -/
abbrev PasswordHandled := Except ApiError PasswordAnswer × List PasswordRow

/-- A request of an account. -/
def handlePassword (rows : List PasswordRow) (caller : WalletAddress) (now : Nat)
    (request : PasswordRequest) : PasswordHandled :=
  match request with
  | .list => (.ok (.entries (Passwords.list rows caller listLimit)), rows)
  | .create body =>
      match parseNew caller body with
      | .error e => (.error e, rows)
      | .ok new =>
          match Passwords.createCapped rows new now maxEntries with
          | (.created entry, rows') => (.ok (.entry entry), rows')
          | (.capReached, rows') => (.error entryCapReached, rows')
          | (.idTaken, rows') => (.error entryTaken, rows')
  | .replace id body =>
      match parseEntry caller id body with
      | .error e => (.error e, rows)
      | .ok new =>
          let (entry, rows') := Passwords.replace rows new now
          ((orRefuse entry entryNotFound).map .entry, rows')
  | .remove id =>
      match Validate.secretEntryId id with
      | .error e => (.error e, rows)
      | .ok id =>
          let (removed, rows') := Passwords.delete rows caller id
          ((ensure removed entryNotFound).map fun _ => .message "Entry deleted", rows')

/-! ### What a request can do -/

/-- What a request of an account can do to the table, with the answer to it. -/
inductive PasswordOutcome (rows : List PasswordRow) (caller : WalletAddress) (now : Nat) :
    PasswordRequest → Except ApiError PasswordAnswer → List PasswordRow → Prop
  | listed : PasswordOutcome rows caller now .list
      (.ok (.entries (Passwords.list rows caller listLimit))) rows
  | refused (request : PasswordRequest) (e : ApiError) :
      PasswordOutcome rows caller now request (.error e) rows
  | created (body : EntryBody) (new : NewEntry) (hnew : parseNew caller body = .ok new)
      (hcap : Passwords.count rows caller < maxEntries)
      (hfree : Table.lookup PasswordRow.id new.id rows = none) :
      PasswordOutcome rows caller now (.create body) (.ok (.entry (new.entry now)))
        (rows ++ [⟨caller, new.entry now⟩])
  | replaced (id : String) (body : EntryBody) (new : NewEntry) (old : PasswordRow)
      (hnew : parseEntry caller id body = .ok new) (hold : old ∈ rows)
      (hmatch : Passwords.Matches caller new.id old) :
      PasswordOutcome rows caller now (.replace id body)
        (.ok (.entry { new.entry now with createdAt := old.entry.createdAt }))
        (rows.map (Passwords.rewrite new now))
  | removed (id : String) : PasswordOutcome rows caller now (.remove id)
      (.ok (.message "Entry deleted")) (rows.filter fun r => ¬ Passwords.Matches caller id r)

-- What has been checked belongs to the account that sent it.
theorem owner_parseEntry {caller : WalletAddress} {id : String} {body : EntryBody}
    {new : NewEntry} (h : parseEntry caller id body = .ok new) : new.owner = caller := by
  simp only [parseEntry, bind_eq_ok, pure_eq_ok] at h
  rcases h with ⟨_, -, key, -, value, -, encVer, -, rfl⟩
  rfl

theorem owner_parseNew {caller : WalletAddress} {body : EntryBody} {new : NewEntry}
    (h : parseNew caller body = .ok new) : new.owner = caller := by
  simp only [parseNew, bind_eq_ok] at h
  rcases h with ⟨id, -, hid⟩
  exact owner_parseEntry hid

namespace Passwords

theorem mem_own {rows : List PasswordRow} {owner : WalletAddress} {r : PasswordRow} :
    r ∈ own rows owner ↔ r ∈ rows ∧ r.owner = owner := by
  simp [own]

-- A replacement keeps the id and the owner of every row.
@[simp] theorem id_rewrite (new : NewEntry) (now : Nat) (r : PasswordRow) :
    (rewrite new now r).id = r.id := by
  unfold rewrite
  by_cases h : Matches new.owner new.id r
  · rw [if_pos h]
    exact h.2.symm
  · rw [if_neg h]

@[simp] theorem owner_rewrite (new : NewEntry) (now : Nat) (r : PasswordRow) :
    (rewrite new now r).owner = r.owner := by
  unfold rewrite
  by_cases h : Matches new.owner new.id r
  · rw [if_pos h]
  · rw [if_neg h]

end Passwords

/-- A request does one of these. -/
theorem handle_outcome (rows : List PasswordRow) (caller : WalletAddress) (now : Nat)
    (request : PasswordRequest) :
    PasswordOutcome rows caller now request (handlePassword rows caller now request).1
      (handlePassword rows caller now request).2 := by
  cases request with
  | list => exact .listed
  | create body =>
      rw [handlePassword]
      cases hnew : parseNew caller body with
      | error e => exact .refused _ e
      | ok new =>
          have howner := owner_parseNew hnew
          simp only [Passwords.createCapped, Passwords.create]
          by_cases hcap : maxEntries ≤ Passwords.count rows new.owner
          · rw [if_pos hcap]
            exact .refused _ _
          · rw [if_neg hcap]
            by_cases htaken : (Table.lookup PasswordRow.id new.id rows).isSome
            · rw [if_pos htaken]
              exact .refused _ _
            · rw [if_neg htaken, howner]
              exact .created body new hnew (by rw [← howner]; omega) (by simpa using htaken)
  | replace id body =>
      rw [handlePassword]
      cases hnew : parseEntry caller id body with
      | error e => exact .refused _ e
      | ok new =>
          have howner := owner_parseEntry hnew
          simp only [Passwords.replace]
          cases hfind : rows.find? fun r => Passwords.Matches new.owner new.id r with
          | none =>
              -- No row matches, so none is replaced.
              have hsame : rows.map (Passwords.rewrite new now) = rows := by
                refine (List.map_congr_left fun r hr => ?_).trans (List.map_id rows)
                exact if_neg (by simpa using List.find?_eq_none.1 hfind r hr)
              rw [hsame]
              exact .refused _ _
          | some old =>
              have hmatch : Passwords.Matches new.owner new.id old := by
                simpa using List.find?_some hfind
              exact .replaced id body new old hnew (List.mem_of_find?_eq_some hfind)
                (howner ▸ hmatch)
  | remove id =>
      rw [handlePassword]
      cases hid : Validate.secretEntryId id with
      | error e => exact .refused _ e
      | ok raw =>
          have hraw : id = raw := Validate.eq_of_secretEntryId hid
          subst hraw
          simp only [Passwords.delete]
          cases hany : rows.any fun r => decide (Passwords.Matches caller id r) with
          | true => exact .removed id
          | false =>
              have hkept : (rows.filter fun r => ¬ Passwords.Matches caller id r) = rows := by
                rw [List.filter_eq_self]
                intro r hr
                simpa using List.any_eq_false.1 hany r hr
              rw [hkept]
              exact .refused _ _

/-! ### The rows of others -/

namespace Passwords

/-- What a request does to the rows of somebody else: nothing. -/
theorem own_of_outcome {rows rows' : List PasswordRow} {caller owner : WalletAddress} {now : Nat}
    {request : PasswordRequest} {answer : Except ApiError PasswordAnswer}
    (h : PasswordOutcome rows caller now request answer rows') (hother : owner ≠ caller) :
    own rows' owner = own rows owner := by
  cases h with
  | listed => rfl
  | refused => rfl
  | created body new =>
      have hnone : (List.filter (fun r : PasswordRow => decide (r.owner = owner))
          [⟨caller, new.entry now⟩]) = [] := by
        simp [Ne.symm hother]
      rw [own, List.filter_append, hnone, List.append_nil]
      rfl
  | replaced id body new old hnew =>
      have howner := owner_parseEntry hnew
      simp only [own, List.filter_map, Function.comp_def, owner_rewrite]
      refine (List.map_congr_left fun r hr => ?_).trans (List.map_id _)
      have hr : r.owner = owner := by simpa using (List.mem_filter.1 hr).2
      exact if_neg fun hmatch => hother (hr.symm.trans (hmatch.1.trans howner))
  | removed id =>
      rw [own, List.filter_filter, own]
      refine List.filter_congr fun r _ => ?_
      by_cases hr : r.owner = owner
      · have hmatch : ¬ Matches caller id r := fun h => hother (hr.symm.trans h.1)
        simp [hr, hmatch]
      · simp [hr]

-- The row of an owner and an id is found among the rows of the owner.
theorem find_own (rows : List PasswordRow) (owner : WalletAddress) (id : String) :
    (rows.find? fun r => Matches owner id r) = (own rows owner).find? fun r => r.id = id := by
  rw [own, List.find?_filter]
  congr 1
  funext r
  by_cases howner : r.owner = owner <;> simp [Matches, howner]

theorem own_rewrite (rows : List PasswordRow) (new : NewEntry) (now : Nat)
    (owner : WalletAddress) :
    own (rows.map (rewrite new now)) owner = (own rows owner).map (rewrite new now) := by
  simp only [own, List.filter_map, Function.comp_def, owner_rewrite]

theorem own_filter (rows : List PasswordRow) (p : PasswordRow → Bool) (owner : WalletAddress) :
    own (rows.filter p) owner = (own rows owner).filter p := by
  simp only [own, List.filter_filter, Bool.and_comm]

-- An id is free if neither the owner nor anybody else has it.
theorem lookup_isSome_iff {rows : List PasswordRow} {id : String} (owner : WalletAddress) :
    (Table.lookup PasswordRow.id id rows).isSome ↔
      (∃ r ∈ own rows owner, r.id = id) ∨ ∃ r ∈ rows, r.owner ≠ owner ∧ r.id = id := by
  rw [Table.lookup_isSome]
  constructor
  · rintro ⟨r, hr, hid⟩
    by_cases howner : r.owner = owner
    · exact Or.inl ⟨r, mem_own.2 ⟨hr, howner⟩, hid⟩
    · exact Or.inr ⟨r, hr, howner, hid⟩
  · rintro (⟨r, hr, hid⟩ | ⟨r, hr, -, hid⟩)
    · exact ⟨r, (mem_own.1 hr).1, hid⟩
    · exact ⟨r, hr, hid⟩

end Passwords

/-- A creation that has been checked meets the cap, then the key. -/
theorem handle_create {rows : List PasswordRow} {caller : WalletAddress} (now : Nat)
    {body : EntryBody} {new : NewEntry} (hnew : parseNew caller body = .ok new) :
    handlePassword rows caller now (.create body) =
      if maxEntries ≤ Passwords.count rows caller then (.error entryCapReached, rows)
      else if (Table.lookup PasswordRow.id new.id rows).isSome then (.error entryTaken, rows)
      else (.ok (.entry (new.entry now)), rows ++ [⟨caller, new.entry now⟩]) := by
  have howner := owner_parseNew hnew
  simp only [handlePassword, hnew, Passwords.createCapped, Passwords.create, howner]
  by_cases hcap : maxEntries ≤ Passwords.count rows caller
  · simp only [if_pos hcap]
  · by_cases htaken : (Table.lookup PasswordRow.id new.id rows).isSome
    · simp only [if_neg hcap, if_pos htaken]
    · simp only [if_neg hcap, if_neg htaken]

/-- A creation that is refused for an id somebody else holds. -/
def TakenByAnother (rows : List PasswordRow) (caller : WalletAddress) (now : Nat)
    (request : PasswordRequest) : Prop :=
  ∃ body new, request = .create body ∧ parseNew caller body = .ok new ∧
    (handlePassword rows caller now request).1 = .error entryTaken ∧
    ∃ r ∈ rows, r.owner ≠ caller ∧ r.id = new.id

/-- What an account can see of a request is the same in every table with the same rows of
    its own, unless an id is taken. -/
theorem handle_apart {rows rows' : List PasswordRow} {caller : WalletAddress} (now : Nat)
    (request : PasswordRequest)
    (hsame : Passwords.own rows caller = Passwords.own rows' caller) :
    ((handlePassword rows caller now request).1 = (handlePassword rows' caller now request).1 ∧
      Passwords.own (handlePassword rows caller now request).2 caller =
        Passwords.own (handlePassword rows' caller now request).2 caller) ∨
    TakenByAnother rows caller now request ∨ TakenByAnother rows' caller now request := by
  cases request with
  | list =>
      refine Or.inl ⟨?_, hsame⟩
      simp only [handlePassword, Passwords.list, hsame]
  | create body =>
      cases hnew : parseNew caller body with
      | error e => exact Or.inl (by simp only [handlePassword, hnew, hsame, and_self])
      | ok new =>
          have hcount : Passwords.count rows caller = Passwords.count rows' caller := by
            rw [Passwords.count, hsame, Passwords.count]
          have hmine := @Passwords.lookup_isSome_iff rows new.id caller
          have hmine' := @Passwords.lookup_isSome_iff rows' new.id caller
          rw [← hsame] at hmine'
          unfold TakenByAnother
          simp only [handle_create now hnew, ← hcount]
          by_cases hcap : maxEntries ≤ Passwords.count rows caller
          · exact Or.inl ⟨by simp only [if_pos hcap], by simpa only [if_pos hcap] using hsame⟩
          · simp only [if_neg hcap]
            by_cases hothers : ∃ r ∈ rows, r.owner ≠ caller ∧ r.id = new.id
            · -- Somebody else holds the id in the first table.
              exact Or.inr (Or.inl
                ⟨body, new, rfl, hnew, by rw [if_pos (hmine.2 (Or.inr hothers))], hothers⟩)
            · by_cases hothers' : ∃ r ∈ rows', r.owner ≠ caller ∧ r.id = new.id
              · exact Or.inr (Or.inr
                  ⟨body, new, rfl, hnew, by rw [if_pos (hmine'.2 (Or.inr hothers'))], hothers'⟩)
              · -- Then the id is taken in both tables, by the account itself, or in neither.
                have hboth := hmine.trans (or_iff_left hothers)
                have hboth' := hmine'.trans (or_iff_left hothers')
                refine Or.inl ?_
                by_cases htaken : (Table.lookup PasswordRow.id new.id rows).isSome
                · have htaken' := hboth'.2 (hboth.1 htaken)
                  simp only [if_pos htaken, if_pos htaken', hsame, and_self]
                · have htaken' : ¬ (Table.lookup PasswordRow.id new.id rows').isSome :=
                    fun h => htaken (hboth.2 (hboth'.1 h))
                  simp only [if_neg htaken, if_neg htaken', Passwords.own, List.filter_append]
                  exact ⟨trivial, congrArg (· ++ _) hsame⟩
  | replace id body =>
      left
      cases hnew : parseEntry caller id body with
      | error e => simp only [handlePassword, hnew, hsame, and_self]
      | ok new =>
          have howner := owner_parseEntry hnew
          simp only [handlePassword, hnew, Passwords.replace, Passwords.find_own,
            Passwords.own_rewrite, howner, hsame, and_self]
  | remove id =>
      left
      cases hid : Validate.secretEntryId id with
      | error e => simp only [handlePassword, hid, hsame, and_self]
      | ok raw =>
          have hany : ∀ l : List PasswordRow,
              (l.any fun r => decide (Passwords.Matches caller raw r)) =
                (Passwords.own l caller).any fun r => decide (r.id = raw) := by
            intro l
            rw [← List.isSome_find?, ← List.isSome_find?, Passwords.find_own]
          simp only [handlePassword, hid, Passwords.delete, hany, Passwords.own_filter, hsame,
            and_self]

/-! ### Runs -/

/-- The table, and what has been accepted so far. -/
structure PasswordStore where
  rows : List PasswordRow
  accepted : List NewEntry

/-- A request as it arrives: whose it is, and when. -/
structure PasswordCall where
  caller : WalletAddress
  now : Nat
  request : PasswordRequest
deriving DecidableEq, Repr

/-- The entry a request brings, once it has been checked. -/
def PasswordRequest.offer (caller : WalletAddress) : PasswordRequest → Option NewEntry
  | .create body => (parseNew caller body).toOption
  | .replace id body => (parseEntry caller id body).toOption
  | .list | .remove _ => none

namespace PasswordStore

/-- The store at the start. -/
def empty : PasswordStore := ⟨[], []⟩

def answer (s : PasswordStore) (call : PasswordCall) : Except ApiError PasswordAnswer :=
  (handlePassword s.rows call.caller call.now call.request).1

/-- A request is handled. -/
def step (s : PasswordStore) (call : PasswordCall) : PasswordStore :=
  ⟨(handlePassword s.rows call.caller call.now call.request).2,
    if (s.answer call).isOk then s.accepted ++ (call.request.offer call.caller).toList else s.accepted⟩

/-- The entry is what one accepted request of its owner has brought. -/
def Brought (s : PasswordStore) (r : PasswordRow) : Prop :=
  ∃ new ∈ s.accepted, new.owner = r.owner ∧ new.id = r.id ∧ new.key = r.entry.key ∧
    new.value = r.entry.value ∧ new.encVer = r.entry.encVer

/-- It comes from one accepted request of its owner, and what that request has sealed is
    opened. -/
def Paired {Secret Point : Type} (P : Primitives Secret Point) (s : PasswordStore)
    (r : PasswordRow) : Prop :=
  ∃ new ∈ s.accepted, new.owner = r.owner ∧ new.id = r.id ∧ new.key = r.entry.key ∧
    new.value = r.entry.value ∧ new.encVer = r.entry.encVer ∧
    ∀ secret field plaintext iv,
      sealFieldWithIv P (VaultKey.derive P secret) new.id field plaintext iv = .ok (new.field field) →
      openField P (VaultKey.derive P secret) r.entry.id field (r.entry.field field) = .ok plaintext

/-- Every owner is within the cap and is shown every entry. -/
def Listed (s : PasswordStore) (owner : WalletAddress) : Prop :=
  (Passwords.own s.rows owner).length ≤ maxEntries ∧
  (Passwords.list s.rows owner listLimit).Perm
    ((Passwords.own s.rows owner).map PasswordRow.entry)

/-- What is claimed of a state. -/
def Sound {Secret Point : Type} (P : Primitives Secret Point) (s : PasswordStore) : Prop :=
  (∀ r ∈ s.rows, s.Paired P r) ∧ ∀ owner, s.Listed owner

/-- What is claimed of a request. -/
structure Confined (s : PasswordStore) (call : PasswordCall) : Prop where
  -- An entry keeps its owner.
  owner : ∀ r ∈ s.rows, ∀ r' ∈ (s.step call).rows, r'.id = r.id → r'.owner = r.owner
  -- The rows of others stay as they are.
  others : ∀ owner, owner ≠ call.caller →
    Passwords.own (s.step call).rows owner = Passwords.own s.rows owner
  -- Only rows of the caller are shown.
  shown : ∀ shown, s.answer call = .ok shown →
    ∀ e ∈ shown.shown, (⟨call.caller, e⟩ : PasswordRow) ∈ (s.step call).rows
  -- A creation overwrites nothing.
  create : ∀ body, call.request = .create body → ∀ r ∈ s.rows, r ∈ (s.step call).rows
  -- With any other rows of others the answer is the same, and so are the caller's rows, unless
  -- an id is taken.
  apart : ∀ t : PasswordStore,
    Passwords.own s.rows call.caller = Passwords.own t.rows call.caller →
    (s.answer call = t.answer call ∧
      Passwords.own (s.step call).rows call.caller =
        Passwords.own (t.step call).rows call.caller) ∨
    TakenByAnother s.rows call.caller call.now call.request ∨
    TakenByAnother t.rows call.caller call.now call.request

/-- What every request keeps: the key of the table, the cap, and where entries come from. -/
structure Inv (s : PasswordStore) : Prop where
  keyed : Table.Keyed PasswordRow.id s.rows
  capped : ∀ owner, (Passwords.own s.rows owner).length ≤ maxEntries
  brought : ∀ r ∈ s.rows, s.Brought r

theorem spec_handle (s : PasswordStore) (call : PasswordCall) :
    PasswordOutcome s.rows call.caller call.now call.request (s.answer call) (s.step call).rows :=
  handle_outcome s.rows call.caller call.now call.request

/-! ### What every request keeps -/

theorem keyed_step {s : PasswordStore} (h : s.Inv) (call : PasswordCall) :
    Table.Keyed PasswordRow.id (s.step call).rows := by
  have houtcome := s.spec_handle call
  generalize (s.step call).rows = rows', s.answer call = answer, call.request = request
    at houtcome
  cases houtcome with
  | listed => exact h.keyed
  | refused => exact h.keyed
  | created body new hnew hcap hfree => exact Table.keyed_append_one h.keyed hfree
  | replaced id body new old hnew hold hmatch =>
      exact Table.keyed_map (Passwords.id_rewrite new call.now) h.keyed
  | removed id => exact Table.keyed_filter _ h.keyed

theorem capped_step {s : PasswordStore} (h : s.Inv) (call : PasswordCall)
    (owner : WalletAddress) : (Passwords.own (s.step call).rows owner).length ≤ maxEntries := by
  have houtcome := s.spec_handle call
  by_cases hother : owner = call.caller
  · subst hother
    have hcapped := h.capped call.caller
    generalize (s.step call).rows = rows', s.answer call = answer, call.request = request
      at houtcome
    cases houtcome with
    | listed => exact hcapped
    | refused => exact hcapped
    | created body new hnew hcap hfree =>
        -- The count was below the cap before.
        have hone : (Passwords.own [⟨call.caller, new.entry call.now⟩] call.caller).length ≤ 1 :=
          List.length_filter_le _ _
        have happend : Passwords.own (s.rows ++ [⟨call.caller, new.entry call.now⟩]) call.caller =
            Passwords.own s.rows call.caller ++
              Passwords.own [⟨call.caller, new.entry call.now⟩] call.caller :=
          List.filter_append _ _
        rw [Passwords.count] at hcap
        rw [happend, List.length_append]
        omega
    | replaced id body new old hnew hold hmatch =>
        rw [Passwords.own_rewrite, List.length_map]
        exact hcapped
    | removed id =>
        rw [Passwords.own_filter]
        exact (List.length_filter_le _ _).trans hcapped
  · rw [Passwords.own_of_outcome houtcome hother]
    exact h.capped owner

-- What is accepted stays accepted.
theorem accepted_step {s : PasswordStore} (call : PasswordCall) {new : NewEntry}
    (h : new ∈ s.accepted) : new ∈ (s.step call).accepted := by
  unfold step
  by_cases hok : (s.answer call).isOk
  · rw [if_pos hok]
    exact List.mem_append_left _ h
  · rw [if_neg hok]
    exact h

theorem offer_accepted {s : PasswordStore} {call : PasswordCall} {new : NewEntry}
    {shown : PasswordAnswer} (hok : s.answer call = .ok shown) (hoffer : call.request.offer call.caller = some new) :
    new ∈ (s.step call).accepted := by
  have hyes : (s.answer call).isOk = true := by rw [hok]; rfl
  unfold step
  rw [if_pos hyes, hoffer]
  exact List.mem_append_right _ (by simp)

-- So an entry that was brought by a request still is.
theorem brought_step {s : PasswordStore} (call : PasswordCall) {r : PasswordRow}
    (h : s.Brought r) : (s.step call).Brought r := by
  rcases h with ⟨new, hmem, hrest⟩
  exact ⟨new, accepted_step call hmem, hrest⟩

theorem brought_rows {s : PasswordStore} (h : s.Inv) (call : PasswordCall) :
    ∀ r ∈ (s.step call).rows, (s.step call).Brought r := by
  have houtcome := s.spec_handle call
  have hkept : ∀ r ∈ s.rows, (s.step call).Brought r := fun r hr =>
    brought_step call (h.brought r hr)
  have hoffered : ∀ new shown, s.answer call = .ok shown → call.request.offer call.caller = some new →
      new ∈ (s.step call).accepted := fun new shown => offer_accepted
  generalize (s.step call).rows = rows', s.answer call = answer, call.request = request
    at houtcome hoffered
  intro r hr
  cases houtcome with
  | listed => exact hkept r hr
  | refused => exact hkept r hr
  | created body new hnew hcap hfree =>
      rcases List.mem_append.1 hr with hr | hr
      · exact hkept r hr
      · have hmem := hoffered new _ rfl (by rw [PasswordRequest.offer, hnew]; rfl)
        rw [List.mem_singleton.1 hr]
        exact ⟨new, hmem, owner_parseNew hnew, rfl, rfl, rfl, rfl⟩
  | replaced id body new old hnew hold hmatch =>
      have howner := owner_parseEntry hnew
      rcases List.mem_map.1 hr with ⟨r₀, hr₀, rfl⟩
      by_cases hmine : Passwords.Matches new.owner new.id r₀
      · -- Both halves and the version come from this request.
        have hmem := hoffered new _ rfl (by rw [PasswordRequest.offer, hnew]; rfl)
        rw [Passwords.rewrite, if_pos hmine]
        exact ⟨new, hmem, hmine.1.symm, rfl, rfl, rfl, rfl⟩
      · rw [Passwords.rewrite, if_neg hmine]
        exact hkept r₀ hr₀
  | removed id => exact hkept r (List.mem_filter.1 hr).1

/-- Every request keeps the invariant. -/
theorem inv_step (s : PasswordStore) (call : PasswordCall) (h : s.Inv) : (s.step call).Inv :=
  ⟨keyed_step h call, capped_step h call, brought_rows h call⟩

theorem inv_empty : empty.Inv where
  keyed := Table.keyed_nil
  capped _ := Nat.zero_le _
  brought r hr := by cases hr

/-- What holds of a state in which the invariant does. -/
theorem sound_of_inv {Secret Point : Type} {P : Primitives Secret Point} (hP : P.Lawful)
    {s : PasswordStore} (h : s.Inv) : s.Sound P := by
  constructor
  · intro r hr
    rcases h.brought r hr with ⟨new, hmem, howner, hid, hkey, hvalue, hver⟩
    refine ⟨new, hmem, howner, hid, hkey, hvalue, hver, ?_⟩
    intro secret field plaintext iv hsealed
    have hfield : r.entry.field field = new.field field := by
      cases field with
      | key => exact hkey.symm
      | value => exact hvalue.symm
    have hplace : r.entry.id = new.id := hid.symm
    rw [hfield, hplace]
    exact open_seal hP hsealed
  · intro owner
    refine ⟨h.capped owner, ?_⟩
    have hall : (((Passwords.own s.rows owner).map PasswordRow.entry).insertionSort
        Passwords.Precedes).length ≤ listLimit := by
      rw [List.length_insertionSort, List.length_map]
      exact h.capped owner
    rw [Passwords.list, List.take_of_length_le hall]
    exact List.perm_insertionSort _ _

-- Under the key two rows of one id are one row.
theorem owner_of_id {s : PasswordStore} (h : s.Inv) {r r' : PasswordRow} (hr : r ∈ s.rows)
    (hr' : r' ∈ s.rows) (hid : r'.id = r.id) : r'.owner = r.owner := by
  have hfound := Table.lookup_of_mem h.keyed hr
  rw [← hid, Table.lookup_of_mem h.keyed hr'] at hfound
  rw [Option.some.inj hfound]

theorem owner_step {s : PasswordStore} (h : s.Inv) (call : PasswordCall) :
    ∀ r ∈ s.rows, ∀ r' ∈ (s.step call).rows, r'.id = r.id → r'.owner = r.owner := by
  have houtcome := s.spec_handle call
  generalize (s.step call).rows = rows', s.answer call = answer, call.request = request
    at houtcome
  intro r hr r' hr' hid
  cases houtcome with
  | listed => exact owner_of_id h hr hr' hid
  | refused => exact owner_of_id h hr hr' hid
  | created body new hnew hcap hfree =>
      rcases List.mem_append.1 hr' with hr' | hr'
      · exact owner_of_id h hr hr' hid
      · -- No row had the id of the new one.
        rw [List.mem_singleton.1 hr'] at hid
        exact absurd hid.symm (Table.lookup_eq_none.1 hfree r hr)
  | replaced id body new old hnew hold hmatch =>
      rcases List.mem_map.1 hr' with ⟨r₀, hr₀, rfl⟩
      rw [Passwords.id_rewrite] at hid
      rw [Passwords.owner_rewrite]
      exact owner_of_id h hr hr₀ hid
  | removed id => exact owner_of_id h hr (List.mem_filter.1 hr').1 hid

/-- What is shown to an account is its own. -/
theorem shown_step (s : PasswordStore) (call : PasswordCall) (shown : PasswordAnswer)
    (hok : s.answer call = .ok shown) :
    ∀ e ∈ shown.shown, (⟨call.caller, e⟩ : PasswordRow) ∈ (s.step call).rows := by
  have houtcome := s.spec_handle call
  rw [hok] at houtcome
  generalize (s.step call).rows = rows', call.request = request at houtcome
  intro e he
  cases houtcome with
  | listed =>
      have hsorted := List.mem_of_mem_take he
      rw [List.mem_insertionSort] at hsorted
      rcases List.mem_map.1 hsorted with ⟨r, hr, rfl⟩
      have hmine := Passwords.mem_own.1 hr
      rw [← hmine.2]
      exact hmine.1
  | created body new hnew hcap hfree =>
      rw [List.mem_singleton.1 he]
      exact List.mem_append_right _ (List.mem_singleton.2 rfl)
  | replaced id body new old hnew hold hmatch =>
      rw [List.mem_singleton.1 he]
      have howner := owner_parseEntry hnew
      refine List.mem_map.2 ⟨old, hold, ?_⟩
      rw [Passwords.rewrite, howner, if_pos hmatch, ← hmatch.1]
  | removed id => cases he

/-- Every request is confined to the rows of its caller. -/
theorem confined_of_inv {s : PasswordStore} (h : s.Inv) (call : PasswordCall) :
    s.Confined call where
  owner := owner_step h call
  others _ hother := Passwords.own_of_outcome (s.spec_handle call) hother
  shown := s.shown_step call
  create body hbody r hr := by
    have houtcome := s.spec_handle call
    rw [hbody] at houtcome
    generalize (s.step call).rows = rows', s.answer call = answer at houtcome
    cases houtcome with
    | refused => exact hr
    | created body new hnew hcap hfree => exact List.mem_append_left _ hr
  apart t hsame := handle_apart call.now call.request hsame

/-- In every run of requests of any accounts, entries stay whole and with their owners, and
    no account can tell whether another has any. -/
theorem passwords_isolated {Secret Point : Type} {P : Primitives Secret Point} (hP : P.Lawful)
    (calls : List PasswordCall) :
    Run.Throughout step (Sound P) empty calls ∧ Run.Along step Confined empty calls := by
  have hinv := Run.throughout_of_step inv_step empty calls inv_empty
  exact ⟨Run.throughout_mono (fun s h => sound_of_inv hP h) empty calls hinv,
    Run.along_of_step inv_step (fun s call h => confined_of_inv h call) empty calls inv_empty⟩

end PasswordStore

namespace Sample

/-- Two fields of an entry, sealed by its owner. -/
def sealedHalf (field : SecretField) : SealedField :=
  match sealFieldWithIv openPrimitives (VaultKey.derive openPrimitives (.replicate 32 1))
      "sec_0123456789" field "hunter2" (Bytes.replicate 16 0) with
  | .ok sealed => sealed
  | .error _ => ⟨"", "", ""⟩

def sealedBody (field : SecretField) : SealedBody :=
  ⟨some (sealedHalf field).ciphertext, some (sealedHalf field).iv, some (sealedHalf field).hmac⟩

def passwordBody : EntryBody :=
  ⟨some "sec_0123456789", some (sealedBody .key), some (sealedBody .value), none⟩

/-- Alice stores an entry, Bob tries its id, and both look. -/
def passwordCalls : List PasswordCall :=
  [⟨alice, 5, .create passwordBody⟩, ⟨bob, 6, .create passwordBody⟩, ⟨bob, 7, .list⟩,
    ⟨alice, 8, .list⟩]

/-- One entry is kept, and what is claimed holds of the run. -/
theorem passwords_isolated_alice :
    (Run.run PasswordStore.step .empty passwordCalls).rows.map PasswordRow.owner = [alice] ∧
    Run.Throughout PasswordStore.step (PasswordStore.Sound openPrimitives) .empty passwordCalls ∧
    Run.Along PasswordStore.step PasswordStore.Confined .empty passwordCalls :=
  ⟨by decide +kernel, PasswordStore.passwords_isolated openPrimitives_lawful passwordCalls⟩

end Sample

end PocketSkynet
