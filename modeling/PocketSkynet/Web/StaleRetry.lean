import PocketSkynet.Web.SendMessage

/-!
# Retrying under the Current Epoch

Whether a message that the server has refused for its epoch arrives after all. The refusal
names the current epoch, the client fetches its keys, and the store then holds the key of
that epoch. The task does not see the store. Its second attempt is built from the handle of
the first one, so it goes out exactly if the key was held there already, and the same is
true of what an agent posts.

## Main definitions

* `SealOf`: A ciphertext of a text under a key.
* `PostedOnce`: A text is stored once, sealed under the key of one epoch.
* `KeysOf`: A client holds no keys but the room's.
* `Retried`: A message is refused for its epoch and nothing is in the way of a retry.

## Theorems

* `answer_of_accepts`: How a post of ciphertext is answered.
* `bundle_refreshKeys`: A refresh brings the key of every wrap into the store.
* `staleRetry_iff`: The clients whose retry succeeds, and whose agent can post.
-/

namespace PocketSkynet.Web

/-- An epoch and a ciphertext that is labelled with it. -/
def ciphertext (isEncrypted : Bool) (content : String) (iv hmac : Option String)
    (version : Nat) : Option (Nat × EncryptedMessage) :=
  match isEncrypted, iv, hmac with
  | true, some iv, some hmac => some (version, ⟨content, iv, hmac⟩)
  | _, _, _ => none

def MessageBody.sealed (b : MessageBody) : Option (Nat × EncryptedMessage) :=
  ciphertext b.isEncrypted b.content b.iv b.hmac b.keyVersion

def rowSealed (m : Message) : Option (Nat × EncryptedMessage) :=
  ciphertext m.isEncrypted m.content m.iv m.hmac m.keyVersion

@[simp] theorem sealed_attach (extras : SendExtras) (b : MessageBody) :
    (b.attach extras).sealed = b.sealed := rfl

/-! ### How a post is answered -/

-- The row that is answered with is the one that has been inserted.
theorem row_of_createMessage {s st : Stream} {now : Nat} {new : NewMessage}
    (h : s.createMessage now new = some st) :
    ∃ serial, st.row? new.id = some (Stream.newRow new now serial) := by
  unfold Stream.createMessage at h
  cases hallocate : s.allocate now with
  | none => simp [hallocate] at h
  | some s' =>
      have hinsert : s'.insert (Stream.newRow new now (s.serialAt now)) = some st := by
        simpa [hallocate] using h
      unfold Stream.insert at hinsert
      split at hinsert
      · cases hinsert
      · rename_i hfree
        rw [Option.some.injEq] at hinsert
        have hnone : Table.lookup Message.id new.id s'.rows = none := by
          simpa [Stream.row?, Stream.newRow] using hfree
        refine ⟨s.serialAt now, ?_⟩
        rw [← hinsert, Stream.row?, Table.lookup_append, hnone, Table.lookup_cons]
        exact if_pos rfl

theorem next_sendCreate {room : RoomId} {new : NewMessage} {now : Nat} {s : Shared}
    {m : Message} (h : (Proc.sendCreate room new).next now s = .replied (.ok (.row m))) :
    ∃ serial, m = Stream.newRow new now serial := by
  simp only [Proc.next] at h
  cases htx : s.transact room (·.createMessage now new) with
  | none => simp [htx, Proc.refuse] at h
  | some st =>
      rcases Option.bind_eq_some_iff.1 htx with ⟨stream, -, hcreate⟩
      rcases row_of_createMessage hcreate with ⟨serial, hrow⟩
      simp only [htx, Option.bind_some, hrow, Proc.replied.injEq, Except.ok.injEq,
        Answer.row.injEq] at h
      exact ⟨serial, h.symm⟩

namespace PostRun

variable {t : PostRun} {room : RoomId} {me : WalletAddress} {b : MessageBody} {k : Nat}

-- The handler by what its first two checks find.
theorem handled_refused {new : NewMessage}
    (h : t.member.server.isMember room new.sender = false) :
    t.handled room new = Proc.refuse .accessDenied := by
  have hfirst : (Proc.enter (.send room new)).next t.now t.member = Proc.refuse .accessDenied := by
    rw [Proc.enter, Proc.next, Proc.check, h]
    rfl
  rw [handled, hfirst]
  rfl

theorem handled_plain {new : NewMessage} (h : t.member.server.isMember room new.sender = true)
    (hplain : new.isEncrypted = false) :
    t.handled room new = ((Proc.sendCreate room new).next t.now t.epoch).next t.now t.create := by
  have hfirst : (Proc.enter (.send room new)).next t.now t.member = Proc.sendCreate room new := by
    rw [Proc.enter, Proc.next, Proc.check, h, hplain]
    rfl
  rw [handled, hfirst]

theorem handled_sealed {new : NewMessage} (h : t.member.server.isMember room new.sender = true)
    (hsealed : new.isEncrypted = true) :
    t.handled room new = (Proc.checkEpoch (t.epoch.server.getRoom room) new.keyVersion
      (Proc.sendCreate room new)).next t.now t.create := by
  have hfirst : (Proc.enter (.send room new)).next t.now t.member = Proc.sendEpoch room new := by
    rw [Proc.enter, Proc.next, Proc.check, h, hsealed]
    rfl
  rw [handled, hfirst, Proc.next]

-- Whatever the statement that creates the row comes to, it is a reply.
theorem replied_sendCreate (new : NewMessage) (now : Nat) (s : Shared) :
    (Proc.sendCreate room new).next now s = .refuse (.internal "database") ∨
      ∃ m, (Proc.sendCreate room new).next now s = .replied (.ok (.row m)) := by
  rw [Proc.next]
  cases (s.transact room (·.createMessage now new)).bind (·.row? new.id) with
  | none => exact Or.inl rfl
  | some m => exact Or.inr ⟨m, rfl⟩

theorem handled_of_answer {m : Message} (h : t.answer room me b = .ok m) :
    t.handled room (t.request me b) = .replied (.ok (.row m)) := by
  unfold answer at h
  split at h
  · rename_i hhandled
    cases h
    exact hhandled
  · cases h
  · cases h

/-- A row that is answered with is the one that was asked for. -/
theorem row_of_answer {m : Message} (h : t.answer room me b = .ok m) :
    ∃ serial, m = Stream.newRow (t.request me b) t.now serial := by
  have hrow := handled_of_answer h
  cases hmember : t.member.server.isMember room (t.request me b).sender with
  | false =>
      rw [handled_refused hmember] at hrow
      cases hrow
  | true =>
      cases hsealed : (t.request me b).isEncrypted with
      | false =>
          rw [handled_plain hmember hsealed] at hrow
          rcases replied_sendCreate (t.request me b) t.now t.epoch with hnext | ⟨m', hnext⟩
          · rw [hnext] at hrow
            cases hrow
          · -- A reply stays what it is.
            rw [hnext] at hrow
            exact next_sendCreate (hnext.trans hrow)
      | true =>
          rw [handled_sealed hmember hsealed] at hrow
          unfold Proc.checkEpoch at hrow
          split at hrow
          · cases hrow
          · split at hrow
            · cases hrow
            · split at hrow
              · cases hrow
              · exact next_sendCreate hrow

/-- What is stored carries the ciphertext that was posted, under the same label. -/
theorem rowSealed_answer {m : Message} (h : t.answer room me b = .ok m) :
    rowSealed m = b.sealed := by
  rcases row_of_answer h with ⟨serial, rfl⟩
  rfl

/-- A room that is at the epoch of a ciphertext takes it. -/
theorem answer_of_accepts (ht : t.Accepts room me k) (hsealed : b.isEncrypted = true)
    (hversion : b.keyVersion = k) : ∃ m, t.answer room me b = .ok m := by
  rcases ht.epoch with ⟨r, hroom, hpending, hk⟩
  rcases ht.create (t.request me b) rfl with ⟨st, htx⟩
  rcases Option.bind_eq_some_iff.1 htx with ⟨stream, -, hcreate⟩
  rcases row_of_createMessage hcreate with ⟨serial, hrow⟩
  refine ⟨Stream.newRow (t.request me b) t.now serial, ?_⟩
  have hlabel : (t.request me b).keyVersion = r.currentKeyVersion := hversion.trans hk.symm
  have hnext : t.handled room (t.request me b) =
      .replied (.ok (.row (Stream.newRow (t.request me b) t.now serial))) := by
    rw [handled_sealed ht.member hsealed, hroom]
    simp only [Proc.checkEpoch, hpending, hlabel, Bool.false_eq_true, if_false, ne_eq,
      not_true_eq_false, Proc.next, htx, Option.bind_some, hrow]
  rw [answer, hnext]

-- Nobody asks plaintext for its epoch.
theorem plain_not_stale {e : ApiError} (hplain : b.isEncrypted = false)
    (h : t.answer room me b = .error e) : e.isStaleKeyVersion = false := by
  cases hmember : t.member.server.isMember room (t.request me b).sender with
  | false =>
      rw [answer, handled_refused hmember] at h
      cases h
      rfl
  | true =>
      rw [answer, handled_plain hmember hplain] at h
      rcases replied_sendCreate (t.request me b) t.now t.epoch with hnext | ⟨m, hnext⟩
      · rw [hnext] at h
        cases h
        rfl
      · rw [hnext] at h
        cases h

end PostRun

section

variable {Secret Point : Type} (P : Primitives Secret Point) (sha256Hex : String → String)

/-- A ciphertext of the text under a key. -/
def SealOf (key : Bytes 32) (room : RoomId) (text : String) (enc : EncryptedMessage) : Prop :=
  ∃ iv, encryptMessageV2With P (trimmed text) key room.str iv = .ok enc

/-- Of at most `bound` posts one is stored, sealed under the key of epoch `k`, and none is
    labelled with an epoch whose key did not seal it. -/
structure PostedOnce (roomKey : Nat → Bytes 32) (k : Nat) (room : RoomId) (text : String)
    (bound : Nat) (posts : List (MessageBody × Except ApiError Message)) : Prop where
  bounded : posts.length ≤ bound
  once : ∃ m enc, storedRows posts = [m] ∧ rowSealed m = some (k, enc) ∧
    SealOf P (roomKey k) room text enc
  labels : ∀ p ∈ posts, ∀ v enc, p.1.sealed = some (v, enc) → SealOf P (roomKey v) room text enc

/-- The keys a client holds for a room are the room's. -/
def KeysOf (roomKey : Nat → Bytes 32) (store : AppState Secret) (room : RoomId) : Prop :=
  ∀ bundle v key, store.bundle room = some bundle → bundle.get v = some key → key = roomKey v

/-- The key of an epoch is among those of the handle. -/
def Holds (store : AppState Secret) (room : RoomId) (k : Nat) : Prop :=
  ∃ bundle, store.bundle room = some bundle ∧ (bundle.get k).isSome = true

/-- The server's side of a task that posts up to twice, with what it fetches in between. -/
structure Course where
  first : PostRun
  second : PostRun
  ivs : Nat → Option (Bytes 16)
  keys : Except ApiError (List RoomKey)
  rooms : Except ApiError (List RoomWithMembers)

def Course.input (c : Course) (room : RoomId) (me : WalletAddress) : SendInput :=
  { ivs := c.ivs
    post := fun attempt b => (if attempt = 0 then c.first else c.second).answer room me b
    keys := c.keys
    rooms := c.rooms }

/-- What a post is told that is sealed under another epoch than the current one, `k`. -/
def staleAnswer (k : Nat) : ApiError :=
  received (.keyConflict .staleKeyVersion Proc.staleKeyVersion k)

variable {P} {sha256Hex}

/-! ### What is posted -/

-- What has been sealed, and under what.
theorem encryptedBody_eq_ok {key : Bytes 32} {version : Nat} {room : RoomId} {text : String}
    {iv : Option (Bytes 16)} {body : MessageBody}
    (h : encryptedBody P sha256Hex key version room text iv = .ok body) :
    body.isEncrypted = true ∧ body.keyVersion = version ∧ ∃ enc,
      body.sealed = some (version, enc) ∧ SealOf P key room text enc := by
  cases iv with
  | none => cases h
  | some iv =>
      cases henc : encryptMessageV2With P (trimmed text) key room.str iv with
      | error e =>
          simp only [encryptedBody, encryptMessageV2, henc] at h
          cases h
      | ok enc =>
          simp only [encryptedBody, encryptMessageV2, henc] at h
          cases h
          exact ⟨rfl, rfl, enc, rfl, iv, henc⟩

-- A text that is not blank is sealed if an IV can be drawn.
theorem encryptedBody_isOk {key : Bytes 32} {version : Nat} {room : RoomId} {text : String}
    {iv : Option (Bytes 16)} :
    (∃ body, encryptedBody P sha256Hex key version room text iv = .ok body) ↔
      iv.isSome = true ∧ isBlank text = false := by
  unfold encryptedBody encryptMessageV2 encryptMessageV2With
  cases iv with
  | none => simp [Except.map]
  | some iv => cases hblank : isBlank text <;> simp [Except.map, isBlank_trimmed, hblank]

section

variable {texts : Lang → SendTexts} {store : AppState Secret} {room : RoomId} {text : String}
variable {extras : SendExtras} {roomKey : Nat → Bytes 32} {me : WalletAddress} {k : Nat}

-- An attempt for an encrypted room is built from a key of the handle.
theorem buildBody_eq_ok {version : Nat} {iv : Option (Bytes 16)} {body : MessageBody}
    (h : buildBody P sha256Hex texts store room text extras version iv = .ok body) :
    body.isEncrypted = false ∨ (store.room room).any RoomWithMembers.hasEncryption = true ∧
      ∃ bundle key body', store.bundle room = some bundle ∧ bundle.get version = some key ∧
        encryptedBody P sha256Hex key version room text iv = .ok body' ∧
        body = body'.attach extras := by
  unfold buildBody at h
  split at h
  · rename_i hencrypted
    split at h
    · cases h
    · rename_i bundle hbundle
      split at h
      · cases h
      · rename_i key hkey
        split at h
        · rename_i body' hbody
          cases h
          exact Or.inr ⟨hencrypted, bundle, key, body', hbundle, hkey, hbody, rfl⟩
        · cases h
  · cases h
    exact Or.inl rfl

/-- A message is refused for its epoch, and nothing else is in the way of a second attempt. -/
structure Retried (P : Primitives Secret Point) (sha256Hex : String → String)
    (texts : Lang → SendTexts) (store : AppState Secret) (room : RoomId) (localId : Nat)
    (text : String) (extras : SendExtras) (me : WalletAddress) (c : Course) (k : Nat) : Prop where
  stale : ((sendMessage P sha256Hex texts store room localId text extras
    (c.input room me)).posts.head?.map Prod.snd) = some (.error (staleAnswer k))
  accepts : c.second.Accepts room me k

variable {localId : Nat}

-- One attempt, by how it is answered.
theorem sendLoop_unbuilt (localId : Nat) (input : SendInput) (retries attempt : Nat)
    {version : Nat} {why : String}
    (hbuild : buildBody P sha256Hex texts store room text extras version (input.ivs attempt) =
      .error why) :
    sendLoop P sha256Hex texts store room localId text extras input retries attempt version =
      ⟨[], [.dispatch (.sendFailed room localId why)], false⟩ := by
  rw [sendLoop.eq_def]
  simp only [hbuild]

theorem sendLoop_stored (localId : Nat) (input : SendInput) (retries attempt : Nat)
    {version : Nat} {body : MessageBody} {m : Message}
    (hbuild : buildBody P sha256Hex texts store room text extras version (input.ivs attempt) =
      .ok body) (hpost : input.post attempt body = .ok m) :
    sendLoop P sha256Hex texts store room localId text extras input retries attempt version =
      ⟨[(body, .ok m)],
        [.dispatch (.sync room [m]), .dispatch (.sendSucceeded room localId)], true⟩ := by
  rw [sendLoop.eq_def]
  simp only [hbuild, hpost]

theorem sendLoop_refused (localId : Nat) (input : SendInput) (retries attempt : Nat)
    {version : Nat} {body : MessageBody} {e : ApiError}
    (hbuild : buildBody P sha256Hex texts store room text extras version (input.ivs attempt) =
      .ok body) (hpost : input.post attempt body = .error e)
    (hlast : retries = 0 ∨ e.isStaleKeyVersion = false) :
    sendLoop P sha256Hex texts store room localId text extras input retries attempt version =
      ⟨[(body, .error e)], sendFailed texts store room localId input e, false⟩ := by
  rw [sendLoop.eq_def]
  simp only [hbuild, hpost]
  cases retries with
  | zero => rfl
  | succ retries =>
      rcases hlast with hzero | hother
      · cases hzero
      · simp only [hother, Bool.false_eq_true, if_false]

theorem sendLoop_retry (localId : Nat) (input : SendInput) (retries attempt : Nat)
    {version : Nat} {body : MessageBody} {e : ApiError}
    (hbuild : buildBody P sha256Hex texts store room text extras version (input.ivs attempt) =
      .ok body) (hpost : input.post attempt body = .error e)
    (hstale : e.isStaleKeyVersion = true) :
    let rest := sendLoop P sha256Hex texts store room localId text extras input retries
      (attempt + 1) (e.currentKeyVersion.getD (version + 1))
    sendLoop P sha256Hex texts store room localId text extras input (retries + 1) attempt version =
      ⟨(body, .error e) :: rest.posts,
        refreshKeys P store room input.keys ++ refreshRooms input.rooms ++ rest.effects,
        rest.result⟩ := by
  intro rest
  rw [sendLoop.eq_def]
  simp only [hbuild, hpost, hstale, if_true]
  rfl

/-- What a first attempt that has been refused for its epoch was built from, and what the
    task goes on with. -/
theorem Retried.posts {c : Course}
    (h : Retried P sha256Hex texts store room localId text extras me c k) :
    ∃ bundle key body version, store.bundle room = some bundle ∧ bundle.get version = some key ∧
      (store.room room).any RoomWithMembers.hasEncryption = true ∧
      encryptedBody P sha256Hex key version room text (c.ivs 0) = .ok body ∧
      let log := sendMessage P sha256Hex texts store room localId text extras (c.input room me)
      let rest := sendLoop P sha256Hex texts store room localId text extras (c.input room me) 0 1 k
      log.posts = (body.attach extras, .error (staleAnswer k)) :: rest.posts ∧
        log.result = rest.result := by
  have hstale := h.stale
  unfold sendMessage at hstale ⊢
  generalize (((store.room room).map fun r => r.room.currentKeyVersion).getD 1) = version
    at hstale ⊢
  cases hbuild : buildBody P sha256Hex texts store room text extras version
      ((c.input room me).ivs 0) with
  | error why =>
      rw [sendLoop_unbuilt _ _ _ _ hbuild] at hstale
      cases hstale
  | ok body =>
      cases hpost : (c.input room me).post 0 body with
      | ok m =>
          rw [sendLoop_stored _ _ _ _ hbuild hpost] at hstale
          cases hstale
      | error e =>
          cases hcode : e.isStaleKeyVersion with
          | false =>
              rw [sendLoop_refused _ _ _ _ hbuild hpost (Or.inr hcode)] at hstale
              cases hstale
              cases hcode
          | true =>
              rw [sendLoop_retry _ _ _ _ hbuild hpost hcode] at hstale
              cases hstale
              rw [sendLoop_retry _ _ _ _ hbuild hpost hcode]
              rcases buildBody_eq_ok hbuild with hplain | ⟨hencrypted, bundle, key, body',
                hbundle, hkey, hbody, rfl⟩
              · -- Plaintext is not refused so.
                have hnot := PostRun.plain_not_stale (t := c.first) hplain hpost
                rw [hnot] at hcode
                cases hcode
              · exact ⟨bundle, key, body', version, hbundle, hkey, hencrypted, hbody, rfl, rfl⟩

-- An attempt under an epoch that the handle has a key for, or has none for.
theorem buildBody_none (P : Primitives Secret Point) (sha256Hex : String → String)
    (texts : Lang → SendTexts) (text : String) (extras : SendExtras) (iv : Option (Bytes 16))
    {bundle : RoomKeyBundle} {version : Nat}
    (hencrypted : (store.room room).any RoomWithMembers.hasEncryption = true)
    (hbundle : store.bundle room = some bundle) (hkey : bundle.get version = none) :
    ∃ why, buildBody P sha256Hex texts store room text extras version iv = .error why := by
  refine ⟨(texts store.language).noCurrentKey, ?_⟩
  simp only [buildBody, hencrypted, if_true, hbundle, hkey]

theorem buildBody_some (P : Primitives Secret Point) (sha256Hex : String → String)
    (texts : Lang → SendTexts) (extras : SendExtras) (iv : Option (Bytes 16))
    {bundle : RoomKeyBundle} {version : Nat} {key : Bytes 32}
    (hencrypted : (store.room room).any RoomWithMembers.hasEncryption = true)
    (hbundle : store.bundle room = some bundle) (hkey : bundle.get version = some key)
    (hblank : isBlank text = false) :
    (iv.isSome = true ∧ ∃ body,
      encryptedBody P sha256Hex key version room text iv = .ok body ∧
      buildBody P sha256Hex texts store room text extras version iv =
        .ok (body.attach extras)) ∨
    (iv.isSome = false ∧ ∃ why,
      buildBody P sha256Hex texts store room text extras version iv = .error why) := by
  cases hbody : encryptedBody P sha256Hex key version room text iv with
  | ok body =>
      refine Or.inl ⟨(encryptedBody_isOk.1 ⟨body, hbody⟩).1, body, rfl, ?_⟩
      simp only [buildBody, hencrypted, if_true, hbundle, hkey, hbody]
  | error e =>
      refine Or.inr ⟨?_, "Couldn't encrypt that message: " ++ sealErrorText e, ?_⟩
      · by_cases hiv : iv.isSome = true
        · have hsome : ∃ body, encryptedBody P sha256Hex key version room text iv = .ok body :=
            encryptedBody_isOk.2 ⟨hiv, hblank⟩
          rcases hsome with ⟨body, hok⟩
          rw [hok] at hbody
          cases hbody
        · simpa using hiv
      · simp only [buildBody, hencrypted, if_true, hbundle, hkey, hbody]

/-- A retry succeeds exactly if the handle has held the key of the current epoch before. -/
theorem retry_iff {c : Course} (hkeys : KeysOf roomKey store room)
    (h : Retried P sha256Hex texts store room localId text extras me c k) :
    let log := sendMessage P sha256Hex texts store room localId text extras (c.input room me)
    (PostedOnce P roomKey k room text 2 log.posts ∧ log.result = true) ↔
      Holds store room k ∧ (c.ivs 1).isSome = true := by
  intro log
  rcases h.posts with ⟨bundle, key₀, body₀, version, hbundle, hkey₀, hencrypted, hbody₀, hposts,
    hresult⟩
  have hblank : isBlank text = false := (encryptedBody_isOk.1 ⟨body₀, hbody₀⟩).2
  have hfails : ∀ why, buildBody P sha256Hex texts store room text extras k (c.ivs 1) =
      .error why → log.result = false := by
    intro why hbuild
    rw [hresult, sendLoop_unbuilt localId (c.input room me) 0 1 hbuild]
  cases hkey : bundle.get k with
  | none =>
      -- The refreshed keys are not in the handle.
      rcases buildBody_none P sha256Hex texts text extras (c.ivs 1) hencrypted hbundle hkey with
        ⟨why, hbuild⟩
      constructor
      · rintro ⟨-, htrue⟩
        rw [hfails why hbuild] at htrue
        cases htrue
      · rintro ⟨⟨bundle', hbundle', hsome⟩, -⟩
        rw [hbundle] at hbundle'
        cases hbundle'
        rw [hkey] at hsome
        cases hsome
  | some key =>
      rcases buildBody_some P sha256Hex texts extras (c.ivs 1) hencrypted hbundle hkey hblank with
        ⟨hiv, body, hbody, hbuild⟩ | ⟨hiv, why, hbuild⟩
      · refine ⟨fun _ => ⟨⟨bundle, hbundle, by rw [hkey]; rfl⟩, hiv⟩, fun _ => ?_⟩
        rcases encryptedBody_eq_ok hbody with ⟨hsealed, hversion, enc, hlabel, hseal⟩
        rcases encryptedBody_eq_ok hbody₀ with ⟨-, -, enc₀, hlabel₀, hseal₀⟩
        rcases PostRun.answer_of_accepts (b := body.attach extras) h.accepts hsealed hversion
          with ⟨m, hm⟩
        have hloop := sendLoop_stored localId (c.input room me) 0 1 hbuild hm
        have hposted : log.posts = [(body₀.attach extras, .error (staleAnswer k)),
            (body.attach extras, .ok m)] := by
          rw [hposts, hloop]
        refine ⟨⟨?_, ?_, ?_⟩, ?_⟩
        · rw [hposted]
          exact Nat.le_refl 2
        · refine ⟨m, enc, ?_, ?_, ?_⟩
          · rw [hposted]
            rfl
          · rw [PostRun.rowSealed_answer hm, sealed_attach, hlabel]
          · rw [← hkeys bundle k key hbundle hkey]
            exact hseal
        · -- Each label is that of the key that was taken for it.
          intro p hp v enc' hp'
          rw [hposted, List.mem_cons, List.mem_singleton] at hp
          rcases hp with rfl | rfl
          · rw [sealed_attach, hlabel₀] at hp'
            cases hp'
            rw [← hkeys bundle _ key₀ hbundle hkey₀]
            exact hseal₀
          · rw [sealed_attach, hlabel] at hp'
            cases hp'
            rw [← hkeys bundle _ key hbundle hkey]
            exact hseal
        · rw [hresult, hloop]
      · constructor
        · rintro ⟨-, htrue⟩
          rw [hfails why hbuild] at htrue
          cases htrue
        · rintro ⟨-, hdrawn⟩
          rw [hiv] at hdrawn
          cases hdrawn

/-! ### What the agent posts -/

/-- The newest key of the handle is that of an epoch. -/
def Newest (store : AppState Secret) (room : RoomId) (k : Nat) : Prop :=
  ∃ bundle key, store.bundle room = some bundle ∧ bundle.latest = some (k, key)

-- The one post, if there is one.
theorem writeMessage_unbuilt (input : SendInput) {why : String}
    (hbuild : writeBody P sha256Hex store room text (input.ivs 0) = .error why) :
    (writeMessage P sha256Hex store room text input).posts = [] := by
  simp only [writeMessage, hbuild]

theorem writeMessage_built (input : SendInput) {body : MessageBody}
    (hbuild : writeBody P sha256Hex store room text (input.ivs 0) = .ok body) :
    (writeMessage P sha256Hex store room text input).posts = [(body, input.post 0 body)] ∧
      ((writeMessage P sha256Hex store room text input).result = .ok () ↔
        ∃ m, input.post 0 body = .ok m) := by
  cases hpost : input.post 0 body with
  | ok m => simp [writeMessage, hbuild, hpost]
  | error e => simp [writeMessage, hbuild, hpost]

-- What an agent's body is built from.
theorem writeBody_eq_ok {iv : Option (Bytes 16)} {body : MessageBody}
    (h : writeBody P sha256Hex store room text iv = .ok body) :
    body.sealed = none ∨ (store.room room).any RoomWithMembers.hasEncryption = true ∧
      ∃ bundle version key, store.bundle room = some bundle ∧
        bundle.latest = some (version, key) ∧
        encryptedBody P sha256Hex key version room text iv = .ok body := by
  unfold writeBody at h
  split at h
  · rename_i hencrypted
    split at h
    · cases h
    · rename_i bundle hbundle
      split at h
      · cases h
      · rename_i version key hlatest
        split at h
        · rename_i body' hbody
          cases h
          exact Or.inr ⟨hencrypted, bundle, version, key, hbundle, hlatest, hbody⟩
        · cases h
  · cases h
    exact Or.inl rfl

/-- An agent's post is stored exactly if its owner's handle has held the current key before
    the refresh. -/
theorem write_iff {c : Course} (hkeys : KeysOf roomKey store room)
    (h : c.first.Accepts room me k) :
    let log := writeMessage P sha256Hex store room text (c.input room me)
    (PostedOnce P roomKey k room text 1 log.posts ∧ log.result = .ok ()) ↔
      (store.room room).any RoomWithMembers.hasEncryption = true ∧ Newest store room k ∧
        (c.ivs 0).isSome = true ∧ isBlank text = false := by
  intro log
  constructor
  · rintro ⟨hposted, hresult⟩
    rcases hposted.once with ⟨m, enc, hrows, hlabel, -⟩
    cases hbuild : writeBody P sha256Hex store room text (c.ivs 0) with
    | error why =>
        rw [writeMessage_unbuilt (c.input room me) hbuild] at hrows
        cases hrows
    | ok body =>
        rcases writeMessage_built (c.input room me) hbuild with ⟨hone, hok⟩
        rcases hok.1 hresult with ⟨m', hm⟩
        rw [hone, hm] at hrows
        have hsame : m' = m := by simpa [storedRows, Except.toOption] using hrows
        have hsealed : body.sealed = some (k, enc) := by
          rw [← hlabel, ← hsame]
          exact (PostRun.rowSealed_answer hm).symm
        rcases writeBody_eq_ok hbuild with hplain | ⟨hencrypted, bundle, version, key, hbundle,
          hlatest, hbody⟩
        · rw [hplain] at hsealed
          cases hsealed
        · rcases encryptedBody_eq_ok hbody with ⟨-, -, enc', hlabel', -⟩
          have hdrawn := encryptedBody_isOk.1 ⟨body, hbody⟩
          rw [hlabel'] at hsealed
          cases hsealed
          exact ⟨hencrypted, ⟨bundle, key, hbundle, hlatest⟩, hdrawn⟩
  · rintro ⟨hencrypted, ⟨bundle, key, hbundle, hlatest⟩, hdrawn⟩
    have hsome : ∃ body, encryptedBody P sha256Hex key k room text (c.ivs 0) = .ok body :=
      encryptedBody_isOk.2 hdrawn
    rcases hsome with ⟨body, hbody⟩
    rcases encryptedBody_eq_ok hbody with ⟨hsealed, hversion, enc, hlabel, hseal⟩
    rcases PostRun.answer_of_accepts h hsealed hversion with ⟨m, hm⟩
    have hbuild : writeBody P sha256Hex store room text (c.ivs 0) = .ok body := by
      simp only [writeBody, hencrypted, if_true, hbundle, hlatest, hbody]
    rcases writeMessage_built (c.input room me) hbuild with ⟨hone, hok⟩
    have hown : key = roomKey k := hkeys bundle k key hbundle (RoomKeyBundle.get_of_latest hlatest)
    have hanswer : (c.input room me).post 0 body = .ok m := hm
    refine ⟨⟨?_, ?_, ?_⟩, hok.2 ⟨m, hanswer⟩⟩
    · rw [hone]
      exact Nat.le_refl 1
    · refine ⟨m, enc, ?_, ?_, ?_⟩
      · rw [hone, hanswer]
        rfl
      · rw [PostRun.rowSealed_answer hm, hlabel]
      · rw [← hown]
        exact hseal
    · intro p hp v enc' hp'
      rw [hone, List.mem_singleton] at hp
      rw [hp, hlabel] at hp'
      cases hp'
      rw [← hown]
      exact hseal

end

/-! ### What the refresh brings -/

section

variable {keys : SessionKeys Secret} {room : RoomId} {w : RoomKey}

-- One wrap bears on its own epoch only.
theorem get_unwrapOne_other {acc : RoomKeyBundle × List Nat} {v : Nat} (h : w.keyVersion ≠ v) :
    (unwrapOne P keys room acc w).1.get v = acc.1.get v := by
  unfold unwrapOne
  split
  · rw [RoomKeyBundle.get_insert, if_neg h.symm]
  · dsimp only
    split
    · rw [RoomKeyBundle.get_insert, if_neg h.symm]
    · rw [RoomKeyBundle.get_fail]

theorem get_unwrap_others {wraps : List RoomKey} {acc : RoomKeyBundle × List Nat} {v : Nat}
    (h : ∀ w ∈ wraps, w.keyVersion ≠ v) :
    (wraps.foldl (unwrapOne P keys room) acc).1.get v = acc.1.get v := by
  induction wraps generalizing acc with
  | nil => rfl
  | cons w wraps ih =>
      rw [List.foldl_cons, ih fun w' hw' => h w' (List.mem_cons_of_mem w hw'),
        get_unwrapOne_other (h w List.mem_cons_self)]

/-- Every wrap that opens is in the bundle, under its own epoch. -/
theorem get_unwrapBundle {wraps : List RoomKey} {key : Bytes 32} (hw : w ∈ wraps)
    (hkeyed : Table.Keyed RoomKey.keyVersion wraps)
    (hopen : unwrapRoomKeyByVersion P w.wrap.encVer (wireOf w.wrap) keys.encryption room.str =
      .ok key) :
    (unwrapBundle P keys room wraps).1.get w.keyVersion = some key := by
  unfold unwrapBundle
  generalize (RoomKeyBundle.empty, ([] : List Nat)) = acc
  induction wraps generalizing acc with
  | nil => exact absurd hw List.not_mem_nil
  | cons w' wraps ih =>
      have hsplit := List.nodup_cons.1 hkeyed
      rcases List.mem_cons.1 hw with rfl | hw
      · have hothers : ∀ w' ∈ wraps, w'.keyVersion ≠ w.keyVersion := fun w' hw' he =>
          hsplit.1 (he ▸ List.mem_map_of_mem hw')
        rw [List.foldl_cons, get_unwrap_others hothers, unwrapOne]
        simp only [hopen]
        rw [RoomKeyBundle.get_insert, if_pos rfl]
      · exact ih hw hsplit.2 _

/-- So the store holds what has been fetched, whatever the device was like. -/
theorem bundle_refreshKeys {store : AppState Secret} {session : Session Secret}
    {wraps : List RoomKey} {key : Bytes 32} (hsession : store.auth.session = some session)
    (hw : w ∈ wraps) (hkeyed : Table.Keyed RoomKey.keyVersion wraps)
    (hopen : unwrapRoomKeyByVersion P w.wrap.encVer (wireOf w.wrap) session.keys.encryption
      room.str = .ok key) (d : Device Secret) :
    ∃ bundle, (d.applyAll (refreshKeys P store room (.ok wraps))).state.bundle room =
      some bundle ∧ bundle.get w.keyVersion = some key := by
  have hne : wraps.isEmpty = false := by
    rw [List.isEmpty_eq_false_iff]
    exact List.ne_nil_of_mem hw
  refine ⟨(unwrapBundle P session.keys room wraps).1, ?_, get_unwrapBundle hw hkeyed hopen⟩
  simp only [refreshKeys, hsession, hne, Bool.false_eq_true, if_false, Device.applyAll,
    List.foldl_cons, List.foldl_nil, Device.apply, reduce, Device.withState, AppState.bundle,
    Function.update_self]

end

end

namespace Sample

open PocketSkynet.Sample

/-- The keys of the channel, one for each epoch. -/
def teamKey (version : Nat) : Bytes 32 :=
  ⟨List.replicate 32 (UInt8.ofNat version), List.length_replicate⟩

def zeroIv : Bytes 16 := .replicate 16 0

/-- A wrap as it is stored for somebody. -/
def storedFor (a : WalletAddress) (w : WrappedRoomKey) : KeyWrap :=
  ⟨a, w.encryptedSymmetricKey, w.ephemeralPublicKey, w.encryptionIv, w.hmac, 2⟩

theorem wireOf_storedFor (a : WalletAddress) (w : WrappedRoomKey) : wireOf (storedFor a w) = w :=
  rfl

/-- Bob's wrap of the key of the second epoch. -/
def bobsWrap : KeyWrap :=
  storedFor bob (wrapRoomKeyV2With openPrimitives (teamKey 2) () team.str () zeroIv)

/-- The channel after Alice has rotated its key. -/
def rotated : Shared := keyed.updateRoom team fun r => (r.rotate 2 [wrapFor alice, bobsWrap]).2

/-- A post to the channel as it is then. -/
def postRun : PostRun := ⟨10, ⟨"msg_10_a"⟩, id, rotated, rotated, rotated⟩

def bobsSession : Session Unit := ⟨"jwt", ⟨bob, "Bob", none⟩, ⟨(), none⟩⟩

/-- The channel as Bob's client last saw it, with the keys it has loaded. -/
def bobsHandle (bundle : Option RoomKeyBundle) : AppState Unit :=
  { AppState.new (.unlocked bobsSession) ⟨"", some "jwt", false⟩ .empty none with
    rooms := [⟨⟨team, "Team", "channel", 1, false⟩, true, some 0, none⟩]
    bundles := fun room => if room = team then bundle else none }

def firstKey : RoomKeyBundle := RoomKeyBundle.empty.insert 1 (teamKey 1)

def bothKeys : RoomKeyBundle := firstKey.insert 2 (teamKey 2)

/-- The fetches in between bring the second key. -/
def course : Course :=
  { first := postRun, second := postRun, ivs := fun _ => some zeroIv,
    keys := .ok [⟨bobsWrap, 2⟩],
    rooms := .ok [⟨⟨team, "Team", "channel", 2, false⟩, true, some 0, none⟩] }

def noTexts (_ : Lang) : SendTexts := ⟨"", "", ""⟩

theorem postRun_accepts : postRun.Accepts team bob 2 where
  member := by decide +kernel
  epoch := ⟨_, rfl, by decide +kernel, by decide +kernel⟩
  create := by
    intro new hid
    refine ⟨⟨[Stream.newRow new 10 10], 11⟩, ?_⟩
    simp [Shared.transact, Shared.stream, postRun, rotated, Shared.updateRoom, keyed,
      Stream.create, Stream.createMessage, Stream.allocate, Stream.serialAt, Stream.insert,
      Stream.row?, maxSafeInt]

theorem keysOf_firstKey : KeysOf teamKey (bobsHandle (some firstKey)) team := by
  intro bundle v key hbundle hkey
  have hsame : firstKey = bundle := Option.some.inj hbundle
  rw [← hsame, firstKey, RoomKeyBundle.get_insert] at hkey
  split at hkey
  · rename_i hv
    rw [hv]
    exact (Option.some.inj hkey).symm
  · cases hkey

theorem keysOf_bothKeys : KeysOf teamKey (bobsHandle (some bothKeys)) team := by
  intro bundle v key hbundle hkey
  have hsame : bothKeys = bundle := Option.some.inj hbundle
  rw [← hsame, bothKeys, RoomKeyBundle.get_insert] at hkey
  split at hkey
  · rename_i hv
    rw [hv]
    exact (Option.some.inj hkey).symm
  · exact keysOf_firstKey firstKey v key rfl hkey

-- The rotation has installed his wrap.
theorem bobsWrap_stored :
    (⟨bobsWrap, 2⟩ : RoomKey) ∈ (keyedTeam.rotate 2 [wrapFor alice, bobsWrap]).2.keys := by
  have hlast : (keyedTeam.rotate 2 [wrapFor alice, bobsWrap]).2.keys =
      Table.upsert RoomKey.slot ⟨bobsWrap, 2⟩ (keyedTeam.storeKey (wrapFor alice) 2).keys := rfl
  rw [hlast]
  exact Table.mem_of_lookup (k := (bob, 2)) (by rw [Table.lookup_upsert]; exact if_pos rfl)

-- And he can open it.
theorem bobsWrap_opens :
    unwrapRoomKeyByVersion openPrimitives bobsWrap.encVer (wireOf bobsWrap) () team.str =
      .ok (teamKey 2) := by
  have hopen : ∀ w, unwrapRoomKeyByVersion openPrimitives (storedFor bob w).encVer
      (wireOf (storedFor bob w)) () team.str = unwrapRoomKeyV2 openPrimitives w () team.str := by
    intro w
    rw [wireOf_storedFor]
    rfl
  rw [bobsWrap, hopen]
  exact unwrap_wrap openPrimitives_lawful (teamKey 2) () team.str () zeroIv

-- Bob's message is refused, whatever keys he holds besides the first one.
theorem retried_rotated (bundle : RoomKeyBundle) (hfirst : bundle.get 1 = some (teamKey 1)) :
    Retried openPrimitives id noTexts (bobsHandle (some bundle)) team 1 "hello" ⟨none, []⟩ bob
      course 2 where
  stale := by
    have hbundle : (bobsHandle (some bundle)).bundle team = some bundle := rfl
    have hencrypted : ((bobsHandle (some bundle)).room team).any
        RoomWithMembers.hasEncryption = true := by
      simp [bobsHandle, AppState.room, RoomWithMembers.id]
    have hblank : isBlank "hello" = false := by decide +kernel
    rcases buildBody_some openPrimitives id noTexts ⟨none, []⟩ (some zeroIv) hencrypted hbundle
      hfirst hblank with ⟨-, body, hbody, hbuild⟩ | ⟨hnone, -⟩
    · rcases encryptedBody_eq_ok hbody with ⟨hsealed, hversion, -⟩
      have hpost : postRun.answer team bob (body.attach ⟨none, []⟩) = .error (staleAnswer 2) := by
        have hlabel : (postRun.request bob (body.attach ⟨none, []⟩)).keyVersion = 1 := hversion
        rw [PostRun.answer, PostRun.handled_sealed postRun_accepts.member hsealed, hlabel]
        rfl
      have hloop := sendLoop_retry 1 (course.input team bob) 0 0 hbuild hpost rfl
      have hversion₀ : (((bobsHandle (some bundle)).room team).map fun r =>
          r.room.currentKeyVersion).getD 1 = 1 := by rfl
      rw [sendMessage, hversion₀, hloop]
      rfl
    · cases hnone
  accepts := postRun_accepts

end Sample

end PocketSkynet.Web
