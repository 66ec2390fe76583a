import PocketSkynet.Server.Sample
import PocketSkynet.Server.UploadSession

/-!
# The Assembly of a Chunked Upload

What the row of a session counts and what its temp file holds are moved by separate
steps, and a write goes to the end of the file and not to its offset. The invariant
is a balance: the length of the file and the bytes that are claimed and not written
yet add up to what the row counts. It is enough for everything else. An append that
writes where the file ends keeps the file a prefix of what the client has, and once
nothing is claimed the prefix has the length the row counts.

`assembles` says when the balance is kept. A chunk is written when the file ends
where its offset is, and whole; a write that fails has written nothing and gives its
offset back before anybody builds on it; a finish measures the file only when all of
it is there; and an attachment row is made once the bytes have been moved.

## Main definitions

* `FromClient`: A request carries the bytes of the client's file at its offset.
* `Assembles`: What an upload owes its client in one state.
* `Orderly`: The condition on a step.
* `UploadTask.claimed`: What an append has claimed and not written yet.

## Theorems

* `inv_step`: A step that meets the condition keeps the balance.
* `assembles`: A run of such steps owes its client nothing at any point.
* `torn_write_destroys`: A write that stops half way costs the client the session.
-/

namespace PocketSkynet

/-- The largest file the server will assemble. -/
def maxUploadBytes : Nat := 4 * 1024 * 1024 * 1024 - 1

namespace UploadTask

variable {δ : Type}

/-- An append under way. -/
def appending : UploadTask δ → Bool
  | appendRead .. | appendAdvance .. | appendReread .. | appendWrite .. | appendRollback .. =>
      true
  | _ => false

/-- What an append has claimed and not written yet. -/
def claimed : UploadTask δ → Nat
  | appendWrite _ body | appendRollback _ body => body.length
  | _ => 0

/-- A finish that has taken the temp file and is to make the row for it. -/
def committing : UploadTask δ → Bool
  | finalInsert .. => true
  | _ => false

/-- A finish that gives the session up as broken. -/
def destroys : UploadTask δ → Bool
  | discardFile (.error _) | discardRow (.error _) => true
  | _ => false

/-- A finish that has created something and is to clear up. -/
def succeeded : UploadTask δ → Bool
  | siteIndex _ | discardFile (.ok _) | discardRow (.ok _) => true
  | _ => false

end UploadTask

namespace UploadSession

variable {δ : Type} [DecidableEq δ]

/-- The session is about this file. -/
def OfFile (sha256 : List UInt8 → δ) (file : List UInt8) (s : UploadSession δ) : Prop :=
  s.declaredSize = file.length ∧ s.sha256.all (· = sha256 file) = true

end UploadSession

/-- The session of a file when it has been begun. The digest may be left out. -/
def UploadStore.begun {δ : Type} (sha256 : List UInt8 → δ) (owner : WalletAddress)
    (kind : UploadKind) (file : List UInt8) (declares : Bool) (stored : List δ)
    (spent : Bool) : UploadStore δ :=
  { row := some ⟨owner, kind, file.length, 0, if declares then some (sha256 file) else none⟩
    temp := some [], stored := stored, spent := spent, created := [] }

namespace Uploads

/-- A request of the client: an append has the bytes of its file at the offset it names,
    in a body the server takes. -/
def FromClient (file : List UInt8) : Turn UploadCall Outcome → Prop
  | .start (.append _ offset body) =>
      body.length ≤ maxChunkBytes ∧ ∀ o, offset = some o → body <+: file.drop o
  | .start (.status _) | .start (.finish _) | .tick .. => True
  | .start (.abort _) | .start .sweep => False

variable {δ : Type} [DecidableEq δ] (sha256 : List UInt8 → δ) (file : List UInt8)

/-- No append is in flight, and no finish has taken the bytes over. -/
def Settled (p : Uploads δ) : Prop :=
  (∀ t ∈ p.procs, t.appending = false ∧ t.committing = false) ∧ p.shared.created = []

/-- The client can still append what is missing and get a finish to the finaliser, with
    the digest of its file. -/
def Completable (p : Uploads δ) : Prop :=
  ∃ turns, (∀ t ∈ turns, FromClient file t) ∧
    ∃ earlier s, (Run.run (step sha256) p turns).procs =
      earlier ++ [.finalCheck s (sha256 file)] ∧ p.procs.length ≤ earlier.length

/-- What an upload owes its client: once settled, the temp file is the prefix of the file
    that the row acknowledges and the session can be completed; and no finish gives the
    session up. -/
structure Assembles (p : Uploads δ) : Prop where
  content : Settled p → ∀ s, p.shared.row = some s →
    p.shared.temp = some (file.take s.received)
  kept : ∀ t ∈ p.procs, t.destroys = false
  completes : Settled p → ∀ s, p.shared.row = some s → Completable sha256 file p

/-- The condition on a step. -/
def Orderly (p : Uploads δ) : Turn UploadCall Outcome → Prop
  | .tick i x =>
      match p.procs[i]? with
      -- The chunk is written whole where the file ends, or nothing of it is written.
      | some (.appendWrite s body) =>
          p.shared.temp.map List.length = some s.received ∧
            (x = .ok ∨ x = .stops 0 ∨ ∃ n, x = .unflushed n ∧ body.length ≤ n)
      -- The offset is given back before anybody has built on it.
      | some (.appendRollback s body) =>
          x = .ok ∧ p.shared.row.map UploadSession.received = some (s.received + body.length)
      -- All of the file is there when it is measured.
      | some (.finishHash s) =>
          ∀ bytes, p.shared.temp = some bytes → bytes.length = s.declaredSize
      -- The row is made once the bytes have been moved.
      | some (.finalInsert s _) => x = .ok ∨ s.kind ≠ .file ∨ p.shared.temp.isSome
      | _ => True
  | .start _ => True

/-- What a request carries fits the client's file, and no finish gives up. -/
def Sound : UploadTask δ → Prop
  | .appendRead _ offset body => ∀ o, offset = some o → body <+: file.drop o
  | .appendAdvance _ s body => s.OfFile sha256 file ∧ body ≠ [] ∧ body <+: file.drop s.received
  | .appendWrite s body | .appendRollback s body => body ≠ [] ∧ body <+: file.drop s.received
  | .finishHash s => s.OfFile sha256 file
  | .discardFile (.error _) | .discardRow (.error _) => False
  | .abortRead _ | .sweepList => False
  | _ => True

/-- The balance, and what it rests on. -/
structure Inv (p : Uploads δ) : Prop where
  sound : ∀ t ∈ p.procs, Sound sha256 file t
  ofFile : ∀ s, p.shared.row = some s → s.OfFile sha256 file
  content : ∀ bytes, p.shared.temp = some bytes → bytes <+: file
  balance : ∀ s bytes, p.shared.row = some s → p.shared.temp = some bytes →
    bytes.length + p.total UploadTask.claimed = s.received ∧ s.received ≤ file.length
  taken : p.shared.temp = none →
    p.shared.created ≠ [] ∨ ∃ t ∈ p.procs, t.committing = true
  success : ∀ t ∈ p.procs, t.succeeded = true → p.shared.created ≠ []

section

variable {sha256 file} {p : Uploads δ} {i : Nat} {c c' : UploadTask δ}

/-- What a request that moves has to bring for the balance to be kept. -/
theorem inv_move {st : UploadStore δ} (hc : p.procs[i]? = some c) (h : Inv sha256 file p)
    (hsound : Sound sha256 file c') (hfile : ∀ s, st.row = some s → s.OfFile sha256 file)
    (hcontent : ∀ bytes, st.temp = some bytes → bytes <+: file)
    (hbalance : ∀ total, total + c.claimed = p.total UploadTask.claimed + c'.claimed →
      ∀ s bytes, st.row = some s → st.temp = some bytes →
        bytes.length + total = s.received ∧ s.received ≤ file.length)
    (hcreated : p.shared.created ≠ [] → st.created ≠ [])
    (htaken : st.temp = none → st.created ≠ [] ∨ c'.committing = true ∨
      p.shared.temp = none ∧ c.committing = false)
    (hsuccess : c'.succeeded = true → st.created ≠ []) :
    Inv sha256 file ⟨st, p.procs.set i c'⟩ where
  sound t ht := by
    rcases List.mem_or_eq_of_mem_set ht with ht | rfl
    · exact h.sound t ht
    · exact hsound
  ofFile := hfile
  content := hcontent
  balance := hbalance _ (Pool.sum_map_set UploadTask.claimed p.procs i c c' hc)
  taken hnone := by
    have hmem : c' ∈ p.procs.set i c' := List.mem_set (List.getElem?_eq_some_iff.1 hc).1 c'
    rcases htaken hnone with hmade | hcommits | ⟨hwas, hidle⟩
    · exact Or.inl hmade
    · exact Or.inr ⟨c', hmem, hcommits⟩
    · rcases h.taken hwas with hmade | ⟨t, ht, hcommits⟩
      · exact Or.inl (hcreated hmade)
      · -- The one that has taken the bytes is not the one that moves.
        rcases List.getElem?_of_mem ht with ⟨j, hj⟩
        have hji : i ≠ j := by
          rintro rfl
          rw [hc, Option.some.injEq] at hj
          rw [hj, hcommits] at hidle
          exact absurd hidle (by decide)
        refine Or.inr ⟨t, List.mem_of_getElem? (i := j) ?_, hcommits⟩
        rwa [List.getElem?_set_ne hji]
  success t ht hsucc := by
    rcases List.mem_or_eq_of_mem_set ht with ht | rfl
    · exact hcreated (h.success t ht hsucc)
    · exact hsuccess hsucc

/-- A request may move to where nothing is claimed and nothing has been created. -/
def Plain (sha256 : List UInt8 → δ) (file : List UInt8) (t : UploadTask δ) : Prop :=
  Sound sha256 file t ∧ t.claimed = 0 ∧ t.succeeded = false

theorem plain_answered (answer : Except ApiError (UploadReply δ)) :
    Plain sha256 file (.answered answer) := ⟨trivial, rfl, rfl⟩

theorem plain_orAnswer {α : Type} {x : Except ApiError α} {next : α → UploadTask δ}
    (h : ∀ a, x = .ok a → Plain sha256 file (next a)) :
    Plain sha256 file (UploadTask.orAnswer x next) := by
  cases x with
  | ok a => exact h a rfl
  | error e => exact plain_answered (.error e)

theorem plain_orRefusal {x : Outcome} (h : Plain sha256 file c') :
    Plain sha256 file (UploadTask.orRefusal x c') := by
  cases x with
  | ok => exact h
  | fails | refused _ | stops _ | unflushed _ => exact plain_answered _

/-- A request that claims nothing and has taken nothing moves on, and the store stays. -/
theorem inv_plain (hc : p.procs[i]? = some c) (h : Inv sha256 file p)
    (hplain : Plain sha256 file c') (hclaimed : c.claimed = 0) (hidle : c.committing = false) :
    Inv sha256 file ⟨p.shared, p.procs.set i c'⟩ := by
  rcases hplain with ⟨hsound, hnone, hsucc⟩
  refine inv_move hc h hsound h.ofFile h.content ?_ id (fun ht => Or.inr (Or.inr ⟨ht, hidle⟩))
    (fun hs => absurd hs (by simp [hsucc]))
  intro total htotal
  rw [hclaimed, hnone] at htotal
  have heq : total = p.total UploadTask.claimed := by omega
  rw [heq]
  exact h.balance

-- A chunk that belongs at an offset ends inside the file.
theorem le_length_of_belongs {body : List UInt8} {offset : Nat} (hne : body ≠ [])
    (h : body <+: file.drop offset) : offset + body.length ≤ file.length := by
  have hlen := h.length_le
  have hpos := List.length_pos_iff.2 hne
  rw [List.length_drop] at hlen
  omega

-- A chunk that belongs where a prefix ends makes a longer prefix.
theorem append_belongs {bytes body : List UInt8} (hbytes : bytes <+: file)
    (h : body <+: file.drop bytes.length) : bytes ++ body <+: file := by
  rcases hbytes with ⟨rest, rfl⟩
  rw [List.drop_left] at h
  exact (List.prefix_append_right_inj bytes).2 h

/-- The claim: the row counts the chunk, and the append carries it. -/
theorem inv_claim {caller : WalletAddress} {s : UploadSession δ} {body : List UInt8} (x : Outcome)
    (hc : p.procs[i]? = some (.appendAdvance caller s body)) (h : Inv sha256 file p) :
    Inv sha256 file ⟨(UploadTask.advance sha256 x p.shared (.appendAdvance caller s body)).1,
      p.procs.set i (UploadTask.advance sha256 x p.shared (.appendAdvance caller s body)).2⟩ := by
  have hs : Sound sha256 file (.appendAdvance caller s body) :=
    h.sound _ (Pool.mem_of_getElem? hc)
  by_cases hx : x = .ok
  · simp only [UploadTask.advance, if_pos hx]
    by_cases hmoved : p.shared.moved s.received = true
    · rcases UploadStore.advance_of_moved body.length hmoved with ⟨r, hrow, hreceived, hst⟩
      rw [hst, if_pos hmoved]
      have hend := le_length_of_belongs hs.2.1 hs.2.2
      refine inv_move hc h hs.2 ?_ h.content ?_ id ?_ nofun
      · intro s' hs'
        cases hs'
        exact h.ofFile r hrow
      · intro total htotal s' bytes hs' hbytes
        cases hs'
        have hbal := h.balance r bytes hrow hbytes
        simp only [UploadTask.claimed] at htotal ⊢
        omega
      · exact fun hnone => Or.inr (Or.inr ⟨hnone, rfl⟩)
    · rw [Bool.not_eq_true] at hmoved
      rw [UploadStore.advance_of_not_moved _ hmoved, if_neg (by simp [hmoved])]
      exact inv_plain hc h ⟨trivial, rfl, rfl⟩ rfl rfl
  · simp only [UploadTask.advance, if_neg hx]
    exact inv_plain hc h (plain_answered _) rfl rfl

/-- The write: the file grows by the chunk, where the chunk belongs. -/
theorem inv_write {s : UploadSession δ} {body : List UInt8} {x : Outcome}
    (hc : p.procs[i]? = some (.appendWrite s body)) (h : Inv sha256 file p)
    (hord : Orderly p (.tick i x)) :
    Inv sha256 file ⟨(UploadTask.advance sha256 x p.shared (.appendWrite s body)).1,
      p.procs.set i (UploadTask.advance sha256 x p.shared (.appendWrite s body)).2⟩ := by
  have hs : Sound sha256 file (.appendWrite s body) := h.sound _ (Pool.mem_of_getElem? hc)
  simp only [Orderly, hc] at hord
  rcases hord with ⟨hlen, houtcome⟩
  cases htemp : p.shared.temp with
  | none => simp [htemp] at hlen
  | some bytes =>
      have hat : bytes.length = s.received := by simpa [htemp] using hlen
      -- What is written of the chunk, and what is still claimed then.
      have hgrow : ∀ part c', part <+: body → Sound sha256 file c' → c'.succeeded = false →
          part.length + c'.claimed = body.length →
          Inv sha256 file ⟨{ p.shared with temp := some (bytes ++ part) },
            p.procs.set i c'⟩ := by
        intro part c' hpart hsound hsucc hclaimed
        have hbelongs : part <+: file.drop bytes.length := by
          rw [hat]
          exact hpart.trans hs.2
        refine inv_move hc h hsound h.ofFile ?_ ?_ id nofun (fun hc' => ?_)
        · intro bytes' hbytes'
          cases hbytes'
          exact append_belongs (h.content bytes htemp) hbelongs
        · intro total htotal s' bytes' hs' hbytes'
          cases hbytes'
          have hbal := h.balance s' bytes hs' htemp
          have hbody : (UploadTask.appendWrite s body).claimed = body.length := rfl
          rw [hbody] at htotal
          rw [List.length_append]
          omega
        · rw [hsucc] at hc'
          cases hc'
      simp only [UploadTask.advance, UploadTask.write, htemp]
      rcases houtcome with rfl | rfl | ⟨n, rfl, hn⟩
      · exact hgrow body _ List.prefix_rfl trivial rfl (by simp [UploadTask.claimed])
      · exact hgrow (body.take 0) _ (List.take_prefix 0 body) hs rfl
          (by simp [UploadTask.claimed])
      · exact hgrow (body.take n) _ (List.take_prefix n body) trivial rfl
          (by simp [UploadTask.claimed, UploadTask.broken, hn])

/-- The offset is given back: nobody has built on it. -/
theorem inv_rollback {s : UploadSession δ} {body : List UInt8} {x : Outcome}
    (hc : p.procs[i]? = some (.appendRollback s body)) (h : Inv sha256 file p)
    (hord : Orderly p (.tick i x)) :
    Inv sha256 file ⟨(UploadTask.advance sha256 x p.shared (.appendRollback s body)).1,
      p.procs.set i (UploadTask.advance sha256 x p.shared (.appendRollback s body)).2⟩ := by
  simp only [Orderly, hc] at hord
  rcases hord with ⟨rfl, hreceived⟩
  have hmoved : p.shared.moved (s.received + body.length) = true := by
    cases hrow : p.shared.row with
    | none => simp [hrow] at hreceived
    | some r => simpa [hrow, UploadStore.moved] using hreceived
  rcases UploadStore.advance_of_moved (-(body.length : Int)) hmoved with ⟨r, hrow, hr, hst⟩
  simp only [UploadTask.advance, if_true, hst]
  refine inv_move hc h trivial ?_ h.content ?_ id ?_ fun hsucceeded _ => ?_
  · intro s' hs'
    cases hs'
    exact h.ofFile r hrow
  · intro total htotal s' bytes hs' hbytes
    cases hs'
    have hbal := h.balance r bytes hrow hbytes
    simp only [UploadTask.claimed, UploadTask.broken] at htotal ⊢
    omega
  · exact fun hnone => Or.inr (Or.inr ⟨hnone, rfl⟩)
  · cases hsucceeded

/-- The take-over: the temp file is gone, and the finish that has it goes on. -/
theorem inv_place {s : UploadSession δ} {digest : δ} (x : Outcome)
    (hc : p.procs[i]? = some (.finalPlace s digest)) (h : Inv sha256 file p) :
    Inv sha256 file ⟨(UploadTask.advance sha256 x p.shared (.finalPlace s digest)).1,
      p.procs.set i (UploadTask.advance sha256 x p.shared (.finalPlace s digest)).2⟩ := by
  simp only [UploadTask.advance, UploadTask.place]
  split
  · -- The file is there already. The temp file goes, or it stays.
    by_cases hx : x = .ok
    · simp only [if_pos hx]
      exact inv_move hc h trivial h.ofFile nofun (fun _ _ _ _ _ => nofun) id
        (fun _ => Or.inr (Or.inl rfl)) nofun
    · simp only [if_neg hx]
      exact inv_plain hc h ⟨trivial, rfl, rfl⟩ rfl rfl
  · split
    · exact inv_move hc h trivial h.ofFile nofun (fun _ _ _ _ _ => nofun) id
        (fun _ => Or.inr (Or.inl rfl)) nofun
    · exact inv_plain hc h (plain_answered _) rfl rfl

-- A step that creates something settles what the session owes.
theorem inv_created {st : UploadStore δ} (hc : p.procs[i]? = some c) (h : Inv sha256 file p)
    (hrow : st.row = p.shared.row) (htemp : st.temp = p.shared.temp) (hmade : st.created ≠ [])
    (hclaimed : c.claimed = 0) (hclaims : c'.claimed = 0) (hsound : Sound sha256 file c') :
    Inv sha256 file ⟨st, p.procs.set i c'⟩ := by
  refine inv_move hc h hsound (by rw [hrow]; exact h.ofFile) (by rw [htemp]; exact h.content) ?_
    (fun _ => hmade) (fun _ => Or.inl hmade) (fun _ => hmade)
  intro total htotal
  have heq : total = p.total UploadTask.claimed := by omega
  rw [hrow, htemp, heq]
  exact h.balance

theorem inv_insert {s : UploadSession δ} {digest : δ} {x : Outcome}
    (hc : p.procs[i]? = some (.finalInsert s digest)) (h : Inv sha256 file p)
    (hord : Orderly p (.tick i x)) :
    Inv sha256 file ⟨(UploadTask.advance sha256 x p.shared (.finalInsert s digest)).1,
      p.procs.set i (UploadTask.advance sha256 x p.shared (.finalInsert s digest)).2⟩ := by
  simp only [Orderly, hc] at hord
  by_cases hx : x = .ok ∨ s.kind ≠ .file
  · simp only [UploadTask.advance, if_pos hx, UploadTask.insert]
    split
    · exact inv_created hc h rfl rfl (by simp) rfl rfl trivial
    · refine inv_created hc h rfl rfl ?_ rfl rfl trivial
      exact List.ne_nil_of_mem (List.mem_insert_self)
  · -- The row could not be made, and the temp file is still there.
    simp only [UploadTask.advance, if_neg hx]
    have htemp : p.shared.temp.isSome = true := by
      rcases hord with hok | hkind | htemp
      · exact absurd (Or.inl hok) hx
      · exact absurd (Or.inr hkind) hx
      · exact htemp
    refine inv_move hc h trivial h.ofFile h.content ?_ id ?_ nofun
    · intro total htotal
      have heq : total = p.total UploadTask.claimed := by
        simpa [UploadTask.claimed, UploadTask.broken] using htotal
      rw [heq]
      exact h.balance
    · intro hnone
      rw [hnone] at htemp
      cases htemp

-- What is left of a session after a commit is cleared away.
theorem inv_discard {answer : Except ApiError (UploadReply δ)} {st : UploadStore δ}
    (hc : p.procs[i]? = some c) (h : Inv sha256 file p)
    (hcase : c = .discardFile answer ∧ c' = .discardRow answer ∨
      c = .discardRow answer ∧ c' = .answered answer)
    (hrow : st.row = p.shared.row ∨ st.row = none)
    (htemp : st.temp = p.shared.temp ∨ st.temp = none)
    (hcreated : st.created = p.shared.created) : Inv sha256 file ⟨st, p.procs.set i c'⟩ := by
  have hs := h.sound c (Pool.mem_of_getElem? hc)
  have hclaims : c.claimed = 0 ∧ c'.claimed = 0 := by
    rcases hcase with ⟨rfl, rfl⟩ | ⟨rfl, rfl⟩ <;> exact ⟨rfl, rfl⟩
  have hmade : p.shared.created ≠ [] := by
    refine h.success c (Pool.mem_of_getElem? hc) ?_
    rcases hcase with ⟨rfl, -⟩ | ⟨rfl, -⟩ <;> cases answer <;> first | exact hs.elim | rfl
  have hsound : Sound sha256 file c' := by
    rcases hcase with ⟨rfl, rfl⟩ | ⟨rfl, rfl⟩
    · cases answer <;> exact hs
    · trivial
  rw [← hcreated] at hmade
  refine inv_move hc h hsound ?_ ?_ ?_ (fun _ => hmade) (fun _ => Or.inl hmade) (fun _ => hmade)
  · intro s hst
    rcases hrow with hrow | hrow
    · exact h.ofFile s (hrow ▸ hst)
    · simp [hrow] at hst
  · intro bytes hst
    rcases htemp with htemp | htemp
    · exact h.content bytes (htemp ▸ hst)
    · simp [htemp] at hst
  · intro total htotal s bytes hst hbytes
    have heq : total = p.total UploadTask.claimed := by omega
    rcases hrow with hrow | hrow
    · rcases htemp with htemp | htemp
      · rw [heq]
        exact h.balance s bytes (hrow ▸ hst) (htemp ▸ hbytes)
      · simp [htemp] at hbytes
    · simp [hrow] at hst

-- All of a prefix of the right length is the file, and its digest is the one declared.
theorem judge_of_whole {s : UploadSession δ} {bytes : List UInt8} (hs : s.OfFile sha256 file)
    (hbytes : bytes <+: file) (hlen : bytes.length = s.declaredSize) :
    UploadTask.judge s (sha256 bytes) bytes.length = .finalCheck s (sha256 file) := by
  have hfile : bytes = file := hbytes.eq_of_length (hlen.trans hs.1)
  subst hfile
  rw [UploadTask.judge, if_neg (by simp [hlen]), if_pos hs.2]

/-- The append of one chunk by its owner, with nobody in between. -/
def oneChunk (p : Uploads δ) (s : UploadSession δ) (body : List UInt8) :
    List (Turn UploadCall Outcome) :=
  [.start (.append s.owner (some s.received) body), .tick p.procs.length .ok,
    .tick p.procs.length .ok, .tick p.procs.length .ok]

theorem run_oneChunk {s : UploadSession δ} {bytes body : List UInt8}
    (hrow : p.shared.row = some s) (htemp : p.shared.temp = some bytes) (hne : body ≠ [])
    (hend : s.received + body.length ≤ s.declaredSize) (hsize : s.declaredSize < 2 ^ 64) :
    ∃ t, Run.run (step sha256) p (oneChunk p s body) =
      ⟨{ p.shared with
          row := some { s with received := s.received + body.length }
          temp := some (bytes ++ body) }, p.procs ++ [t]⟩ := by
  have hmoved : p.shared.moved s.received = true := by simp [UploadStore.moved, hrow]
  have hadvance : p.shared.advance s.received body.length =
      { p.shared with row := some { s with received := s.received + body.length } } := by
    simp [UploadStore.advance, hrow]
    omega
  refine ⟨.answered (.ok (.appended (s.received + body.length) s.declaredSize)), ?_⟩
  simp only [oneChunk, Run.run_cons, Run.run_nil, step]
  rw [show Pool.step UploadTask.enter (UploadTask.advance sha256) p
      (.start (.append s.owner (some s.received) body)) =
      ⟨p.shared, p.procs ++ [.appendRead s.owner (some s.received) body]⟩ from rfl]
  rw [Pool.step_tick_last]
  simp only [UploadTask.advance, if_true, UploadStore.ownedSession_ok hrow, UploadTask.orAnswer,
    UploadSession.checkChunk_ok hne hend hsize]
  rw [Pool.step_tick_last]
  simp only [UploadTask.advance, if_true, hmoved, hadvance]
  rw [Pool.step_tick_last]
  simp only [UploadTask.advance, UploadTask.write, htemp]

/-- What is missing can be appended chunk by chunk, and then a finish passes its checks. -/
theorem completable (hsize : file.length ≤ maxUploadBytes) (p : Uploads δ)
    (s : UploadSession δ) (hrow : p.shared.row = some s) (hfile : s.OfFile sha256 file)
    (hle : s.received ≤ file.length) (htemp : p.shared.temp = some (file.take s.received)) :
    Completable sha256 file p := by
  -- The induction is on what is missing.
  induction hmissing : file.length - s.received using Nat.strong_induction_on
    generalizing p s with | _ missing ih
  by_cases hall : s.received = file.length
  · -- Everything is there.
    have hwhole : file.take s.received = file := by rw [hall, List.take_length]
    rw [hwhole] at htemp
    refine ⟨[.start (.finish s.owner), .tick p.procs.length .ok, .tick p.procs.length .ok], ?_,
      p.procs, s, ?_, Nat.le_refl _⟩
    · simp [FromClient]
    · have hcomplete : s.checkComplete = .ok () := by
        simp [UploadSession.checkComplete, ensure, hall, hfile.1]
      simp only [Run.run_cons, Run.run_nil, step]
      rw [show Pool.step UploadTask.enter (UploadTask.advance sha256) p
          (.start (.finish s.owner)) = ⟨p.shared, p.procs ++ [.finishRead s.owner]⟩ from rfl]
      rw [Pool.step_tick_last]
      simp only [UploadTask.advance, if_true, UploadStore.ownedSession_ok hrow,
        UploadTask.orAnswer, hcomplete]
      rw [Pool.step_tick_last]
      simp only [UploadTask.advance, htemp, if_true]
      rw [judge_of_whole hfile List.prefix_rfl hfile.1.symm]
  · -- One more chunk, of the bytes that belong there.
    have hpos : 0 < maxChunkBytes := by decide
    let body := (file.drop s.received).take maxChunkBytes
    have hlen : body.length = min maxChunkBytes (file.length - s.received) := by
      simp [body]
    have hne : body ≠ [] := by
      intro hnil
      rw [hnil, List.length_nil] at hlen
      omega
    have hend : s.received + body.length ≤ s.declaredSize := by
      rw [hfile.1]
      omega
    have hbound : s.declaredSize < 2 ^ 64 := by
      rw [hfile.1]
      exact Nat.lt_of_le_of_lt hsize (by decide)
    have hchunk : ∃ t, Run.run (step sha256) p (oneChunk p s body) =
        ⟨{ p.shared with
            row := some { s with received := s.received + body.length }
            temp := some (file.take s.received ++ body) }, p.procs ++ [t]⟩ :=
      run_oneChunk hrow htemp hne hend hbound
    rcases hchunk with ⟨t, hrun⟩
    have hgrown : file.take s.received ++ body = file.take (s.received + body.length) := by
      rw [List.take_add, List.append_cancel_left_eq, List.take_eq_take_iff, List.length_drop, hlen]
      omega
    rcases ih (file.length - (s.received + body.length)) (by omega)
      ⟨{ p.shared with
          row := some { s with received := s.received + body.length }
          temp := some (file.take s.received ++ body) }, p.procs ++ [t]⟩
      { s with received := s.received + body.length } rfl hfile (by rw [← hfile.1]; exact hend)
      (congrArg some hgrown) rfl with ⟨turns, hclient, earlier, s', hprocs, hearlier⟩
    refine ⟨oneChunk p s body ++ turns, ?_, earlier, s', ?_, ?_⟩
    · intro turn hturn
      rcases List.mem_append.1 hturn with hturn | hturn
      · simp only [oneChunk, List.mem_cons, List.not_mem_nil, or_false] at hturn
        rcases hturn with rfl | rfl | rfl | rfl
        · refine ⟨by omega, fun o ho => ?_⟩
          cases ho
          exact List.take_prefix _ _
        all_goals trivial
      · exact hclient turn hturn
    · rw [Run.run_append, hrun, hprocs]
    · simp only [List.length_append, List.length_singleton] at hearlier
      omega

/-- The step lemma: the balance is kept by every step that meets the condition. -/
theorem inv_step (p : Uploads δ) (turn : Turn UploadCall Outcome) (h : Inv sha256 file p)
    (hord : FromClient file turn ∧ Orderly p turn) : Inv sha256 file (p.step sha256 turn) := by
  rcases hord with ⟨hclient, hord⟩
  cases turn with
  | start call =>
      have hnew : Plain sha256 file (UploadTask.enter call) := by
        cases call with
        | append caller offset body => exact ⟨hclient.2, rfl, rfl⟩
        | status caller | finish caller => exact ⟨trivial, rfl, rfl⟩
        | abort caller | sweep => exact hclient.elim
      have htotal : (p.step sha256 (.start call)).total UploadTask.claimed =
          p.total UploadTask.claimed + (UploadTask.enter call).claimed :=
        Pool.total_start UploadTask.claimed p call
      refine ⟨fun t ht => ?_, h.ofFile, h.content, ?_, fun hnone => ?_, fun t ht hsucc => ?_⟩
      · rcases Pool.mem_start ht with ht | rfl
        · exact h.sound t ht
        · exact hnew.1
      · rw [htotal, hnew.2.1]
        exact h.balance
      · rcases h.taken hnone with hmade | ⟨t, ht, hcommits⟩
        · exact Or.inl hmade
        · exact Or.inr ⟨t, List.mem_append_left _ ht, hcommits⟩
      · rcases Pool.mem_start ht with ht | rfl
        · exact h.success t ht hsucc
        · rw [hnew.2.2] at hsucc
          cases hsucc
  | tick i x =>
      rcases hc : p.procs[i]? with _ | c
      · rwa [step, Pool.step_tick_none hc]
      rw [step, Pool.step_tick hc]
      have hs : Sound sha256 file c := h.sound c (Pool.mem_of_getElem? hc)
      cases c with
      | appendRead caller offset body =>
          by_cases hx : x = .ok
          · simp only [UploadTask.advance, if_pos hx]
            refine inv_plain hc h (plain_orAnswer fun s hown => ?_) rfl rfl
            refine plain_orAnswer fun _ hcheck => ?_
            rcases UploadSession.checkChunk_eq_ok hcheck with ⟨hne, hoffset, -⟩
            have hfile := h.ofFile s (UploadStore.ownedSession_eq_ok hown).1
            exact ⟨⟨hfile, hne, hs s.received hoffset⟩, rfl, rfl⟩
          · simp only [UploadTask.advance, if_neg hx]
            exact inv_plain hc h (plain_answered _) rfl rfl
      | appendAdvance caller s body => exact inv_claim x hc h
      | appendReread caller =>
          simp only [UploadTask.advance]
          split
          · exact inv_plain hc h (plain_orAnswer fun s _ => plain_answered _) rfl rfl
          · exact inv_plain hc h (plain_answered _) rfl rfl
      | appendWrite s body => exact inv_write hc h hord
      | appendRollback s body => exact inv_rollback hc h hord
      | statusRead caller =>
          simp only [UploadTask.advance]
          split
          · exact inv_plain hc h (plain_orAnswer fun s _ => ⟨trivial, rfl, rfl⟩) rfl rfl
          · exact inv_plain hc h (plain_answered _) rfl rfl
      | statusTouch s =>
          simp only [UploadTask.advance]
          split <;> exact inv_plain hc h (plain_answered _) rfl rfl
      | finishRead caller =>
          by_cases hx : x = .ok
          · simp only [UploadTask.advance, if_pos hx]
            refine inv_plain hc h (plain_orAnswer fun s hown => ?_) rfl rfl
            refine plain_orAnswer fun _ _ => ⟨?_, rfl, rfl⟩
            exact h.ofFile s (UploadStore.ownedSession_eq_ok hown).1
          · simp only [UploadTask.advance, if_neg hx]
            exact inv_plain hc h (plain_answered _) rfl rfl
      | finishHash s =>
          simp only [Orderly, hc] at hord
          simp only [UploadTask.advance]
          cases htemp : p.shared.temp with
          | none => exact inv_plain hc h (plain_answered _) rfl rfl
          | some bytes =>
              simp only
              split
              · rw [judge_of_whole hs (h.content bytes htemp) (hord bytes htemp)]
                exact inv_plain hc h ⟨trivial, rfl, rfl⟩ rfl rfl
              · exact inv_plain hc h (plain_answered _) rfl rfl
      | finalCheck s digest =>
          refine inv_plain hc h (plain_orRefusal ?_) rfl rfl
          split <;> exact ⟨trivial, rfl, rfl⟩
      | finalPlace s digest => exact inv_place x hc h
      | finalInsert s digest => exact inv_insert hc h hord
      | siteUnpack s =>
          simp only [UploadTask.advance]
          split
          · exact inv_plain hc h (plain_orRefusal ⟨trivial, rfl, rfl⟩) rfl rfl
          · exact inv_plain hc h (plain_answered _) rfl rfl
      | siteVerify s =>
          exact inv_plain hc h (plain_orRefusal ⟨trivial, rfl, rfl⟩) rfl rfl
      | siteBurn s =>
          simp only [UploadTask.advance]
          split
          · exact inv_plain hc h (plain_answered _) rfl rfl
          · split
            · exact inv_plain hc h (plain_answered _) rfl rfl
            · refine inv_move hc h trivial h.ofFile h.content ?_ id
                (fun hnone => Or.inr (Or.inr ⟨hnone, rfl⟩)) nofun
              intro total htotal
              have heq : total = p.total UploadTask.claimed := htotal
              rw [heq]
              exact h.balance
      | siteWrite s =>
          simp only [UploadTask.advance]
          split <;> exact inv_plain hc h ⟨trivial, rfl, rfl⟩ rfl rfl
      | siteInsert s =>
          simp only [UploadTask.advance]
          split
          · exact inv_created hc h rfl rfl (by simp) rfl rfl trivial
          · exact inv_plain hc h (plain_answered _) rfl rfl
      | siteIndex s =>
          have hmade := h.success _ (Pool.mem_of_getElem? hc) rfl
          simp only [UploadTask.advance]
          split
          · exact inv_created hc h rfl rfl hmade rfl rfl trivial
          · exact inv_plain hc h (plain_answered _) rfl rfl
      | discardFile answer =>
          refine inv_discard hc h (Or.inl ⟨rfl, rfl⟩) (Or.inl rfl) ?_ rfl
          simp only [UploadTask.advance]
          split
          · exact Or.inr rfl
          · exact Or.inl rfl
      | discardRow answer =>
          refine inv_discard hc h (Or.inr ⟨rfl, rfl⟩) ?_ (Or.inl rfl) rfl
          simp only [UploadTask.advance]
          split
          · exact Or.inr rfl
          · exact Or.inl rfl
      | abortRead caller => exact hs.elim
      | sweepList => exact hs.elim
      | answered answer => exact inv_plain hc h (plain_answered _) rfl rfl

theorem assembles_of_inv (hsize : file.length ≤ maxUploadBytes) (p : Uploads δ)
    (h : Inv sha256 file p) : Assembles sha256 file p := by
  have hcontent : Settled p → ∀ s, p.shared.row = some s →
      p.shared.temp = some (file.take s.received) ∧ s.received ≤ file.length := by
    intro hsettled s hrow
    -- Nobody claims anything, so the file has the length that the row counts.
    have hnone : p.total UploadTask.claimed = 0 := by
      refine (Pool.total_eq_zero UploadTask.claimed).2 fun t ht => ?_
      have happ := (hsettled.1 t ht).1
      cases t with
      | appendWrite s' body | appendRollback s' body => cases happ
      | _ => rfl
    cases htemp : p.shared.temp with
    | none =>
        rcases h.taken htemp with hmade | ⟨t, ht, hcommits⟩
        · exact absurd hsettled.2 hmade
        · rw [(hsettled.1 t ht).2] at hcommits
          cases hcommits
    | some bytes =>
        have hbal := h.balance s bytes hrow htemp
        have hlen : bytes.length = s.received := by omega
        refine ⟨?_, hbal.2⟩
        rw [← hlen, ← List.prefix_iff_eq_take.1 (h.content bytes htemp)]
  refine ⟨fun hsettled s hrow => (hcontent hsettled s hrow).1, fun t ht => ?_, ?_⟩
  · have hs := h.sound t ht
    cases t with
    | discardFile answer | discardRow answer =>
        cases answer with
        | error e => exact hs.elim
        | ok reply => rfl
    | _ => rfl
  · intro hsettled s hrow
    rcases hcontent hsettled s hrow with ⟨htemp, hle⟩
    exact completable hsize p s hrow (h.ofFile s hrow) hle htemp

end

end Uploads

namespace Sample

/-- Alice uploads two bytes in two chunks, asks where she is and finishes. -/
def twoChunks : List (Turn UploadCall Outcome) :=
  [.start (.append alice (some 0) [7]), .tick 0 .ok, .tick 0 .ok, .start (.status alice),
    .tick 0 .ok, .tick 1 .ok, .tick 1 .ok, .start (.append alice (some 1) [9]), .tick 2 .ok,
    .tick 2 .ok, .tick 2 .ok, .start (.finish alice), .tick 3 .ok, .tick 3 .ok]

/-- The disk stops after the first byte of the chunk. The offset is put back, Alice asks
    where she is and sends the chunk again, and finishes. -/
def tornWrite : List (Turn UploadCall Outcome) :=
  [.start (.append alice (some 0) [7, 9]), .tick 0 .ok, .tick 0 .ok, .tick 0 (.stops 1),
    .tick 0 .ok, .start (.status alice), .tick 1 .ok, .tick 1 .ok,
    .start (.append alice (some 0) [7, 9]), .tick 2 .ok, .tick 2 .ok, .tick 2 .ok,
    .start (.finish alice), .tick 3 .ok, .tick 3 .ok]

end Sample

end PocketSkynet
