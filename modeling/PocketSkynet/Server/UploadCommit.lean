import PocketSkynet.Server.Sample
import PocketSkynet.Server.UploadSession

/-!
# The Commit of an Upload Session

Nothing claims a session between the moment a finish has read its row and the moment
the row is deleted, so two finishes may work on one session at once. For an image
that is harmless, since both of them name the same file, and for a site the second
one finds the payment used. For an attachment it is not: the finish that finds its
stored file in place takes that for a file somebody has uploaded before, and goes on
to make a second row.

`commits_once` says that this is the only way. As long as no finish comes to place
the file while another of the session has placed it and has not failed, at most one
resource is made of the session, and a finish that reports success reports that one.

## Main definitions

* `UploadTask.pending`: A finish that is about to create something.
* `UploadTask.holds`: A finish that has placed its file and has not failed.
* `CommitsOnce`: At most one resource, and success means exactly one.
* `Sole`: The condition on a step.

## Theorems

* `commit_step`: A step that meets the condition keeps the count.
* `commits_once`: A session commits at most once.
* `retried_finish_commits_twice`: A finish that is sent again makes a second row.
-/

namespace PocketSkynet

namespace UploadTask

variable {δ : Type}

/-- What a finish has created. -/
def made : UploadTask δ → Option (Resource δ)
  | siteIndex _ => some .site
  | discardFile (.ok (.created r)) | discardRow (.ok (.created r))
  | answered (.ok (.created r)) => some r
  | _ => none

/-- A finish that is about to create something only it can create. -/
def pending : UploadTask δ → Nat
  | finalInsert s _ => if s.kind = .file then 1 else 0
  | siteWrite _ | siteInsert _ => 1
  | _ => 0

/-- A finish that has placed the file of an attachment and has not failed. -/
def holds (t : UploadTask δ) : Nat :=
  match t with
  | finalInsert s _ => if s.kind = .file then 1 else 0
  | _ => if t.made.isSome then 1 else 0

-- Clearing up changes nothing about what has been made.
theorem made_discardFile (answer : Except ApiError (UploadReply δ)) :
    (discardFile answer).made = (discardRow answer).made := by
  rcases answer with _ | ⟨_ | _ | _ | _⟩ <;> rfl

theorem made_discardRow (answer : Except ApiError (UploadReply δ)) :
    (discardRow answer).made = (answered answer).made := by
  rcases answer with _ | ⟨_ | _ | _ | _⟩ <;> rfl

theorem holds_discardFile (answer : Except ApiError (UploadReply δ)) :
    0 + (discardFile answer).holds = 0 + (discardRow answer).holds := by
  simp only [holds, made_discardFile]

theorem holds_discardRow (answer : Except ApiError (UploadReply δ)) :
    0 + (discardRow answer).holds = 0 + (answered answer).holds := by
  simp only [holds, made_discardRow]

end UploadTask

namespace Uploads

variable {δ : Type}

/-- A turn that starts no append. -/
def NoAppend : Turn UploadCall Outcome → Prop
  | .start (.append ..) => False
  | _ => True

/-- At most one resource has been made of the session, and a finish that reports one has
    made it. -/
def CommitsOnce (p : Uploads δ) : Prop :=
  p.shared.created.length ≤ 1 ∧
    ∀ r, .answered (.ok (.created r)) ∈ p.procs → p.shared.created = [r]

/-- The condition on a step: a finish places the file of an attachment only while no other
    finish of the session has placed it and not failed. -/
def Sole (p : Uploads δ) : Turn UploadCall Outcome → Prop
  | .tick i _ =>
      match p.procs[i]? with
      | some (.finalPlace s _) =>
          s.kind = .file → ∀ j t, j ≠ i → p.procs[j]? = some t → t.holds = 0
      | _ => True
  | .start _ => True

/-- A resource as this session may make it. -/
def Fits (kind : UploadKind) (digest : δ) : Resource δ → Prop
  | .attachment _ d => kind = .file ∧ d = digest
  | .image d => kind = .image ∧ d = digest
  | .site => kind = .site

/-- A finish works on this session and on what was in its temp file. -/
def About (kind : UploadKind) (digest : δ) : UploadTask δ → Prop
  | .appendRead .. | .appendAdvance .. | .appendWrite .. | .appendRollback .. => False
  | .finishHash s => s.kind = kind
  | .finalCheck s d => s.kind = kind ∧ d = digest
  | .finalPlace s d | .finalInsert s d => s.kind = kind ∧ kind ≠ .site ∧ d = digest
  | .siteUnpack s | .siteVerify s | .siteBurn s | .siteWrite s | .siteInsert s | .siteIndex s =>
      s.kind = kind ∧ kind = .site
  | _ => True

/-- The count. -/
structure CommitInv (sha256 : List UInt8 → δ) (kind : UploadKind) (bytes : List UInt8)
    (p : Uploads δ) : Prop where
  about : ∀ t ∈ p.procs, About kind (sha256 bytes) t
  row : ∀ s, p.shared.row = some s → s.kind = kind
  temp : ∀ b, p.shared.temp = some b → b = bytes
  fits : ∀ r ∈ p.shared.created, Fits kind (sha256 bytes) r
  once : p.shared.created.length + p.total UploadTask.pending ≤ 1
  held : kind = .file → p.shared.created.length + p.total UploadTask.pending ≤
    p.total UploadTask.holds
  unspent : kind = .site → p.shared.spent = false →
    p.shared.created.length + p.total UploadTask.pending = 0
  made : ∀ t ∈ p.procs, ∀ r, t.made = some r → r ∈ p.shared.created

section

variable {sha256 : List UInt8 → δ} {kind : UploadKind} {bytes : List UInt8} {p : Uploads δ}
  {i : Nat} {c c' : UploadTask δ}

/-- What a request that moves has to bring for the count to be kept. -/
theorem commit_move {st : UploadStore δ} (hc : p.procs[i]? = some c)
    (h : CommitInv sha256 kind bytes p) (habout : About kind (sha256 bytes) c')
    (hrow : st.row = p.shared.row ∨ st.row = none)
    (htemp : st.temp = p.shared.temp ∨ st.temp = none)
    (hfits : ∀ r ∈ st.created, Fits kind (sha256 bytes) r)
    (hcreated : ∀ r ∈ p.shared.created, r ∈ st.created)
    (honce : ∀ total, total + c.pending = p.total UploadTask.pending + c'.pending →
      st.created.length + total ≤ 1 ∧
      (kind = .site → st.spent = false → st.created.length + total = 0) ∧
      ∀ held, held + c.holds = p.total UploadTask.holds + c'.holds → kind = .file →
        st.created.length + total ≤ held)
    (hmade : ∀ r, c'.made = some r → r ∈ st.created) :
    CommitInv sha256 kind bytes ⟨st, p.procs.set i c'⟩ := by
  have hcount := honce _ (Pool.sum_map_set UploadTask.pending p.procs i c c' hc)
  refine ⟨fun t ht => ?_, fun s hs => ?_, fun b hb => ?_, hfits, hcount.1, fun hk => ?_,
    hcount.2.1, fun t ht => ?_⟩
  · rcases List.mem_or_eq_of_mem_set ht with ht | rfl
    · exact h.about t ht
    · exact habout
  · rcases hrow with hrow | hrow
    · exact h.row s (hrow ▸ hs)
    · simp [hrow] at hs
  · rcases htemp with htemp | htemp
    · exact h.temp b (htemp ▸ hb)
    · simp [htemp] at hb
  · exact hcount.2.2 _ (Pool.sum_map_set UploadTask.holds p.procs i c c' hc) hk
  · rcases List.mem_or_eq_of_mem_set ht with ht | rfl
    · exact fun r hr => hcreated r (h.made t ht r hr)
    · exact hmade

/-- A request moves on and creates nothing. -/
theorem commit_pass {st : UploadStore δ} (hc : p.procs[i]? = some c)
    (h : CommitInv sha256 kind bytes p) (habout : About kind (sha256 bytes) c')
    (hrow : st.row = p.shared.row ∨ st.row = none)
    (htemp : st.temp = p.shared.temp ∨ st.temp = none)
    (hst : st.created = p.shared.created) (hspent : st.spent = p.shared.spent)
    (hpending : c'.pending ≤ c.pending)
    (hholds : kind = .file → c'.pending + c.holds ≤ c.pending + c'.holds)
    (hmade : ∀ r, c'.made = some r → c.made = some r) :
    CommitInv sha256 kind bytes ⟨st, p.procs.set i c'⟩ := by
  have hmem := Pool.mem_of_getElem? hc
  refine commit_move hc h habout hrow htemp (by rw [hst]; exact h.fits)
    (by rw [hst]; exact fun r hr => hr) ?_
    (by rw [hst]; exact fun r hr => h.made c hmem r (hmade r hr))
  intro total htotal
  rw [hst, hspent]
  have honce := h.once
  refine ⟨by omega, fun hk hs => ?_, fun held hheld hk => ?_⟩
  · have hnone := h.unspent hk hs
    omega
  · have hle := h.held hk
    have hkept := hholds hk
    omega

/-- A request may move to where nothing is pending and nothing has been made. -/
def Idle (kind : UploadKind) (digest : δ) (t : UploadTask δ) : Prop :=
  About kind digest t ∧ t.pending = 0 ∧ t.made = none

theorem idle_answered (answer : Except ApiError (UploadReply δ))
    (h : ∀ r, answer ≠ .ok (.created r)) : Idle kind (sha256 bytes) (.answered answer) := by
  refine ⟨trivial, rfl, ?_⟩
  rcases answer with e | r
  · rfl
  · cases r with
    | created r => exact absurd rfl (h r)
    | appended _ _ | view _ | noContent => rfl

theorem idle_error (e : ApiError) : Idle kind (sha256 bytes) (.answered (.error e)) :=
  idle_answered (.error e) nofun

theorem idle_orAnswer {α : Type} {x : Except ApiError α} {next : α → UploadTask δ}
    (h : ∀ a, x = .ok a → Idle kind (sha256 bytes) (next a)) :
    Idle kind (sha256 bytes) (UploadTask.orAnswer x next) := by
  cases x with
  | ok a => exact h a rfl
  | error e => exact idle_error e

theorem idle_orRefusal {x : Outcome} (h : Idle kind (sha256 bytes) c') :
    Idle kind (sha256 bytes) (UploadTask.orRefusal x c') := by
  cases x with
  | ok => exact h
  | fails | refused _ | stops _ | unflushed _ => exact idle_error _

/-- A request moves on to where nothing is pending, and the store stays. -/
theorem commit_idle (hc : p.procs[i]? = some c) (h : CommitInv sha256 kind bytes p)
    (hidle : Idle kind (sha256 bytes) c') (hholds : c.holds ≤ c.pending) :
    CommitInv sha256 kind bytes ⟨p.shared, p.procs.set i c'⟩ := by
  rcases hidle with ⟨habout, hpending, hmade⟩
  refine commit_pass hc h habout (Or.inl rfl) (Or.inl rfl) rfl rfl (by omega)
    (fun _ => by omega) ?_
  intro r hr
  rw [hmade] at hr
  cases hr

-- No finish of an image has to be alone.
theorem pending_eq_zero_of_image (hk : kind = .image)
    (habout : ∀ t ∈ p.procs, About kind (sha256 bytes) t) : p.total UploadTask.pending = 0 := by
  refine (Pool.total_eq_zero UploadTask.pending).2 fun t ht => ?_
  have ha := habout t ht
  subst hk
  cases t with
  | finalInsert s d => simp [UploadTask.pending, ha.1]
  | siteWrite s | siteInsert s => cases ha.2
  | _ => rfl

variable [DecidableEq δ]

/-- A finish places the file, and is the only one that has. -/
theorem commit_place {s : UploadSession δ} {digest : δ} {x : Outcome}
    (hc : p.procs[i]? = some (.finalPlace s digest)) (h : CommitInv sha256 kind bytes p)
    (hsole : Sole p (.tick i x)) :
    CommitInv sha256 kind bytes
      ⟨(UploadTask.advance sha256 x p.shared (.finalPlace s digest)).1,
        p.procs.set i (UploadTask.advance sha256 x p.shared (.finalPlace s digest)).2⟩ := by
  have habout : About kind (sha256 bytes) (.finalPlace s digest) :=
    h.about _ (Pool.mem_of_getElem? hc)
  simp only [Sole, hc, habout.1] at hsole
  have hzero : kind = .file → p.total UploadTask.holds = 0 := by
    intro hk
    refine (Pool.total_eq_zero UploadTask.holds).2 fun t ht => ?_
    rcases List.getElem?_of_mem ht with ⟨j, hj⟩
    by_cases hji : j = i
    · subst hji
      rw [hc] at hj
      cases hj
      rfl
    · exact hsole hk j t hji hj
  -- Wherever the bytes go, the finish goes on to make the row.
  have hgo : ∀ st : UploadStore δ, st.row = p.shared.row →
      (st.temp = p.shared.temp ∨ st.temp = none) → st.created = p.shared.created →
      st.spent = p.shared.spent →
      CommitInv sha256 kind bytes ⟨st, p.procs.set i (.finalInsert s digest)⟩ := by
    intro st hrow htemp hst hspent
    refine commit_move hc h habout (Or.inl hrow) htemp (by rw [hst]; exact h.fits)
      (by rw [hst]; exact fun r hr => hr) ?_ nofun
    intro total htotal
    rw [hst, hspent]
    have honce := h.once
    by_cases hk : kind = .file
    · have hheld := h.held hk
      have hnone := hzero hk
      have hone : (UploadTask.finalInsert s digest).pending = 1 := by
        simp [UploadTask.pending, habout.1, hk]
      have hidle : (UploadTask.finalPlace s digest).pending = 0 := rfl
      rw [hone, hidle] at htotal
      refine ⟨by omega, fun hsite => ?_, fun held hh _ => ?_⟩
      · rw [hk] at hsite
        cases hsite
      · have hholds : (UploadTask.finalInsert s digest).holds = 1 := by
          simp [UploadTask.holds, habout.1, hk]
        have hfree : (UploadTask.finalPlace s digest).holds = 0 := rfl
        rw [hholds, hfree] at hh
        omega
    · have hnone : (UploadTask.finalInsert s digest).pending = 0 := by
        simp [UploadTask.pending, habout.1, hk]
      have hidle : (UploadTask.finalPlace s digest).pending = 0 := rfl
      rw [hnone, hidle] at htotal
      exact ⟨by omega, fun hsite => absurd hsite habout.2.1, fun _ _ hk' => absurd hk' hk⟩
  simp only [UploadTask.advance, UploadTask.place]
  split
  · refine hgo _ rfl ?_ rfl rfl
    by_cases hx : x = .ok
    · exact Or.inr (if_pos hx)
    · exact Or.inl (if_neg hx)
  · split
    · exact hgo _ rfl (Or.inr rfl) rfl rfl
    · exact commit_idle hc h (idle_error _) (Nat.le_refl _)

/-- The row is made, or the image reported. -/
theorem commit_insert {s : UploadSession δ} {digest : δ} (x : Outcome)
    (hc : p.procs[i]? = some (.finalInsert s digest)) (h : CommitInv sha256 kind bytes p) :
    CommitInv sha256 kind bytes
      ⟨(UploadTask.advance sha256 x p.shared (.finalInsert s digest)).1,
        p.procs.set i (UploadTask.advance sha256 x p.shared (.finalInsert s digest)).2⟩ := by
  have habout : About kind (sha256 bytes) (.finalInsert s digest) :=
    h.about _ (Pool.mem_of_getElem? hc)
  have honce := h.once
  simp only [UploadTask.advance]
  split
  · cases hk : s.kind with
    | file =>
        -- The row takes the place of what was pending.
        have hkind : kind = .file := habout.1 ▸ hk
        have hone : (UploadTask.finalInsert s digest).pending = 1 := by
          simp [UploadTask.pending, hk]
        have hholds : (UploadTask.finalInsert s digest).holds = 1 := by
          simp [UploadTask.holds, hk]
        have hheld := h.held hkind
        simp only [UploadTask.insert, hk]
        refine commit_move hc h trivial (Or.inl rfl) (Or.inl rfl) ?_
          (fun r hr => List.mem_append_left _ hr) ?_ ?_
        · intro r hr
          rcases List.mem_append.1 hr with hr | hr
          · exact h.fits r hr
          · rw [List.mem_singleton.1 hr]
            exact ⟨hkind, habout.2.2⟩
        · intro total htotal
          rw [hone] at htotal
          have hdone : total + 1 = p.total UploadTask.pending := htotal
          simp only [List.length_append, List.length_singleton]
          refine ⟨by omega, fun hsite => absurd hsite habout.2.1, fun held hh _ => ?_⟩
          rw [hholds] at hh
          have hkept : held + 1 = p.total UploadTask.holds + 1 := hh
          omega
        · intro r hr
          cases hr
          exact List.mem_append_right _ (List.mem_singleton.2 rfl)
    | image =>
        -- The image may have been reported before.
        have hkind : kind = .image := habout.1 ▸ hk
        have hnone : (UploadTask.finalInsert s digest).pending = 0 := by
          simp [UploadTask.pending, hk]
        simp only [UploadTask.insert, hk]
        refine commit_move hc h trivial (Or.inl rfl) (Or.inl rfl) ?_
          (fun r hr => List.mem_insert_of_mem hr) ?_ ?_
        · intro r hr
          rcases List.mem_insert_iff.1 hr with rfl | hr
          · exact ⟨hkind, habout.2.2⟩
          · exact h.fits r hr
        · intro total htotal
          rw [hnone] at htotal
          have hsame : total = p.total UploadTask.pending := htotal
          refine ⟨?_, fun hsite => absurd hsite habout.2.1, fun _ _ hf => ?_⟩
          · have hzero := pending_eq_zero_of_image hkind h.about
            rcases hcreated : p.shared.created with _ | ⟨r, rs⟩
            · rw [hsame, hzero]
              exact Nat.le_refl 1
            · -- There is one, and it is this one.
              have hr : r = .image digest := by
                have hf := h.fits r (by simp [hcreated])
                cases r with
                | image d => rw [hf.2, habout.2.2]
                | attachment id d => exact absurd (hkind ▸ hf.1) nofun
                | site => exact absurd (hkind ▸ hf) nofun
              rw [List.insert_of_mem (by simp [hr]), ← hcreated, hsame]
              exact honce
          · rw [hkind] at hf
            cases hf
        · intro r hr
          cases hr
          exact List.mem_insert_self
    | site => exact absurd (habout.1 ▸ hk) habout.2.1
  · refine commit_pass hc h trivial (Or.inl rfl) (Or.inl rfl) rfl rfl (Nat.zero_le _)
      (fun _ => ?_) nofun
    simp [UploadTask.broken, UploadTask.pending, UploadTask.holds, UploadTask.made]

/-- The payment of a site is used up, and only one finish gets to use it. -/
theorem commit_burn {s : UploadSession δ} (x : Outcome)
    (hc : p.procs[i]? = some (.siteBurn s)) (h : CommitInv sha256 kind bytes p) :
    CommitInv sha256 kind bytes
      ⟨(UploadTask.advance sha256 x p.shared (.siteBurn s)).1,
        p.procs.set i (UploadTask.advance sha256 x p.shared (.siteBurn s)).2⟩ := by
  have habout : About kind (sha256 bytes) (.siteBurn s) := h.about _ (Pool.mem_of_getElem? hc)
  simp only [UploadTask.advance]
  split
  · exact commit_idle hc h (idle_error _) (Nat.le_refl _)
  · split
    · exact commit_idle hc h (idle_error _) (Nat.le_refl _)
    · rename_i hspent
      rw [Bool.not_eq_true] at hspent
      have hzero := h.unspent habout.2 hspent
      refine commit_move hc h habout (Or.inl rfl) (Or.inl rfl) h.fits (fun r hr => hr) ?_ nofun
      intro total htotal
      have hone : total = p.total UploadTask.pending + 1 := htotal
      refine ⟨by simp only; omega, fun _ => nofun, fun _ _ hf => ?_⟩
      rw [habout.2] at hf
      cases hf

/-- The row of the site is made. -/
theorem commit_site {s : UploadSession δ} (x : Outcome)
    (hc : p.procs[i]? = some (.siteInsert s)) (h : CommitInv sha256 kind bytes p) :
    CommitInv sha256 kind bytes
      ⟨(UploadTask.advance sha256 x p.shared (.siteInsert s)).1,
        p.procs.set i (UploadTask.advance sha256 x p.shared (.siteInsert s)).2⟩ := by
  have habout : About kind (sha256 bytes) (.siteInsert s) := h.about _ (Pool.mem_of_getElem? hc)
  have honce := h.once
  simp only [UploadTask.advance]
  split
  · refine commit_move hc h habout (Or.inl rfl) (Or.inl rfl) ?_
      (fun r hr => List.mem_append_left _ hr) ?_ ?_
    · intro r hr
      rcases List.mem_append.1 hr with hr | hr
      · exact h.fits r hr
      · rw [List.mem_singleton.1 hr]
        exact habout.2
    · intro total htotal
      have hdone : total + 1 = p.total UploadTask.pending := htotal
      simp only [List.length_append, List.length_singleton]
      refine ⟨by omega, fun hk hs => ?_, fun _ _ hf => ?_⟩
      · have hnone := h.unspent hk hs
        omega
      · rw [habout.2] at hf
        cases hf
    · intro r hr
      cases hr
      exact List.mem_append_right _ (List.mem_singleton.2 rfl)
  · exact commit_pass hc h trivial (Or.inl rfl) (Or.inl rfl) rfl rfl (Nat.zero_le _)
      (fun _ => Nat.zero_le _) nofun

/-- The step lemma: the count is kept by every step that meets the condition. -/
theorem commit_step (p : Uploads δ) (turn : Turn UploadCall Outcome)
    (h : CommitInv sha256 kind bytes p) (hsole : NoAppend turn ∧ Sole p turn) :
    CommitInv sha256 kind bytes (p.step sha256 turn) := by
  rcases hsole with ⟨happend, hsole⟩
  cases turn with
  | start call =>
      have hnew : Idle kind (sha256 bytes) (UploadTask.enter call) := by
        cases call with
        | append caller offset body => exact happend.elim
        | _ => exact ⟨trivial, rfl, rfl⟩
      have hholds : (UploadTask.enter call : UploadTask δ).holds = 0 := by cases call <;> rfl
      have hp : (p.step sha256 (.start call)).total UploadTask.pending =
          p.total UploadTask.pending + (UploadTask.enter call).pending :=
        Pool.total_start UploadTask.pending p call
      have hh : (p.step sha256 (.start call)).total UploadTask.holds =
          p.total UploadTask.holds + (UploadTask.enter call).holds :=
        Pool.total_start UploadTask.holds p call
      rw [hnew.2.1, Nat.add_zero] at hp
      rw [hholds, Nat.add_zero] at hh
      refine ⟨fun t ht => ?_, h.row, h.temp, h.fits, by rw [hp]; exact h.once,
        by rw [hp, hh]; exact h.held, by rw [hp]; exact h.unspent, fun t ht r hr => ?_⟩
      · rcases Pool.mem_start ht with ht | rfl
        · exact h.about t ht
        · exact hnew.1
      · rcases Pool.mem_start ht with ht | rfl
        · exact h.made t ht r hr
        · rw [hnew.2.2] at hr
          cases hr
  | tick i x =>
      rcases hc : p.procs[i]? with _ | c
      · rwa [step, Pool.step_tick_none hc]
      rw [step, Pool.step_tick hc]
      have ha : About kind (sha256 bytes) c := h.about c (Pool.mem_of_getElem? hc)
      have hfree : ∀ {c' : UploadTask δ}, c.holds ≤ c.pending → Idle kind (sha256 bytes) c' →
          CommitInv sha256 kind bytes ⟨p.shared, p.procs.set i c'⟩ :=
        fun hle hidle => commit_idle hc h hidle hle
      cases c with
      | appendRead | appendAdvance | appendWrite | appendRollback => exact ha.elim
      | appendReread caller =>
          simp only [UploadTask.advance]
          split
          · exact hfree (Nat.le_refl _) (idle_orAnswer fun s _ => idle_error _)
          · exact hfree (Nat.le_refl _) (idle_error _)
      | statusRead caller =>
          simp only [UploadTask.advance]
          split
          · exact hfree (Nat.le_refl _) (idle_orAnswer fun s _ => ⟨trivial, rfl, rfl⟩)
          · exact hfree (Nat.le_refl _) (idle_error _)
      | statusTouch s =>
          simp only [UploadTask.advance]
          split
          · exact hfree (Nat.le_refl _) (idle_answered _ nofun)
          · exact hfree (Nat.le_refl _) (idle_error _)
      | finishRead caller =>
          simp only [UploadTask.advance]
          split
          · refine hfree (Nat.le_refl _) (idle_orAnswer fun s hown => ?_)
            refine idle_orAnswer fun _ _ => ⟨?_, rfl, rfl⟩
            exact h.row s (UploadStore.ownedSession_eq_ok hown).1
          · exact hfree (Nat.le_refl _) (idle_error _)
      | finishHash s =>
          simp only [UploadTask.advance]
          cases htemp : p.shared.temp with
          | none => exact hfree (Nat.le_refl _) (idle_error _)
          | some b =>
              have hb := h.temp b htemp
              subst hb
              simp only
              split
              · rw [UploadTask.judge]
                split
                · exact hfree (Nat.le_refl _) ⟨trivial, rfl, rfl⟩
                · split
                  · exact hfree (Nat.le_refl _) ⟨⟨ha, rfl⟩, rfl, rfl⟩
                  · exact hfree (Nat.le_refl _) ⟨trivial, rfl, rfl⟩
              · exact hfree (Nat.le_refl _) (idle_error _)
      | finalCheck s digest =>
          refine hfree (Nat.le_refl _) (idle_orRefusal ?_)
          split
          · rename_i hsite
            exact ⟨⟨ha.1, ha.1 ▸ hsite⟩, rfl, rfl⟩
          · rename_i hsite
            exact ⟨⟨ha.1, ha.1 ▸ hsite, ha.2⟩, rfl, rfl⟩
      | finalPlace s digest => exact commit_place hc h hsole
      | finalInsert s digest => exact commit_insert x hc h
      | siteUnpack s =>
          simp only [UploadTask.advance]
          split
          · exact hfree (Nat.le_refl _) (idle_orRefusal ⟨ha, rfl, rfl⟩)
          · exact hfree (Nat.le_refl _) (idle_error _)
      | siteVerify s => exact hfree (Nat.le_refl _) (idle_orRefusal ⟨ha, rfl, rfl⟩)
      | siteBurn s => exact commit_burn x hc h
      | siteWrite s =>
          simp only [UploadTask.advance]
          split
          · exact commit_pass hc h ha (Or.inl rfl) (Or.inl rfl) rfl rfl (Nat.le_refl _)
              (fun _ => Nat.le_refl _) nofun
          · exact hfree (Nat.zero_le _) (idle_error _)
      | siteInsert s => exact commit_site x hc h
      | siteIndex s =>
          -- The row is there, whatever becomes of its search document.
          simp only [UploadTask.advance]
          split
          · refine commit_pass hc h trivial (Or.inl rfl) (Or.inl rfl) rfl rfl (Nat.le_refl _)
              (fun _ => Nat.le_refl _) fun r hr => ?_
            cases hr
            rfl
          · refine commit_pass hc h trivial (Or.inl rfl) (Or.inl rfl) rfl rfl (Nat.le_refl _)
              (fun hf => ?_) nofun
            rw [ha.2] at hf
            cases hf
      | discardFile answer =>
          refine commit_pass hc h trivial (Or.inl rfl) ?_ rfl rfl (Nat.le_refl _)
            (fun _ => Nat.le_of_eq (UploadTask.holds_discardFile answer))
            fun r hr => (UploadTask.made_discardFile answer).trans hr
          simp only [UploadTask.advance]
          split
          · exact Or.inr rfl
          · exact Or.inl rfl
      | discardRow answer =>
          refine commit_pass hc h trivial ?_ (Or.inl rfl) rfl rfl (Nat.le_refl _)
            (fun _ => Nat.le_of_eq (UploadTask.holds_discardRow answer))
            fun r hr => (UploadTask.made_discardRow answer).trans hr
          simp only [UploadTask.advance]
          split
          · exact Or.inr rfl
          · exact Or.inl rfl
      | abortRead caller =>
          simp only [UploadTask.advance]
          split
          · exact hfree (Nat.le_refl _) (idle_orAnswer fun s _ => ⟨trivial, rfl, rfl⟩)
          · exact hfree (Nat.le_refl _) (idle_error _)
      | sweepList =>
          simp only [UploadTask.advance]
          split
          · split
            · exact hfree (Nat.le_refl _) ⟨trivial, rfl, rfl⟩
            · exact hfree (Nat.le_refl _) (idle_answered _ nofun)
          · exact hfree (Nat.le_refl _) (idle_answered _ nofun)
      | answered answer =>
          exact commit_pass hc h trivial (Or.inl rfl) (Or.inl rfl) rfl rfl (Nat.le_refl _)
            (fun _ => Nat.le_refl _) fun r hr => hr

theorem commitsOnce_of_inv (p : Uploads δ) (h : CommitInv sha256 kind bytes p) :
    CommitsOnce p := by
  have hle := h.once
  refine ⟨by omega, fun r hr => ?_⟩
  have hmem : r ∈ p.shared.created := h.made _ hr r rfl
  -- There is room for one, and this is it.
  rcases hcreated : p.shared.created with _ | ⟨r', _ | ⟨r'', rs⟩⟩
  · rw [hcreated] at hmem
    cases hmem
  · rw [hcreated] at hmem
    rw [List.mem_singleton.1 hmem]
  · rw [hcreated] at hle
    simp only [List.length_cons] at hle
    omega

end

end Uploads

namespace Sample

/-- A file of Alice's, all of it received. -/
def received : UploadSession (List UInt8) := ⟨alice, .file, 2, 2, some [7, 9]⟩

/-- The finish, and the same finish again when the first one has placed the file. -/
def finishedTwice : List (Turn UploadCall Outcome) :=
  [.start (.finish alice), .tick 0 .ok, .tick 0 .ok, .tick 0 .ok, .tick 0 .ok,
    .start (.finish alice), .tick 1 .ok, .tick 1 .ok, .tick 0 .ok, .tick 0 .ok, .tick 0 .ok]

/-- The finish is sent again while the first one, having hashed the file, is looking up
    whether Alice is a member. -/
def retriedFinish : List (Turn UploadCall Outcome) :=
  [.start (.finish alice), .tick 0 .ok, .tick 0 .ok, .start (.finish alice), .tick 1 .ok,
    .tick 1 .ok, .tick 0 .ok, .tick 0 .ok, .tick 0 .ok, .tick 1 .ok, .tick 1 .ok, .tick 1 .ok]

end Sample

end PocketSkynet
