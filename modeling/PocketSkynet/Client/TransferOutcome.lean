import PocketSkynet.Client.Transfer

/-!
# The Outcome of a Chunked Upload

Three things are asked of an upload: that every chunk is of a reasonable size and
inside the file, that the requests are bounded by the progress made, and that what is
reported as uploaded is what the server has made of this session.

The chunks are right in every run. The other two are not. The loop goes round for as
long as status requests are answered, whatever has become of the chunk, and a session
that has vanished is taken for one that was committed. `outcome` says what is missing:
a chunk gets no more rounds without progress than `chunkAttempts`, no answer hangs
after its head, and when the room's list is searched the newest attachment that looks
like the upload is the upload.

The bound counts rounds. A round costs an append, the status requests its clock leaves
room for and the tries of a recovery, and between two bytes of progress there are at
most `chunkAttempts` rounds.

## Main definitions

* `Transfer.Proper`: What is asked of an upload in one state.
* `Transfer.Tame`: The condition on an event.
* `Transfer.Inv`: What holds while the client waits for each kind of answer.

## Theorems

* `inv_step`: The step lemma.
* `outcome`: A run of such events is proper at every point.
* `refused_chunk_repeats`: A refused chunk is sent again for as long as one likes.
* `vanished_session_adopts`: A rejected upload that is reported as an older file.
-/

namespace PocketSkynet

-- Rounding to a nearest whole number does not pass a whole number.
theorem le_clampLongLong {x : ℚ} {n : ℤ} (h : (n : ℚ) ≤ x) : n ≤ clampLongLong x := by
  have hfloor : n ≤ ⌊x⌋ := Int.le_floor.2 h
  unfold clampLongLong
  split_ifs <;> omega

theorem clampLongLong_le {x : ℚ} {n : ℤ} (h : x ≤ (n : ℚ)) : clampLongLong x ≤ n := by
  have hfloor : ⌊x⌋ ≤ n := by exact_mod_cast (Int.floor_le x).trans h
  by_cases heq : ⌊x⌋ = n
  · -- Nothing is left over.
    have hx : x = n := le_antisymm h (by rw [← heq]; exact Int.floor_le x)
    have hleft : x - ⌊x⌋ < 1 / 2 := by
      rw [heq, hx, sub_self]
      norm_num
    rw [clampLongLong, if_pos hleft]
    exact hfloor
  · unfold clampLongLong
    split_ifs <;> omega

/-- A chunk has at least a byte, no more than the ceiling, and lies inside the file. -/
theorem Attempt.part_bounds {a : Attempt} {size ceiling : Nat} {chunk : ℚ}
    (hstop : a.stop = min (a.offset + chunk) size) (hoffset : a.offset < size)
    (hone : 1 ≤ chunk) (hceiling : chunk ≤ ceiling) :
    1 ≤ a.part ∧ a.part ≤ ceiling ∧ a.offset + a.part ≤ size := by
  have hlow : ((a.offset + 1 : Nat) : ℤ) ≤ clampLongLong a.stop := by
    refine le_clampLongLong ?_
    rw [hstop]
    refine le_min ?_ ?_
    · push_cast
      linarith
    · exact_mod_cast hoffset
  have hsize : clampLongLong a.stop ≤ (size : ℤ) := by
    refine clampLongLong_le ?_
    rw [hstop]
    exact_mod_cast min_le_right _ _
  have hchunk : clampLongLong a.stop ≤ ((a.offset + ceiling : Nat) : ℤ) := by
    refine clampLongLong_le ?_
    rw [hstop]
    refine (min_le_left _ _).trans ?_
    push_cast
    linarith
  unfold Attempt.part
  omega

theorem lastNewest_eq_none {δ : Type} {rows : List (UploadedRow δ)} (h : lastNewest rows = none) :
    rows = [] := by
  cases rows with
  | nil => rfl
  | cons row rows =>
      unfold lastNewest at h
      split at h
      · split at h <;> cases h
      · cases h

/-- No row before the last newest one is newer, and every row after it is older. -/
theorem lastNewest_split {δ : Type} {rows : List (UploadedRow δ)} {best : UploadedRow δ}
    (h : lastNewest rows = some best) :
    ∃ xs ys, rows = xs ++ best :: ys ∧ (∀ r ∈ xs, r.createdAt ≤ best.createdAt) ∧
      ∀ r ∈ ys, r.createdAt < best.createdAt := by
  induction rows generalizing best with
  | nil => cases h
  | cons row rows ih =>
      unfold lastNewest at h
      split at h
      · rename_i later hlater
        rcases ih hlater with ⟨xs, ys, hsplit, hbefore, hafter⟩
        split at h
        · -- The first row is newer than all that follow.
          rename_i hlt
          cases h
          refine ⟨[], rows, rfl, nofun, fun r hr => ?_⟩
          rw [hsplit] at hr
          rcases List.mem_append.1 hr with hr | hr
          · exact Nat.lt_of_le_of_lt (hbefore r hr) hlt
          · rcases List.mem_cons.1 hr with rfl | hr
            · exact hlt
            · exact Nat.lt_trans (hafter r hr) hlt
        · rename_i hle
          cases h
          refine ⟨row :: xs, ys, by rw [hsplit, List.cons_append], fun r hr => ?_, hafter⟩
          rcases List.mem_cons.1 hr with rfl | hr
          · exact Nat.le_of_not_lt hle
          · exact hbefore r hr
      · rename_i hnone
        cases h
        rw [lastNewest_eq_none hnone]
        exact ⟨[], [], rfl, nofun, nofun⟩

/-- What no row before is newer than, and what every row after is older than, is the last
    newest one. -/
theorem lastNewest_of_split {δ : Type} {xs ys : List (UploadedRow δ)} {row : UploadedRow δ}
    (hbefore : ∀ r ∈ xs, r.createdAt ≤ row.createdAt)
    (hafter : ∀ r ∈ ys, r.createdAt < row.createdAt) :
    lastNewest (xs ++ row :: ys) = some row := by
  induction xs with
  | nil =>
      rw [List.nil_append, lastNewest]
      cases hlast : lastNewest ys with
      | none => rfl
      | some best =>
          rcases lastNewest_split hlast with ⟨xs, zs, rfl, -, -⟩
          have hlt := hafter best (List.mem_append_right _ List.mem_cons_self)
          simp [hlt]
  | cons x xs ih =>
      have hle := hbefore x List.mem_cons_self
      rw [List.cons_append, lastNewest, ih fun r hr => hbefore r (List.mem_cons_of_mem x hr)]
      exact if_neg (Nat.not_lt.2 hle)

/-- The requests of one round of the loop. -/
def roundCost (ceiling : Nat) : Nat :=
  1 + appendTimeoutMs ceiling / probeIntervalMs + chunkAttempts

/-- The requests of one attempt to finish. -/
def finishCost (size : Nat) : Nat := 1 + finishTimeoutMs size / probeIntervalMs

namespace Transfer

variable {δ : Type} (up : Upload δ)

/-- How far the transfer has come since it began. -/
def progress (t : Transfer δ) : Nat := min t.mark up.size - t.base

/-- What is asked of an upload in one state. -/
structure Proper (t : Transfer δ) : Prop where
  chunks : ∀ a, t.phase = .appending a →
    1 ≤ a.part ∧ a.part ≤ t.ceiling ∧ a.offset + a.part ≤ up.size
  bounded : t.requests ≤ roundCost t.ceiling * (chunkAttempts * (t.progress up + 1)) +
    (finishAttempts * finishCost up.size + 3)
  finite : t.progress up ≤ up.size
  settles : t.phase ≠ .stuck
  genuine : ∀ row, t.phase = .ended (.ok row) → row ∈ t.own ∧ row.digest = up.digest

/-- A round that ends here has made progress, or is one of the few that may fail. -/
def Advances (t : Transfer δ) (offset : Nat) : Prop :=
  t.mark < offset ∨ t.stale + 1 < chunkAttempts

/-- The newest attachment in the list that looks like the upload, the last one of the same
    time, is one that the server has made of the session. -/
def FindsOwn (t : Transfer δ) : Prop :=
  ∀ xs row ys, t.page.filter up.looksLike = xs ++ row :: ys →
    (∀ r ∈ xs, r.createdAt ≤ row.createdAt) → (∀ r ∈ ys, r.createdAt < row.createdAt) →
    row ∈ t.own

/-- The condition on an event. -/
def Tame (t : Transfer δ) : TransferEvent δ → Prop
  | .answer reply =>
      match t.phase with
      | .resuming | .beginning => reply ≠ .hangs
      | .appending _ => ∀ next, reply = .ack next → t.Advances next
      | .recovering _ _ => reply ≠ .hangs ∧ ∀ v, reply = .view v → t.Advances v.offset
      | .adopting => reply ≠ .hangs ∧ (reply = .listed → t.FindsOwn up)
      | _ => True
  | .probe reply =>
      match t.phase with
      | .appending a =>
          (a.clock = false → (a.probes + 1) * probeIntervalMs ≤ appendTimeoutMs a.part) ∧
            ∀ v, reply = .view v → a.stop ≤ v.offset → t.Advances v.offset
      | .finishing _ _ probes clock =>
          clock = false → (probes + 1) * probeIntervalMs ≤ finishTimeoutMs up.size
      | _ => True
  | _ => True

/-- The requests of the rounds that are over. -/
def spent (t : Transfer δ) : Nat :=
  roundCost t.ceiling * (t.stale + chunkAttempts * t.progress up)

/-- The loop is running, and has made so many requests in this round. -/
structure Running (t : Transfer δ) (now : Nat) : Prop where
  one : 1 ≤ t.chunk
  ceiling : t.chunk ≤ t.ceiling
  offset : t.offset < up.size
  mark : t.mark < up.size
  base : t.base ≤ t.mark
  stale : t.stale < chunkAttempts
  requests : t.requests ≤ 2 + t.spent up + now

/-- What holds while the client waits. -/
def Waits (t : Transfer δ) : Prop :=
  match t.phase with
  | .resuming => t.requests ≤ 1
  | .beginning => t.requests ≤ 2
  | .appending a =>
      t.Running up (1 + a.probes) ∧ a.offset = t.offset ∧
        a.stop = min (a.offset + t.chunk) up.size ∧
        a.probes ≤ appendTimeoutMs a.part / probeIntervalMs
  | .recovering tries _ =>
      1 ≤ tries ∧ tries ≤ chunkAttempts ∧
        t.Running up (1 + appendTimeoutMs t.ceiling / probeIntervalMs +
          (chunkAttempts + 1 - tries))
  | .finishing attempts _ probes _ =>
      1 ≤ attempts ∧ attempts ≤ finishAttempts ∧ t.stale < chunkAttempts ∧
        probes ≤ finishTimeoutMs up.size / probeIntervalMs ∧
        t.requests ≤ 2 + t.spent up + ((finishAttempts - attempts) * finishCost up.size +
          (1 + probes))
  | .adopting =>
      t.stale < chunkAttempts ∧
        t.requests ≤ 2 + t.spent up + (finishAttempts * finishCost up.size + 1)
  | .ended result =>
      t.requests ≤ roundCost t.ceiling * (chunkAttempts * (t.progress up + 1)) +
        (finishAttempts * finishCost up.size + 3) ∧ ∀ row, result = .ok row → row ∈ t.own
  | .stuck => False

/-- The invariant. -/
def Inv (t : Transfer δ) : Prop := t.Waits up ∧ ∀ row ∈ t.own, row.digest = up.digest

section

variable {up} {t : Transfer δ}

/-- The condition on a list, as the client looks at it. -/
theorem findsOwn_iff : t.FindsOwn up ↔ ∀ row, up.newestMatch t.page = some row → row ∈ t.own := by
  constructor
  · intro h row hrow
    rcases lastNewest_split hrow with ⟨xs, ys, hsplit, hbefore, hafter⟩
    exact h xs row ys hsplit hbefore hafter
  · intro h xs row ys hsplit hbefore hafter
    refine h row ?_
    rw [Upload.newestMatch, hsplit]
    exact lastNewest_of_split hbefore hafter

-- What has been spent stays within what the progress so far allows, with a round to spare.
theorem spent_le (up : Upload δ) (h : t.stale < chunkAttempts) : t.spent up + roundCost t.ceiling ≤
    roundCost t.ceiling * (chunkAttempts * (t.progress up + 1)) := by
  unfold spent
  rw [← Nat.mul_succ]
  refine Nat.mul_le_mul_left _ ?_
  rw [Nat.mul_add]
  omega

/-- A round that is over is paid for: by its progress, or as one of the few without. -/
theorem spent_land (offset : Nat) (hsize : t.mark < up.size) (hle : t.base ≤ t.mark)
    (hfew : t.stale < chunkAttempts) :
    t.spent up + roundCost t.ceiling ≤ spent up { t with
      offset := offset, mark := max t.mark offset,
      stale := if t.mark < offset then 0 else t.stale + 1 } := by
  unfold spent
  rw [← Nat.mul_succ]
  refine Nat.mul_le_mul_left _ ?_
  simp only [progress]
  by_cases hraised : t.mark < offset
  · -- Progress of one byte at least stands for all the rounds since the last.
    have hprogress : min t.mark up.size - t.base + 1 ≤ min (max t.mark offset) up.size - t.base := by
      omega
    have hmul := Nat.mul_le_mul_left chunkAttempts hprogress
    rw [Nat.mul_add] at hmul
    rw [if_pos hraised]
    omega
  · have hsame : max t.mark offset = t.mark := by omega
    rw [hsame, if_neg hraised]
    omega

/-- The head of the loop, when the round before has been paid for. -/
theorem waits_loop (hone : 1 ≤ t.chunk) (hceiling : t.chunk ≤ t.ceiling)
    (hmark : t.offset < up.size → t.mark < up.size) (hbase : t.base ≤ t.mark)
    (hstale : t.stale < chunkAttempts) (hrequests : t.requests ≤ 2 + t.spent up) :
    (t.loop up).Waits up := by
  unfold loop
  split
  · rename_i hoffset
    have hrun : Running up (t.send (.appending
        ⟨t.offset, min (t.offset + t.chunk) up.size, 0, true⟩)) 1 :=
      ⟨hone, hceiling, hoffset, hmark hoffset, hbase, hstale, Nat.succ_le_succ hrequests⟩
    exact ⟨hrun, rfl, rfl, Nat.zero_le _⟩
  · refine ⟨by decide, Nat.le_refl _, hstale, Nat.zero_le _, ?_⟩
    have hsame : (t.send (.finishing finishAttempts false 0 true)).spent up = t.spent up := rfl
    rw [hsame, Nat.sub_self, Nat.zero_mul]
    simp only [send]
    omega

/-- A round that ends within its bounds leads on. -/
theorem inv_land {now offset : Nat} (hrun : t.Running up now)
    (hnow : now ≤ roundCost t.ceiling) (hadv : t.Advances offset) :
    (t.land up offset).Waits up := by
  have hspent := spent_land offset hrun.mark hrun.base hrun.stale
  have hrequests := hrun.requests
  have hmark := hrun.mark
  have hbase := hrun.base
  refine waits_loop hrun.one hrun.ceiling (fun hlt => ?_) ?_ ?_ ?_
  · simp only at hlt ⊢
    omega
  · simp only
    omega
  · simp only
    rcases hadv with hraised | hfew
    · rw [if_pos hraised]
      decide
    · split
      · decide
      · exact hfew
  · simp only at hspent ⊢
    omega

-- The chunk size stays between a byte and the ceiling.
theorem running_chunk {now : Nat} {chunk : ℚ} (hrun : t.Running up now) (hone : 1 ≤ chunk)
    (hceiling : chunk ≤ t.ceiling) : Running up { t with chunk := chunk } now :=
  ⟨hone, hceiling, hrun.offset, hrun.mark, hrun.base, hrun.stale, hrun.requests⟩

theorem running_send {now : Nat} (hrun : t.Running up now) :
    Running up { t with requests := t.requests + 1 } (now + 1) :=
  ⟨hrun.one, hrun.ceiling, hrun.offset, hrun.mark, hrun.base, hrun.stale,
    Nat.succ_le_succ hrun.requests⟩

theorem running_goto {now : Nat} (phase : TransferPhase δ) (hrun : t.Running up now) :
    Running up (t.goto phase) now :=
  ⟨hrun.one, hrun.ceiling, hrun.offset, hrun.mark, hrun.base, hrun.stale, hrun.requests⟩

theorem one_le_ceiling {now : Nat} (hrun : t.Running up now) : (1 : ℚ) ≤ t.ceiling :=
  hrun.one.trans hrun.ceiling

theorem waits_opened (v : SessionView) (hrequests : t.requests ≤ 2) :
    (t.opened up v).Waits up := by
  have hceiling : (1 : ℚ) ≤ ((if 0 < v.chunkSize then v.chunkSize else fallbackChunk : Nat) : ℚ) := by
    split_ifs with hpos
    · exact_mod_cast hpos
    · norm_num [fallbackChunk]
  refine waits_loop ?_ (min_le_left _ _) id (Nat.le_refl _) (by decide : 0 < chunkAttempts) ?_
  · exact le_min hceiling (by norm_num [initialChunk])
  · exact hrequests.trans (Nat.le_add_right _ _)

-- The status requests of an append fit in a round.
theorem probes_le {a : Attempt} {probes : Nat} (hpart : a.part ≤ t.ceiling)
    (h : probes ≤ appendTimeoutMs a.part / probeIntervalMs) :
    probes ≤ appendTimeoutMs t.ceiling / probeIntervalMs := by
  refine h.trans (Nat.div_le_div_right ?_)
  exact Nat.add_le_add_left (Nat.div_le_div_right hpart) _

theorem waits_failAppend {now : Nat} (e : ClientError) (hrun : t.Running up now)
    (hnow : now ≤ 1 + appendTimeoutMs t.ceiling / probeIntervalMs) :
    (t.failAppend e).Waits up := by
  refine ⟨by decide, Nat.le_refl _, ?_⟩
  have hchunk : ∃ chunk, chunk = (if e = .network timedOut then
      min (max (t.chunk / 2) minChunk) (t.ceiling : ℚ) else t.chunk) ∧ 1 ≤ chunk ∧
      chunk ≤ t.ceiling := by
    refine ⟨_, rfl, ?_⟩
    split
    · refine ⟨le_min (le_max_of_le_right ?_) (one_le_ceiling hrun), min_le_right _ _⟩
      norm_num [minChunk]
    · exact ⟨hrun.one, hrun.ceiling⟩
  rcases hchunk with ⟨chunk, heq, hone, hceiling⟩
  have hnext := running_send (running_chunk hrun hone hceiling)
  unfold failAppend
  rw [← heq]
  refine ⟨hone, hceiling, hrun.offset, hrun.mark, hrun.base, hrun.stale, ?_⟩
  have hrequests := hnext.requests
  have hsame : (send { t with chunk := chunk } (.recovering chunkAttempts e)).spent up =
    spent up { t with chunk := chunk } := rfl
  rw [hsame]
  have hsent : spent up { t with chunk := chunk, requests := t.requests + 1 } =
    spent up { t with chunk := chunk } := rfl
  rw [hsent] at hrequests
  simp only [send] at hrequests ⊢
  omega

-- Whatever ends an upload without a row keeps its bounds.
theorem waits_failed {now : Nat} (e : ClientError) (hstale : t.stale < chunkAttempts)
    (hrequests : t.requests ≤ 2 + t.spent up + now)
    (hnow : now ≤ finishAttempts * finishCost up.size + 1) :
    (t.goto (.ended (.error e))).Waits up := by
  have hspent := spent_le up hstale
  refine ⟨?_, nofun⟩
  have hsame : (t.goto (.ended (.error e))).progress up = t.progress up := rfl
  rw [hsame]
  simp only [goto]
  omega

theorem waits_adopt {now : Nat} (hstale : t.stale < chunkAttempts)
    (hrequests : t.requests ≤ 2 + t.spent up + now)
    (hnow : now ≤ finishAttempts * finishCost up.size) : (t.adopt up).Waits up := by
  unfold adopt
  split
  · refine ⟨hstale, ?_⟩
    have hsame : (t.send .adopting).spent up = t.spent up := rfl
    rw [hsame]
    simp only [send]
    omega
  · exact waits_failed _ hstale hrequests (by omega)

-- What the attempts to finish have cost is within the cost of all of them.
theorem finishing_le (up : Upload δ) {attempts probes : Nat} (hone : 1 ≤ attempts)
    (hmany : attempts ≤ finishAttempts)
    (hprobes : probes ≤ finishTimeoutMs up.size / probeIntervalMs) :
    (finishAttempts - attempts) * finishCost up.size + (1 + probes) ≤
      finishAttempts * finishCost up.size := by
  have hle : (finishAttempts - attempts + 1) * finishCost up.size ≤
      finishAttempts * finishCost up.size := Nat.mul_le_mul_right _ (by omega)
  rw [Nat.add_mul, Nat.one_mul] at hle
  have hcost : 1 + probes ≤ finishCost up.size := Nat.add_le_add_left hprobes 1
  omega

theorem waits_failFinish {attempts probes : Nat} (answerLost : Bool) (e : ClientError)
    (hone : 1 ≤ attempts) (hmany : attempts ≤ finishAttempts)
    (hstale : t.stale < chunkAttempts)
    (hprobes : probes ≤ finishTimeoutMs up.size / probeIntervalMs)
    (hrequests : t.requests ≤ 2 + t.spent up +
      ((finishAttempts - attempts) * finishCost up.size + (1 + probes))) :
    (t.failFinish up attempts answerLost e).Waits up := by
  have hcost := finishing_le up hone hmany hprobes
  unfold failFinish
  cases e with
  | network message =>
      simp only
      split
      · exact waits_failed _ hstale hrequests (by omega)
      · -- The next attempt. The one before has cost no more than its clock allows.
        rename_i hleft
        refine ⟨by omega, by omega, hstale, Nat.zero_le _, ?_⟩
        have hsplit : finishAttempts - (attempts - 1) = finishAttempts - attempts + 1 := by omega
        have hspent : (t.send (.finishing (attempts - 1) true 0 true)).spent up = t.spent up := rfl
        rw [hspent, hsplit, Nat.add_mul, Nat.one_mul]
        have hone' : 1 + probes ≤ finishCost up.size := Nat.add_le_add_left hprobes 1
        simp only [send]
        omega
  | status code =>
      simp only
      split
      · exact waits_adopt hstale hrequests hcost
      · exact waits_failed _ hstale hrequests (by omega)
  | decode => exact waits_failed _ hstale hrequests (by omega)

/-- What is known of the append in flight. -/
def Sends (up : Upload δ) (t : Transfer δ) (a : Attempt) : Prop :=
  t.Running up (1 + a.probes) ∧ a.offset = t.offset ∧
    a.stop = min (a.offset + t.chunk) up.size ∧
    a.probes ≤ appendTimeoutMs a.part / probeIntervalMs

theorem sends_part {a : Attempt} (h : Sends up t a) :
    1 ≤ a.part ∧ a.part ≤ t.ceiling ∧ a.offset + a.part ≤ up.size := by
  rcases h with ⟨hrun, hoffset, hstop, -⟩
  exact Attempt.part_bounds hstop (hoffset ▸ hrun.offset) hrun.one hrun.ceiling

theorem sends_probes {a : Attempt} (h : Sends up t a) :
    1 + a.probes ≤ 1 + appendTimeoutMs t.ceiling / probeIntervalMs :=
  Nat.add_le_add_left (probes_le (sends_part h).2.1 h.2.2.2) 1

theorem waits_appending {a : Attempt} (reply : NetReply) (h : Sends up t a)
    (hphase : t.phase = .appending a) (htame : ∀ next, reply = .ack next → t.Advances next) :
    (t.answer up reply).Waits up := by
  have hprobes := sends_probes h
  have hround : 1 + a.probes ≤ roundCost t.ceiling := by
    unfold roundCost
    omega
  have hone := h.1.one
  have hdouble : 1 ≤ min (t.chunk * 2) (t.ceiling : ℚ) :=
    le_min (by linarith) (one_le_ceiling h.1)
  unfold answer
  simp only [hphase]
  cases reply with
  | hangs => exact ⟨running_goto _ h.1, h.2.1, h.2.2.1, h.2.2.2⟩
  | ack next =>
      exact inv_land (running_goto (.appending a) (running_chunk h.1 hdouble (min_le_right _ _)))
        hround (htame next rfl)
  | failed e => exact waits_failAppend e h.1 hprobes
  | view v | created | listed => exact waits_failAppend .decode h.1 hprobes

theorem waits_recovering {tries : Nat} {e : ClientError} (reply : NetReply)
    (hone : 1 ≤ tries) (hmany : tries ≤ chunkAttempts)
    (hrun : t.Running up (1 + appendTimeoutMs t.ceiling / probeIntervalMs +
      (chunkAttempts + 1 - tries))) (hphase : t.phase = .recovering tries e)
    (htame : reply ≠ .hangs ∧ ∀ v, reply = .view v → t.Advances v.offset) :
    (t.answer up reply).Waits up := by
  have hround : 1 + appendTimeoutMs t.ceiling / probeIntervalMs + (chunkAttempts + 1 - tries) ≤
      roundCost t.ceiling := by
    unfold roundCost
    omega
  -- A try that brings nothing is followed by another, or by the error of the chunk.
  have hagain : ∀ e', (if e' = ClientError.status 404 ∨ tries ≤ 1 then
      t.goto (.ended (.error e)) else t.send (.recovering (tries - 1) e)).Waits up := by
    intro e'
    split
    · have hspent := spent_le up hrun.stale
      have hrequests := hrun.requests
      refine ⟨?_, nofun⟩
      have hsame : (t.goto (.ended (.error e))).progress up = t.progress up := rfl
      rw [hsame]
      simp only [goto]
      omega
    · rename_i hleft
      rw [not_or] at hleft
      have hnext := running_send hrun
      have hcount : chunkAttempts + 1 - (tries - 1) = chunkAttempts + 1 - tries + 1 := by omega
      refine ⟨by omega, by omega, ?_⟩
      rw [hcount]
      exact running_goto _ hnext
  unfold answer
  simp only [hphase]
  cases reply with
  | hangs => exact absurd rfl htame.1
  | view v => exact inv_land hrun hround (htame.2 v rfl)
  | failed e' => exact hagain e'
  | ack _ | created | listed => exact hagain .decode

-- The client is told nothing about an upload in any other way.
theorem waits_answer (reply : NetReply) (h : t.Waits up) (htame : t.Tame up (.answer reply)) :
    (t.answer up reply).Waits up := by
  unfold Waits at h
  unfold Tame at htame
  cases hphase : t.phase with
  | resuming =>
      unfold answer
      simp only [hphase] at h htame ⊢
      rw [if_neg htame]
      split
      · split
        · exact waits_opened _ (by omega)
        · exact Nat.succ_le_succ h
      · exact Nat.succ_le_succ h
  | beginning =>
      unfold answer
      simp only [hphase] at h htame ⊢
      rw [if_neg htame]
      split
      · exact waits_opened _ h
      · exact ⟨by simp only [goto]; omega, nofun⟩
  | appending a =>
      simp only [hphase] at h htame
      exact waits_appending reply h hphase htame
  | recovering tries e =>
      simp only [hphase] at h htame
      exact waits_recovering reply h.1 h.2.1 h.2.2 hphase htame
  | finishing attempts answerLost probes clock =>
      simp only [hphase] at h htame
      rcases h with ⟨hone, hmany, hstale, hprobes, hrequests⟩
      unfold answer
      simp only [hphase]
      split
      · exact ⟨hone, hmany, hstale, hprobes, hrequests⟩
      · split
        · rename_i row hrow
          have hspent := spent_le up hstale
          have hcost := finishing_le up hone hmany hprobes
          refine ⟨?_, ?_⟩
          · have hsame : (t.goto (.ended (.ok row))).progress up = t.progress up := rfl
            rw [hsame]
            simp only [goto]
            omega
          · intro row' hrow'
            cases hrow'
            exact List.mem_of_getLast? hrow
        · unfold Waits
          simp only [hphase]
          exact ⟨hone, hmany, hstale, hprobes, hrequests⟩
      · exact waits_failFinish _ _ hone hmany hstale hprobes hrequests
      · exact waits_failFinish _ _ hone hmany hstale hprobes hrequests
  | adopting =>
      simp only [hphase] at h htame
      rcases h with ⟨hstale, hrequests⟩
      unfold answer
      simp only [hphase]
      split
      · exact absurd rfl htame.1
      · split
        · rename_i row hrow
          have hspent := spent_le up hstale
          refine ⟨?_, ?_⟩
          · have hsame : (t.goto (.ended (.ok row))).progress up = t.progress up := rfl
            rw [hsame]
            simp only [goto]
            omega
          · -- The newest row that looks like the upload is the upload.
            intro row' hrow'
            cases hrow'
            exact findsOwn_iff.1 (htame.2 rfl) row hrow
        · exact waits_failed _ hstale hrequests (by omega)
      · exact waits_failed _ hstale hrequests (by omega)
      · exact waits_failed _ hstale hrequests (by omega)
  | ended result =>
      unfold answer Waits
      simp only [hphase]
      rwa [hphase] at h
  | stuck =>
      rw [hphase] at h
      exact h.elim

theorem waits_probe (reply : NetReply) (h : t.Waits up) (htame : t.Tame up (.probe reply)) :
    (t.probe up reply).Waits up := by
  cases hphase : t.phase with
  | appending a =>
      unfold Waits at h
      unfold Tame at htame
      simp only [hphase] at h htame
      have hsends : Sends up t a := h
      have hpart := (sends_part hsends).2.1
      have hprobes := sends_probes hsends
      unfold probe
      simp only [hphase]
      split
      · rename_i hdue
        -- There is room for one more status request.
        have hroom : a.probes + 1 ≤ appendTimeoutMs a.part / probeIntervalMs := by
          refine (Nat.le_div_iff_mul_le (by decide)).2 ?_
          cases hclock : a.clock with
          | false => exact htame.1 hclock
          | true => simpa [due, hclock] using hdue
        have hnow : 1 + a.probes + 1 ≤ roundCost t.ceiling := by
          have hle := probes_le hpart hroom
          unfold roundCost
          omega
        have hstay : (t.send (.appending { a with probes := a.probes + 1 })).Waits up := by
          refine ⟨?_, hsends.2.1, hsends.2.2.1, hroom⟩
          have hsent := running_goto (.appending { a with probes := a.probes + 1 })
            (running_send hsends.1)
          rw [Nat.add_assoc] at hsent
          exact hsent
        cases reply with
        | view v =>
            simp only [NetReply.asView]
            split
            · rename_i hlanded
              exact inv_land (running_goto (.appending a) (running_send hsends.1)) hnow
                (htame.2 v rfl hlanded)
            · exact hstay
        | ack _ | created | listed | failed _ | hangs => exact hstay
      · exact waits_failAppend _ hsends.1 hprobes
  | finishing attempts answerLost probes clock =>
      unfold Waits at h
      unfold Tame at htame
      simp only [hphase] at h htame
      rcases h with ⟨hone, hmany, hstale, hprobes, hrequests⟩
      unfold probe
      simp only [hphase]
      split
      · rename_i hdue
        have hroom : probes + 1 ≤ finishTimeoutMs up.size / probeIntervalMs := by
          refine (Nat.le_div_iff_mul_le (by decide)).2 ?_
          cases clock with
          | false => exact htame rfl
          | true => simpa [due] using hdue
        have hcost := finishing_le up hone hmany hroom
        split
        · -- The session has vanished.
          refine waits_adopt hstale ?_ hcost
          have hsame : spent up { t with
              phase := .finishing attempts answerLost probes clock, requests := t.requests + 1 } =
            t.spent up := rfl
          rw [hsame]
          simp only
          omega
        · refine ⟨hone, hmany, hstale, hroom, ?_⟩
          have hsame : (t.send (.finishing attempts answerLost (probes + 1) clock)).spent up =
            t.spent up := rfl
          rw [hsame]
          simp only [send]
          omega
      · exact waits_failFinish _ _ hone hmany hstale hprobes hrequests
  | resuming | beginning | recovering tries e | adopting | ended result | stuck =>
      unfold probe
      simp only [hphase]
      exact h

-- What the server makes of the session, and what else is in the room, is not awaited.
theorem waits_server {own listing : List (UploadedRow δ)} (h : t.Waits up)
    (hown : ∀ row ∈ t.own, row ∈ own) :
    Waits up { t with own := own, listing := listing } := by
  unfold Waits at h ⊢
  cases hphase : t.phase with
  | ended result =>
      simp only [hphase] at h ⊢
      exact ⟨h.1, fun row hrow => hown row (h.2 row hrow)⟩
  | appending a =>
      simp only [hphase] at h ⊢
      rcases h with ⟨hrun, hrest⟩
      exact ⟨⟨hrun.one, hrun.ceiling, hrun.offset, hrun.mark, hrun.base, hrun.stale,
        hrun.requests⟩, hrest⟩
  | recovering tries e =>
      simp only [hphase] at h ⊢
      rcases h with ⟨hone, hmany, hrun⟩
      exact ⟨hone, hmany, ⟨hrun.one, hrun.ceiling, hrun.offset, hrun.mark, hrun.base, hrun.stale,
        hrun.requests⟩⟩
  | resuming | beginning | finishing attempts answerLost probes clock | adopting =>
      simp only [hphase] at h ⊢
      exact h
  | stuck => simp only [hphase] at h

-- Only a commit makes a row of the session, and nothing unmakes one.
theorem own_step (t : Transfer δ) (event : TransferEvent δ) :
    (t.step up event).own = t.own ∨
      ∃ id createdAt, (t.step up event).own =
        t.own ++ [⟨id, up.filename, up.size, createdAt, up.digest⟩] := by
  have hloop : ∀ t' : Transfer δ, (t'.loop up).own = t'.own := by
    intro t'
    unfold loop
    split <;> rfl
  have hadopt : ∀ t' : Transfer δ, (t'.adopt up).own = t'.own := by
    intro t'
    unfold adopt
    split <;> rfl
  have hfail : ∀ (t' : Transfer δ) n lost e, (t'.failFinish up n lost e).own = t'.own := by
    intro t' n lost e
    unfold failFinish
    split
    · split <;> rfl
    · split
      · exact hadopt t'
      · rfl
    · rfl
  cases event with
  | answer reply =>
      left
      simp only [step, answer]
      split
      · split
        · rfl
        · split
          · split
            · exact hloop _
            · rfl
          · rfl
      · split
        · rfl
        · split
          · exact hloop _
          · rfl
      · split
        · rfl
        · split
          · exact hloop _
          · rfl
      · split
        · rfl
        · split
          · exact hloop _
          · split <;> rfl
      · split
        · rfl
        · split <;> rfl
        · exact hfail t _ _ _
        · exact hfail t _ _ _
      · split
        · rfl
        · split <;> rfl
        · rfl
        · rfl
      · rfl
      · rfl
  | probe reply =>
      left
      simp only [step, probe]
      split
      · split
        · split
          · split
            · exact hloop _
            · rfl
          · rfl
        · rfl
      · split
        · split
          · exact hadopt _
          · rfl
        · exact hfail t _ _ _
      · rfl
  | commits id createdAt => exact Or.inr ⟨id, createdAt, rfl⟩
  | others row | removed id => exact Or.inl rfl

/-- The step lemma. -/
theorem inv_step (t : Transfer δ) (event : TransferEvent δ) (h : t.Inv up)
    (htame : t.Tame up event) : (t.step up event).Inv up := by
  refine ⟨?_, fun row hrow => ?_⟩
  · cases event with
    | answer reply => exact waits_answer reply h.1 htame
    | probe reply => exact waits_probe reply h.1 htame
    | commits id createdAt => exact waits_server h.1 fun row hrow => List.mem_append_left _ hrow
    | others row => exact waits_server h.1 fun row hrow => hrow
    | removed id => exact waits_server h.1 fun row hrow => hrow
  · rcases own_step t event with hsame | ⟨id, createdAt, hmore⟩
    · rw [hsame] at hrow
      exact h.2 row hrow
    · rw [hmore] at hrow
      rcases List.mem_append.1 hrow with hrow | hrow
      · exact h.2 row hrow
      · rw [List.mem_singleton.1 hrow]

theorem proper_of_inv (t : Transfer δ) (h : t.Inv up) : t.Proper up := by
  rcases h with ⟨hwaits, hown⟩
  unfold Waits at hwaits
  refine ⟨fun a ha => ?_, ?_, Nat.sub_le_of_le_add ?_, fun hstuck => ?_, fun row hrow => ?_⟩
  · simp only [ha] at hwaits
    exact sends_part hwaits
  · cases hphase : t.phase with
    | resuming | beginning =>
        simp only [hphase] at hwaits
        omega
    | appending a =>
        simp only [hphase] at hwaits
        have hspent := spent_le up hwaits.1.stale
        have hrequests := hwaits.1.requests
        have hprobes := sends_probes hwaits
        have hround : 1 + appendTimeoutMs t.ceiling / probeIntervalMs ≤ roundCost t.ceiling :=
          Nat.le_add_right _ _
        omega
    | recovering tries e =>
        simp only [hphase] at hwaits
        rcases hwaits with ⟨hone, hmany, hrun⟩
        have hspent := spent_le up hrun.stale
        have hrequests := hrun.requests
        unfold roundCost at hspent ⊢
        omega
    | finishing attempts answerLost probes clock =>
        simp only [hphase] at hwaits
        rcases hwaits with ⟨hone, hmany, hstale, hprobes, hrequests⟩
        have hspent := spent_le up hstale
        have hcost := finishing_le up hone hmany hprobes
        omega
    | adopting =>
        simp only [hphase] at hwaits
        have hspent := spent_le up hwaits.1
        omega
    | ended result =>
        simp only [hphase] at hwaits
        exact hwaits.1
    | stuck => simp only [hphase] at hwaits
  · omega
  · simp only [hstuck] at hwaits
  · simp only [hrow] at hwaits
    have hmem := hwaits.2 row rfl
    exact ⟨hmem, hown row hmem⟩

end

/-- **The outcome of a chunked upload.** Whatever becomes of its requests, and whatever
    happens on the server meanwhile, as long as no chunk gets more rounds without progress
    than it may, no answer hangs after its head and the room's list is searched when the
    newest attachment that looks like the upload is the upload, every chunk is right, the
    requests are bounded by the progress, and what is reported as uploaded is what the
    server has made of this session. -/
theorem outcome (up : Upload δ) (stored : Bool) (listing : List (UploadedRow δ))
    (events : List (TransferEvent δ))
    (h : Run.Along (step up) (Tame up) (launch up stored listing) events) :
    Run.Throughout (step up) (Proper up) (launch up stored listing) events := by
  have hlaunch : (launch up stored listing).Inv up := by
    unfold launch
    split
    · exact ⟨⟨Nat.zero_le _, nofun⟩, nofun⟩
    · split
      · exact ⟨⟨Nat.zero_le _, nofun⟩, nofun⟩
      · split
        · exact ⟨Nat.le_refl 1, nofun⟩
        · exact ⟨Nat.le_succ 1, nofun⟩
  exact Run.throughout_mono proper_of_inv _ events
    (Run.throughout_of_along inv_step _ events hlaunch h)

/-- The append that the head of the loop sends. -/
def nextAttempt (t : Transfer δ) : Attempt :=
  ⟨t.offset, min (t.offset + t.chunk) up.size, 0, true⟩

/-- A chunk that the server refuses with an error, while it answers status requests, is
    sent for as long as that goes on. -/
theorem refused_chunk_repeats (up : Upload δ) (t : Transfer δ) (code : Nat) (v : SessionView)
    (hphase : t.phase = .appending (t.nextAttempt up)) (hoffset : t.offset < up.size)
    (hv : v.offset = t.offset) (n : Nat) :
    let events := (List.replicate n [TransferEvent.answer (.failed (.status code)),
      .answer (.view v)]).flatten
    (Run.run (step up) t events).requests = t.requests + 2 * n ∧
      (Run.run (step up) t events).phase = .appending (t.nextAttempt up) := by
  induction n generalizing t with
  | zero => exact ⟨rfl, hphase⟩
  | succ n ih =>
      -- One refusal and one status request lead back to where the chunk was sent.
      have hround : (t.step up (.answer (.failed (.status code)))).step up (.answer (.view v)) =
          { t with
            requests := t.requests + 2, mark := max t.mark t.offset,
            stale := if t.mark < t.offset then 0 else t.stale + 1 } := by
        simp only [step, answer, hphase, reduceCtorEq, if_false, NetReply.asAck, failAppend, send,
          NetReply.asView, land, loop, hv, hoffset, if_true, nextAttempt]
      rcases ih { t with
        requests := t.requests + 2, mark := max t.mark t.offset,
        stale := if t.mark < t.offset then 0 else t.stale + 1 } hphase hoffset hv
        with ⟨hrequests, hagain⟩
      simp only [List.replicate_succ, List.flatten_cons, List.cons_append, List.nil_append,
        Run.run_cons, hround]
      refine ⟨?_, hagain⟩
      rw [hrequests]
      simp only
      omega

end Transfer

namespace Sample

/-- Three bytes for the channel. -/
def photo : Upload Nat := ⟨.file, "photo.png", 3, 0⟩

/-- An older attachment with the name and the size of the photo, and other bytes. -/
def namesake : UploadedRow Nat := ⟨1, "photo.png", 3, 100, 1⟩

/-- The answer of the finish is lost, and the upload is found in the list. -/
def lossyUpload : List (TransferEvent Nat) :=
  [.answer (.view ⟨0, 3, 500⟩), .answer (.ack 3), .commits 2 200,
    .answer (.failed (.network timedOut)), .answer (.failed (.status 404)), .answer .listed]

theorem lossyUpload_outcome :
    Run.Throughout (Transfer.step photo) (Transfer.Proper photo)
      (Transfer.launch photo false [namesake]) lossyUpload :=
  Transfer.outcome photo false [namesake] lossyUpload (by
    simp [lossyUpload, photo, namesake, Run.Along, Transfer.Tame, Transfer.launch, Transfer.step,
      Transfer.answer, Transfer.send, Transfer.opened, Transfer.loop, Transfer.land,
      Transfer.adopt, Transfer.failFinish, Transfer.Advances, Transfer.page,
      Transfer.findsOwn_iff, NetReply.asView, NetReply.asAck, clientMaxUploadBytes, finishAttempts,
      Upload.newestMatch, Upload.looksLike, lastNewest, List.insertionSort])

/-- Alice's finish is rejected, and the answer that says so is lost. She tries again, is
    told that there is no such upload, and looks in the list. -/
def rejectedUpload : List (TransferEvent Nat) :=
  [.answer (.view ⟨0, 3, 500⟩), .answer (.ack 3), .answer (.failed (.network timedOut)),
    .answer (.failed (.status 404)), .answer .listed]

/-- The older attachment is reported as what has been uploaded. -/
theorem vanished_session_adopts :
    (Run.run (Transfer.step photo) (Transfer.launch photo false [namesake])
      rejectedUpload).phase = .ended (.ok namesake) ∧
    ¬ Run.Throughout (Transfer.step photo) (Transfer.Proper photo)
      (Transfer.launch photo false [namesake]) rejectedUpload := by
  have hend : (Run.run (Transfer.step photo) (Transfer.launch photo false [namesake])
      rejectedUpload).phase = .ended (.ok namesake) := by decide +kernel
  refine ⟨hend, fun h => ?_⟩
  have hgenuine := (Run.throughout_last _ _ h).genuine namesake hend
  exact absurd hgenuine.2 (by decide)

end Sample

end PocketSkynet
