import PocketSkynet.Core.Api
import PocketSkynet.Lib.FileTree
import PocketSkynet.Lib.Joined

/-!
# Published Sites

A site is uploaded as an archive. It is unpacked in memory, with a bound on the number of its
files and of their bytes, and with every path made of plain segments. Then it is paid for, and
only then written to the disk, file by file. What is served is looked up by its path again,
under rules of its own.

The archive comes from another crate. What is used of it: its entries, the components of the
path of each, and its bytes if they can be decompressed. `Segment` says what is relied on.

No two accepted files have one path. But a path may still be above another one, and the file
system has no room for a file in the place of a directory.

## Main definitions

* `Entry`, `Segment`: The entries of an archive.
* `unpackZip`: The files of an archive.
* `commitSite`, `serveFile`: A site is written, and read.
* `visible`: The files of an archive that are not hidden.
* `SiteContract`: What is asked of an accepted archive.
* `NoClash`: No path of a visible file is above another one.

## Theorems

* `unpack_loop`: What the loop over the entries keeps.
* `stripFolder_spec`: A folder around everything is taken off.
* `site_contract_iff`: An accepted archive can be served file by file exactly if no path is
  above another.
-/

namespace PocketSkynet

namespace Sites

/-- The most bytes that a site may have when it is unpacked. -/
def maxUnpackedBytes : Nat := 64 * 1024 * 1024

/-- The most files that a site may have. -/
def maxSiteFiles : Nat := 500

/-- A component of a relative path. -/
structure Segment where
  chars : List Char
  wellFormed : (!chars.isEmpty && !chars.contains '/') = true
deriving DecidableEq

/-- One entry of an archive: whether it is a directory, the components of its path if it does
    not leave the archive, its declared size, and its bytes unless it is corrupt. -/
structure Entry where
  isDir : Bool
  enclosedName : Option (List Segment)
  size : Nat
  content : Option (List UInt8)
deriving DecidableEq

structure SiteFile where
  name : List Char
  bytes : List UInt8
deriving DecidableEq

/-- Components as a path. -/
def joinPath (components : List (List Char)) : List Char := List.intercalate ['/'] components

/-- The segments of a path on the disk. -/
def segments (name : List Char) : List (List Char) := (name.splitOn '/').filter (· ≠ [])

/-- A segment that hides a file. -/
def isHidden (seg : List Char) : Bool := seg.head? == some '.' || seg == "__MACOSX".toList

/-- What is read of an entry, up to a number of bytes. -/
def Entry.take (n : Nat) (e : Entry) : Option (List UInt8) := e.content.map (List.take n)

/-- Take in one visible file. The declared size is looked at first, and then so much is read
    that a wrong one is noticed. -/
def unpackFile (acc : List SiteFile × Nat) (rel : List Char) (e : Entry) :
    Except ApiError (List SiteFile × Nat) :=
  if rel.contains (Char.ofNat 0) || rel.contains '\\' then
    .error (.badRequest "The zip archive contains an unsafe path")
  else if maxSiteFiles ≤ acc.1.length then
    .error (.badRequest "The zip archive contains too many files (max 500)")
  else if maxUnpackedBytes < min (acc.2 + e.size) (2 ^ 64 - 1) then
    .error (.badRequest "The unpacked site is too large (max 64 MB)")
  else
    let budget := maxUnpackedBytes - acc.2
    match e.take (budget + 1) with
    | none => .error (.badRequest "The zip archive is corrupt")
    | some bytes =>
        if budget < bytes.length then
          .error (.badRequest "The unpacked site is too large (max 64 MB)")
        else .ok (acc.1 ++ [⟨rel, bytes⟩], acc.2 + bytes.length)

/-- One round of the loop over the entries. Hidden files are dropped, not fatal. -/
def unpackEntry (acc : List SiteFile × Nat) (entry : Option Entry) :
    Except ApiError (List SiteFile × Nat) :=
  match entry with
  | none => .error (.badRequest "The zip archive is corrupt")
  | some e =>
      if e.isDir then .ok acc
      else
        match e.enclosedName with
        | none => .error (.badRequest "The zip archive contains an unsafe path")
        | some name =>
            let rel := joinPath (name.map Segment.chars)
            if (rel.splitOn '/').any isHidden then .ok acc else unpackFile acc rel e

def indexName : List Char := "index.html".toList

/-- Without the folder that everything is in, if there is one and no index beside it. -/
def stripFolder (files : List SiteFile) : List SiteFile :=
  if files.any (·.name == indexName) then files
  else
    match files.head?.bind fun f => Joined.splitOnce '/' f.name with
    | none => files
    | some (folder, _) =>
        if files.all fun f => (folder ++ ['/']).isPrefixOf f.name then
          files.map fun f => ⟨f.name.drop (folder.length + 1), f.bytes⟩
        else files

/-- Unpack an archive, if it is one, into paths and bytes. -/
def unpackZip (archive : Option (List (Option Entry))) : Except ApiError (List SiteFile) := do
  match archive with
  | none => .error (.badRequest "The upload is not a readable zip archive")
  | some entries =>
      let unpacked ← entries.foldlM unpackEntry ([], 0)
      if unpacked.1.isEmpty then .error (.badRequest "The zip archive is empty")
      else
        let files := stripFolder unpacked.1
        if !files.any (·.name == indexName) then
          .error (.badRequest "The zip archive has no index.html at its root")
        else if (files.map SiteFile.name).Nodup then .ok files
        else .error (.badRequest "The zip archive contains duplicate paths")

/-! ### The disk -/

/-- What a site is kept in: the directory of all sites, the disk, the rows of the sites, and
    the transactions that have been used to pay. -/
structure SiteState where
  sitesDir : List (List Char)
  disk : FileTree (List Char) (List UInt8)
  rows : List (List Char)
  spent : List String

/-- Write the files of a site one after the other. A path without a name ends in a slash, and is
    no place for a file. -/
def writeFiles (dir : List (List Char)) :
    FileTree (List Char) (List UInt8) → List SiteFile → Option (FileTree (List Char) (List UInt8))
  | disk, [] => some disk
  | disk, f :: files =>
      if f.name.isEmpty then none
      else (disk.put (dir ++ segments f.name) f.bytes).bind fun disk => writeFiles dir disk files

/-- Pay for, store and index an unpacked site. `verified` is what the check of the payment says,
    and `id` is a fresh one. -/
def commitSite (st : SiteState) (id : List Char) (txHash : String)
    (verified : Except ApiError Unit) (files : List SiteFile) :
    Except ApiError (List Char) × SiteState :=
  match verified with
  | .error e => (.error e, st)
  | .ok _ =>
      let st := { st with spent := txHash :: st.spent }
      match writeFiles (st.sitesDir ++ [id]) st.disk files with
      | none => (.error (.internal "write"), st)
      | some disk => (.ok id, { st with disk, rows := id :: st.rows })

/-- Site ids are of the exact shape this server mints. -/
def siteId (raw : List Char) : Bool := raw.length == 32 && raw.all isLowerHex

/-- One hosted file, or none if it is not found. -/
def serveFile (st : SiteState) (rawId rawPath : List Char) : Option (List UInt8) :=
  if !siteId rawId then none
  else if !st.rows.contains rawId then none
  else
    let trimmed := rawPath.dropWhile (· == '/')
    let rel := if trimmed.isEmpty || trimmed.getLast? == some '/' then trimmed ++ indexName
      else trimmed
    if (rel.splitOn '/').any fun seg => seg.isEmpty || seg == ['.'] || seg == ['.', '.'] ||
        seg.contains '\\' || seg.contains (Char.ofNat 0) then none
    else st.disk.read (st.sitesDir ++ [rawId] ++ segments rel)

/-! ### What is asked -/

/-- The files of an archive that are not hidden: the components of their paths, and their
    bytes. -/
def visible (entries : List (Option Entry)) : List (List (List Char) × Option (List UInt8)) :=
  entries.filterMap fun entry => entry.bind fun e =>
    if e.isDir then none
    else e.enclosedName.bind fun name =>
      if name.any fun seg => isHidden seg.chars then none
      else some (name.map Segment.chars, e.content)

/-- A path with a folder in front, if there is one. -/
def inFolder : Option (List Char) → List Char → List Char
  | none, name => name
  | some folder, name => folder ++ '/' :: name

/-- What is asked of the files of an accepted archive. -/
structure SiteContract (entries : List (Option Entry)) (files : List SiteFile) : Prop where
  count : files.length ≤ maxSiteFiles
  size : (files.map fun f => f.bytes.length).sum ≤ maxUnpackedBytes
  index : ∃ f ∈ files, f.name = indexName
  distinct : (files.map SiteFile.name).Nodup
  apart : ∀ f ∈ files, ∀ g ∈ files, segments f.name <+: segments g.name →
    segments f.name = segments g.name
  inside : ∀ f ∈ files, ∀ seg ∈ segments f.name, seg ≠ ['.'] ∧ seg ≠ ['.', '.'] ∧ '/' ∉ seg
  served : ∀ (st : SiteState) (id : List Char) (txHash : String), siteId id = true →
    st.disk.Holds (st.sitesDir ++ [id]) [] →
    (commitSite st id txHash (.ok ()) files).1 = .ok id ∧
      ∀ f ∈ files, serveFile (commitSite st id txHash (.ok ()) files).2 id f.name = some f.bytes
  complete : ∃ folder : Option (List Char), (∀ name ∈ folder, '/' ∉ name) ∧
    (visible entries).map (fun v => (joinPath v.1, v.2)) =
      files.map fun f => (inFolder folder f.name, some f.bytes)

/-- No path of a visible file is above another one. -/
def NoClash (entries : List (Option Entry)) : Prop :=
  ∀ v ∈ visible entries, ∀ w ∈ visible entries, v.1 <+: w.1 → v.1 = w.1

/-! ### Paths -/

theorem Segment.spec (seg : Segment) : seg.chars ≠ [] ∧ '/' ∉ seg.chars := by
  have h := seg.wellFormed
  rw [Bool.and_eq_true, Bool.not_eq_true', Bool.not_eq_true', List.isEmpty_eq_false_iff] at h
  refine ⟨h.1, fun hmem => ?_⟩
  rw [List.contains_iff_mem.2 hmem] at h
  cases h.2

-- The components of a path, if there are any, are read off it.
theorem splitOn_joinPath {components : List (List Char)} (hplain : ∀ c ∈ components, '/' ∉ c)
    (hne : components ≠ []) : (joinPath components).splitOn '/' = components :=
  List.splitOn_intercalate '/' hplain hne

theorem segments_joinPath {components : List (List Char)}
    (hplain : ∀ c ∈ components, c ≠ [] ∧ '/' ∉ c) :
    segments (joinPath components) = components := by
  by_cases hne : components = []
  · subst hne
    rfl
  · rw [segments, splitOn_joinPath (fun c hc => (hplain c hc).2) hne, List.filter_eq_self]
    exact fun c hc => by simpa using (hplain c hc).1

-- A folder in front gives its segment, if it has a name.
theorem segments_inFolder {folder : List Char} (hplain : '/' ∉ folder) (name : List Char) :
    segments (folder ++ '/' :: name) = segments folder ++ segments name := by
  rw [segments, segments, segments, List.splitOn_append_cons_self_of_not_mem hplain,
    List.splitOn_eq_singleton hplain, ← List.filter_append, List.singleton_append]

/-! ### The loop over the entries -/

-- Without components a path has one segment, which hides nothing.
theorem any_isHidden (name : List Segment) :
    ((joinPath (name.map Segment.chars)).splitOn '/').any isHidden =
      name.any fun seg => isHidden seg.chars := by
  by_cases hne : name = []
  · subst hne
    decide
  · have hplain : ∀ c ∈ name.map Segment.chars, '/' ∉ c := by
      intro c hc
      rcases List.mem_map.1 hc with ⟨seg, -, rfl⟩
      exact seg.spec.2
    rw [splitOn_joinPath hplain fun h => hne (List.map_eq_nil_iff.1 h), List.any_map]
    rfl

/-- What the loop keeps. -/
structure Unpacking (acc : List SiteFile × Nat) : Prop where
  count : acc.1.length ≤ maxSiteFiles
  total : acc.2 = (acc.1.map fun f => f.bytes.length).sum
  size : acc.2 ≤ maxUnpackedBytes
  clean : ∀ f ∈ acc.1, Char.ofNat 0 ∉ f.name ∧ '\\' ∉ f.name

-- A file that is taken in is whole, and there is room for it.
theorem unpackFile_spec {acc acc' : List SiteFile × Nat} {rel : List Char} {e : Entry}
    (h : unpackFile acc rel e = .ok acc') (hacc : Unpacking acc) : Unpacking acc' ∧
      ∃ bytes, e.content = some bytes ∧ acc'.1 = acc.1 ++ [⟨rel, bytes⟩] := by
  simp only [unpackFile] at h
  split at h
  · cases h
  · rename_i hclean
    split at h
    · cases h
    · rename_i hcount
      split at h
      · cases h
      · split at h
        · cases h
        · rename_i bytes hread
          split at h
          · cases h
          · rename_i hbudget
            cases h
            rcases Option.map_eq_some_iff.1 hread with ⟨content, hcontent, rfl⟩
            -- Nothing was cut off, or there would be more than the budget.
            have hwhole : content.take (maxUnpackedBytes - acc.2 + 1) = content := by
              refine List.take_of_length_le ?_
              rw [List.length_take] at hbudget
              omega
            rw [hwhole] at hbudget ⊢
            have hsize := hacc.size
            refine ⟨⟨?_, ?_, ?_, ?_⟩, content, hcontent, rfl⟩
            · rw [List.length_append, List.length_singleton]
              omega
            · rw [List.map_append, List.sum_append, ← hacc.total, List.map_singleton,
                List.sum_singleton]
            · simp only
              omega
            · intro f hf
              rcases List.mem_append.1 hf with hf | hf
              · exact hacc.clean f hf
              · rw [List.mem_singleton.1 hf]
                simpa only [Bool.or_eq_true, not_or, List.contains_iff_mem] using hclean

/-- An entry adds its file if it is a visible one, and nothing otherwise. -/
theorem unpackEntry_spec {acc acc' : List SiteFile × Nat} {entry : Option Entry}
    (h : unpackEntry acc entry = .ok acc') (hacc : Unpacking acc) : Unpacking acc' ∧
      acc'.1.map (fun f => (f.name, some f.bytes)) =
        acc.1.map (fun f => (f.name, some f.bytes)) ++
          (visible [entry]).map fun v => (joinPath v.1, v.2) := by
  cases entry with
  | none => cases h
  | some e =>
      simp only [unpackEntry] at h
      by_cases hdir : e.isDir = true
      · rw [if_pos hdir] at h
        cases h
        exact ⟨hacc, by simp [visible, hdir]⟩
      · rw [if_neg hdir] at h
        cases hname : e.enclosedName with
        | none =>
            rw [hname] at h
            cases h
        | some name =>
            simp only [hname, any_isHidden] at h
            simp only [visible, List.filterMap_cons, Option.bind_some, if_neg hdir, hname,
              List.filterMap_nil]
            split at h
            · rename_i hhidden
              cases h
              rw [if_pos hhidden]
              exact ⟨hacc, by rw [List.map_nil, List.append_nil]⟩
            · rename_i hhidden
              rcases unpackFile_spec h hacc with ⟨hkeep, bytes, hcontent, hadd⟩
              rw [if_neg hhidden]
              refine ⟨hkeep, ?_⟩
              rw [hadd, List.map_append, hcontent]
              rfl

theorem visible_cons (entry : Option Entry) (entries : List (Option Entry)) :
    visible (entry :: entries) = visible [entry] ++ visible entries := by
  rw [visible, visible, visible, ← List.filterMap_append, List.singleton_append]

theorem unpack_loop {entries : List (Option Entry)} {acc acc' : List SiteFile × Nat}
    (h : entries.foldlM unpackEntry acc = .ok acc') (hacc : Unpacking acc) : Unpacking acc' ∧
      acc'.1.map (fun f => (f.name, some f.bytes)) =
        acc.1.map (fun f => (f.name, some f.bytes)) ++
          (visible entries).map fun v => (joinPath v.1, v.2) := by
  induction entries generalizing acc with
  | nil =>
      cases h
      exact ⟨hacc, by simp [visible]⟩
  | cons entry entries ih =>
      rw [List.foldlM_cons] at h
      rcases (bind_eq_ok _ _ _).1 h with ⟨next, hnext, hrest⟩
      rcases unpackEntry_spec hnext hacc with ⟨hkeep, hadd⟩
      rcases ih hrest hkeep with ⟨hkeep', hadd'⟩
      refine ⟨hkeep', ?_⟩
      rw [hadd', hadd, visible_cons entry entries, List.map_append, List.append_assoc]

/-- A folder around everything is taken off. -/
theorem stripFolder_spec (files : List SiteFile) :
    ∃ folder : Option (List Char), (∀ name ∈ folder, '/' ∉ name) ∧
      files = (stripFolder files).map fun f => ⟨inFolder folder f.name, f.bytes⟩ := by
  have hsame : files = files.map fun f => ⟨inFolder none f.name, f.bytes⟩ :=
    (List.map_id files).symm
  unfold stripFolder
  split
  · exact ⟨none, by simp, hsame⟩
  · cases hfirst : files.head?.bind fun f => Joined.splitOnce '/' f.name with
    | none => exact ⟨none, by simp, hsame⟩
    | some halves =>
        simp only
        split
        · rename_i hall
          rcases Option.bind_eq_some_iff.1 hfirst with ⟨first, -, hsplit⟩
          refine ⟨some halves.1, ?_, ?_⟩
          · intro name hname
            rw [Option.mem_some_iff.1 hname.symm]
            exact Joined.splitOnce_free hsplit
          · rw [List.map_map]
            refine (List.map_id files).symm.trans (List.map_congr_left fun f hf => ?_)
            rcases List.isPrefixOf_iff_prefix.1 (List.all_eq_true.1 hall f hf) with ⟨rest, hrest⟩
            have hdrop : f.name.drop (halves.1.length + 1) = rest := by
              rw [← hrest, List.append_assoc, ← List.drop_drop, List.drop_left]
              rfl
            rw [List.append_assoc] at hrest
            cases f
            simp only [Function.comp_apply, hdrop, inFolder, id]
            simp only at hrest
            rw [← hrest]
            rfl
        · exact ⟨none, by simp, hsame⟩

/-! ### Accepted archives -/

/-- What is known of the files of an archive that is accepted. -/
structure Accepted (entries : List (Option Entry)) (files : List SiteFile) : Prop where
  count : files.length ≤ maxSiteFiles
  size : (files.map fun f => f.bytes.length).sum ≤ maxUnpackedBytes
  index : ∃ f ∈ files, f.name = indexName
  distinct : (files.map SiteFile.name).Nodup
  clean : ∀ f ∈ files, Char.ofNat 0 ∉ f.name ∧ '\\' ∉ f.name
  complete : ∃ folder : Option (List Char), (∀ name ∈ folder, '/' ∉ name) ∧
    (visible entries).map (fun v => (joinPath v.1, v.2)) =
      files.map fun f => (inFolder folder f.name, some f.bytes)

theorem mem_inFolder {folder : Option (List Char)} {name : List Char} {c : Char} (h : c ∈ name) :
    c ∈ inFolder folder name := by
  cases folder with
  | none => exact h
  | some folder => exact List.mem_append_right _ (List.mem_cons_of_mem _ h)

theorem accepted_of_unpackZip {entries : List (Option Entry)} {files : List SiteFile}
    (h : unpackZip (some entries) = .ok files) : Accepted entries files := by
  rcases (bind_eq_ok _ _ _).1 h with ⟨⟨unpacked, total⟩, hloop, hrest⟩
  have hstart : Unpacking ([], 0) := ⟨Nat.zero_le _, rfl, Nat.zero_le _, fun f hf => by cases hf⟩
  rcases unpack_loop hloop hstart with ⟨hkeep, hvisible⟩
  simp only at hrest hvisible
  split at hrest
  · cases hrest
  · split at hrest
    · cases hrest
    · rename_i hindex
      split at hrest
      · rename_i hdistinct
        cases hrest
        rcases stripFolder_spec unpacked with ⟨folder, hplain, hfolder⟩
        have hnames : ∀ f ∈ stripFolder unpacked,
            ⟨inFolder folder f.name, f.bytes⟩ ∈ unpacked := by
          intro f hf
          rw [hfolder]
          exact List.mem_map.2 ⟨f, hf, rfl⟩
        refine ⟨?_, ?_, ?_, hdistinct, ?_, folder, hplain, ?_⟩
        · have hcount := hkeep.count
          rw [hfolder, List.length_map] at hcount
          exact hcount
        · have htotal := hkeep.total
          have hsize := hkeep.size
          rw [hfolder, List.map_map] at htotal
          rw [htotal] at hsize
          exact hsize
        · simpa using hindex
        · intro f hf
          rcases hkeep.clean _ (hnames f hf) with ⟨hnul, hback⟩
          exact ⟨fun h => hnul (mem_inFolder h), fun h => hback (mem_inFolder h)⟩
        · rw [List.map_nil, List.nil_append] at hvisible
          rw [← hvisible]
          conv_lhs => rw [hfolder]
          rw [List.map_map]
          rfl
      · cases hrest

/-- A visible file has plain segments, none of which hides it. -/
theorem visible_plain {entries : List (Option Entry)} {v : List (List Char) × Option (List UInt8)}
    (h : v ∈ visible entries) : ∀ c ∈ v.1, c ≠ [] ∧ '/' ∉ c ∧ isHidden c = false := by
  rcases List.mem_filterMap.1 h with ⟨entry, -, hentry⟩
  rcases Option.bind_eq_some_iff.1 hentry with ⟨e, -, he⟩
  split at he
  · cases he
  · rcases Option.bind_eq_some_iff.1 he with ⟨name, -, hname⟩
    split at hname
    · cases hname
    · rename_i hhidden
      cases hname
      intro c hc
      rcases List.mem_map.1 hc with ⟨seg, hseg, rfl⟩
      rw [Bool.not_eq_true, List.any_eq_false] at hhidden
      exact ⟨seg.spec.1, seg.spec.2, by simpa using hhidden seg hseg⟩

section Paths

variable {entries : List (Option Entry)} {files : List SiteFile} (h : Accepted entries files)
include h

/-- The segments of the files are the components of the visible ones, without those of the folder
    that was taken off. -/
theorem segments_files : ∃ front : List (List Char),
    (visible entries).map Prod.fst = files.map fun f => front ++ segments f.name := by
  rcases h.complete with ⟨folder, hplain, hcomplete⟩
  have hsegments : (visible entries).map Prod.fst =
      ((visible entries).map fun v => (joinPath v.1, v.2)).map fun w => segments w.1 := by
    rw [List.map_map]
    refine List.map_congr_left fun v hv => ?_
    exact (segments_joinPath fun c hc =>
      ⟨(visible_plain hv c hc).1, (visible_plain hv c hc).2.1⟩).symm
  rw [hsegments, hcomplete, List.map_map]
  cases folder with
  | none => exact ⟨[], rfl⟩
  | some folder =>
      exact ⟨segments folder, List.map_congr_left fun f _ =>
        segments_inFolder (hplain folder rfl) f.name⟩

theorem noClash_iff : NoClash entries ↔ ∀ f ∈ files, ∀ g ∈ files,
    segments f.name <+: segments g.name → segments f.name = segments g.name := by
  rcases segments_files h with ⟨front, hfront⟩
  have hvisible : NoClash entries ↔ ∀ v ∈ (visible entries).map Prod.fst,
      ∀ w ∈ (visible entries).map Prod.fst, v <+: w → v = w := by
    simp only [NoClash, List.forall_mem_map]
  rw [hvisible, hfront]
  simp only [List.forall_mem_map, List.prefix_append_right_inj, List.append_cancel_left_eq]

theorem plain_segments {f : SiteFile} (hf : f ∈ files) :
    ∀ seg ∈ segments f.name, seg ≠ [] ∧ '/' ∉ seg ∧ isHidden seg = false := by
  rcases segments_files h with ⟨front, hfront⟩
  have hmem : front ++ segments f.name ∈ (visible entries).map Prod.fst := by
    rw [hfront]
    exact List.mem_map.2 ⟨f, hf, rfl⟩
  rcases List.mem_map.1 hmem with ⟨v, hv, heq⟩
  intro seg hseg
  exact visible_plain hv seg (by rw [heq]; exact List.mem_append_right _ hseg)

end Paths

/-! ### Writing and serving -/

theorem join_splitOn (name : List Char) : List.intercalate ['/'] (name.splitOn '/') = name :=
  List.intercalate_splitOn '/'

-- Without empty segments a path is known by its segments, and begins and ends in none.
theorem splitOn_of_plain {name : List Char} (h : ∀ seg ∈ name.splitOn '/', seg ≠ []) :
    name.splitOn '/' = segments name := by
  rw [segments, List.filter_eq_self.2 fun seg hseg => by simpa using h seg hseg]

-- A character of a segment is one of the path.
theorem mem_of_mem_splitOn {name seg : List Char} {c : Char} (hseg : seg ∈ name.splitOn '/')
    (hc : c ∈ seg) : c ∈ name := by
  have hall : ∀ segs : List (List Char), seg ∈ segs → c ∈ List.intercalate ['/'] segs := by
    intro segs hmem
    induction segs with
    | nil => cases hmem
    | cons first segs ih =>
        by_cases hlast : segs = []
        · subst hlast
          rw [List.mem_singleton.1 hmem] at hc
          rwa [List.intercalate_singleton]
        · rw [List.intercalate_cons_of_ne_nil hlast]
          rcases List.mem_cons.1 hmem with rfl | hmem
          · exact List.mem_append_left _ (List.mem_append_left _ hc)
          · exact List.mem_append_right _ (ih hmem)
  rw [← join_splitOn name]
  exact hall _ hseg

theorem dropWhile_slash {name : List Char} (h : ∀ seg ∈ name.splitOn '/', seg ≠ []) :
    name.dropWhile (· == '/') = name := by
  cases name with
  | nil => rfl
  | cons c rest =>
      by_cases hc : c = '/'
      · -- Before a separator in front there is an empty segment.
        subst hc
        have hsplit := List.splitOn_append_cons_self ([] : List Char) rest (a := '/')
        rw [List.nil_append, List.splitOn_nil] at hsplit
        exact absurd rfl (h [] (by rw [hsplit]; simp))
      · rw [List.dropWhile_cons_of_neg (by simpa using hc)]

theorem getLast_ne_slash {name : List Char} (h : ∀ seg ∈ name.splitOn '/', seg ≠ []) :
    name.getLast? ≠ some '/' := by
  intro hlast
  rcases List.getLast?_eq_some_iff.1 hlast with ⟨front, rfl⟩
  have hsplit := List.splitOn_append_cons_self front [] (a := '/')
  rw [List.splitOn_nil] at hsplit
  exact absurd rfl (h [] (by rw [hsplit]; simp))

section Serve

variable {entries : List (Option Entry)} {files : List SiteFile} (h : Accepted entries files)
  (hclash : NoClash entries)
include h hclash

/-- No path is empty, since the index is below nothing. -/
theorem segments_ne_nil {f : SiteFile} (hf : f ∈ files) : segments f.name ≠ [] := by
  intro hnil
  rcases h.index with ⟨index, hindex, hname⟩
  have hbelow := (noClash_iff h).1 hclash f hf index hindex
    (by rw [hnil]; exact List.nil_prefix)
  rw [hnil, hname] at hbelow
  exact absurd hbelow (by decide)

theorem splitOn_name {f : SiteFile} (hf : f ∈ files) :
    ∀ seg ∈ f.name.splitOn '/', seg ≠ [] := by
  rcases h.complete with ⟨folder, -, hcomplete⟩
  have hmem : (inFolder folder f.name, some f.bytes) ∈
      (visible entries).map fun v => (joinPath v.1, v.2) := by
    rw [hcomplete]
    exact List.mem_map.2 ⟨f, hf, rfl⟩
  rcases List.mem_map.1 hmem with ⟨v, hv, heq⟩
  have hpath : joinPath v.1 = inFolder folder f.name := congrArg Prod.fst heq
  by_cases hnil : v.1 = []
  · -- An entry without a path is the only segment of its path, or is in a folder without one.
    intro seg hseg hempty
    rw [hnil] at hpath
    cases folder with
    | none =>
        have hname : f.name = [] := hpath.symm
        exact segments_ne_nil h hclash hf (by rw [hname]; rfl)
    | some folder => exact absurd hpath.symm (by simp [inFolder, joinPath])
  · have hsplit := splitOn_joinPath (fun c hc => (visible_plain hv c hc).2.1) hnil
    have hsome : ∀ seg ∈ (inFolder folder f.name).splitOn '/', seg ≠ [] := by
      rw [← hpath, hsplit]
      exact fun seg hseg => (visible_plain hv seg hseg).1
    cases folder with
    | none => exact hsome
    | some folder =>
        intro seg hseg
        refine hsome seg ?_
        rw [inFolder, List.splitOn_append_cons_self]
        exact List.mem_append_right _ hseg

/-- Paths are told apart by their segments, and none is above another. -/
theorem segments_apart : files.Pairwise fun f g =>
    ¬ segments f.name <+: segments g.name ∧ ¬ segments g.name <+: segments f.name := by
  have hpairs := List.pairwise_map.1 h.distinct
  refine hpairs.imp_of_mem fun {f g} hf hg hne => ?_
  have hjoin : ∀ {f g : SiteFile}, f ∈ files → g ∈ files → segments f.name = segments g.name →
      f.name = g.name := by
    intro f g hf hg heq
    rw [← join_splitOn f.name, ← join_splitOn g.name, splitOn_of_plain (splitOn_name h hclash hf),
      splitOn_of_plain (splitOn_name h hclash hg), heq]
  exact ⟨fun hup => hne (hjoin hf hg ((noClash_iff h).1 hclash f hf g hg hup)),
    fun hup => hne (hjoin hg hf ((noClash_iff h).1 hclash g hg f hf hup)).symm⟩

end Serve

/-- Files that are apart are written one after the other. -/
theorem writeFiles_of_apart {dir : List (List Char)} {files : List SiteFile}
    (written : List SiteFile) (disk : FileTree (List Char) (List UInt8))
    (hname : ∀ f ∈ files, f.name ≠ [] ∧ segments f.name ≠ [])
    (hapart : (written ++ files).Pairwise fun f g =>
      ¬ segments f.name <+: segments g.name ∧ ¬ segments g.name <+: segments f.name)
    (hholds : disk.Holds dir (written.map fun f => (segments f.name, f.bytes))) :
    ∃ disk', writeFiles dir disk files = some disk' ∧
      disk'.Holds dir ((written ++ files).map fun f => (segments f.name, f.bytes)) := by
  induction files generalizing disk written with
  | nil => exact ⟨disk, rfl, by rwa [List.append_nil]⟩
  | cons f files ih =>
      have hf := hname f List.mem_cons_self
      have hothers : ∀ g ∈ written.map fun g => (segments g.name, g.bytes),
          ¬ g.1 <+: segments f.name ∧ ¬ segments f.name <+: g.1 := by
        intro g hg
        rcases List.mem_map.1 hg with ⟨w, hw, rfl⟩
        exact (List.pairwise_append.1 hapart).2.2 w hw f List.mem_cons_self
      rcases FileTree.holds_put f.bytes hholds hf.2 hothers with ⟨next, hput, hnext⟩
      have hmore : (written ++ [f]) ++ files = written ++ f :: files := by
        rw [List.append_assoc, List.singleton_append]
      rcases ih (written ++ [f]) next (fun g hg => hname g (List.mem_cons_of_mem f hg))
        (by rwa [hmore]) (by rwa [List.map_append, List.map_singleton]) with
        ⟨disk', hwrite, hholds'⟩
      rw [hmore] at hholds'
      refine ⟨disk', ?_, hholds'⟩
      have hempty : f.name.isEmpty = false := by simpa using hf.1
      rw [writeFiles, hempty, if_neg Bool.false_ne_true, hput, Option.bind_some, hwrite]

/-- A file of a site is served as it was written. -/
theorem serveFile_of_holds {st : SiteState} {id : List Char} {files : List SiteFile}
    {f : SiteFile} (hid : siteId id = true) (hrow : id ∈ st.rows)
    (hholds : st.disk.Holds (st.sitesDir ++ [id]) (files.map fun f => (segments f.name, f.bytes)))
    (hf : f ∈ files) (hne : segments f.name ≠ [])
    (hsome : ∀ seg ∈ f.name.splitOn '/', seg ≠ [] ∧ isHidden seg = false)
    (hclean : Char.ofNat 0 ∉ f.name ∧ '\\' ∉ f.name) :
    serveFile st id f.name = some f.bytes := by
  have hplain : ∀ seg ∈ f.name.splitOn '/', seg ≠ [] := fun seg hseg => (hsome seg hseg).1
  have hname : f.name ≠ [] := by
    intro hnil
    exact hne (by rw [hnil]; rfl)
  have hempty : f.name.isEmpty = false := by simpa using hname
  have hlast : (f.name.getLast? == some '/') = false := by
    rw [beq_eq_false_iff_ne]
    exact getLast_ne_slash hplain
  have hsegments : ((f.name.splitOn '/').any fun seg => seg.isEmpty || seg == ['.'] ||
      seg == ['.', '.'] || seg.contains '\\' || seg.contains (Char.ofNat 0)) = false := by
    rw [List.any_eq_false]
    intro seg hseg
    have hhidden := (hsome seg hseg).2
    have hdot : seg ≠ ['.'] := by
      rintro rfl
      exact absurd hhidden (by decide)
    have hdots : seg ≠ ['.', '.'] := by
      rintro rfl
      exact absurd hhidden (by decide)
    have hback : '\\' ∉ seg := fun hmem => hclean.2 (mem_of_mem_splitOn hseg hmem)
    have hnul : Char.ofNat 0 ∉ seg := fun hmem => hclean.1 (mem_of_mem_splitOn hseg hmem)
    simp only [Bool.or_eq_true, List.isEmpty_iff, beq_iff_eq, List.contains_iff_mem,
      hplain seg hseg, hdot, hdots, hback, hnul, or_self, not_false_eq_true]
  have hread : st.disk.read (st.sitesDir ++ [id] ++ segments f.name) = some f.bytes :=
    FileTree.read_of_holds hholds hne (List.mem_map.2 ⟨f, hf, rfl⟩)
  have hlisted : st.rows.contains id = true := List.contains_iff_mem.2 hrow
  simp only [serveFile, hid, hlisted, Bool.not_true, Bool.false_eq_true, if_false,
    dropWhile_slash hplain, hempty, hlast, Bool.or_self, hsegments, hread]

/-- An accepted archive can be served file by file exactly if no path is above another. -/
theorem site_contract_iff {entries : List (Option Entry)} {files : List SiteFile}
    (h : unpackZip (some entries) = .ok files) :
    SiteContract entries files ↔ NoClash entries := by
  have haccepted := accepted_of_unpackZip h
  constructor
  · exact fun hcontract => (noClash_iff haccepted).2 hcontract.apart
  · intro hclash
    have hsome : ∀ f ∈ files, ∀ seg ∈ f.name.splitOn '/', seg ≠ [] ∧ isHidden seg = false := by
      intro f hf seg hseg
      have hplain := splitOn_name haccepted hclash hf
      rw [splitOn_of_plain hplain] at hseg
      rcases plain_segments haccepted hf seg hseg with ⟨hne, -, hhidden⟩
      exact ⟨hne, hhidden⟩
    have hname : ∀ f ∈ files, f.name ≠ [] ∧ segments f.name ≠ [] := by
      intro f hf
      have hne := segments_ne_nil haccepted hclash hf
      refine ⟨?_, hne⟩
      intro hnil
      exact hne (by rw [hnil]; rfl)
    refine ⟨haccepted.count, haccepted.size, haccepted.index, haccepted.distinct,
      (noClash_iff haccepted).1 hclash, ?_, ?_, haccepted.complete⟩
    · intro f hf seg hseg
      rcases plain_segments haccepted hf seg hseg with ⟨-, hslash, hhidden⟩
      refine ⟨?_, ?_, hslash⟩
      · rintro rfl
        exact absurd hhidden (by decide)
      · rintro rfl
        exact absurd hhidden (by decide)
    · intro st id txHash hid hfresh
      rcases writeFiles_of_apart [] st.disk hname (segments_apart haccepted hclash) hfresh
        with ⟨disk, hwrite, hholds⟩
      have hcommit : commitSite st id txHash (.ok ()) files =
          (.ok id, { st with spent := txHash :: st.spent, disk, rows := id :: st.rows }) := by
        simp only [commitSite, hwrite]
      rw [hcommit]
      refine ⟨rfl, fun f hf => ?_⟩
      exact serveFile_of_holds hid List.mem_cons_self hholds hf (hname f hf).2 (hsome f hf)
        (haccepted.clean f hf)

namespace Sample

def index : Segment := ⟨"index.html".toList, by decide⟩
def a : Segment := ⟨['a'], by decide⟩
def b : Segment := ⟨['b'], by decide⟩

def file (name : List Segment) (content : List UInt8) : Option Entry :=
  some ⟨false, some name, content.length, some content⟩

/-- An archive in which the path of one file is above that of another. -/
def nested : List (Option Entry) := [file [index] [1], file [a] [2], file [a, b] [3]]

/-- An empty disk. -/
def bare : SiteState := ⟨[], fun _ => none, [], []⟩

def someId : List Char := "0123456789abcdef0123456789abcdef".toList

theorem site_contract_iff_wrapped :
    (SiteContract [file [a, index] [1], file [a, b] [2]] [⟨indexName, [1]⟩, ⟨['b'], [2]⟩] ↔
      NoClash [file [a, index] [1], file [a, b] [2]]) :=
  site_contract_iff (by decide +kernel)

/-- It is accepted and paid for, and cannot be written. -/
theorem nested_accepted : ∃ files, unpackZip (some nested) = .ok files ∧
    ¬ SiteContract nested files ∧
    (commitSite bare someId "0x1" (.ok ()) files).1 = .error (.internal "write") ∧
    (commitSite bare someId "0x1" (.ok ()) files).2.spent = ["0x1"] := by
  refine ⟨[⟨indexName, [1]⟩, ⟨['a'], [2]⟩, ⟨['a', '/', 'b'], [3]⟩], by decide +kernel, ?_, ?_, ?_⟩
  · intro h
    have hequal := h.apart ⟨['a'], [2]⟩ (by decide) ⟨['a', '/', 'b'], [3]⟩ (by decide) (by decide)
    exact absurd hequal (by decide)
  · decide +kernel
  · decide +kernel

end Sample

end Sites

end PocketSkynet
