import PocketSkynet.Lib.Decimal
import PocketSkynet.Lib.Firsts
import PocketSkynet.Lib.Markers
import PocketSkynet.Server.Thumbnails
import PocketSkynet.Server.Validate

/-!
# The Pictures that a Text Shows

A picture or a video is shown by a link: the path of the hosted files, followed by the name of
one. The server reads the names out of plaintext, and the client out of what it is about to seal,
with the same scan. It takes all the letters, digits and full stops behind the path, and asks
whether they are a name. Then it goes on behind them.

So a link is missed when a full stop, a letter or a digit stands directly behind the name, and
when its path begins with the last slash of a path that the scan has taken. The client also takes
extensions that the server does not know, and sends as many names as there are, while the server
refuses a list with more than 32 entries.

## Main definitions

* `isMediaName`, `extract`, `mediaNames`: The server's side.
* `Web.isMediaName`, `Web.hostedNames`: The client's side.
* `linkedNames`: The names that are linked, each once, where it stands first.
* `Agrees`: Both sides read these, and the server accepts them.
* `Unambiguous`: The texts for which that is so.

## Theorems

* `mem_linkedNames`: What is linked.
* `scanNames_eq`: What the scan finds.
* `agrees_iff`: Both sides agree on these texts only.
-/

namespace PocketSkynet

/-! ### Names -/

/-- The two sides of the last separator. -/
def rsplitOnce (sep : Char) (cs : List Char) : Option (List Char × List Char) :=
  (Decimal.splitOnce sep cs.reverse).map fun sides => (sides.2.reverse, sides.1.reverse)

/-- A digest in hexadecimal digits, a full stop, and an extension that is known. -/
def isDigestName (known : String → Bool) (name : String) : Bool :=
  (rsplitOnce '.' name.toList).any fun sides =>
    sides.1.length == 64 && sides.1.all isAsciiHexDigit && known (String.ofList sides.2)

/-- A name that is stored and served. -/
def isMediaName (name : String) : Bool := isDigestName (fun ext => (mimeFor ext).isSome) name

namespace Web

def extensions : List String := ["png", "jpg", "jpeg", "webp", "gif", "mp4", "webm"]

/-- What the client takes for such a name. -/
def isMediaName (name : String) : Bool :=
  isDigestName (fun ext => extensions.contains (String.ofList (ext.toList.map Char.toLower))) name

end Web

/-! ### The scan -/

/-- What stands in front of every name. -/
def urlPath : List Char := "/api/images/".toList

def isNameChar (c : Char) : Bool := c.isAlphanum || c == '.'

theorem urlPath_ne_nil : urlPath ≠ [] := by decide

/-- Take the names out of the rest of a text. -/
def scanNames (valid : String → Bool) (out : List String) (rest : List Char) : List String :=
  match _h : afterFirst urlPath rest with
  | none => out
  | some after =>
      let candidate := String.ofList (after.takeWhile isNameChar)
      scanNames valid
        (if valid candidate && !out.contains candidate then out ++ [candidate] else out)
        (after.dropWhile isNameChar)
termination_by rest.length
decreasing_by
  exact Nat.lt_of_le_of_lt (List.dropWhile_sublist isNameChar).length_le
    (length_afterFirst urlPath_ne_nil _h)

/-- The names that a plaintext message shows. -/
def extract (content : String) : List String := scanNames isMediaName [] content.toList

/-- The names that the client declares. -/
def Web.hostedNames (text : String) : List String :=
  scanNames Web.isMediaName [] text.toList

/-! ### What is declared -/

def maxMedia : Nat := 32

/-- The names that a request declares. -/
def mediaNames (raw : Option (List String)) : Except ApiError (List String) :=
  match raw with
  | none => .ok []
  | some raw => do
      ensure (decide (raw.length ≤ maxMedia))
        (.field "media" "A message can show at most 32 files")
      raw.foldlM (fun out entry => do
        ensure (isMediaName entry)
          (.field "media"
            "Each entry must be a hosted media filename, as returned by POST /api/images")
        return if out.contains entry then out else out ++ [entry]) []

/-- The text of a message that is not refused for its length. -/
def sendable (text : String) : Prop := ∃ content, Validate.messageContent (some text) = .ok content

/-! ### What is meant -/

/-- The name that is linked by what stands behind a path. -/
def linkedName (post : List Char) : Option String :=
  (longest (fun name => isMediaName (String.ofList name)) post).map String.ofList

/-- The names of all links, in their order. -/
def links (text : String) : List String := (posts urlPath text.toList).filterMap linkedName

/-- The names that a text shows, each once, where it stands first. -/
def linkedNames (text : String) : List String := keepUnseen id [] (links text)

/-- Both sides read what a text shows, and the server accepts what the client declares. -/
structure Agrees (text : String) : Prop where
  server : extract text = linkedNames text
  client : Web.hostedNames text = linkedNames text
  accepted : sendable text → ∃ names, mediaNames (some (Web.hostedNames text)) = .ok names

/-- The name of a link, unless something stands behind it that could belong to a name. -/
def clearName (post : List Char) : Option String :=
  (linkedName post).filter fun name => !(post.drop name.length).head?.any isNameChar

/-- The names of the clear links whose path does not begin inside another that is taken. -/
def clearLinks (text : String) : List String :=
  (takenPosts urlPath 0 text.toList).filterMap clearName

/-- All that could belong to a name, behind each path that is taken. -/
def runs (text : String) : List String :=
  (takenPosts urlPath 0 text.toList).map fun post => String.ofList (post.takeWhile isNameChar)

/-- The clear links show the same names in the same order as all links, no run is a name for the
    client alone, and there are not too many names. -/
structure Unambiguous (text : String) : Prop where
  clear : keepUnseen id [] (clearLinks text) = keepUnseen id [] (links text)
  servable : ∀ run ∈ runs text, Web.isMediaName run = true → isMediaName run = true
  few : sendable text → (keepUnseen id [] (clearLinks text)).length ≤ maxMedia

/-! ### Names and runs -/

theorem rsplitOnce_eq_some {sep : Char} {cs before after : List Char}
    (h : rsplitOnce sep cs = some (before, after)) :
    cs = before ++ sep :: after ∧ sep ∉ after := by
  rw [rsplitOnce, Option.map_eq_some_iff] at h
  rcases h with ⟨⟨last, rest⟩, hsplit, hsides⟩
  rcases Decimal.splitOnce_eq_some hsplit with ⟨hcs, hlast⟩
  simp only [Prod.mk.injEq] at hsides
  rcases hsides with ⟨rfl, rfl⟩
  refine ⟨?_, by simpa using hlast⟩
  have hrev := congrArg List.reverse hcs
  rw [List.reverse_reverse, List.reverse_append, List.reverse_cons, List.append_assoc] at hrev
  simpa using hrev

/-- What is before and behind the full stop of a name. -/
theorem isDigestName_iff {known : String → Bool} {name : String} :
    isDigestName known name = true ↔ ∃ stem ext,
      rsplitOnce '.' name.toList = some (stem, ext) ∧ stem.length = 64 ∧
        (∀ c ∈ stem, isAsciiHexDigit c = true) ∧ known (String.ofList ext) = true := by
  simp only [isDigestName, Option.any_eq_true, Bool.and_eq_true, beq_iff_eq, List.all_eq_true,
    Prod.exists, and_assoc]

-- The extensions that are served are letters and digits, and lowercase.
theorem mimeFor_isSome {ext : String} (h : (mimeFor ext).isSome = true) :
    (∀ c ∈ ext.toList, isNameChar c = true) ∧
      Web.extensions.contains (String.ofList (ext.toList.map Char.toLower)) = true := by
  have hmem : ext ∈ hostedMedia.map Prod.snd := by
    rw [mimeFor, Option.isSome_map, List.find?_isSome] at h
    rcases h with ⟨m, hm, heq⟩
    exact List.mem_map.2 ⟨m, hm, by simpa using heq⟩
  have hall : ((hostedMedia.map Prod.snd).all fun ext => ext.toList.all isNameChar &&
      Web.extensions.contains (String.ofList (ext.toList.map Char.toLower))) = true := by
    decide +kernel
  have hone := List.all_eq_true.1 hall ext hmem
  rwa [Bool.and_eq_true, List.all_eq_true] at hone

theorem isNameChar_iff {c : Char} : isNameChar c = true ↔
    (65 ≤ c.toNat ∧ c.toNat ≤ 90) ∨ (97 ≤ c.toNat ∧ c.toNat ≤ 122) ∨
      (48 ≤ c.toNat ∧ c.toNat ≤ 57) ∨ c = '.' := by
  have hkinds : isNameChar c = (((decide (65 ≤ c.val ∧ c.val ≤ 90) ||
      (decide (97 ≤ c.val) && decide (c.val ≤ 122))) ||
      (decide (48 ≤ c.val) && decide (c.val ≤ 57))) || c == '.') := rfl
  rw [hkinds]
  simp only [Bool.or_eq_true, Bool.and_eq_true, decide_eq_true_eq, beq_iff_eq,
    UInt32.le_iff_toNat_le, or_assoc]
  exact Iff.rfl

theorem isNameChar_of_hex {c : Char} (h : isAsciiHexDigit c = true) : isNameChar c = true := by
  rw [isAsciiHexDigit_iff, isLowerHex_iff] at h
  rw [isNameChar_iff]
  omega

/-- A name consists of what the scan takes. -/
theorem nameChars {name : String} (h : isMediaName name = true) :
    ∀ c ∈ name.toList, isNameChar c = true := by
  rcases isDigestName_iff.1 h with ⟨stem, ext, hsplit, -, hhex, hext⟩
  have hchars := (mimeFor_isSome hext).1
  rw [String.toList_ofList] at hchars
  rw [(rsplitOnce_eq_some hsplit).1]
  intro c hc
  rcases List.mem_append.1 hc with hc | hc
  · exact isNameChar_of_hex (hhex c hc)
  · rcases List.mem_cons.1 hc with rfl | hc
    · rfl
    · exact hchars c hc

/-- What the server serves, the client takes for a name. -/
theorem webName_of_isMediaName {name : String} (h : isMediaName name = true) :
    Web.isMediaName name = true := by
  rcases isDigestName_iff.1 h with ⟨stem, ext, hsplit, hlength, hhex, hext⟩
  exact isDigestName_iff.2 ⟨stem, ext, hsplit, hlength, hhex, (mimeFor_isSome hext).2⟩

theorem mem_once {names : List String} {name : String} :
    name ∈ keepUnseen id [] names ↔ name ∈ names := by
  have hmem : name ∈ keepUnseen id [] names ↔ name ∈ names ∧ id name ∉ [] :=
    mem_keepUnseen [] names (fun _ _ _ _ h => h) name
  exact hmem.trans (and_iff_left List.not_mem_nil)

theorem nodup_once (names : List String) : (keepUnseen id [] names).Nodup := by
  have hnodup : ((keepUnseen id [] names).map id).Nodup := (nodup_keepUnseen [] names).1
  rwa [List.map_id] at hnodup

/-- What is linked. -/
theorem linkedName_eq_some_iff {post : List Char} {name : String} :
    linkedName post = some name ↔ name.toList <+: post ∧ isMediaName name = true ∧
      ∀ other, other.toList <+: post → isMediaName other = true → other.length ≤ name.length := by
  rw [linkedName, Option.map_eq_some_iff]
  constructor
  · rintro ⟨cs, hcs, rfl⟩
    rcases longest_eq_some_iff.1 hcs with ⟨hstarts, hvalid, hlongest⟩
    refine ⟨by rwa [String.toList_ofList], hvalid, fun other hother hov => ?_⟩
    have hle := hlongest other.toList hother (by rwa [String.ofList_toList])
    rwa [String.length_toList, ← String.length_ofList (l := cs)] at hle
  · rintro ⟨hstarts, hvalid, hlongest⟩
    refine ⟨name.toList, longest_eq_some_iff.2 ⟨hstarts, ?_, fun other hother hov => ?_⟩,
      String.ofList_toList⟩
    · rwa [String.ofList_toList]
    · have hle := hlongest (String.ofList other) (by rwa [String.toList_ofList]) hov
      rwa [String.length_ofList, ← String.length_toList] at hle

/-- A name that is linked follows the path somewhere in the text, and no longer name does there. -/
theorem mem_linkedNames {text name : String} : name ∈ linkedNames text ↔ ∃ front post,
    text.toList = front ++ urlPath ++ post ∧ name.toList <+: post ∧ isMediaName name = true ∧
      ∀ other, other.toList <+: post → isMediaName other = true → other.length ≤ name.length := by
  simp only [linkedNames, mem_once, links, List.mem_filterMap, mem_posts urlPath_ne_nil,
    linkedName_eq_some_iff]
  constructor
  · rintro ⟨post, ⟨front, htext⟩, hname⟩
    exact ⟨front, post, htext, hname⟩
  · rintro ⟨front, post, htext, hname⟩
    exact ⟨post, ⟨front, htext⟩, hname⟩

-- A name with which the text ends is not the beginning of a longer one.
theorem mem_linkedNames_of_end {text name : String} (front : List Char)
    (htext : text.toList = front ++ urlPath ++ name.toList) (hname : isMediaName name = true) :
    name ∈ linkedNames text := by
  refine mem_linkedNames.2 ⟨front, name.toList, htext, List.prefix_refl _, hname, ?_⟩
  intro other hother _
  have hle := hother.length_le
  rwa [String.length_toList, String.length_toList] at hle

/-! ### What the scan finds -/

-- No path begins inside a run.
theorem head?_urlPath {c : Char} (h : isNameChar c = true) : urlPath.head? ≠ some c := by
  intro hc
  have hslash : c = '/' := (Option.some.inj hc).symm
  rw [hslash] at h
  exact absurd h (by decide)

/-- The runs behind the paths that are taken of the rest of a text. -/
def runsOf (rest : List Char) : List String :=
  (takenPosts urlPath 0 rest).map fun post => String.ofList (post.takeWhile isNameChar)

theorem runs_eq (text : String) : runs text = runsOf text.toList := rfl

theorem runsOf_eq (rest : List Char) : runsOf rest = (afterFirst urlPath rest).elim [] fun after =>
    String.ofList (after.takeWhile isNameChar) :: runsOf (after.dropWhile isNameChar) := by
  rw [runsOf, takenPosts_eq urlPath_ne_nil]
  cases afterFirst urlPath rest with
  | none => rfl
  | some after =>
      have hskip : takenPosts urlPath 0 after =
          takenPosts urlPath 0 (after.dropWhile isNameChar) := by
        conv_lhs => rw [← List.takeWhile_append_dropWhile (p := isNameChar) (l := after)]
        refine takenPosts_skip (fun c hc => head?_urlPath ?_) urlPath_ne_nil
        exact List.mem_takeWhile_imp hc
      rw [Option.elim_some, List.map_cons, hskip, Option.elim_some, runsOf]

/-- The scan finds the runs that are names, each once. -/
theorem scanNames_eq (valid : String → Bool) (out : List String) (rest : List Char) :
    scanNames valid out rest = out ++ keepUnseen id out ((runsOf rest).filter valid) := by
  induction out, rest using scanNames.induct valid with
  | case1 out rest h =>
      rw [scanNames, runsOf_eq, h]
      simp [keepUnseen]
  | case2 out rest after h candidate ih =>
      simp only [dite_eq_ite] at ih
      rw [scanNames, runsOf_eq, h, Option.elim_some]
      refine ih.trans ?_
      by_cases hvalid : valid candidate = true
      · rw [List.filter_cons_of_pos hvalid, keepUnseen, id_eq]
        by_cases hmem : candidate ∈ out
        · -- A name that is known already is not written again.
          have hold : ¬ (valid candidate && !out.contains candidate) = true := by simp [hmem]
          rw [if_neg hold, if_pos hmem]
        · have hnew : (valid candidate && !out.contains candidate) = true := by
            simp [hvalid, hmem]
          rw [if_pos hnew, if_neg hmem, List.append_assoc, List.singleton_append]
          refine congrArg (out ++ candidate :: ·) (keepUnseen_congr (fun name => ?_) _)
          rw [List.mem_append, List.mem_singleton, List.mem_cons, or_comm]
      · have hnone : ¬ (valid candidate && !out.contains candidate) = true := by simp [hvalid]
        rw [List.filter_cons_of_neg hvalid, if_neg hnone]

theorem extract_eq (content : String) :
    extract content = keepUnseen id [] ((runs content).filter isMediaName) :=
  scanNames_eq isMediaName [] content.toList

theorem hostedNames_eq (text : String) :
    Web.hostedNames text = keepUnseen id [] ((runs text).filter Web.isMediaName) :=
  scanNames_eq Web.isMediaName [] text.toList

-- A link is clear if its name is all that the scan takes.
theorem clearName_eq_some_iff {post : List Char} {name : String} : clearName post = some name ↔
    String.ofList (post.takeWhile isNameChar) = name ∧ isMediaName name = true := by
  -- What stands in front of a name belongs to the run.
  have hrun : ∀ name : String, isMediaName name = true → ∀ rest, post = name.toList ++ rest →
      post.takeWhile isNameChar = name.toList ++ rest.takeWhile isNameChar := by
    intro name hname rest hpost
    rw [hpost, List.takeWhile_append_of_pos (nameChars hname)]
  rw [clearName, Option.filter_eq_some_iff, linkedName_eq_some_iff]
  constructor
  · rintro ⟨⟨⟨rest, hpost⟩, hname, -⟩, hclear⟩
    have hstop : rest.takeWhile isNameChar = [] := by
      rw [← hpost, ← String.length_toList, List.drop_left] at hclear
      cases rest with
      | nil => rfl
      | cons c rest => exact List.takeWhile_cons_of_neg (by simpa using hclear)
    rw [hrun name hname rest hpost.symm, hstop, List.append_nil, String.ofList_toList]
    exact ⟨rfl, hname⟩
  · rintro ⟨rfl, hname⟩
    have hsplit := List.takeWhile_append_dropWhile (p := isNameChar) (l := post)
    refine ⟨⟨?_, hname, fun other hother hvalid => ?_⟩, ?_⟩
    · rw [String.toList_ofList]
      exact List.takeWhile_prefix _
    · rcases hother with ⟨rest, hpost⟩
      rw [String.length_ofList, hrun other hvalid rest hpost.symm, List.length_append,
        String.length_toList]
      omega
    · have hstop := List.head?_dropWhile_not isNameChar post
      rw [String.length_ofList]
      conv_lhs => rw [← hsplit, List.drop_left' (by rw [hsplit])]
      cases hhead : (post.dropWhile isNameChar).head? with
      | none => rfl
      | some c =>
          rw [hhead] at hstop
          simpa using hstop

/-- The clear links are the runs that are names. -/
theorem clearLinks_eq (text : String) : clearLinks text = (runs text).filter isMediaName := by
  rw [clearLinks, runs]
  induction takenPosts urlPath 0 text.toList with
  | nil => rfl
  | cons post rest ih =>
      rw [List.map_cons]
      by_cases hname : isMediaName (String.ofList (post.takeWhile isNameChar)) = true
      · rw [List.filterMap_cons_some (clearName_eq_some_iff.2 ⟨rfl, hname⟩),
          List.filter_cons_of_pos hname, ih]
      · have hnone : clearName post = none := by
          refine Option.eq_none_iff_forall_not_mem.2 fun name h => hname ?_
          rcases clearName_eq_some_iff.1 h with ⟨rfl, h⟩
          exact h
        rw [List.filterMap_cons_none hnone, List.filter_cons_of_neg hname, ih]

-- What the server reads is linked.
theorem mem_linkedNames_of_extract {text name : String} (h : name ∈ extract text) :
    name ∈ linkedNames text := by
  have hclear : name ∈ clearLinks text := by
    rwa [extract_eq, ← clearLinks_eq, mem_once] at h
  rcases List.mem_filterMap.1 hclear with ⟨post, hpost, hname⟩
  rw [clearName, Option.filter_eq_some_iff] at hname
  rw [linkedNames, mem_once]
  exact List.mem_filterMap.2 ⟨post, mem_posts_of_taken hpost, hname.1⟩

/-! ### What is accepted -/

-- Names that are different are taken one after the other.
theorem foldlM_names {out raw : List String} (hnames : ∀ name ∈ raw, isMediaName name = true)
    (hnodup : (out ++ raw).Nodup) : raw.foldlM (fun out entry => do
      ensure (isMediaName entry)
        (.field "media"
          "Each entry must be a hosted media filename, as returned by POST /api/images")
      return if out.contains entry then out else out ++ [entry]) out =
    (.ok (out ++ raw) : Except ApiError (List String)) := by
  induction raw generalizing out with
  | nil => rw [List.append_nil]; rfl
  | cons name raw ih =>
      have hfresh : name ∉ out := fun h =>
        (List.nodup_append.1 hnodup).2.2 name h name List.mem_cons_self rfl
      have hone : isMediaName name = true := hnames name List.mem_cons_self
      rw [List.append_cons] at hnodup
      have hrest := ih (fun n hn => hnames n (List.mem_cons_of_mem _ hn)) hnodup
      simpa [List.foldlM_cons, ensure, hone, hfresh, bind, Except.bind, pure, Except.pure]
        using hrest

theorem mediaNames_of_few {raw : List String} (hnames : ∀ name ∈ raw, isMediaName name = true)
    (hnodup : raw.Nodup) (hfew : raw.length ≤ maxMedia) : mediaNames (some raw) = .ok raw := by
  rw [mediaNames, ensure, if_pos (decide_eq_true hfew)]
  exact foldlM_names hnames hnodup

theorem few_of_mediaNames {raw names : List String} (h : mediaNames (some raw) = .ok names) :
    raw.length ≤ maxMedia := by
  rw [mediaNames, bind_eq_ok] at h
  rcases h with ⟨u, hfew, -⟩
  exact of_decide_eq_true ((ensure_eq_ok _ _ u).1 hfew)

/-- Both sides agree on these texts only. -/
theorem agrees_iff (text : String) : Agrees text ↔ Unambiguous text := by
  have hextract : extract text = keepUnseen id [] (clearLinks text) := by
    rw [extract_eq, clearLinks_eq]
  -- The two sides differ by the runs that are names for the client alone.
  have hsame : (∀ run ∈ runs text, Web.isMediaName run = true → isMediaName run = true) →
      Web.hostedNames text = extract text := by
    intro hservable
    rw [hostedNames_eq, extract_eq]
    refine congrArg (keepUnseen id []) (List.filter_congr fun run hrun => ?_)
    rw [Bool.eq_iff_iff]
    exact ⟨hservable run hrun, webName_of_isMediaName⟩
  constructor
  · intro h
    have hclear : keepUnseen id [] (clearLinks text) = keepUnseen id [] (links text) :=
      hextract.symm.trans h.server
    refine ⟨hclear, fun run hrun hweb => ?_, fun hsend => ?_⟩
    · have hmem : run ∈ Web.hostedNames text := by
        rw [hostedNames_eq, mem_once]
        exact List.mem_filter.2 ⟨hrun, hweb⟩
      rw [h.client, ← h.server, extract_eq, mem_once] at hmem
      exact (List.mem_filter.1 hmem).2
    · rcases h.accepted hsend with ⟨names, hnames⟩
      have hfew := few_of_mediaNames hnames
      rwa [h.client, ← h.server, hextract] at hfew
  · intro h
    have hserver : extract text = linkedNames text := hextract.trans h.clear
    refine ⟨hserver, (hsame h.servable).trans hserver, fun hsend => ?_⟩
    rw [hsame h.servable]
    refine ⟨_, mediaNames_of_few (fun name hname => ?_) ?_ ?_⟩
    · rw [extract_eq, mem_once] at hname
      exact (List.mem_filter.1 hname).2
    · rw [extract_eq]
      exact nodup_once _
    · rw [hextract]
      exact h.few hsend

/-! ### Links that are missed -/

/-- The name of a file whose digest consists of one digit. -/
def digestName (c : Char) (ext : String) : String :=
  String.ofList (List.replicate 64 c ++ '.' :: ext.toList)

def linkTo (name : String) : String := String.ofList (urlPath ++ name.toList)

-- Such a name is one that is served, if its extension is.
theorem isMediaName_digestName {c : Char} {ext : String} (hc : isAsciiHexDigit c = true)
    (hdot : '.' ∉ ext.toList) (hext : (mimeFor ext).isSome = true) :
    isMediaName (digestName c ext) = true := by
  refine isDigestName_iff.2 ⟨List.replicate 64 c, ext.toList, ?_, List.length_replicate, ?_, ?_⟩
  · have hrev : (List.replicate 64 c ++ '.' :: ext.toList).reverse =
        ext.toList.reverse ++ '.' :: (List.replicate 64 c).reverse := by simp
    rw [digestName, String.toList_ofList, rsplitOnce, hrev,
      Decimal.splitOnce_append (by simpa using hdot)]
    simp
  · intro d hd
    rwa [List.eq_of_mem_replicate hd]
  · rwa [String.ofList_toList]

theorem digestName_inj {c c' : Char} {ext ext' : String}
    (h : digestName c ext = digestName c' ext') : c = c' ∧ ext = ext' := by
  have hlist := String.ofList_injective h
  have hlength : (List.replicate 64 c).length = (List.replicate 64 c').length := by
    rw [List.length_replicate, List.length_replicate]
  rcases List.append_inj hlist hlength with ⟨hstem, hext⟩
  exact ⟨(List.replicate_right_inj (by decide)).1 hstem,
    String.toList_inj.1 (List.cons.inj hext).2⟩

/-- The digits and extensions of thirty-three pictures. -/
def manyKinds : List (Char × String) :=
  "0123456789abcdef".toList.flatMap (fun c => [(c, "png"), (c, "jpg")]) ++ [('f', "gif")]

def manyNames : List String := manyKinds.map fun kind => digestName kind.1 kind.2

theorem manyNames_spec : (∀ name ∈ manyNames, isMediaName name = true) ∧ manyNames.Nodup := by
  have hkinds : ∀ kind ∈ manyKinds, isAsciiHexDigit kind.1 = true ∧ '.' ∉ kind.2.toList ∧
      (mimeFor kind.2).isSome = true := by decide +kernel
  have hnodup : manyKinds.Nodup := by decide +kernel
  constructor
  · intro name hname
    rcases List.mem_map.1 hname with ⟨kind, hkind, rfl⟩
    exact isMediaName_digestName (hkinds kind hkind).1 (hkinds kind hkind).2.1
      (hkinds kind hkind).2.2
  · refine hnodup.map fun kind kind' h => ?_
    exact Prod.ext (digestName_inj h).1 (digestName_inj h).2

/-- A link to each of some pictures, with blanks between them. -/
def linkChars (names : List String) : List Char :=
  names.flatMap fun name => urlPath ++ name.toList ++ [' ']

-- The runs of such a text are the names.
theorem runsOf_linkChars {names : List String}
    (hnames : ∀ name ∈ names, isMediaName name = true) : runsOf (linkChars names) = names := by
  induction names with
  | nil => rfl
  | cons name names ih =>
      have hrun : ∀ rest : List Char,
          (name.toList ++ ' ' :: rest).takeWhile isNameChar = name.toList ∧
            (name.toList ++ ' ' :: rest).dropWhile isNameChar = ' ' :: rest := by
        intro rest
        have hchars := nameChars (hnames name List.mem_cons_self)
        rw [List.takeWhile_append_of_pos hchars, List.dropWhile_append_of_pos hchars]
        exact ⟨List.append_nil _, rfl⟩
      have hfirst : afterFirst urlPath (linkChars (name :: names)) =
          some (name.toList ++ ' ' :: linkChars names) := by
        have hcs : linkChars (name :: names) =
            urlPath ++ (name.toList ++ ' ' :: linkChars names) := by
          simp [linkChars]
        rw [hcs]
        exact if_pos (List.isPrefixOf_iff_prefix.2 (List.prefix_append _ _))
      have hblank : runsOf (' ' :: linkChars names) = runsOf (linkChars names) := rfl
      rw [runsOf_eq, hfirst, Option.elim_some, (hrun _).1, (hrun _).2, hblank,
        ih fun n hn => hnames n (List.mem_cons_of_mem _ hn), String.ofList_toList]

theorem length_linkChars {n : Nat} {names : List String} (h : ∀ name ∈ names, name.length ≤ n) :
    (linkChars names).length ≤ (n + 13) * names.length := by
  induction names with
  | nil => exact Nat.le_refl 0
  | cons name names ih =>
      have hfirst := h name List.mem_cons_self
      have hrest := ih fun m hm => h m (List.mem_cons_of_mem _ hm)
      have hpath : urlPath.length = 12 := by decide
      rw [linkChars, List.flatMap_cons, List.length_append, List.length_append, List.length_append,
        hpath, String.length_toList, List.length_singleton, List.length_cons, Nat.mul_succ]
      rw [linkChars] at hrest
      omega

/-- A text with links is sent, unless it is too long. -/
theorem sendable_linkChars {names : List String} (hsome : names ≠ [])
    (h : (linkChars names).length ≤ 5000) : sendable (String.ofList (linkChars names)) := by
  have hslash : '/' ∈ linkChars names := by
    cases names with
    | nil => exact absurd rfl hsome
    | cons name names => exact List.mem_append_left _ List.mem_cons_self
  have hmost := (length_trim_le (linkChars names)).trans h
  have hleast : (trim (linkChars names)).length ≠ 0 :=
    List.length_pos_iff.2 (List.ne_nil_of_mem (mem_trim hslash (by decide)))|>.ne'
  refine ⟨String.ofList (trim (linkChars names)), ?_⟩
  simp [Validate.messageContent, orRefuse, ensure, hmost, hleast, bind, Except.bind, pure,
    Except.pure]

/-- A link at the end of a sentence, one behind a path that overlaps another, an extension that
    only the client knows, and too many pictures. -/
theorem links_missed :
    (extract (linkTo (digestName 'a' "png") ++ ".") = [] ∧
      linkedNames (linkTo (digestName 'a' "png") ++ ".") = [digestName 'a' "png"]) ∧
    (extract ("/api/images" ++ linkTo (digestName 'a' "png")) = [] ∧
      digestName 'a' "png" ∈ linkedNames ("/api/images" ++ linkTo (digestName 'a' "png"))) ∧
    (Web.hostedNames (linkTo (digestName 'a' "jpeg")) = [digestName 'a' "jpeg"] ∧
      extract (linkTo (digestName 'a' "jpeg")) = [] ∧
      (mediaNames (some [digestName 'a' "jpeg"])).toOption = none) ∧
    (Web.hostedNames (String.ofList (linkChars manyNames)) = manyNames ∧
      sendable (String.ofList (linkChars manyNames)) ∧
      ∀ names, mediaNames (some manyNames) ≠ .ok names) ∧
    ¬ ∀ text, Agrees text := by
  have hmissed : extract (linkTo (digestName 'a' "png") ++ ".") = [] ∧
      linkedNames (linkTo (digestName 'a' "png") ++ ".") = [digestName 'a' "png"] := by
    rw [extract_eq]
    decide +kernel
  refine ⟨hmissed, ?_, ?_, ⟨?_, ?_, ?_⟩, fun h => ?_⟩
  · rw [extract_eq]
    refine ⟨by decide +kernel, mem_linkedNames_of_end "/api/images".toList ?_ ?_⟩
    · rw [String.toList_append, linkTo, String.toList_ofList, String.toList_ofList,
        List.append_assoc]
    · exact isMediaName_digestName (by decide) (by decide) (by decide)
  · rw [hostedNames_eq, extract_eq]
    decide +kernel
  · rcases manyNames_spec with ⟨hnames, hnodup⟩
    have hweb : manyNames.filter Web.isMediaName = manyNames :=
      List.filter_eq_self.2 fun name hname => webName_of_isMediaName (hnames name hname)
    rw [hostedNames_eq, runs_eq, String.toList_ofList, runsOf_linkChars hnames, hweb]
    exact keepUnseen_of_nodup (by rwa [List.map_id]) fun _ _ => List.not_mem_nil
  · refine sendable_linkChars (by decide) ((@length_linkChars 69 _ ?_).trans (by decide))
    intro name hname
    rcases List.mem_map.1 hname with ⟨kind, hkind, rfl⟩
    have hext : ∀ kind ∈ manyKinds, kind.2.length ≤ 4 := by decide
    have hlength := hext kind hkind
    rw [digestName, String.length_ofList, List.length_append, List.length_replicate,
      List.length_cons, String.length_toList]
    omega
  · exact fun names h => absurd (few_of_mediaNames h) (by decide +kernel)
  · have hserver := (h (linkTo (digestName 'a' "png") ++ ".")).server
    rw [hmissed.1, hmissed.2] at hserver
    cases hserver

end PocketSkynet
