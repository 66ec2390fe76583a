import PocketSkynet.Lib.WebUrl
import PocketSkynet.Server.Thumbnails

/-!
# Importing Media

The server fetches a picture or a video that a provider hosts, and only from hosts of a list. It
tells the host of an address by a splitter of its own, and the client that fetches reads the
address by the standard for web addresses. The two agree where no backslash stands in front of
the path: to the standard a backslash begins the path, and to the splitter it does not, so an at
sign behind a backslash lets any host pass for one of the list.

## Main definitions

* `isAllowedSource`: What the splitter lets through.
* `importMedia`: The host that is contacted, and what is handed on to be stored.
* `Allowed`: A host of the list, or one below it.
* `ContactsAllowed`: No other host is contacted for an address.
* `ReadAlike`: No backslash stands in the authority, or what is in front of it is let through.

## Theorems

* `accepted_split`: What the splitter lets through has a name of the list in it.
* `contacts_allowed_iff`: No other host is contacted where the address is read alike.
-/

namespace PocketSkynet

namespace MediaImport

open WebUrl

/-- The hosts whose media this server will fetch. -/
def importHosts : List (List Char) :=
  ["x.ai".toList, "oaiusercontent.com".toList, "googleapis.com".toList]

/-- What ends the authority for the splitter. -/
def splitsSource (c : Char) : Bool := c == '/' || c == '?' || c == '#'

/-- The host is told as what stands between the last at sign and a colon. -/
def isAllowedSource (url : List Char) : Bool :=
  if "https://".toList.isPrefixOf url then
    let rest := (url.drop 8).takeWhile (!splitsSource ·)
    let host := ((behindLast '@' rest).takeWhile (· ≠ ':')).map Char.toLower
    !host.isEmpty && importHosts.any fun h => host == h || ('.' :: h).isSuffixOf host
  else false

/-- What a provider answers with. The body may fail to arrive. -/
structure Answer where
  status : ℕ
  contentType : String
  contentLength : Option ℕ
  body : Except String (List UInt8)

/-- The client that fetches: how it reads addresses, what it says of those it cannot read, and
    what it is answered. -/
structure Client where
  rules : HostRules
  refusal : List Char → String
  fetch : Host → List Char → Except String Answer

/-- What is made of an answer: the extension and the bytes that are stored. -/
def receive (answer : Except String Answer) : Except ApiError (String × List UInt8) := do
  let response ← answer.mapError fun e => .badRequest ("Could not fetch that URL: " ++ e)
  ensure (decide (200 ≤ response.status ∧ response.status < 300)) (.badRequest
    ("The provider answered HTTP " ++ toString response.status ++
      " for that URL — it may have expired"))
  let ext ← orRefuse (extensionFor response.contentType)
    (.badRequest "That URL does not answer with an image or a video")
  ensure (response.contentLength.all fun len => len ≤ capFor ext)
    (.badRequest "That file is too large to host")
  let bytes ← response.body.mapError fun e => .badRequest ("Could not read that URL: " ++ e)
  return (ext, bytes)

/-- The host that is contacted for an address, if any, and what comes of it. No redirect is
    followed. -/
def importMedia (c : Client) (url : List Char) :
    Option Host × Except ApiError (String × List UInt8) :=
  if !isAllowedSource url then
    (none, .error (.badRequest "Only media URLs from a supported AI provider can be imported"))
  else
    match contacted c.rules url with
    | none => (none, .error (.badRequest ("Could not fetch that URL: " ++ c.refusal url)))
    | some host => (some host, receive (c.fetch host url))

/-- A host of the list, or one below it. -/
def Allowed (H : Host) : Prop :=
  ∃ h ∈ importHosts, ∃ d, H = .domain d ∧ (d = h ∨ ∃ sub, d = sub ++ '.' :: h)

/-- No other host is contacted for an address. -/
def ContactsAllowed (c : Client) (url : List Char) : Prop :=
  ∀ H, (importMedia c url).1 = some H → Allowed H

/-- The authority as the standard reads it. -/
def authorityOf (url : List Char) : List Char := authority ((cleaned url).drop 6)

/-- Up to its path an address has no backslash, or what stands in front of the backslash and
    behind the leading slashes is let through by itself. -/
def ReadAlike (url : List Char) : Prop :=
  '\\' ∉ (url.drop 8).takeWhile (!splitsSource ·) ∨
    isAllowedSource ("https://".toList ++ authorityOf url) = true

/-- The authority is written in ASCII characters, and without escapes. -/
def WrittenPlainly (url : List Char) : Prop :=
  (∀ c ∈ authorityOf url, c.toNat < 128) ∧ '%' ∉ authorityOf url

/-- What the splitter lets through has a name of the list in it, behind the user and in front of
    the port. -/
theorem accepted_split {url : List Char} (h : isAllowedSource url = true) :
    ∃ user name port tail t, url = "https://".toList ++ (user ++ (name ++ (port ++ tail))) ∧
      (url.drop 8).takeWhile (!splitsSource ·) = user ++ (name ++ port) ∧
      (user = [] ∨ user.getLast? = some '@') ∧ '@' ∉ name ++ port ∧ ':' ∉ name ∧
      (port = [] ∨ port.head? = some ':') ∧ (name = t ∨ ∃ sub, name = sub ++ '.' :: t) ∧
      t.map Char.toLower ∈ importHosts ∧
      ∀ s, tail.head? = some s → splitsSource s = true := by
  rw [isAllowedSource] at h
  by_cases hscheme : "https://".toList.isPrefixOf url = true
  swap
  · rw [if_neg hscheme] at h
    cases h
  rw [if_pos hscheme] at h
  rcases List.isPrefixOf_iff_prefix.1 hscheme with ⟨rest, rfl⟩
  have hdrop : ("https://".toList ++ rest).drop 8 = rest := rfl
  rw [hdrop] at h ⊢
  simp only [Bool.and_eq_true, List.any_eq_true] at h
  rcases h with ⟨-, target, htarget, hmatch⟩
  rcases behindLast_split '@' (rest.takeWhile (!splitsSource ·)) with ⟨user, hpart, huser, hat⟩
  have hhost := (List.takeWhile_append_dropWhile (p := (· ≠ ':'))
    (l := behindLast '@' (rest.takeWhile (!splitsSource ·)))).symm
  generalize behindLast '@' (rest.takeWhile (!splitsSource ·)) = host at *
  have hcolon : ':' ∉ host.takeWhile (· ≠ ':') := fun hmem => by
    simpa using List.mem_takeWhile_imp hmem
  have hport : host.dropWhile (· ≠ ':') = [] ∨ (host.dropWhile (· ≠ ':')).head? = some ':' := by
    have hhead := List.head?_dropWhile_not (· ≠ ':') host
    cases hdropped : host.dropWhile (· ≠ ':') with
    | nil => exact Or.inl rfl
    | cons c port =>
        rw [hdropped] at hhead
        exact Or.inr (by simpa using hhead)
  have htail : ∀ s, (rest.dropWhile (!splitsSource ·)).head? = some s → splitsSource s = true := by
    intro s hs
    have hhead := List.head?_dropWhile_not (!splitsSource ·) rest
    rw [hs] at hhead
    simpa using hhead
  have hname : ∃ t, (host.takeWhile (· ≠ ':') = t ∨
      ∃ sub, host.takeWhile (· ≠ ':') = sub ++ '.' :: t) ∧ t.map Char.toLower ∈ importHosts := by
    rw [Bool.or_eq_true, beq_iff_eq, List.isSuffixOf_iff_suffix] at hmatch
    rcases hmatch with heq | ⟨lowered, hlowered⟩
    · exact ⟨_, Or.inl rfl, heq ▸ htarget⟩
    · rcases List.map_eq_append_iff.1 hlowered.symm with ⟨sub, dotted, hsplit, -, hdotted⟩
      rcases List.map_eq_cons_iff.1 hdotted with ⟨d, t, rfl, hd, ht⟩
      refine ⟨t, Or.inr ⟨sub, ?_⟩, ht ▸ htarget⟩
      rw [hsplit, toLower_eq_dot.1 hd]
  rcases hname with ⟨t, hname, ht⟩
  refine ⟨user, _, _, rest.dropWhile (!splitsSource ·), t, ?_, ?_, huser, ?_, hcolon, hport, hname,
    ht, htail⟩
  · rw [← List.append_assoc (host.takeWhile _), ← hhost, ← List.append_assoc user, ← hpart,
      List.takeWhile_append_dropWhile]
  · rw [← hhost, ← hpart]
  · rw [← hhost]
    exact hat

-- The names of the list are letters and dots, and end in a letter that no address has.
theorem importHosts_letters {t : List Char} (ht : t.map Char.toLower ∈ importHosts) :
    (∀ d ∈ t, isHostLetter d = true) ∧
      ∃ c, t.getLast? = some c ∧ IpAddr.isAddrChar c = false := by
  have hhosts : ∀ h ∈ importHosts, h.all isHostLetter = true ∧
      (h.getLast? = some 'i' ∨ h.getLast? = some 'm') := by
    intro h hh
    simp only [importHosts, List.mem_cons, List.not_mem_nil, or_false] at hh
    rcases hh with rfl | rfl | rfl <;> decide
  rcases hhosts _ ht with ⟨hletters, hlast⟩
  constructor
  · intro d hd
    rw [← isHostLetter_toLower]
    exact List.all_eq_true.1 hletters _ (List.mem_map_of_mem hd)
  · have hend : ∃ c, t.getLast? = some c ∧ (c.toLower = 'i' ∨ c.toLower = 'm') := by
      rw [List.getLast?_map] at hlast
      cases hc : t.getLast? with
      | none =>
          rw [hc] at hlast
          rcases hlast with h | h <;> cases h
      | some c =>
          rw [hc] at hlast
          exact ⟨c, rfl, hlast.imp (fun h => Option.some.inj h) fun h => Option.some.inj h⟩
    rcases hend with ⟨c, hc, hlower⟩
    refine ⟨c, hc, ?_⟩
    have hcode : c.toNat = 105 ∨ c.toNat = 109 ∨ c.toNat = 73 ∨ c.toNat = 77 := by
      have hi : 'i'.toNat = 105 := rfl
      have hm : 'm'.toNat = 109 := rfl
      rcases toLower_cases c with hself | ⟨-, -, hshift⟩
      · rw [hself] at hlower
        rcases hlower with rfl | rfl <;> omega
      · rcases hlower with h | h <;> rw [h] at hshift <;> omega
    have hall : ∀ n ∈ [105, 109, 73, 77], IpAddr.isAddrChar (Char.ofNat n) = false := by decide
    have hletter := hall c.toNat (by simpa using hcode)
    rwa [Char.ofNat_toNat] at hletter

-- What is let through is an `https` address.
theorem contacted_accepted {R : HostRules} {url : List Char} (h : isAllowedSource url = true) :
    contacted R url = hostOf R (authorityOf url) := by
  rcases accepted_split h with ⟨user, name, port, tail, t, rfl, -⟩
  rw [contacted, authorityOf, cleaned_https]
  rfl

theorem host_importMedia (c : Client) (url : List Char) :
    (importMedia c url).1 = if isAllowedSource url then contacted c.rules url else none := by
  rw [importMedia]
  by_cases hallowed : isAllowedSource url = true
  · rw [hallowed, if_pos rfl]
    cases contacted c.rules url <;> rfl
  · rw [if_pos (by simpa using hallowed), if_neg hallowed]

/-- Without a backslash in the authority the host that is contacted is the one that was told. -/
theorem allowed_of_no_backslash {R : HostRules} {url : List Char} {H : Host}
    (hallowed : isAllowedSource url = true)
    (hback : '\\' ∉ (url.drop 8).takeWhile (!splitsSource ·)) (h : contacted R url = some H) :
    Allowed H := by
  rcases accepted_split hallowed with
    ⟨user, name, port, tail, t, rfl, hpart, huser, hat, hcolon, hport, hname, ht, htail⟩
  rcases importHosts_letters ht with ⟨hletters, c, hlast, hc⟩
  have hinner : ∀ d ∈ user ++ (name ++ port), endsAuthority d = false := by
    intro d hd
    rw [← hpart] at hd
    have hsplits := List.mem_takeWhile_imp hd
    have hne : d ≠ '\\' := fun heq => hback (heq ▸ hd)
    simp only [splitsSource, Bool.not_eq_true', Bool.or_eq_false_iff] at hsplits
    simp only [endsAuthority, isSlash, hsplits.1.1, hsplits.1.2, hsplits.2, Bool.or_false,
      Bool.false_or]
    exact beq_eq_false_iff_ne.2 hne
  have hends : ∀ s, tail.head? = some s → endsAuthority s = true := by
    intro s hs
    have hsplits := htail s hs
    simp only [splitsSource, Bool.or_eq_true] at hsplits
    simp only [endsAuthority, isSlash, Bool.or_eq_true]
    exact hsplits.imp_left fun h => h.imp_left Or.inl
  rcases contacted_of_suffix huser hat hcolon hport hname hletters hlast hc hinner hends h with
    ⟨d, hd, hsuffix⟩
  exact ⟨_, ht, d, hd, hsuffix⟩

-- No authority has what ends one.
theorem mem_authorityOf {url : List Char} {c : Char} (hc : c ∈ authorityOf url) :
    endsAuthority c = false := by
  simpa using List.mem_takeWhile_imp hc

/-- Nor has an authority that is let through by itself another host. -/
theorem allowed_of_front {R : HostRules} {url : List Char} {H : Host}
    (hfront : isAllowedSource ("https://".toList ++ authorityOf url) = true)
    (h : hostOf R (authorityOf url) = some H) : Allowed H := by
  rcases accepted_split hfront with
    ⟨user, name, port, tail, t, hsplit, hpart, huser, hat, hcolon, hport, hname, ht, htail⟩
  rcases importHosts_letters ht with ⟨hletters, c, hlast, hc⟩
  have hauth : authorityOf url = user ++ (name ++ port) := by
    rw [← hpart]
    refine (List.takeWhile_eq_self_iff.2 fun d hd => ?_).symm
    have hends := mem_authorityOf hd
    simp only [endsAuthority, isSlash, Bool.or_eq_false_iff] at hends
    simp [splitsSource, hends]
  rw [hauth] at h
  rcases hostOf_of_suffix huser hat hcolon hport hname hletters hlast hc h with ⟨d, hd, hsuffix⟩
  exact ⟨_, ht, d, hd, hsuffix⟩

/-- An authority that is written plainly and names an allowed host is let through by itself. -/
theorem front_of_allowed {R : HostRules} {url : List Char} {H : Host}
    (hplain : WrittenPlainly url) (h : hostOf R (authorityOf url) = some H) (hH : Allowed H) :
    isAllowedSource ("https://".toList ++ authorityOf url) = true := by
  rcases hH with ⟨target, htarget, d, rfl, hd⟩
  have hname := hostOf_domain hplain.1 hplain.2 h
  have hpart : (authorityOf url).takeWhile (!splitsSource ·) = authorityOf url := by
    refine List.takeWhile_eq_self_iff.2 fun c hc => ?_
    have hends := mem_authorityOf hc
    simp only [endsAuthority, isSlash, Bool.or_eq_false_iff] at hends
    simp [splitsSource, hends]
  have hne : d ≠ [] := by
    rintro rfl
    rcases hd with rfl | ⟨sub, hsub⟩
    · exact absurd htarget (by decide)
    · cases sub <;> cases hsub
  have hscheme : "https://".toList.isPrefixOf ("https://".toList ++ authorityOf url) = true := by
    rw [List.isPrefixOf_iff_prefix]
    exact List.prefix_append _ _
  have hdrop : ("https://".toList ++ authorityOf url).drop 8 = authorityOf url := rfl
  rw [isAllowedSource, if_pos hscheme, hdrop, hpart]
  simp only [hname, Bool.and_eq_true]
  refine ⟨by simpa using hne, List.any_eq_true.2 ⟨target, htarget, ?_⟩⟩
  rw [Bool.or_eq_true, beq_iff_eq, List.isSuffixOf_iff_suffix]
  rcases hd with hsame | ⟨sub, hsub⟩
  · exact Or.inl hsame
  · exact Or.inr ⟨sub, hsub.symm⟩

/-- No other host is contacted where the splitter and the standard read the address alike. They
    have to, if the authority is written plainly and names a host. -/
theorem contacts_allowed_iff (c : Client) (url : List Char) :
    ((isAllowedSource url = true → ReadAlike url) → ContactsAllowed c url) ∧
      (WrittenPlainly url → (contacted c.rules url).isSome →
        (ContactsAllowed c url ↔ (isAllowedSource url = true → ReadAlike url))) := by
  have henough : (isAllowedSource url = true → ReadAlike url) → ContactsAllowed c url := by
    intro h H hcontacted
    rw [host_importMedia] at hcontacted
    by_cases hallowed : isAllowedSource url = true
    · rw [if_pos hallowed] at hcontacted
      rcases h hallowed with hback | hfront
      · exact allowed_of_no_backslash hallowed hback hcontacted
      · rw [contacted_accepted hallowed] at hcontacted
        exact allowed_of_front hfront hcontacted
    · rw [if_neg hallowed] at hcontacted
      cases hcontacted
  refine ⟨henough, fun hplain hhost => ⟨fun h hallowed => Or.inr ?_, henough⟩⟩
  rcases Option.isSome_iff_exists.1 hhost with ⟨H, hH⟩
  have hH' := h H (by rw [host_importMedia, if_pos hallowed, hH])
  rw [contacted_accepted hallowed] at hH
  exact front_of_allowed hplain hH hH'

/-- A client for ASCII names that is answered with nothing. -/
def sampleClient : Client := ⟨.ascii, fun _ => "builder error", fun _ _ => .error "timed out"⟩

def sampleUrl : List Char := "https://vidgen.x.ai/xai-video/abc.mp4".toList

def forgedUrl : List Char := "https://evil.example\\@x.ai/abc.mp4".toList

theorem contacted_forgedUrl :
    contacted .ascii forgedUrl = some (.domain "evil.example".toList) := by
  have hauth : authority ((cleaned forgedUrl).drop 6) = "evil.example".toList := by decide +kernel
  have hdecode := @decodeName_of_no_percent "evil.example".toList (by decide)
  have hparse : parseHost .ascii "evil.example".toList = some (.domain "evil.example".toList) := by
    rw [parseHost, hdecode]
    decide +kernel
  have hscheme : ((cleaned forgedUrl).take 6).map Char.toLower = "https:".toList := by
    decide +kernel
  rw [contacted]
  simp only [hscheme, if_true, hauth]
  exact hparse

theorem contacts_allowed_sample : ContactsAllowed sampleClient sampleUrl ∧
    (ContactsAllowed sampleClient forgedUrl ↔
      (isAllowedSource forgedUrl = true → ReadAlike forgedUrl)) := by
  refine ⟨(contacts_allowed_iff sampleClient sampleUrl).1 fun _ => Or.inl (by decide +kernel), ?_⟩
  refine (contacts_allowed_iff sampleClient forgedUrl).2 ?_ ?_
  · have hplain : ((authorityOf forgedUrl).all fun c => decide (c.toNat < 128)) = true := by
      decide +kernel
    exact ⟨fun c hc => of_decide_eq_true (List.all_eq_true.1 hplain c hc), by decide +kernel⟩
  · exact Option.isSome_iff_exists.2 ⟨_, contacted_forgedUrl⟩

/-- An at sign behind a backslash lets any host pass for one of the list. -/
theorem forged_host_contacted : ¬ ContactsAllowed sampleClient forgedUrl := by
  intro h
  have hallowed : isAllowedSource forgedUrl = true := by decide +kernel
  have hcontacted : (importMedia sampleClient forgedUrl).1 =
      some (.domain "evil.example".toList) := by
    rw [host_importMedia, if_pos hallowed]
    exact contacted_forgedUrl
  rcases h _ hcontacted with ⟨target, htarget, d, hd, hsuffix⟩
  cases hd
  have hnone : importHosts.all (fun h => decide ("evil.example".toList ≠ h) &&
      !h.isSuffixOf "evil.example".toList) = true := by decide +kernel
  have hnot := List.all_eq_true.1 hnone target htarget
  rw [Bool.and_eq_true, decide_eq_true_eq, Bool.not_eq_true'] at hnot
  rcases hsuffix with heq | ⟨sub, hsub⟩
  · exact hnot.1 heq
  · have hend : target.isSuffixOf "evil.example".toList = true := by
      rw [List.isSuffixOf_iff_suffix]
      exact ⟨sub ++ ['.'], by rw [hsub, List.append_assoc, List.singleton_append]⟩
    rw [hnot.2] at hend
    cases hend

end MediaImport

end PocketSkynet
