import PocketSkynet.Tss.ShareFile

/-!
# The Seal of a Share File

The seal of a file is a tag over its header, its IV and its ciphertext. The header has
texts of any length and numbers of a fixed width. What the seal covers tells every field
all the same: a zero byte follows each text, and no text that is accepted has one.

Tags are taken to be ideal. So a file whose seal verifies says what some sealed file says,
and it opens to the share that was sealed.

## Main definitions

* `SealedAs`, `Seal`: What sealing makes of a share, and of a wallet.
* `Untouched`, `Genuine`: A file as it was sealed, up to how its bytes are spelled.
* `Ideal`: No seal verifies over what has not been sealed.

## Theorems

* `macInput_inj`: What the seal covers tells every field.
* `openFile_untouched`: An untouched file opens to the share that was sealed.
* `untouched_of_openFile`: What opens is what has been sealed.
-/

namespace PocketSkynet

namespace Tss

/-! ### What a seal covers -/

theorem validateParams_eq_ok {t n : UInt16} (h : validateParams t n = .ok ()) :
    2 ≤ t.toNat ∧ t ≤ n ∧ n ≤ maxParties := by
  unfold validateParams at h
  split at h
  · cases h
  · rename_i hbounds
    simp only [not_or, UInt16.not_lt] at hbounds
    exact ⟨UInt16.le_iff_toNat_le.1 hbounds.1, hbounds.2.1, hbounds.2.2⟩

-- A number of the file is told by its bytes.
theorem beBytes_two_inj {a b : UInt16} {x y : List UInt8}
    (h : beBytes 2 a.toNat ++ x = beBytes 2 b.toNat ++ y) : a = b ∧ x = y := by
  rcases beBytes_append_inj a.toNat_lt b.toNat_lt h with ⟨hnat, hrest⟩
  exact ⟨UInt16.toNat_inj.1 hnat, hrest⟩

theorem beBytes_four_inj {a b : UInt32} {x y : List UInt8}
    (h : beBytes 4 a.toNat ++ x = beBytes 4 b.toNat ++ y) : a = b ∧ x = y := by
  rcases beBytes_append_inj a.toNat_lt b.toNat_lt h with ⟨hnat, hrest⟩
  exact ⟨UInt32.toNat_inj.1 hnat, hrest⟩

theorem beBytes_eight_inj {a b : UInt64} {x y : List UInt8}
    (h : beBytes 8 a.toNat ++ x = beBytes 8 b.toNat ++ y) : a = b ∧ x = y := by
  rcases beBytes_append_inj a.toNat_lt b.toNat_lt h with ⟨hnat, hrest⟩
  exact ⟨UInt64.toNat_inj.1 hnat, hrest⟩

-- White space is no zero, so an address text has no zero anywhere.
theorem zero_not_mem_address {s : String} {a : WalletAddress} (h : WalletAddress.new s = .ok a) :
    0 ∉ utf8 s := by
  intro hzero
  rcases zero_mem_utf8 hzero with ⟨c, hc, hcode⟩
  have hspace : isSpace c = false := by
    have hchar : c = Char.ofNat 0 := by rw [← hcode, Char.ofNat_toNat]
    rw [hchar]
    decide
  have hkept := mem_trim hc hspace
  simp only [WalletAddress.new] at h
  split at h
  · rename_i htext
    rcases isAddressText_iff.1 htext with ⟨digits, hs, -, hdigits⟩
    rw [hs, List.mem_cons, List.mem_cons] at hkept
    rcases hkept with rfl | rfl | hkept
    · exact absurd hcode (by decide)
    · exact absurd hcode (by decide)
    · have hdigit := hdigits c hkept
      rw [isAsciiHexDigit_iff, isLowerHex_iff] at hdigit
      omega
  · cases h

-- A text that can be read as digits has no zero either.
theorem zero_not_mem_hex {s : String} {bytes : List UInt8} (h : hexDecode s = some bytes) :
    0 ∉ utf8 s := by
  intro hzero
  rcases zero_mem_utf8 hzero with ⟨c, hc, hcode⟩
  have hdigit := Hex.digits_decode h c hc
  omega

theorem length_utf8_address (a : WalletAddress) : (utf8 a.str).length = 42 := by
  rcases isWalletAddress_iff.1 a.wellFormed with ⟨digits, hs, hlength, hdigits⟩
  rw [length_utf8]
  · rw [hs, List.length_cons, List.length_cons, hlength]
  · intro c hc
    rw [hs, List.mem_cons, List.mem_cons] at hc
    rcases hc with rfl | rfl | hc
    · decide
    · decide
    · have hcode := isLowerHex_iff.1 (hdigits c hc)
      omega

theorem length_utf8_hexEncode (bytes : List UInt8) :
    (utf8 (hexEncode bytes)).length = 2 * bytes.length := by
  rw [hexEncode, length_utf8, String.toList_ofList, Hex.length_encode]
  rw [String.toList_ofList]
  exact Hex.ascii_encode bytes

/-- The fields of a sealed file that the code has written itself. -/
structure SealedHeader (g : ShareFile) : Prop where
  fileType : g.fileType = Tss.fileType
  version : g.version = formatVersion
  address : ∃ a : WalletAddress, g.address = a.str
  kdfSalt : ∃ salt : Bytes 16, g.kdfSalt = hexEncode salt.1

/-- What the seal covers tells every field. The texts are told apart because a zero byte
    follows each of them, which neither can contain. -/
theorem macInput_inj {f g : ShareFile} {iv iv' ct ct' : List UInt8} (hg : SealedHeader g)
    (hfileType : f.fileType = Tss.fileType) (haddress : 0 ∉ utf8 f.address)
    (hsalt : 0 ∉ utf8 f.kdfSalt) (hiv : iv'.length = iv.length)
    (h : macInput g iv' ct' = macInput f iv ct) :
    { f with iv := g.iv, ciphertext := g.ciphertext, mac := g.mac } = g ∧ iv = iv' ∧ ct = ct' := by
  rcases hg.address with ⟨a, ha⟩
  rcases hg.kdfSalt with ⟨salt, hs⟩
  have hlength : (utf8 g.kdfSalt).length = 32 := by rw [hs, length_utf8_hexEncode, salt.2]
  unfold macInput at h
  rw [hg.fileType, hfileType, hg.version] at h
  rcases framed_inj (List.append_cancel_left h)
    (by rw [ha, length_utf8_address]; decide)
    (by rw [framed, hlength]; rfl) haddress with ⟨haddresses, h⟩
  rcases framed_inj h (by rw [hlength]; decide) rfl hsalt with ⟨hsalts, h⟩
  rcases beBytes_four_inj h with ⟨hversion, h⟩
  rcases beBytes_two_inj h with ⟨hthreshold, h⟩
  rcases beBytes_two_inj h with ⟨hparties, h⟩
  rcases beBytes_two_inj h with ⟨hindex, h⟩
  rcases beBytes_eight_inj h with ⟨hcreated, h⟩
  rcases beBytes_four_inj h with ⟨hiterations, h⟩
  rcases List.append_inj h hiv with ⟨hivs, hcts⟩
  refine ⟨?_, hivs.symm, hcts.symm⟩
  cases g
  cases f
  simp only [ShareFile.mk.injEq]
  exact ⟨hfileType.trans hg.fileType.symm, hversion.symm.trans hg.version.symm,
    (utf8_injective haddresses).symm, hthreshold.symm, hparties.symm, hindex.symm, hcreated.symm,
    (utf8_injective hsalts).symm, hiterations.symm, trivial, trivial, trivial⟩

section Store

variable (P : SealCrypto)

/-! ### Sealed files -/

/-- What sealing makes of one share. -/
structure SealedAs (input : SealInput) (salt : Bytes 16) (i : Nat) (share : String)
    (g : ShareFile) : Prop where
  fileType : g.fileType = Tss.fileType
  version : g.version = formatVersion
  address : g.address = input.address.str
  threshold : g.threshold = input.threshold
  parties : g.parties = input.parties
  partyIndex : g.partyIndex = UInt16.ofNat i
  kdfSalt : g.kdfSalt = hexEncode salt.1
  kdfIterations : g.kdfIterations = Tss.kdfIterations
  opens : ∃ iv ct,
    decodeFile P g = some (iv, ct,
      sealMac P (deriveKeys P input.passphrase salt.1 Tss.kdfIterations).2 g iv ct) ∧
    (P.aesDecrypt (deriveKeys P input.passphrase salt.1 Tss.kdfIterations).1 iv ct).bind
      P.fromSlice = some ⟨share, input.encPrivHex, input.bindingSig⟩

variable {P}

theorem decodeFile_eq {f : ShareFile} (iv : Bytes 16) {ct mac : List UInt8}
    (hiv : f.iv = hexEncode iv.1) (hct : P.unbase64 f.ciphertext = some ct)
    (hmac : f.mac = hexEncode mac) : decodeFile P f = some (iv.1, ct, mac) := by
  simp only [decodeFile, hiv, hct, hmac, hexDecode_hexEncode, Option.filter, iv.2, decide_true,
    if_true, Option.bind_eq_bind, Option.bind_some, Option.pure_def]

theorem sealFile_spec (hP : P.Lawful) {input : SealInput} {salt : Bytes 16} {i : Nat}
    {share : String} {g : ShareFile} (h : sealFile P input salt.1 i share = .ok g) :
    SealedAs P input salt i share g := by
  unfold sealFile at h
  rcases htext : P.toVec ⟨share, input.encPrivHex, input.bindingSig⟩ with e | plaintext
  · rw [htext] at h
    cases h
  · rcases hiv : input.draws.iv i with _ | iv
    · rw [htext, hiv] at h
      cases h
    · rw [htext, hiv] at h
      cases h
      refine ⟨rfl, rfl, rfl, rfl, rfl, rfl, rfl, rfl, iv.1, P.aesEncrypt
        (deriveKeys P input.passphrase salt.1 Tss.kdfIterations).1 iv.1 plaintext, ?_, ?_⟩
      · exact decodeFile_eq iv rfl (hP.unbase64_base64 _) rfl
      · rw [hP.decrypt_encrypt, Option.bind_some, hP.fromSlice_toVec _ _ htext]

-- The files stand in the order of the shares.
theorem sealFrom_spec (hP : P.Lawful) {input : SealInput} {salt : Bytes 16} {i : Nat}
    {shares : List String} {files : List ShareFile}
    (h : sealFrom P input salt.1 i shares = .ok files) :
    files.length = shares.length ∧ ∀ (k : Nat) (share : String), shares[k]? = some share →
      ∃ g, files[k]? = some g ∧ SealedAs P input salt (i + k) share g := by
  induction shares generalizing i files with
  | nil =>
      cases h
      exact ⟨rfl, fun k share hk => by rw [List.getElem?_nil] at hk; cases hk⟩
  | cons share shares ih =>
      simp only [sealFrom] at h
      rcases hfile : sealFile P input salt.1 i share with e | g
      · rw [hfile] at h
        cases h
      · rcases hfiles : sealFrom P input salt.1 (i + 1) shares with e | rest
        · rw [hfile, hfiles] at h
          cases h
        · rw [hfile, hfiles] at h
          cases h
          rcases ih hfiles with ⟨hlength, hrest⟩
          refine ⟨by rw [List.length_cons, List.length_cons, hlength], fun k other hk => ?_⟩
          cases k with
          | zero =>
              rw [List.getElem?_cons_zero, Option.some.injEq] at hk
              subst hk
              exact ⟨g, rfl, sealFile_spec hP hfile⟩
          | succ k =>
              rw [List.getElem?_cons_succ] at hk
              rcases hrest k other hk with ⟨g', hg', hsealed⟩
              rw [Nat.add_assoc, Nat.add_comm 1 k] at hsealed
              exact ⟨g', hg', hsealed⟩

variable (P) in
/-- One call that sealed the shares of a wallet under a passphrase. -/
structure Seal (passphrase : String) where
  input : SealInput
  salt : Bytes 16
  files : List ShareFile
  valid : validateParams input.threshold input.parties = .ok ()
  under : input.passphrase = passphrase
  drawn : input.draws.salt = some salt
  sealed : sealShares P input = .ok files

variable {passphrase : String}

/-- The share of a party. -/
def Seal.share (S : Seal P passphrase) (i : UInt16) : String := S.input.shares.getD i.toNat ""

theorem Seal.sealFrom (S : Seal P passphrase) :
    S.input.shares.length = S.input.parties.toNat ∧
      Tss.sealFrom P S.input S.salt.1 0 S.input.shares = .ok S.files := by
  have h := S.sealed
  unfold sealShares at h
  rw [S.drawn] at h
  split at h
  · cases h
  · rename_i hlength
    exact ⟨not_not.1 hlength, h⟩

/-- A file of a seal is that of the party it names. -/
theorem Seal.sealedAs (hP : P.Lawful) {S : Seal P passphrase} {g : ShareFile}
    (hg : g ∈ S.files) :
    g.partyIndex < S.input.parties ∧
      SealedAs P S.input S.salt g.partyIndex.toNat (S.share g.partyIndex) g ∧
      S.input.shares[g.partyIndex.toNat]? = some (S.share g.partyIndex) := by
  rcases S.sealFrom with ⟨hshares, hseal⟩
  rcases sealFrom_spec hP hseal with ⟨hlength, hfiles⟩
  rcases List.mem_iff_getElem.1 hg with ⟨k, hk, hget⟩
  have hkshares : k < S.input.shares.length := by omega
  rcases hfiles k _ (List.getElem?_eq_getElem hkshares) with ⟨g', hg', hsealed⟩
  rw [List.getElem?_eq_getElem hk, hget, Option.some.injEq] at hg'
  subst hg'
  rw [Nat.zero_add] at hsealed
  -- No index is cut off, for there are no more shares than a party index can name.
  have hbound := S.input.parties.toNat_lt
  have hindex : g.partyIndex.toNat = k := by
    rw [hsealed.partyIndex, UInt16.toNat_ofNat', Nat.mod_eq_of_lt (by omega)]
  have hshare : S.share g.partyIndex = S.input.shares[k] := by
    rw [Seal.share, hindex, List.getD_eq_getElem?_getD, List.getElem?_eq_getElem hkshares,
      Option.getD_some]
  refine ⟨UInt16.lt_iff_toNat_lt.2 (by omega), ?_, ?_⟩
  · rw [hindex, hshare]
    exact hsealed
  · rw [hindex, hshare]
    exact List.getElem?_eq_getElem hkshares

/-! ### One file -/

variable (P) in
/-- A file as it was sealed, up to how its bytes are spelled. -/
structure Untouched (g f : ShareFile) : Prop where
  header : { f with iv := g.iv, ciphertext := g.ciphertext, mac := g.mac } = g
  bytes : decodeFile P f = decodeFile P g

/-- A file as one of the seals has sealed it. -/
def Genuine (W : List (Seal P passphrase)) (f : ShareFile) : Prop :=
  ∃ S ∈ W, ∃ g ∈ S.files, Untouched P g f

/-- The tags are ideal: without the passphrase none can be computed, and those of different
    texts differ. So where the seal of a file verifies, what it covers has been sealed. -/
def Ideal (W : List (Seal P passphrase)) (files : List ShareFile) : Prop :=
  ∀ f ∈ files, ∀ salt iv ct mac, hexDecode f.kdfSalt = some salt →
    decodeFile P f = some (iv, ct, mac) →
    sealMac P (deriveKeys P passphrase salt f.kdfIterations).2 f iv ct = mac →
    ∃ S ∈ W, ∃ g ∈ S.files, ∃ iv' ct' mac', decodeFile P g = some (iv', ct', mac') ∧
      macInput g iv' ct' = macInput f iv ct

theorem length_iv {f : ShareFile} {iv ct mac : List UInt8}
    (h : decodeFile P f = some (iv, ct, mac)) : iv.length = 16 := by
  simp only [decodeFile, Option.bind_eq_bind, Option.bind_eq_some_iff, Option.pure_def,
    Option.some.injEq, Option.filter_eq_some_iff, decide_eq_true_eq] at h
  rcases h with ⟨iv', hiv, ct', -, mac', -, heq⟩
  cases heq
  exact hiv.2

-- The keys for a file that has been sealed are those it was sealed under.
theorem keys_eq {S : Seal P passphrase} {f g : ShareFile} {salt : List UInt8} {i : Nat}
    {share : String} (hg : SealedAs P S.input S.salt i share g)
    (hheader : { f with iv := g.iv, ciphertext := g.ciphertext, mac := g.mac } = g)
    (hsalt : hexDecode f.kdfSalt = some salt) :
    deriveKeys P passphrase salt f.kdfIterations =
      deriveKeys P S.input.passphrase S.salt.1 kdfIterations := by
  have hkdfSalt : f.kdfSalt = g.kdfSalt := by rw [← hheader]
  have hiterations : f.kdfIterations = g.kdfIterations := by rw [← hheader]
  rw [hkdfSalt, hg.kdfSalt, hexDecode_hexEncode, Option.some.injEq] at hsalt
  rw [hiterations, hg.kdfIterations, S.under, hsalt]

/-- An untouched file opens to the share that was sealed. -/
theorem openFile_untouched (hP : P.Lawful) {S : Seal P passphrase} {f g : ShareFile}
    (hg : g ∈ S.files) (hf : Untouched P g f) {salt : List UInt8}
    (hsalt : hexDecode f.kdfSalt = some salt) :
    openFile P (deriveKeys P passphrase salt f.kdfIterations) f =
      .ok ⟨S.share f.partyIndex, S.input.encPrivHex, S.input.bindingSig⟩ := by
  have hindex : f.partyIndex = g.partyIndex := by rw [← hf.header]
  have hsealed := (S.sealedAs hP hg).2.1
  rcases hsealed.opens with ⟨iv, ct, hdecode, hopens⟩
  have hmac : macInput f iv ct = macInput g iv ct := by rw [← hf.header]; rfl
  rw [keys_eq hsealed hf.header hsalt, hindex, openFile, hf.bytes, hdecode]
  simp only [sealMac, hmac, if_true, hopens]

/-- What opens is what has been sealed. -/
theorem untouched_of_openFile (hP : P.Lawful) {W : List (Seal P passphrase)}
    {files : List ShareFile} (hideal : Ideal W files) {f : ShareFile} (hf : f ∈ files)
    (hfileType : f.fileType = fileType) (haddress : 0 ∉ utf8 f.address) {salt : List UInt8}
    (hsalt : hexDecode f.kdfSalt = some salt) {secrets : ShareSecrets}
    (h : openFile P (deriveKeys P passphrase salt f.kdfIterations) f = .ok secrets) :
    Genuine W f := by
  unfold openFile at h
  rcases hdecode : decodeFile P f with _ | ⟨iv, ct, mac⟩
  · rw [hdecode] at h
    cases h
  · rw [hdecode] at h
    simp only at h
    split at h
    · rename_i hmac
      rcases hideal f hf salt iv ct mac hsalt hdecode hmac with
        ⟨S, hS, g, hg, iv', ct', mac', hdecode', hcovers⟩
      have hsealed := (S.sealedAs hP hg).2.1
      have hwritten : SealedHeader g :=
        ⟨hsealed.fileType, hsealed.version, ⟨S.input.address, hsealed.address⟩,
          ⟨S.salt, hsealed.kdfSalt⟩⟩
      have hlength : iv'.length = iv.length := by rw [length_iv hdecode, length_iv hdecode']
      rcases macInput_inj hwritten hfileType haddress (zero_not_mem_hex hsalt) hlength hcovers with
        ⟨hheader, rfl, rfl⟩
      refine ⟨S, hS, g, hg, hheader, ?_⟩
      -- The same text under the same key has the same tag.
      rcases hsealed.opens with ⟨iv', ct', hopens, -⟩
      rw [hopens, Option.some.injEq, Prod.mk.injEq, Prod.mk.injEq] at hdecode'
      rcases hdecode' with ⟨rfl, rfl, rfl⟩
      rw [hdecode, hopens, ← hmac, keys_eq hsealed hheader hsalt, sealMac, sealMac, hcovers]
    · cases h

end Store

end Tss

end PocketSkynet
