import PocketSkynet.Tss.Seal

/-!
# What Share Files Open To

Files of one wallet open to the shares of the lowest parties among them, in any order and
any number of times. Whatever opens at all is genuine, from whatever files it is read.

The other direction fails. Of several files that name one party only the first is read, and
it is picked before any seal is checked. An altered copy of a file that stands before the
file itself is picked in its place, and the whole set is refused, although it holds enough
untouched files. `open_shares_iff` says that this is the only way to fail.

## Main definitions

* `Family`: A file that says it belongs to the wallet of another one.
* `lowest`: The parties whose files are read.
* `Sufficient`: Files of one wallet, with enough untouched ones among them.
* `OpensFaithfully`: What is expected of opening.

## Theorems

* `admitFiles_eq_ok`: Which lists are admitted.
* `opened_genuine`: Whatever opens is what one wallet was sealed with.
* `open_shares_iff`: When opening does what is expected.
-/

namespace PocketSkynet

namespace Tss

section Store

variable {P : SealCrypto} {passphrase : String}

/-! ### Several files -/

/-- Files that all open give their shares in their order, and the identity of the first. -/
theorem openFiles_eq_ok {keys : List UInt8 × List UInt8} {secrets : ShareFile → ShareSecrets}
    {files : List ShareFile} (h : ∀ f ∈ files, openFile P keys f = .ok (secrets f))
    (identity : Option (String × String)) (signers : List (UInt16 × String)) :
    openFiles P keys identity signers files =
      .ok (identity.or (files.head?.map fun f => ((secrets f).encPrivHex, (secrets f).bindingSig)),
        signers ++ files.map fun f => (f.partyIndex, (secrets f).share)) := by
  induction files generalizing identity signers with
  | nil => rw [openFiles, List.head?_nil, Option.map_none, Option.or_none, List.map_nil,
      List.append_nil]
  | cons f files ih =>
      rw [openFiles, h f List.mem_cons_self]
      simp only
      rw [ih fun f' hf' => h f' (List.mem_cons_of_mem f hf')]
      cases identity <;> simp

theorem openFile_of_openFiles {keys : List UInt8 × List UInt8} {files : List ShareFile}
    {identity : Option (String × String)} {signers : List (UInt16 × String)}
    {opened : Option (String × String) × List (UInt16 × String)}
    (h : openFiles P keys identity signers files = .ok opened) :
    ∀ f ∈ files, ∃ secrets, openFile P keys f = .ok secrets := by
  induction files generalizing identity signers with
  | nil => exact fun f hf => absurd hf List.not_mem_nil
  | cons f files ih =>
      rw [openFiles] at h
      rcases hfile : openFile P keys f with e | secrets
      · rw [hfile] at h
        cases h
      · rw [hfile] at h
        intro f' hf'
        rcases List.mem_cons.1 hf' with rfl | hf'
        · exact ⟨secrets, hfile⟩
        · exact ih h f' hf'

/-! ### Which files are read -/

/-- A file that says it belongs to the wallet of another one. -/
structure Family (g f : ShareFile) : Prop where
  fileType : f.fileType = Tss.fileType
  version : f.version = formatVersion
  address : f.address = g.address
  threshold : f.threshold = g.threshold
  parties : f.parties = g.parties
  kdfSalt : f.kdfSalt = g.kdfSalt
  kdfIterations : f.kdfIterations = g.kdfIterations
  partyIndex : f.partyIndex < f.parties

theorem checkFamily_eq_ok {first : ShareFile} {files : List ShareFile} :
    checkFamily first files = .ok () ↔ ∀ f ∈ files, Family first f := by
  induction files with
  | nil => exact ⟨fun _ f hf => absurd hf List.not_mem_nil, fun _ => rfl⟩
  | cons f files ih =>
      rw [List.forall_mem_cons, ← ih]
      constructor
      · intro h
        unfold checkFamily at h
        split at h
        · cases h
        · rename_i hkind
          split at h
          · cases h
          · rename_i hsame
            split at h
            · cases h
            · rename_i hindex
              simp only [not_or, not_not] at hkind hsame
              exact ⟨⟨hkind.1, hkind.2, hsame.1, hsame.2.1, hsame.2.2.1, hsame.2.2.2.1,
                hsame.2.2.2.2, UInt16.not_le.1 hindex⟩, h⟩
      · rintro ⟨hf, hfiles⟩
        rw [checkFamily, if_neg, if_neg, if_neg, hfiles]
        · exact UInt16.not_le.2 hf.partyIndex
        · simp [hf.address, hf.threshold, hf.parties, hf.kdfSalt, hf.kdfIterations]
        · simp [hf.fileType, hf.version]

/-- What is asked of the first file. -/
structure Admissible (first : ShareFile) (address : WalletAddress) : Prop where
  fileType : first.fileType = Tss.fileType
  version : first.version = formatVersion
  address : WalletAddress.new first.address = .ok address
  params : validateParams first.threshold first.parties = .ok ()
  iterations : first.kdfIterations ≠ 0 ∧ first.kdfIterations ≤ maxKdfIterations

theorem checkFirst_eq_ok {first : ShareFile} {address : WalletAddress} :
    checkFirst first = .ok address ↔ Admissible first address := by
  constructor
  · intro h
    unfold checkFirst at h
    split at h
    · cases h
    · split at h
      · cases h
      · rename_i hkind
        simp only [not_or, not_not] at hkind
        split at h
        · cases h
        · rename_i a haddress
          rcases (bind_eq_ok _ _ _).1 h with ⟨_, hparams, h⟩
          split at h
          · cases h
          · rename_i hiterations
            cases h
            simp only [not_or, UInt32.not_lt] at hiterations
            exact ⟨hkind.1, hkind.2, haddress, hparams, hiterations⟩
  · intro h
    have hold : ¬ (first.fileType = Tss.fileType ∧ first.version < formatVersion) := by
      rw [h.version]
      exact fun hold => absurd hold.2 (by decide)
    have hkind : ¬ (first.fileType ≠ Tss.fileType ∨ first.version ≠ formatVersion) := by
      simp [h.fileType, h.version]
    rw [checkFirst, if_neg hold, if_neg hkind, h.address]
    simp only [h.params]
    refine if_neg ?_
    simp only [not_or, UInt32.not_lt]
    exact h.iterations

theorem admitFiles_eq_ok {files : List ShareFile} {first : ShareFile} {address : WalletAddress}
    {chosen : List ShareFile} :
    admitFiles files = .ok (first, address, chosen) ↔
      files.head? = some first ∧ Admissible first address ∧ (∀ f ∈ files, Family first f) ∧
      first.threshold.toNat ≤ (chooseDistinct files).length ∧
      chosen = (chooseDistinct files).take first.threshold.toNat := by
  rw [← checkFirst_eq_ok, ← checkFamily_eq_ok]
  unfold admitFiles
  rcases files.head? with _ | f
  · simp
  · simp only [Option.some.injEq]
    constructor
    · intro h
      rcases (bind_eq_ok _ _ _).1 h with ⟨a, hfirst, h⟩
      rcases (bind_eq_ok _ _ _).1 h with ⟨_, hfamily, h⟩
      rcases (bind_eq_ok _ _ _).1 h with ⟨c, hquorum, h⟩
      cases h
      simp only [chooseQuorum] at hquorum
      split at hquorum
      · cases hquorum
      · rename_i henough
        cases hquorum
        exact ⟨rfl, hfirst, hfamily, Nat.le_of_not_lt henough, rfl⟩
    · rintro ⟨rfl, hfirst, hfamily, henough, rfl⟩
      rw [hfirst, hfamily, chooseQuorum, if_neg (Nat.not_lt.2 henough)]
      rfl

/-- The lowest parties that are named, `t` of them if there are as many. -/
def lowest (t : UInt16) (files : List ShareFile) : List UInt16 :=
  (keysUp (fun i j : UInt16 => i ≤ j) (files.map ShareFile.partyIndex)).take t.toNat

theorem map_chooseDistinct (files : List ShareFile) :
    (chooseDistinct files).map ShareFile.partyIndex =
      keysUp (fun i j : UInt16 => i ≤ j) (files.map ShareFile.partyIndex) :=
  map_firsts files

theorem find?_of_mem_chooseDistinct {files : List ShareFile} {f : ShareFile}
    (h : f ∈ chooseDistinct files) :
    files.find? (fun g => g.partyIndex = f.partyIndex) = some f :=
  mem_firsts.1 h

theorem mem_of_mem_chooseDistinct {files : List ShareFile} {f : ShareFile}
    (h : f ∈ chooseDistinct files) : f ∈ files :=
  List.mem_of_find?_eq_some (find?_of_mem_chooseDistinct h)

-- The files that are read are the first ones of the lowest parties.
theorem forall_chosen_iff {files : List ShareFile} {t : UInt16} {p : ShareFile → Prop} :
    (∀ f ∈ (chooseDistinct files).take t.toNat, p f) ↔
      ∀ i ∈ lowest t files, ∀ f, files.find? (fun g => g.partyIndex = i) = some f → p f := by
  rw [lowest, ← map_chooseDistinct, ← List.map_take]
  constructor
  · intro h i hi f hf
    rcases List.mem_map.1 hi with ⟨f', hf', rfl⟩
    rw [find?_of_mem_chooseDistinct (List.mem_of_mem_take hf'), Option.some.injEq] at hf
    exact hf ▸ h f' hf'
  · exact fun h f hf => h f.partyIndex (List.mem_map_of_mem hf) f
      (find?_of_mem_chooseDistinct (List.mem_of_mem_take hf))

/-! ### The whole -/

variable (P) in
/-- The secrets of a file that opens. -/
def secretsOf (keys : List UInt8 × List UInt8) (f : ShareFile) : ShareSecrets :=
  (openFile P keys f).toOption.getD ⟨"", "", ""⟩

theorem openFile_secretsOf {keys : List UInt8 × List UInt8} {f : ShareFile}
    {secrets : ShareSecrets} (h : openFile P keys f = .ok secrets) :
    secretsOf P keys f = secrets := by
  rw [secretsOf, h]
  rfl

-- Files that are admitted and all open give a wallet.
theorem openShares_of_admitted {files : List ShareFile} {first : ShareFile}
    {address : WalletAddress} {chosen : List ShareFile} {salt : List UInt8}
    {secrets : ShareFile → ShareSecrets} (hadmission : admitFiles files = .ok (first, address, chosen))
    (hsalt : hexDecode first.kdfSalt = some salt)
    (hopen : ∀ f ∈ chosen,
      openFile P (deriveKeys P passphrase salt first.kdfIterations) f = .ok (secrets f))
    {lead : ShareFile} (hlead : chosen.head? = some lead) :
    (openShares P files passphrase).result = .opened ⟨address, first.threshold, first.parties,
      chosen.map fun f => (f.partyIndex, (secrets f).share), (secrets lead).encPrivHex,
      (secrets lead).bindingSig⟩ := by
  simp only [openShares, hadmission, hsalt, openFiles_eq_ok hopen, hlead, Option.map_some,
    Option.none_or, List.nil_append]

-- A wallet comes from files that are admitted and all open.
theorem admitted_of_opened {files : List ShareFile} {w : OpenedWallet}
    (h : (openShares P files passphrase).result = .opened w) :
    ∃ first address chosen salt, admitFiles files = .ok (first, address, chosen) ∧
      hexDecode first.kdfSalt = some salt ∧ ∀ f ∈ chosen, ∃ secrets,
        openFile P (deriveKeys P passphrase salt first.kdfIterations) f = .ok secrets := by
  unfold openShares at h
  rcases hadmission : admitFiles files with e | ⟨first, address, chosen⟩
  · rw [hadmission] at h
    cases h
  · rcases hsalt : hexDecode first.kdfSalt with _ | salt
    · simp only [hadmission, hsalt] at h
      cases h
    · refine ⟨first, address, chosen, salt, rfl, hsalt, ?_⟩
      simp only [hadmission, hsalt] at h
      split at h
      · cases h
      · cases h
      · rename_i hopened
        exact openFile_of_openFiles hopened

-- At least two files are read, so there is a first one.
theorem exists_lead {files : List ShareFile} {first : ShareFile} {address : WalletAddress}
    {chosen : List ShareFile} (h : admitFiles files = .ok (first, address, chosen)) :
    chosen.length = first.threshold.toNat ∧ ∃ lead, chosen.head? = some lead := by
  rcases admitFiles_eq_ok.1 h with ⟨-, hfirst, -, henough, rfl⟩
  have hparams := (validateParams_eq_ok hfirst.params).1
  have hlength : ((chooseDistinct files).take first.threshold.toNat).length =
      first.threshold.toNat := by
    rw [List.length_take]
    omega
  refine ⟨hlength, ?_⟩
  rcases hhead : ((chooseDistinct files).take first.threshold.toNat).head? with _ | lead
  · rw [List.head?_eq_none_iff] at hhead
    rw [hhead, List.length_nil] at hlength
    omega
  · exact ⟨lead, rfl⟩

/-- No more is spent than the maximum, and nothing panics. -/
theorem openShares_bounded (files : List ShareFile) :
    (openShares P files passphrase).iterations ≤ maxKdfIterations.toNat ∧
      (openShares P files passphrase).result ≠ .panicked := by
  unfold openShares
  rcases hadmission : admitFiles files with e | ⟨first, address, chosen⟩
  · simp
  · rcases hsalt : hexDecode first.kdfSalt with _ | salt
    · simp [hsalt]
    · have hfirst := (admitFiles_eq_ok.1 hadmission).2.1
      simp only [hsalt]
      refine ⟨UInt32.le_iff_toNat_le.1 hfirst.iterations.2, ?_⟩
      split
      · exact OpenResult.noConfusion
      · rename_i signers hopened
        -- Every file has opened, so the first one has left its identity.
        rcases exists_lead hadmission with ⟨-, lead, hlead⟩
        have hall : ∀ f ∈ chosen,
            openFile P (deriveKeys P passphrase salt first.kdfIterations) f = .ok (secretsOf P
              (deriveKeys P passphrase salt first.kdfIterations) f) := by
          intro f hf
          rcases openFile_of_openFiles hopened f hf with ⟨secrets, hsecrets⟩
          rw [openFile_secretsOf hsecrets, hsecrets]
        rw [openFiles_eq_ok hall, hlead] at hopened
        cases hopened
      · exact OpenResult.noConfusion

/-- What a list of files of one seal is to open to. -/
def Seal.opened (S : Seal P passphrase) (files : List ShareFile) : OpenedWallet :=
  ⟨S.input.address, S.input.threshold, S.input.parties,
    (lowest S.input.threshold files).map fun i => (i, S.share i),
    S.input.encPrivHex, S.input.bindingSig⟩

/-- Files that all say they are of one sealed wallet, with untouched ones for as many parties
    as the wallet asks for. Besides them there may be anything else that says so. -/
structure Sufficient (S : Seal P passphrase) (files : List ShareFile) : Prop where
  copies : ∀ f ∈ files, ∃ g ∈ S.files, Family g f
  quorum : ∃ parties : List UInt16, parties.Nodup ∧
    S.input.threshold.toNat ≤ parties.length ∧
    ∀ i ∈ parties, ∃ f ∈ files, f.partyIndex = i ∧ ∃ g ∈ S.files, Untouched P g f

/-- A share that was sealed for the wallet that is returned, under the salt of its files. -/
def SealedSigner (W : List (Seal P passphrase)) (files : List ShareFile) (w : OpenedWallet)
    (salt : Bytes 16) (signer : UInt16 × String) : Prop :=
  ∃ S ∈ W, S.salt = salt ∧ S.input.address = w.address ∧ S.input.threshold = w.threshold ∧
    S.input.parties = w.parties ∧ S.input.shares[signer.1.toNat]? = some signer.2 ∧
    ∃ f ∈ files, ∃ g ∈ S.files, g.partyIndex = signer.1 ∧ Untouched P g f

variable (P passphrase) in
/-- What is expected of opening. -/
structure OpensFaithfully (W : List (Seal P passphrase)) (files : List ShareFile) : Prop where
  quorum : ∀ S ∈ W, (∀ f ∈ files, f ∈ S.files) →
    S.input.threshold.toNat ≤ (files.map ShareFile.partyIndex).dedup.length →
    (openShares P files passphrase).result = .opened (S.opened files)
  tooFew : ∀ S ∈ W, (∀ f ∈ files, f ∈ S.files) →
    (files.map ShareFile.partyIndex).dedup.length < S.input.threshold.toNat →
    ∃ e, (openShares P files passphrase).result = .failed e
  genuine : ∀ w, (openShares P files passphrase).result = .opened w →
    w.signers.length = w.threshold.toNat ∧
    (w.signers.map Prod.fst).Pairwise (fun i j => i < j) ∧
    ∃ salt, (∀ signer ∈ w.signers, SealedSigner W files w salt signer) ∧
      ∃ S ∈ W, S.salt = salt ∧ S.input.address = w.address ∧
        S.input.encPrivHex = w.encPrivHex ∧ S.input.bindingSig = w.bindingSig
  spare : ∀ S ∈ W, Sufficient S files →
    ∃ w, (openShares P files passphrase).result = .opened w
  bounded : (openShares P files passphrase).iterations ≤ maxKdfIterations.toNat
  total : (openShares P files passphrase).result ≠ .panicked

-- What a file says that says it is of a sealed wallet.
theorem family_sealed (hP : P.Lawful) {S : Seal P passphrase} {f g : ShareFile}
    (hg : g ∈ S.files) (hf : Family g f) :
    f.address = S.input.address.str ∧ f.threshold = S.input.threshold ∧
      f.parties = S.input.parties ∧ f.kdfSalt = hexEncode S.salt.1 ∧
      f.kdfIterations = kdfIterations := by
  have hsealed := (S.sealedAs hP hg).2.1
  exact ⟨hf.address.trans hsealed.address, hf.threshold.trans hsealed.threshold,
    hf.parties.trans hsealed.parties, hf.kdfSalt.trans hsealed.kdfSalt,
    hf.kdfIterations.trans hsealed.kdfIterations⟩

theorem family_self (hP : P.Lawful) {S : Seal P passphrase} {g : ShareFile} (hg : g ∈ S.files) :
    Family g g := by
  rcases S.sealedAs hP hg with ⟨hindex, hsealed, -⟩
  exact ⟨hsealed.fileType, hsealed.version, rfl, rfl, rfl, rfl, rfl, hsealed.parties ▸ hindex⟩

theorem length_chooseDistinct (files : List ShareFile) :
    (chooseDistinct files).length = (files.map ShareFile.partyIndex).dedup.length := by
  rw [← List.length_map (f := ShareFile.partyIndex), map_chooseDistinct, keysUp,
    List.length_insertionSort]

-- Files of a sealed wallet are admitted, if they name enough parties.
theorem admitted_of_copies (hP : P.Lawful) {S : Seal P passphrase} {files : List ShareFile}
    (hcopies : ∀ f ∈ files, ∃ g ∈ S.files, Family g f)
    (henough : S.input.threshold.toNat ≤ (files.map ShareFile.partyIndex).dedup.length) :
    ∃ first ∈ files, admitFiles files = .ok (first, S.input.address,
      (chooseDistinct files).take S.input.threshold.toNat) := by
  have hparams := (validateParams_eq_ok S.valid).1
  rcases hhead : files.head? with _ | first
  · rw [List.head?_eq_none_iff] at hhead
    rw [hhead, List.map_nil, List.dedup_nil, List.length_nil] at henough
    omega
  · have hfirst := List.mem_of_head? hhead
    rcases hcopies first hfirst with ⟨g, hg, hcopy⟩
    rcases family_sealed hP hg hcopy with ⟨haddress, hthreshold, hparties, hsalt, hiterations⟩
    refine ⟨first, hfirst, admitFiles_eq_ok.2 ⟨hhead, ⟨hcopy.fileType, hcopy.version, ?_, ?_, ?_⟩,
      fun f hf => ?_, ?_, by rw [hthreshold]⟩⟩
    · rw [haddress, WalletAddress.new_str]
    · rw [hthreshold, hparties, S.valid]
    · rw [hiterations]
      decide
    · rcases hcopies f hf with ⟨g', hg', hcopy'⟩
      rcases family_sealed hP hg' hcopy' with
        ⟨haddress', hthreshold', hparties', hsalt', hiterations'⟩
      exact ⟨hcopy'.fileType, hcopy'.version, haddress'.trans haddress.symm,
        hthreshold'.trans hthreshold.symm, hparties'.trans hparties.symm,
        hsalt'.trans hsalt.symm, hiterations'.trans hiterations.symm, hcopy'.partyIndex⟩
    · rw [hthreshold, length_chooseDistinct]
      exact henough

-- The seal of a file that is read, and what the file opens to.
theorem sealed_of_genuine (hP : P.Lawful) {W : List (Seal P passphrase)} {first f : ShareFile}
    {address : WalletAddress} {salt : List UInt8} (hfirst : Admissible first address)
    (hfamily : Family first f) (hsalt : hexDecode first.kdfSalt = some salt)
    (hf : Genuine W f) :
    ∃ S ∈ W, ∃ g ∈ S.files, Untouched P g f ∧ S.salt.1 = salt ∧ S.input.address = address ∧
      S.input.threshold = first.threshold ∧ S.input.parties = first.parties ∧
      openFile P (deriveKeys P passphrase salt first.kdfIterations) f =
        .ok ⟨S.share f.partyIndex, S.input.encPrivHex, S.input.bindingSig⟩ := by
  rcases hf with ⟨S, hS, g, hg, huntouched⟩
  have hsealed := (S.sealedAs hP hg).2.1
  have haddress : g.address = f.address := by rw [← huntouched.header]
  have hthreshold : g.threshold = f.threshold := by rw [← huntouched.header]
  have hparties : g.parties = f.parties := by rw [← huntouched.header]
  have hkdfSalt : g.kdfSalt = f.kdfSalt := by rw [← huntouched.header]
  have hdecode : hexDecode f.kdfSalt = some salt := by rw [hfamily.kdfSalt, hsalt]
  have hopen := openFile_untouched hP hg huntouched hdecode
  rw [hfamily.kdfIterations] at hopen
  refine ⟨S, hS, g, hg, huntouched, ?_, ?_, ?_, ?_, hopen⟩
  · rw [← hfamily.kdfSalt, ← hkdfSalt, hsealed.kdfSalt, hexDecode_hexEncode] at hsalt
    exact Option.some.inj hsalt
  · have hnew := hfirst.address
    rw [← hfamily.address, ← haddress, hsealed.address, WalletAddress.new_str] at hnew
    exact Except.ok.inj hnew
  · rw [← hsealed.threshold, hthreshold, hfamily.threshold]
  · rw [← hsealed.parties, hparties, hfamily.parties]

/-- Files of one seal open to what was sealed. -/
theorem opened_of_sealed (hP : P.Lawful) {S : Seal P passphrase} {files : List ShareFile}
    (hfiles : ∀ f ∈ files, f ∈ S.files)
    (henough : S.input.threshold.toNat ≤ (files.map ShareFile.partyIndex).dedup.length) :
    (openShares P files passphrase).result = .opened (S.opened files) := by
  rcases admitted_of_copies hP (fun f hf => ⟨f, hfiles f hf, family_self hP (hfiles f hf)⟩)
    henough with ⟨first, hfirst, hadmission⟩
  rcases family_sealed hP (hfiles first hfirst) (family_self hP (hfiles first hfirst)) with
    ⟨-, hthreshold, hparties, hsalt, hiterations⟩
  have hdecode : hexDecode first.kdfSalt = some S.salt.1 := by rw [hsalt, hexDecode_hexEncode]
  rcases exists_lead hadmission with ⟨-, lead, hlead⟩
  have hopen : ∀ f ∈ (chooseDistinct files).take S.input.threshold.toNat,
      openFile P (deriveKeys P passphrase S.salt.1 first.kdfIterations) f =
        .ok ⟨S.share f.partyIndex, S.input.encPrivHex, S.input.bindingSig⟩ := by
    intro f hf
    have hmem := hfiles f (mem_of_mem_chooseDistinct (List.mem_of_mem_take hf))
    rcases family_sealed hP hmem (family_self hP hmem) with ⟨-, -, -, hsalt', hiterations'⟩
    rw [hiterations, ← hiterations']
    exact openFile_untouched hP hmem ⟨rfl, rfl⟩ (by rw [hsalt', hexDecode_hexEncode])
  rw [openShares_of_admitted hadmission hdecode hopen hlead, Seal.opened, lowest,
    ← map_chooseDistinct, ← List.map_take, List.map_map, hthreshold, hparties]
  rfl

theorem failed_of_tooFew (hP : P.Lawful) {S : Seal P passphrase} {files : List ShareFile}
    (hfiles : ∀ f ∈ files, f ∈ S.files)
    (hfew : (files.map ShareFile.partyIndex).dedup.length < S.input.threshold.toNat) :
    ∃ e, (openShares P files passphrase).result = .failed e := by
  rcases hresult : (openShares P files passphrase).result with w | e | _
  · rcases admitted_of_opened hresult with ⟨first, address, chosen, salt, hadmission, -, -⟩
    rcases admitFiles_eq_ok.1 hadmission with ⟨hhead, -, -, henough, -⟩
    have hmem := hfiles first (List.mem_of_head? hhead)
    have hthreshold := (family_sealed hP hmem (family_self hP hmem)).2.1
    rw [length_chooseDistinct, hthreshold] at henough
    omega
  · exact ⟨e, rfl⟩
  · exact absurd hresult (openShares_bounded files).2

-- What is read from a list that opens is genuine.
theorem genuine_of_opened (hP : P.Lawful) {W : List (Seal P passphrase)} {files : List ShareFile}
    (hideal : Ideal W files) {first : ShareFile} {address : WalletAddress}
    {chosen : List ShareFile} {salt : List UInt8}
    (hadmission : admitFiles files = .ok (first, address, chosen))
    (hsalt : hexDecode first.kdfSalt = some salt)
    (hopen : ∀ f ∈ chosen, ∃ secrets,
      openFile P (deriveKeys P passphrase salt first.kdfIterations) f = .ok secrets) :
    ∀ f ∈ chosen, Genuine W f := by
  rcases admitFiles_eq_ok.1 hadmission with ⟨-, hfirst, hfamily, -, rfl⟩
  intro f hf
  have hmem := mem_of_mem_chooseDistinct (List.mem_of_mem_take hf)
  rcases hopen f hf with ⟨secrets, hsecrets⟩
  rw [← (hfamily f hmem).kdfIterations] at hsecrets
  refine untouched_of_openFile hP hideal hmem (hfamily f hmem).fileType ?_ ?_ hsecrets
  · rw [(hfamily f hmem).address]
    exact zero_not_mem_address hfirst.address
  · rw [(hfamily f hmem).kdfSalt, hsalt]

-- The other way round, genuine files open.
theorem opened_of_genuine (hP : P.Lawful) {W : List (Seal P passphrase)} {files : List ShareFile}
    {first : ShareFile} {address : WalletAddress} {chosen : List ShareFile} {salt : List UInt8}
    (hadmission : admitFiles files = .ok (first, address, chosen))
    (hsalt : hexDecode first.kdfSalt = some salt) (hgenuine : ∀ f ∈ chosen, Genuine W f) :
    ∃ w, (openShares P files passphrase).result = .opened w := by
  rcases admitFiles_eq_ok.1 hadmission with ⟨-, hfirst, hfamily, -, hchosen⟩
  rcases exists_lead hadmission with ⟨-, lead, hlead⟩
  have hopen : ∀ f ∈ chosen, openFile P (deriveKeys P passphrase salt first.kdfIterations) f =
      .ok (secretsOf P (deriveKeys P passphrase salt first.kdfIterations) f) := by
    intro f hf
    have hmem : f ∈ files := mem_of_mem_chooseDistinct (List.mem_of_mem_take (hchosen ▸ hf))
    rcases sealed_of_genuine hP hfirst (hfamily f hmem) hsalt (hgenuine f hf) with
      ⟨S, -, g, -, -, -, -, -, -, hopen⟩
    rw [openFile_secretsOf hopen, hopen]
  exact ⟨_, openShares_of_admitted hadmission hsalt hopen hlead⟩

/-- Whatever opens is what one wallet was sealed with. -/
theorem opened_genuine (hP : P.Lawful) {W : List (Seal P passphrase)} {files : List ShareFile}
    (hideal : Ideal W files) {w : OpenedWallet}
    (h : (openShares P files passphrase).result = .opened w) :
    w.signers.length = w.threshold.toNat ∧
    (w.signers.map Prod.fst).Pairwise (fun i j => i < j) ∧
    ∃ salt, (∀ signer ∈ w.signers, SealedSigner W files w salt signer) ∧
      ∃ S ∈ W, S.salt = salt ∧ S.input.address = w.address ∧
        S.input.encPrivHex = w.encPrivHex ∧ S.input.bindingSig = w.bindingSig := by
  rcases admitted_of_opened h with ⟨first, address, chosen, salt, hadmission, hsalt, hopen⟩
  have hgenuine := genuine_of_opened hP hideal hadmission hsalt hopen
  rcases admitFiles_eq_ok.1 hadmission with ⟨-, hfirst, hfamily, -, hchosen⟩
  rcases exists_lead hadmission with ⟨hlength, lead, hlead⟩
  have hmem : ∀ f ∈ chosen, f ∈ files := fun f hf =>
    mem_of_mem_chooseDistinct (List.mem_of_mem_take (hchosen ▸ hf))
  -- The seal of every file that is read, with the secrets it gives.
  have hsealed := fun f hf => sealed_of_genuine hP hfirst (hfamily f (hmem f hf)) hsalt
    (hgenuine f hf)
  have hsecrets : ∀ f ∈ chosen, openFile P (deriveKeys P passphrase salt first.kdfIterations) f =
      .ok (secretsOf P (deriveKeys P passphrase salt first.kdfIterations) f) := by
    intro f hf
    rcases hsealed f hf with ⟨S, -, g, -, -, -, -, -, -, hopen⟩
    rw [openFile_secretsOf hopen, hopen]
  rw [openShares_of_admitted hadmission hsalt hsecrets hlead] at h
  cases h
  have hleadmem := List.mem_of_head? hlead
  rcases hsealed lead hleadmem with ⟨S, hS, g, hg, -, hlsalt, haddress, -, -, hlopen⟩
  refine ⟨by rw [List.length_map, hlength], ?_, S.salt, ?_, S, hS, rfl, haddress, ?_, ?_⟩
  · -- The parties are the lowest ones, and these increase.
    rw [List.map_map]
    have hparties : chosen.map (Prod.fst ∘ fun f => (f.partyIndex,
        (secretsOf P (deriveKeys P passphrase salt first.kdfIterations) f).share)) =
        lowest first.threshold files := by
      rw [lowest, ← map_chooseDistinct, ← List.map_take, hchosen]
      rfl
    rw [hparties]
    have hsorted := sorted_keysUp (r := fun i j : UInt16 => i ≤ j)
      (files.map ShareFile.partyIndex)
    exact (hsorted.sublist (List.take_sublist _ _)).imp fun h => UInt16.lt_of_le_of_ne h.1 h.2
  · intro signer hsigner
    rcases List.mem_map.1 hsigner with ⟨f, hf, rfl⟩
    rcases hsealed f hf with ⟨T, hT, g', hg', huntouched, hTsalt, hTaddress, hthreshold, hparties,
      hTopen⟩
    have hindex : g'.partyIndex = f.partyIndex := by rw [← huntouched.header]
    have hshare := (T.sealedAs hP hg').2.2
    rw [hindex] at hshare
    refine ⟨T, hT, Subtype.ext (hTsalt.trans hlsalt.symm), hTaddress, hthreshold, hparties, ?_,
      f, hmem f hf, g', hg', hindex, huntouched⟩
    rw [openFile_secretsOf hTopen]
    exact hshare
  · rw [openFile_secretsOf hlopen]
  · rw [openFile_secretsOf hlopen]

-- A list that suffices is admitted, under the header of the seal.
theorem admitted_of_sufficient (hP : P.Lawful) {S : Seal P passphrase} {files : List ShareFile}
    (h : Sufficient S files) :
    ∃ first ∈ files, admitFiles files = .ok (first, S.input.address,
      (chooseDistinct files).take S.input.threshold.toNat) ∧
      hexDecode first.kdfSalt = some S.salt.1 := by
  rcases h.quorum with ⟨parties, hnodup, henough, hparties⟩
  have hsubset : parties ⊆ (files.map ShareFile.partyIndex).dedup := by
    intro i hi
    rcases hparties i hi with ⟨f, hf, rfl, -⟩
    exact List.mem_dedup.2 (List.mem_map_of_mem hf)
  rcases admitted_of_copies hP h.copies
    (Nat.le_trans henough (List.subperm_of_subset hnodup hsubset).length_le) with
    ⟨first, hfirst, hadmission⟩
  rcases h.copies first hfirst with ⟨g, hg, hcopy⟩
  refine ⟨first, hfirst, hadmission, ?_⟩
  rw [(family_sealed hP hg hcopy).2.2.2.1, hexDecode_hexEncode]

-- Such a list opens only if the first file of each of the lowest parties is genuine.
theorem leads_genuine (hP : P.Lawful) {W : List (Seal P passphrase)} {files : List ShareFile}
    (hideal : Ideal W files) {S : Seal P passphrase} (hsufficient : Sufficient S files)
    {w : OpenedWallet} (hw : (openShares P files passphrase).result = .opened w) :
    ∀ i ∈ lowest S.input.threshold files,
      ∀ f, files.find? (fun g => g.partyIndex = i) = some f → Genuine W f := by
  rw [← forall_chosen_iff]
  rcases admitted_of_sufficient hP hsufficient with ⟨first, hfirst, hadmission, hsalt⟩
  rcases admitted_of_opened hw with ⟨first', address', chosen', salt', hadmission', hsalt', hopen⟩
  rw [hadmission] at hadmission'
  cases hadmission'
  exact genuine_of_opened hP hideal hadmission hsalt' hopen

/-- Opening does what is expected exactly if no altered file is the first one to name one of
    the lowest parties in a list that would suffice without it. -/
theorem open_shares_iff (hP : P.Lawful) (W : List (Seal P passphrase)) (files : List ShareFile)
    (hideal : Ideal W files) :
    OpensFaithfully P passphrase W files ↔
      ∀ S ∈ W, Sufficient S files → ∀ i ∈ lowest S.input.threshold files,
        ∀ f, files.find? (fun g => g.partyIndex = i) = some f → Genuine W f := by
  constructor
  · intro h S hS hsufficient
    rcases h.spare S hS hsufficient with ⟨w, hw⟩
    exact leads_genuine hP hideal hsufficient hw
  · intro h
    rcases openShares_bounded (P := P) files with ⟨hbounded, htotal⟩
    refine ⟨fun S _ hfiles henough => opened_of_sealed hP hfiles henough,
      fun S _ hfiles hfew => failed_of_tooFew hP hfiles hfew,
      fun w hw => opened_genuine hP hideal hw, fun S hS hsufficient => ?_, hbounded, htotal⟩
    rcases admitted_of_sufficient hP hsufficient with ⟨first, hfirst, hadmission, hsalt⟩
    exact opened_of_genuine hP hadmission hsalt (forall_chosen_iff.2 (h S hS hsufficient))

end Store

/-! ### A worked example -/

namespace Sample

/-- The secrets of two parties. -/
def samples : List ShareSecrets :=
  [⟨"c2hhcmUtMA==", "0xab", "0xcd"⟩, ⟨"c2hhcmUtMQ==", "0xab", "0xcd"⟩]

/-- The JSON text of some secrets. -/
def jsonText (s : ShareSecrets) : List UInt8 :=
  Hex.ofAscii (jsonObject [("share", jsonString s.share), ("encPrivHex", jsonString s.encPrivHex),
    ("bindingSig", jsonString s.bindingSig)])

/-- Primitives that hide nothing. The tag of a text is the text, so no two texts share one. -/
def plainSeal : SealCrypto where
  pbkdf2 _ _ _ := ⟨List.replicate 64 0, by decide⟩
  hmac _ text := text
  aesEncrypt _ _ text := text
  aesDecrypt _ _ text := some text
  base64 := hexEncode
  unbase64 := hexDecode
  toVec s := if samples.contains s then .ok (jsonText s) else .error "no sample"
  fromSlice text := samples.find? fun s => jsonText s == text

theorem lawful_plainSeal : plainSeal.Lawful where
  decrypt_encrypt _ _ _ := rfl
  unbase64_base64 := hexDecode_hexEncode
  fromSlice_toVec secrets text h := by
    have hall : ∀ s ∈ samples, samples.find? (fun s' => jsonText s' == jsonText s) = some s := by
      decide
    simp only [plainSeal] at h
    split at h
    · rename_i hsample
      cases h
      exact hall secrets (List.contains_iff_mem.1 hsample)
    · cases h

/-- What is drawn for the file of a party. -/
def sampleIv (i : Nat) : Bytes 16 := ⟨List.replicate 16 (UInt8.ofNat i), List.length_replicate⟩

def walletInput : SealInput :=
  ⟨⟨"0x00112233445566778899aabbccddeeff00112233", by decide⟩, 2, 2, samples.map (·.share), "0xab",
    "0xcd", "correct horse", 1700000000, ⟨some (sampleIv 9), fun i => some (sampleIv i)⟩⟩

/-- What the file of a party says, before it has a tag. -/
def untaggedFile (i : Nat) (secrets : ShareSecrets) : ShareFile :=
  ⟨fileType, formatVersion, walletInput.address.str, 2, 2, UInt16.ofNat i, walletInput.now,
    hexEncode (sampleIv 9).1, kdfIterations, hexEncode (sampleIv i).1,
    hexEncode (jsonText secrets), ""⟩

/-- The tag of that. -/
def sampleTag (i : Nat) (secrets : ShareSecrets) : List UInt8 :=
  macInput (untaggedFile i secrets) (sampleIv i).1 (jsonText secrets)

/-- The file of a party. -/
def walletFile (i : Nat) (secrets : ShareSecrets) : ShareFile :=
  { untaggedFile i secrets with mac := hexEncode (sampleTag i secrets) }

def walletFiles : List ShareFile :=
  [walletFile 0 ⟨"c2hhcmUtMA==", "0xab", "0xcd"⟩, walletFile 1 ⟨"c2hhcmUtMQ==", "0xab", "0xcd"⟩]

def wallet : Seal plainSeal "correct horse" where
  input := walletInput
  salt := sampleIv 9
  files := walletFiles
  valid := by decide
  under := rfl
  drawn := rfl
  sealed := rfl

/-- Files that are presented as they were sealed need no assumption on the tags. -/
theorem ideal_of_sealed {P : SealCrypto} {passphrase : String} {W : List (Seal P passphrase)}
    {S : Seal P passphrase} (hS : S ∈ W) {files : List ShareFile} (h : ∀ f ∈ files, f ∈ S.files) :
    Ideal W files :=
  fun f hf _ iv ct mac _ hdecode _ => ⟨S, hS, f, h f hf, iv, ct, mac, hdecode, rfl⟩

/-- Both files open the wallet, in any order and one of them twice. -/
theorem open_shares_quorum :
    OpensFaithfully plainSeal "correct horse" [wallet] (walletFiles.reverse ++ walletFiles) ∧
      (openShares plainSeal (walletFiles.reverse ++ walletFiles) "correct horse").result =
        .opened ⟨walletInput.address, 2, 2, [(0, "c2hhcmUtMA=="), (1, "c2hhcmUtMQ==")],
          "0xab", "0xcd"⟩ := by
  have hsealed : ∀ f ∈ walletFiles.reverse ++ walletFiles, f ∈ wallet.files := by
    intro f hf
    rcases List.mem_append.1 hf with hf | hf
    · exact List.mem_reverse.1 hf
    · exact hf
  have hfaithful := (open_shares_iff lawful_plainSeal [wallet] (walletFiles.reverse ++ walletFiles)
    (ideal_of_sealed List.mem_cons_self hsealed)).2 fun _ _ _ i _ f hf =>
      ⟨wallet, List.mem_cons_self, f, hsealed f (List.mem_of_find?_eq_some hf), rfl, rfl⟩
  exact ⟨hfaithful, hfaithful.quorum wallet List.mem_cons_self hsealed (by decide)⟩

/-- A copy of the first file with another IV. -/
def alteredFile : ShareFile :=
  { walletFile 0 ⟨"c2hhcmUtMA==", "0xab", "0xcd"⟩ with iv := hexEncode (sampleIv 7).1 }

theorem unbase64_sample {f : ShareFile} {bytes : List UInt8}
    (h : f.ciphertext = plainSeal.base64 bytes) :
    plainSeal.unbase64 f.ciphertext = some bytes := by
  rw [h]
  exact lawful_plainSeal.unbase64_base64 bytes

theorem decode_walletFile (i : Nat) (secrets : ShareSecrets) :
    decodeFile plainSeal (walletFile i secrets) =
      some ((sampleIv i).1, jsonText secrets, sampleTag i secrets) :=
  decodeFile_eq (sampleIv i) rfl (unbase64_sample rfl) rfl

-- The copy has an IV of its own, and the tag of the file it was made from.
theorem decode_alteredFile : decodeFile plainSeal alteredFile =
    some ((sampleIv 7).1, jsonText ⟨"c2hhcmUtMA==", "0xab", "0xcd"⟩,
      sampleTag 0 ⟨"c2hhcmUtMA==", "0xab", "0xcd"⟩) :=
  decodeFile_eq (sampleIv 7) rfl (unbase64_sample rfl) rfl

/-- The altered copy does not verify, and stands in the way of the file it was made from. -/
theorem altered_copy_blocks :
    plainSeal.Lawful ∧ Ideal [wallet] (alteredFile :: walletFiles) ∧
      Sufficient wallet (alteredFile :: walletFiles) ∧
      (∀ w, (openShares plainSeal (alteredFile :: walletFiles) "correct horse").result ≠
        .opened w) ∧
      ¬ OpensFaithfully plainSeal "correct horse" [wallet] (alteredFile :: walletFiles) := by
  have hideal : Ideal [wallet] (alteredFile :: walletFiles) := by
    intro f hf salt iv ct mac hsalt hdecode hmac
    rcases List.mem_cons.1 hf with rfl | hf
    · -- The tag is that of another text.
      rw [decode_alteredFile, Option.some.injEq, Prod.mk.injEq, Prod.mk.injEq] at hdecode
      rcases hdecode with ⟨rfl, rfl, rfl⟩
      have haddress : 0 ∉ utf8 alteredFile.address :=
        zero_not_mem_address (WalletAddress.new_str walletInput.address)
      have hcovers : macInput (untaggedFile 0 ⟨"c2hhcmUtMA==", "0xab", "0xcd"⟩) (sampleIv 0).1
          (jsonText ⟨"c2hhcmUtMA==", "0xab", "0xcd"⟩) = macInput alteredFile (sampleIv 7).1
            (jsonText ⟨"c2hhcmUtMA==", "0xab", "0xcd"⟩) := hmac.symm
      have hwritten : SealedHeader (untaggedFile 0 ⟨"c2hhcmUtMA==", "0xab", "0xcd"⟩) :=
        ⟨rfl, rfl, ⟨walletInput.address, rfl⟩, ⟨sampleIv 9, rfl⟩⟩
      have hlength : (sampleIv 0).1.length = (sampleIv 7).1.length := rfl
      have hfields := macInput_inj hwritten rfl haddress (zero_not_mem_hex hsalt) hlength hcovers
      have hiv : (sampleIv 7).1 = (sampleIv 0).1 := hfields.2.1
      exact absurd hiv (by decide)
    · exact ideal_of_sealed (S := wallet) List.mem_cons_self (fun f hf => hf) f hf salt iv ct mac
        hsalt hdecode hmac
  have hsufficient : Sufficient wallet (alteredFile :: walletFiles) := by
    refine ⟨fun f hf => ?_, [0, 1], by decide, by decide, fun i hi => ?_⟩
    · rcases List.mem_cons.1 hf with rfl | hf
      · exact ⟨_, List.mem_cons_self, rfl, rfl, rfl, rfl, rfl, rfl, rfl, by decide⟩
      · exact ⟨f, hf, family_self (S := wallet) lawful_plainSeal hf⟩
    · rcases List.mem_cons.1 hi with rfl | hi
      · exact ⟨_, List.mem_cons_of_mem _ List.mem_cons_self, rfl, _, List.mem_cons_self, rfl, rfl⟩
      · rw [List.mem_singleton.1 hi]
        exact ⟨_, List.mem_cons_of_mem _ (List.mem_cons_of_mem _ List.mem_cons_self), rfl, _,
          List.mem_cons_of_mem _ List.mem_cons_self, rfl, rfl⟩
  have hblocked : ∀ w, (openShares plainSeal (alteredFile :: walletFiles) "correct horse").result ≠
      .opened w := by
    intro w hw
    rcases leads_genuine lawful_plainSeal hideal hsufficient hw 0 (by decide) alteredFile rfl with
      ⟨S, hS, g, hg, huntouched⟩
    rw [List.mem_singleton.1 hS] at hg
    have hbytes := huntouched.bytes
    rcases List.mem_cons.1 hg with rfl | hg
    · rw [decode_alteredFile, decode_walletFile] at hbytes
      exact absurd (congrArg Prod.fst (Option.some.inj hbytes)) (by decide)
    · rw [List.mem_singleton.1 hg, decode_alteredFile, decode_walletFile] at hbytes
      exact absurd (congrArg Prod.fst (Option.some.inj hbytes)) (by decide)
  refine ⟨lawful_plainSeal, hideal, hsufficient, hblocked, fun h => ?_⟩
  rcases h.spare wallet List.mem_cons_self hsufficient with ⟨w, hw⟩
  exact hblocked w hw

end Sample

end Tss

end PocketSkynet
