import Mathlib.Data.List.DropRight
import PocketSkynet.Lib.Decimal
import PocketSkynet.Lib.IpAddr
import PocketSkynet.Lib.Utf8

/-!
# The Host of a Web Address

Which host is contacted for an `https` address, as the standard for web addresses reads it.
Controls and spaces are taken off at the ends, tabs and line breaks are dropped throughout,
slashes lean either way, the user stands in front of the last at sign, and a colon that is not
in brackets is followed by the port. What is left is an address in brackets or a name, which is
decoded and brought into its ASCII form.

The ASCII form of a name is not spelled out here. What is relied on is that an ASCII name is kept
but for its case, and so are letters and dots behind a dot.

## Main definitions

* `HostRules`: How names and addresses are read.
* `HostRules.ascii`: The rules for ASCII names.
* `authority`: The part of an address that names the host.
* `parseHost`, `hostOf`, `contacted`: The host in a name, an authority, an address.

## Theorems

* `decodeName_append`: A name is decoded piece by piece.
* `parseHost_of_suffix`: A name that ends in letters and dots ends in them when it is read.
* `hostOf_of_suffix`, `contacted_of_suffix`: So does the host of an authority, and the host that
  is contacted.
-/

namespace PocketSkynet

namespace WebUrl

open Utf8

inductive Host where
  | domain (name : List Char)
  | address (a : IpAddr)
deriving DecidableEq, Repr

/-- Letters and dots. -/
def isHostLetter (c : Char) : Bool := c.isAlpha || c == '.'

/-- How names and addresses are read, and what is relied on. -/
structure HostRules where
  /-- The ASCII form of a name. -/
  toAscii : List Char → Option (List Char)
  readIpv4 : List Char → Option IpAddr
  readIpv6 : List Char → Option IpAddr
  toAscii_ascii : ∀ t r, (∀ c ∈ t, c.toNat < 128) → toAscii t = some r → r = t.map Char.toLower
  toAscii_behind_dot : ∀ sub t r, (∀ c ∈ t, isHostLetter c = true) →
    toAscii (sub ++ '.' :: t) = some r → ∃ s, r = s ++ '.' :: t.map Char.toLower
  toAscii_bracket : ∀ t r, '[' ∈ t → toAscii t = some r → '[' ∈ r
  chars_readIpv6 : ∀ t a, readIpv6 t = some a → ∀ c ∈ t, IpAddr.isAddrChar c = true

/-! ### Reading -/

def isControl (c : Char) : Bool := c.toNat ≤ 32

def isTabOrNewline (c : Char) : Bool := c == '\t' || c == '\n' || c == '\r'

/-- Without tabs and line breaks. -/
def unbroken (cs : List Char) : List Char := cs.filter fun c => !isTabOrNewline c

/-- Without controls and spaces at the ends either. -/
def cleaned (url : List Char) : List Char :=
  unbroken ((url.dropWhile isControl).rdropWhile isControl)

def isSlash (c : Char) : Bool := c == '/' || c == '\\'

def endsAuthority (c : Char) : Bool := isSlash c || c == '?' || c == '#'

/-- What is behind the last separator, or everything. -/
def behindLast (sep : Char) (cs : List Char) : List Char :=
  (cs.reverse.takeWhile (· ≠ sep)).reverse

/-- The part behind the scheme that names the host. -/
def authority (behind : List Char) : List Char :=
  (behind.dropWhile isSlash).takeWhile (!endsAuthority ·)

/-- A name and the port behind it, which begins at the first colon outside brackets. -/
def splitPort : Bool → List Char → List Char × List Char
  | _, [] => ([], [])
  | inside, c :: cs =>
      if c = ':' ∧ inside = false then ([], c :: cs)
      else
        let parts := splitPort (if c = '[' then true else if c = ']' then false else inside) cs
        (c :: parts.1, parts.2)

/-- Nothing, or a colon and a number of sixteen bits, if any. -/
def isPort (port : List Char) : Bool :=
  (port.drop 1).all Char.isDigit && Decimal.digitsValue (port.drop 1) ≤ 65535

/-- The byte that a percent sign and two digits stand for. -/
def escaped (b high low : UInt8) : Option UInt8 :=
  if b = 37 then do
    let high ← Hex.value (Char.ofNat high.toNat)
    let low ← Hex.value (Char.ofNat low.toNat)
    return UInt8.ofNat (16 * high + low)
  else none

/-- Bytes with their escapes taken back. -/
def percentDecode : List UInt8 → List UInt8
  | [] => []
  | [b] => [b]
  | [b, c] => [b, c]
  | b :: c :: d :: rest =>
      match escaped b c d with
      | some e => e :: percentDecode rest
      | none => b :: percentDecode (c :: d :: rest)

def decodeName (name : List Char) : List Char := lossy (percentDecode (bytesOf name))

/-- What no name may have in its ASCII form. -/
def isForbidden (c : Char) : Bool :=
  isControl c || c.toNat == 127 ||
    ['#', '/', ':', '<', '>', '?', '@', '[', '\\', ']', '^', '|', '%'].contains c

/-- A number in an address of version 4. -/
def isNumber (label : List Char) : Bool :=
  (!label.isEmpty && label.all Char.isDigit) ||
    ((label.take 2 == ['0', 'x'] || label.take 2 == ['0', 'X']) &&
      (label.drop 2).all fun c => (Hex.value c).isSome)

/-- The last label of a name, but for a dot at the end. -/
def lastLabel (name : List Char) : List Char :=
  behindLast '.' (if name.getLast? = some '.' then name.dropLast else name)

variable (R : HostRules)

/-- The host that a name or an address in brackets stands for. -/
def parseHost (name : List Char) : Option Host :=
  if name.head? = some '[' then
    if name.getLast? = some ']' then (R.readIpv6 (name.drop 1).dropLast).map .address else none
  else do
    let ascii ← R.toAscii (decodeName name)
    if ascii.isEmpty || ascii.any isForbidden then none
    else if isNumber (lastLabel ascii) then (R.readIpv4 ascii).map .address
    else some (.domain ascii)

/-- The host of an authority. -/
def hostOf (auth : List Char) : Option Host :=
  let parts := splitPort false (behindLast '@' auth)
  if parts.1.isEmpty || !isPort parts.2 then none else parseHost R parts.1

/-- The host that is contacted for an address. -/
def contacted (url : List Char) : Option Host :=
  let clean := cleaned url
  if (clean.take 6).map Char.toLower = "https:".toList then hostOf R (authority (clean.drop 6))
  else none

/-! ### Names -/

-- What is no digit does not belong to an escape in front of it.
theorem percentDecode_append {b : UInt8} (hb : Hex.value (Char.ofNat b.toNat) = none)
    (x y : List UInt8) :
    percentDecode (x ++ b :: y) = percentDecode x ++ percentDecode (b :: y) := by
  have hlow : ∀ a c, escaped a c b = none := by
    intro a c
    rw [escaped, hb]
    split
    · cases Hex.value (Char.ofNat c.toNat) <;> rfl
    · rfl
  have hhigh : ∀ a d, escaped a b d = none := by
    intro a d
    rw [escaped, hb]
    split <;> rfl
  have hone : ∀ a, percentDecode (a :: b :: y) = a :: percentDecode (b :: y) := by
    intro a
    cases y with
    | nil => rfl
    | cons d y => rw [percentDecode, hhigh]
  induction x using percentDecode.induct with
  | case1 => rfl
  | case2 a => exact hone a
  | case3 a c =>
      have htwo : percentDecode (a :: c :: b :: y) = a :: percentDecode (c :: b :: y) := by
        rw [percentDecode, hlow]
      rw [List.cons_append, List.cons_append, List.nil_append, htwo, hone]
      rfl
  | case4 a c d rest e hescaped ih =>
      rw [List.cons_append, List.cons_append, List.cons_append, percentDecode, hescaped,
        percentDecode, hescaped, ih]
      rfl
  | case5 a c d rest hescaped ih =>
      rw [List.cons_append, List.cons_append, List.cons_append, percentDecode, hescaped,
        percentDecode, hescaped, ← List.cons_append, ← List.cons_append, ih]
      rfl

theorem percentDecode_cons {b : UInt8} (hb : b ≠ 37) (y : List UInt8) :
    percentDecode (b :: y) = b :: percentDecode y := by
  have hnone : ∀ c d, escaped b c d = none := fun c d => if_neg hb
  cases y with
  | nil => rfl
  | cons c y =>
      cases y with
      | nil => rfl
      | cons d y => rw [percentDecode, hnone]

/-- A name is decoded piece by piece at an ASCII character that no escape can have. -/
theorem decodeName_append {c : Char} (hascii : c.toNat < 128) (hhex : Hex.value c = none)
    (hpercent : c ≠ '%') (a b : List Char) :
    decodeName (a ++ c :: b) = decodeName a ++ c :: decodeName b := by
  have hencode := encodeChar_ascii hascii
  rw [Char.ofNat_toNat] at hencode
  have hbyte : (UInt8.ofNat c.toNat).toNat = c.toNat := by
    rw [UInt8.toNat_ofNat']
    omega
  have hbytes : bytesOf (a ++ c :: b) = bytesOf a ++ UInt8.ofNat c.toNat :: bytesOf b := by
    rw [bytesOf_append, bytesOf, bytesOf, List.flatMap_cons, hencode]
    rfl
  have hnot : UInt8.ofNat c.toNat ≠ 37 := by
    intro heq
    rw [heq] at hbyte
    exact hpercent (Char.toNat_inj.1 hbyte.symm)
  have hread := lossy_append c (percentDecode (bytesOf b))
  rw [hencode, List.singleton_append] at hread
  rw [decodeName, hbytes, percentDecode_append (by rw [hbyte, Char.ofNat_toNat, hhex]),
    percentDecode_cons hnot, lossy_append_ascii (by rw [hbyte]; exact hascii), hread]
  rfl

-- A name without a percent sign is decoded to itself.
theorem decodeName_of_no_percent {t : List Char} (ht : '%' ∉ t) : decodeName t = t := by
  have hdecode : ∀ bytes : List UInt8, 37 ∉ bytes → percentDecode bytes = bytes := by
    intro bytes hbytes
    induction bytes with
    | nil => rfl
    | cons b bytes ih =>
        rw [percentDecode_cons (fun h => hbytes (h ▸ List.mem_cons_self)),
          ih fun h => hbytes (List.mem_cons_of_mem b h)]
  have hno : 37 ∉ bytesOf t := by
    intro hmem
    rcases List.mem_flatMap.1 hmem with ⟨c, hc, hbyte⟩
    have hcode := mem_encodeChar hbyte (by decide)
    have hpercent : c = '%' := Char.toNat_inj.1 hcode
    exact ht (hpercent ▸ hc)
  rw [decodeName, hdecode _ hno, lossy_bytesOf]

-- Letters are ASCII characters, and no percent signs.
theorem letters_plain {t : List Char} (ht : ∀ c ∈ t, isHostLetter c = true) : '%' ∉ t :=
  fun h => absurd (ht _ h) (by decide)

/-- What is behind the last separator. -/
theorem behindLast_append {sep : Char} (a : List Char) {b : List Char} (hb : sep ∉ b) :
    behindLast sep (a ++ sep :: b) = b := by
  rw [behindLast, List.reverse_append, List.reverse_cons, List.append_assoc,
    List.takeWhile_append_of_pos, List.singleton_append, List.takeWhile_cons_of_neg,
    List.append_nil, List.reverse_reverse]
  · simp
  · intro c hc
    have hc : c ∈ b := List.mem_reverse.1 hc
    simpa using fun heq : c = sep => hb (heq ▸ hc)

/-- A text is what is behind the last separator, and something that ends with one. -/
theorem behindLast_split (sep : Char) (cs : List Char) :
    ∃ front, cs = front ++ behindLast sep cs ∧ (front = [] ∨ front.getLast? = some sep) ∧
      sep ∉ behindLast sep cs := by
  by_cases hsep : sep ∈ cs
  · rcases List.eq_append_cons_of_mem (List.mem_reverse.2 hsep) with ⟨as, bs, heq, has⟩
    have hsplit : cs = bs.reverse ++ sep :: as.reverse := by
      rw [← List.reverse_reverse cs, heq]
      simp
    have hlabel : sep ∉ as.reverse := fun h => has (List.mem_reverse.1 h)
    refine ⟨bs.reverse ++ [sep], ?_, Or.inr List.getLast?_concat, ?_⟩
    · rw [hsplit, behindLast_append _ hlabel, List.append_assoc, List.singleton_append]
    · rw [hsplit, behindLast_append _ hlabel]
      exact hlabel
  · refine ⟨[], ?_, Or.inl rfl, ?_⟩
    · rw [behindLast, List.takeWhile_eq_self_iff.2, List.reverse_reverse, List.nil_append]
      intro c hc
      have hc : c ∈ cs := List.mem_reverse.1 hc
      simpa using fun heq : c = sep => hsep (heq ▸ hc)
    · exact fun h => hsep (List.mem_reverse.1 (List.takeWhile_subset _ (List.mem_reverse.1 h)))

theorem behindLast_of_not_mem {sep : Char} {b : List Char} (hb : sep ∉ b) :
    behindLast sep b = b := by
  rw [behindLast, List.takeWhile_eq_self_iff.2, List.reverse_reverse]
  intro c hc
  have hc : c ∈ b := List.mem_reverse.1 hc
  simpa using fun heq : c = sep => hb (heq ▸ hc)

-- Letters are told by their codes.
theorem isAlpha_iff {c : Char} : c.isAlpha = true ↔
    (65 ≤ c.toNat ∧ c.toNat ≤ 90) ∨ (97 ≤ c.toNat ∧ c.toNat ≤ 122) := by
  have hcases : c.isAlpha = (decide (65 ≤ c.val ∧ c.val ≤ 90) ||
      (decide (97 ≤ c.val) && decide (c.val ≤ 122))) := rfl
  rw [hcases]
  simp only [Bool.or_eq_true, Bool.and_eq_true, decide_eq_true_eq, UInt32.le_iff_toNat_le]
  exact Iff.rfl

theorem not_isNumber_of_letters {label : List Char} (hne : label ≠ [])
    (hdigit : ∀ d ∈ label, d.isDigit = false) : isNumber label = false := by
  cases label with
  | nil => exact absurd rfl hne
  | cons d label =>
      have hd := hdigit d List.mem_cons_self
      have hzero : d ≠ '0' := by
        rintro rfl
        cases hd
      simp [isNumber, hd, hzero]

-- What is behind the last dot of some letters and dots is some letters.
theorem not_isNumber_behindLast {t : List Char} {c : Char}
    (ht : ∀ d ∈ t, isHostLetter d = true) (hlast : t.getLast? = some c) (hc : c ≠ '.') :
    isNumber (behindLast '.' t) = false := by
  refine not_isNumber_of_letters ?_ ?_
  · rcases List.getLast?_eq_some_iff.1 hlast with ⟨init, rfl⟩
    rw [behindLast, List.reverse_append, List.reverse_singleton, List.singleton_append,
      List.takeWhile_cons_of_pos (by simpa using hc)]
    simp
  · intro d hd
    rw [behindLast, List.mem_reverse] at hd
    have hdot := List.mem_takeWhile_imp hd
    have hletter := ht d (List.mem_reverse.1 (List.takeWhile_subset _ hd))
    simp only [ne_eq, decide_not, Bool.not_eq_true', decide_eq_false_iff_not] at hdot
    simp only [isHostLetter, Bool.or_eq_true, beq_iff_eq, hdot, or_false] at hletter
    rw [isAlpha_iff] at hletter
    simp only [Char.isDigit, Bool.and_eq_false_iff, decide_eq_false_iff_not,
      UInt32.le_iff_toNat_le]
    have hval : d.val.toNat = d.toNat := rfl
    have hnine : ('9'.val).toNat = 57 := rfl
    omega

/-- What ends in letters and dots, of which the last is a letter, is no number. -/
theorem not_isNumber_lastLabel {name front t : List Char} {c : Char}
    (hname : name = t ∨ name = front ++ '.' :: t) (ht : ∀ d ∈ t, isHostLetter d = true)
    (hlast : t.getLast? = some c) (hc : c ≠ '.') : isNumber (lastLabel name) = false := by
  have hend : name.getLast? = some c := by
    rcases hname with rfl | rfl
    · exact hlast
    · rw [List.getLast?_append, List.getLast?_cons, hlast]
      rfl
  have hlabel : lastLabel name = behindLast '.' t := by
    rw [lastLabel, if_neg (by rw [hend]; simpa using hc)]
    rcases hname with rfl | rfl
    · rfl
    · by_cases hdot : '.' ∈ t
      · -- The last dot is the last one in `t`.
        rcases behindLast_split '.' t with ⟨init, hsplit, hinit, hlabel⟩
        generalize behindLast '.' t = label at *
        rcases hinit with rfl | hinit
        · rw [hsplit] at hdot
          exact absurd hdot hlabel
        · rcases List.getLast?_eq_some_iff.1 hinit with ⟨init, rfl⟩
          rw [hsplit, List.append_assoc, List.singleton_append, ← List.cons_append,
            ← List.append_assoc, behindLast_append _ hlabel]
      · rw [behindLast_append front hdot, behindLast_of_not_mem hdot]
  rw [hlabel]
  exact not_isNumber_behindLast ht hlast hc

variable {R : HostRules}

-- A name with a bracket in it is neither an address nor a name.
theorem parseHost_bracket {name : List Char} {c : Char} (hbracket : '[' ∈ name) (hmem : c ∈ name)
    (hc : IpAddr.isAddrChar c = false) (hopen : c ≠ '[') (hclose : c ≠ ']') :
    parseHost R name = none := by
  rw [parseHost]
  by_cases hhead : name.head? = some '['
  · rw [if_pos hhead]
    by_cases hend : name.getLast? = some ']'
    · -- Between the brackets stands a character that no address has.
      rw [if_pos hend]
      cases hread : R.readIpv6 (name.drop 1).dropLast with
      | none => rfl
      | some a =>
          exfalso
          rcases List.getLast?_eq_some_iff.1 hend with ⟨init, rfl⟩
          cases init with
          | nil => cases hhead
          | cons d init =>
              have hd : d = '[' := by simpa using hhead
              have hinside : c ∈ init := by
                rw [List.mem_append, List.mem_cons, List.mem_singleton, hd] at hmem
                rcases hmem with (hmem | hmem) | hmem
                · exact absurd hmem hopen
                · exact hmem
                · exact absurd hmem hclose
              have hall := R.chars_readIpv6 _ a hread c (by simpa using hinside)
              rw [hc] at hall
              cases hall
    · rw [if_neg hend]
  · rw [if_neg hhead]
    rcases List.mem_iff_append.1 hbracket with ⟨front, rest, hname⟩
    cases hascii : R.toAscii (decodeName name) with
    | none => rfl
    | some ascii =>
        have hkept : '[' ∈ ascii := by
          refine R.toAscii_bracket _ ascii ?_ hascii
          rw [hname, decodeName_append (by decide) (by decide) (by decide)]
          exact List.mem_append_right _ List.mem_cons_self
        have hany : ascii.any isForbidden = true := List.any_eq_true.2 ⟨'[', hkept, by decide⟩
        rw [Option.bind_eq_bind, Option.bind_some, hany, Bool.or_true, if_pos rfl]

-- A letter is lowered by thirty-two, and nothing else is.
theorem toLower_cases (c : Char) : c.toLower = c ∨
    (65 ≤ c.toNat ∧ c.toNat ≤ 90 ∧ c.toLower.toNat = c.toNat + 32) := by
  by_cases hupper : c.val ≥ 'A'.val ∧ c.val ≤ 'Z'.val
  · have hlow : 65 ≤ c.toNat := UInt32.le_iff_toNat_le.1 hupper.1
    have hhigh : c.toNat ≤ 90 := UInt32.le_iff_toNat_le.1 hupper.2
    have hlower : c.toLower.val = c.val + ('a'.val - 'A'.val) :=
      congrArg Char.val (dif_pos hupper)
    refine Or.inr ⟨hlow, hhigh, ?_⟩
    change c.toLower.val.toNat = c.toNat + 32
    rw [hlower]
    have hval : c.val.toNat = c.toNat := rfl
    have hshift : ('a'.val - 'A'.val).toNat = 32 := rfl
    rw [UInt32.toNat_add, hval, hshift]
    omega
  · exact Or.inl (dif_neg hupper)

theorem isAlpha_toLower (c : Char) : c.toLower.isAlpha = c.isAlpha := by
  rcases toLower_cases c with hself | ⟨hlow, hhigh, hcode⟩
  · rw [hself]
  · rw [Bool.eq_iff_iff, isAlpha_iff, isAlpha_iff]
    omega

-- Only a dot is a dot in lowercase.
theorem toLower_eq_dot {c : Char} : c.toLower = '.' ↔ c = '.' := by
  rcases toLower_cases c with hself | ⟨hlow, hhigh, hcode⟩
  · rw [hself]
  · refine iff_of_false ?_ ?_
    · intro hdot
      rw [hdot] at hcode
      have hval : '.'.toNat = 46 := rfl
      omega
    · rintro rfl
      exact absurd hlow (by decide)

-- Letters and dots are those that are so in lowercase.
theorem isHostLetter_toLower (c : Char) : isHostLetter c.toLower = isHostLetter c := by
  have hdot : (c.toLower == '.') = (c == '.') := by
    rw [Bool.eq_iff_iff, beq_iff_eq, beq_iff_eq, toLower_eq_dot]
  rw [isHostLetter, isAlpha_toLower, hdot, ← isHostLetter]

theorem letters_ascii {t : List Char} (ht : ∀ c ∈ t, isHostLetter c = true) :
    ∀ c ∈ t, c.toNat < 128 := by
  intro c hc
  have hletter := ht c hc
  rw [isHostLetter, Bool.or_eq_true, beq_iff_eq] at hletter
  rcases hletter with halpha | rfl
  · rw [isAlpha_iff] at halpha
    omega
  · decide

/-- A name that ends in letters and dots ends in them when it is read, but for their case. -/
theorem parseHost_of_suffix {name t : List Char} {c : Char} {H : Host}
    (hname : name = t ∨ ∃ sub, name = sub ++ '.' :: t)
    (ht : ∀ d ∈ t, isHostLetter d = true) (hlast : t.getLast? = some c)
    (hc : IpAddr.isAddrChar c = false) (h : parseHost R name = some H) :
    ∃ d, H = .domain d ∧
      (d = t.map Char.toLower ∨ ∃ sub, d = sub ++ '.' :: t.map Char.toLower) := by
  have hmem : c ∈ t := List.mem_of_getLast? hlast
  have halpha : c.isAlpha = true := by
    have hletter := ht c hmem
    rw [isHostLetter, Bool.or_eq_true, beq_iff_eq] at hletter
    rcases hletter with halpha | rfl
    · exact halpha
    · cases hc
  have hlower : c.toLower ≠ '.' := by
    intro hdot
    rw [← isAlpha_toLower, hdot] at halpha
    cases halpha
  by_cases hbracket : '[' ∈ name
  · -- An address in brackets has no such letter, and a name has no brackets.
    have hname : c ∈ name := by
      rcases hname with rfl | ⟨sub, rfl⟩
      · exact hmem
      · exact List.mem_append_right _ (List.mem_cons_of_mem _ hmem)
    rw [parseHost_bracket hbracket hname hc] at h
    · cases h
    · rintro rfl
      cases halpha
    · rintro rfl
      cases halpha
  have hhead : name.head? ≠ some '[' := fun h => hbracket (List.mem_of_head? h)
  rw [parseHost, if_neg hhead] at h
  rcases Option.bind_eq_some_iff.1 h with ⟨ascii, hascii, h⟩
  have hsuffix : ∃ front,
      ascii = t.map Char.toLower ∨ ascii = front ++ '.' :: t.map Char.toLower := by
    rcases hname with rfl | ⟨sub, rfl⟩
    · rw [decodeName_of_no_percent (letters_plain ht)] at hascii
      exact ⟨[], Or.inl (R.toAscii_ascii _ _ (letters_ascii ht) hascii)⟩
    · rw [decodeName_append (by decide) (by decide) (by decide),
        decodeName_of_no_percent (letters_plain ht)] at hascii
      rcases R.toAscii_behind_dot _ _ _ ht hascii with ⟨front, hfront⟩
      exact ⟨front, Or.inr hfront⟩
  rcases hsuffix with ⟨front, hsuffix⟩
  have hnumber : isNumber (lastLabel ascii) = false := by
    refine not_isNumber_lastLabel hsuffix ?_ (by rw [List.getLast?_map, hlast]; rfl) hlower
    intro d hd
    rcases List.mem_map.1 hd with ⟨e, he, rfl⟩
    rw [isHostLetter_toLower]
    exact ht e he
  rw [hnumber] at h
  split at h
  · cases h
  · rw [if_neg Bool.false_ne_true] at h
    exact ⟨ascii, (Option.some.inj h).symm, hsuffix.imp_right fun h => ⟨front, h⟩⟩

/-! ### Authorities -/

-- The name in front of a colon is read as a whole, and alone if it has no brackets.
theorem splitPort_append {name port : List Char} (hname : ':' ∉ name) (inside : Bool) :
    ∃ more, (splitPort inside (name ++ port)).1 = name ++ more := by
  induction name generalizing inside with
  | nil => exact ⟨_, rfl⟩
  | cons c name ih =>
      rcases ih (fun h => hname (List.mem_cons_of_mem c h))
        (if c = '[' then true else if c = ']' then false else inside) with ⟨more, hmore⟩
      refine ⟨more, ?_⟩
      rw [List.cons_append, splitPort, if_neg]
      · simp only [hmore, List.cons_append]
      · exact fun h => hname (h.1 ▸ List.mem_cons_self)

theorem splitPort_eq {name port : List Char} (hname : ':' ∉ name) (hbracket : '[' ∉ name)
    (hport : port = [] ∨ port.head? = some ':') :
    splitPort false (name ++ port) = (name, port) := by
  induction name with
  | nil =>
      cases port with
      | nil => rfl
      | cons c port =>
          have hc : c = ':' := by simpa using hport
          rw [List.nil_append, splitPort, if_pos ⟨hc, rfl⟩]
  | cons c name ih =>
      have hopen : c ≠ '[' := fun h => hbracket (h ▸ List.mem_cons_self)
      rw [List.cons_append, splitPort, if_neg, if_neg hopen, ite_self, ih]
      · exact fun h => hname (List.mem_cons_of_mem c h)
      · exact fun h => hbracket (List.mem_cons_of_mem c h)
      · exact fun h => hname (h.1 ▸ List.mem_cons_self)

/-- The host of an authority whose name ends in letters and dots, whoever the user is and
    whatever the port. -/
theorem hostOf_of_suffix {user name port t : List Char} {c : Char} {H : Host}
    (huser : user = [] ∨ user.getLast? = some '@') (hat : '@' ∉ name ++ port)
    (hcolon : ':' ∉ name) (hport : port = [] ∨ port.head? = some ':')
    (hname : name = t ∨ ∃ sub, name = sub ++ '.' :: t)
    (ht : ∀ d ∈ t, isHostLetter d = true) (hlast : t.getLast? = some c)
    (hc : IpAddr.isAddrChar c = false) (h : hostOf R (user ++ (name ++ port)) = some H) :
    ∃ d, H = .domain d ∧
      (d = t.map Char.toLower ∨ ∃ sub, d = sub ++ '.' :: t.map Char.toLower) := by
  have hbehind : behindLast '@' (user ++ (name ++ port)) = name ++ port := by
    rcases huser with rfl | huser
    · exact behindLast_of_not_mem hat
    · rcases List.getLast?_eq_some_iff.1 huser with ⟨init, rfl⟩
      rw [List.append_assoc, List.singleton_append, behindLast_append init hat]
  rw [hostOf, hbehind] at h
  split at h
  · cases h
  · by_cases hbracket : '[' ∈ name
    · exfalso
      rcases @splitPort_append name port hcolon false with ⟨more, hmore⟩
      have hmem : c ∈ name := by
        rcases hname with rfl | ⟨sub, rfl⟩
        · exact List.mem_of_getLast? hlast
        · exact List.mem_append_right _ (List.mem_cons_of_mem _ (List.mem_of_getLast? hlast))
      have hletter := ht c (List.mem_of_getLast? hlast)
      rw [hmore, parseHost_bracket (List.mem_append_left _ hbracket)
        (List.mem_append_left _ hmem) hc] at h
      · cases h
      · rintro rfl
        cases hletter
      · rintro rfl
        cases hletter
    · rw [splitPort_eq hcolon hbracket hport] at h
      exact parseHost_of_suffix hname ht hlast hc h

/-! ### Addresses -/

theorem rdropWhile_append {p : Char → Bool} {a : List Char} {c : Char}
    (hlast : a.getLast? = some c) (hc : p c = false) (b : List Char) :
    (a ++ b).rdropWhile p = a ++ b.rdropWhile p := by
  rcases List.getLast?_eq_some_iff.1 hlast with ⟨init, rfl⟩
  rw [List.rdropWhile, List.reverse_append, List.dropWhile_append, List.rdropWhile]
  have hkept : ((init ++ [c]).reverse.dropWhile p) = (init ++ [c]).reverse := by
    rw [List.reverse_append, List.reverse_singleton, List.singleton_append,
      List.dropWhile_cons_of_neg (by simp [hc])]
  split
  · rename_i hempty
    rw [List.isEmpty_iff.1 hempty, hkept]
    simp
  · simp

theorem unbroken_append (cs ds : List Char) : unbroken (cs ++ ds) = unbroken cs ++ unbroken ds :=
  List.filter_append cs ds

theorem unbroken_subset (cs : List Char) : unbroken cs ⊆ cs := List.filter_subset_self cs

theorem unbroken_cons {c : Char} (hc : isTabOrNewline c = false) (cs : List Char) :
    unbroken (c :: cs) = c :: unbroken cs :=
  List.filter_cons_of_pos (by simp [hc])

theorem unbroken_letters {t : List Char} (ht : ∀ c ∈ t, isHostLetter c = true) :
    unbroken t = t := by
  refine List.filter_eq_self.2 fun c hc => ?_
  have hc := ht c hc
  by_contra htab
  simp only [isTabOrNewline, Bool.not_not_eq, Bool.or_eq_true, beq_iff_eq] at htab
  rcases htab with (rfl | rfl) | rfl <;> cases hc

-- The end of an authority is neither a control nor a line break.
theorem plain_of_endsAuthority {c : Char} (hc : endsAuthority c = true) :
    isControl c = false ∧ isTabOrNewline c = false := by
  simp only [endsAuthority, isSlash, Bool.or_eq_true, beq_iff_eq] at hc
  rcases hc with ((rfl | rfl) | rfl) | rfl <;> exact ⟨rfl, rfl⟩

theorem isControl_of_letter {c : Char} (hc : isHostLetter c = true) : isControl c = false := by
  rw [isHostLetter, Bool.or_eq_true, beq_iff_eq] at hc
  rcases hc with halpha | rfl
  · rw [isAlpha_iff] at halpha
    rw [isControl, decide_eq_false_iff_not]
    omega
  · rfl

/-- Without what is dropped an address is its scheme and what is behind. -/
theorem cleaned_https (rest : List Char) :
    cleaned ("https://".toList ++ rest) =
      "https://".toList ++ unbroken (rest.rdropWhile isControl) := by
  have hfront : ("https://".toList ++ rest).dropWhile isControl = "https://".toList ++ rest := rfl
  rw [cleaned, hfront, @rdropWhile_append isControl "https://".toList '/' rfl rfl rest,
    unbroken_append]
  rfl

theorem contacted_https (rest : List Char) :
    contacted R ("https://".toList ++ rest) =
      hostOf R (authority (unbroken (rest.rdropWhile isControl))) := by
  rw [contacted, cleaned_https]
  rfl

-- Controls at the end are taken from behind the authority, or from its end.
theorem rdropWhile_port (port tail : List Char)
    (htail : ∀ s, tail.head? = some s → endsAuthority s = true) :
    ∃ kept behind, (port ++ tail).rdropWhile isControl = kept ++ behind ∧ kept <+: port ∧
      ∀ s, behind.head? = some s → endsAuthority s = true := by
  cases tail with
  | nil =>
      rw [List.append_nil]
      exact ⟨port.rdropWhile isControl, [], (List.append_nil _).symm,
        List.rdropWhile_prefix _ _, fun s hs => by cases hs⟩
  | cons s tail =>
      have hs := htail s rfl
      have hdrop := @rdropWhile_append isControl (port ++ [s]) s
        (List.getLast?_concat) (plain_of_endsAuthority hs).1 tail
      rw [List.append_assoc, List.singleton_append] at hdrop
      refine ⟨port, s :: tail.rdropWhile isControl, ?_, List.prefix_refl _, ?_⟩
      · rw [hdrop, List.append_assoc, List.singleton_append]
      · intro s' hs'
        cases hs'
        exact hs

theorem authority_append {a b : List Char} (ha : a ≠ [])
    (hinner : ∀ d ∈ a, endsAuthority d = false)
    (hb : ∀ s, b.head? = some s → endsAuthority s = true) : authority (a ++ b) = a := by
  have hstop : b.takeWhile (!endsAuthority ·) = [] := by
    cases b with
    | nil => rfl
    | cons s b => rw [List.takeWhile_cons_of_neg (by simp [hb s rfl])]
  have hfirst : (a ++ b).dropWhile isSlash = a ++ b := by
    cases a with
    | nil => exact absurd rfl ha
    | cons d a =>
        have hd := hinner d List.mem_cons_self
        simp only [endsAuthority, Bool.or_eq_false_iff] at hd
        rw [List.cons_append, List.dropWhile_cons_of_neg (by simp [hd.1.1])]
  rw [authority, hfirst, List.takeWhile_append_of_pos (fun d hd => by simp [hinner d hd]), hstop,
    List.append_nil]

/-- The host that is contacted ends as the name in the address does, if no slash leans backward
    in front of it. -/
theorem contacted_of_suffix {user name port tail t : List Char} {c : Char} {H : Host}
    (huser : user = [] ∨ user.getLast? = some '@') (hat : '@' ∉ name ++ port)
    (hcolon : ':' ∉ name) (hport : port = [] ∨ port.head? = some ':')
    (hname : name = t ∨ ∃ sub, name = sub ++ '.' :: t)
    (ht : ∀ d ∈ t, isHostLetter d = true) (hlast : t.getLast? = some c)
    (hc : IpAddr.isAddrChar c = false)
    (hinner : ∀ d ∈ user ++ (name ++ port), endsAuthority d = false)
    (htail : ∀ s, tail.head? = some s → endsAuthority s = true)
    (h : contacted R ("https://".toList ++ (user ++ (name ++ (port ++ tail)))) = some H) :
    ∃ d, H = .domain d ∧
      (d = t.map Char.toLower ∨ ∃ sub, d = sub ++ '.' :: t.map Char.toLower) := by
  have hletter := ht c (List.mem_of_getLast? hlast)
  have hend : name.getLast? = some c := by
    rcases hname with rfl | ⟨sub, rfl⟩
    · exact hlast
    · rw [List.getLast?_append, List.getLast?_cons, hlast]
      rfl
  rcases rdropWhile_port port tail htail with ⟨kept, behind, hdrop, hkept, hbehind⟩
  have hrest : unbroken ((user ++ (name ++ (port ++ tail))).rdropWhile isControl) =
      (unbroken user ++ (unbroken name ++ unbroken kept)) ++ unbroken behind := by
    have hlastTwo : (user ++ name).getLast? = some c := by
      rw [List.getLast?_append, hend]
      rfl
    rw [← List.append_assoc, rdropWhile_append hlastTwo (isControl_of_letter hletter), hdrop]
    simp only [unbroken_append, List.append_assoc]
  -- What the host is read from has the same shape when the breaks are dropped.
  have hname' : unbroken name = t ∨ ∃ sub, unbroken name = sub ++ '.' :: t := by
    rcases hname with rfl | ⟨sub, rfl⟩
    · exact Or.inl (unbroken_letters ht)
    · refine Or.inr ⟨unbroken sub, ?_⟩
      rw [unbroken_append, unbroken_cons rfl, unbroken_letters ht]
  have huser' : unbroken user = [] ∨ (unbroken user).getLast? = some '@' := by
    rcases huser with rfl | huser
    · exact Or.inl rfl
    · rcases List.getLast?_eq_some_iff.1 huser with ⟨init, rfl⟩
      rw [unbroken_append, unbroken_cons rfl]
      exact Or.inr List.getLast?_concat
  have hport' : unbroken kept = [] ∨ (unbroken kept).head? = some ':' := by
    cases kept with
    | nil => exact Or.inl rfl
    | cons d kept =>
        rcases hkept with ⟨more, rfl⟩
        have hd : d = ':' := by simpa using hport
        rw [hd, unbroken_cons rfl]
        exact Or.inr rfl
  have hne : unbroken name ≠ [] := by
    intro hnil
    rcases hname' with heq | ⟨sub, heq⟩
    · rw [← heq, hnil] at hlast
      cases hlast
    · rw [hnil] at heq
      cases sub <;> cases heq
  have hsub : unbroken user ++ (unbroken name ++ unbroken kept) ⊆ user ++ (name ++ port) := by
    refine List.append_subset.2 ⟨?_, List.append_subset.2 ⟨?_, ?_⟩⟩
    · exact fun d hd => List.mem_append_left _ (unbroken_subset _ hd)
    · exact fun d hd => List.mem_append_right _ (List.mem_append_left _ (unbroken_subset _ hd))
    · exact fun d hd => List.mem_append_right _
        (List.mem_append_right _ (hkept.subset (unbroken_subset _ hd)))
  rw [contacted_https, hrest, authority_append] at h
  · refine hostOf_of_suffix huser' ?_ ?_ hport' hname' ht hlast hc h
    · intro hmem
      refine hat (List.mem_append.2 ((List.mem_append.1 hmem).imp ?_ ?_))
      · exact fun hd => unbroken_subset _ hd
      · exact fun hd => hkept.subset (unbroken_subset _ hd)
    · exact fun hmem => hcolon (unbroken_subset _ hmem)
  · simp [hne]
  · exact fun d hd => hinner d (hsub hd)
  · intro s hs
    cases behind with
    | nil => cases hs
    | cons d behind =>
        have hd := hbehind d rfl
        rw [unbroken_cons (plain_of_endsAuthority hd).2] at hs
        cases hs
        exact hd

/-! ### Plain names -/

theorem splitPort_split (inside : Bool) (cs : List Char) :
    cs = (splitPort inside cs).1 ++ (splitPort inside cs).2 ∧
      ((splitPort inside cs).2 = [] ∨ (splitPort inside cs).2.head? = some ':') := by
  induction cs generalizing inside with
  | nil => exact ⟨rfl, Or.inl rfl⟩
  | cons c cs ih =>
      rw [splitPort]
      split
      · rename_i hc
        rw [hc.1]
        exact ⟨rfl, Or.inr rfl⟩
      · rcases ih (if c = '[' then true else if c = ']' then false else inside) with ⟨heq, hport⟩
        refine ⟨?_, hport⟩
        rw [List.cons_append, ← heq]

-- A name that is read has no colon, so it ends at the first one.
theorem takeWhile_colon {name port : List Char} (hname : ':' ∉ name)
    (hport : port = [] ∨ port.head? = some ':') : (name ++ port).takeWhile (· ≠ ':') = name := by
  have hstop : port.takeWhile (· ≠ ':') = [] := by
    cases port with
    | nil => rfl
    | cons c port =>
        have hc : c = ':' := by simpa using hport
        rw [List.takeWhile_cons_of_neg (by simp [hc])]
  rw [List.takeWhile_append_of_pos, hstop, List.append_nil]
  intro c hc
  simpa using fun heq : c = ':' => hname (heq ▸ hc)

/-- The name of a host is as it is written, but for its case, if that is in ASCII and without
    escapes. -/
theorem parseHost_domain {name d : List Char} (hascii : ∀ c ∈ name, c.toNat < 128)
    (hpercent : '%' ∉ name) (h : parseHost R name = some (.domain d)) :
    name.map Char.toLower = d ∧ ':' ∉ name := by
  rw [parseHost] at h
  by_cases hhead : name.head? = some '['
  · rw [if_pos hhead] at h
    split at h
    · rcases Option.map_eq_some_iff.1 h with ⟨a, -, ha⟩
      cases ha
    · cases h
  · rw [if_neg hhead, decodeName_of_no_percent hpercent] at h
    rcases Option.bind_eq_some_iff.1 h with ⟨ascii, hread, h⟩
    have hlower := R.toAscii_ascii _ _ hascii hread
    split at h
    · cases h
    · rename_i hforbidden
      split at h
      · rcases Option.map_eq_some_iff.1 h with ⟨a, -, ha⟩
        cases ha
      · cases h
        refine ⟨hlower.symm, fun hcolon => hforbidden ?_⟩
        have hmem : ':' ∈ d := by
          rw [hlower]
          exact List.mem_map.2 ⟨':', hcolon, by decide⟩
        rw [Bool.or_eq_true]
        exact Or.inr (List.any_eq_true.2 ⟨':', hmem, by decide⟩)

/-- And so is the name of an authority. -/
theorem hostOf_domain {auth d : List Char} (hascii : ∀ c ∈ auth, c.toNat < 128)
    (hpercent : '%' ∉ auth) (h : hostOf R auth = some (.domain d)) :
    ((behindLast '@' auth).takeWhile (· ≠ ':')).map Char.toLower = d := by
  rcases splitPort_split false (behindLast '@' auth) with ⟨hsplit, hport⟩
  rcases behindLast_split '@' auth with ⟨user, huser, -⟩
  have hsub : (splitPort false (behindLast '@' auth)).1 ⊆ auth := by
    intro c hc
    rw [huser, hsplit]
    exact List.mem_append_right _ (List.mem_append_left _ hc)
  rw [hostOf] at h
  split at h
  · cases h
  · rcases parseHost_domain (fun c hc => hascii c (hsub hc)) (fun hc => hpercent (hsub hc)) h with
      ⟨hname, hcolon⟩
    rw [hsplit, takeWhile_colon hcolon hport, hname]

/-- The rules for ASCII names. -/
def HostRules.ascii : HostRules where
  toAscii t := if t.all (·.toNat < 128) then some (t.map Char.toLower) else none
  readIpv4 := IpAddr.parse
  readIpv6 := IpAddr.parse
  toAscii_ascii t r ht h := by
    rw [if_pos (List.all_eq_true.2 fun c hc => decide_eq_true (ht c hc))] at h
    exact (Option.some.inj h).symm
  toAscii_behind_dot sub t r ht h := by
    split at h
    · refine ⟨sub.map Char.toLower, ?_⟩
      rw [← Option.some.inj h, List.map_append, List.map_cons]
      rfl
    · cases h
  toAscii_bracket t r ht h := by
    split at h
    · rw [← Option.some.inj h]
      exact List.mem_map.2 ⟨'[', ht, by decide⟩
    · cases h
  chars_readIpv6 t a h := IpAddr.chars_parse h

end WebUrl

end PocketSkynet
