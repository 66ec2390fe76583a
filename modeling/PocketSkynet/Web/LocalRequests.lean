import Mathlib.Data.List.Basic
import PocketSkynet.Lib.Padded
import PocketSkynet.Lib.Utf8

/-!
# Requests of the Local Backend

The client writes a path: segments after slashes and parameters after a question mark, with
the segments and the values of the parameters escaped byte by byte. The local backend splits
it and takes the escapes off again. What the one escapes and what the other reads as an escape
are different rules, so the round trip is a theorem: every byte that means something to the
splitter or the decoder is escaped, and every escape is read as its byte. The names of the
parameters are written as they are, so they must not have any of these bytes.

The rows of a room are found by the order of their keys, and the order is one of texts. The
serial is padded to twelve digits. The range of the rows after a serial begins at the next
serial, which is why it is wrong after the last serial of twelve digits: the next one has
thirteen.

The decoder reads by index and adds up a byte from two digits. `decodeFrom` makes both checks
that a read or a sum out of range would panic on, and `decodeFrom_eq` says that they hold.

## Main definitions

* `encodeSegment`, `percentDecode`: The escapes of the client, and the decoder.
* `requestPath`, `splitRequest`: A path as the client writes it, and its parts.
* `messageKey`, `roomRange`, `roomRangeAfter`: The keys of a room's rows.

## Theorems

* `splitRequest_requestPath`: A path is split into its parts.
* `messageKey_lt_iff`: The keys of a room are ordered as the serials.
* `mem_roomRange_iff`, `mem_roomRangeAfter_iff`: The keys in a range.
-/

namespace PocketSkynet

namespace LocalRequests

open Utf8

/-! ### Escapes -/

/-- The bytes that are written as they are: letters, digits and four marks. -/
def isUnreserved (n : ℕ) : Bool :=
  (65 ≤ n && n ≤ 90) || (97 ≤ n && n ≤ 122) || (48 ≤ n && n ≤ 57) || n = 45 || n = 95 ||
    n = 46 || n = 126

/-- A digit to the base sixteen, a capital letter above nine. -/
def hexDigit (n : ℕ) : Char := Char.ofNat (if n < 10 then 48 + n else 55 + n)

/-- One byte in a path: itself, or a percent sign and two digits. -/
def encodeByte (b : UInt8) : List Char :=
  if isUnreserved b.toNat then [Char.ofNat b.toNat]
  else ['%', hexDigit (b.toNat / 16), hexDigit (b.toNat % 16)]

/-- Percent-encode one path segment. -/
def encodeSegment (s : List Char) : List Char := (bytesOf s).flatMap encodeByte

def hexVal (b : UInt8) : Option ℕ :=
  if 48 ≤ b.toNat ∧ b.toNat ≤ 57 then some (b.toNat - 48)
  else if 97 ≤ b.toNat ∧ b.toNat ≤ 102 then some (b.toNat - 97 + 10)
  else if 65 ≤ b.toNat ∧ b.toNat ≤ 70 then some (b.toNat - 65 + 10)
  else none

/-- A sum that must fit in a byte. -/
def checkedByte (n : ℕ) : Option UInt8 := if n < 256 then some (UInt8.ofNat n) else none

/-- The loop of the decoder from an index on. It is `none` where a read or a sum is out of
    range. -/
def decodeFrom (bytes : List UInt8) (i : ℕ) : Option (List UInt8) :=
  if i < bytes.length then do
    let b ← bytes[i]?
    if b = 37 ∧ i + 2 < bytes.length then
      let high ← bytes[i + 1]?
      let low ← bytes[i + 2]?
      match hexVal high, hexVal low with
      | some high, some low =>
          let byte ← checkedByte (high * 16 + low)
          let out ← decodeFrom bytes (i + 3)
          return byte :: out
      | _, _ =>
          let out ← decodeFrom bytes (i + 1)
          return 37 :: out
    else
      let out ← decodeFrom bytes (i + 1)
      return (if b = 43 then 32 else b) :: out
  else some []
termination_by bytes.length - i

/-- Decode the escapes, and `+` as a space. -/
def percentDecode (s : List Char) : Option (List Char) := (decodeFrom (bytesOf s) 0).map lossy

/-- What the loop makes of the bytes that are left. -/
def decoded : List UInt8 → List UInt8
  | [] => []
  | [b] => [if b = 43 then 32 else b]
  | [b, c] => (if b = 43 then 32 else b) :: decoded [c]
  | b :: high :: low :: rest =>
      if b = 37 then
        match hexVal high, hexVal low with
        | some h, some l => UInt8.ofNat (h * 16 + l) :: decoded rest
        | _, _ => 37 :: decoded (high :: low :: rest)
      else (if b = 43 then 32 else b) :: decoded (high :: low :: rest)

theorem hexVal_lt {b : UInt8} {n : ℕ} (h : hexVal b = some n) : n < 16 := by
  unfold hexVal at h
  split_ifs at h <;>
    · rw [← Option.some.inj h]
      omega

-- A byte that begins no escape is taken as it is, or as a space.
theorem decoded_cons {b : UInt8} {rest : List UInt8} (h : ¬(b = 37 ∧ 2 ≤ rest.length)) :
    decoded (b :: rest) = (if b = 43 then 32 else b) :: decoded rest := by
  match rest with
  | [] => rfl
  | [_] => rfl
  | high :: low :: rest =>
      have hb : b ≠ 37 := fun hb => h ⟨hb, by simp⟩
      rw [decoded, if_neg hb]

/-- The loop reads to the end, and every read and every sum is in range. -/
theorem decodeFrom_eq (bytes : List UInt8) : ∀ i,
    decodeFrom bytes i = some (decoded (bytes.drop i)) := by
  -- The induction is on the number of bytes that are left.
  have hleft : ∀ n i, bytes.length - i = n →
      decodeFrom bytes i = some (decoded (bytes.drop i)) := by
    intro n
    induction n using Nat.strong_induction_on with
    | _ n ih =>
        intro i hn
        rw [decodeFrom]
        by_cases hi : i < bytes.length
        · have hone := ih (bytes.length - (i + 1)) (by omega) (i + 1) rfl
          have hget := List.getElem?_eq_getElem hi
          have hdrop := List.drop_eq_getElem_cons hi
          rw [if_pos hi, hget, hdrop, Option.bind_eq_bind, Option.bind_some]
          by_cases hescape : bytes[i] = 37 ∧ i + 2 < bytes.length
          · have hi1 : i + 1 < bytes.length := by omega
            have hthree := ih (bytes.length - (i + 3)) (by omega) (i + 3) rfl
            have hdrop1 := List.drop_eq_getElem_cons hi1
            have hdrop2 := List.drop_eq_getElem_cons hescape.2
            simp only [if_pos hescape, List.getElem?_eq_getElem hi1,
              List.getElem?_eq_getElem hescape.2, Option.bind_eq_bind, Option.bind_some]
            rw [hone, hthree, hdrop1, hdrop2, decoded, if_pos hescape.1]
            cases hhigh : hexVal bytes[i + 1] with
            | none => rfl
            | some high =>
                cases hlow : hexVal bytes[i + 2] with
                | none => rfl
                | some low =>
                    have hhigh' := hexVal_lt hhigh
                    have hlow' := hexVal_lt hlow
                    have hbyte : checkedByte (high * 16 + low) =
                        some (UInt8.ofNat (high * 16 + low)) := if_pos (by omega)
                    simp only [hbyte]
                    rfl
          · rw [if_neg hescape, hone, decoded_cons]
            · rfl
            · rintro ⟨hb, hrest⟩
              rw [List.length_drop] at hrest
              exact hescape ⟨hb, by omega⟩
        · rw [if_neg hi, List.drop_eq_nil_of_le (Nat.le_of_not_lt hi), decoded]
  exact fun i => hleft _ i rfl

-- The two digits of a byte are read as that byte, and they are ASCII.
theorem hexDigit_spec : ∀ n : Fin 16,
    hexVal (UInt8.ofNat (hexDigit n.1).toNat) = some n.1 ∧ (hexDigit n.1).toNat < 128 := by
  decide +kernel

theorem bytesOf_singleton {c : Char} (h : c.toNat < 128) : bytesOf [c] = [UInt8.ofNat c.toNat] := by
  have hencode := encodeChar_ascii h
  rw [Char.ofNat_toNat] at hencode
  simp [bytesOf, hencode]

/-- What stands for a byte is read as that byte. -/
theorem decoded_encodeByte (b : UInt8) (rest : List UInt8) :
    decoded (bytesOf (encodeByte b) ++ rest) = b :: decoded rest := by
  have hb := b.toNat_lt
  by_cases hplain : isUnreserved b.toNat = true
  · have hsmall : b.toNat < 128 ∧ b.toNat ≠ 37 ∧ b.toNat ≠ 43 := by
      simp only [isUnreserved, Bool.or_eq_true, Bool.and_eq_true, decide_eq_true_eq] at hplain
      omega
    have hbytes : bytesOf [Char.ofNat b.toNat] = [b] := by
      have hencode := encodeChar_ascii hsmall.1
      simp [bytesOf, hencode]
    have h37 : b ≠ 37 := fun h => hsmall.2.1 (by rw [h]; rfl)
    have h43 : b ≠ 43 := fun h => hsmall.2.2 (by rw [h]; rfl)
    rw [encodeByte, if_pos hplain, hbytes, List.singleton_append,
      decoded_cons fun h => h37 h.1, if_neg h43]
  · have hhigh := hexDigit_spec ⟨b.toNat / 16, by omega⟩
    have hlow := hexDigit_spec ⟨b.toNat % 16, by omega⟩
    have hbytes : bytesOf (encodeByte b) = [37, UInt8.ofNat (hexDigit (b.toNat / 16)).toNat,
        UInt8.ofNat (hexDigit (b.toNat % 16)).toNat] := by
      rw [encodeByte, if_neg hplain]
      have hcons : ∀ c d e : Char,
          bytesOf [c, d, e] = bytesOf [c] ++ bytesOf [d] ++ bytesOf [e] := by
        intro c d e
        simp [bytesOf]
      rw [hcons, bytesOf_singleton hhigh.2, bytesOf_singleton hlow.2,
        bytesOf_singleton (by decide)]
      rfl
    have hsum : UInt8.ofNat (b.toNat / 16 * 16 + b.toNat % 16) = b := by
      rw [Nat.div_add_mod']
      exact UInt8.ofNat_toNat
    rw [hbytes, List.cons_append, List.cons_append, List.cons_append, List.nil_append, decoded,
      if_pos rfl, hhigh.1, hlow.1]
    simp only [hsum]

theorem decoded_encoded (bytes : List UInt8) :
    decoded (bytesOf (bytes.flatMap encodeByte)) = bytes := by
  induction bytes with
  | nil => rfl
  | cons b bytes ih =>
      rw [List.flatMap_cons, bytesOf_append, decoded_encodeByte, ih]

/-- What the client escapes the local backend reads as it was. -/
theorem percentDecode_encodeSegment (s : List Char) : percentDecode (encodeSegment s) = some s := by
  rw [percentDecode, decodeFrom_eq, List.drop_zero, encodeSegment, decoded_encoded,
    Option.map_some, lossy_bytesOf]

theorem percentDecode_isSome (s : List Char) : (percentDecode s).isSome = true := by
  rw [percentDecode, decodeFrom_eq]
  rfl

-- A text without percent signs and pluses is read as it is.
theorem decoded_of_plain {bytes : List UInt8} (h : ∀ b ∈ bytes, b ≠ 37 ∧ b ≠ 43) :
    decoded bytes = bytes := by
  induction bytes with
  | nil => rfl
  | cons b bytes ih =>
      have hb := h b List.mem_cons_self
      rw [decoded_cons fun hescape => hb.1 hescape.1, if_neg hb.2,
        ih fun c hc => h c (List.mem_cons_of_mem b hc)]

theorem percentDecode_plain {s : List Char} (h : ∀ c ∈ s, c ≠ '%' ∧ c ≠ '+') :
    percentDecode s = some s := by
  have hbytes : ∀ b ∈ bytesOf s, b ≠ 37 ∧ b ≠ 43 := by
    intro b hb
    rcases List.mem_flatMap.1 hb with ⟨c, hc, hb⟩
    constructor
    · rintro rfl
      exact (h c hc).1 (Char.toNat_inj.1 (mem_encodeChar hb (by decide)))
    · rintro rfl
      exact (h c hc).2 (Char.toNat_inj.1 (mem_encodeChar hb (by decide)))
  rw [percentDecode, decodeFrom_eq, List.drop_zero, decoded_of_plain hbytes, Option.map_some,
    lossy_bytesOf]

/-! ### Paths -/

/-- The parameters of a query, by their names. -/
abbrev Params := List Char → Option (List Char)

/-- One parameter as the client writes it. Its name is written as it is. -/
def writtenPair (p : List Char × List Char) : List Char := p.1 ++ '=' :: encodeSegment p.2

/-- The path of a request as the client writes it. -/
def requestPath (segments : List (List Char)) (params : List (List Char × List Char)) :
    List Char :=
  segments.flatMap (fun s => '/' :: encodeSegment s) ++
    if params = [] then [] else '?' :: List.intercalate ['&'] (params.map writtenPair)

/-- One pair of a query goes into the parameters. -/
def insertPair (params : Params) (pair : List Char) : Option Params := do
  let sides := (Decimal.splitOnce '=' pair).getD (pair, [])
  let k ← percentDecode sides.1
  let v ← percentDecode sides.2
  return fun name => if name = k then some v else params name

/-- Split a request path into its segments and decoded query parameters. -/
def splitRequest (pathAndQuery : List Char) : Option (List (List Char) × Params) := do
  let sides := match Decimal.splitOnce '?' pathAndQuery with
    | some (path, query) => (path, some query)
    | none => (pathAndQuery, none)
  let segments ← ((sides.1.splitOn '/').filter fun s => s ≠ []).mapM percentDecode
  let params ← match sides.2 with
    | some query => ((query.splitOn '&').filter fun p => p ≠ []).foldlM insertPair fun _ => none
    | none => some fun _ => none
  return (segments, params)

/-- The value a list of parameters gives a name. -/
def valueOf (params : List (List Char × List Char)) : Params := fun name =>
  (params.find? fun p => p.1 = name).map Prod.snd

/-- A name without any byte that means something in a query. -/
def PlainName (name : List Char) : Prop :=
  '&' ∉ name ∧ '=' ∉ name ∧ '%' ∉ name ∧ '+' ∉ name

instance (name : List Char) : Decidable (PlainName name) := inferInstanceAs (Decidable (_ ∧ _))

-- Nothing in an escaped text means something to the splitter.
theorem encodeSegment_plain {s : List Char} {c : Char} (hc : c ∈ encodeSegment s) :
    c ≠ '/' ∧ c ≠ '?' ∧ c ≠ '&' ∧ c ≠ '=' := by
  rcases List.mem_flatMap.1 hc with ⟨b, -, hc⟩
  have hb := b.toNat_lt
  have hdigit : ∀ n : Fin 16, hexDigit n.1 ≠ '/' ∧ hexDigit n.1 ≠ '?' ∧ hexDigit n.1 ≠ '&' ∧
      hexDigit n.1 ≠ '=' := by decide
  unfold encodeByte at hc
  by_cases hplain : isUnreserved b.toNat = true
  · rw [if_pos hplain] at hc
    have hsame : ∀ n : Fin 256, isUnreserved n.1 = true → Char.ofNat n.1 ≠ '/' ∧
        Char.ofNat n.1 ≠ '?' ∧ Char.ofNat n.1 ≠ '&' ∧ Char.ofNat n.1 ≠ '=' := by decide +kernel
    rw [List.mem_singleton.1 hc]
    exact hsame ⟨b.toNat, hb⟩ hplain
  · rw [if_neg hplain] at hc
    simp only [List.mem_cons, List.not_mem_nil, or_false] at hc
    rcases hc with rfl | rfl | rfl
    · decide
    · exact hdigit ⟨b.toNat / 16, by omega⟩
    · exact hdigit ⟨b.toNat % 16, by omega⟩

theorem encodeSegment_ne_nil {s : List Char} (h : s ≠ []) : encodeSegment s ≠ [] := by
  cases s with
  | nil => exact absurd rfl h
  | cons c s =>
      intro hnil
      have hread := percentDecode_encodeSegment (c :: s)
      rw [hnil] at hread
      have hempty : percentDecode [] = some [] := percentDecode_encodeSegment []
      rw [hempty] at hread
      cases Option.some.inj hread

theorem mapM_encodeSegment (segments : List (List Char)) :
    (segments.map encodeSegment).mapM percentDecode = some segments := by
  induction segments with
  | nil => rfl
  | cons s segments ih =>
      rw [List.map_cons, List.mapM_cons, percentDecode_encodeSegment, ih]
      rfl

-- The segments are what stands between the slashes.
theorem split_segments {segments : List (List Char)} (hne : ∀ s ∈ segments, s ≠ []) :
    ((segments.flatMap fun s => '/' :: encodeSegment s).splitOn '/').filter (fun s => s ≠ []) =
      segments.map encodeSegment := by
  have hjoin : segments.flatMap (fun s => '/' :: encodeSegment s) =
      List.intercalate ['/'] ([] :: segments.map encodeSegment) := by
    induction segments with
    | nil => rfl
    | cons s segments ih =>
        rw [List.flatMap_cons, ih fun t ht => hne t (List.mem_cons_of_mem s ht), List.map_cons]
        cases segments with
        | nil => simp
        | cons t segments => simp [List.intercalate_cons_cons]
  rw [hjoin, List.splitOn_intercalate '/' ?_ (by simp)]
  · rw [List.filter_cons_of_neg (by simp), List.filter_eq_self]
    intro s hs
    rcases List.mem_map.1 hs with ⟨t, ht, rfl⟩
    simpa using encodeSegment_ne_nil (hne t ht)
  · intro l hl hmem
    rcases List.mem_cons.1 hl with rfl | hl
    · cases hmem
    · rcases List.mem_map.1 hl with ⟨t, -, rfl⟩
      exact (encodeSegment_plain hmem).1 rfl

theorem insertPair_written (params : Params) {p : List Char × List Char} (hname : PlainName p.1) :
    insertPair params (writtenPair p) =
      some fun name => if name = p.1 then some p.2 else params name := by
  have hplain : ∀ c ∈ p.1, c ≠ '%' ∧ c ≠ '+' := fun c hc =>
    ⟨fun h => hname.2.2.1 (h ▸ hc), fun h => hname.2.2.2 (h ▸ hc)⟩
  unfold insertPair
  rw [writtenPair, Decimal.splitOnce_append hname.2.1, Option.getD_some]
  simp only [percentDecode_plain hplain, percentDecode_encodeSegment, Option.bind_eq_bind,
    Option.bind_some]
  rfl

-- Each parameter is found under its name, as the names are distinct.
theorem foldlM_written (params : List (List Char × List Char))
    (hnames : ∀ p ∈ params, PlainName p.1) (hdistinct : (params.map Prod.fst).Nodup) :
    ∀ before : Params, (params.map writtenPair).foldlM insertPair before =
      some fun name => (valueOf params name).or (before name) := by
  induction params with
  | nil => exact fun before => rfl
  | cons p params ih =>
      intro before
      rw [List.map_cons, List.nodup_cons] at hdistinct
      have hrest := ih (fun q hq => hnames q (List.mem_cons_of_mem p hq)) hdistinct.2
      rw [List.map_cons, List.foldlM_cons, insertPair_written before (hnames p List.mem_cons_self),
        Option.bind_eq_bind, Option.bind_some, hrest]
      congr 1
      funext name
      by_cases hname : name = p.1
      · have hnone : valueOf params name = none := by
          rw [valueOf, Option.map_eq_none_iff, List.find?_eq_none]
          intro q hq hsame
          rw [decide_eq_true_eq, hname] at hsame
          exact hdistinct.1 (List.mem_map.2 ⟨q, hq, hsame⟩)
        rw [hnone, if_pos hname]
        simp [valueOf, hname]
      · have hskip : valueOf (p :: params) name = valueOf params name := by
          rw [valueOf, List.find?_cons_of_neg (by simpa using Ne.symm hname)]
          rfl
        rw [if_neg hname, hskip]

theorem split_params {params : List (List Char × List Char)} (hne : params ≠ [])
    (hnames : ∀ p ∈ params, PlainName p.1) :
    ((List.intercalate ['&'] (params.map writtenPair)).splitOn '&').filter (fun p => p ≠ []) =
      params.map writtenPair := by
  rw [List.splitOn_intercalate '&' ?_ (by simpa using hne)]
  · rw [List.filter_eq_self]
    intro s hs
    rcases List.mem_map.1 hs with ⟨p, -, rfl⟩
    simp [writtenPair]
  · intro l hl hmem
    rcases List.mem_map.1 hl with ⟨p, hp, rfl⟩
    rcases List.mem_append.1 hmem with hmem | hmem
    · exact (hnames p hp).1 hmem
    · rcases List.mem_cons.1 hmem with hmem | hmem
      · cases hmem
      · exact (encodeSegment_plain hmem).2.2.1 rfl

/-- A path is split into exactly the segments and parameters it was written from. -/
theorem splitRequest_requestPath (segments : List (List Char))
    (params : List (List Char × List Char)) (hsegments : ∀ s ∈ segments, s ≠ [])
    (hnames : ∀ p ∈ params, PlainName p.1) (hdistinct : (params.map Prod.fst).Nodup) :
    splitRequest (requestPath segments params) = some (segments, valueOf params) := by
  have hfree : '?' ∉ segments.flatMap fun s => '/' :: encodeSegment s := by
    intro hmem
    rcases List.mem_flatMap.1 hmem with ⟨s, -, hmem⟩
    rcases List.mem_cons.1 hmem with hmem | hmem
    · cases hmem
    · exact (encodeSegment_plain hmem).2.1 rfl
  unfold splitRequest requestPath
  by_cases hparams : params = []
  · subst hparams
    rw [if_pos rfl, List.append_nil, Decimal.splitOnce_eq_none hfree]
    simp only [split_segments hsegments, mapM_encodeSegment, Option.bind_eq_bind,
      Option.bind_some]
    rfl
  · rw [if_neg hparams, Decimal.splitOnce_append hfree]
    simp only [split_segments hsegments, mapM_encodeSegment, split_params hparams hnames,
      foldlM_written params hnames hdistinct, Option.bind_eq_bind, Option.bind_some]
    simp

/-! ### Keys -/

/-- The characters of a room id. -/
def allowed (c : Char) : Bool := c.isAlphanum || c == '_' || c == '-' || c == '.'

/-- The room ids of the grammar. -/
def IsRoomId (s : List Char) : Prop :=
  10 ≤ s.length ∧ s.length ≤ 100 ∧ s.all allowed = true

/-- A serial with zeros in front, up to twelve digits. -/
def padSerial (serial : ℤ) : List Char := Padded.padded 12 serial.toNat

/-- The key of a message: its room and its serial. -/
def messageKey (room : List Char) (serial : ℤ) : List Char :=
  Padded.composite '|' room (padSerial serial)

/-- The last key of a room. -/
def lastKey (room : List Char) : List Char := Padded.composite '|' room (List.replicate 12 '9')

/-- The keys of a whole room, from the first to the last. -/
def roomRange (room : List Char) : List Char × List Char := (messageKey room 0, lastKey room)

/-- A sum that stays at the greatest number of 64 bits. -/
def saturatingAdd (a b : ℤ) : ℤ := min (a + b) (2 ^ 63 - 1)

/-- The keys of the rows behind a serial. -/
def roomRangeAfter (room : List Char) (since : ℤ) : List Char × List Char :=
  (messageKey room (saturatingAdd since 1), lastKey room)

/-- A key is in a range, both ends included. -/
def InRange (range : List Char × List Char) (key : List Char) : Prop :=
  range.1 ≤ key ∧ key ≤ range.2

/-- The serials a row may have. -/
def IsSerial (serial : ℤ) : Prop := 1 ≤ serial ∧ serial ≤ 999999999999

theorem bar_of_roomId {room : List Char} (h : IsRoomId room) : '|' ∉ room := by
  intro hbar
  exact absurd (List.all_eq_true.1 h.2.2 '|' hbar) (by decide)

theorem padSerial_lt_iff {s t : ℤ} (hs : s ≤ 999999999999) (ht : IsSerial t) :
    padSerial s < padSerial t ↔ s < t := by
  have hlow := ht.1
  have hhigh := ht.2
  have hone : s.toNat < 10 ^ 12 := by omega
  have htwo : t.toNat < 10 ^ 12 := by omega
  rw [padSerial, padSerial, Padded.padded_lt_iff (by decide) hone htwo]
  omega

-- The upper end is the numeral of the last serial.
theorem nines_eq : List.replicate 12 '9' = padSerial 999999999999 := by decide +kernel

/-- The keys of a room are ordered as the serials of its rows. -/
theorem messageKey_lt_iff (room : List Char) {s t : ℤ} (hs : s ≤ 999999999999)
    (ht : IsSerial t) : messageKey room s < messageKey room t ↔ s < t := by
  rw [messageKey, messageKey, Padded.composite_lt_iff, padSerial_lt_iff hs ht]

-- What lies between a serial's key and the last one.
theorem inRange_iff {room other : List Char} (hroom : IsRoomId room) (hother : IsRoomId other)
    {s t : ℤ} (hs : s ≤ 999999999999) (ht : IsSerial t) :
    InRange (messageKey room s, lastKey room) (messageKey other t) ↔ other = room ∧ s ≤ t := by
  have hlast : padSerial t ≤ List.replicate 12 '9' := by
    rw [nines_eq, ← not_lt, padSerial_lt_iff (Int.le_refl _) ht]
    exact not_lt.2 ht.2
  have hfirst : padSerial s ≤ padSerial t ↔ s ≤ t := by
    rcases Int.lt_trichotomy s t with hlt | heq | hgt
    · exact iff_of_true (le_of_lt ((padSerial_lt_iff hs ht).2 hlt)) (by omega)
    · rw [heq]
      exact iff_of_true (le_refl _) (by omega)
    · have hsm : IsSerial s := ⟨by have := ht.1; omega, hs⟩
      exact iff_of_false (not_le.2 ((padSerial_lt_iff ht.2 hsm).2 hgt)) (by omega)
  unfold InRange messageKey lastKey
  rw [Padded.between_iff (bar_of_roomId hroom) (bar_of_roomId hother), hfirst]
  exact and_congr_right fun _ => and_iff_left hlast

/-- The range of a room has exactly the keys of that room. -/
theorem mem_roomRange_iff {room other : List Char} (hroom : IsRoomId room)
    (hother : IsRoomId other) {t : ℤ} (ht : IsSerial t) :
    InRange (roomRange room) (messageKey other t) ↔ other = room := by
  rw [roomRange, inRange_iff hroom hother (by omega) ht]
  have hlow := ht.1
  exact and_iff_left (by omega)

/-- The range behind a serial has exactly the keys of that room with a greater serial, as long
    as the serial is not the last one of twelve digits. -/
theorem mem_roomRangeAfter_iff {room other : List Char} (hroom : IsRoomId room)
    (hother : IsRoomId other) {s t : ℤ} (hs : s < 999999999999) (ht : IsSerial t) :
    InRange (roomRangeAfter room s) (messageKey other t) ↔ other = room ∧ s < t := by
  have hnext : saturatingAdd s 1 = s + 1 := min_eq_left (by omega)
  rw [roomRangeAfter, hnext, inRange_iff hroom hother (by omega) ht]
  exact and_congr_right fun _ => by omega

/-- What the client wrote is split as it was written, for names that are written as they are;
    the decoder reads every text; and the order of the keys is that of rooms and serials, up
    to the last serial that twelve digits hold. -/
theorem requests_recovered :
    (∀ (segments : List (List Char)) (params : List (List Char × List Char)),
      (∀ s ∈ segments, s ≠ []) → (params.map Prod.fst).Nodup → (∀ p ∈ params, PlainName p.1) →
        splitRequest (requestPath segments params) = some (segments, valueOf params)) ∧
    (∀ s, (percentDecode s).isSome = true) ∧
    (∀ (room other : List Char) (s t : ℤ), IsRoomId room → IsRoomId other → IsSerial s →
      IsSerial t →
        (messageKey room s < messageKey room t ↔ s < t) ∧
        (InRange (roomRange room) (messageKey other t) ↔ other = room) ∧
        (s < 999999999999 →
          (InRange (roomRangeAfter room s) (messageKey other t) ↔ other = room ∧ s < t))) :=
  ⟨fun segments params hsegments hdistinct hnames =>
      splitRequest_requestPath segments params hsegments hnames hdistinct,
    percentDecode_isSome,
    fun room other _ _ hroom hother hs ht =>
      ⟨messageKey_lt_iff room hs.2 ht, mem_roomRange_iff hroom hother ht,
        fun hlast => mem_roomRangeAfter_iff hroom hother hlast ht⟩⟩

/-- A room of the grammar. -/
def sampleRoom : List Char := "room_note_1".toList

theorem isRoomId_sampleRoom : IsRoomId sampleRoom := ⟨by decide, by decide, by decide⟩

-- A name with an ampersand in it is two names, and behind the last serial come others.
theorem requests_not_recovered :
    ¬ (∀ (segments : List (List Char)) (params : List (List Char × List Char)),
        (∀ s ∈ segments, s ≠ []) → (params.map Prod.fst).Nodup →
          splitRequest (requestPath segments params) = some (segments, valueOf params)) ∧
      ¬ (∀ (room other : List Char) (s t : ℤ), IsRoomId room → IsRoomId other → IsSerial s →
        IsSerial t →
          (InRange (roomRangeAfter room s) (messageKey other t) ↔ other = room ∧ s < t)) := by
  constructor
  · intro h
    have hsplit := h [] [("a&b".toList, "1".toList)] (by simp) (by simp)
    have hvalue := congrArg (fun r => r.map fun parts => parts.2 "a&b".toList) hsplit
    exact absurd hvalue (by decide +kernel)
  · intro h
    have hroom := isRoomId_sampleRoom
    have hafter := h sampleRoom sampleRoom 999999999999 200000000000 hroom hroom
      ⟨by omega, by omega⟩ ⟨by omega, by omega⟩
    have hin : InRange (roomRangeAfter sampleRoom 999999999999)
        (messageKey sampleRoom 200000000000) := by
      unfold InRange
      decide +kernel
    have hlt := (hafter.1 hin).2
    omega

-- A request for the reactions of a message, with a parameter, and the rows behind the ninth.
theorem requests_recovered_sample :
    splitRequest (requestPath ["messages".toList, "a/🍎".toList]
        [("since".toList, "4 2".toList)]) =
      some (["messages".toList, "a/🍎".toList], valueOf [("since".toList, "4 2".toList)]) ∧
    (InRange (roomRangeAfter sampleRoom 9) (messageKey sampleRoom 10) ↔
      sampleRoom = sampleRoom ∧ (9 : ℤ) < 10) :=
  ⟨requests_recovered.1 _ _ (by decide) (by decide) (by decide),
    (requests_recovered.2.2 sampleRoom sampleRoom 9 10 isRoomId_sampleRoom isRoomId_sampleRoom
      ⟨by decide, by decide⟩ ⟨by decide, by decide⟩).2.2 (by decide)⟩

end LocalRequests

end PocketSkynet
