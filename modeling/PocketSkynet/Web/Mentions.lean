import Mathlib.Data.List.Infix
import PocketSkynet.Lib.Lowercase
import PocketSkynet.Lib.LongestFirst
import PocketSkynet.Core.Api

/-!
# Mentions in the Composer

What somebody types behind an `@`, and the people a text names. The caret of the browser
counts UTF-16 units, the scanners count bytes, and a slice off a character boundary panics.

## Main definitions

* `caretToByte`, `byteToCaret`: The caret in bytes, and back.
* `activeMention`: The `@` the caret sits behind.
* `suggest`, `apply`: The people who are offered, and the name written into the text.
* `resolve`: The people a finished text names.
* `highlightSpans`: The parts of a text that are drawn as names.
* `holder`: The first other member with a name.

## Theorems

* `opensMention_lowercase`: A mention may be opened in lowercase where it may be in the text.
* `mem_resolve`: Who is resolved is named at some `@`.
* `find?_flatMap_namesOf`: The first candidate with a name belongs to its first holder.
-/

namespace PocketSkynet

namespace Composer

open Utf8

/-- The longest handle the scanner considers. -/
def maxHandle : ℕ := 100

/-- How many UTF-16 units a character takes. -/
def lenUtf16 (c : Char) : ℕ := if c.toNat ≤ 0xffff then 1 else 2

def units (cs : List Char) : ℕ := (cs.map lenUtf16).sum

@[simp] theorem units_nil : units [] = 0 := rfl

@[simp] theorem units_cons (c : Char) (cs : List Char) :
    units (c :: cs) = lenUtf16 c + units cs := by
  simp [units]

/-- The loop of `caretToByte`: so many units and bytes have been passed. -/
def caretFrom (utf16 : ℕ) : ℕ → ℕ → List Char → ℕ
  | _, i, [] => i
  | passed, i, c :: cs =>
      if utf16 ≤ passed then i else caretFrom utf16 (passed + lenUtf16 c) (i + c.utf8Size) cs

/-- A caret in UTF-16 units as a byte. Inside a surrogate pair it is moved forward. -/
def caretToByte (text : List Char) (utf16 : ℕ) : ℕ := caretFrom utf16 0 0 text

/-- A byte as a caret, if it is between characters. -/
def byteToCaret (text : List Char) (byte : ℕ) : Option ℕ :=
  (splitAt text (min byte (size text))).map fun sides => units sides.1

structure User where
  walletAddress : WalletAddress
  username : String
  profileImage : Option String
deriving DecidableEq, Repr

/-- The name that is shown, or the short form of the address. -/
def User.displayName (u : User) : String :=
  if isBlank u.username then abbreviated u.walletAddress else u.username

structure RoomMember where
  userAddress : WalletAddress
  user : User
deriving DecidableEq, Repr

/-- Someone the composer can offer. -/
structure Candidate where
  address : WalletAddress
  name : String
  image : Option String
deriving DecidableEq, Repr

/-- An `@` the caret sits behind, from its first byte to the caret. -/
structure ActiveMention where
  start : ℕ
  stop : ℕ
  query : List Char
deriving DecidableEq, Repr

/-- What may stand in front of an `@` that names somebody. -/
def opensMention (before : Option Char) : Bool :=
  before.all fun c => isSpace c || ['(', '[', '{', '<', '"', '\'', '“'].contains c

/-- What may stand behind a name. -/
def endsName (T : CharTables) (after : Option Char) : Bool :=
  after.all fun c => !T.alphanumeric c && c != '_' && c != '-'

/-- What is in front of the last `@` and what is behind it. -/
def rfindAt : List Char → Option (List Char × List Char)
  | [] => none
  | c :: cs =>
      match rfindAt cs with
      | some parts => some (c :: parts.1, parts.2)
      | none => if c = '@' then some ([], cs) else none

variable (T : CharTables)

/-- The `@` the caret is behind, the caret being a byte. -/
def activeMention (text : List Char) (caret : ℕ) : Option ActiveMention := do
  let caret := min caret (size text)
  let head ← splitAt text caret
  let parts ← rfindAt head.1
  if !opensMention parts.1.getLast? then none
  else if parts.2.contains '\n' || maxHandle < parts.2.length then none
  else some ⟨size parts.1, caret, T.lowercase parts.2⟩

/-- How well a member fits what was typed, if at all. -/
def rankOf (q : List Char) (m : RoomMember) : Option ℕ :=
  let lower := T.lowercase m.user.displayName.toList
  let address := T.lowercase m.userAddress.str.toList
  if q.isEmpty then some 1
  else if q.isPrefixOf lower || q.isPrefixOf address then some 0
  else if q <:+: lower then some 1
  else none

/-- The members that fit what was typed, best first. -/
def suggest (members : List RoomMember) (me : WalletAddress) (query : List Char) :
    List Candidate :=
  let q := T.lowercase (trim query)
  let scored := (members.filter (·.userAddress ≠ me)).filterMap fun m =>
    (rankOf T q m).map fun rank =>
      (rank, (⟨m.userAddress, m.user.displayName, m.user.profileImage⟩ : Candidate))
  (scored.insertionSort fun a b =>
    a.1 < b.1 ∨ (a.1 = b.1 ∧ a.2.name ≤ b.2.name)).map Prod.snd

/-- The text with a name in the place of what was typed, and where the caret lands. -/
def apply (text : List Char) (active : ActiveMention) (name : List Char) :
    Option (List Char × ℕ) := do
  let front ← splitAt text active.start
  let tail ← splitAt text active.stop
  let out := front.1 ++ '@' :: (name ++ [' '])
  return (out ++ tail.2, size out)

/-- Every `@` of a text, as what is in front of it and what is behind it. -/
def atSigns : List Char → List Char → List (List Char × List Char)
  | _, [] => []
  | front, c :: cs =>
      if c = '@' then (front, cs) :: atSigns (front ++ [c]) cs else atSigns (front ++ [c]) cs

/-- The names a member goes by, in lowercase. -/
def namesOf (m : RoomMember) : List (List Char × WalletAddress) :=
  [(T.lowercase m.user.displayName.toList, m.userAddress),
    (T.lowercase m.userAddress.str.toList, m.userAddress)].filter (!·.1.isEmpty)

/-- The names to look for and whom they name, the viewer left out, longest first. -/
def candidates (members : List RoomMember) (me : WalletAddress) :
    List (List Char × WalletAddress) :=
  descending (fun c => size c.1) ((members.filter (·.userAddress ≠ me)).flatMap (namesOf T))

/-- Who is named at an `@`. The first name that matches decides. -/
def namedAt (named : List (List Char × WalletAddress)) (front rest : List Char) :
    Option WalletAddress :=
  if opensMention front.getLast? then
    (named.find? (·.1.isPrefixOf rest)).bind fun c =>
      if endsName T (rest.drop c.1.length).head? then some c.2 else none
  else none

/-- One turn of the loop of `resolve`. -/
def resolveAt (named : List (List Char × WalletAddress)) (found : List WalletAddress)
    (sign : List Char × List Char) : List WalletAddress :=
  match namedAt T named sign.1 sign.2 with
  | none => found
  | some address => if found.contains address then found else found ++ [address]

/-- Every member a text names. -/
def resolve (text : List Char) (members : List RoomMember) (me : WalletAddress) :
    List WalletAddress :=
  (atSigns [] (T.lowercase text)).foldl (resolveAt T (candidates T members me)) []

/-- One turn of the loop of `highlightSpans`, the spans being found so far. -/
def highlightAt (sorted : List (List Char)) (spans : List (ℕ × ℕ))
    (sign : List Char × List Char) : List (ℕ × ℕ) :=
  if spans.getLast?.any fun last => size sign.1 < last.2 then spans
  else if !opensMention sign.1.getLast? then spans
  else
    match sorted.find? fun name => !name.isEmpty && name.isPrefixOf sign.2 with
    | none => spans
    | some name =>
        if endsName T (sign.2.drop name.length).head? then
          spans ++ [(size sign.1, size sign.1 + 1 + size name)]
        else spans

/-- The bytes that are drawn as names. -/
def highlightSpans (text : List Char) (names : List String) : List (ℕ × ℕ) :=
  if names.isEmpty then []
  else
    (atSigns [] (T.lowercase text)).foldl
      (highlightAt T (descending size (names.map fun n => T.lowercase n.toList))) []

theorem lenUtf16_pos (c : Char) : 0 < lenUtf16 c := by
  rw [lenUtf16]
  split <;> omega

/-- The caret is found between two characters, and where it was if that is between two. -/
theorem caretFrom_spec (utf16 passed i : ℕ) (cs : List Char) :
    ∃ front rest, cs = front ++ rest ∧ caretFrom utf16 passed i cs = i + size front ∧
      ∀ ds es, cs = ds ++ es → utf16 = passed + units ds → front = ds := by
  induction cs generalizing passed i with
  | nil =>
      refine ⟨[], [], rfl, rfl, fun ds es heq _ => ?_⟩
      exact (List.append_eq_nil_iff.1 heq.symm).1.symm
  | cons c cs ih =>
      have hpos := lenUtf16_pos c
      by_cases hreached : utf16 ≤ passed
      · refine ⟨[], c :: cs, rfl, by rw [caretFrom, if_pos hreached]; rfl, ?_⟩
        intro ds es heq hunits
        cases ds with
        | nil => rfl
        | cons d ds =>
            have hd := lenUtf16_pos d
            rw [units_cons] at hunits
            omega
      · rcases ih (passed + lenUtf16 c) (i + c.utf8Size) with ⟨front, rest, hcs, hsize, hat⟩
        refine ⟨c :: front, rest, by rw [hcs]; rfl, ?_, ?_⟩
        · rw [caretFrom, if_neg hreached, hsize, size_cons]
          omega
        · intro ds es heq hunits
          cases ds with
          | nil =>
              rw [units_nil] at hunits
              omega
          | cons d ds =>
              rcases List.cons.inj heq with ⟨rfl, htail⟩
              rw [units_cons] at hunits
              rw [hat ds es htail (by omega)]

-- What is in front of the last `@` and behind it.
theorem rfindAt_eq_some {cs front typed : List Char} (h : rfindAt cs = some (front, typed)) :
    cs = front ++ '@' :: typed := by
  induction cs generalizing front with
  | nil => cases h
  | cons c cs ih =>
      rw [rfindAt] at h
      cases hparts : rfindAt cs with
      | none =>
          rw [hparts] at h
          by_cases hc : c = '@'
          · rw [if_pos hc] at h
            cases h
            rw [hc]
            rfl
          · rw [if_neg hc] at h
            cases h
      | some parts =>
          rw [hparts] at h
          cases h
          rw [ih hparts]
          rfl

/-- The first other member whose name or address it is, in lowercase. -/
def holder (members : List RoomMember) (me : WalletAddress) (name : List Char) :
    Option WalletAddress :=
  ((members.filter (·.userAddress ≠ me)).find? fun m =>
    T.lowercase m.user.displayName.toList = name ∨
      T.lowercase m.userAddress.str.toList = name).map (·.userAddress)

variable {T}

-- What opens a mention is plain, so the copy has it where the text has it.
theorem opensMention_lowercase (front : List Char) :
    opensMention (T.lowercase front).getLast? = opensMention front.getLast? := by
  have hplain : ∀ c, opensMention (some c) = true → isCaseless c = true := by
    intro c hc
    rw [opensMention, Option.all_some, Bool.or_eq_true] at hc
    rcases hc with hc | hc
    · rw [isCaseless, hc, Bool.true_or]
    · have hall : (['(', '[', '{', '<', '"', '\'', '“'].all isCaseless) = true := by decide
      exact List.all_eq_true.1 hall c (List.contains_iff_mem.1 hc)
  rcases List.eq_nil_or_concat front with rfl | ⟨front, c, rfl⟩
  · rfl
  rw [List.concat_eq_append, List.getLast?_concat]
  by_cases hc : isCaseless c = true
  · rw [CharTables.lowercase_concat hc]
  · rcases @CharTables.lowercase_concat_eq T front c with ⟨lowered, before, hlowered⟩
    have hne := @CharTables.lowerBetween_ne_nil T before c []
    rw [hlowered, List.getLast?_append_of_ne_nil _ hne, List.getLast?_eq_getLast_of_ne_nil hne]
    -- Neither the character nor what it becomes is plain.
    rw [Bool.eq_false_iff.2 (mt (hplain c) hc), Bool.eq_false_iff]
    intro hopens
    have hlast := hplain _ hopens
    have heq := CharTables.plain_of_lowerBetween (List.getLast_mem hne) hlast
    exact hc (heq ▸ hlast)

theorem mem_atSigns {front cs : List Char} {sign : List Char × List Char} :
    sign ∈ atSigns front cs ↔ ∃ ds, cs = ds ++ '@' :: sign.2 ∧ sign.1 = front ++ ds := by
  induction cs generalizing front with
  | nil =>
      refine iff_of_false (by simp [atSigns]) ?_
      rintro ⟨ds, heq, -⟩
      simp at heq
  | cons c cs ih =>
      have hstep : (∃ ds, c :: cs = ds ++ '@' :: sign.2 ∧ sign.1 = front ++ ds) ↔
          (c = '@' ∧ sign = (front, cs)) ∨
            ∃ ds, cs = ds ++ '@' :: sign.2 ∧ sign.1 = (front ++ [c]) ++ ds := by
        constructor
        · rintro ⟨ds, heq, hfront⟩
          cases ds with
          | nil =>
              rcases List.cons.inj heq with ⟨hc, hcs⟩
              rw [List.append_nil] at hfront
              exact Or.inl ⟨hc, Prod.ext hfront hcs.symm⟩
          | cons d ds =>
              rcases List.cons.inj heq with ⟨rfl, hcs⟩
              exact Or.inr ⟨ds, hcs, by rw [hfront, List.append_assoc]; rfl⟩
        · rintro (⟨rfl, rfl⟩ | ⟨ds, hcs, hfront⟩)
          · exact ⟨[], rfl, (List.append_nil front).symm⟩
          · exact ⟨c :: ds, by rw [hcs]; rfl, by rw [hfront, List.append_assoc]; rfl⟩
      rw [hstep, ← ih]
      by_cases hc : c = '@'
      · rw [atSigns, if_pos hc, List.mem_cons]
        simp only [hc, true_and]
      · rw [atSigns, if_neg hc]
        simp only [hc, false_and, false_or]

/-- Who is resolved is named at some `@`. -/
theorem mem_resolve {text : List Char} {members : List RoomMember} {me a : WalletAddress} :
    a ∈ resolve T text members me ↔ ∃ sign ∈ atSigns [] (T.lowercase text),
      namedAt T (candidates T members me) sign.1 sign.2 = some a := by
  have hloop : ∀ (signs : List (List Char × List Char)) found,
      a ∈ signs.foldl (resolveAt T (candidates T members me)) found ↔
        a ∈ found ∨ ∃ sign ∈ signs,
          namedAt T (candidates T members me) sign.1 sign.2 = some a := by
    intro signs
    induction signs with
    | nil => simp
    | cons sign signs ih =>
        intro found
        have hone : a ∈ resolveAt T (candidates T members me) found sign ↔
            a ∈ found ∨ namedAt T (candidates T members me) sign.1 sign.2 = some a := by
          rw [resolveAt]
          cases namedAt T (candidates T members me) sign.1 sign.2 with
          | none => simp
          | some b =>
              by_cases hb : b ∈ found
              · simp only [List.contains_iff_mem, hb, if_true, Option.some.injEq]
                exact ⟨Or.inl, fun h => h.elim id fun heq => heq ▸ hb⟩
              · simp only [List.contains_iff_mem, hb, if_false, List.mem_append,
                  List.mem_singleton, Option.some.injEq]
                exact or_congr_right eq_comm
        rw [List.foldl_cons, ih, hone, List.exists_mem_cons_iff, or_assoc]
  rw [resolve, hloop]
  simp

theorem mem_namesOf {m : RoomMember} {c : List Char × WalletAddress} :
    c ∈ namesOf T m ↔ c.1 ≠ [] ∧ c.2 = m.userAddress ∧
      (c.1 = T.lowercase m.user.displayName.toList ∨
        c.1 = T.lowercase m.userAddress.str.toList) := by
  rw [namesOf, List.mem_filter]
  simp only [List.mem_cons, List.not_mem_nil, or_false, Bool.not_eq_true',
    List.isEmpty_eq_false_iff]
  constructor
  · rintro ⟨rfl | rfl, hne⟩
    · exact ⟨hne, rfl, Or.inl rfl⟩
    · exact ⟨hne, rfl, Or.inr rfl⟩
  · rintro ⟨hne, haddress, hname⟩
    exact ⟨hname.imp (fun h => Prod.ext h haddress) fun h => Prod.ext h haddress, hne⟩

-- A member goes by a name once.
theorem find?_namesOf {name : List Char} (hname : name ≠ []) (m : RoomMember) :
    ((namesOf T m).find? fun c => c.1 = name).map Prod.snd =
      if T.lowercase m.user.displayName.toList = name ∨
        T.lowercase m.userAddress.str.toList = name then some m.userAddress else none := by
  by_cases hbears : T.lowercase m.user.displayName.toList = name ∨
      T.lowercase m.userAddress.str.toList = name
  · have hmem : (name, m.userAddress) ∈ namesOf T m :=
      mem_namesOf.2 ⟨hname, rfl, hbears.imp Eq.symm Eq.symm⟩
    rw [if_pos hbears]
    cases hfind : (namesOf T m).find? fun c => c.1 = name with
    | none => simpa using List.find?_eq_none.1 hfind _ hmem
    | some c =>
        rw [Option.map_some, (mem_namesOf.1 (List.mem_of_find?_eq_some hfind)).2.1]
  · rw [if_neg hbears, Option.map_eq_none_iff, List.find?_eq_none]
    intro c hc heq
    rcases mem_namesOf.1 hc with ⟨-, -, hc⟩
    rw [of_decide_eq_true heq] at hc
    exact hbears (hc.imp Eq.symm Eq.symm)

/-- The first candidate with a name belongs to its first holder. -/
theorem find?_flatMap_namesOf {name : List Char} (hname : name ≠ []) (others : List RoomMember) :
    ((others.flatMap (namesOf T)).find? fun c => c.1 = name).map Prod.snd =
      (others.find? fun m => T.lowercase m.user.displayName.toList = name ∨
        T.lowercase m.userAddress.str.toList = name).map (·.userAddress) := by
  induction others with
  | nil => rfl
  | cons m others ih =>
      have hone := @find?_namesOf T name hname m
      rw [List.flatMap_cons, List.find?_append, List.find?_cons]
      by_cases hbears : T.lowercase m.user.displayName.toList = name ∨
          T.lowercase m.userAddress.str.toList = name
      · rw [if_pos hbears] at hone
        rcases Option.map_eq_some_iff.1 hone with ⟨c, hc, haddress⟩
        rw [hc, decide_eq_true hbears, Option.some_or, Option.map_some, haddress]
        rfl
      · rw [if_neg hbears, Option.map_eq_none_iff] at hone
        rw [hone, decide_eq_false hbears, Option.none_or, ih]

theorem mem_candidates {members : List RoomMember} {me : WalletAddress}
    {c : List Char × WalletAddress} : c ∈ candidates T members me ↔
      ∃ m ∈ members, m.userAddress ≠ me ∧ c ∈ namesOf T m := by
  rw [candidates, mem_descending, List.mem_flatMap]
  simp only [List.mem_filter, decide_eq_true_eq, and_assoc]

end Composer

end PocketSkynet
