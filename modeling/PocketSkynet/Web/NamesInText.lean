import PocketSkynet.Web.Mentions
import Mathlib.Data.List.Find
import Mathlib.Data.Nat.Find

/-!
# The Names in a Text

Both scanners of a text look for names in its lowercase copy: behind each `@` they take the
longest name that begins what follows, and keep it if it ends at a boundary there. Here it is
said of the text itself which name is meant, the longest one that ends at a boundary, and where
it stands.

## Main definitions

* `Named`, `longestAt`: A name that stands at an `@`, and the longest one.
* `mentions`, `range`: The names that stand in a text, none within another, and their bytes.
* `takenAt`: What the scanners take at an `@` of the copy.
* `Leads`: The longest name that begins what follows in the copy.

## Theorems

* `atSigns_lowercase`: The copy has the `@` of the text.
* `takenAt_eq_some`: What leads is taken if it ends at a boundary in the copy.
* `namedAt_eq`, `highlightAt_eq`: Both scanners take so.
-/

namespace PocketSkynet

namespace Composer

open Utf8

variable (T : CharTables)

/-- A name stands at the beginning of a text, compared in lowercase, and ends at a boundary. -/
structure Named (names : List String) (rest name : List Char) : Prop where
  begins : name <+: rest
  nonempty : name ≠ []
  listed : ∃ n ∈ names, T.lowercase n.toList = T.lowercase name
  ends : endsName T (rest.drop name.length).head? = true

/-- Whether a name of so many characters stands at the beginning of a text. -/
def standsAt (names : List String) (rest : List Char) (k : ℕ) : Bool :=
  k != 0 && names.any (fun n => T.lowercase n.toList == T.lowercase (rest.take k)) &&
    endsName T (rest.drop k).head?

/-- The longest name that stands at the beginning of a text. -/
def longestAt (names : List String) (rest : List Char) : Option (List Char) :=
  let k := Nat.findGreatest (fun k => standsAt T names rest k = true) rest.length
  if k = 0 then none else some (rest.take k)

/-- One `@` more of a text. What stands within a name is passed over. -/
def mentionAt (names : List String) (found : List (List Char × List Char))
    (sign : List Char × List Char) : List (List Char × List Char) :=
  if found.getLast?.any fun last => sign.1.length < last.1.length + 1 + last.2.length then found
  else if !opensMention sign.1.getLast? then found
  else
    match longestAt T names sign.2 with
    | none => found
    | some name => found ++ [(sign.1, name)]

/-- The names in a text, as what is in front of the `@` and the name behind it. -/
def mentions (names : List String) (text : List Char) : List (List Char × List Char) :=
  (atSigns [] text).foldl (mentionAt T names) []

/-- The bytes of a name and its `@`. -/
def range (m : List Char × List Char) : ℕ × ℕ := (size m.1, size m.1 + 1 + size m.2)

/-- Whether the key of something begins a text. -/
def fits (key : α → List Char) (rest : List Char) (c : α) : Bool :=
  !(key c).isEmpty && (key c).isPrefixOf rest

/-- What the scanners take at an `@` of the copy, out of what goes by a key. -/
def takenAt (key : α → List Char) (sorted : List α) (rest : List Char) : Option α :=
  (sorted.find? (fits key rest)).bind fun c =>
    if endsName T (rest.drop (key c).length).head? then some c else none

/-- The longest name in lowercase that begins what follows in the copy. -/
structure Leads (names : List String) (rest name : List Char) : Prop where
  listed : ∃ n ∈ names, T.lowercase n.toList = name
  nonempty : name ≠ []
  begins : name <+: T.lowercase rest
  longest : ∀ n ∈ names, T.lowercase n.toList <+: T.lowercase rest →
    size (T.lowercase n.toList) ≤ size name

/-- The name that leads ends at a boundary of the copy. -/
def EndsInCopy (rest name : List Char) : Prop :=
  endsName T ((T.lowercase rest).drop name.length).head? = true

variable {T}

/-! ### Names in the text -/

theorem standsAt_length {names : List String} {rest name : List Char} (h : name <+: rest) :
    standsAt T names rest name.length = true ↔ Named T names rest name := by
  have htake : rest.take name.length = name := (List.prefix_iff_eq_take.1 h).symm
  rw [standsAt, htake]
  simp only [Bool.and_eq_true, bne_iff_ne, ne_eq, List.length_eq_zero_iff, List.any_eq_true,
    beq_iff_eq]
  constructor
  · rintro ⟨⟨hne, hlisted⟩, hends⟩
    exact ⟨h, hne, hlisted, hends⟩
  · intro hnamed
    exact ⟨⟨hnamed.nonempty, hnamed.listed⟩, hnamed.ends⟩

/-- The longest name is one that stands there, and no other is longer. -/
theorem longestAt_eq_some {names : List String} {rest name : List Char} :
    longestAt T names rest = some name ↔
      Named T names rest name ∧ ∀ other, Named T names rest other → other.length ≤ name.length := by
  have hle := Nat.findGreatest_le (P := fun k => standsAt T names rest k = true) rest.length
  have hmax : ∀ other, Named T names rest other → other.length ≤
      Nat.findGreatest (fun k => standsAt T names rest k = true) rest.length :=
    fun other h => Nat.le_findGreatest h.begins.length_le ((standsAt_length h.begins).2 h)
  rw [longestAt]
  generalize hk : Nat.findGreatest (fun k => standsAt T names rest k = true) rest.length = k
    at hle hmax
  have hlength : (rest.take k).length = k := List.length_take_of_le hle
  by_cases hzero : k = 0
  · rw [if_pos hzero]
    refine iff_of_false (by simp) fun h => ?_
    have hpos := List.length_pos_of_ne_nil h.1.nonempty
    have hnone := hmax name h.1
    omega
  · rw [if_neg hzero, Option.some.injEq]
    have hstands : Named T names rest (rest.take k) := by
      rw [← standsAt_length (List.take_prefix k rest), hlength]
      exact Nat.findGreatest_of_ne_zero hk hzero
    constructor
    · rintro rfl
      exact ⟨hstands, fun other h => hlength.symm ▸ hmax other h⟩
    · rintro ⟨hnamed, hlongest⟩
      have hge := hlongest _ hstands
      have heq : name.length = k := by
        rw [hlength] at hge
        exact Nat.le_antisymm (hmax name hnamed) hge
      rw [← heq]
      exact (List.prefix_iff_eq_take.1 hnamed.begins).symm

theorem longestAt_eq_none {names : List String} {rest : List Char} :
    longestAt T names rest = none ↔ ∀ name, ¬ Named T names rest name := by
  constructor
  · intro h name hnamed
    have hpos := List.length_pos_of_ne_nil hnamed.nonempty
    have hstands := (standsAt_length hnamed.begins).2 hnamed
    have hmax := @Nat.le_findGreatest _ (fun k => standsAt T names rest k = true) _ _
      hnamed.begins.length_le hstands
    rw [longestAt, if_neg (by omega)] at h
    cases h
  · intro h
    cases hlongest : longestAt T names rest with
    | none => rfl
    | some name => exact absurd (longestAt_eq_some.1 hlongest).1 (h name)

/-! ### The copy -/

theorem length_lt_iff_size {text p q : List Char} (hp : p <+: text) (hq : q <+: text) :
    size (T.lowercase p) < size (T.lowercase q) ↔ p.length < q.length := by
  have hmono : ∀ {p q : List Char}, p <+: q →
      size (T.lowercase p) ≤ size (T.lowercase q) := by
    rintro p q ⟨more, rfl⟩
    rw [CharTables.size_lowercase_append]
    exact Nat.le_add_right _ _
  constructor
  · intro h
    by_contra hle
    exact absurd (hmono (List.prefix_of_prefix_length_le hq hp (Nat.not_lt.1 hle))) (by omega)
  · intro h
    rcases List.prefix_of_prefix_length_le hp hq h.le with ⟨more, rfl⟩
    have hmore : T.lowercase more ≠ [] := by
      intro hnil
      rw [CharTables.lowercase_eq_nil.1 hnil, List.append_nil] at h
      exact Nat.lt_irrefl _ h
    have hpos := List.length_pos_of_ne_nil hmore
    have hsize := length_le_size (T.lowercase more)
    rw [CharTables.size_lowercase_append]
    omega

theorem atSigns_of_not_mem {cs : List Char} (h : '@' ∉ cs) (front : List Char) :
    atSigns front cs = [] := by
  induction cs generalizing front with
  | nil => rfl
  | cons c cs ih =>
      rw [List.mem_cons, not_or] at h
      rw [atSigns, if_neg (Ne.symm h.1), ih h.2]

theorem atSigns_split {ds : List Char} (h : '@' ∉ ds) (front es : List Char) :
    atSigns front (ds ++ '@' :: es) = (front ++ ds, es) :: atSigns (front ++ ds ++ ['@']) es := by
  induction ds generalizing front with
  | nil => rw [List.nil_append, atSigns, if_pos rfl, List.append_nil]
  | cons d ds ih =>
      rw [List.mem_cons, not_or] at h
      rw [List.cons_append, atSigns, if_neg (Ne.symm h.1), ih h.2]
      simp only [List.append_assoc, List.singleton_append]

variable (T) in
/-- The two sides of an `@` in lowercase. -/
def lowered (sign : List Char × List Char) : List Char × List Char :=
  (T.lowercase sign.1, T.lowercase sign.2)

/-- The copy has the `@` of the text, with the sides in lowercase. -/
theorem atSigns_lowercase (text : List Char) :
    atSigns [] (T.lowercase text) = (atSigns [] text).map (lowered T) := by
  have hat : isStop '@' = true := by decide
  -- Behind an `@` the copy does not depend on what is in front.
  have hall : ∀ n cs front, cs.length = n →
      (∀ ds, T.lowercase (front ++ ds) = T.lowercase front ++ T.lowercase ds) →
      atSigns (T.lowercase front) (T.lowercase cs) = (atSigns front cs).map (lowered T) := by
    intro n
    induction n using Nat.strongRecOn with
    | ind n ih =>
        intro cs front hn hfront
        by_cases hmem : '@' ∈ cs
        · rcases List.eq_append_cons_of_mem hmem with ⟨ds, es, rfl, hds⟩
          have hlow : '@' ∉ T.lowercase ds :=
            fun h => hds ((CharTables.mem_lowercase_of_plain (isCaseless_of_isStop hat)).1 h)
          have hnext : T.lowercase (front ++ ds ++ ['@']) =
              T.lowercase front ++ T.lowercase ds ++ ['@'] := by
            rw [CharTables.lowercase_append hat, hfront]
            rfl
          have hrest := ih es.length (by rw [← hn, List.length_append, List.length_cons]; omega)
            es (front ++ ds ++ ['@']) rfl fun ds' => by
              rw [hnext, List.append_assoc, List.singleton_append,
                CharTables.lowercase_append hat, hfront, List.append_assoc, List.append_assoc,
                List.append_assoc, List.singleton_append]
          rw [CharTables.lowercase_append hat, atSigns_split hlow, atSigns_split hds, ← hnext,
            hrest, List.map_cons, lowered, hfront]
        · have hlow : '@' ∉ T.lowercase cs :=
            fun h => hmem ((CharTables.mem_lowercase_of_plain (isCaseless_of_isStop hat)).1 h)
          rw [atSigns_of_not_mem hmem, atSigns_of_not_mem hlow, List.map_nil]
  exact hall text.length text [] rfl fun ds => rfl

/-! ### What is taken -/

theorem eq_of_size {cs p q : List Char} (hp : p <+: cs) (hq : q <+: cs) (h : size p = size q) :
    p = q := by
  rcases hp with ⟨more, rfl⟩
  rcases hq with ⟨rest, hrest⟩
  exact (append_inj_of_size hrest.symm h).1

theorem fits_iff {key : α → List Char} {rest : List Char} {c : α} :
    fits key rest c = true ↔ key c ≠ [] ∧ key c <+: rest := by
  simp [fits]

/-- What leads is taken if it ends at a boundary. -/
theorem takenAt_eq_some {key : α → List Char} {l : List α} {rest name : List Char} :
    (takenAt T key (descending (fun c => size (key c)) l) rest).map key = some name ↔
      (∃ c ∈ l, key c = name) ∧ name ≠ [] ∧ name <+: rest ∧
        (∀ c ∈ l, key c <+: rest → size (key c) ≤ size name) ∧
        endsName T (rest.drop name.length).head? = true := by
  have hlongest : ∀ c, (descending (fun c => size (key c)) l).find? (fits key rest) = some c →
      ∀ d ∈ l, key d <+: rest → size (key d) ≤ size (key c) := by
    intro c hc d hd hbegins
    by_cases hnil : key d = []
    · rw [hnil]
      exact Nat.zero_le _
    · exact @le_of_find?_descending _ (fun c => size (key c)) l (fits key rest) c d hc hd
        (fits_iff.2 ⟨hnil, hbegins⟩)
  rw [takenAt]
  constructor
  · intro h
    rcases Option.map_eq_some_iff.1 h with ⟨c, hc, rfl⟩
    rcases Option.bind_eq_some_iff.1 hc with ⟨d, hd, hends⟩
    by_cases hboundary : endsName T (rest.drop (key d).length).head? = true
    · rw [if_pos hboundary] at hends
      cases hends
      have hfits := fits_iff.1 (List.find?_some hd)
      exact ⟨⟨c, mem_descending.1 (List.mem_of_find?_eq_some hd), rfl⟩, hfits.1, hfits.2,
        hlongest c hd, hboundary⟩
    · rw [if_neg hboundary] at hends
      cases hends
  · rintro ⟨⟨c, hc, rfl⟩, hne, hbegins, hmax, hboundary⟩
    have hsome : ((descending (fun c => size (key c)) l).find? (fits key rest)).isSome := by
      rw [List.find?_isSome]
      exact ⟨c, mem_descending.2 hc, fits_iff.2 ⟨hne, hbegins⟩⟩
    rcases Option.isSome_iff_exists.1 hsome with ⟨d, hd⟩
    have hfits := fits_iff.1 (List.find?_some hd)
    have hkey : key d = key c := by
      refine eq_of_size hfits.2 hbegins (Nat.le_antisymm ?_ (hlongest d hd c hc hbegins))
      exact hmax d (mem_descending.1 (List.mem_of_find?_eq_some hd)) hfits.2
    rw [hd, Option.bind_some, hkey, if_pos hboundary, Option.map_some, hkey]

/-- Whom the text names is who goes by the name that is taken. -/
theorem namedAt_eq (members : List RoomMember) (me : WalletAddress) (front rest : List Char) :
    namedAt T (candidates T members me) front rest =
      if opensMention front.getLast? then
        (takenAt T Prod.fst (candidates T members me) rest).map Prod.snd
      else none := by
  have hfind : (candidates T members me).find? (fits Prod.fst rest) =
      (candidates T members me).find? (·.1.isPrefixOf rest) := by
    refine List.find?_congr fun c hc => ?_
    rcases mem_candidates.1 hc with ⟨m, -, -, hnames⟩
    simp [fits, (mem_namesOf.1 hnames).1]
  rw [namedAt, takenAt, hfind]
  cases (candidates T members me).find? (·.1.isPrefixOf rest) with
  | none => rfl
  | some c =>
      simp only [Option.bind_some]
      cases endsName T (rest.drop c.1.length).head? <;> rfl

/-- What is drawn is the name that is taken, unless the `@` is within another. -/
theorem highlightAt_eq (sorted : List (List Char)) (spans : List (ℕ × ℕ))
    (sign : List Char × List Char) : highlightAt T sorted spans sign =
      if spans.getLast?.any fun last => size sign.1 < last.2 then spans
      else if !opensMention sign.1.getLast? then spans
      else
        match takenAt T id sorted sign.2 with
        | none => spans
        | some name => spans ++ [range (sign.1, name)] := by
  have hfits : fits id sign.2 = fun name => !name.isEmpty && name.isPrefixOf sign.2 := rfl
  rw [highlightAt, takenAt, hfits]
  cases sorted.find? fun name => !name.isEmpty && name.isPrefixOf sign.2 with
  | none => rfl
  | some name =>
      simp only [Option.bind_some, id]
      by_cases hends : endsName T (sign.2.drop name.length).head? = true
      · simp only [if_pos hends, range]
      · simp only [if_neg hends]

end Composer

end PocketSkynet
