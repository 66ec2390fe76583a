import PocketSkynet.Server.Sample
import PocketSkynet.Web.NamesInText

/-!
# Whom a Text Names and What Is Drawn

The people a text is sent to and the names that are drawn should be the same. Both scanners look
at the lowercase copy of the text and try its boundary on the longest name only, what is drawn is
measured in bytes of the copy, two people of one name are told apart by their order, and an `@`
within a name counts for the one scanner and not for the other.

## Main definitions

* `listed`: The names of the other members.
* `Decided`: At an `@` the name that leads in the copy is the one that stands in the text.
* `Agreeing`: Both scanners take the longest names, and agree on the people.
* `Legible`: Every `@` is decided, the copy is as long as the text, and people are told apart.

## Theorems

* `highlightSpans_eq_mentions`: What is drawn are the names of the text, measured in the copy.
* `mem_resolve_iff`: Who is resolved is the first by a name of the text.
* `agreeing_iff`: The scanners agree exactly on legible texts.
-/

namespace PocketSkynet

namespace Composer

open Utf8

variable (T : CharTables)

/-- The names and the addresses of the other members. -/
def listed (members : List RoomMember) (me : WalletAddress) : List String :=
  (members.filter (·.userAddress ≠ me)).flatMap fun m => [m.user.displayName, m.userAddress.str]

/-- The names in lowercase, longest first. -/
def sortedNames (names : List String) : List (List Char) :=
  descending size (names.map fun n => T.lowercase n.toList)

/-- A member goes by a name, which is in lowercase. -/
def GoesBy (m : RoomMember) (name : List Char) : Prop :=
  T.lowercase m.user.displayName.toList = name ∨ T.lowercase m.userAddress.str.toList = name

/-- At an `@` the name that leads in the copy, if it ends at a boundary there, stands in the text;
    and if a name stands in the text, one that is no shorter leads and ends at a boundary. -/
structure Decided (names : List String) (rest : List Char) : Prop where
  phantom : ∀ name, Leads T names rest name → EndsInCopy T rest name →
    ∃ slice, Named T names rest slice ∧ T.lowercase slice = name
  missed : ∀ slice, Named T names rest slice → ∃ name, Leads T names rest name ∧
    EndsInCopy T rest name ∧ size (T.lowercase slice) ≤ size name

/-- The spans are the names of the text in their order, both scanners take the longest name at
    every `@`, and whoever is resolved is covered by a span. -/
structure Agreeing (members : List RoomMember) (me : WalletAddress) (text : List Char) :
    Prop where
  ranges : ∀ span ∈ highlightSpans T text (listed members me), ∃ front name rest,
    text = front ++ '@' :: (name ++ rest) ∧ span = (size front, size front + 1 + size name) ∧
      opensMention front.getLast? ∧ Named T (listed members me) (name ++ rest) name
  disjoint : (highlightSpans T text (listed members me)).Pairwise fun a b => a.2 ≤ b.1
  resolved : ∀ sign ∈ atSigns [] text, opensMention sign.1.getLast? →
    (takenAt T Prod.fst (candidates T members me) (T.lowercase sign.2)).map Prod.fst =
      (longestAt T (listed members me) sign.2).map T.lowercase
  highlighted : ∀ sign ∈ atSigns [] text, opensMention sign.1.getLast? →
    takenAt T id (sortedNames T (listed members me)) (T.lowercase sign.2) =
      (longestAt T (listed members me) sign.2).map T.lowercase
  spans : highlightSpans T text (listed members me) =
    (mentions T (listed members me) text).map range
  others : ∀ a ∈ resolve T text members me, ∃ m ∈ members, m.userAddress = a ∧ a ≠ me
  same : ∀ m ∈ members, m.userAddress ≠ me →
    (m.userAddress ∈ resolve T text members me ↔
      ∃ span ∈ highlightSpans T text (listed members me), ∃ name,
        slice text span.1 span.2 = some ('@' :: name) ∧ GoesBy T m (T.lowercase name))

/-- Every `@` that may name somebody is decided, the copy has as many bytes as the text up to
    every name and in it, everybody who goes by a name is the first by a name at some `@`, and
    whoever is named within a name is named elsewhere. -/
structure Legible (members : List RoomMember) (me : WalletAddress) (text : List Char) : Prop where
  decided : ∀ sign ∈ atSigns [] text, opensMention sign.1.getLast? →
    Decided T (listed members me) sign.2
  aligned : ∀ m ∈ mentions T (listed members me) text,
    size (T.lowercase m.1) = size m.1 ∧ size (T.lowercase m.2) = size m.2
  namesakes : ∀ mention ∈ mentions T (listed members me) text, ∀ m ∈ members,
    m.userAddress ≠ me → GoesBy T m (T.lowercase mention.2) → ∃ sign ∈ atSigns [] text,
      opensMention sign.1.getLast? ∧ ∃ name, longestAt T (listed members me) sign.2 = some name ∧
        holder T members me (T.lowercase name) = some m.userAddress
  within : ∀ sign ∈ atSigns [] text, opensMention sign.1.getLast? → ∀ name,
    longestAt T (listed members me) sign.2 = some name → ∀ m ∈ members, m.userAddress ≠ me →
      holder T members me (T.lowercase name) = some m.userAddress →
        ∃ mention ∈ mentions T (listed members me) text, GoesBy T m (T.lowercase mention.2)

variable {T}

/-! ### What is taken -/

theorem size_le_iff_length {rest p q : List Char} (hp : p <+: rest) (hq : q <+: rest) :
    size (T.lowercase p) ≤ size (T.lowercase q) ↔ p.length ≤ q.length := by
  rw [← Nat.not_lt, ← Nat.not_lt, length_lt_iff_size hq hp]

/-- What is taken leads, and ends at a boundary of the copy. -/
theorem takenAt_eq_some_iff {key : α → List Char} {l : List α} {names : List String}
    (hl : ∀ name, name ≠ [] →
      ((∃ c ∈ l, key c = name) ↔ ∃ n ∈ names, T.lowercase n.toList = name))
    {rest name : List Char} :
    (takenAt T key (descending (fun c => size (key c)) l) (T.lowercase rest)).map key =
        some name ↔ Leads T names rest name ∧ EndsInCopy T rest name := by
  have hmax : (∀ c ∈ l, key c <+: T.lowercase rest → size (key c) ≤ size name) ↔
      ∀ n ∈ names, T.lowercase n.toList <+: T.lowercase rest →
        size (T.lowercase n.toList) ≤ size name := by
    constructor
    · intro h n hn hbegins
      by_cases hnil : T.lowercase n.toList = []
      · rw [hnil]
        exact Nat.zero_le _
      · rcases (hl _ hnil).2 ⟨n, hn, rfl⟩ with ⟨c, hc, hkey⟩
        rw [← hkey] at hbegins ⊢
        exact h c hc hbegins
    · intro h c hc hbegins
      by_cases hnil : key c = []
      · rw [hnil]
        exact Nat.zero_le _
      · rcases (hl _ hnil).1 ⟨c, hc, rfl⟩ with ⟨n, hn, hkey⟩
        rw [← hkey] at hbegins ⊢
        exact h n hn hbegins
  rw [takenAt_eq_some, hmax]
  constructor
  · rintro ⟨hlisted, hne, hbegins, hlongest, hends⟩
    exact ⟨⟨(hl name hne).1 hlisted, hne, hbegins, hlongest⟩, hends⟩
  · rintro ⟨hleads, hends⟩
    exact ⟨(hl name hleads.nonempty).2 hleads.listed, hleads.nonempty, hleads.begins,
      hleads.longest, hends⟩

/-- The longest name of the text is taken exactly if the `@` is decided. -/
theorem takenAt_eq_longestAt {key : α → List Char} {l : List α} {names : List String}
    (hl : ∀ name, name ≠ [] →
      ((∃ c ∈ l, key c = name) ↔ ∃ n ∈ names, T.lowercase n.toList = name))
    {rest : List Char} :
    (takenAt T key (descending (fun c => size (key c)) l) (T.lowercase rest)).map key =
        (longestAt T names rest).map T.lowercase ↔ Decided T names rest := by
  constructor
  · intro heq
    constructor
    · intro name hleads hends
      rw [(takenAt_eq_some_iff hl).2 ⟨hleads, hends⟩] at heq
      rcases Option.map_eq_some_iff.1 heq.symm with ⟨slice, hslice, rfl⟩
      exact ⟨slice, (longestAt_eq_some.1 hslice).1, rfl⟩
    · intro slice hnamed
      cases hlongest : longestAt T names rest with
      | none => exact absurd hnamed (longestAt_eq_none.1 hlongest slice)
      | some name =>
          rw [hlongest] at heq
          rcases longestAt_eq_some.1 hlongest with ⟨hname, hmax⟩
          rcases (takenAt_eq_some_iff hl).1 heq with ⟨hleads, hends⟩
          exact ⟨T.lowercase name, hleads, hends,
            (size_le_iff_length hnamed.begins hname.begins).2 (hmax slice hnamed)⟩
  · intro hdecided
    cases hlongest : longestAt T names rest with
    | none =>
        cases htaken : (takenAt T key (descending (fun c => size (key c)) l)
            (T.lowercase rest)).map key with
        | none => rfl
        | some name =>
            rcases (takenAt_eq_some_iff hl).1 htaken with ⟨hleads, hends⟩
            rcases hdecided.phantom name hleads hends with ⟨slice, hnamed, -⟩
            exact absurd hnamed (longestAt_eq_none.1 hlongest slice)
    | some name =>
        rcases longestAt_eq_some.1 hlongest with ⟨hname, hmax⟩
        rcases hdecided.missed name hname with ⟨lead, hleads, hends, hsize⟩
        rcases hdecided.phantom lead hleads hends with ⟨slice, hslice, rfl⟩
        -- What leads is no shorter than the longest name, so it is the longest name.
        have hle := hmax slice hslice
        have hge := (size_le_iff_length hname.begins hslice.begins).1 hsize
        have hbegins := List.prefix_of_prefix_length_le hslice.begins hname.begins hle
        rw [hbegins.eq_of_length (Nat.le_antisymm hle hge)] at hleads hends
        exact (takenAt_eq_some_iff hl).2 ⟨hleads, hends⟩

theorem candidates_listed {members : List RoomMember} {me : WalletAddress} (name : List Char)
    (hne : name ≠ []) :
    (∃ c ∈ (members.filter (·.userAddress ≠ me)).flatMap (namesOf T), c.1 = name) ↔
      ∃ n ∈ listed members me, T.lowercase n.toList = name := by
  constructor
  · rintro ⟨c, hc, rfl⟩
    rcases List.mem_flatMap.1 hc with ⟨m, hm, hnames⟩
    rcases (mem_namesOf.1 hnames).2.2 with hname | hname
    · exact ⟨m.user.displayName, List.mem_flatMap.2 ⟨m, hm, by simp⟩, hname.symm⟩
    · exact ⟨m.userAddress.str, List.mem_flatMap.2 ⟨m, hm, by simp⟩, hname.symm⟩
  · rintro ⟨n, hn, rfl⟩
    rcases List.mem_flatMap.1 hn with ⟨m, hm, hname⟩
    refine ⟨(T.lowercase n.toList, m.userAddress), List.mem_flatMap.2 ⟨m, hm, ?_⟩, rfl⟩
    rw [List.mem_cons, List.mem_singleton] at hname
    refine mem_namesOf.2 ⟨hne, rfl, ?_⟩
    exact hname.imp (fun h => by rw [h]) fun h => by rw [h]

theorem sortedNames_listed {names : List String} (name : List Char) :
    (∃ c ∈ names.map fun n => T.lowercase n.toList, id c = name) ↔
      ∃ n ∈ names, T.lowercase n.toList = name := by
  simp

/-- What `resolve` takes is the longest name exactly if the `@` is decided. -/
theorem resolved_iff {members : List RoomMember} {me : WalletAddress} {rest : List Char} :
    (takenAt T Prod.fst (candidates T members me) (T.lowercase rest)).map Prod.fst =
        (longestAt T (listed members me) rest).map T.lowercase ↔
      Decided T (listed members me) rest :=
  takenAt_eq_longestAt candidates_listed

/-- And so is what `highlightSpans` takes. -/
theorem highlighted_iff {names : List String} {rest : List Char} :
    takenAt T id (sortedNames T names) (T.lowercase rest) =
        (longestAt T names rest).map T.lowercase ↔ Decided T names rest := by
  have h := @takenAt_eq_longestAt T _ id (names.map fun n => T.lowercase n.toList) names
    (fun name _ => sortedNames_listed name) rest
  rwa [Option.map_id] at h

/-! ### What is drawn -/

theorem text_of_sign {text : List Char} {sign : List Char × List Char}
    (h : sign ∈ atSigns [] text) : text = sign.1 ++ '@' :: sign.2 := by
  rcases mem_atSigns.1 h with ⟨ds, htext, hfront⟩
  rw [hfront, List.nil_append]
  exact htext

theorem mem_mentionAt {names : List String} {found : List (List Char × List Char)}
    {sign m : List Char × List Char} (h : m ∈ mentionAt T names found sign) :
    m ∈ found ∨ m.1 = sign.1 ∧ opensMention sign.1.getLast? = true ∧
      longestAt T names sign.2 = some m.2 := by
  rw [mentionAt] at h
  split at h
  · exact Or.inl h
  · split at h
    · exact Or.inl h
    · rename_i hopens
      cases hlongest : longestAt T names sign.2 with
      | none =>
          rw [hlongest] at h
          exact Or.inl h
      | some name =>
          rw [hlongest] at h
          rcases List.mem_append.1 h with h | h
          · exact Or.inl h
          · rw [List.mem_singleton.1 h]
            exact Or.inr ⟨rfl, by simpa using hopens, rfl⟩

/-- A name that was found stands at an `@` of the text. -/
theorem mem_mentions {names : List String} {text : List Char} {m : List Char × List Char}
    (h : m ∈ mentions T names text) : ∃ sign ∈ atSigns [] text, m.1 = sign.1 ∧
      opensMention sign.1.getLast? = true ∧ longestAt T names sign.2 = some m.2 := by
  have hloop : ∀ (signs found : List (List Char × List Char)),
      m ∈ signs.foldl (mentionAt T names) found → m ∈ found ∨ ∃ sign ∈ signs, m.1 = sign.1 ∧
        opensMention sign.1.getLast? = true ∧ longestAt T names sign.2 = some m.2 := by
    intro signs
    induction signs with
    | nil => exact fun found h => Or.inl h
    | cons sign signs ih =>
        intro found h
        rcases ih _ h with h | ⟨sign', hsign, hat⟩
        · rcases mem_mentionAt h with h | hat
          · exact Or.inl h
          · exact Or.inr ⟨sign, List.mem_cons_self, hat⟩
        · exact Or.inr ⟨sign', List.mem_cons_of_mem _ hsign, hat⟩
  exact (hloop _ _ h).resolve_left List.not_mem_nil

/-- So the text goes on behind it, at a boundary. -/
theorem text_of_mention {names : List String} {text : List Char} {m : List Char × List Char}
    (h : m ∈ mentions T names text) : ∃ rest, text = m.1 ++ '@' :: (m.2 ++ rest) ∧
      opensMention m.1.getLast? = true ∧ Named T names (m.2 ++ rest) m.2 := by
  rcases mem_mentions h with ⟨sign, hsign, hfront, hopens, hlongest⟩
  have hnamed := (longestAt_eq_some.1 hlongest).1
  rcases hnamed.begins with ⟨rest, hrest⟩
  rw [← hrest] at hnamed
  exact ⟨rest, by rw [hfront, hrest]; exact text_of_sign hsign, hfront ▸ hopens, hnamed⟩

-- An `@` is within a name of the copy where it is within the name of the text.
theorem within_iff {text front : List Char} {m : List Char × List Char} (hfront : front <+: text)
    (hm : m.1 ++ '@' :: m.2 <+: text) :
    size (T.lowercase front) < (range (lowered T m)).2 ↔
      front.length < m.1.length + 1 + m.2.length := by
  have hat : T.lowercase (m.1 ++ '@' :: m.2) = T.lowercase m.1 ++ '@' :: T.lowercase m.2 :=
    CharTables.lowercase_append (by decide) m.1 m.2
  have hone : '@'.utf8Size = 1 := rfl
  have hiff := @length_lt_iff_size T text front _ hfront hm
  rw [hat, size_append, size_cons, hone, List.length_append, List.length_cons] at hiff
  simp only [range, lowered]
  omega

/-- One `@` more: what is drawn is the name of the text, measured in the copy. -/
theorem highlightAt_lowered {names : List String} {text : List Char}
    {found : List (List Char × List Char)} {sign : List Char × List Char}
    (hfound : ∀ m ∈ found, m.1 ++ '@' :: m.2 <+: text) (hsign : text = sign.1 ++ '@' :: sign.2)
    (hdecided : opensMention sign.1.getLast? = true → Decided T names sign.2) :
    highlightAt T (sortedNames T names) (found.map fun m => range (lowered T m))
        (lowered T sign) =
      (mentionAt T names found sign).map fun m => range (lowered T m) := by
  have hwithin : (found.map fun m => range (lowered T m)).getLast?.any
      (fun last => size (lowered T sign).1 < last.2) =
      found.getLast?.any fun last => sign.1.length < last.1.length + 1 + last.2.length := by
    rw [List.getLast?_map]
    cases hlast : found.getLast? with
    | none => rfl
    | some last =>
        have hm := hfound last (List.mem_of_getLast? hlast)
        rw [Option.map_some, Option.any_some, Option.any_some, decide_eq_decide]
        exact within_iff ⟨_, hsign.symm⟩ hm
  rw [highlightAt_eq, mentionAt, hwithin]
  by_cases hin : found.getLast?.any
      (fun last => sign.1.length < last.1.length + 1 + last.2.length) = true
  · rw [if_pos hin, if_pos hin]
  rw [if_neg hin, if_neg hin, lowered, opensMention_lowercase]
  cases hopens : opensMention sign.1.getLast? with
  | false => rfl
  | true =>
      rw [highlighted_iff.2 (hdecided hopens)]
      cases longestAt T names sign.2 with
      | none => rfl
      | some name =>
          simp only [Bool.not_true, Bool.false_eq_true, if_false, Option.map_some,
            List.map_append]
          rfl

/-- What is drawn are the names of the text, measured in the copy, if every `@` is decided. -/
theorem highlightSpans_eq_mentions {names : List String} {text : List Char}
    (hdecided : ∀ sign ∈ atSigns [] text, opensMention sign.1.getLast? = true →
      Decided T names sign.2) :
    highlightSpans T text names = (mentions T names text).map fun m => range (lowered T m) := by
  have hloop : ∀ (signs found : List (List Char × List Char)),
      (∀ sign ∈ signs, sign ∈ atSigns [] text) → (∀ m ∈ found, m.1 ++ '@' :: m.2 <+: text) →
      (signs.map (lowered T)).foldl (highlightAt T (sortedNames T names))
          (found.map fun m => range (lowered T m)) =
        (signs.foldl (mentionAt T names) found).map fun m => range (lowered T m) := by
    intro signs
    induction signs with
    | nil => exact fun found _ _ => rfl
    | cons sign signs ih =>
        intro found hsigns hfound
        have hsign := hsigns sign List.mem_cons_self
        rw [List.map_cons, List.foldl_cons, List.foldl_cons,
          highlightAt_lowered hfound (text_of_sign hsign) (hdecided sign hsign)]
        refine ih _ (fun s hs => hsigns s (List.mem_cons_of_mem _ hs)) fun m hm => ?_
        rcases mem_mentionAt hm with hm | ⟨hfront, -, hlongest⟩
        · exact hfound m hm
        · rw [hfront, text_of_sign hsign]
          exact (List.prefix_append_right_inj _).2
            ((List.prefix_cons_inj _).2 (longestAt_eq_some.1 hlongest).1.begins)
  rw [highlightSpans]
  cases names with
  | nil =>
      -- Without names nothing stands anywhere.
      have hnone : mentions T [] text = [] := by
        refine List.eq_nil_iff_forall_not_mem.2 fun m hm => ?_
        rcases text_of_mention hm with ⟨rest, -, -, hnamed⟩
        rcases hnamed.listed with ⟨n, hn, -⟩
        cases hn
      rw [hnone]
      rfl
  | cons n names =>
      rw [if_neg (by simp), atSigns_lowercase]
      exact hloop _ [] (fun _ h => h) (by simp)

/-- The spans come one behind the other, whatever the text. -/
theorem pairwise_highlightSpans (text : List Char) (names : List String) :
    (highlightSpans T text names).Pairwise fun a b => a.2 ≤ b.1 := by
  have hone : ∀ sorted spans sign,
      ((spans.Pairwise fun a b : ℕ × ℕ => a.2 ≤ b.1) ∧ ∀ a ∈ spans, a.1 ≤ a.2) →
      ((highlightAt T sorted spans sign).Pairwise fun a b => a.2 ≤ b.1) ∧
        ∀ a ∈ highlightAt T sorted spans sign, a.1 ≤ a.2 := by
    rintro sorted spans sign ⟨hpairwise, hordered⟩
    rw [highlightAt_eq]
    split
    · exact ⟨hpairwise, hordered⟩
    rename_i hlast
    split
    · exact ⟨hpairwise, hordered⟩
    cases takenAt T id sorted sign.2 with
    | none => exact ⟨hpairwise, hordered⟩
    | some name =>
        have hnew : (range (sign.1, name)).1 ≤ (range (sign.1, name)).2 := by
          simp only [range]
          omega
        refine ⟨List.pairwise_append.2 ⟨hpairwise, List.pairwise_singleton _ _, ?_⟩, ?_⟩
        · intro a ha b hb
          rw [List.mem_singleton.1 hb]
          -- The last span ends before the new one, and the others before the last.
          rcases List.eq_nil_or_concat spans with rfl | ⟨init, last, rfl⟩
          · cases ha
          rw [List.concat_eq_append] at hlast ha hpairwise hordered
          rw [List.getLast?_concat, Option.any_some, decide_eq_true_eq, Nat.not_lt] at hlast
          rcases List.mem_append.1 ha with ha | ha
          · have hle := (List.pairwise_append.1 hpairwise).2.2 a ha last (List.mem_singleton.2 rfl)
            have hlast' := hordered last (List.mem_append_right _ (List.mem_singleton.2 rfl))
            exact (hle.trans hlast').trans hlast
          · rw [List.mem_singleton.1 ha]
            exact hlast
        · intro a ha
          rcases List.mem_append.1 ha with ha | ha
          · exact hordered a ha
          · rw [List.mem_singleton.1 ha]
            exact hnew
  have hloop : ∀ sorted (signs : List (List Char × List Char)) (spans : List (ℕ × ℕ)),
      ((spans.Pairwise fun a b : ℕ × ℕ => a.2 ≤ b.1) ∧ ∀ a ∈ spans, a.1 ≤ a.2) →
      (signs.foldl (highlightAt T sorted) spans).Pairwise fun a b => a.2 ≤ b.1 := by
    intro sorted signs
    induction signs with
    | nil => exact fun spans h => h.1
    | cons sign signs ih => exact fun spans h => ih _ (hone sorted spans sign h)
  rw [highlightSpans]
  split
  · exact List.Pairwise.nil
  · exact hloop _ _ [] ⟨List.Pairwise.nil, fun a ha => absurd ha List.not_mem_nil⟩

/-! ### Who is named -/

/-- What is taken at an `@` belongs to the first who goes by it. -/
theorem taken_holder {members : List RoomMember} {me : WalletAddress} {rest name : List Char}
    (h : (takenAt T Prod.fst (candidates T members me) rest).map Prod.fst = some name) :
    (takenAt T Prod.fst (candidates T members me) rest).map Prod.snd =
      holder T members me name := by
  rcases Option.map_eq_some_iff.1 h with ⟨c, hc, rfl⟩
  rcases Option.bind_eq_some_iff.1 hc with ⟨d, hd, hends⟩
  have hcd : d = c := by
    split at hends
    · exact Option.some.inj hends
    · cases hends
  rw [hcd] at hd
  have hc' := (@takenAt_eq_some T _ Prod.fst _ rest c.1).1 h
  have hfits := fits_iff.1 (List.find?_some hd)
  have hfirst := @find?_descending _ (fun c => size c.1) _ (fits Prod.fst rest) c
    (mem_descending.1 (List.mem_of_find?_eq_some hd)) (List.find?_some hd)
    fun b hb hb' => hc'.2.2.2.1 b hb (fits_iff.1 hb').2
  have hpred : (fun b : List Char × WalletAddress =>
      decide (size b.1 = size c.1) && fits Prod.fst rest b) = fun b => decide (b.1 = c.1) := by
    funext b
    rw [Bool.eq_iff_iff, Bool.and_eq_true, decide_eq_true_eq, decide_eq_true_eq, fits_iff]
    constructor
    · exact fun hb => eq_of_size hb.2.2 hfits.2 hb.1
    · intro hb
      rw [hb]
      exact ⟨rfl, hfits⟩
  rw [hpred] at hfirst
  rw [hc, holder, ← find?_flatMap_namesOf hfits.1, ← hfirst]
  exact (congrArg (Option.map Prod.snd) hd).symm

/-- Who is resolved is the first by a name of the text, if every `@` is decided. -/
theorem mem_resolve_iff {members : List RoomMember} {me a : WalletAddress} {text : List Char}
    (hdecided : ∀ sign ∈ atSigns [] text, opensMention sign.1.getLast? = true →
      Decided T (listed members me) sign.2) :
    a ∈ resolve T text members me ↔ ∃ sign ∈ atSigns [] text,
      opensMention sign.1.getLast? = true ∧ ∃ name,
        longestAt T (listed members me) sign.2 = some name ∧
          holder T members me (T.lowercase name) = some a := by
  have hat : ∀ sign ∈ atSigns [] text,
      (namedAt T (candidates T members me) (lowered T sign).1 (lowered T sign).2 = some a ↔
        opensMention sign.1.getLast? = true ∧ ∃ name,
          longestAt T (listed members me) sign.2 = some name ∧
            holder T members me (T.lowercase name) = some a) := by
    intro sign hsign
    rw [namedAt_eq, lowered, opensMention_lowercase]
    by_cases hopens : opensMention sign.1.getLast? = true
    · have htaken := resolved_iff.2 (hdecided sign hsign hopens)
      rw [if_pos hopens]
      simp only [hopens, true_and]
      cases hlongest : longestAt T (listed members me) sign.2 with
      | none =>
          rw [hlongest, Option.map_none, Option.map_eq_none_iff] at htaken
          simp [htaken]
      | some name =>
          rw [hlongest] at htaken
          rw [taken_holder htaken]
          simp
    · rw [if_neg hopens]
      exact iff_of_false (by simp) fun h => hopens h.1
  rw [mem_resolve, atSigns_lowercase]
  constructor
  · rintro ⟨sign, hsign, hnamed⟩
    rcases List.mem_map.1 hsign with ⟨sign, hmem, rfl⟩
    exact ⟨sign, hmem, (hat sign hmem).1 hnamed⟩
  · rintro ⟨sign, hmem, hnamed⟩
    exact ⟨lowered T sign, List.mem_map_of_mem hmem, (hat sign hmem).2 hnamed⟩

theorem mem_resolve_others {members : List RoomMember} {me a : WalletAddress} {text : List Char}
    (h : a ∈ resolve T text members me) : ∃ m ∈ members, m.userAddress = a ∧ a ≠ me := by
  rcases mem_resolve.1 h with ⟨sign, -, hnamed⟩
  rw [namedAt_eq] at hnamed
  split at hnamed
  · rcases Option.map_eq_some_iff.1 hnamed with ⟨c, hc, rfl⟩
    rcases Option.bind_eq_some_iff.1 hc with ⟨d, hd, hends⟩
    rcases mem_candidates.1 (List.mem_of_find?_eq_some hd) with ⟨m, hm, hme, hnames⟩
    split at hends
    · cases hends
      have haddress := (mem_namesOf.1 hnames).2.1
      exact ⟨m, hm, haddress.symm, haddress ▸ hme⟩
    · cases hends
  · cases hnamed

/-- The span of a mention is an `@` and the name. -/
theorem slice_range {names : List String} {text : List Char} {m : List Char × List Char}
    (h : m ∈ mentions T names text) :
    slice text (range m).1 (range m).2 = some ('@' :: m.2) := by
  rcases text_of_mention h with ⟨rest, htext, -, -⟩
  have hslice := slice_append m.1 ('@' :: m.2) rest
  have hone : '@'.utf8Size = 1 := rfl
  rw [size_cons, hone, ← Nat.add_assoc] at hslice
  rw [range]
  exact htext ▸ hslice

/-- **The scanners agree exactly on the texts that are legible.** -/
theorem agreeing_iff (T : CharTables) (members : List RoomMember) (me : WalletAddress)
    (text : List Char) : Agreeing T members me text ↔ Legible T members me text := by
  have hdecides : Agreeing T members me text → ∀ sign ∈ atSigns [] text,
      opensMention sign.1.getLast? = true → Decided T (listed members me) sign.2 :=
    fun h sign hsign hopens => resolved_iff.1 (h.resolved sign hsign hopens)
  -- If every `@` is decided, the spans are where they belong if the copy is as long as the text.
  have haligned : (∀ sign ∈ atSigns [] text, opensMention sign.1.getLast? = true →
      Decided T (listed members me) sign.2) →
      (highlightSpans T text (listed members me) =
        (mentions T (listed members me) text).map range ↔
      ∀ m ∈ mentions T (listed members me) text,
        size (T.lowercase m.1) = size m.1 ∧ size (T.lowercase m.2) = size m.2) := by
    intro hdecided
    rw [highlightSpans_eq_mentions hdecided, List.map_inj_left]
    refine forall₂_congr fun m _ => ?_
    simp only [range, lowered, Prod.mk.injEq]
    omega
  -- Then a span covers a member if he goes by a name that stands in the text.
  have hcovered : highlightSpans T text (listed members me) =
      (mentions T (listed members me) text).map range → ∀ m : RoomMember,
      ((∃ span ∈ highlightSpans T text (listed members me), ∃ name,
        slice text span.1 span.2 = some ('@' :: name) ∧ GoesBy T m (T.lowercase name)) ↔
      ∃ mention ∈ mentions T (listed members me) text, GoesBy T m (T.lowercase mention.2)) := by
    intro hspans m
    rw [hspans]
    constructor
    · rintro ⟨span, hspan, name, hslice, hgoes⟩
      rcases List.mem_map.1 hspan with ⟨mention, hmention, rfl⟩
      rw [slice_range hmention] at hslice
      cases hslice
      exact ⟨mention, hmention, hgoes⟩
    · rintro ⟨mention, hmention, hgoes⟩
      exact ⟨range mention, List.mem_map_of_mem hmention, mention.2, slice_range hmention, hgoes⟩
  constructor
  · intro h
    have hdecided := hdecides h
    refine ⟨hdecided, (haligned hdecided).1 h.spans, ?_, ?_⟩
    · intro mention hmention m hm hme hgoes
      refine (mem_resolve_iff hdecided).1 ((h.same m hm hme).2 ?_)
      exact (hcovered h.spans m).2 ⟨mention, hmention, hgoes⟩
    · intro sign hsign hopens name hlongest m hm hme hholder
      refine (hcovered h.spans m).1 ((h.same m hm hme).1 ?_)
      exact (mem_resolve_iff hdecided).2 ⟨sign, hsign, hopens, name, hlongest, hholder⟩
  · intro h
    have hspans := (haligned h.decided).2 h.aligned
    refine ⟨?_, pairwise_highlightSpans text _, ?_, ?_, hspans, fun a => mem_resolve_others, ?_⟩
    · intro span hspan
      rw [hspans] at hspan
      rcases List.mem_map.1 hspan with ⟨m, hm, rfl⟩
      rcases text_of_mention hm with ⟨rest, htext, hopens, hnamed⟩
      exact ⟨m.1, m.2, rest, htext, rfl, hopens, hnamed⟩
    · exact fun sign hsign hopens => resolved_iff.2 (h.decided sign hsign hopens)
    · exact fun sign hsign hopens => highlighted_iff.2 (h.decided sign hsign hopens)
    · intro m hm hme
      rw [mem_resolve_iff h.decided, hcovered hspans]
      constructor
      · rintro ⟨sign, hsign, hopens, name, hlongest, hholder⟩
        exact h.within sign hsign hopens name hlongest m hm hme hholder
      · rintro ⟨mention, hmention, hgoes⟩
        exact h.namesakes mention hmention m hm hme hgoes

/-- A longer name that goes on past a boundary hides the shorter one. -/
theorem longer_name_hides : ¬ Agreeing .latin
    [⟨Sample.alice, Sample.alice, "Alice", none⟩, ⟨Sample.bob, Sample.bob, "Bob", none⟩,
      ⟨Sample.carol, Sample.carol, "Bob Lee", none⟩] Sample.alice "@bob leeds".toList := by
  intro h
  have hresolved := h.resolved ([], "bob leeds".toList) (by decide) (by decide)
  exact absurd hresolved (by decide +kernel)

end Composer

end PocketSkynet
