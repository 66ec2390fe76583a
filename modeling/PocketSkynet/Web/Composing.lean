import PocketSkynet.Server.Sample
import PocketSkynet.Web.Mentions

/-!
# Writing a Mention

The composer finds the `@` behind which the caret sits, writes a name in its place and lets the
finished text be resolved. All of it happens between characters, whatever the text. The name
that was written is read back as its first holder in the list of members, as usernames are not
unique.

## Main definitions

* `Covers`: A mention in progress covers an `@` and what was typed.
* `EditingSafe`: What a text, a caret and a choice are expected to do.
* `Unshadowed`: The choice is the holder of its name, or is named once more.

## Theorems

* `apply_covers`: Only what is covered is replaced.
* `namedAt_written`: The `@` that was written names the holder of the name.
* `editing_safe_iff`: The choice is resolved if it is not shadowed.
-/

namespace PocketSkynet

namespace Composer

open Utf8

/-- A text ends a character at a byte. -/
def Boundary (text : List Char) (byte : ℕ) : Prop :=
  ∃ front rest, text = front ++ rest ∧ size front = byte

/-- A mention in progress covers an `@` and what was typed behind it. -/
structure Covers (text : List Char) (a : ActiveMention) (front typed rest : List Char) :
    Prop where
  text_eq : text = front ++ ('@' :: typed ++ rest)
  start_eq : a.start = size front
  stop_eq : a.stop = size front + size ('@' :: typed)
  no_newline : '\n' ∉ typed

/-- The text with a name written behind what is in front. -/
def written (front name rest : List Char) : List Char := front ++ '@' :: (name ++ ' ' :: rest)

section Choice

variable (T : CharTables) (members : List RoomMember) (me : WalletAddress)

/-- No listed name that is longer matches what stands behind an `@`. -/
def NoLonger (name behind : List Char) : Prop :=
  ∀ c ∈ candidates T members me, c.1 <+: T.lowercase behind →
    size c.1 ≤ size (T.lowercase name)

/-- The new text names a member at another `@` than the one behind what is in front. -/
def NamedElsewhere (front text : List Char) (a : WalletAddress) : Prop :=
  ∃ sign ∈ atSigns [] (T.lowercase text), sign.1 ≠ T.lowercase front ∧
    namedAt T (candidates T members me) sign.1 sign.2 = some a

/-- The caret is found between characters, a mention in progress is an `@` in the text, the
    name takes its place, and whoever was chosen is resolved. -/
structure EditingSafe (text : List Char) (caret : ℕ) (chosen : RoomMember) : Prop where
  boundary : Boundary text (caretToByte text caret)
  caret_back : ∀ front rest, text = front ++ rest → caret = units front →
    byteToCaret text (caretToByte text caret) = some caret
  active : ∀ a, activeMention T text (caretToByte text caret) = some a →
    ∃ front typed rest, Covers text a front typed rest
  applied : ∀ a front typed rest,
    activeMention T text (caretToByte text caret) = some a →
    Covers text a front typed rest → ∀ name,
      apply text a name =
        some (written front name rest, size (front ++ '@' :: (name ++ [' '])))
  resolved : ∀ a front typed rest,
    activeMention T text (caretToByte text caret) = some a →
    Covers text a front typed rest →
    NoLonger T members me chosen.user.displayName.toList
      (chosen.user.displayName.toList ++ ' ' :: rest) →
    chosen.userAddress ∈
      resolve T (written front chosen.user.displayName.toList rest) members me

/-- Where a mention is in progress and no longer name matches, the chosen member is the first
    with the name that is written, or the new text names him once more. -/
def Unshadowed (text : List Char) (caret : ℕ) (chosen : RoomMember) : Prop :=
  ∀ a front typed rest,
    activeMention T text (caretToByte text caret) = some a →
    Covers text a front typed rest →
    NoLonger T members me chosen.user.displayName.toList
      (chosen.user.displayName.toList ++ ' ' :: rest) →
    holder T members me (T.lowercase chosen.user.displayName.toList) =
        some chosen.userAddress ∨
      NamedElsewhere T members me front
        (written front chosen.user.displayName.toList rest) chosen.userAddress

end Choice

theorem boundary_caretToByte (text : List Char) (caret : ℕ) :
    Boundary text (caretToByte text caret) := by
  rcases caretFrom_spec caret 0 0 text with ⟨front, rest, htext, hsize, -⟩
  exact ⟨front, rest, htext, by rw [caretToByte, hsize, Nat.zero_add]⟩

/-- A caret between two characters is found again. -/
theorem byteToCaret_caretToByte (front rest : List Char) :
    byteToCaret (front ++ rest) (caretToByte (front ++ rest) (units front)) =
      some (units front) := by
  rcases caretFrom_spec (units front) 0 0 (front ++ rest) with ⟨found, behind, -, hsize, hat⟩
  have hfound := hat front rest rfl (Nat.zero_add _).symm
  have hbyte : caretToByte (front ++ rest) (units front) = size front := by
    rw [caretToByte, hsize, hfound, Nat.zero_add]
  rw [byteToCaret, hbyte, size_append, Nat.min_eq_left (Nat.le_add_right _ _), splitAt_append]
  rfl

variable {T : CharTables}

/-- What is active is an `@` in the text, where one may stand, and ends at the caret. -/
theorem covers_activeMention {text : List Char} {caret : ℕ} {a : ActiveMention}
    (h : activeMention T text caret = some a) :
    ∃ front typed rest, Covers text a front typed rest ∧
      opensMention front.getLast? = true := by
  rcases Option.bind_eq_some_iff.1 h with ⟨head, hhead, h⟩
  rcases Option.bind_eq_some_iff.1 h with ⟨parts, hparts, h⟩
  rcases splitAt_eq_some hhead with ⟨htext, hsize⟩
  have hat := rfindAt_eq_some hparts
  by_cases hopens : opensMention parts.1.getLast? = true
  · rw [hopens, Bool.not_true, if_neg Bool.false_ne_true] at h
    by_cases hlong : (parts.2.contains '\n' || maxHandle < parts.2.length) = true
    · rw [if_pos hlong] at h
      cases h
    · rw [if_neg hlong] at h
      replace h := Option.some.inj h
      rw [Bool.or_eq_true, not_or] at hlong
      refine ⟨parts.1, parts.2, head.2, ⟨?_, ?_, ?_, ?_⟩, hopens⟩
      · rw [htext, hat, List.append_assoc]
      · rw [← h]
      · rw [← h, ← size_append, ← hat, hsize]
      · simpa using hlong.1
  · simp [hopens] at h

-- Of two ways to cover a mention only one is in the text.
theorem front_eq_of_covers {text front front' typed typed' rest rest' : List Char}
    {a : ActiveMention} (h : Covers text a front typed rest)
    (h' : Covers text a front' typed' rest') : front = front' := by
  have hsplit := splitAt_append front ('@' :: typed ++ rest)
  rw [← h.text_eq, ← h.start_eq, h'.start_eq, h'.text_eq, splitAt_append] at hsplit
  exact (congrArg Prod.fst (Option.some.inj hsplit)).symm

/-- Only what is covered is replaced, and the caret lands behind the name. -/
theorem apply_covers {text front typed rest : List Char} {a : ActiveMention}
    (h : Covers text a front typed rest) (name : List Char) :
    apply text a name =
      some (written front name rest, size (front ++ '@' :: (name ++ [' ']))) := by
  have hfront := splitAt_append front ('@' :: typed ++ rest)
  have hrest := splitAt_append (front ++ '@' :: typed) rest
  rw [List.append_assoc, size_append] at hrest
  rw [apply, h.start_eq, h.stop_eq, h.text_eq, hfront, hrest]
  simp only [Option.bind_eq_bind, Option.bind_some, written, List.append_assoc,
    List.cons_append]
  rfl

theorem endsName_space : endsName T (some ' ') = true := by
  have hspace := T.not_alphanumeric ' ' (by decide)
  simp [endsName, hspace]

-- A name of its length that matches where a name stands is that name.
theorem isPrefixOf_iff_eq {name other rest : List Char} :
    (size other = size name ∧ other <+: name ++ rest) ↔ other = name := by
  constructor
  · rintro ⟨hsize, tail, htail⟩
    have hsplit := splitAt_append other tail
    rw [htail, hsize, splitAt_append] at hsplit
    exact (congrArg Prod.fst (Option.some.inj hsplit)).symm
  · rintro rfl
    exact ⟨rfl, List.prefix_append _ _⟩

/-- The `@` that was written names the holder of the name, unless a longer name matches. -/
theorem namedAt_written {members : List RoomMember} {me : WalletAddress}
    {chosen : RoomMember} (hmem : chosen ∈ members) (hme : chosen.userAddress ≠ me)
    {front rest name : List Char} (hopens : opensMention front.getLast? = true)
    (hname : chosen.user.displayName.toList = name) (hne : name ≠ [])
    (hlongest : NoLonger T members me name (name ++ ' ' :: rest)) :
    namedAt T (candidates T members me) (T.lowercase front)
        (T.lowercase (name ++ ' ' :: rest)) = holder T members me (T.lowercase name) := by
  have hlower : T.lowercase name ≠ [] := fun h => hne (CharTables.lowercase_eq_nil.1 h)
  have hbehind : T.lowercase (name ++ ' ' :: rest) = T.lowercase name ++ ' ' :: T.lowercase rest :=
    CharTables.lowercase_append (by decide) name rest
  have hown : (T.lowercase name, chosen.userAddress) ∈
      (members.filter (·.userAddress ≠ me)).flatMap (namesOf T) := by
    refine List.mem_flatMap.2 ⟨chosen, List.mem_filter.2 ⟨hmem, decide_eq_true hme⟩, ?_⟩
    exact mem_namesOf.2 ⟨hlower, rfl, Or.inl (by rw [hname])⟩
  have hfind := @find?_descending _ (fun c => size c.1) _
    (fun c => c.1.isPrefixOf (T.lowercase (name ++ ' ' :: rest))) _ hown (by simp [hbehind])
    (fun c hc hpre => hlongest c (mem_descending.2 hc) (List.isPrefixOf_iff_prefix.1 hpre))
  have hpred : (fun c : List Char × WalletAddress =>
      decide (size c.1 = size (T.lowercase name)) &&
        c.1.isPrefixOf (T.lowercase (name ++ ' ' :: rest))) =
      fun c => decide (c.1 = T.lowercase name) := by
    funext c
    rw [hbehind, Bool.eq_iff_iff, Bool.and_eq_true, decide_eq_true_eq, decide_eq_true_eq,
      List.isPrefixOf_iff_prefix, isPrefixOf_iff_eq]
  have hholder : (((members.filter (·.userAddress ≠ me)).flatMap (namesOf T)).find?
      fun c => c.1 = T.lowercase name).map Prod.snd = holder T members me (T.lowercase name) :=
    find?_flatMap_namesOf hlower _
  rw [namedAt, opensMention_lowercase, if_pos hopens, candidates, hfind, hpred, ← hholder]
  cases hfound : ((members.filter (·.userAddress ≠ me)).flatMap (namesOf T)).find?
      fun c => c.1 = T.lowercase name with
  | none => rfl
  | some c =>
      have hc : c.1 = T.lowercase name := by simpa using List.find?_some hfound
      rw [Option.bind_some, hc, hbehind, List.drop_left, List.head?_cons, if_pos endsName_space]
      rfl

theorem displayName_ne_nil (u : User) : u.displayName.toList ≠ [] := by
  intro h
  rw [User.displayName] at h
  by_cases hblank : isBlank u.username = true
  · rw [if_pos hblank] at h
    simp [abbreviated] at h
  · rw [if_neg hblank] at h
    exact hblank (by rw [isBlank, h]; rfl)

/-- The choice is resolved if it is the holder of its name, or named once more, and in no other
    case. -/
theorem mem_resolve_written {members : List RoomMember} {me : WalletAddress}
    {chosen : RoomMember} (hmem : chosen ∈ members) (hme : chosen.userAddress ≠ me)
    {front rest name : List Char} (hopens : opensMention front.getLast? = true)
    (hname : chosen.user.displayName.toList = name)
    (hlongest : NoLonger T members me name (name ++ ' ' :: rest)) :
    chosen.userAddress ∈ resolve T (written front name rest) members me ↔
      holder T members me (T.lowercase name) = some chosen.userAddress ∨
        NamedElsewhere T members me front (written front name rest) chosen.userAddress := by
  have hne : name ≠ [] := hname ▸ displayName_ne_nil chosen.user
  have hhere := namedAt_written hmem hme hopens hname hne hlongest
  have hlower : T.lowercase (written front name rest) =
      T.lowercase front ++ '@' :: T.lowercase (name ++ ' ' :: rest) :=
    CharTables.lowercase_append (by decide) front _
  rw [mem_resolve]
  constructor
  · rintro ⟨sign, hsign, hnamed⟩
    by_cases hfront : sign.1 = T.lowercase front
    · -- The `@` is the one that was written, so what is behind it was written too.
      rcases mem_atSigns.1 hsign with ⟨ds, htext, hds⟩
      rw [List.nil_append] at hds
      rw [hlower, ← hds, hfront] at htext
      have hbehind := (List.cons.inj (List.append_cancel_left htext)).2
      rw [hfront, ← hbehind, hhere] at hnamed
      exact Or.inl hnamed
    · exact Or.inr ⟨sign, hsign, hfront, hnamed⟩
  · rintro (hholder | ⟨sign, hsign, -, hnamed⟩)
    · refine ⟨(T.lowercase front, T.lowercase (name ++ ' ' :: rest)), ?_, hhere.trans hholder⟩
      exact mem_atSigns.2 ⟨T.lowercase front, hlower, rfl⟩
    · exact ⟨sign, hsign, hnamed⟩

/-- Whatever the text and wherever the caret, a mention is written between characters. Whoever
    was chosen is resolved exactly if he is not shadowed. -/
theorem editing_safe_iff (T : CharTables) (text : List Char) (caret : ℕ)
    (members : List RoomMember) (me : WalletAddress) (chosen : RoomMember)
    (hmem : chosen ∈ members) (hme : chosen.userAddress ≠ me) :
    EditingSafe T members me text caret chosen ↔
      Unshadowed T members me text caret chosen := by
  have hiff : ∀ a front typed rest,
      activeMention T text (caretToByte text caret) = some a →
      Covers text a front typed rest →
      NoLonger T members me chosen.user.displayName.toList
        (chosen.user.displayName.toList ++ ' ' :: rest) →
      (chosen.userAddress ∈
          resolve T (written front chosen.user.displayName.toList rest) members me ↔
        holder T members me (T.lowercase chosen.user.displayName.toList) =
            some chosen.userAddress ∨
          NamedElsewhere T members me front
            (written front chosen.user.displayName.toList rest) chosen.userAddress) := by
    intro a front typed rest ha hcovers hlongest
    rcases covers_activeMention ha with ⟨front', typed', rest', hcovers', hopens⟩
    rw [front_eq_of_covers hcovers' hcovers] at hopens
    exact mem_resolve_written hmem hme hopens rfl hlongest
  constructor
  · intro h a front typed rest ha hcovers hlongest
    exact (hiff a front typed rest ha hcovers hlongest).1
      (h.resolved a front typed rest ha hcovers hlongest)
  · intro h
    refine ⟨boundary_caretToByte text caret, ?_, ?_, ?_, ?_⟩
    · rintro front rest rfl rfl
      exact byteToCaret_caretToByte front rest
    · intro a ha
      rcases covers_activeMention ha with ⟨front, typed, rest, hcovers, -⟩
      exact ⟨front, typed, rest, hcovers⟩
    · exact fun a front typed rest _ hcovers name => apply_covers hcovers name
    · intro a front typed rest ha hcovers hlongest
      exact (hiff a front typed rest ha hcovers hlongest).2
        (h a front typed rest ha hcovers hlongest)

/-- A member with a username. -/
def member (a : WalletAddress) (name : String) : RoomMember := ⟨a, ⟨a, name, none⟩⟩

theorem editing_safe_bob : EditingSafe .latin
    [member Sample.alice "alice", member Sample.bob "Bob"] Sample.alice
    "hey @bo, thanks".toList 7 (member Sample.bob "Bob") := by
  refine (editing_safe_iff .latin _ 7 _ Sample.alice (member Sample.bob "Bob")
    (List.mem_cons_of_mem _ List.mem_cons_self) (by decide)).2 ?_
  intro a front typed rest _ _ _
  exact Or.inl (by decide +kernel)

/-- Two members share a name, and whoever comes second cannot be mentioned by it. -/
theorem namesake_not_resolved : ¬ EditingSafe .latin
    [member Sample.alice "alice", member Sample.bob "Bob", member Sample.carol "bob"]
    Sample.alice "@".toList 1 (member Sample.carol "bob") := by
  intro h
  have hcovers : Covers "@".toList ⟨0, 1, []⟩ [] [] [] := by
    refine ⟨rfl, rfl, rfl, List.not_mem_nil⟩
  have hresolved := h.resolved ⟨0, 1, []⟩ [] [] [] (by decide +kernel) hcovers
    (by unfold NoLonger; decide +kernel)
  exact absurd hresolved (by decide +kernel)

end Composer

end PocketSkynet
