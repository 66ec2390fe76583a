import PocketSkynet.Lib.Runs
import PocketSkynet.Web.MentionAgreement
import PocketSkynet.Web.Rendering

/-!
# What Is Drawn and What Was Written

A message on the screen should be the message that was written: the pieces together are the text,
what points somewhere points to a word of it, and every word that points somewhere is drawn so.
The text is cut at blanks and at names, though, and a word ends at any white space. A line break
or a tab stays inside a token, a name cuts into a word, and the white space around an address is
lost when the address is read.

The text is marked character by character with where it is cut. Its tokens are the runs between
the cuts, and its words the runs between white space, so both are seen in the same list.

## Main definitions

* `Faithful`: The pieces are the text, and what points somewhere are its words.
* `covered`, `marked`, `marksOf`: Where a text is cut.
* `Separable`: The words that point somewhere are tokens, and such tokens are words.

## Theorems

* `whole_iff`, `targets_iff`, `words_iff`: What the pieces say of the marked text.
* `faithful_iff`: Exactly separable texts are drawn as they were written.
* `link_joins_lines`: A link that goes on in the next line.
-/

namespace PocketSkynet

namespace Bubble

open Utf8 Runs

/-- A piece that points somewhere: a link, or what is embedded. -/
def Drawn.isTarget : Drawn → Bool
  | attachment _ | image _ _ | video _ _ | youtube _ | link _ => true
  | text | mention _ | address _ | tag _ => false

/-- The address that is opened or loaded. -/
def Drawn.url : Drawn → Option (List Char)
  | image url _ | video url _ | link url => some url
  | _ => none

/-- A word is drawn as the attachment, the hosted media or the web address that it points to. -/
structure DrawnAs (word : List Char) (d : Drawn) : Prop where
  attachment : ∀ id, attachmentIdIn word = some id → d = .attachment id
  served : ∀ name, isMediaName name = true → word = urlPath ++ name.toList →
    ∃ kind, hostedMediaIn word = some kind ∧ d = drawHosted word kind
  url : isHttpUrl word = true → d.isTarget = true

/-- A word that points somewhere: the path of an attachment, the path of hosted media that the
    server serves, or a web address. -/
def Wanted (word : List Char) : Prop :=
  (attachmentIdIn word).isSome = true ∨
    (∃ name, isMediaName name = true ∧ word = urlPath ++ name.toList) ∨ isHttpUrl word = true

/-- A text is drawn as it was written. -/
structure Faithful (text : List Char) (pieces : List Piece) : Prop where
  whole : sources pieces = text
  targets : ∀ before p after, pieces = before ++ p :: after → p.drawn.isTarget = true →
    IsRun isSpace (sources before) p.source (sources after) ∧
      ∀ url ∈ p.drawn.url, url = p.source
  words : ∀ front word rest, text = front ++ (word ++ rest) → IsRun isSpace front word rest →
    Wanted word → ∃ before p after, pieces = before ++ p :: after ∧ sources before = front ∧
      p.source = word ∧ DrawnAs word p.drawn

/-! ### Where a text is cut -/

/-- Whether a byte belongs to a name that is drawn. -/
def covered (spans : List (ℕ × ℕ)) (i : ℕ) : Bool :=
  spans.any fun span => decide (span.1 ≤ i) && decide (i < span.2)

/-- The characters of a text behind so many bytes, each with whether it is cut out: blanks, and
    the names. -/
def marked (spans : List (ℕ × ℕ)) : ℕ → List Char → List (Char × Bool)
  | _, [] => []
  | i, c :: cs => (c, c == ' ' || covered spans i) :: marked spans (i + c.utf8Size) cs

/-- Whether a token points somewhere. -/
def pointsSomewhere (token : List Char) : Bool :=
  (attachmentIdIn token).isSome || (hostedMediaIn token).isSome || isHttpUrl token

def isWhite (m : Char × Bool) : Bool := isSpace m.1

variable (T : CharTables)

/-- The characters of a text, each with whether it is cut out. -/
def marksOf (text : List Char) (names : List String) : List (Char × Bool) :=
  marked (Composer.highlightSpans T text names) 0 text

/-- Names begin and end between characters, words that point somewhere are not cut into and end
    at cuts, tokens that point somewhere have no white space and end at it, and no token is an
    address with white space around it. -/
structure Separable (text : List Char) (names : List String) (handles : List (List Char)) :
    Prop where
  cuts : ∀ span ∈ Composer.highlightSpans T text names,
    (splitAt text span.1).isSome = true ∧ (splitAt text span.2).isSome = true ∧
      (handles ≠ [] → (splitAt text (span.1 + 1)).isSome = true)
  words : ∀ front word rest, marksOf T text names = front ++ (word ++ rest) →
    IsRun isWhite front word rest → Wanted (word.map Prod.fst) → IsRun Prod.snd front word rest
  targets : ∀ front token rest, marksOf T text names = front ++ (token ++ rest) →
    IsRun Prod.snd front token rest → pointsSomewhere (token.map Prod.fst) = true →
      IsRun isWhite front token rest
  addresses : ∀ front token rest, marksOf T text names = front ++ (token ++ rest) →
    IsRun Prod.snd front token rest → pointsSomewhere (token.map Prod.fst) = false →
      (walletIn (token.map Prod.fst)).isSome = true →
        trim (addressHead (token.map Prod.fst)) = addressHead (token.map Prod.fst)

/-! ### Marks -/

section Marks

variable {spans : List (ℕ × ℕ)} {i : ℕ}

theorem map_fst_marked (cs : List Char) : (marked spans i cs).map Prod.fst = cs := by
  induction cs generalizing i with
  | nil => rfl
  | cons c cs ih => rw [marked, List.map_cons, ih]

theorem marked_append (cs ds : List Char) :
    marked spans i (cs ++ ds) = marked spans i cs ++ marked spans (i + size cs) ds := by
  induction cs generalizing i with
  | nil => rfl
  | cons c cs ih =>
      rw [List.cons_append, marked, marked, ih, size_cons, Nat.add_assoc]
      rfl

-- In front of the names a text is cut at blanks.
theorem marked_gap {cs : List Char} (h : ∀ span ∈ spans, i + size cs ≤ span.1) :
    marked spans i cs = cs.map fun c => (c, c == ' ') := by
  induction cs generalizing i with
  | nil => rfl
  | cons c cs ih =>
      have hpos := c.utf8Size_pos
      have hoff : covered spans i = false := by
        rw [covered, List.any_eq_false]
        intro span hspan
        have hlow := h span hspan
        rw [size_cons] at hlow
        rw [Bool.and_eq_true, not_and, decide_eq_true_eq]
        omega
      rw [marked, hoff, Bool.or_false, ih, List.map_cons]
      intro span hspan
      have hlow := h span hspan
      rw [size_cons] at hlow
      omega

-- A name is cut out from its first byte to its last.
theorem marked_label {span : ℕ × ℕ} (hmem : span ∈ spans) {cs : List Char} (hlow : span.1 ≤ i)
    (hhigh : i + size cs ≤ span.2) : marked spans i cs = cs.map fun c => (c, true) := by
  induction cs generalizing i with
  | nil => rfl
  | cons c cs ih =>
      have hpos := c.utf8Size_pos
      rw [size_cons] at hhigh
      have hon : covered spans i = true := by
        rw [covered, List.any_eq_true]
        refine ⟨span, hmem, ?_⟩
        rw [Bool.and_eq_true, decide_eq_true_eq, decide_eq_true_eq]
        omega
      rw [marked, hon, Bool.or_true, ih (by omega) (by omega), List.map_cons]

-- A name in front is behind us.
theorem marked_cons {span : ℕ × ℕ} (cs : List Char) (h : span.2 ≤ i) :
    marked (span :: spans) i cs = marked spans i cs := by
  induction cs generalizing i with
  | nil => rfl
  | cons c cs ih =>
      have hoff : covered (span :: spans) i = covered spans i := by
        have hhere : (decide (span.1 ≤ i) && decide (i < span.2)) = false := by
          rw [Bool.and_eq_false_iff, decide_eq_false_iff_not, decide_eq_false_iff_not]
          omega
        rw [covered, List.any_cons, hhere, Bool.false_or, ← covered]
      rw [marked, marked, hoff, ih (by omega)]

end Marks

/-! ### Parts -/

/-- A part of a text: a token, a blank between tokens, or a name. -/
inductive Part where
  | token (token : List Char)
  | blank
  | mention (isMe : Bool) (label : List Char)

namespace Part

def source : Part → List Char
  | token t => t
  | blank => [' ']
  | mention _ label => label

def isCut : Part → Bool
  | token _ => false
  | blank | mention _ _ => true

def marks (part : Part) : List (Char × Bool) := part.source.map fun c => (c, part.isCut)

variable (alphabetic : Char → Bool)

def pieces : Part → List Piece
  | token t => tokenPieces T alphabetic t
  | blank => [Bubble.blank]
  | mention isMe label => [⟨.mention isMe, label⟩]

end Part

/-- The parts of a text without names. -/
def contentParts : List (List Char) → List Part
  | [] => []
  | [t] => [.token t]
  | t :: u :: ts => .token t :: .blank :: contentParts (u :: ts)

variable (alphabetic : Char → Bool)

/-- Parts that are drawn as pieces, beside the marks of the text. -/
structure Laid (pieces : List Piece) (marks : List (Char × Bool)) (parts : List Part) : Prop where
  drawn : pieces = parts.flatMap (Part.pieces T alphabetic)
  written : marks = parts.flatMap Part.marks
  pieced : Pieced Prod.snd (parts.map Part.marks)

variable {T alphabetic}

theorem flatMap_pieces_contentParts (tokens : List (List Char)) :
    (contentParts tokens).flatMap (Part.pieces T alphabetic) =
      List.intercalate [blank] (tokens.map (tokenPieces T alphabetic)) := by
  induction tokens with
  | nil => rfl
  | cons t ts ih =>
      cases ts with
      | nil =>
          rw [List.map_singleton, List.intercalate_singleton]
          exact List.append_nil _
      | cons u ts =>
          rw [List.map_cons, List.intercalate_cons_of_ne_nil (by simp), ← ih, List.append_assoc]
          rfl

-- Tokens have no blanks, so their characters are not cut out.
theorem flatMap_marks_contentParts {tokens : List (List Char)} (h : ∀ t ∈ tokens, ' ' ∉ t) :
    (contentParts tokens).flatMap Part.marks =
      (List.intercalate [' '] tokens).map fun c => (c, c == ' ') := by
  have hone : ∀ t ∈ tokens, (Part.token t).marks = t.map fun c => (c, c == ' ') := by
    intro t ht
    refine List.map_congr_left fun c hc => ?_
    have hne : (c == ' ') = false := beq_eq_false_iff_ne.2 fun heq => h t ht (heq ▸ hc)
    rw [hne]
    rfl
  induction tokens with
  | nil => rfl
  | cons t ts ih =>
      cases ts with
      | nil =>
          rw [List.intercalate_singleton, ← hone t List.mem_cons_self]
          exact List.append_nil _
      | cons u ts =>
          rw [List.intercalate_cons_of_ne_nil (List.cons_ne_nil u ts), List.map_append,
            List.map_append, ← hone t List.mem_cons_self,
            ← ih (fun v hv => h v (List.mem_cons_of_mem t hv))
              fun v hv => hone v (List.mem_cons_of_mem t hv), List.append_assoc]
          rfl

-- A token stands in front of a blank, or of what is behind the text.
theorem pieced_contentParts (tokens : List (List Char)) {more : List Part}
    (hmore : Pieced Prod.snd (more.map Part.marks))
    (hcut : ∀ m ∈ (more.flatMap Part.marks).head?, m.2 = true) :
    Pieced Prod.snd ((contentParts tokens ++ more).map Part.marks) := by
  have hfree : ∀ t, ∀ m ∈ (Part.token t).marks, m.2 = false := by
    intro t m hm
    rcases List.mem_map.1 hm with ⟨c, -, rfl⟩
    rfl
  induction tokens with
  | nil => exact hmore
  | cons t ts ih =>
      cases ts with
      | nil => exact ⟨Or.inl ⟨hfree t, hcut⟩, hmore⟩
      | cons u ts =>
          have hblank : Part.blank.marks = [(' ', true)] := rfl
          refine ⟨Or.inl ⟨hfree t, fun m hm => ?_⟩, Or.inr ⟨by rw [hblank]; simp, ?_⟩, ih⟩
          · cases hm
            rfl
          · rw [hblank]
            exact List.forall_mem_singleton.2 rfl

/-- A text without names in front of what is laid. -/
theorem Laid.content {pieces : List Piece} {marks : List (Char × Bool)} {more : List Part}
    (h : Laid T alphabetic pieces marks more) (hcut : ∀ m ∈ marks.head?, m.2 = true)
    (gap : List Char) : Laid T alphabetic (renderContent T alphabetic gap ++ pieces)
      ((gap.map fun c => (c, c == ' ')) ++ marks) (contentParts (gap.splitOn ' ') ++ more) := by
  have hmarks := @flatMap_marks_contentParts (gap.splitOn ' ')
    fun t ht => not_mem_of_mem_splitOn ht
  rw [List.intercalate_splitOn] at hmarks
  refine ⟨?_, ?_, pieced_contentParts _ h.pieced fun m hm => hcut m ?_⟩
  · rw [List.flatMap_append, flatMap_pieces_contentParts, ← h.drawn]
    rfl
  · rw [List.flatMap_append, hmarks, ← h.written]
  · rwa [h.written]

/-- A name in front of it. -/
theorem Laid.mention {pieces : List Piece} {marks : List (Char × Bool)} {more : List Part}
    (h : Laid T alphabetic pieces marks more) {label : List Char} (hne : label ≠ [])
    (isMe : Bool) : Laid T alphabetic (⟨.mention isMe, label⟩ :: pieces)
      ((label.map fun c => (c, true)) ++ marks) (.mention isMe label :: more) := by
  refine ⟨?_, ?_, Or.inr ⟨?_, ?_⟩, h.pieced⟩
  · rw [h.drawn]
    rfl
  · rw [h.written]
    rfl
  · exact fun hnil => hne (List.map_eq_nil_iff.1 hnil)
  · intro m hm
    rcases List.mem_map.1 hm with ⟨c, -, rfl⟩
    rfl

-- What is drawn in front of a byte that is not behind it.
theorem drawGap_eq_some {front todo : List Char} {stop : ℕ} {pieces : List Piece}
    (hle : size front ≤ stop)
    (h : drawGap T alphabetic (front ++ todo) (size front) stop = some pieces) :
    ∃ gap rest, todo = gap ++ rest ∧ size (front ++ gap) = stop ∧
      (gap = [] ∧ pieces = [] ∨ pieces = renderContent T alphabetic gap) := by
  rw [drawGap] at h
  by_cases hgapped : size front < stop
  · rw [if_pos hgapped] at h
    rcases Option.map_eq_some_iff.1 h with ⟨gap, hgap, rfl⟩
    rcases slice_behind hgap with ⟨rest, htodo, hstop⟩
    exact ⟨gap, rest, htodo, by rw [size_append, hstop], Or.inr rfl⟩
  · rw [if_neg hgapped] at h
    cases h
    exact ⟨[], todo, rfl, by rw [List.append_nil]; omega, Or.inl ⟨rfl, rfl⟩⟩

-- It is laid in front of what is laid.
theorem Laid.gap {pieces gapPieces : List Piece} {marks : List (Char × Bool)} {more : List Part}
    (h : Laid T alphabetic pieces marks more) (hcut : ∀ m ∈ marks.head?, m.2 = true)
    {gap : List Char}
    (hgap : gap = [] ∧ gapPieces = [] ∨ gapPieces = renderContent T alphabetic gap) :
    ∃ parts, Laid T alphabetic (gapPieces ++ pieces)
      ((gap.map fun c => (c, c == ' ')) ++ marks) parts := by
  rcases hgap with ⟨rfl, rfl⟩ | rfl
  · exact ⟨more, h⟩
  · exact ⟨_, h.content hcut gap⟩

/-- What is drawn, part by part. -/
theorem laid_of_drawSpans {handles : List (List Char)} {spans : List (ℕ × ℕ)}
    {front todo : List Char} {pieces : List Piece}
    (hpairwise : spans.Pairwise fun a b => a.2 ≤ b.1)
    (hspans : ∀ span ∈ spans, size front ≤ span.1 ∧ span.1 < span.2)
    (h : drawSpans T alphabetic handles (front ++ todo) (size front) spans = some pieces) :
    ∃ parts, Laid T alphabetic pieces (marked spans (size front) todo) parts := by
  induction spans generalizing front todo pieces with
  | nil =>
      have hnil : Laid T alphabetic [] [] [] := ⟨rfl, rfl, trivial⟩
      rw [drawSpans] at h
      rcases drawGap_eq_some (by rw [size_append]; omega) h with ⟨gap, rest, rfl, hstop, hgap⟩
      -- The slice goes on to the end.
      have hlength := length_le_size rest
      simp only [size_append] at hstop
      have hrest : rest = [] := List.length_eq_zero_iff.1 (by omega)
      rw [hrest, List.append_nil,
        marked_gap fun span hspan => absurd hspan List.not_mem_nil]
      have hlaid := hnil.gap (fun m hm => absurd hm (by simp)) hgap
      rwa [List.append_nil, List.append_nil] at hlaid
  | cons span spans ih =>
      rcases hspans span List.mem_cons_self with ⟨hlow, hlabel⟩
      rcases List.pairwise_cons.1 hpairwise with ⟨hbehind, hpairwise⟩
      rw [drawSpans] at h
      rcases Option.bind_eq_some_iff.1 h with ⟨gapPieces, hdrawn, h⟩
      rcases Option.bind_eq_some_iff.1 h with ⟨label, hslice, h⟩
      rcases Option.bind_eq_some_iff.1 h with ⟨me, -, h⟩
      rcases Option.bind_eq_some_iff.1 h with ⟨more, hmore, h⟩
      cases h
      rcases drawGap_eq_some hlow hdrawn with ⟨gap, rest, rfl, hstart, hgap⟩
      rw [← List.append_assoc] at hslice hmore
      rw [← hstart] at hslice
      rcases slice_behind hslice with ⟨todo, rfl, hstop⟩
      rw [← size_append] at hstop
      rw [← List.append_assoc, ← hstop] at hmore
      have hothers : ∀ other ∈ spans, size (front ++ gap ++ label) ≤ other.1 ∧ other.1 < other.2 :=
        fun other hother => ⟨by
          rw [hstop]
          exact hbehind other hother, (hspans other (List.mem_cons_of_mem _ hother)).2⟩
      rcases ih hpairwise hothers hmore with ⟨parts, hlaid⟩
      have hne : label ≠ [] := by
        rintro rfl
        rw [List.append_nil] at hstop
        omega
      have hname := hlaid.mention hne me
      have hcut : ∀ m ∈ ((label.map fun c => (c, true)) ++
          marked spans (size (front ++ gap ++ label)) todo).head?, m.2 = true := by
        intro m hm
        cases label with
        | nil => exact absurd rfl hne
        | cons c label =>
            cases hm
            rfl
      -- The marks of the text are those of the three parts.
      have hmarks : marked (span :: spans) (size front) (gap ++ (label ++ todo)) =
          (gap.map fun c => (c, c == ' ')) ++ ((label.map fun c => (c, true)) ++
            marked spans (size (front ++ gap ++ label)) todo) := by
        rw [marked_append, marked_append, ← size_append, ← size_append, marked_gap,
          marked_label List.mem_cons_self, marked_cons]
        · exact hstop.ge
        · exact hstart.ge
        · rw [← size_append, hstop]
        · intro other hother
          rw [← size_append, hstart]
          rcases List.mem_cons.1 hother with rfl | hother
          · exact Nat.le_refl _
          · have hlater := hbehind other hother
            omega
      rw [hmarks]
      exact hname.gap hcut hgap

/-! ### When anything is drawn -/

theorem lt_of_mem_highlightSpans {text : List Char} {names : List String} {span : ℕ × ℕ}
    (h : span ∈ Composer.highlightSpans T text names) : span.1 < span.2 := by
  have hloop : ∀ sorted (signs : List (List Char × List Char)) (spans : List (ℕ × ℕ)),
      (∀ a ∈ spans, a.1 < a.2) →
      ∀ a ∈ signs.foldl (Composer.highlightAt T sorted) spans, a.1 < a.2 := by
    intro sorted signs
    induction signs with
    | nil => exact fun spans h => h
    | cons sign signs ih =>
        intro spans hspans
        refine ih _ ?_
        rw [Composer.highlightAt_eq]
        split
        · exact hspans
        split
        · exact hspans
        cases Composer.takenAt T id sorted sign.2 with
        | none => exact hspans
        | some name =>
            intro a ha
            rcases List.mem_append.1 ha with ha | ha
            · exact hspans a ha
            · rw [List.mem_singleton.1 ha]
              simp only [Composer.range]
              omega
  rw [Composer.highlightSpans] at h
  split at h
  · cases h
  · exact hloop _ _ _ (fun a ha => absurd ha List.not_mem_nil) span h

-- To look behind the `@` of a name is to look behind a byte of the text.
theorem isMe_isSome {handles : List (List Char)} {text label : List Char} {start stop : ℕ}
    (hslice : slice text start stop = some label) (hlt : start < stop) :
    (isMe handles label).isSome = true ↔
      (handles ≠ [] → (splitAt text (start + 1)).isSome = true) := by
  rcases slice_eq_some.1 hslice with ⟨front, rest, rfl, rfl, hstop⟩
  rw [isMe]
  by_cases hnil : handles = []
  · rw [hnil]
    exact iff_of_true rfl fun h => absurd rfl h
  rw [if_neg (by simpa using hnil), Option.isSome_map, splitAt_isSome, splitAt_isSome]
  constructor
  · rintro ⟨first, more, rfl, hsize⟩ -
    exact ⟨front ++ first, more ++ rest, by simp, by rw [size_append, hsize]⟩
  · intro h
    rcases h hnil with ⟨before, behind, htext, hsize⟩
    rcases append_of_size_le htext (by omega) with ⟨first, rfl, htail⟩
    rw [size_append] at hsize
    rcases append_of_size_le htail.symm (by omega) with ⟨more, hlabel, -⟩
    exact ⟨first, more, hlabel, by omega⟩

theorem drawGap_isSome {text : List Char} {cursor stop : ℕ}
    (hcursor : (splitAt text cursor).isSome = true) (hle : cursor ≤ stop) :
    (drawGap T alphabetic text cursor stop).isSome = true ↔ (splitAt text stop).isSome = true := by
  rw [drawGap]
  by_cases hgapped : cursor < stop
  · rw [if_pos hgapped, Option.isSome_map, slice_isSome]
    exact ⟨fun h => h.2.2, fun h => ⟨hle, hcursor, h⟩⟩
  · rw [if_neg hgapped, ← Nat.le_antisymm hle (Nat.not_lt.1 hgapped)]
    exact iff_of_true rfl hcursor

/-- Everything is drawn exactly if the names begin and end between characters. -/
theorem drawSpans_isSome {handles : List (List Char)} {text : List Char} {cursor : ℕ}
    {spans : List (ℕ × ℕ)} (hcursor : (splitAt text cursor).isSome = true)
    (hpairwise : spans.Pairwise fun a b => a.2 ≤ b.1)
    (hspans : ∀ span ∈ spans, cursor ≤ span.1 ∧ span.1 < span.2) :
    (drawSpans T alphabetic handles text cursor spans).isSome = true ↔
      ∀ span ∈ spans, (splitAt text span.1).isSome = true ∧ (splitAt text span.2).isSome = true ∧
        (handles ≠ [] → (splitAt text (span.1 + 1)).isSome = true) := by
  induction spans generalizing cursor with
  | nil =>
      rcases splitAt_isSome.1 hcursor with ⟨front, rest, rfl, rfl⟩
      rw [drawSpans, drawGap_isSome hcursor (by rw [size_append]; omega)]
      refine iff_of_true (splitAt_isSome.2 ⟨_, [], (List.append_nil _).symm, rfl⟩) ?_
      exact fun span hspan => absurd hspan List.not_mem_nil
  | cons span spans ih =>
      rcases hspans span List.mem_cons_self with ⟨hlow, hlabel⟩
      rcases List.pairwise_cons.1 hpairwise with ⟨hbehind, hpairwise⟩
      have hothers : ∀ other ∈ spans, span.2 ≤ other.1 ∧ other.1 < other.2 := fun other hother =>
        ⟨hbehind other hother, (hspans other (List.mem_cons_of_mem _ hother)).2⟩
      rw [List.forall_mem_cons, drawSpans]
      constructor
      · intro h
        rcases Option.isSome_iff_exists.1 h with ⟨pieces, h⟩
        rcases Option.bind_eq_some_iff.1 h with ⟨gapPieces, hdrawn, h⟩
        rcases Option.bind_eq_some_iff.1 h with ⟨label, hslice, h⟩
        rcases Option.bind_eq_some_iff.1 h with ⟨me, hme, h⟩
        rcases Option.bind_eq_some_iff.1 h with ⟨more, hmore, -⟩
        rcases slice_isSome.1 (Option.isSome_iff_exists.2 ⟨label, hslice⟩) with ⟨-, hstart, hstop⟩
        refine ⟨⟨hstart, hstop, ?_⟩, ?_⟩
        · exact (isMe_isSome hslice hlabel).1 (Option.isSome_iff_exists.2 ⟨me, hme⟩)
        · exact (ih hstop hpairwise hothers).1 (Option.isSome_iff_exists.2 ⟨more, hmore⟩)
      · rintro ⟨⟨hstart, hstop, hat⟩, hrest⟩
        rcases Option.isSome_iff_exists.1 ((drawGap_isSome hcursor hlow).2 hstart) with
          ⟨gapPieces, hdrawn⟩
        rcases Option.isSome_iff_exists.1 (slice_isSome.2 ⟨hlabel.le, hstart, hstop⟩) with
          ⟨label, hslice⟩
        rcases Option.isSome_iff_exists.1 ((isMe_isSome hslice hlabel).2 hat) with ⟨me, hme⟩
        rcases Option.isSome_iff_exists.1 ((ih hstop hpairwise hothers).2 hrest) with
          ⟨more, hmore⟩
        rw [hdrawn]
        simp only [Option.bind_eq_bind, Option.bind_some, hslice, hme, hmore]
        rfl

/-! ### Tokens -/

theorem targetOf_isSome (token : List Char) :
    (targetOf token).isSome = pointsSomewhere token := by
  rw [targetOf, pointsSomewhere]
  cases attachmentIdIn token with
  | some id => rfl
  | none =>
      cases hostedMediaIn token with
      | some kind => rfl
      | none => cases isHttpUrl token <;> rfl

theorem isTarget_drawUrl (token : List Char) :
    (drawUrl token).isTarget = true ∧ ∀ url ∈ (drawUrl token).url, url = token := by
  rw [drawUrl]
  cases youtubeId token with
  | some id => exact ⟨rfl, fun url hurl => absurd hurl (by simp [Drawn.url])⟩
  | none =>
      simp only
      split
      · exact ⟨rfl, fun url hurl => (Option.some.inj hurl).symm⟩
      split
      · exact ⟨rfl, fun url hurl => (Option.some.inj hurl).symm⟩
      · exact ⟨rfl, fun url hurl => (Option.some.inj hurl).symm⟩

/-- What a token points to is itself. -/
theorem isTarget_of_targetOf {token : List Char} {d : Drawn} (h : targetOf token = some d) :
    d.isTarget = true ∧ ∀ url ∈ d.url, url = token := by
  rw [targetOf] at h
  cases hid : attachmentIdIn token with
  | some id =>
      rw [hid] at h
      cases h
      exact ⟨rfl, fun url hurl => absurd hurl (by simp [Drawn.url])⟩
  | none =>
      rw [hid] at h
      cases hkind : hostedMediaIn token with
      | some kind =>
          rw [hkind] at h
          cases h
          cases kind <;> exact ⟨rfl, fun url hurl => (Option.some.inj hurl).symm⟩
      | none =>
          rw [hkind] at h
          by_cases hhttp : isHttpUrl token = true
          · rw [if_pos hhttp] at h
            cases h
            exact isTarget_drawUrl token
          · rw [if_neg hhttp] at h
            cases h

-- What the server serves is hosted media.
theorem hostedMediaIn_of_served {name : String} (h : isMediaName name = true) :
    (hostedMediaIn (urlPath ++ name.toList)).isSome = true := by
  rcases isDigestName_iff.1 h with ⟨stem, ext, hsides, hlength, hhex, hmime⟩
  have hname : hostedName (urlPath ++ name.toList) = some name.toList := by
    rw [hostedName, List.dropPrefix?_append_of_beq _ (beq_self_eq_true _)]
  have hsize : size stem = 64 := by
    rw [← hlength]
    refine size_ascii fun c hc => ?_
    have hcode := isAsciiHexDigit_iff.1 (hhex c hc)
    rw [isLowerHex_iff] at hcode
    omega
  have hext := (mimeFor_isSome hmime).2
  rw [String.toList_ofList] at hext
  have hkinds : Web.extensions =
      ["png", "jpg", "jpeg", "webp", "gif"] ++ ["mp4", "webm"] := rfl
  rw [hkinds, List.contains_append, Bool.or_eq_true] at hext
  have hall : stem.all isAsciiHexDigit = true := List.all_eq_true.2 hhex
  simp only [hostedMediaIn, hname, hsides, Option.bind_eq_bind, Option.bind_some, hsize, hall]
  rw [if_neg (by decide)]
  rcases hext with hext | hext
  · rw [if_pos hext]
    rfl
  · rw [if_pos hext]
    split <;> rfl

theorem pointsSomewhere_of_wanted {word : List Char} (h : Wanted word) :
    pointsSomewhere word = true := by
  rw [pointsSomewhere, Bool.or_eq_true, Bool.or_eq_true]
  rcases h with h | ⟨name, hname, rfl⟩ | h
  · exact Or.inl (Or.inl h)
  · exact Or.inl (Or.inr (hostedMediaIn_of_served hname))
  · exact Or.inr h

-- The path of an attachment begins otherwise.
theorem attachmentIdIn_hosted (name : List Char) : attachmentIdIn (urlPath ++ name) = none := rfl

theorem drawnAs_of_targetOf {word : List Char} {d : Drawn} (h : targetOf word = some d) :
    DrawnAs word d := by
  refine ⟨?_, ?_, fun _ => (isTarget_of_targetOf h).1⟩
  · intro id hid
    rw [targetOf, hid] at h
    exact (Option.some.inj h).symm
  · rintro name hname rfl
    rcases Option.isSome_iff_exists.1 (hostedMediaIn_of_served hname) with ⟨kind, hkind⟩
    rw [targetOf, attachmentIdIn_hosted, hkind] at h
    exact ⟨kind, hkind, (Option.some.inj h).symm⟩

-- What is drawn as one of them is a target.
theorem isTarget_of_drawnAs {word : List Char} {d : Drawn} (hwanted : Wanted word)
    (h : DrawnAs word d) : d.isTarget = true := by
  rcases hwanted with hid | ⟨name, hname, hword⟩ | hhttp
  · rcases Option.isSome_iff_exists.1 hid with ⟨id, hid⟩
    rw [h.attachment id hid]
    rfl
  · rcases h.served name hname hword with ⟨kind, -, rfl⟩
    cases kind <;> rfl
  · exact h.url hhttp

-- No token that points somewhere is empty.
theorem ne_nil_of_pointsSomewhere {token : List Char} (h : pointsSomewhere token = true) :
    token ≠ [] := by
  rintro rfl
  exact absurd h (by decide)

theorem tokenPieces_of_target {token : List Char} {d : Drawn} (h : targetOf token = some d) :
    tokenPieces T alphabetic token = [⟨d, token⟩] := by
  rw [tokenPieces, h]

-- The address and what is behind it are the token.
theorem addressHead_append {token tail : List Char} {a : WalletAddress}
    (h : walletIn token = some (a, tail)) : addressHead token ++ tail = token := by
  rw [walletIn] at h
  have hprefix := List.rdropWhile_prefix (p := isTrailing) token
  cases hnew : WalletAddress.new (String.ofList (addressHead token)) with
  | error e =>
      rw [hnew] at h
      cases h
  | ok address =>
      rw [hnew] at h
      cases h
      exact (List.prefix_append_drop hprefix).symm

/-- A token that points nowhere is drawn whole, but for the white space around an address. -/
theorem tokenPieces_of_no_target {token : List Char} (h : targetOf token = none) :
    (∀ p ∈ tokenPieces T alphabetic token, p.drawn.isTarget = false) ∧
      (walletIn token = none ∧ sources (tokenPieces T alphabetic token) = token ∨
        ∃ a tail, walletIn token = some (a, tail) ∧
          sources (tokenPieces T alphabetic token) = trim (addressHead token) ++ tail) := by
  rw [tokenPieces, h]
  cases hwallet : walletIn token with
  | none =>
      cases hashtagOf T alphabetic token with
      | none =>
          refine ⟨List.forall_mem_singleton.2 rfl, Or.inl ⟨rfl, ?_⟩⟩
          exact List.append_nil token
      | some tag =>
          refine ⟨List.forall_mem_singleton.2 rfl, Or.inl ⟨rfl, ?_⟩⟩
          exact List.append_nil token
  | some found =>
      rcases found with ⟨a, tail⟩
      simp only
      cases tail with
      | nil => exact ⟨List.forall_mem_singleton.2 rfl, Or.inr ⟨a, [], rfl, rfl⟩⟩
      | cons c tail =>
          refine ⟨?_, Or.inr ⟨a, c :: tail, rfl, ?_⟩⟩
          · exact List.forall_mem_cons.2 ⟨rfl, List.forall_mem_singleton.2 rfl⟩
          · exact congrArg (trim (addressHead token) ++ ·) (List.append_nil (c :: tail))

/-- The pieces of a token are the token, unless it is an address with white space around it. -/
theorem sources_tokenPieces (token : List Char) :
    sources (tokenPieces T alphabetic token) = token ↔ (pointsSomewhere token = false →
      (walletIn token).isSome = true → trim (addressHead token) = addressHead token) := by
  rw [← targetOf_isSome]
  cases htarget : targetOf token with
  | some d =>
      rw [tokenPieces_of_target htarget]
      exact iff_of_true (List.append_nil token) fun h => absurd h (by simp)
  | none =>
      rcases (@tokenPieces_of_no_target T alphabetic token htarget).2 with
        ⟨hwallet, hsources⟩ | ⟨a, tail, hwallet, hsources⟩
      · rw [hwallet]
        exact iff_of_true hsources fun _ h => absurd h (by simp)
      · have htoken := addressHead_append hwallet
        rw [hsources, hwallet]
        constructor
        · exact fun h _ _ => List.append_cancel_right (h.trans htoken.symm)
        · intro h
          rw [h rfl rfl, htoken]

theorem length_sources_tokenPieces (token : List Char) :
    (sources (tokenPieces T alphabetic token)).length ≤ token.length := by
  cases htarget : targetOf token with
  | some d =>
      rw [tokenPieces_of_target htarget]
      exact (congrArg List.length (List.append_nil token)).le
  | none =>
      rcases (@tokenPieces_of_no_target T alphabetic token htarget).2 with
        ⟨-, hsources⟩ | ⟨a, tail, hwallet, hsources⟩
      · rw [hsources]
      · have hlength := congrArg List.length (addressHead_append hwallet)
        have htrim := length_trim_le (addressHead token)
        rw [List.length_append] at hlength
        rw [hsources, List.length_append]
        omega

/-- A piece that points somewhere is the only one of its token. -/
theorem token_of_target {part : Part} {p : Piece} {inner outer : List Piece}
    (h : part.pieces T alphabetic = inner ++ p :: outer) (hp : p.drawn.isTarget = true) :
    part = .token p.source ∧ targetOf p.source = some p.drawn ∧ inner = [] ∧ outer = [] := by
  have hmem : p ∈ part.pieces T alphabetic := by
    rw [h]
    exact List.mem_append_right _ List.mem_cons_self
  cases part with
  | blank =>
      rw [List.mem_singleton.1 hmem] at hp
      cases hp
  | mention isMe label =>
      rw [List.mem_singleton.1 hmem] at hp
      cases hp
  | token t =>
      cases htarget : targetOf t with
      | none =>
          rw [(tokenPieces_of_no_target htarget).1 p hmem] at hp
          cases hp
      | some d =>
          rw [Part.pieces, tokenPieces_of_target htarget] at h
          rcases List.append_eq_singleton_iff.1 h.symm with ⟨rfl, hone⟩ | ⟨-, hnil⟩
          · rcases List.cons.inj hone with ⟨rfl, rfl⟩
            exact ⟨rfl, htarget, rfl, rfl⟩
          · cases hnil

/-! ### Texts -/

theorem map_fst_marks (part : Part) : part.marks.map Prod.fst = part.source := by
  rw [Part.marks, List.map_map]
  exact List.map_id _

theorem map_fst_flatMap_marks (parts : List Part) :
    (parts.flatMap Part.marks).map Prod.fst = parts.flatMap Part.source := by
  rw [List.map_flatMap]
  exact List.flatMap_congr fun part _ => map_fst_marks part

section Laid

variable {pieces : List Piece} {marks : List (Char × Bool)} {parts : List Part}

/-- A token is a run of the text between cuts. -/
theorem Laid.isRun (h : Laid T alphabetic pieces marks parts) {pre post : List Part}
    {t : List Char} (hparts : parts = pre ++ .token t :: post) (hne : t ≠ []) :
    IsRun Prod.snd (pre.flatMap Part.marks) (Part.token t).marks (post.flatMap Part.marks) := by
  have hpieced := h.pieced
  rw [hparts, List.map_append, List.map_cons] at hpieced
  refine isRun_block hpieced (fun hnil => hne (List.map_eq_nil_iff.1 hnil)) fun m hm => ?_
  rcases List.mem_map.1 hm with ⟨c, -, rfl⟩
  rfl

/-- A run between cuts is a token. -/
theorem Laid.exists_token (h : Laid T alphabetic pieces marks parts)
    {front run rest : List (Char × Bool)} (hmarks : marks = front ++ (run ++ rest))
    (hrun : IsRun Prod.snd front run rest) (hne : run ≠ []) :
    ∃ pre t post, parts = pre ++ .token t :: post ∧ front = pre.flatMap Part.marks ∧
      run = (Part.token t).marks ∧ rest = post.flatMap Part.marks := by
  have hflat : (parts.map Part.marks).flatten = front ++ (run ++ rest) :=
    h.written.symm.trans hmarks
  rcases exists_block h.pieced hflat hrun hne with ⟨pre', post', hblocks, hfront, hrest⟩
  rcases List.map_eq_append_iff.1 hblocks with ⟨pre, tail, rfl, rfl, htail⟩
  rcases List.map_eq_cons_iff.1 htail with ⟨part, post, rfl, hpart, rfl⟩
  cases part with
  | token t => exact ⟨pre, t, post, rfl, hfront, hpart.symm, hrest⟩
  | blank =>
      have hstop := hrun.free (' ', true) (by rw [← hpart]; exact List.mem_cons_self)
      cases hstop
  | mention isMe label =>
      rcases List.exists_mem_of_ne_nil run hne with ⟨m, hm⟩
      have hstop := hrun.free m hm
      rw [← hpart] at hm
      rcases List.mem_map.1 hm with ⟨c, -, rfl⟩
      cases hstop

theorem Laid.split (h : Laid T alphabetic pieces marks parts) {pre post : List Part} {part : Part}
    (hparts : parts = pre ++ part :: post) :
    marks = pre.flatMap Part.marks ++ (part.marks ++ post.flatMap Part.marks) := by
  rw [h.written, hparts, List.flatMap_append, List.flatMap_cons]

theorem Laid.sources (h : Laid T alphabetic pieces marks parts) :
    sources pieces = parts.flatMap fun part => Bubble.sources (part.pieces T alphabetic) := by
  rw [Bubble.sources, h.drawn, List.flatMap_assoc]
  rfl

-- The text is drawn whole exactly if its parts are, as no part is drawn as more than it is.
theorem Laid.whole_parts (h : Laid T alphabetic pieces marks parts) :
    Bubble.sources pieces = marks.map Prod.fst ↔
      ∀ part ∈ parts, Bubble.sources (part.pieces T alphabetic) = part.source := by
  rw [h.sources, h.written, map_fst_flatMap_marks]
  constructor
  · refine fun heq => eq_of_flatMap_eq (fun part => ?_) heq
    cases part with
    | token t => exact length_sources_tokenPieces t
    | blank => exact Nat.le_refl _
    | mention isMe label => exact (congrArg List.length (List.append_nil label)).le
  · exact fun hparts => List.flatMap_congr hparts

/-- The pieces are the text exactly if no token is an address with white space around it. -/
theorem whole_iff (h : Laid T alphabetic pieces marks parts) :
    sources pieces = marks.map Prod.fst ↔ ∀ front token rest,
      marks = front ++ (token ++ rest) → IsRun Prod.snd front token rest →
        pointsSomewhere (token.map Prod.fst) = false →
          (walletIn (token.map Prod.fst)).isSome = true →
            trim (addressHead (token.map Prod.fst)) = addressHead (token.map Prod.fst) := by
  rw [h.whole_parts]
  constructor
  · intro hparts front token rest hmarks hrun hpoints hwallet
    have hne : token ≠ [] := by
      rintro rfl
      cases hwallet
    rcases h.exists_token hmarks hrun hne with ⟨pre, t, post, hsplit, -, rfl, -⟩
    rw [map_fst_marks] at hpoints hwallet ⊢
    have hmem : Part.token t ∈ parts := by
      rw [hsplit]
      exact List.mem_append_right _ List.mem_cons_self
    exact (sources_tokenPieces t).1 (hparts _ hmem) hpoints hwallet
  · intro hruns part hpart
    cases part with
    | blank => rfl
    | mention isMe label => exact List.append_nil label
    | token t =>
        refine (sources_tokenPieces t).2 fun hpoints hwallet => ?_
        have hne : t ≠ [] := by
          rintro rfl
          cases hwallet
        rcases List.append_of_mem hpart with ⟨pre, post, hparts⟩
        have hrun := hruns _ _ _ (h.split hparts) (h.isRun hparts hne)
        rw [map_fst_marks] at hrun
        exact hrun hpoints hwallet

-- What is drawn for a token stands between what is drawn for the parts around it.
theorem Laid.sources_around (h : Laid T alphabetic pieces marks parts)
    (hwhole : Bubble.sources pieces = marks.map Prod.fst) {pre post : List Part} {part : Part}
    (hparts : parts = pre ++ part :: post) :
    Bubble.sources (pre.flatMap (Part.pieces T alphabetic)) =
        (pre.flatMap Part.marks).map Prod.fst ∧
      Bubble.sources (post.flatMap (Part.pieces T alphabetic)) =
        (post.flatMap Part.marks).map Prod.fst := by
  have hone : ∀ those, those ⊆ parts →
      Bubble.sources (those.flatMap (Part.pieces T alphabetic)) =
        (those.flatMap Part.marks).map Prod.fst := by
    intro those hthose
    rw [Bubble.sources, List.flatMap_assoc, map_fst_flatMap_marks]
    exact List.flatMap_congr fun part hpart => h.whole_parts.1 hwhole part (hthose hpart)
  refine ⟨hone pre ?_, hone post ?_⟩
  · rw [hparts]
    exact List.subset_append_left _ _
  · rw [hparts]
    exact fun part hpart => List.mem_append_right _ (List.mem_cons_of_mem _ hpart)

/-- A piece that points somewhere is a token. -/
theorem Laid.target (h : Laid T alphabetic pieces marks parts)
    (hwhole : Bubble.sources pieces = marks.map Prod.fst) {before after : List Piece} {p : Piece}
    (hpieces : pieces = before ++ p :: after) (hp : p.drawn.isTarget = true) :
    ∃ pre post, parts = pre ++ .token p.source :: post ∧ targetOf p.source = some p.drawn ∧
      Bubble.sources before = (pre.flatMap Part.marks).map Prod.fst ∧
      Bubble.sources after = (post.flatMap Part.marks).map Prod.fst := by
  rcases append_of_flatMap (h.drawn.symm.trans hpieces) with
    ⟨pre, part, post, inner, outer, hsplit, hpart, hbefore, hafter⟩
  rcases token_of_target hpart hp with ⟨rfl, htarget, rfl, rfl⟩
  rw [List.append_nil] at hbefore
  rw [List.nil_append] at hafter
  rw [hbefore, hafter]
  exact ⟨pre, post, hsplit, htarget, h.sources_around hwhole hsplit⟩

/-- A token that points somewhere is drawn as a piece. -/
theorem Laid.exists_target (h : Laid T alphabetic pieces marks parts)
    (hwhole : Bubble.sources pieces = marks.map Prod.fst) {pre post : List Part}
    {t : List Char} (hparts : parts = pre ++ .token t :: post)
    (hpoints : pointsSomewhere t = true) :
    ∃ before d after, targetOf t = some d ∧ pieces = before ++ ⟨d, t⟩ :: after ∧
      Bubble.sources before = (pre.flatMap Part.marks).map Prod.fst ∧
      Bubble.sources after = (post.flatMap Part.marks).map Prod.fst := by
  rw [← targetOf_isSome] at hpoints
  rcases Option.isSome_iff_exists.1 hpoints with ⟨d, hd⟩
  refine ⟨_, d, _, hd, ?_, h.sources_around hwhole hparts⟩
  rw [h.drawn, hparts, List.flatMap_append, List.flatMap_cons, Part.pieces,
    tokenPieces_of_target hd]
  rfl

/-- What points somewhere are words exactly if the tokens that do are. -/
theorem targets_iff (h : Laid T alphabetic pieces marks parts)
    (hwhole : sources pieces = marks.map Prod.fst) :
    (∀ before p after, pieces = before ++ p :: after → p.drawn.isTarget = true →
      IsRun isSpace (sources before) p.source (sources after) ∧
        ∀ url ∈ p.drawn.url, url = p.source) ↔
    ∀ front token rest, marks = front ++ (token ++ rest) → IsRun Prod.snd front token rest →
      pointsSomewhere (token.map Prod.fst) = true → IsRun isWhite front token rest := by
  have hwhite : ∀ m : Char × Bool, isWhite m = isSpace m.1 := fun _ => rfl
  constructor
  · intro htargets front token rest hmarks hrun hpoints
    have hne : token ≠ [] := by
      rintro rfl
      exact ne_nil_of_pointsSomewhere hpoints rfl
    rcases h.exists_token hmarks hrun hne with ⟨pre, t, post, hparts, rfl, rfl, rfl⟩
    rw [map_fst_marks] at hpoints
    rcases h.exists_target hwhole hparts hpoints with
      ⟨before, d, after, hd, hpieces, hbefore, hafter⟩
    have hword := (htargets _ _ _ hpieces (isTarget_of_targetOf hd).1).1
    refine (isRun_map hwhite).1 ?_
    rw [map_fst_marks, ← hbefore, ← hafter]
    exact hword
  · intro hruns before p after hpieces hp
    rcases h.target hwhole hpieces hp with ⟨pre, post, hparts, htarget, hbefore, hafter⟩
    have hpoints : pointsSomewhere p.source = true := by
      rw [← targetOf_isSome, htarget]
      rfl
    refine ⟨?_, (isTarget_of_targetOf htarget).2⟩
    have hrun := hruns _ _ _ (h.split hparts) (h.isRun hparts (ne_nil_of_pointsSomewhere hpoints))
    rw [map_fst_marks] at hrun
    have hword := (isRun_map hwhite).2 (hrun hpoints)
    rwa [map_fst_marks, ← hbefore, ← hafter] at hword

/-- The words that point somewhere are drawn so exactly if they are tokens. -/
theorem words_iff (h : Laid T alphabetic pieces marks parts)
    (hwhole : sources pieces = marks.map Prod.fst) :
    (∀ front word rest, marks.map Prod.fst = front ++ (word ++ rest) →
      IsRun isSpace front word rest → Wanted word → ∃ before p after,
        pieces = before ++ p :: after ∧ sources before = front ∧ p.source = word ∧
          DrawnAs word p.drawn) ↔
    ∀ front word rest, marks = front ++ (word ++ rest) → IsRun isWhite front word rest →
      Wanted (word.map Prod.fst) → IsRun Prod.snd front word rest := by
  have hwhite : ∀ m : Char × Bool, isWhite m = isSpace m.1 := fun _ => rfl
  constructor
  · intro hwords front word rest hmarks hrun hwanted
    have hmap := congrArg (List.map Prod.fst) hmarks
    rw [List.map_append, List.map_append] at hmap
    rcases hwords _ _ _ hmap ((isRun_map hwhite).2 hrun) hwanted with
      ⟨before, p, after, hpieces, hbefore, hsource, hdrawn⟩
    rw [← hsource] at hdrawn hwanted
    rcases h.target hwhole hpieces (isTarget_of_drawnAs hwanted hdrawn) with
      ⟨pre, post, hparts, -, hpre, -⟩
    -- The token stands where the word does.
    have hlength := congrArg List.length (hpre.symm.trans hbefore)
    rw [List.length_map, List.length_map] at hlength
    rcases List.append_inj ((h.split hparts).symm.trans hmarks) hlength with ⟨rfl, htail⟩
    have hsame : (Part.token p.source).marks.length = word.length := by
      rw [Part.marks, List.length_map]
      exact (congrArg List.length hsource).trans (List.length_map _)
    rcases List.append_inj htail hsame with ⟨rfl, rfl⟩
    exact h.isRun hparts (ne_nil_of_pointsSomewhere (pointsSomewhere_of_wanted hwanted))
  · intro hruns front word rest htext hrun hwanted
    rcases List.map_eq_append_iff.1 htext with ⟨front', tail, hmarks, rfl, htail⟩
    rcases List.map_eq_append_iff.1 htail with ⟨word', rest', rfl, rfl, rfl⟩
    have htoken := hruns _ _ _ hmarks ((isRun_map hwhite).1 hrun) hwanted
    have hpoints := pointsSomewhere_of_wanted hwanted
    have hne : word' ≠ [] := by
      rintro rfl
      exact ne_nil_of_pointsSomewhere hpoints rfl
    rcases h.exists_token hmarks htoken hne with ⟨pre, t, post, hparts, rfl, rfl, rfl⟩
    rw [map_fst_marks] at hpoints ⊢
    rcases h.exists_target hwhole hparts hpoints with ⟨before, d, after, hd, hpieces, hbefore, -⟩
    exact ⟨before, _, after, hpieces, hbefore, rfl, drawnAs_of_targetOf hd⟩

end Laid

/-- What is drawn for a text, part by part. -/
theorem laid_of_render {text : List Char} {names : List String} {handles : List (List Char)}
    {pieces : List Piece} (h : renderWithMentions T alphabetic text names handles = some pieces) :
    ∃ parts, Laid T alphabetic pieces (marksOf T text names) parts := by
  rw [renderWithMentions] at h
  rw [marksOf]
  by_cases hnone : (Composer.highlightSpans T text names).isEmpty = true
  · rw [if_pos hnone] at h
    cases h
    rw [List.isEmpty_iff.1 hnone, marked_gap fun span hspan => absurd hspan List.not_mem_nil]
    have hnil : Laid T alphabetic [] [] [] := ⟨rfl, rfl, trivial⟩
    have hlaid := hnil.content (fun m hm => absurd hm (by simp)) text
    rw [List.append_nil, List.append_nil] at hlaid
    exact ⟨_, hlaid⟩
  · rw [if_neg hnone] at h
    exact @laid_of_drawSpans T alphabetic handles _ [] text pieces
      (Composer.pairwise_highlightSpans text names)
      (fun span hspan => ⟨Nat.zero_le _, lt_of_mem_highlightSpans hspan⟩) h

theorem render_isSome {text : List Char} {names : List String} {handles : List (List Char)} :
    (renderWithMentions T alphabetic text names handles).isSome = true ↔
      ∀ span ∈ Composer.highlightSpans T text names,
        (splitAt text span.1).isSome = true ∧ (splitAt text span.2).isSome = true ∧
          (handles ≠ [] → (splitAt text (span.1 + 1)).isSome = true) := by
  rw [renderWithMentions]
  by_cases hnone : (Composer.highlightSpans T text names).isEmpty = true
  · rw [if_pos hnone, List.isEmpty_iff.1 hnone]
    exact iff_of_true rfl fun span hspan => absurd hspan List.not_mem_nil
  · rw [if_neg hnone]
    exact drawSpans_isSome (splitAt_isSome.2 ⟨[], text, rfl, rfl⟩)
      (Composer.pairwise_highlightSpans text names)
      fun span hspan => ⟨Nat.zero_le _, lt_of_mem_highlightSpans hspan⟩

/-- Exactly separable texts are drawn as they were written. -/
theorem faithful_iff (T : CharTables) (alphabetic : Char → Bool) (text : List Char)
    (names : List String) (handles : List (List Char)) :
    (∃ pieces, renderWithMentions T alphabetic text names handles = some pieces ∧
      Faithful text pieces) ↔ Separable T text names handles := by
  have htext : (marksOf T text names).map Prod.fst = text := map_fst_marked text
  constructor
  · rintro ⟨pieces, hpieces, hfaithful⟩
    rcases laid_of_render hpieces with ⟨parts, hlaid⟩
    have hwhole := hfaithful.whole.trans htext.symm
    have hwords := hfaithful.words
    rw [← htext] at hwords
    exact ⟨render_isSome.1 (Option.isSome_iff_exists.2 ⟨pieces, hpieces⟩),
      (words_iff hlaid hwhole).1 hwords, (targets_iff hlaid hwhole).1 hfaithful.targets,
      (whole_iff hlaid).1 hwhole⟩
  · intro h
    rcases Option.isSome_iff_exists.1 (render_isSome.2 h.cuts) with ⟨pieces, hpieces⟩
    rcases laid_of_render hpieces with ⟨parts, hlaid⟩
    have hwhole := (whole_iff hlaid).2 h.addresses
    have hwords := (words_iff hlaid hwhole).2 h.words
    rw [htext] at hwhole hwords
    exact ⟨pieces, hpieces, hwhole, (targets_iff hlaid (hwhole.trans htext.symm)).2 h.targets,
      hwords⟩

/-- A link that goes on in the next line. -/
theorem link_joins_lines : ¬ ∃ pieces,
    renderWithMentions .latin Char.isAlpha "https://a.example\nhello".toList [] [] = some pieces ∧
      Faithful "https://a.example\nhello".toList pieces := by
  rintro ⟨pieces, hpieces, hfaithful⟩
  have hdrawn : renderWithMentions .latin Char.isAlpha "https://a.example\nhello".toList [] [] =
      some [⟨.link "https://a.example\nhello".toList, "https://a.example\nhello".toList⟩] := by
    decide +kernel
  rw [hdrawn] at hpieces
  cases hpieces
  have hrun := (hfaithful.targets [] _ [] rfl rfl).1
  exact absurd (hrun.free '\n' (by decide)) (by decide)

end Bubble

end PocketSkynet
