import PocketSkynet.Lib.Text
import PocketSkynet.Lib.Utf8

/-!
# Lowercase Texts

The lowercase form of a text, as the character tables have it. Most characters are lowered
one by one, some of them to several characters. The capital sigma looks around itself: it
becomes the final form at the end of a word. What it sees ends at white space and at the at
sign, so a text can be lowered piece by piece there.

## Main definitions

* `CharTables`: What the tables say of every character.
* `CharTables.lowercase`: The lowercase form of a text.
* `isCaseless`, `isStop`: Characters without a case, and those where words end.
* `CharTables.latin`: The tables of the ASCII characters.

## Theorems

* `lowercase_concat`: A plain character at the end stays there.
* `mem_lowercase_of_plain`: Plain characters come from themselves.
* `lowercase_eq_nil`: Only the empty text is lowered to nothing.
* `size_lowercase_append`: The bytes are counted piece by piece anywhere.
-/

namespace PocketSkynet

/-- ASCII punctuation, and the quotation mark of the typographers. -/
def isPunctuation (c : Char) : Bool :=
  (33 ≤ c.toNat && c.toNat ≤ 47) || (58 ≤ c.toNat && c.toNat ≤ 64) ||
    (91 ≤ c.toNat && c.toNat ≤ 96) || (123 ≤ c.toNat && c.toNat ≤ 126) || c.toNat == 0x201c

/-- Characters without a case, which no other character is lowered to. -/
def isCaseless (c : Char) : Bool := isSpace c || isPunctuation c

/-- Characters where a word ends. -/
def isStop (c : Char) : Bool := isSpace c || c == '@'

/-- What the character tables say, and what is relied on of them. -/
structure CharTables where
  /-- The lowercase form of a character by itself. -/
  lower : Char → List Char
  cased : Char → Bool
  /-- The characters that are looked through to find a cased one. -/
  ignorable : Char → Bool
  alphanumeric : Char → Bool
  lower_ne_nil : ∀ c, lower c ≠ []
  lower_plain : ∀ c, isCaseless c = true → lower c = [c]
  plain_of_lower : ∀ c d, d ∈ lower c → isCaseless d = true → d = c
  not_cased_of_stop : ∀ c, isStop c = true → cased c = false
  not_ignorable_of_stop : ∀ c, isStop c = true → ignorable c = false
  not_alphanumeric : ∀ c, isCaseless c = true → alphanumeric c = false

theorem isCaseless_of_isStop {c : Char} (h : isStop c = true) : isCaseless c = true := by
  rw [isStop, Bool.or_eq_true] at h
  rcases h with h | h
  · rw [isCaseless, h, Bool.true_or]
  · rw [beq_iff_eq.1 h]
    decide

namespace CharTables

variable (T : CharTables)

/-- Whether the first character that is not ignorable is cased. -/
def ignorableThenCased (cs : List Char) : Bool :=
  ((cs.dropWhile T.ignorable).head?.map T.cased).getD false

/-- The lowercase form of a character between the characters in front, the last one first,
    and those behind. -/
def lowerBetween (front : List Char) (c : Char) (rest : List Char) : List Char :=
  if c = 'Σ' then
    if T.ignorableThenCased front && !T.ignorableThenCased rest then ['ς'] else ['σ']
  else T.lower c

/-- The lowercase form of what stands behind the characters in front. -/
def lowerFrom : List Char → List Char → List Char
  | _, [] => []
  | front, c :: rest => T.lowerBetween front c rest ++ lowerFrom (c :: front) rest

/-- The lowercase form of a text. -/
def lowercase (cs : List Char) : List Char := T.lowerFrom [] cs

@[simp] theorem lowercase_nil : T.lowercase [] = [] := rfl

theorem lowerFrom_cons (front : List Char) (c : Char) (rest : List Char) :
    T.lowerFrom front (c :: rest) =
      T.lowerBetween front c rest ++ T.lowerFrom (c :: front) rest := rfl

variable {T}

-- A stop is looked at, and is not cased.
theorem ignorableThenCased_append {c : Char} (hc : isStop c = true) (cs ds : List Char) :
    T.ignorableThenCased (cs ++ c :: ds) = T.ignorableThenCased cs := by
  have hignored := T.not_ignorable_of_stop c hc
  have hcased := T.not_cased_of_stop c hc
  induction cs with
  | nil =>
      rw [List.nil_append, ignorableThenCased, List.dropWhile_cons_of_neg (by simp [hignored])]
      simp [ignorableThenCased, hcased]
  | cons d cs ih =>
      by_cases hd : T.ignorable d = true
      · have hleft : T.ignorableThenCased (d :: (cs ++ c :: ds)) =
            T.ignorableThenCased (cs ++ c :: ds) := by
          rw [ignorableThenCased, List.dropWhile_cons_of_pos hd, ← ignorableThenCased]
        have hright : T.ignorableThenCased (d :: cs) = T.ignorableThenCased cs := by
          rw [ignorableThenCased, List.dropWhile_cons_of_pos hd, ← ignorableThenCased]
        rw [List.cons_append, hleft, hright, ih]
      · rw [List.cons_append, ignorableThenCased, List.dropWhile_cons_of_neg hd,
          ignorableThenCased, List.dropWhile_cons_of_neg hd]
        rfl

theorem lowerBetween_plain {c : Char} (hc : isCaseless c = true) (front rest : List Char) :
    T.lowerBetween front c rest = [c] := by
  have hsigma : c ≠ 'Σ' := by
    intro heq
    rw [heq] at hc
    exact absurd hc (by decide)
  rw [lowerBetween, if_neg hsigma, T.lower_plain c hc]

-- What stands in front of a stop is not seen behind it.
theorem lowerFrom_front {c : Char} (hc : isStop c = true) (front beyond cs : List Char) :
    T.lowerFrom (front ++ c :: beyond) cs = T.lowerFrom front cs := by
  induction cs generalizing front with
  | nil => rfl
  | cons d cs ih =>
      have hone : T.lowerBetween (front ++ c :: beyond) d cs = T.lowerBetween front d cs := by
        rw [lowerBetween, ignorableThenCased_append hc, ← lowerBetween]
      rw [lowerFrom_cons, lowerFrom_cons, hone, ← List.cons_append, ih]

-- And what stands behind it is not seen in front.
theorem lowerFrom_append {c : Char} (hc : isStop c = true) (front cs ds : List Char) :
    T.lowerFrom front (cs ++ c :: ds) =
      T.lowerFrom front cs ++ c :: T.lowerFrom (c :: (cs.reverse ++ front)) ds := by
  induction cs generalizing front with
  | nil =>
      rw [List.nil_append, lowerFrom_cons, lowerBetween_plain (isCaseless_of_isStop hc)]
      rfl
  | cons d cs ih =>
      have hone : T.lowerBetween front d (cs ++ c :: ds) = T.lowerBetween front d cs := by
        rw [lowerBetween, ignorableThenCased_append hc, ← lowerBetween]
      rw [List.cons_append, lowerFrom, hone, ih, lowerFrom, List.append_assoc,
        List.reverse_cons, List.append_assoc, List.singleton_append]

/-- A text is lowered piece by piece at a stop. -/
theorem lowercase_append {c : Char} (hc : isStop c = true) (cs ds : List Char) :
    T.lowercase (cs ++ c :: ds) = T.lowercase cs ++ c :: T.lowercase ds := by
  have hfront := @lowerFrom_front T c hc [] (cs.reverse ++ []) ds
  rw [List.nil_append] at hfront
  rw [lowercase, lowerFrom_append hc, hfront, ← lowercase, ← lowercase]

/-- A plain character at the end stays there. -/
theorem lowercase_concat {c : Char} (hc : isCaseless c = true) (cs : List Char) :
    (T.lowercase (cs ++ [c])).getLast? = some c := by
  have hlast : ∀ front ds, ∃ lowered, T.lowerFrom front (ds ++ [c]) = lowered ++ [c] := by
    intro front ds
    induction ds generalizing front with
    | nil => exact ⟨[], by rw [List.nil_append, lowerFrom, lowerBetween_plain hc]; rfl⟩
    | cons d ds ih =>
        rcases ih (d :: front) with ⟨lowered, h⟩
        exact ⟨T.lowerBetween front d (ds ++ [c]) ++ lowered, by
          rw [List.cons_append, lowerFrom, h, List.append_assoc]⟩
  rcases hlast [] cs with ⟨lowered, h⟩
  rw [lowercase, h, List.getLast?_concat]

theorem lowerBetween_ne_nil (front : List Char) (c : Char) (rest : List Char) :
    T.lowerBetween front c rest ≠ [] := by
  rw [lowerBetween]
  split
  · split <;> exact List.cons_ne_nil _ _
  · exact T.lower_ne_nil c

/-- Only the empty text is lowered to nothing. -/
theorem lowercase_eq_nil {cs : List Char} : T.lowercase cs = [] ↔ cs = [] := by
  cases cs with
  | nil => exact iff_of_true rfl rfl
  | cons c cs =>
      refine iff_of_false ?_ (List.cons_ne_nil _ _)
      intro h
      rw [lowercase, lowerFrom] at h
      exact lowerBetween_ne_nil _ _ _ (List.append_eq_nil_iff.1 h).1

-- A plain character is not what a sigma becomes.
theorem plain_of_lowerBetween {front rest : List Char} {c d : Char}
    (hd : d ∈ T.lowerBetween front c rest) (hplain : isCaseless d = true) : d = c := by
  have hsigma : d ≠ 'σ' ∧ d ≠ 'ς' := by
    constructor <;> rintro rfl <;> exact absurd hplain (by decide)
  rw [lowerBetween] at hd
  split at hd
  · split at hd
    · exact absurd (List.mem_singleton.1 hd) hsigma.2
    · exact absurd (List.mem_singleton.1 hd) hsigma.1
  · exact T.plain_of_lower c d hd hplain

/-- Plain characters come from themselves. -/
theorem mem_lowercase_of_plain {cs : List Char} {c : Char} (hc : isCaseless c = true) :
    c ∈ T.lowercase cs ↔ c ∈ cs := by
  have hall : ∀ front, c ∈ T.lowerFrom front cs ↔ c ∈ cs := by
    induction cs with
    | nil => exact fun _ => Iff.rfl
    | cons d cs ih =>
        intro front
        rw [lowerFrom, List.mem_append, ih, List.mem_cons]
        constructor
        · exact fun h => h.imp_left fun hd => plain_of_lowerBetween hd hc
        · rintro (rfl | h)
          · rw [lowerBetween_plain hc]
            exact Or.inl List.mem_cons_self
          · exact Or.inr h
  exact hall []

/-- A character at the end comes last, in the form it has there. -/
theorem lowercase_concat_eq (cs : List Char) (c : Char) : ∃ lowered front,
    T.lowercase (cs ++ [c]) = lowered ++ T.lowerBetween front c [] := by
  have hall : ∀ front, ∃ lowered before,
      T.lowerFrom front (cs ++ [c]) = lowered ++ T.lowerBetween before c [] := by
    induction cs with
    | nil => exact fun front => ⟨[], front, List.append_nil _⟩
    | cons d cs ih =>
        intro front
        rcases ih (d :: front) with ⟨lowered, before, h⟩
        exact ⟨T.lowerBetween front d (cs ++ [c]) ++ lowered, before, by
          rw [List.cons_append, lowerFrom_cons, h, List.append_assoc]⟩
  exact hall []

variable (T) in
/-- The bytes of a character in lowercase. Both forms of the sigma have two. -/
def lowerSize (c : Char) : ℕ := if c = 'Σ' then 2 else Utf8.size (T.lower c)

theorem size_lowerFrom (front cs : List Char) :
    Utf8.size (T.lowerFrom front cs) = (cs.map T.lowerSize).sum := by
  induction cs generalizing front with
  | nil => rfl
  | cons c cs ih =>
      have hone : Utf8.size (T.lowerBetween front c cs) = T.lowerSize c := by
        rw [lowerBetween, lowerSize]
        by_cases hc : c = 'Σ'
        · rw [if_pos hc, if_pos hc]
          split <;> rfl
        · rw [if_neg hc, if_neg hc]
      rw [lowerFrom_cons, Utf8.size_append, hone, ih, List.map_cons, List.sum_cons]

/-- The bytes are counted piece by piece, wherever the pieces end. -/
theorem size_lowercase_append (cs ds : List Char) :
    Utf8.size (T.lowercase (cs ++ ds)) =
      Utf8.size (T.lowercase cs) + Utf8.size (T.lowercase ds) := by
  simp only [lowercase, size_lowerFrom, List.map_append, List.sum_append]

/-- The lowercase form of the ASCII letters, and of the capital I with a dot, which becomes two
    characters. -/
def lowerLatin (c : Char) : List Char :=
  if 65 ≤ c.toNat ∧ c.toNat ≤ 90 then [Char.ofNat (c.toNat + 32)]
  else if c = 'İ' then ['i', '\u0307']
  else [c]

theorem plain_of_lowerLatin {c d : Char} (hd : d ∈ lowerLatin c) (hplain : isCaseless d = true) :
    d = c := by
  rw [lowerLatin] at hd
  by_cases hupper : 65 ≤ c.toNat ∧ c.toNat ≤ 90
  · rw [if_pos hupper, List.mem_singleton] at hd
    have hletters : ∀ n < 26, isCaseless (Char.ofNat (65 + n + 32)) = false := by decide
    have hletter := hletters (c.toNat - 65) (by omega)
    have hcode : 65 + (c.toNat - 65) + 32 = c.toNat + 32 := by omega
    rw [hcode, ← hd, hplain] at hletter
    cases hletter
  · rw [if_neg hupper] at hd
    by_cases hdot : c = 'İ'
    · rw [if_pos hdot, List.mem_cons, List.mem_singleton] at hd
      rcases hd with rfl | rfl <;> exact absurd hplain (by decide)
    · rw [if_neg hdot] at hd
      exact List.mem_singleton.1 hd

/-- The letters of these tables. -/
def isLatin (c : Char) : Bool :=
  (65 ≤ c.toNat && c.toNat ≤ 90) || (97 ≤ c.toNat && c.toNat ≤ 122) || c == 'İ'

-- Plain characters are neither letters nor digits.
theorem not_isLatin {c : Char} (hc : isCaseless c = true) :
    isLatin c = false ∧ ¬ (48 ≤ c.toNat ∧ c.toNat ≤ 57) := by
  have hdot : c ≠ 'İ' := by
    rintro rfl
    exact absurd hc (by decide)
  simp only [isCaseless, isSpace, isPunctuation, Bool.or_eq_true, Bool.and_eq_true,
    decide_eq_true_eq, List.contains_eq_mem, List.mem_cons, List.not_mem_nil, or_false,
    beq_iff_eq] at hc
  simp only [isLatin, Bool.or_eq_false_iff, Bool.and_eq_false_iff, decide_eq_false_iff_not,
    beq_eq_false_iff_ne, hdot, ne_eq, not_false_eq_true, and_true]
  omega

theorem lowerLatin_of_not_isLatin {c : Char} (hc : isLatin c = false) : lowerLatin c = [c] := by
  simp only [isLatin, Bool.or_eq_false_iff, Bool.and_eq_false_iff, decide_eq_false_iff_not,
    beq_eq_false_iff_ne] at hc
  rw [lowerLatin, if_neg (by omega), if_neg hc.2]

/-- The tables of the ASCII characters, and of the capital I with a dot. -/
def latin : CharTables where
  lower := lowerLatin
  cased := isLatin
  ignorable c := ['\'', '.', ':', '^', '\x60', '\u0307'].contains c
  alphanumeric c := isLatin c || (48 ≤ c.toNat && c.toNat ≤ 57)
  lower_ne_nil c := by
    rw [lowerLatin]
    split
    · exact List.cons_ne_nil _ _
    · split <;> exact List.cons_ne_nil _ _
  lower_plain c hc := lowerLatin_of_not_isLatin (not_isLatin hc).1
  plain_of_lower c d hd hplain := plain_of_lowerLatin hd hplain
  not_cased_of_stop c hc := (not_isLatin (isCaseless_of_isStop hc)).1
  not_ignorable_of_stop c hc := by
    have hall : (['\'', '.', ':', '^', '\x60', '\u0307'].all fun d => !isStop d) = true := by
      decide
    by_contra hmem
    rw [Bool.not_eq_false, List.contains_iff_mem] at hmem
    have hnot := List.all_eq_true.1 hall c hmem
    rw [hc] at hnot
    cases hnot
  not_alphanumeric c hc := by
    simpa [(not_isLatin hc).1] using (not_isLatin hc).2

end CharTables

end PocketSkynet
