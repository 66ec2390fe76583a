import Mathlib.Data.List.Basic
import Mathlib.Data.List.TakeWhile

/-!
# Texts

What several readers and writers of text have in common: the white space that is taken off
at both ends, and the JSON text of an object. A JSON string escapes every control
character, so the text of an object has none and fits on one line.

## Main definitions

* `isSpace`, `trim`: White space, and a text without it at its ends.
* `isBlank`: A text of white space.
* `jsonString`, `jsonNat`, `jsonInt`, `jsonObject`: JSON texts.
* `Printable`: A text without control characters.

## Theorems

* `isBlank_trimmed`: A text that is not blank keeps something when it is trimmed.
* `trim_of_no_space`: A text without white space stays as it is.
* `trim_trim`: To trim twice is to trim once.
* `printable_jsonString`, `printable_jsonFields`: JSON texts are printable.
-/

namespace PocketSkynet

/-- White space. -/
def isSpace (c : Char) : Bool :=
  (9 ≤ c.toNat && c.toNat ≤ 13) || (0x2000 ≤ c.toNat && c.toNat ≤ 0x200a) ||
    [0x20, 0x85, 0xa0, 0x1680, 0x2028, 0x2029, 0x202f, 0x205f, 0x3000].contains c.toNat

/-- A text without the white space at its ends. -/
def trim (cs : List Char) : List Char :=
  ((cs.dropWhile isSpace).reverse.dropWhile isSpace).reverse

def trimmed (s : String) : String := String.ofList (trim s.toList)

/-- Nothing but white space. -/
def isBlank (s : String) : Bool := (trim s.toList).isEmpty

-- What is left in front is not white space.
theorem isSpace_of_dropWhile {cs rest : List Char} {c : Char}
    (h : cs.dropWhile isSpace = c :: rest) : isSpace c = false := by
  have hhead := List.head?_dropWhile_not isSpace cs
  simpa [h] using hhead

-- So a text with nothing left is white space throughout.
theorem trim_eq_nil {cs : List Char} : trim cs = [] ↔ ∀ c ∈ cs, isSpace c = true := by
  rw [trim, List.reverse_eq_nil_iff, List.dropWhile_eq_nil_iff]
  simp only [List.mem_reverse]
  constructor
  · intro h
    cases hcs : cs.dropWhile isSpace with
    | nil => exact List.dropWhile_eq_nil_iff.1 hcs
    | cons c rest =>
        have hspace := h c (by rw [hcs]; exact List.mem_cons_self)
        rw [isSpace_of_dropWhile hcs] at hspace
        cases hspace
  · exact fun h c hc => h c ((List.dropWhile_sublist _).subset hc)

/-- To take the white space off at the ends makes no text blank. -/
theorem isBlank_trimmed (s : String) : isBlank (trimmed s) = isBlank s := by
  rw [isBlank, isBlank, trimmed, String.toList_ofList, Bool.eq_iff_iff, List.isEmpty_iff,
    List.isEmpty_iff, trim_eq_nil]
  constructor
  · intro h
    cases hlast : (trim s.toList).reverse with
    | nil => exact List.reverse_eq_nil_iff.1 hlast
    | cons c rest =>
        -- The last character that was kept is not white space.
        have hspace := h c (List.mem_reverse.1 (by rw [hlast]; exact List.mem_cons_self))
        rw [trim, List.reverse_reverse] at hlast
        rw [isSpace_of_dropWhile hlast] at hspace
        cases hspace
  · intro h c hc
    rw [h] at hc
    cases hc

-- Only white space is taken off.
theorem mem_trim {cs : List Char} {c : Char} (hc : c ∈ cs) (hspace : isSpace c = false) :
    c ∈ trim cs := by
  have hkept : ∀ ds : List Char, c ∈ ds → c ∈ ds.dropWhile isSpace := by
    intro ds hd
    rw [← List.takeWhile_append_dropWhile (p := isSpace) (l := ds)] at hd
    rcases List.mem_append.1 hd with hd | hd
    · rw [List.mem_takeWhile_imp hd] at hspace
      cases hspace
    · exact hd
  exact List.mem_reverse.2 (hkept _ (List.mem_reverse.2 (hkept cs hc)))

theorem length_trim_le (cs : List Char) : (trim cs).length ≤ cs.length := by
  have hinner := (List.dropWhile_sublist isSpace (l := cs)).length_le
  have houter := (List.dropWhile_sublist isSpace (l := (cs.dropWhile isSpace).reverse)).length_le
  rw [List.length_reverse] at houter
  rw [trim, List.length_reverse]
  omega

-- What has no white space anywhere has none at its ends.
theorem trim_of_no_space {cs : List Char} (h : ∀ c ∈ cs, isSpace c = false) : trim cs = cs := by
  have hdrop : ∀ ds : List Char, (∀ c ∈ ds, isSpace c = false) → ds.dropWhile isSpace = ds := by
    intro ds hds
    cases ds with
    | nil => rfl
    | cons d ds => simp [hds d List.mem_cons_self]
  rw [trim, hdrop cs h, hdrop cs.reverse fun c hc => h c (List.mem_reverse.1 hc),
    List.reverse_reverse]

-- White space is told by its code, and the codes of letters and digits are others.
theorem isSpace_eq_false {c : Char} (h : (48 ≤ c.toNat ∧ c.toNat ≤ 57) ∨
    (65 ≤ c.toNat ∧ c.toNat ≤ 90) ∨ (97 ≤ c.toNat ∧ c.toNat ≤ 122)) : isSpace c = false := by
  simp only [isSpace, Bool.or_eq_false_iff, Bool.and_eq_false_iff, decide_eq_false_iff_not,
    List.contains_eq_mem, List.mem_cons, List.not_mem_nil, or_false, not_or]
  omega

theorem isSpace_of_isDigit {c : Char} (h : c.isDigit = true) : isSpace c = false := by
  simp only [Char.isDigit, Bool.and_eq_true, decide_eq_true_eq, UInt32.le_iff_toNat_le] at h
  exact isSpace_eq_false (Or.inl h)

theorem dropWhile_of_head {cs : List Char} (h : ∀ c, cs.head? = some c → isSpace c = false) :
    cs.dropWhile isSpace = cs := by
  cases cs with
  | nil => rfl
  | cons c cs => simp [h c rfl]

/-- What was trimmed has no white space at its ends. -/
theorem trim_trim (cs : List Char) : trim (trim cs) = trim cs := by
  have hlast : (trim cs).reverse.dropWhile isSpace = (trim cs).reverse := by
    rw [trim, List.reverse_reverse]
    refine dropWhile_of_head fun c hc => ?_
    have hnot := List.head?_dropWhile_not isSpace (cs.dropWhile isSpace).reverse
    rw [hc] at hnot
    simpa using hnot
  have hfirst : (trim cs).dropWhile isSpace = trim cs := by
    refine dropWhile_of_head fun c hc => ?_
    have hfront : trim cs <+: cs.dropWhile isSpace := by
      rw [trim, ← List.reverse_suffix, List.reverse_reverse]
      exact List.dropWhile_suffix isSpace
    rcases hfront with ⟨rest, hrest⟩
    have hnot := List.head?_dropWhile_not isSpace cs
    rw [← hrest, List.head?_append, hc] at hnot
    simpa using hnot
  rw [trim, hfirst, hlast, List.reverse_reverse]

/-- The characters with an escape of their own. -/
def jsonEscapes : List (Nat × String) :=
  [(8, "\\b"), (9, "\\t"), (10, "\\n"), (12, "\\f"), (13, "\\r"), (34, "\\\""), (92, "\\\\")]

/-- A character inside a JSON string. -/
def jsonChar (c : Char) : List Char :=
  match jsonEscapes.find? fun escape => escape.1 = c.toNat with
  | some escape => escape.2.toList
  | none =>
      if c.toNat < 32 then
        "\\u00".toList ++ [Nat.digitChar (c.toNat / 16), Nat.digitChar (c.toNat % 16)]
      else [c]

def jsonString (s : String) : List Char := '"' :: (s.toList.flatMap jsonChar ++ ['"'])

def jsonNat (n : Nat) : List Char := Nat.toDigits 10 n

def jsonInt (n : Int) : List Char := (if n < 0 then ['-'] else []) ++ jsonNat n.natAbs

/-- The fields of an object, with a comma between two of them. -/
def jsonFields : List (String × List Char) → List Char
  | [] => []
  | [(name, value)] => jsonString name ++ ':' :: value
  | (name, value) :: rest => jsonString name ++ ':' :: (value ++ ',' :: jsonFields rest)

def jsonObject (fields : List (String × List Char)) : List Char :=
  "\x7b".toList ++ (jsonFields fields ++ "\x7d".toList)

/-- A text without control characters. -/
def Printable (text : List Char) : Prop := ∀ c ∈ text, 32 ≤ c.toNat

instance (text : List Char) : Decidable (Printable text) := List.decidableBAll _ text

theorem printable_append {a b : List Char} (ha : Printable a) (hb : Printable b) :
    Printable (a ++ b) := by
  intro c hc
  rcases List.mem_append.1 hc with hc | hc
  · exact ha c hc
  · exact hb c hc

theorem printable_digits (n : Nat) : Printable (Nat.toDigits 10 n) := by
  intro c hc
  have hdigit := Nat.isDigit_of_mem_toDigits (by decide) (by decide) hc
  simp only [Char.isDigit, Bool.and_eq_true, decide_eq_true_eq, UInt32.le_iff_toNat_le] at hdigit
  have hlow : 48 ≤ c.toNat := hdigit.1
  omega

-- Whatever the character, it is escaped if it has to be.
theorem printable_jsonChar (c : Char) : Printable (jsonChar c) := by
  unfold jsonChar
  split
  · rename_i escape hfind
    have hall : ∀ e ∈ jsonEscapes, Printable e.2.toList := by decide
    exact hall escape (List.mem_of_find?_eq_some hfind)
  · by_cases hcontrol : c.toNat < 32
    · have hdigit : ∀ n < 16, Printable [Nat.digitChar n] := by decide
      rw [if_pos hcontrol]
      refine printable_append (by decide) ?_
      exact printable_append (hdigit (c.toNat / 16) (by omega)) (hdigit (c.toNat % 16) (by omega))
    · rw [if_neg hcontrol]
      intro d hd
      rw [List.mem_singleton.1 hd]
      omega

theorem printable_jsonString (s : String) : Printable (jsonString s) := by
  have hquote : Printable ['"'] := by decide
  refine printable_append hquote (printable_append ?_ hquote)
  intro c hc
  rcases List.mem_flatMap.1 hc with ⟨d, -, hc⟩
  exact printable_jsonChar d c hc

theorem printable_jsonInt (n : Int) : Printable (jsonInt n) := by
  refine printable_append ?_ (printable_digits n.natAbs)
  by_cases hneg : n < 0
  · simp only [hneg, if_true]
    decide
  · simp only [hneg, if_false]
    decide

-- Values without control characters make an object without them.
theorem printable_jsonFields {fields : List (String × List Char)}
    (h : ∀ field ∈ fields, Printable field.2) : Printable (jsonFields fields) := by
  have hcolon : Printable [':'] := by decide
  have hcomma : Printable [','] := by decide
  induction fields with
  | nil => exact fun _ hc => absurd hc List.not_mem_nil
  | cons field fields ih =>
      have hname := printable_jsonString field.1
      have hvalue := h field List.mem_cons_self
      have hrest := ih fun other hother => h other (List.mem_cons_of_mem field hother)
      cases fields with
      | nil => exact printable_append hname (printable_append hcolon hvalue)
      | cons next fields =>
          exact printable_append hname (printable_append hcolon
            (printable_append hvalue (printable_append hcomma hrest)))

end PocketSkynet
