import PocketSkynet.Lib.Shuffle

/-!
# Random Passwords

One character of every class, the rest from all of them, and a shuffle, with every number drawn
from the random bytes by rejection. So every draw is even, and what comes out fits the recipe.
But a string can be reached with any of its characters of a class as the one that had to be there,
so strings that have many of every class are drawn more often than those that have one.

## Main definitions

* `Recipe`, `Recipe.validate`, `Recipe.classes`: What is asked for.
* `uniformBelow`: A number from the random bytes.
* `generate`: The generator, on a tape of random bytes.
* `Recipe.Meets`: A string fits a recipe.
* `Sound`: What is returned fits, the draws are even, and every string is equally likely.

## Theorems

* `ways_program`: The ways to a string are the product of what it has of the classes.
* `tapes_generate`: The tapes that lead to a string go by its ways.
* `recipe_sound_iff`: All strings are equally likely exactly if there is one class.
-/

namespace PocketSkynet

namespace Password

open Nat

def minLength : ℕ := 8

def maxLength : ℕ := 128

def defaultLength : ℕ := 20

def lower : List Char := "abcdefghijklmnopqrstuvwxyz".toList

def upper : List Char := "ABCDEFGHIJKLMNOPQRSTUVWXYZ".toList

def digits : List Char := "0123456789".toList

def symbols : List Char := "!#$%&()*+,-./:;<=>?@[]^_\x7b|\x7d~\"'\\\x60".toList

/-- Why a password could not be generated. -/
inductive PasswordError where
  | noCharacterClasses
  | length
  /-- There are no random bytes. -/
  | randomness
deriving DecidableEq, Repr

/-- What the user asked for. -/
structure Recipe where
  length : ℕ
  lowercase : Bool
  uppercase : Bool
  digits : Bool
  symbols : Bool
deriving DecidableEq, Repr

def Recipe.default : Recipe := ⟨defaultLength, true, true, true, true⟩

/-- The classes a recipe draws from. -/
def Recipe.classes (r : Recipe) : List (List Char) :=
  (if r.lowercase then [lower] else []) ++ (if r.uppercase then [upper] else []) ++
    (if r.digits then [Password.digits] else []) ++ (if r.symbols then [Password.symbols] else [])

/-- Check the recipe without generating anything. -/
def Recipe.validate (r : Recipe) : Except PasswordError Unit :=
  if r.classes.isEmpty then .error .noCharacterClasses
  else if !(decide (minLength ≤ r.length) && decide (r.length ≤ maxLength)) then .error .length
  else .ok ()

abbrev Byte := Fin 256

/-- The first byte below the largest multiple of the bound that fits in one, as a remainder. -/
def accepted (n : ℕ) : List Byte → Except PasswordError (Fin n × List Byte)
  | [] => .error .randomness
  | v :: rest =>
      if h : v.val < 256 / n * n then
        .ok (⟨v.val % n, Nat.mod_lt _ (Nat.pos_of_ne_zero fun hn => by simp [hn] at h)⟩, rest)
      else accepted n rest

/-- A uniform number below a bound, by rejection sampling. -/
def uniformBelow (n : ℕ) (tape : List Byte) : Except PasswordError (Fin n × List Byte) :=
  if h : n = 1 then .ok (⟨0, h ▸ Nat.one_pos⟩, tape) else accepted n tape

def Recipe.alphabet (r : Recipe) : List Char := r.classes.flatten

/-- So many characters more, from the union of the classes. -/
def fillUp (alphabet : List Char) : ℕ → List Char → Sampler (List Char)
  | 0, out => .done out
  | left + 1, out =>
      .draw alphabet.length fun v => fillUp alphabet left (out ++ [alphabet.get v])

/-- One mandatory character of each class, then the rest, then the shuffle. -/
def Recipe.program (r : Recipe) : Sampler (List Char) :=
  (picks r.classes []).andThen fun out =>
    (fillUp r.alphabet (r.length - out.length) out).andThen shuffle

/-- Generate a password from a recipe. -/
def generate (r : Recipe) (tape : List Byte) : Except PasswordError String := do
  r.validate
  if r.length < r.classes.length then throw .length
  let out ← r.program.run uniformBelow tape
  return String.ofList out.1

/-- A string has the length that was asked for and characters of every class, and of no other. -/
structure Recipe.Meets (r : Recipe) (s : String) : Prop where
  length : s.toList.length = r.length
  drawn : ∀ c ∈ s.toList, ∃ cls ∈ r.classes, c ∈ cls
  covers : ∀ cls ∈ r.classes, ∃ c ∈ s.toList, c ∈ cls

/-- Whether it does. -/
def Recipe.fits (r : Recipe) (s : String) : Bool :=
  s.toList.length == r.length && s.toList.all (fun c => r.classes.any (·.contains c)) &&
    r.classes.all fun cls => s.toList.any (cls.contains ·)

theorem fits_iff {r : Recipe} {s : String} : r.fits s = true ↔ r.Meets s := by
  simp only [Recipe.fits, Bool.and_eq_true, beq_iff_eq, List.all_eq_true, List.any_eq_true,
    List.contains_iff_mem]
  constructor
  · rintro ⟨⟨hlength, hdrawn⟩, hcovers⟩
    exact ⟨hlength, hdrawn, hcovers⟩
  · intro h
    exact ⟨⟨h.length, h.drawn⟩, h.covers⟩

instance (r : Recipe) (s : String) : Decidable (r.Meets s) := decidable_of_iff _ fits_iff

/-- The bounds of the shuffle, for the places up to one. -/
def shuffleBounds : ℕ → List ℕ
  | 0 => []
  | i + 1 => (i + 2) :: shuffleBounds i

/-- The bounds that numbers are drawn below, one after the other. -/
def Recipe.bounds (r : Recipe) : List ℕ :=
  (r.classes ++ List.replicate (r.length - r.classes.length) r.alphabet).map List.length ++
    shuffleBounds (r.length - 1)

/-- A tape with enough bytes that are accepted for every bound leads to a string, and every string
    that is returned meets the recipe. For every bound each number has the same share of the
    bytes, and as many tapes of any length lead to a string that meets the recipe as to any
    other. -/
structure Sound (r : Recipe) : Prop where
  returns : ∀ tape : List Byte, 2 * r.length - 1 ≤ tape.countP (fun b => b.val < 128) →
    ∃ s, generate r tape = .ok s
  meets : ∀ tape s, generate r tape = .ok s → r.Meets s
  even : ∀ n ∈ r.bounds, ∀ v : Fin n,
    (Finset.univ.filter fun b : Byte => uniformBelow n [b] = .ok (v, [])).card = 256 / n
  uniform : ∀ N s s', r.Meets s → r.Meets s' →
    tapes N (fun tape => generate r tape = .ok s) = tapes N fun tape => generate r tape = .ok s'

/-! ### Drawing a number -/

/-- As many bytes below a multiple of a bound leave each remainder. -/
theorem card_remainder {n q : ℕ} (hq : q * n ≤ 256) {v : ℕ} (hv : v < n) :
    (Finset.univ.filter fun b : Byte => b.val < q * n ∧ b.val % n = v).card = q := by
  refine (Finset.card_bij (fun b _ => b.val / n) ?_ ?_ ?_).trans (Finset.card_range q)
  · intro b hb
    rw [Finset.mem_range]
    exact Nat.div_lt_of_lt_mul (Nat.mul_comm q n ▸ (Finset.mem_filter.1 hb).2.1)
  · intro b hb c hc heq
    have hb' := (Finset.mem_filter.1 hb).2.2
    have hc' := (Finset.mem_filter.1 hc).2.2
    refine Fin.ext ?_
    rw [← Nat.div_add_mod b.val n, ← Nat.div_add_mod c.val n, heq, hb', hc']
  · intro i hi
    have hlt : n * i + v < q * n := by
      have hle : (i + 1) * n ≤ q * n := Nat.mul_le_mul_right n (Finset.mem_range.1 hi)
      rw [Nat.add_mul, Nat.one_mul, Nat.mul_comm i n] at hle
      omega
    refine ⟨⟨n * i + v, by omega⟩, Finset.mem_filter.2 ⟨Finset.mem_univ _, hlt, ?_⟩, ?_⟩
    · rw [Nat.mul_add_mod, Nat.mod_eq_of_lt hv]
    · rw [Nat.mul_add_div (by omega), Nat.div_eq_of_lt hv, Nat.add_zero]

/-- The bytes that are passed over. -/
def spill (n : ℕ) : ℕ := (Finset.univ.filter fun b : Byte => ¬ b.val < 256 / n * n).card

/-- Every number has the same share of the bytes. -/
theorem evenDraw_uniformBelow {n : ℕ} (hn : 2 ≤ n) :
    EvenDraw (uniformBelow n) (256 / n) (spill n) := by
  have hone : n ≠ 1 := by omega
  have hpos : 0 < n := by omega
  refine ⟨⟨.randomness, by rw [uniformBelow, dif_neg hone, accepted]⟩,
    fun b => if b.val < 256 / n * n then some ⟨b.val % n, Nat.mod_lt _ hpos⟩ else none, ?_, ?_, ?_⟩
  · intro b rest
    rw [uniformBelow, dif_neg hone, accepted, uniformBelow, dif_neg hone]
    by_cases hb : b.val < 256 / n * n
    · simp only [dif_pos hb, if_pos hb]
    · simp only [dif_neg hb, if_neg hb]
  · intro v
    have hshare := card_remainder (Nat.div_mul_le_self 256 n) v.2
    refine (congrArg Finset.card (Finset.filter_congr fun b _ => ?_)).trans hshare
    by_cases hb : b.val < 256 / n * n
    · simp [hb, Fin.ext_iff]
    · simp [hb]
  · refine congrArg Finset.card (Finset.filter_congr fun b _ => ?_)
    by_cases hb : b.val < 256 / n * n
    · simp [hb]
    · simp [hb]

/-- A byte in the lower half is accepted for every bound up to it. -/
theorem uniformBelow_of_enough {n : ℕ} (hn : 2 ≤ n) (hle : n ≤ 128) (tape : List Byte)
    (htape : 0 < tape.countP fun b => b.val < 128) : ∃ v rest,
      uniformBelow n tape = .ok (v, rest) ∧
        tape.countP (fun b => b.val < 128) ≤ rest.countP (fun b => b.val < 128) + 1 := by
  have hone : n ≠ 1 := by omega
  have hlimit : 128 ≤ 256 / n * n := by
    have hmod := Nat.mod_lt 256 (show 0 < n by omega)
    have hdiv := Nat.div_add_mod' 256 n
    omega
  rw [uniformBelow, dif_neg hone]
  induction tape with
  | nil => simp at htape
  | cons b tape ih =>
      rw [accepted]
      by_cases hb : b.val < 256 / n * n
      · refine ⟨_, _, dif_pos hb, ?_⟩
        rw [List.countP_cons]
        split <;> omega
      · have hlow : ¬ decide (b.val < 128) = true := by
          rw [decide_eq_true_eq]
          omega
        have hskip : (b :: tape).countP (fun b => b.val < 128) =
            tape.countP fun b => b.val < 128 := List.countP_cons_of_neg hlow
        rw [hskip] at htape ⊢
        rw [dif_neg hb]
        exact ih htape

/-! ### The program -/

theorem fillUp_eq (alphabet : List Char) (left : ℕ) (out : List Char) :
    fillUp alphabet left out = picks (List.replicate left alphabet) out := by
  induction left generalizing out with
  | zero => rfl
  | succ left ih =>
      rw [fillUp, List.replicate_succ, picks]
      exact congrArg _ (funext fun v => ih _)

/-- The program picks from every class, and then from all of them. -/
theorem program_eq (r : Recipe) : r.program =
    (picks (r.classes ++ List.replicate (r.length - r.classes.length) r.alphabet) []).andThen
      shuffle := by
  have hall : ∀ (cs : List (List Char)) (out : List Char),
      ((picks cs out).andThen fun out =>
        (fillUp r.alphabet (r.length - out.length) out).andThen shuffle) =
      (picks (cs ++ List.replicate (r.length - (out.length + cs.length)) r.alphabet) out).andThen
        shuffle := by
    intro cs
    induction cs with
    | nil =>
        intro out
        rw [picks, Sampler.andThen, fillUp_eq]
        rfl
    | cons c cs ih =>
        intro out
        rw [picks, Sampler.andThen, List.cons_append, picks, Sampler.andThen]
        refine congrArg _ (funext fun v => ?_)
        have hlength : (out ++ [c.get v]).length + cs.length = out.length + (c :: cs).length := by
          simp only [List.length_append, List.length_cons, List.length_nil]
          omega
        rw [ih, hlength]
  have hprogram := hall r.classes []
  rw [List.length_nil, Nat.zero_add] at hprogram
  exact hprogram

theorem asks_shuffleFrom (i : ℕ) (out : List Char) :
    (shuffleFrom i out).Asks (shuffleBounds i) := by
  induction i generalizing out with
  | zero => trivial
  | succ i ih => exact ⟨rfl, fun j => ih _⟩

theorem asks_picks_shuffle (cs : List (List Char)) (out : List Char) :
    ((picks cs out).andThen shuffle).Asks
      (cs.map List.length ++ shuffleBounds (out.length + cs.length - 1)) := by
  induction cs generalizing out with
  | nil => exact asks_shuffleFrom _ out
  | cons c cs ih =>
      refine ⟨rfl, fun v => ?_⟩
      have hlength : out.length + (c :: cs).length = (out ++ [c.get v]).length + cs.length := by
        simp only [List.length_append, List.length_cons, List.length_nil]
        omega
      rw [hlength]
      exact ih _

variable {r : Recipe}

theorem of_validate (h : r.validate = .ok ()) :
    r.classes ≠ [] ∧ 8 ≤ r.length ∧ r.length ≤ 128 ∧ r.classes.length ≤ 4 := by
  have hfour : r.classes.length ≤ 4 := by
    rw [Recipe.classes]
    split <;> split <;> split <;> split <;> simp
  rw [Recipe.validate] at h
  split at h
  · cases h
  · rename_i hclasses
    split at h
    · cases h
    · rename_i hlength
      simp only [minLength, maxLength, Bool.not_eq_true', Bool.not_eq_false, Bool.and_eq_true]
        at hlength
      exact ⟨by simpa using hclasses, of_decide_eq_true hlength.1, of_decide_eq_true hlength.2,
        hfour⟩

/-- The numbers are drawn below the bounds of the recipe. -/
theorem asks_bounds (h : r.validate = .ok ()) : r.program.Asks r.bounds := by
  have hvalid := of_validate h
  have hasks := asks_picks_shuffle
    (r.classes ++ List.replicate (r.length - r.classes.length) r.alphabet) []
  have hlength : ([] : List Char).length +
      (r.classes ++ List.replicate (r.length - r.classes.length) r.alphabet).length =
        r.length := by
    simp only [List.length_nil, List.length_append, List.length_replicate]
    omega
  rw [hlength] at hasks
  rw [program_eq]
  exact hasks

-- No class repeats a character, and no two share one.
theorem nodup_alphabet (r : Recipe) : r.alphabet.Nodup := by
  have hall : ((lower ++ (upper ++ (digits ++ symbols))).map Char.toNat).Nodup := by
    decide +kernel
  have hone : ∀ (b : Bool) (c : List Char), ((if b then [c] else []).flatten).Sublist c := by
    intro b c
    cases b
    · exact List.nil_sublist c
    · simp
  have hsub : r.alphabet.Sublist (lower ++ (upper ++ (digits ++ symbols))) := by
    rw [Recipe.alphabet, Recipe.classes, List.append_assoc, List.append_assoc,
      List.flatten_append, List.flatten_append, List.flatten_append]
    exact (hone _ _).append ((hone _ _).append ((hone _ _).append (hone _ _)))
  exact hsub.nodup (List.Nodup.of_map _ hall)

theorem length_class {c : List Char} (h : c ∈ r.classes) : 10 ≤ c.length ∧ c.length ≤ 32 := by
  have hall : ∀ d ∈ [lower, upper, digits, symbols], 10 ≤ d.length ∧ d.length ≤ 32 := by
    decide +kernel
  refine hall c ?_
  simp only [Recipe.classes, List.mem_append, List.mem_ite_nil_right, List.mem_singleton] at h
  simp only [List.mem_cons, List.not_mem_nil, or_false]
  rcases h with ((⟨-, rfl⟩ | ⟨-, rfl⟩) | ⟨-, rfl⟩) | ⟨-, rfl⟩ <;> simp

theorem length_alphabet (h : r.validate = .ok ()) :
    10 ≤ r.alphabet.length ∧ r.alphabet.length ≤ 128 := by
  have hvalid := of_validate h
  have hsum : ∀ cs : List (List Char), (∀ c ∈ cs, 10 ≤ c.length ∧ c.length ≤ 32) →
      10 * cs.length ≤ cs.flatten.length ∧ cs.flatten.length ≤ 32 * cs.length := by
    intro cs
    induction cs with
    | nil => simp
    | cons c cs ih =>
        intro hcs
        have hc := hcs c List.mem_cons_self
        have hrest := ih fun d hd => hcs d (List.mem_cons_of_mem _ hd)
        rw [List.flatten_cons, List.length_append, List.length_cons]
        omega
  have hlength := hsum r.classes fun c hc => length_class hc
  have hpos := List.length_pos_of_ne_nil hvalid.1
  rw [Recipe.alphabet]
  omega

/-- Every bound is at least two and at most 128. -/
theorem of_mem_bounds (h : r.validate = .ok ()) {n : ℕ} (hn : n ∈ r.bounds) :
    2 ≤ n ∧ n ≤ 128 := by
  have hvalid := of_validate h
  have hshuffle : ∀ i, n ∈ shuffleBounds i → 2 ≤ n ∧ n ≤ i + 1 := by
    intro i
    induction i with
    | zero => intro hmem; cases hmem
    | succ i ih =>
        intro hmem
        rcases List.mem_cons.1 hmem with rfl | hmem
        · omega
        · have hi := ih hmem
          omega
  rcases List.mem_append.1 hn with hn | hn
  · rcases List.mem_map.1 hn with ⟨c, hc, rfl⟩
    rcases List.mem_append.1 hc with hc | hc
    · have hlength := length_class hc
      omega
    · have hlength := length_alphabet h
      rw [List.eq_of_mem_replicate hc]
      omega
  · have hrange := hshuffle _ hn
    omega

theorem length_bounds (h : r.validate = .ok ()) : r.bounds.length = 2 * r.length - 1 := by
  have hvalid := of_validate h
  have hshuffle : ∀ i, (shuffleBounds i).length = i := by
    intro i
    induction i with
    | zero => rfl
    | succ i ih => rw [shuffleBounds, List.length_cons, ih]
  rw [Recipe.bounds, List.length_append, List.length_map, List.length_append,
    List.length_replicate, hshuffle]
  omega

theorem generate_eq (h : r.validate = .ok ()) (tape : List Byte) (s : String) :
    generate r tape = .ok s ↔
      ∃ rest, r.program.run uniformBelow tape = .ok (s.toList, rest) := by
  have hvalid := of_validate h
  have hshort : ¬ r.length < r.classes.length := by omega
  have hgenerate : generate r tape = (r.program.run uniformBelow tape).map fun out =>
      String.ofList out.1 := by
    rw [generate, h]
    simp only [if_neg hshort]
    cases r.program.run uniformBelow tape <;> rfl
  rw [hgenerate]
  cases r.program.run uniformBelow tape with
  | error e => exact iff_of_false (fun heq => nomatch heq) (by rintro ⟨rest, heq⟩; cases heq)
  | ok out =>
      rcases out with ⟨out, after⟩
      constructor
      · intro heq
        have hs : String.ofList out = s := Except.ok.inj heq
        exact ⟨after, by rw [← hs, String.toList_ofList]⟩
      · rintro ⟨rest, heq⟩
        cases heq
        exact congrArg Except.ok String.ofList_toList

/-- The tapes that lead to a string go by its ways, with a weight that is the same for all. -/
theorem tapes_generate (h : r.validate = .ok ()) (N : ℕ) (s : String) :
    tapes N (fun tape => generate r tape = .ok s) =
      r.program.ways s.toList * weight 256 (256 / ·) spill r.bounds N := by
  have hrun := tapes_run (fun n hn => evenDraw_uniformBelow (of_mem_bounds h hn).1)
    (asks_bounds h) N s.toList
  rw [Fintype.card_fin] at hrun
  exact (tapes_congr fun tape => generate_eq h tape s).trans hrun

-- Some tapes lead to a string with no byte in vain.
theorem weight_bounds (h : r.validate = .ok ()) :
    0 < weight 256 (256 / ·) spill r.bounds r.bounds.length := by
  refine weight_pos fun n hn => ?_
  have hn := of_mem_bounds h hn
  exact Nat.div_pos (by omega) (by omega)

/-! ### The strings -/

/-- The ways to a string are counted by the picks that have its characters. -/
theorem ways_program (h : r.validate = .ok ()) (s : List Char) :
    r.program.ways s = repeats (s : Multiset Char) * selections
      (r.classes ++ List.replicate (r.length - r.classes.length) r.alphabet) s := by
  have hvalid := of_validate h
  have hzero : (([] : List Char) : Multiset Char) = 0 := rfl
  rw [program_eq, ways_picks_shuffle (Or.inr (List.append_ne_nil_of_left_ne_nil hvalid.1 _)),
    hzero, if_pos (Multiset.zero_le _), tsub_zero]

/-- For a string that meets the recipe they are the product of what it has of the classes, times
    the orders of the rest. -/
theorem ways_of_meets (h : r.validate = .ok ()) {s : String} (hs : r.Meets s) :
    r.program.ways s.toList = (r.classes.map fun c => s.toList.countP (· ∈ c)).prod *
      (r.length - r.classes.length)! := by
  have hvalid := of_validate h
  have hnodup := List.nodup_flatten.1 (nodup_alphabet r)
  have hcard : (s.toList : Multiset Char).card =
      r.classes.length + (r.length - r.classes.length) := by
    rw [Multiset.coe_card, hs.length]
    omega
  have hmem : ∀ c ∈ (s.toList : Multiset Char), c ∈ r.alphabet :=
    fun c hc => List.mem_flatten.2 (hs.drawn c hc)
  rw [ways_program h, repeats_mul_selections hnodup.1 hnodup.2 (nodup_alphabet r) hmem hcard]
  rfl

/-- A string that can be drawn meets the recipe. -/
theorem meets_of_ways (h : r.validate = .ok ()) {s : String} (hs : r.program.ways s.toList ≠ 0) :
    r.Meets s := by
  have hvalid := of_validate h
  have hnodup := List.nodup_flatten.1 (nodup_alphabet r)
  rw [ways_program h] at hs
  rcases of_selections (Nat.mul_ne_zero_iff.1 hs).2 with ⟨hcard, hmem⟩
  rw [Multiset.coe_card, List.length_append, List.length_replicate] at hcard
  have hdrawn : ∀ c ∈ s.toList, ∃ cls ∈ r.classes, c ∈ cls := by
    intro c hc
    rcases hmem c hc with ⟨cls, hcls, hccls⟩
    rcases List.mem_append.1 hcls with hcls | hcls
    · exact ⟨cls, hcls, hccls⟩
    · rw [List.eq_of_mem_replicate hcls] at hccls
      exact List.mem_flatten.1 hccls
  have hlength : (s.toList : Multiset Char).card =
      r.classes.length + (r.length - r.classes.length) := by
    rw [Multiset.coe_card, hcard]
  rw [repeats_mul_selections hnodup.1 hnodup.2 (nodup_alphabet r)
    (fun c hc => List.mem_flatten.2 (hdrawn c hc)) hlength] at hs
  refine ⟨by omega, hdrawn, fun cls hcls => ?_⟩
  -- A class with no character would make the product vanish.
  have hcount : (s.toList : Multiset Char).countP (· ∈ cls) ≠ 0 := by
    intro hzero
    refine (Nat.mul_ne_zero_iff.1 hs).1 (List.prod_eq_zero ?_)
    exact List.mem_map.2 ⟨cls, hcls, hzero⟩
  rcases Multiset.countP_pos.1 (Nat.pos_of_ne_zero hcount) with ⟨c, hc, hccls⟩
  exact ⟨c, hc, hccls⟩

/-- With one class every string has the same ways. -/
theorem ways_of_one_class (h : r.validate = .ok ()) (hone : r.classes.length = 1) {s : String}
    (hs : r.Meets s) : r.program.ways s.toList = r.length * (r.length - 1)! := by
  rcases List.length_eq_one_iff.1 hone with ⟨c, hc⟩
  have hall : s.toList.countP (· ∈ c) = s.toList.length := by
    refine List.countP_eq_length.2 fun x hx => ?_
    rcases hs.drawn x hx with ⟨cls, hcls, hxcls⟩
    rw [hc, List.mem_singleton] at hcls
    exact decide_eq_true (hcls ▸ hxcls)
  rw [ways_of_meets h hs, hone, hc, List.map_singleton, List.prod_singleton, hall, hs.length]

/-- With two classes there are strings with different ways. -/
theorem ways_of_two_classes (h : r.validate = .ok ()) (htwo : 2 ≤ r.classes.length) :
    ∃ s s', r.Meets s ∧ r.Meets s' ∧ r.program.ways s.toList ≠ r.program.ways s'.toList := by
  have hvalid := of_validate h
  have hnodup := List.nodup_flatten.1 (nodup_alphabet r)
  have hfirst : ∀ c ∈ r.classes, c.headD 'a' ∈ c := by
    intro c hc
    have hlength := length_class hc
    cases c with
    | nil => simp at hlength
    | cons x c => exact List.mem_cons_self
  rcases hclasses : r.classes with _ | ⟨c, _ | ⟨d, cs⟩⟩
  · exact absurd hclasses hvalid.1
  · rw [hclasses] at htwo
    simp at htwo
  rw [hclasses] at hvalid hnodup hfirst
  simp only [List.length_cons] at hvalid
  rcases List.pairwise_cons.1 hnodup.2 with ⟨hc, hrest⟩
  rcases List.pairwise_cons.1 hrest with ⟨hd, -⟩
  have ha := hfirst c List.mem_cons_self
  have hb := hfirst d (List.mem_cons_of_mem _ List.mem_cons_self)
  generalize c.headD 'a' = a at ha
  generalize d.headD 'a' = b at hb
  have had : a ∉ d := fun hmem => hc d List.mem_cons_self ha hmem
  have hbc : b ∉ c := fun hmem => hc d List.mem_cons_self hmem hb
  have hothers : ∀ x ∈ cs.map (·.headD 'a'), ∃ e ∈ cs, x ∈ e := by
    intro x hx
    rcases List.mem_map.1 hx with ⟨e, he, rfl⟩
    exact ⟨e, he, hfirst e (List.mem_cons_of_mem _ (List.mem_cons_of_mem _ he))⟩
  have hnone : ∀ e, (∀ f ∈ cs, List.Disjoint e f) →
      (cs.map (·.headD 'a')).countP (· ∈ e) = 0 := by
    intro e he
    rw [List.countP_eq_zero]
    intro x hx hxe
    rcases hothers x hx with ⟨f, hf, hxf⟩
    exact he f hf (of_decide_eq_true hxe) hxf
  -- So many of the first class, so many of the second, and one of every other.
  have hcount : ∀ (j k : ℕ) (e : List Char),
      (List.replicate j a ++ (List.replicate k b ++ cs.map (·.headD 'a'))).countP (· ∈ e) =
        (if a ∈ e then j else 0) + ((if b ∈ e then k else 0) +
          (cs.map (·.headD 'a')).countP (· ∈ e)) := by
    intro j k e
    rw [List.countP_append, List.countP_append, List.countP_replicate, List.countP_replicate]
    simp only [decide_eq_true_eq]
  have hstring : ∀ j k, 0 < j → 0 < k → j + (k + cs.length) = r.length → ∃ s, r.Meets s ∧
      r.program.ways s.toList =
        j * (k * (cs.map fun e => (cs.map (·.headD 'a')).countP (· ∈ e)).prod) *
          (r.length - r.classes.length)! := by
    intro j k hj hk hlength
    have hmeets : r.Meets (String.ofList
        (List.replicate j a ++ (List.replicate k b ++ cs.map (·.headD 'a')))) := by
      refine ⟨?_, ?_, ?_⟩
      · rw [String.toList_ofList, List.length_append, List.length_append, List.length_replicate,
          List.length_replicate, List.length_map, hlength]
      · intro x hx
        rw [String.toList_ofList] at hx
        rw [hclasses]
        rcases List.mem_append.1 hx with hx | hx
        · exact ⟨c, List.mem_cons_self, List.eq_of_mem_replicate hx ▸ ha⟩
        rcases List.mem_append.1 hx with hx | hx
        · exact ⟨d, List.mem_cons_of_mem _ List.mem_cons_self, List.eq_of_mem_replicate hx ▸ hb⟩
        · rcases hothers x hx with ⟨e, he, hxe⟩
          exact ⟨e, List.mem_cons_of_mem _ (List.mem_cons_of_mem _ he), hxe⟩
      · intro e he
        rw [String.toList_ofList]
        rw [hclasses] at he
        rcases List.mem_cons.1 he with rfl | he
        · exact ⟨a, List.mem_append_left _ (List.mem_replicate.2 ⟨hj.ne', rfl⟩), ha⟩
        rcases List.mem_cons.1 he with rfl | he
        · exact ⟨b, List.mem_append_right _ (List.mem_append_left _
            (List.mem_replicate.2 ⟨hk.ne', rfl⟩)), hb⟩
        · exact ⟨e.headD 'a', List.mem_append_right _ (List.mem_append_right _
            (List.mem_map_of_mem he)),
            hfirst e (List.mem_cons_of_mem _ (List.mem_cons_of_mem _ he))⟩
    have hrestcount : ∀ e ∈ cs, (List.replicate j a ++ (List.replicate k b ++
        cs.map (·.headD 'a'))).countP (· ∈ e) = (cs.map (·.headD 'a')).countP (· ∈ e) := by
      intro e he
      rw [hcount, if_neg fun hmem => hc e (List.mem_cons_of_mem _ he) ha hmem,
        if_neg fun hmem => hd e he hb hmem, Nat.zero_add, Nat.zero_add]
    refine ⟨_, hmeets, ?_⟩
    rw [ways_of_meets h hmeets, String.toList_ofList, hclasses, List.map_cons, List.map_cons,
      List.prod_cons, List.prod_cons, hcount j k c, hcount j k d, if_pos ha, if_neg hbc,
      if_neg had, if_pos hb, hnone c fun f hf => hc f (List.mem_cons_of_mem _ hf), hnone d hd,
      List.map_congr_left hrestcount, Nat.zero_add, Nat.zero_add, Nat.add_zero, Nat.add_zero]
  have hlength : ∃ m, 4 ≤ m ∧ m + 2 + cs.length = r.length :=
    ⟨r.length - cs.length - 2, by omega, by omega⟩
  rcases hlength with ⟨m, hm, hlength⟩
  rcases hstring 1 (m + 1) Nat.one_pos (Nat.succ_pos m) (by omega) with ⟨s, hs, hways⟩
  rcases hstring 2 m Nat.two_pos (by omega) (by omega) with ⟨s', hs', hways'⟩
  refine ⟨s, s', hs, hs', fun heq => ?_⟩
  rw [hways, hways'] at heq
  have hprod : (cs.map fun e => (cs.map (·.headD 'a')).countP (· ∈ e)).prod ≠ 0 := by
    refine List.prod_ne_zero fun hzero => ?_
    rcases List.mem_map.1 hzero with ⟨e, he, hcountP⟩
    rw [List.countP_eq_zero] at hcountP
    exact hcountP _ (List.mem_map_of_mem he) (decide_eq_true
      (hfirst e (List.mem_cons_of_mem _ (List.mem_cons_of_mem _ he))))
  have hcancel := Nat.eq_of_mul_eq_mul_right (Nat.factorial_pos _) heq
  rw [← Nat.mul_assoc, ← Nat.mul_assoc] at hcancel
  have hnumbers := Nat.eq_of_mul_eq_mul_right (Nat.pos_of_ne_zero hprod) hcancel
  omega

/-- For every bound each number has the same share of the bytes. -/
theorem card_uniformBelow {n : ℕ} (hn : 2 ≤ n) (v : Fin n) :
    (Finset.univ.filter fun b : Byte => uniformBelow n [b] = .ok (v, [])).card = 256 / n := by
  have hone : n ≠ 1 := by omega
  have hshare := card_remainder (Nat.div_mul_le_self 256 n) v.2
  refine (congrArg Finset.card (Finset.filter_congr fun b _ => ?_)).trans hshare
  rw [uniformBelow, dif_neg hone, accepted]
  by_cases hb : b.val < 256 / n * n
  · simp [hb, Fin.ext_iff]
  · simp [hb, accepted]

/-- A tape with enough bytes in the lower half leads to a string. -/
theorem generate_of_enough (h : r.validate = .ok ()) {tape : List Byte}
    (htape : 2 * r.length - 1 ≤ tape.countP fun b => b.val < 128) :
    ∃ s, generate r tape = .ok s := by
  have hdraws : ∀ n ∈ r.bounds, ∀ tape : List Byte,
      0 < tape.countP (fun b => b.val < 128) → ∃ v rest, uniformBelow n tape = .ok (v, rest) ∧
        tape.countP (fun b => b.val < 128) ≤ rest.countP (fun b => b.val < 128) + 1 :=
    fun n hn => uniformBelow_of_enough (of_mem_bounds h hn).1 (of_mem_bounds h hn).2
  rcases Sampler.run_of_enough hdraws (asks_bounds h) (by rwa [length_bounds h])
    with ⟨out, rest, hrun⟩
  exact ⟨String.ofList out, (generate_eq h tape _).2
    ⟨rest, by rw [String.toList_ofList]; exact hrun⟩⟩

/-- What is returned meets the recipe. -/
theorem meets_of_generate (h : r.validate = .ok ()) {tape : List Byte} {s : String}
    (hs : generate r tape = .ok s) : r.Meets s := by
  rcases (generate_eq h tape s).1 hs with ⟨rest, hrun⟩
  exact meets_of_ways h (Sampler.ways_pos_of_run hrun).ne'

/-- **All strings that meet a recipe are equally likely exactly if it has one class, and the rest
    holds of every recipe.** -/
theorem recipe_sound_iff (h : r.validate = .ok ()) : Sound r ↔ r.classes.length = 1 := by
  have hvalid := of_validate h
  constructor
  · intro hsound
    by_contra hone
    have hpos := List.length_pos_of_ne_nil hvalid.1
    rcases ways_of_two_classes h (by omega) with ⟨s, s', hs, hs', hne⟩
    have huniform := hsound.uniform r.bounds.length s s' hs hs'
    rw [tapes_generate h, tapes_generate h] at huniform
    refine hne (Nat.eq_of_mul_eq_mul_right (weight_bounds h) huniform)
  · intro hone
    refine ⟨fun _ => generate_of_enough h, fun _ _ => meets_of_generate h,
      fun n hn => card_uniformBelow (of_mem_bounds h hn).1, fun N s s' hs hs' => ?_⟩
    rw [tapes_generate h, tapes_generate h, ways_of_one_class h hone hs,
      ways_of_one_class h hone hs']

theorem sound_digits : Sound ⟨8, false, false, true, false⟩ := (recipe_sound_iff rfl).2 rfl

/-- A string with seven letters and a digit is drawn less often than one with four of each. -/
theorem letters_and_digits_not_sound : ¬ Sound ⟨8, true, false, true, false⟩ := by
  intro h
  have hseven : Recipe.Meets ⟨8, true, false, true, false⟩ "aaaaaaa1" := by
    decide +kernel
  have hfour : Recipe.Meets ⟨8, true, false, true, false⟩ "aaaa1111" := by
    decide +kernel
  have huniform := h.uniform (Recipe.bounds ⟨8, true, false, true, false⟩).length _ _ hseven hfour
  rw [tapes_generate rfl, tapes_generate rfl] at huniform
  have hways := Nat.eq_of_mul_eq_mul_right (weight_bounds rfl) huniform
  rw [ways_of_meets rfl hseven, ways_of_meets rfl hfour] at hways
  exact absurd hways (by decide)

end Password

end PocketSkynet
