import Mathlib.Data.List.Induction
import Mathlib.Data.List.Sort
import PocketSkynet.Server.IndexSync

/-!
# Search

A query is free text and hashtags. The hashtags are a filter: a document is found only with all of
them. The text is ranked twice, by the words in it and by its likeness to the documents, and the
two rankings are fused; a query without text is a browse through what is newest. Both see only
what the searcher may see: messages and files of rooms that they are in, by senders whom they have
not blocked, and the notes and sites, which are for everybody.

The index of words and the arithmetic of the scores are not modelled. `Ranker` stands for them: it
says which documents match, best first, how like a document is to a text, and how scores add up.
What is found, how often and in which order, does not depend on what they say.

## Main definitions

* `words`, `splitQuery`, `ftsQuery`: What is asked of the index of words.
* `SearchScope`, `SearchScope.sees`: What the searcher may see.
* `Ranker`: How documents are ranked.
* `SearchDb.search`, `SearchDb.browse`, `SearchDb.hitsFor`: What is found.
* `SearchDb.Tagged`, `SearchDb.Eligible`: The rows of tags are those of the texts; and what a query
  asks for.

## Theorems

* `readPhrases_ftsQuery`: Whatever the text, the index is asked for its words and nothing else.
* `mem_tagFilter`: The filter is the documents with all tags.
* `SearchDb.found_search`: What is found is asked for, each once, best first, within the limit.
* `SearchDb.search_complete`: What is asked for and is like the text is found, or the page is full.
* `SearchDb.newest_browse`: A browse lists the newest documents that are asked for.
-/

namespace PocketSkynet

/-! ### The query -/

/-- The scan of a text for words: the word that is being read, and the words so far. -/
structure WordScan where
  current : List Char
  out : List (List Char)

def WordScan.finish (s : WordScan) : WordScan :=
  if s.current.isEmpty then s else ⟨[], s.out ++ [s.current]⟩

def WordScan.read (u : CharClasses) (s : WordScan) (ch : Char) : WordScan :=
  if u.isAlphanumeric ch then { s with current := s.current ++ u.toLowercase ch } else s.finish

/-- The words of a text, lowercased. -/
def words (u : CharClasses) (text : List Char) : List (List Char) :=
  (text.foldl (WordScan.read u) ⟨[], []⟩).finish.out

/-- The pieces of a text between white space. -/
def splitWhitespace (text : List Char) : List (List Char) :=
  (text.splitOnP isSpace).filter fun token => !token.isEmpty

/-- Split a query into free text and the hashtags that it filters by. -/
def splitQuery (u : CharClasses) (query : String) : List Char × List String :=
  let tags := hashtags u query
  if tags.isEmpty then (trim query.toList, tags)
  else
    (List.intercalate [' ']
      ((splitWhitespace query.toList).filter fun token => token.head? ≠ some '#'), tags)

/-- A word as a phrase. -/
def phrase (word : List Char) : List Char := '"' :: word ++ ['"']

/-- What the index of words is asked for: any of the words, each a phrase. -/
def ftsQuery (u : CharClasses) (text : List Char) : Option (List Char) :=
  if (words u text).isEmpty then none
  else some (List.intercalate " OR ".toList ((words u text).map phrase))

/-- How the index reads what it is asked for, as far as phrases go: a quotation mark opens a
    phrase, the next one closes it unless it is doubled, and phrases are joined by `OR`. -/
def readPhrases : ℕ → List Char → Option (List (List Char))
  | 0, _ => none
  | fuel + 1, '"' :: text =>
      let word := text.takeWhile (· ≠ '"')
      match text.dropWhile (· ≠ '"') with
      | ['"'] => some [word]
      | '"' :: ' ' :: 'O' :: 'R' :: ' ' :: rest => (readPhrases fuel rest).map (word :: ·)
      | _ => none
  | _ + 1, _ => none

/-! ### What is seen -/

/-- The rooms of the searcher, and whom they have blocked. -/
structure SearchScope where
  rooms : List RoomId
  blocked : List WalletAddress

/-- The searcher may see the document. A document without a sender is by nobody whom they have not
    blocked, unless they have blocked nobody. -/
def SearchScope.sees (scope : SearchScope) (d : SearchDoc) : Bool :=
  match d.kind with
  | .knowledge | .site => true
  | .message | .file =>
      d.roomId.any (fun room => decide (room ∈ scope.rooms)) &&
        match d.sender with
        | some sender => decide (sender ∉ scope.blocked)
        | none => scope.blocked.isEmpty

/-- The kind that is asked for, if one is. -/
def ofKind (kind : Option DocKind) (d : SearchDoc) : Bool := kind.all fun k => d.kind = k

/-! ### Ranking -/

def candidatesPerSide : ℕ := 128

/-- How documents are ranked: those that match, best first; how like a document is to a text, if
    its vector can be read; and the arithmetic of scores. -/
structure Ranker (F : Type*) where
  matched : List Char → List SearchDoc → List SearchDoc
  cosine : List Char → SearchDoc → Option F
  positive : F → Bool
  zero : F
  add : F → F → F
  recip : ℕ → F

/-- The index of words finds documents that there are, each once. -/
def Ranker.Honest {F : Type*} (r : Ranker F) : Prop :=
  ∀ query docs, (r.matched query docs).Subperm docs

structure SearchHit (F : Type*) where
  kind : DocKind
  refId : String
  roomId : Option RoomId
  sender : Option WalletAddress
  ts : ℕ
  text : String
  tags : List (List Char)
  score : F
deriving DecidableEq, Repr

/-- The document as it is found. -/
def SearchHit.of {F : Type*} (d : SearchDoc) (score : F) : SearchHit F :=
  ⟨d.kind, d.refId, d.roomId, d.sender, d.ts, d.text, splitWhitespace d.tags.toList, score⟩

namespace SearchDb

variable {F : Type*}

/-- The documents with a tag. -/
def taggedIds (s : SearchDb) (tag : String) : List ℕ :=
  (s.hashtagRows.filter fun row => row.1 = tag).map Prod.snd

/-- The documents with every tag, if there are tags. -/
def tagFilter (s : SearchDb) (tags : List String) : Option (List ℕ) :=
  tags.foldl (fun ids tag => some (match ids with
    | none => s.taggedIds tag
    | some prev => prev.filter fun id => decide (id ∈ s.taggedIds tag))) none

/-- The document passes the filter. -/
def allowed (ids : Option (List ℕ)) (id : ℕ) : Bool := ids.all fun ids => decide (id ∈ ids)

/-- The ids that match the words, best first. The filter is applied to the first of them. -/
def bm25Ranked (r : Ranker F) (scope : SearchScope) (s : SearchDb) (fts : List Char)
    (kind : Option DocKind) (ids : Option (List ℕ)) : List ℕ :=
  ((((r.matched fts s.docs).filter fun d => scope.sees d && ofKind kind d).take
    candidatesPerSide).map SearchDoc.id).filter (allowed ids)

variable [LinearOrder F]

/-- The documents that are like the text, most like it first. -/
def semanticRanked (r : Ranker F) (scope : SearchScope) (s : SearchDb) (text : List Char)
    (kind : Option DocKind) (ids : Option (List ℕ)) : List (ℕ × F) :=
  let scored := (s.docs.filter fun d =>
    (scope.sees d && ofKind kind d) && allowed ids d.id).filterMap fun d =>
      ((r.cosine text d).filter r.positive).map fun score => (d.id, score)
  (scored.insertionSort fun a b => b.2 ≤ a.2).take candidatesPerSide

omit [LinearOrder F] in
/-- Add what the ranks of one side are worth. -/
def fuse (r : Ranker F) (ranked : List ℕ) (fused : List (ℕ × F)) : List (ℕ × F) :=
  ranked.zipIdx.foldl (fun fused (id, rank) =>
    let old := ((Table.lookup Prod.fst id fused).map Prod.snd).getD r.zero
    Table.upsert Prod.fst (id, r.add old (r.recip rank)) fused) fused

/-- Best first, the later document first where scores are the same. -/
def better (a b : ℕ × F) : Prop := b.2 < a.2 ∨ (b.2 = a.2 ∧ b.1 ≤ a.1)

instance : DecidableRel (@better F _) := fun _ _ => inferInstanceAs (Decidable (_ ∨ _))

omit [LinearOrder F] in
/-- The documents of some ids, in that order. -/
def hitsFor (s : SearchDb) (order : List (ℕ × F)) : List (SearchHit F) :=
  order.filterMap fun e => (Table.lookup SearchDoc.id e.1 s.docs).map fun d => .of d e.2

omit [LinearOrder F] in
/-- The newest documents. -/
def browse (r : Ranker F) (scope : SearchScope) (s : SearchDb) (kind : Option DocKind)
    (ids : Option (List ℕ)) (limit : ℕ) : List (SearchHit F) :=
  let newest := (s.docs.filter fun d => scope.sees d && ofKind kind d).insertionSort
    fun a b => b.ts ≤ a.ts
  s.hitsFor (((newest.filter fun d => allowed ids d.id).take limit).map fun d => (d.id, r.zero))

/-- What is found. -/
def search (u : CharClasses) (r : Ranker F) (scope : SearchScope) (s : SearchDb) (query : String)
    (kind : Option DocKind) (limit : ℕ) : List (SearchHit F) :=
  let (text, tags) := splitQuery u query
  let limit := max 1 (min limit 100)
  let ids := s.tagFilter tags
  match ftsQuery u text with
  | none => s.browse r scope kind ids limit
  | some fts =>
      let bm25 := bm25Ranked r scope s fts kind ids
      let semantic := semanticRanked r scope s text kind ids
      let fused := fuse r (semantic.map Prod.fst) (fuse r bm25 [])
      s.hitsFor ((fused.insertionSort better).take limit)

end SearchDb

/-! ### What the index of words is asked for -/

section Phrases

variable {u : CharClasses}

-- The lower case of letters and digits has no quotation mark.
theorem words_free (hu : ∀ c, u.isAlphanumeric c = true → '"' ∉ u.toLowercase c)
    (text : List Char) : ∀ word ∈ words u text, '"' ∉ word := by
  have hfinish : ∀ s : WordScan, ('"' ∉ s.current ∧ ∀ word ∈ s.out, '"' ∉ word) →
      '"' ∉ s.finish.current ∧ ∀ word ∈ s.finish.out, '"' ∉ word := by
    intro s hs
    unfold WordScan.finish
    split
    · exact hs
    · refine ⟨List.not_mem_nil, fun word hword => ?_⟩
      rcases List.mem_append.1 hword with hword | hword
      · exact hs.2 word hword
      · rw [List.mem_singleton.1 hword]
        exact hs.1
  have hscan : ∀ s : WordScan, ('"' ∉ s.current ∧ ∀ word ∈ s.out, '"' ∉ word) →
      '"' ∉ (text.foldl (WordScan.read u) s).current ∧
        ∀ word ∈ (text.foldl (WordScan.read u) s).out, '"' ∉ word := by
    induction text with
    | nil => exact fun s hs => hs
    | cons c text ih =>
        intro s hs
        refine ih _ ?_
        unfold WordScan.read
        by_cases hc : u.isAlphanumeric c = true
        · rw [if_pos hc]
          refine ⟨fun hmem => ?_, hs.2⟩
          exact (List.mem_append.1 hmem).elim hs.1 (hu c hc)
        · rw [if_neg hc]
          exact hfinish s hs
  exact (hfinish _ (hscan ⟨[], []⟩ ⟨List.not_mem_nil, fun _ h => absurd h List.not_mem_nil⟩)).2

-- A phrase is read up to its end.
theorem read_phrase {word : List Char} (hword : '"' ∉ word) (rest : List Char) :
    (word ++ '"' :: rest).takeWhile (· ≠ '"') = word ∧
      (word ++ '"' :: rest).dropWhile (· ≠ '"') = '"' :: rest := by
  have hkeep : ∀ c ∈ word, decide (c ≠ '"') = true := fun c hc =>
    decide_eq_true fun heq => hword (heq ▸ hc)
  constructor
  · rw [List.takeWhile_append_of_pos hkeep, List.takeWhile_cons_of_neg (by decide),
      List.append_nil]
  · rw [List.dropWhile_append_of_pos hkeep, List.dropWhile_cons_of_neg (by decide)]

theorem readPhrases_intercalate {ws : List (List Char)} (hne : ws ≠ [])
    (hws : ∀ word ∈ ws, '"' ∉ word) :
    readPhrases ws.length (List.intercalate " OR ".toList (ws.map phrase)) = some ws := by
  induction ws with
  | nil => exact absurd rfl hne
  | cons word ws ih =>
      have hword := hws word List.mem_cons_self
      by_cases hlast : ws = []
      · have hread := read_phrase hword []
        simp only [hlast, List.map_cons, List.map_nil, List.intercalate_singleton, phrase,
          List.cons_append, List.length_cons, List.length_nil, readPhrases, hread.1, hread.2]
      · have hmore : ws.map phrase ≠ [] := fun hnil => hlast (List.map_eq_nil_iff.1 hnil)
        have hread := read_phrase hword
          (' ' :: 'O' :: 'R' :: ' ' :: List.intercalate " OR ".toList (ws.map phrase))
        have htext : List.intercalate " OR ".toList (phrase word :: ws.map phrase) =
            '"' :: (word ++ '"' :: ' ' :: 'O' :: 'R' :: ' ' ::
              List.intercalate " OR ".toList (ws.map phrase)) := by
          rw [List.intercalate_cons_of_ne_nil hmore]
          simp [phrase]
        rw [List.map_cons, htext, List.length_cons, readPhrases]
        simp only [hread.1, hread.2]
        rw [ih hlast fun w hw => hws w (List.mem_cons_of_mem word hw)]
        rfl

/-- Whatever the text, the index of words is asked for the words of the text, each as a phrase,
    and for nothing else. -/
theorem readPhrases_ftsQuery (hu : ∀ c, u.isAlphanumeric c = true → '"' ∉ u.toLowercase c)
    {text query : List Char} (h : ftsQuery u text = some query) :
    readPhrases (words u text).length query = some (words u text) := by
  unfold ftsQuery at h
  by_cases hnil : (words u text).isEmpty = true
  · rw [if_pos hnil] at h
    cases h
  · rw [if_neg hnil] at h
    cases h
    refine readPhrases_intercalate (fun heq => hnil ?_) (words_free hu text)
    rw [heq]
    rfl

end Phrases

namespace Sample

theorem quote_not_mem_ascii (c : Char) (hc : ascii.isAlphanumeric c = true) :
    '"' ∉ ascii.toLowercase c := by
  intro hmem
  have hlower : '"' = c.toLower := List.mem_singleton.1 hmem
  unfold Char.toLower at hlower
  split at hlower
  · next hupper =>
      have hlow : 65 ≤ c.val.toNat := UInt32.le_iff_toNat_le.1 hupper.1
      have hhigh : c.val.toNat ≤ 90 := UInt32.le_iff_toNat_le.1 hupper.2
      have hcode : 34 = (c.val + 32).toNat := congrArg (fun x => Char.val x |>.toNat) hlower
      rw [UInt32.toNat_add] at hcode
      have htwo : UInt32.toNat 32 = 32 := rfl
      omega
  · rw [← hlower] at hc
    exact absurd hc (by decide)

/-- Operators, quotation marks and wildcards are asked for as words, or not at all. -/
theorem readPhrases_operators :
    readPhrases 5 "\"kimchi\" OR \"and\" OR \"quotes\" OR \"near\" OR \"2\"".toList =
      some (words ascii "kimchi AND \"quotes* NEAR/2".toList) := by
  have hlength : (words ascii "kimchi AND \"quotes* NEAR/2".toList).length = 5 := by
    decide +kernel
  rw [← hlength]
  exact readPhrases_ftsQuery quote_not_mem_ascii (by decide +kernel)

end Sample

namespace SearchDb

variable {u : CharClasses} {s : SearchDb}

/-! ### What a query asks for -/

/-- The rows of the tags of every document are those of its text. -/
def Tagged (u : CharClasses) (s : SearchDb) : Prop :=
  ∀ d ∈ s.docs, ∀ tag, (tag, d.id) ∈ s.hashtagRows ↔ tag ∈ hashtags u d.text

/-- The searcher may see the document, and it is of the kind and has all the tags that are asked
    for. -/
structure Eligible (u : CharClasses) (scope : SearchScope) (kind : Option DocKind)
    (tags : List String) (d : SearchDoc) : Prop where
  seen : scope.sees d = true
  kind : ofKind kind d = true
  tags : ∀ tag ∈ tags, tag ∈ hashtags u d.text

theorem mem_taggedIds {tag : String} {id : ℕ} :
    id ∈ s.taggedIds tag ↔ (tag, id) ∈ s.hashtagRows := by
  rw [taggedIds, List.mem_map]
  constructor
  · rintro ⟨row, hrow, rfl⟩
    rw [List.mem_filter, decide_eq_true_eq] at hrow
    rw [← hrow.2]
    exact hrow.1
  · exact fun h => ⟨_, List.mem_filter.2 ⟨h, decide_eq_true rfl⟩, rfl⟩

/-- The filter is the documents with all tags. -/
theorem mem_tagFilter (tags : List String) (id : ℕ) :
    allowed (s.tagFilter tags) id = true ↔ ∀ tag ∈ tags, (tag, id) ∈ s.hashtagRows := by
  unfold tagFilter
  induction tags using List.reverseRecOn with
  | nil => simp [allowed]
  | append_singleton tags tag ih =>
      rw [List.foldl_append, List.foldl_cons, List.foldl_nil, List.forall_mem_append, ← ih,
        List.forall_mem_singleton, ← mem_taggedIds]
      cases tags.foldl _ (none : Option (List ℕ)) with
      | none => simp [allowed]
      | some prev => simp [allowed]

theorem allowed_iff (htagged : s.Tagged u) {d : SearchDoc} (hd : d ∈ s.docs)
    (tags : List String) :
    allowed (s.tagFilter tags) d.id = true ↔ ∀ tag ∈ tags, tag ∈ hashtags u d.text := by
  rw [mem_tagFilter]
  exact forall₂_congr fun tag _ => htagged d hd tag

/-! ### Fusing -/

variable {F : Type*} {r : Ranker F}

-- What is fused is kept under the ids of both sides.
theorem keyed_fuse (ranked : List ℕ) {fused : List (ℕ × F)}
    (h : Table.Keyed Prod.fst fused) : Table.Keyed Prod.fst (fuse r ranked fused) := by
  unfold fuse
  generalize ranked.zipIdx = l
  induction l generalizing fused with
  | nil => exact h
  | cons e l ih => exact ih (Table.keyed_upsert _ h)

theorem mem_fuse (ranked : List ℕ) (fused : List (ℕ × F)) (id : ℕ) :
    (∃ e ∈ fuse r ranked fused, e.1 = id) ↔ id ∈ ranked ∨ ∃ e ∈ fused, e.1 = id := by
  have hgen : ∀ (l : List (ℕ × ℕ)) (fused : List (ℕ × F)),
      (Table.lookup Prod.fst id (l.foldl (fun fused (e : ℕ × ℕ) =>
        Table.upsert Prod.fst (e.1, r.add (((Table.lookup Prod.fst e.1 fused).map
          Prod.snd).getD r.zero) (r.recip e.2)) fused) fused)).isSome ↔
        id ∈ l.map Prod.fst ∨ (Table.lookup Prod.fst id fused).isSome := by
    intro l
    induction l with
    | nil => simp
    | cons e l ih =>
        intro fused
        rw [List.foldl_cons, ih, Table.lookup_upsert, List.map_cons, List.mem_cons]
        by_cases hid : id = e.1 <;> simp [hid]
  have hfused := hgen ranked.zipIdx fused
  rw [List.zipIdx_map_fst, Table.lookup_isSome, Table.lookup_isSome] at hfused
  exact hfused

section Sorted

variable [LinearOrder F]

theorem better_trans (a b c : ℕ × F) (hab : better a b) (hbc : better b c) : better a c := by
  rcases hab with hab | ⟨hab, hle⟩
  · rcases hbc with hbc | ⟨hbc, -⟩
    · exact Or.inl (hbc.trans hab)
    · exact Or.inl (hbc ▸ hab)
  · rcases hbc with hbc | ⟨hbc, hle'⟩
    · exact Or.inl (hab ▸ hbc)
    · exact Or.inr ⟨hbc.trans hab, hle'.trans hle⟩

theorem better_total (a b : ℕ × F) : better a b ∨ better b a := by
  rcases lt_trichotomy a.2 b.2 with hlt | heq | hgt
  · exact Or.inr (Or.inl hlt)
  · rcases le_total a.1 b.1 with hle | hle
    · exact Or.inr (Or.inr ⟨heq, hle⟩)
    · exact Or.inl (Or.inr ⟨heq.symm, hle⟩)
  · exact Or.inl (Or.inl hgt)

instance : IsTrans (ℕ × F) better := ⟨better_trans⟩

instance : @Std.Total (ℕ × F) better := ⟨better_total⟩

theorem score_le_of_better {a b : ℕ × F} (h : better a b) : b.2 ≤ a.2 :=
  h.elim le_of_lt fun h => h.1.le

end Sorted

/-! ### What is found -/

-- The hits are the documents of the order, one for one.
theorem hitsFor_eq (hv : s.Valid) {order : List (ℕ × F)}
    (horder : ∀ e ∈ order, ∃ d ∈ s.docs, d.id = e.1) :
    ∃ ds : List SearchDoc, ds.map SearchDoc.id = order.map Prod.fst ∧ (∀ d ∈ ds, d ∈ s.docs) ∧
      s.hitsFor order = (ds.zip order).map fun p => .of p.1 p.2.2 := by
  induction order with
  | nil => exact ⟨[], rfl, fun _ h => absurd h List.not_mem_nil, rfl⟩
  | cons e order ih =>
      rcases ih fun e' he' => horder e' (List.mem_cons_of_mem e he') with ⟨ds, hids, hds, hhits⟩
      rcases horder e List.mem_cons_self with ⟨d, hd, hid⟩
      refine ⟨d :: ds, by rw [List.map_cons, List.map_cons, hid, hids], ?_, ?_⟩
      · intro d' hd'
        rcases List.mem_cons.1 hd' with rfl | hd'
        · exact hd
        · exact hds d' hd'
      · have hfound := Table.lookup_of_mem hv.ids hd
        rw [hid] at hfound
        unfold hitsFor at hhits ⊢
        rw [List.filterMap_cons_some (b := .of d e.2) (by rw [hfound]; rfl), hhits]
        rfl

variable (u) in
/-- What is found: documents that are asked for, each once, within the limit and best first. -/
structure Found [LinearOrder F] (scope : SearchScope) (s : SearchDb) (kind : Option DocKind)
    (tags : List String) (limit : ℕ) (hits : List (SearchHit F)) : Prop where
  asked : ∀ h ∈ hits, ∃ d ∈ s.docs, h = .of d h.score ∧ Eligible u scope kind tags d
  once : (hits.map fun h => (h.kind, h.refId)).Nodup
  few : hits.length ≤ limit
  ordered : hits.Pairwise fun a b => b.score ≤ a.score

theorem found_hitsFor [LinearOrder F] (hv : s.Valid) {scope : SearchScope}
    {kind : Option DocKind} {tags : List String} {limit : ℕ} {order : List (ℕ × F)}
    (horder : ∀ e ∈ order, ∃ d ∈ s.docs, d.id = e.1 ∧ Eligible u scope kind tags d)
    (honce : (order.map Prod.fst).Nodup) (hfew : order.length ≤ limit)
    (hsorted : order.Pairwise fun a b => b.2 ≤ a.2) :
    Found u scope s kind tags limit (s.hitsFor order) ∧
      (s.hitsFor order).length = order.length ∧
      ∀ e ∈ order, ∀ d ∈ s.docs, d.id = e.1 → SearchHit.of d e.2 ∈ s.hitsFor order := by
  rcases hitsFor_eq hv fun e he => (horder e he).imp fun d hd => ⟨hd.1, hd.2.1⟩ with
    ⟨ds, hids, hds, hhits⟩
  have hlength : ds.length = order.length := by
    have hmap := congrArg List.length hids
    rwa [List.length_map, List.length_map] at hmap
  have hpair : ∀ p ∈ ds.zip order, p.1 ∈ s.docs ∧ p.2 ∈ order ∧ p.1.id = p.2.1 := by
    intro p hp
    rcases List.mem_iff_getElem.1 hp with ⟨i, hi, rfl⟩
    rw [List.length_zip] at hi
    rw [List.getElem_zip]
    refine ⟨hds _ (List.getElem_mem _), List.getElem_mem _, ?_⟩
    have hget := congrArg (fun l : List ℕ => l[i]?) hids
    simp only [List.getElem?_map] at hget
    rw [List.getElem?_eq_getElem (by omega), List.getElem?_eq_getElem (by omega)] at hget
    exact Option.some.inj hget
  have hall : (s.hitsFor order).length = order.length := by
    rw [hhits, List.length_map, List.length_zip, hlength, min_self]
  refine ⟨⟨?_, ?_, ?_, ?_⟩, hall, ?_⟩
  · intro h hh
    rw [hhits] at hh
    rcases List.mem_map.1 hh with ⟨p, hp, rfl⟩
    rcases hpair p hp with ⟨hd, he, hid⟩
    rcases horder p.2 he with ⟨d, hd', hid', heligible⟩
    have hsame : d = p.1 := List.inj_on_of_nodup_map hv.ids hd' hd (hid'.trans hid.symm)
    exact ⟨p.1, hd, rfl, hsame ▸ heligible⟩
  · -- Documents with different ids have different keys.
    have hkeys : (s.hitsFor order).map (fun h => (h.kind, h.refId)) = ds.map SearchDoc.key := by
      rw [hhits, List.map_map]
      have hfst : ds = (ds.zip order).map Prod.fst := by
        rw [List.map_fst_zip hlength.le]
      conv_rhs => rw [hfst, List.map_map]
      rfl
    rw [hkeys]
    have hnodup : (ds.map SearchDoc.id).Nodup := by
      rw [hids]
      exact honce
    refine List.Nodup.map_on (fun a ha b hb hkey => ?_) hnodup.of_map
    exact List.inj_on_of_nodup_map hv.keyed (hds a ha) (hds b hb) hkey
  · rw [hall]
    exact hfew
  · have hscores : (s.hitsFor order).map SearchHit.score = order.map Prod.snd := by
      rw [hhits, List.map_map]
      have hsnd : order = (ds.zip order).map Prod.snd := by
        rw [List.map_snd_zip hlength.ge]
      conv_rhs => rw [hsnd, List.map_map]
      rfl
    have hpairwise : (order.map Prod.snd).Pairwise fun a b => b ≤ a := List.pairwise_map.2 hsorted
    rw [← hscores] at hpairwise
    exact List.pairwise_map.1 hpairwise
  · intro e he d hd hid
    rw [hitsFor, List.mem_filterMap]
    refine ⟨e, he, ?_⟩
    rw [← hid, Table.lookup_of_mem hv.ids hd]
    rfl

section Queries

variable {scope : SearchScope} {kind : Option DocKind} {tags : List String} {text fts : List Char}

/-- What matches the words is asked for. -/
theorem eligible_of_bm25 (hr : r.Honest) (htagged : s.Tagged u) {id : ℕ}
    (hid : id ∈ bm25Ranked r scope s fts kind (s.tagFilter tags)) :
    ∃ d ∈ s.docs, d.id = id ∧ Eligible u scope kind tags d := by
  rcases List.mem_filter.1 hid with ⟨hid, hallowed⟩
  rcases List.mem_map.1 hid with ⟨d, hd, rfl⟩
  rcases List.mem_filter.1 (List.mem_of_mem_take hd) with ⟨hd, hseen⟩
  rw [Bool.and_eq_true] at hseen
  have hmem := (hr fts s.docs).subset hd
  exact ⟨d, hmem, rfl, hseen.1, hseen.2, (allowed_iff htagged hmem tags).1 hallowed⟩

theorem mem_scored {ids : Option (List ℕ)} {e : ℕ × F} :
    e ∈ ((s.docs.filter fun d => (scope.sees d && ofKind kind d) && allowed ids d.id).filterMap
      fun d => ((r.cosine text d).filter r.positive).map fun score => (d.id, score)) ↔
      ∃ d ∈ s.docs, d.id = e.1 ∧ (scope.sees d = true ∧ ofKind kind d = true) ∧
        allowed ids d.id = true ∧ r.cosine text d = some e.2 ∧ r.positive e.2 = true := by
  rw [List.mem_filterMap]
  constructor
  · rintro ⟨d, hd, hscore⟩
    rcases Option.map_eq_some_iff.1 hscore with ⟨score, hfilter, rfl⟩
    rw [List.mem_filter, Bool.and_eq_true, Bool.and_eq_true] at hd
    rw [Option.filter_eq_some_iff] at hfilter
    exact ⟨d, hd.1, rfl, hd.2.1, hd.2.2, hfilter⟩
  · rintro ⟨d, hd, hid, hseen, hallowed, hcosine, hpositive⟩
    refine ⟨d, List.mem_filter.2 ⟨hd, by simp [hseen, hallowed]⟩, ?_⟩
    rw [hcosine, Option.filter_some_pos hpositive, Option.map_some, hid]

variable [LinearOrder F]

/-- What is like the text is asked for. -/
theorem eligible_of_semantic (htagged : s.Tagged u) {id : ℕ}
    (hid : id ∈ (semanticRanked r scope s text kind (s.tagFilter tags)).map Prod.fst) :
    ∃ d ∈ s.docs, d.id = id ∧ Eligible u scope kind tags d := by
  rcases List.mem_map.1 hid with ⟨e, he, rfl⟩
  rcases mem_scored.1 ((List.mem_insertionSort _).1 (List.mem_of_mem_take he)) with
    ⟨d, hd, hid, hseen, hallowed, -⟩
  exact ⟨d, hd, hid, hseen.1, hseen.2, (allowed_iff htagged hd tags).1 hallowed⟩

/-- The candidates of a text query, best first, as many as are asked for. -/
def ranking (r : Ranker F) (scope : SearchScope) (s : SearchDb) (text fts : List Char)
    (kind : Option DocKind) (tags : List String) (limit : ℕ) : List (ℕ × F) :=
  ((fuse r ((semanticRanked r scope s text kind (s.tagFilter tags)).map Prod.fst)
    (fuse r (bm25Ranked r scope s fts kind (s.tagFilter tags)) [])).insertionSort better).take limit

theorem found_ranking (hr : r.Honest) (hv : s.Valid) (htagged : s.Tagged u) (limit : ℕ) :
    Found u scope s kind tags limit (s.hitsFor (ranking r scope s text fts kind tags limit)) ∧
      (s.hitsFor (ranking r scope s text fts kind tags limit)).length =
        (ranking r scope s text fts kind tags limit).length ∧
      ∀ e ∈ ranking r scope s text fts kind tags limit, ∀ d ∈ s.docs, d.id = e.1 →
        SearchHit.of d e.2 ∈ s.hitsFor (ranking r scope s text fts kind tags limit) := by
  have hkeyed := @keyed_fuse F r ((semanticRanked r scope s text kind
    (s.tagFilter tags)).map Prod.fst) _ (@keyed_fuse F r (bm25Ranked r scope s fts kind
      (s.tagFilter tags)) [] Table.keyed_nil)
  refine found_hitsFor hv (fun e he => ?_) ?_ (List.length_take_le _ _) ?_
  · have hmem := (List.mem_insertionSort _).1 (List.mem_of_mem_take he)
    rcases (mem_fuse _ _ e.1).1 ⟨e, hmem, rfl⟩ with hid | hrest
    · exact eligible_of_semantic htagged hid
    · rcases (mem_fuse _ _ e.1).1 hrest with hid | ⟨e', he', -⟩
      · exact eligible_of_bm25 hr htagged hid
      · exact absurd he' List.not_mem_nil
  · refine List.Nodup.sublist ((List.take_sublist _ _).map _) ?_
    exact ((List.perm_insertionSort _ _).map _).nodup_iff.2 hkeyed
  · refine List.Pairwise.sublist (List.take_sublist _ _) ?_
    exact (List.pairwise_insertionSort better _).imp score_le_of_better

omit [LinearOrder F] in
-- The newest documents that are asked for.
theorem mem_newest (htagged : s.Tagged u) (d : SearchDoc) :
    d ∈ ((s.docs.filter fun d => scope.sees d && ofKind kind d).insertionSort
      fun a b => b.ts ≤ a.ts).filter (fun d => allowed (s.tagFilter tags) d.id) ↔
        d ∈ s.docs ∧ Eligible u scope kind tags d := by
  rw [List.mem_filter, List.mem_insertionSort, List.mem_filter, Bool.and_eq_true, and_assoc]
  refine and_congr_right fun hd => ?_
  rw [allowed_iff htagged hd]
  exact ⟨fun h => ⟨h.1.1, h.1.2, h.2⟩, fun h => ⟨⟨h.seen, h.kind⟩, h.tags⟩⟩

/-- A browse lists the newest documents that are asked for, newest first. -/
theorem newest_browse (hv : s.Valid) (htagged : s.Tagged u) (limit : ℕ) :
    Found u scope s kind tags limit (s.browse r scope kind (s.tagFilter tags) limit) ∧
      (s.browse r scope kind (s.tagFilter tags) limit).Pairwise (fun a b => b.ts ≤ a.ts) ∧
      ∀ d ∈ s.docs, Eligible u scope kind tags d →
        SearchHit.of d r.zero ∈ s.browse r scope kind (s.tagFilter tags) limit ∨
          ((s.browse r scope kind (s.tagFilter tags) limit).length = limit ∧
            ∀ h ∈ s.browse r scope kind (s.tagFilter tags) limit, d.ts ≤ h.ts) := by
  have hmem := @mem_newest u s scope kind tags htagged
  have hsorted : (((s.docs.filter fun d => scope.sees d && ofKind kind d).insertionSort
      fun a b => b.ts ≤ a.ts).filter fun d => allowed (s.tagFilter tags) d.id).Pairwise
        fun a b => b.ts ≤ a.ts :=
    (@List.pairwise_insertionSort _ (fun a b : SearchDoc => b.ts ≤ a.ts) _
      ⟨fun a b => le_total b.ts a.ts⟩ ⟨fun _ _ _ hab hbc => hbc.trans hab⟩ _).filter _
  have hnodup : (((s.docs.filter fun d => scope.sees d && ofKind kind d).insertionSort
      fun a b => b.ts ≤ a.ts).filter fun d => allowed (s.tagFilter tags) d.id).Nodup :=
    ((List.perm_insertionSort _ _).nodup_iff.2 (hv.ids.of_map.filter _)).filter _
  unfold browse
  dsimp only
  generalize (((s.docs.filter fun d => scope.sees d && ofKind kind d).insertionSort
    fun a b => b.ts ≤ a.ts).filter fun d => allowed (s.tagFilter tags) d.id) = newest at *
  have hfound := @found_hitsFor u s F _ hv scope kind tags limit
    ((newest.take limit).map fun d => (d.id, r.zero)) ?_ ?_ ?_ ?_
  · rcases hfound with ⟨hfound, hlength, hlisted⟩
    rw [List.length_map] at hlength
    have hts : (s.hitsFor ((newest.take limit).map fun d => (d.id, r.zero))) =
        (newest.take limit).map fun d => .of d r.zero := by
      rw [hitsFor, List.filterMap_map, ← List.filterMap_eq_map]
      refine List.filterMap_congr fun d hd => ?_
      have hd' := ((hmem d).1 (List.mem_of_mem_take hd)).1
      simp only [Function.comp, Table.lookup_of_mem hv.ids hd', Option.map_some]
    refine ⟨hfound, ?_, fun d hd heligible => ?_⟩
    · rw [hts, List.pairwise_map]
      exact hsorted.sublist (List.take_sublist _ _)
    · have hin := (hmem d).2 ⟨hd, heligible⟩
      rw [hts]
      rw [← List.take_append_drop limit newest] at hin hsorted
      rcases List.mem_append.1 hin with hin | hin
      · exact Or.inl (List.mem_map_of_mem hin)
      · refine Or.inr ⟨?_, fun h hh => ?_⟩
        · have hdrop := List.length_pos_of_mem hin
          rw [List.length_drop] at hdrop
          rw [List.length_map, List.length_take]
          omega
        · rcases List.mem_map.1 hh with ⟨d', hd', rfl⟩
          exact (List.pairwise_append.1 hsorted).2.2 d' hd' d hin
  · intro e he
    rcases List.mem_map.1 he with ⟨d, hd, rfl⟩
    have hd' := (hmem d).1 (List.mem_of_mem_take hd)
    exact ⟨d, hd'.1, rfl, hd'.2⟩
  · rw [List.map_map]
    refine List.Nodup.map_on (fun a ha b hb hid => ?_) (hnodup.sublist (List.take_sublist _ _))
    exact List.inj_on_of_nodup_map hv.ids ((hmem a).1 (List.mem_of_mem_take ha)).1
      ((hmem b).1 (List.mem_of_mem_take hb)).1 hid
  · rw [List.length_map]
    exact List.length_take_le _ _
  · rw [List.pairwise_map]
    exact List.pairwise_of_forall fun _ _ => le_refl _

/-- Whatever the query, what is found is asked for, each document once, best first and within the
    limit. -/
theorem found_search (hr : r.Honest) (hv : s.Valid) (htagged : s.Tagged u) (query : String)
    (limit : ℕ) :
    Found u scope s kind (splitQuery u query).2 (max 1 (min limit 100))
      (search u r scope s query kind limit) := by
  unfold search
  dsimp only
  cases ftsQuery u (splitQuery u query).1 with
  | none => exact (newest_browse hv htagged _).1
  | some fts => exact (found_ranking hr hv htagged _).1

omit [LinearOrder F] in
-- Among few documents nothing that matches is cut off.
theorem mem_bm25 (hr : r.Honest) (htagged : s.Tagged u)
    (hfew : (s.docs.filter fun d => scope.sees d && ofKind kind d).length ≤ candidatesPerSide)
    {d : SearchDoc} (hd : d ∈ s.docs) (heligible : Eligible u scope kind tags d)
    (hmatched : d ∈ r.matched fts s.docs) :
    d.id ∈ bm25Ranked r scope s fts kind (s.tagFilter tags) := by
  have hlength : ((r.matched fts s.docs).filter fun d => scope.sees d && ofKind kind d).length ≤
      candidatesPerSide :=
    ((hr fts s.docs).filter _).length_le.trans hfew
  refine List.mem_filter.2 ⟨List.mem_map_of_mem ?_, (allowed_iff htagged hd tags).2
    heligible.tags⟩
  rw [List.take_of_length_le hlength]
  exact List.mem_filter.2 ⟨hmatched, by simp [heligible.seen, heligible.kind]⟩

theorem mem_semantic (htagged : s.Tagged u)
    (hfew : (s.docs.filter fun d => scope.sees d && ofKind kind d).length ≤ candidatesPerSide)
    {d : SearchDoc} (hd : d ∈ s.docs) (heligible : Eligible u scope kind tags d) {score : F}
    (hscore : r.cosine text d = some score) (hpositive : r.positive score = true) :
    d.id ∈ (semanticRanked r scope s text kind (s.tagFilter tags)).map Prod.fst := by
  have hlength : ((s.docs.filter fun d =>
      (scope.sees d && ofKind kind d) && allowed (s.tagFilter tags) d.id).filterMap fun d =>
        ((r.cosine text d).filter r.positive).map fun score => (d.id, score)).length ≤
      candidatesPerSide := by
    refine (List.length_filterMap_le _ _).trans (le_trans ?_ hfew)
    rw [← List.filter_filter (p := fun d => scope.sees d && ofKind kind d)
      (q := fun d => allowed (s.tagFilter tags) d.id)]
    rw [List.filter_comm]
    exact List.length_filter_le _ _
  refine List.mem_map.2 ⟨(d.id, score), ?_, rfl⟩
  unfold semanticRanked
  rw [List.take_of_length_le (by rwa [List.length_insertionSort]), List.mem_insertionSort]
  exact mem_scored.2 ⟨d, hd, rfl, ⟨heligible.seen, heligible.kind⟩,
    (allowed_iff htagged hd tags).2 heligible.tags, hscore, hpositive⟩

/-- Where the searcher sees no more documents than are ranked, whatever is asked for and matches
    the words or is like the text is found, or the page is full. -/
theorem search_complete (hr : r.Honest) (hv : s.Valid) (htagged : s.Tagged u) {query : String}
    {limit : ℕ} (hfts : ftsQuery u (splitQuery u query).1 = some fts)
    (hfew : (s.docs.filter fun d => scope.sees d && ofKind kind d).length ≤ candidatesPerSide)
    {d : SearchDoc} (hd : d ∈ s.docs)
    (heligible : Eligible u scope kind (splitQuery u query).2 d)
    (hlike : d ∈ r.matched fts s.docs ∨ ∃ score,
      r.cosine (splitQuery u query).1 d = some score ∧ r.positive score = true) :
    (∃ score, SearchHit.of d score ∈ search u r scope s query kind limit) ∨
      (search u r scope s query kind limit).length = max 1 (min limit 100) := by
  have hsearch : search u r scope s query kind limit =
      s.hitsFor (ranking r scope s (splitQuery u query).1 fts kind (splitQuery u query).2
        (max 1 (min limit 100))) := by
    simp only [search, hfts]
    rfl
  rw [hsearch]
  generalize max 1 (min limit 100) = limit
  have hranking := @found_ranking u s F r scope kind (splitQuery u query).2 (splitQuery u query).1
    fts _ hr hv htagged limit
  rcases hranking with ⟨-, hlength, hlisted⟩
  have hfused : ∃ e ∈ fuse r ((semanticRanked r scope s (splitQuery u query).1 kind
      (s.tagFilter (splitQuery u query).2)).map Prod.fst) (fuse r (bm25Ranked r scope s fts kind
        (s.tagFilter (splitQuery u query).2)) []), e.1 = d.id := by
    rw [mem_fuse, mem_fuse]
    rcases hlike with hmatched | ⟨score, hscore, hpositive⟩
    · exact Or.inr (Or.inl (mem_bm25 hr htagged hfew hd heligible hmatched))
    · exact Or.inl (mem_semantic htagged hfew hd heligible hscore hpositive)
  rcases hfused with ⟨e, he, hid⟩
  have hin := (List.mem_insertionSort better).2 he
  rw [← List.take_append_drop limit (List.insertionSort _ _)] at hin
  rcases List.mem_append.1 hin with hin | hin
  · exact Or.inl ⟨e.2, hlisted e hin d hd hid.symm⟩
  · have hdrop := List.length_pos_of_mem hin
    rw [List.length_drop] at hdrop
    rw [hlength, ranking, List.length_take]
    exact Or.inr (by omega)

end Queries

end SearchDb

end PocketSkynet
