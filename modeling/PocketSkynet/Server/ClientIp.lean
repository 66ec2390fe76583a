import Mathlib.Algebra.Order.Ring.Nat
import PocketSkynet.Lib.IpAddr
import PocketSkynet.Lib.Text

/-!
# The Address of a Client

Behind proxies a request comes from the last of them. Each proxy adds the address from which the
request has come to it to a header, so the client has the `n`th entry from the right if there are
`n` proxies. The header may have several lines, and they count as one list: a proxy may add its
entry to all of them, to the last one, or in a line of its own. What stands in the header before
that is the client's.

The server reads the first line only, and none with a byte that is not a visible character. Then
it takes the address of the last proxy, or an entry that the client has written.

## Main definitions

* `clientIp`: The address to bill a request to.
* `Proxies.Adds`, `Proxies.arrive`: What becomes of a header on its way.
* `Proxies.Truthful`: Whoever the client is, its address is taken.

## Theorems

* `Proxies.entries_arrive`: The proxies' entries are the last ones of the list.
* `Proxies.truthful_iff`: The headers of which the client's address is taken.
-/

namespace PocketSkynet

/-! ### The server -/

/-- What a request has of the connection, and its lines of the header. -/
structure Forwarded where
  peer : Option IpAddr
  lines : List (List UInt8)
deriving DecidableEq, Repr

namespace Forwarded

def peerIp (req : Forwarded) : IpAddr := req.peer.getD IpAddr.localhost

end Forwarded

def isVisible (b : UInt8) : Bool := (32 ≤ b.toNat && b.toNat < 127) || b.toNat == 9

/-- The text of a header, unless some byte is not visible. -/
def headerText (line : List UInt8) : Option (List Char) :=
  if line.all isVisible then some (Hex.ascii line) else none

/-- The entries of a text, without blanks and without empty ones. -/
def hops (text : List Char) : List (List Char) :=
  ((text.splitOn ',').map trim).filter fun s => !s.isEmpty

/-- The address to bill a request to. -/
def clientIp (req : Forwarded) (trustProxy : Nat) : IpAddr :=
  if trustProxy = 0 then req.peerIp
  else
    match req.lines.head?.bind headerText with
    | none => req.peerIp
    | some forwarded =>
        let hops := hops forwarded
        let entry := if trustProxy ≤ hops.length then hops[hops.length - trustProxy]? else none
        (entry.bind IpAddr.parse).getD req.peerIp

namespace Proxies

/-! ### The proxies -/

/-- How a proxy adds its entry to the lines of a header. -/
inductive Adds where
  | join
  | extend
  | line
deriving DecidableEq, Repr

def separator : List UInt8 := Hex.ofAscii ", ".toList

/-- One line with all entries. -/
def joined : List (List UInt8) → List UInt8
  | [] => []
  | [line] => line
  | line :: lines => line ++ separator ++ joined lines

/-- The entry goes behind the last line, if there is one. -/
def extended (entry : List UInt8) : List (List UInt8) → List (List UInt8)
  | [] => [entry]
  | [line] => [line ++ separator ++ entry]
  | line :: lines => line :: extended entry lines

def Adds.add (lines : List (List UInt8)) (entry : List UInt8) : Adds → List (List UInt8)
  | .join => [joined (lines ++ [entry])]
  | .extend => extended entry lines
  | .line => lines ++ [entry]

/-- The lines that arrive, when each proxy has added what it has written. -/
def arrive (lines : List (List UInt8)) (proxies : List (Adds × List Char)) : List (List UInt8) :=
  proxies.foldl (fun lines p => p.1.add lines (Hex.ofAscii p.2)) lines

/-- How many lines there are then. -/
def linesAfter (adds : List Adds) (n : Nat) : Nat :=
  adds.foldl (fun n a => match a with
    | .join => 1
    | .extend => max n 1
    | .line => n + 1) n

/-- Whoever the client is, its address is taken: that which the first proxy has written, whatever
    the others have written and whoever the last one is. -/
def Truthful (adds : List Adds) (content : List (List UInt8)) : Prop :=
  ∀ (texts : List (List Char)) (peer client : IpAddr), texts.length = adds.length →
    (∀ t ∈ texts, (IpAddr.parse t).isSome) → texts.head?.bind IpAddr.parse = some client →
    clientIp ⟨some peer, arrive content (adds.zip texts)⟩ adds.length = client

/-! ### Entries -/

/-- The entries of all lines, whether they can be read or not. -/
def entries (lines : List (List UInt8)) : List (List Char) :=
  lines.flatMap fun line => hops (Hex.ascii line)

-- The characters of an address are neither blanks nor commas.
theorem addrChar_plain {c : Char} (h : IpAddr.isAddrChar c = true) :
    isSpace c = false ∧ c ≠ ',' ∧ 32 ≤ c.toNat ∧ c.toNat < 127 := by
  have hcode : (48 ≤ c.toNat ∧ c.toNat ≤ 57) ∨ (97 ≤ c.toNat ∧ c.toNat ≤ 102) ∨
      (65 ≤ c.toNat ∧ c.toNat ≤ 70) ∨ c.toNat = 46 ∨ c.toNat = 58 := by
    rw [IpAddr.isAddrChar, Bool.or_eq_true, Bool.or_eq_true, beq_iff_eq, beq_iff_eq] at h
    rcases h with (hvalue | rfl) | rfl
    · rw [Hex.value] at hvalue
      split at hvalue
      · next hd => exact .inl hd
      · split at hvalue
        · next hd => exact .inr (.inl hd)
        · split at hvalue
          · next hd => exact .inr (.inr (.inl hd))
          · cases hvalue
    · exact .inr (.inr (.inr (.inl rfl)))
    · exact .inr (.inr (.inr (.inr rfl)))
  refine ⟨?_, ?_, by omega, by omega⟩
  · rw [isSpace]
    simp only [Bool.or_eq_false_iff, Bool.and_eq_false_iff, decide_eq_false_iff_not,
      List.contains_eq_mem, List.mem_cons, List.not_mem_nil, or_false, not_or]
    omega
  · rintro rfl
    have hcomma : ','.toNat = 44 := by decide
    omega

theorem hops_nil : hops [] = [] := by decide

theorem hops_append (a b : List Char) : hops (a ++ ',' :: b) = hops a ++ hops b := by
  have hsplit : (a ++ ',' :: b).splitOn ',' = a.splitOn ',' ++ b.splitOn ',' :=
    List.splitOnP_append_cons a b (beq_self_eq_true ',')
  rw [hops, hsplit, List.map_append, List.filter_append, hops, hops]

-- A blank in front of an entry does not count.
theorem hops_blank (b : List Char) : hops (' ' :: b) = hops b := by
  have hne : ¬ (' ' == ',') = true := by decide
  have hspace : isSpace ' ' = true := by decide
  have htrim : ∀ piece, trim (' ' :: piece) = trim piece := by
    intro piece
    rw [trim, List.dropWhile_cons_of_pos hspace, trim]
  rw [hops, List.splitOn_cons_eq_if_modifyHead, if_neg hne, hops]
  cases b.splitOn ',' with
  | nil => rfl
  | cons piece pieces => rw [List.modifyHead_cons, List.map_cons, List.map_cons, htrim]

/-- An address is one entry. -/
theorem hops_text {t : List Char} (h : (IpAddr.parse t).isSome) :
    hops t = [t] ∧ Hex.ascii (Hex.ofAscii t) = t ∧ (Hex.ofAscii t).all isVisible = true := by
  rcases Option.isSome_iff_exists.1 h with ⟨a, ha⟩
  have hplain := fun c hc => addrChar_plain (IpAddr.chars_parse ha c hc)
  have hne : t ≠ [] := by
    rintro rfl
    rw [IpAddr.parse_nil] at ha
    cases ha
  have hsplit : t.splitOn ',' = [t] :=
    List.splitOnP_eq_singleton fun c hc => beq_eq_false_iff_ne.2 (hplain c hc).2.1
  refine ⟨?_, Hex.ascii_ofAscii fun c hc => ?_, ?_⟩
  · rw [hops, hsplit, List.map_singleton, trim_of_no_space fun c hc => (hplain c hc).1]
    simp [hne]
  · have hcode := (hplain c hc).2.2
    omega
  · rw [Hex.ofAscii, List.all_map, List.all_eq_true]
    intro c hc
    have hcode := (hplain c hc).2.2
    have hbyte : (UInt8.ofNat c.toNat).toNat = c.toNat := by
      rw [UInt8.toNat_ofNat']
      omega
    rw [Function.comp_apply, isVisible, hbyte, Bool.or_eq_true, Bool.and_eq_true,
      decide_eq_true_eq, decide_eq_true_eq]
    exact .inl hcode

theorem entries_cons (line : List UInt8) (lines : List (List UInt8)) :
    entries (line :: lines) = hops (Hex.ascii line) ++ entries lines := List.flatMap_cons

theorem entries_append (lines lines' : List (List UInt8)) :
    entries (lines ++ lines') = entries lines ++ entries lines' := List.flatMap_append

theorem entries_one (line : List UInt8) : entries [line] = hops (Hex.ascii line) := by
  rw [entries_cons, entries, List.flatMap_nil, List.append_nil]

-- What is put together with a separator keeps its entries.
theorem hops_separator (a b : List UInt8) : hops (Hex.ascii (a ++ separator ++ b)) =
    hops (Hex.ascii a) ++ hops (Hex.ascii b) := by
  have hascii : Hex.ascii (a ++ separator ++ b) = Hex.ascii a ++ ',' :: ' ' :: Hex.ascii b := by
    simp only [Hex.ascii, List.map_append, List.append_assoc]
    rfl
  rw [hascii, hops_append, hops_blank]

theorem entries_joined (lines : List (List UInt8)) :
    hops (Hex.ascii (joined lines)) = entries lines := by
  induction lines with
  | nil => exact hops_nil
  | cons line lines ih =>
      cases lines with
      | nil => exact (entries_one line).symm
      | cons next lines =>
          rw [joined, hops_separator, ih, ← entries_cons]
          exact List.cons_ne_nil _ _

theorem entries_extended (entry : List UInt8) (lines : List (List UInt8)) :
    entries (extended entry lines) = entries lines ++ hops (Hex.ascii entry) := by
  induction lines with
  | nil => exact entries_one entry
  | cons line lines ih =>
      cases lines with
      | nil => rw [extended, entries_one, hops_separator, entries_one]
      | cons next lines =>
          rw [extended, entries_cons, ih, ← List.append_assoc, ← entries_cons]
          exact List.cons_ne_nil _ _

/-- However a proxy adds its entry, it is the last one. -/
theorem entries_add (a : Adds) (lines : List (List UInt8)) (entry : List UInt8) :
    entries (a.add lines entry) = entries lines ++ hops (Hex.ascii entry) := by
  cases a with
  | join => rw [Adds.add, entries_one, entries_joined, entries_append, entries_one]
  | extend => exact entries_extended entry lines
  | line => rw [Adds.add, entries_append, entries_one]

/-- The proxies' entries are the last ones of the list. -/
theorem entries_arrive {proxies : List (Adds × List Char)} (lines : List (List UInt8))
    (h : ∀ p ∈ proxies, (IpAddr.parse p.2).isSome) :
    entries (arrive lines proxies) = entries lines ++ proxies.map Prod.snd := by
  induction proxies generalizing lines with
  | nil => rw [List.map_nil, List.append_nil]; rfl
  | cons p proxies ih =>
      rcases hops_text (h p List.mem_cons_self) with ⟨hhops, hascii, -⟩
      have hrest := ih (p.1.add lines (Hex.ofAscii p.2)) fun q hq =>
        h q (List.mem_cons_of_mem _ hq)
      rw [entries_add, hascii, hhops, List.append_assoc] at hrest
      exact hrest

/-! ### Lines -/

/-- How many entries each line has. -/
def counts (lines : List (List UInt8)) : List Nat :=
  lines.map fun line => (hops (Hex.ascii line)).length

/-- How many there are in each line, when there is one more. -/
def Adds.count (ns : List Nat) : Adds → List Nat
  | .join => [ns.sum + 1]
  | .extend => ns.dropLast ++ [(ns.getLast?.getD 0) + 1]
  | .line => ns ++ [1]

theorem length_entries (lines : List (List UInt8)) :
    (entries lines).length = (counts lines).sum := by
  rw [entries, List.length_flatMap, counts]

theorem counts_extended {entry : List UInt8} (h : (hops (Hex.ascii entry)).length = 1)
    (lines : List (List UInt8)) : counts (extended entry lines) =
      (counts lines).dropLast ++ [((counts lines).getLast?.getD 0) + 1] := by
  induction lines with
  | nil =>
      rw [extended, counts, List.map_singleton, h]
      rfl
  | cons line lines ih =>
      cases lines with
      | nil =>
          rw [extended, counts, List.map_singleton, hops_separator, List.length_append, h]
          rfl
      | cons next lines =>
          rw [extended]
          · have hrest := congrArg ((hops (Hex.ascii line)).length :: ·) ih
            simpa [counts] using hrest
          · exact List.cons_ne_nil _ _

theorem counts_add (a : Adds) {entry : List UInt8} (h : (hops (Hex.ascii entry)).length = 1)
    (lines : List (List UInt8)) : counts (a.add lines entry) = a.count (counts lines) := by
  cases a with
  | join =>
      have hsum : (hops (Hex.ascii (joined (lines ++ [entry])))).length =
          (counts lines).sum + 1 := by
        rw [entries_joined, entries_append, entries_one, List.length_append, h, length_entries]
      rw [Adds.add, counts, List.map_singleton, hsum, Adds.count]
  | extend => exact counts_extended h lines
  | line =>
      rw [Adds.add, counts, List.map_append, List.map_singleton, h]
      rfl

/-- Where the lines end does not depend on what the proxies write. -/
theorem counts_arrive {proxies : List (Adds × List Char)} (lines : List (List UInt8))
    (h : ∀ p ∈ proxies, (IpAddr.parse p.2).isSome) :
    counts (arrive lines proxies) =
      (proxies.map Prod.fst).foldl (fun ns a => a.count ns) (counts lines) := by
  induction proxies generalizing lines with
  | nil => rfl
  | cons p proxies ih =>
      rcases hops_text (h p List.mem_cons_self) with ⟨hhops, hascii, -⟩
      have hone : (hops (Hex.ascii (Hex.ofAscii p.2))).length = 1 := by
        rw [hascii, hhops]
        rfl
      rw [List.map_cons, List.foldl_cons, ← counts_add p.1 hone lines]
      exact ih _ fun q hq => h q (List.mem_cons_of_mem _ hq)

-- So the number of lines does not either.
theorem length_arrive {proxies : List (Adds × List Char)} (lines : List (List UInt8))
    (h : ∀ p ∈ proxies, (IpAddr.parse p.2).isSome) :
    (arrive lines proxies).length = linesAfter (proxies.map Prod.fst) lines.length := by
  have hcounts : ∀ (adds : List Adds) (ns : List Nat),
      (adds.foldl (fun ns a => a.count ns) ns).length = linesAfter adds ns.length := by
    intro adds
    induction adds with
    | nil => exact fun _ => rfl
    | cons a adds ih =>
        intro ns
        rw [List.foldl_cons, ih, linesAfter, linesAfter, List.foldl_cons]
        refine congrArg (fun n => linesAfter adds n) ?_
        cases a with
        | join => rfl
        | extend =>
            rw [Adds.count, List.length_append, List.length_dropLast, List.length_singleton]
            change ns.length - 1 + 1 = max ns.length 1
            omega
        | line => rw [Adds.count, List.length_append, List.length_singleton]
  have hlength := congrArg List.length (counts_arrive lines h)
  rw [hcounts, counts, List.length_map, counts, List.length_map] at hlength
  exact hlength

/-- The last line has an entry of a proxy. -/
theorem counts_last {proxies : List (Adds × List Char)} (lines : List (List UInt8))
    (h : ∀ p ∈ proxies, (IpAddr.parse p.2).isSome) (hsome : proxies ≠ []) :
    ∃ ns n, counts (arrive lines proxies) = ns ++ [n + 1] := by
  rw [counts_arrive lines h]
  have hlast := List.dropLast_concat_getLast hsome
  rw [← hlast, List.map_append, List.map_singleton, List.foldl_append, List.foldl_cons,
    List.foldl_nil]
  cases (proxies.getLast hsome).1 with
  | join => exact ⟨[], _, rfl⟩
  | extend => exact ⟨_, _, rfl⟩
  | line => exact ⟨_, 0, rfl⟩

theorem visible_append (a b : List UInt8) :
    (a ++ separator ++ b).all isVisible = true ↔
      a.all isVisible = true ∧ b.all isVisible = true := by
  have hsep : separator.all isVisible = true := by decide
  rw [List.all_append, List.all_append, hsep, Bool.and_true, Bool.and_eq_true]

theorem visible_joined (lines : List (List UInt8)) :
    (joined lines).all isVisible = true ↔ ∀ line ∈ lines, line.all isVisible = true := by
  induction lines with
  | nil => exact iff_of_true rfl fun _ h => absurd h List.not_mem_nil
  | cons line lines ih =>
      cases lines with
      | nil => rw [joined, List.forall_mem_singleton]
      | cons next lines =>
          rw [joined, visible_append, ih]
          · exact ⟨fun h => List.forall_mem_cons.2 h, fun h => List.forall_mem_cons.1 h⟩
          · exact List.cons_ne_nil _ _

theorem visible_extended {entry : List UInt8} (hentry : entry.all isVisible = true)
    (lines : List (List UInt8)) : (∀ line ∈ extended entry lines, line.all isVisible = true) ↔
      ∀ line ∈ lines, line.all isVisible = true := by
  induction lines with
  | nil =>
      rw [extended, List.forall_mem_singleton]
      exact iff_of_true hentry fun _ h => absurd h List.not_mem_nil
  | cons line lines ih =>
      cases lines with
      | nil =>
          rw [extended, List.forall_mem_singleton, visible_append, List.forall_mem_singleton]
          exact and_iff_left hentry
      | cons next lines =>
          rw [extended, List.forall_mem_cons, ih]
          · exact ⟨fun h => List.forall_mem_cons.2 h, fun h => List.forall_mem_cons.1 h⟩
          · exact List.cons_ne_nil _ _

/-- What the proxies add can be read, and changes nothing about the rest. -/
theorem visible_arrive {proxies : List (Adds × List Char)} (lines : List (List UInt8))
    (h : ∀ p ∈ proxies, (IpAddr.parse p.2).isSome) :
    (∀ line ∈ arrive lines proxies, line.all isVisible = true) ↔
      ∀ line ∈ lines, line.all isVisible = true := by
  induction proxies generalizing lines with
  | nil => exact Iff.rfl
  | cons p proxies ih =>
      have hentry := (hops_text (h p List.mem_cons_self)).2.2
      refine (ih (p.1.add lines (Hex.ofAscii p.2)) fun q hq =>
        h q (List.mem_cons_of_mem _ hq)).trans ?_
      cases p.1 with
      | join =>
          rw [Adds.add, List.forall_mem_singleton, visible_joined, List.forall_mem_append,
            List.forall_mem_singleton]
          exact and_iff_left hentry
      | extend => exact visible_extended hentry lines
      | line =>
          rw [Adds.add, List.forall_mem_append, List.forall_mem_singleton]
          exact and_iff_left hentry

/-! ### Whose address is taken -/

theorem clientIp_cons {n : Nat} (hn : n ≠ 0) (peer : IpAddr) (line : List UInt8)
    (lines : List (List UInt8)) : clientIp ⟨some peer, line :: lines⟩ n =
      if line.all isVisible then
        ((if n ≤ (hops (Hex.ascii line)).length then
          (hops (Hex.ascii line))[(hops (Hex.ascii line)).length - n]? else none).bind
            IpAddr.parse).getD peer
      else peer := by
  rw [clientIp, if_neg hn, List.head?_cons, Option.bind_some, headerText]
  by_cases hvisible : line.all isVisible = true
  · rw [if_pos hvisible, if_pos hvisible]
    rfl
  · rw [if_neg hvisible, if_neg hvisible]
    rfl

theorem map_zip {adds : List Adds} {texts : List (List Char)}
    (h : texts.length = adds.length) : (adds.zip texts).map Prod.fst = adds ∧
      (adds.zip texts).map Prod.snd = texts :=
  ⟨List.map_fst_zip (Nat.le_of_eq h.symm), List.map_snd_zip (Nat.le_of_eq h)⟩

/-- A single line that can be read tells whoever the client is. -/
theorem truthful_of_line {adds : List Adds} {content : List (List UInt8)} (hadds : adds ≠ [])
    (hline : linesAfter adds content.length = 1)
    (hvisible : ∀ line ∈ content, line.all isVisible = true) : Truthful adds content := by
  intro texts peer client hlength htexts hclient
  have hvalid : ∀ p ∈ adds.zip texts, (IpAddr.parse p.2).isSome := fun p hp =>
    htexts p.2 (List.of_mem_zip hp).2
  have hentries := entries_arrive content hvalid
  have hcount := length_arrive content hvalid
  have hread := (visible_arrive content hvalid).2 hvisible
  rw [(map_zip hlength).2] at hentries
  rw [(map_zip hlength).1, hline] at hcount
  rcases List.length_eq_one_iff.1 hcount with ⟨line, hone⟩
  rw [hone, entries_one] at hentries
  rw [hone, List.forall_mem_singleton] at hread
  have hpos : adds.length ≠ 0 := fun h => hadds (List.length_eq_zero_iff.1 h)
  rw [hone, clientIp_cons hpos, if_pos hread, hentries, List.length_append, hlength,
    if_pos (Nat.le_add_left _ _), Nat.add_sub_cancel,
    List.getElem?_append_right (Nat.le_refl _), Nat.sub_self, ← List.head?_eq_getElem?, hclient]
  rfl

/-- The entry that is taken, when it is not the peer. -/
theorem taken_of_ne {adds : List Adds} {content : List (List UInt8)} {t : List Char}
    {client : IpAddr} (peer : IpAddr) (hadds : adds ≠ []) (h : Truthful adds content)
    (ht : IpAddr.parse t = some client) (hne : client ≠ peer) :
    ∃ line lines, arrive content (adds.zip (List.replicate adds.length t)) = line :: lines ∧
      line.all isVisible = true ∧ adds.length ≤ (hops (Hex.ascii line)).length ∧
      ((hops (Hex.ascii line))[(hops (Hex.ascii line)).length - adds.length]?).bind
        IpAddr.parse = some client := by
  have hpos : adds.length ≠ 0 := fun h => hadds (List.length_eq_zero_iff.1 h)
  have hhead : (List.replicate adds.length t).head?.bind IpAddr.parse = some client := by
    rw [List.head?_replicate, if_neg hpos, Option.bind_some, ht]
  have hip := h (List.replicate adds.length t) peer client List.length_replicate
    (fun u hu => by rw [List.eq_of_mem_replicate hu, ht]; rfl) hhead
  cases hlines : arrive content (adds.zip (List.replicate adds.length t)) with
  | nil =>
      rw [hlines, clientIp, if_neg hpos] at hip
      exact absurd hip.symm hne
  | cons line lines =>
      rw [hlines, clientIp_cons hpos] at hip
      by_cases hvisible : line.all isVisible = true
      · rw [if_pos hvisible] at hip
        by_cases hle : adds.length ≤ (hops (Hex.ascii line)).length
        · rw [if_pos hle] at hip
          refine ⟨line, lines, rfl, hvisible, hle, ?_⟩
          cases hentry : ((hops (Hex.ascii line))[(hops (Hex.ascii line)).length -
              adds.length]?).bind IpAddr.parse with
          | none =>
              rw [hentry] at hip
              exact absurd hip.symm hne
          | some a =>
              rw [hentry] at hip
              exact congrArg some hip
        · rw [if_neg hle] at hip
          exact absurd hip.symm hne
      · rw [if_neg hvisible] at hip
        exact absurd hip.symm hne

/-- Where there are more lines, the entry that is taken does not come from the proxies. -/
theorem taken_of_lines {adds : List Adds} {content : List (List UInt8)} {t : List Char}
    {line : List UInt8} {lines : List (List UInt8)} (hadds : adds ≠ [])
    (ht : (IpAddr.parse t).isSome) (hmore : lines ≠ [])
    (harrive : arrive content (adds.zip (List.replicate adds.length t)) = line :: lines)
    (hle : adds.length ≤ (hops (Hex.ascii line)).length) :
    (hops (Hex.ascii line))[(hops (Hex.ascii line)).length - adds.length]? =
      (entries content)[(hops (Hex.ascii line)).length - adds.length]? := by
  have hvalid : ∀ p ∈ adds.zip (List.replicate adds.length t), (IpAddr.parse p.2).isSome := by
    intro p hp
    rw [List.eq_of_mem_replicate (List.of_mem_zip hp).2]
    exact ht
  have hlength : (List.replicate adds.length t).length = adds.length := List.length_replicate
  have hentries := entries_arrive content hvalid
  rw [harrive, (map_zip hlength).2, entries_cons] at hentries
  -- The last line holds an entry, so the first one does not hold them all.
  have hrest : 0 < (entries lines).length := by
    have hzip : adds.zip (List.replicate adds.length t) ≠ [] := by
      intro hnil
      have hfst := congrArg (List.map Prod.fst) hnil
      rw [(map_zip hlength).1, List.map_nil] at hfst
      exact hadds hfst
    rcases counts_last content hvalid hzip with ⟨ns, n, hcounts⟩
    rw [harrive, counts, List.map_cons] at hcounts
    rw [length_entries, counts]
    cases ns with
    | nil =>
        rw [List.nil_append] at hcounts
        exact absurd (List.map_eq_nil_iff.1 (List.cons.inj hcounts).2) hmore
    | cons m ns =>
        rw [List.cons_append] at hcounts
        rw [(List.cons.inj hcounts).2, List.sum_append, List.sum_singleton]
        omega
  have hpos : 0 < adds.length := List.length_pos_iff.2 hadds
  have htotal := congrArg List.length hentries
  rw [List.length_append, List.length_append, List.length_replicate] at htotal
  have hfirst : (hops (Hex.ascii line) ++ entries lines)[(hops (Hex.ascii line)).length -
      adds.length]? = (hops (Hex.ascii line))[(hops (Hex.ascii line)).length - adds.length]? :=
    List.getElem?_append_left (by omega)
  rw [← hfirst, hentries, List.getElem?_append_left (by omega)]

/-- The headers of which the client's address is taken: they arrive in one line, and the client has
    sent no byte that is not visible. -/
theorem truthful_iff (adds : List Adds) (content : List (List UInt8)) (hadds : adds ≠ []) :
    Truthful adds content ↔
      linesAfter adds content.length = 1 ∧ ∀ line ∈ content, line.all isVisible = true := by
  refine ⟨fun h => ?_, fun h => truthful_of_line hadds h.1 h.2⟩
  -- Two clients, neither of which is the last proxy.
  have hone : IpAddr.parse "0.0.0.1".toList = some (.v4 #v[0, 0, 0, 1]) := by decide +kernel
  have htwo : IpAddr.parse "0.0.0.2".toList = some (.v4 #v[0, 0, 0, 2]) := by decide +kernel
  rcases taken_of_ne (.v4 #v[0, 0, 0, 0]) hadds h hone (by decide) with
    ⟨line, lines, harrive, hvisible, hle, hentry⟩
  rcases taken_of_ne (.v4 #v[0, 0, 0, 0]) hadds h htwo (by decide) with
    ⟨line', lines', harrive', -, hle', hentry'⟩
  have hvalid : ∀ t, (IpAddr.parse t).isSome → ∀ p ∈ adds.zip (List.replicate adds.length t),
      (IpAddr.parse p.2).isSome := by
    intro t ht p hp
    rw [List.eq_of_mem_replicate (List.of_mem_zip hp).2]
    exact ht
  have hsome : (IpAddr.parse "0.0.0.1".toList).isSome := by rw [hone]; rfl
  have hsome' : (IpAddr.parse "0.0.0.2".toList).isSome := by rw [htwo]; rfl
  have hlength : ∀ t : List Char, (List.replicate adds.length t).length = adds.length :=
    fun _ => List.length_replicate
  have hlines : lines = [] := by
    by_contra hmore
    -- Then both find the same entry, for the lines do not depend on who they are.
    have hcounts := counts_arrive content (hvalid _ hsome)
    have hcounts' := counts_arrive content (hvalid _ hsome')
    rw [(map_zip (hlength _)).1, harrive] at hcounts
    rw [(map_zip (hlength _)).1, harrive', ← hcounts, counts, counts, List.map_cons,
      List.map_cons] at hcounts'
    have hcount := (List.cons.inj hcounts').1
    have hmore' : lines' ≠ [] := by
      rintro rfl
      exact hmore (List.map_eq_nil_iff.1 (List.cons.inj hcounts').2.symm)
    rw [taken_of_lines hadds hsome hmore harrive hle] at hentry
    rw [taken_of_lines hadds hsome' hmore' harrive' hle', hcount, hentry] at hentry'
    exact absurd hentry' (by decide)
  have hcount := length_arrive content (hvalid _ hsome)
  rw [(map_zip (hlength _)).1, harrive, hlines] at hcount
  refine ⟨hcount.symm, (visible_arrive content (hvalid _ hsome)).1 ?_⟩
  rw [harrive, hlines, List.forall_mem_singleton]
  exact hvisible

theorem truthful_twoProxies : Truthful [.join, .extend] [Hex.ofAscii "6.6.6.6".toList, []] ↔
    linesAfter [.join, .extend] 2 = 1 ∧
      ∀ line ∈ [Hex.ofAscii "6.6.6.6".toList, []], line.all isVisible = true :=
  truthful_iff [.join, .extend] [Hex.ofAscii "6.6.6.6".toList, []] (by decide)

/-- A proxy that adds a line leaves the client's line in front, so the client is whom it says. And
    with a byte that cannot be read the client is the proxy. -/
theorem client_spoofs :
    clientIp ⟨some IpAddr.localhost,
        arrive [Hex.ofAscii "6.6.6.6".toList] [(.line, "0.0.0.1".toList)]⟩ 1 =
      .v4 #v[6, 6, 6, 6] ∧
    clientIp ⟨some IpAddr.localhost, arrive [[255]] [(.join, "0.0.0.1".toList)]⟩ 1 =
      IpAddr.localhost ∧
    ¬ ∀ (adds : List Adds) (content : List (List UInt8)), adds ≠ [] → Truthful adds content := by
  refine ⟨by decide +kernel, by decide +kernel, fun h => ?_⟩
  have hip := h [.join] [[255]] (by decide) ["0.0.0.1".toList] IpAddr.localhost
    (.v4 #v[0, 0, 0, 1]) rfl (by decide +kernel) (by decide +kernel)
  revert hip
  decide +kernel

end Proxies

end PocketSkynet
