import Mathlib.Data.List.TakeWhile
import PocketSkynet.Lib.Hex

/-!
# Addresses

An address of a host, in version 4 or 6, as it is read from a text. A reader goes over the text
and says what is left behind what it has taken; one that fails takes nothing. The groups of
version 6 may end with an address of version 4, and one run of groups that are zero may be left
out.

Whatever is read as an address consists of digits, full stops and colons. So no address is empty,
and none has a blank or a comma in it.

## Main definitions

* `IpAddr`: An address.
* `IpAddr.readNumber`, `IpAddr.readSeparator`: A group, and one behind a separator.
* `IpAddr.readIpv4`, `IpAddr.readIpv6`: Addresses of each version.
* `IpAddr.parse`: The address that a text is.

## Theorems

* `IpAddr.chars_parse`: The characters of an address.
* `IpAddr.parse_nil`: The empty text is none.
-/

namespace PocketSkynet

inductive IpAddr where
  | v4 (octets : Vector UInt8 4)
  | v6 (segments : Vector UInt16 8)
deriving DecidableEq, Repr

namespace IpAddr

def localhost : IpAddr := .v4 #v[127, 0, 0, 1]

/-! ### Readers -/

/-- The digits of a radix. -/
def isDigit (radix : Nat) (c : Char) : Bool := (Hex.value c).any fun n => n < radix

/-- A number of so many digits at most, below a bound. -/
def readNumber (radix maxDigits bound : Nat) (allowZeroPrefix : Bool) (cs : List Char) :
    Option (Nat × List Char) :=
  let digits := cs.takeWhile (isDigit radix)
  let n := digits.foldl (fun n c => radix * n + (Hex.value c).getD 0) 0
  if digits.length = 0 ∨ maxDigits < digits.length then none
  else if !allowZeroPrefix && digits.head? == some '0' && 1 < digits.length then none
  else if n < bound then some (n, cs.dropWhile (isDigit radix))
  else none

def readGivenChar (c : Char) : List Char → Option (List Char)
  | [] => none
  | d :: cs => if d = c then some cs else none

/-- What is read behind a separator, unless it is the first. -/
def readSeparator {α : Type} (sep : Char) (index : Nat)
    (inner : List Char → Option (α × List Char)) (cs : List Char) : Option (α × List Char) :=
  if index = 0 then inner cs else (readGivenChar sep cs).bind inner

def readOctet (index : Nat) (cs : List Char) : Option (UInt8 × List Char) :=
  (readSeparator '.' index (readNumber 10 3 256 false) cs).map fun r => (UInt8.ofNat r.1, r.2)

def readIpv4 (cs : List Char) : Option (Vector UInt8 4 × List Char) := do
  let (a, cs) ← readOctet 0 cs
  let (b, cs) ← readOctet 1 cs
  let (c, cs) ← readOctet 2 cs
  let (d, cs) ← readOctet 3 cs
  return (#v[a, b, c, d], cs)

/-- The groups that are there, up to a limit, and whether they end with an address of version 4.
    The count is of those that may still come. -/
def readGroups (index : Nat) : Nat → List Char → List UInt16 × Bool × List Char
  | 0, cs => ([], false, cs)
  | left + 1, cs =>
      match if 0 < left then readSeparator ':' index readIpv4 cs else none with
      | some (quad, cs) =>
          ([UInt16.ofNat (256 * quad[0].toNat + quad[1].toNat),
            UInt16.ofNat (256 * quad[2].toNat + quad[3].toNat)], true, cs)
      | none =>
          match readSeparator ':' index (readNumber 16 4 65536 true) cs with
          | some (g, cs) =>
              let rest := readGroups (index + 1) left cs
              (UInt16.ofNat g :: rest.1, rest.2)
          | none => ([], false, cs)

/-- The groups at the beginning and at the end, with zeros between them. -/
def fill (head tail : List UInt16) : Vector UInt16 8 :=
  Vector.ofFn fun i =>
    if i < head.length then head.getD i 0
    else if 8 - tail.length ≤ i then tail.getD (i - (8 - tail.length)) 0 else 0

def readIpv6 (cs : List Char) : Option (Vector UInt16 8 × List Char) :=
  let head := readGroups 0 8 cs
  if head.1.length = 8 then some (fill head.1 [], head.2.2)
  else if head.2.1 then none
  else do
    let cs ← readGivenChar ':' head.2.2
    let cs ← readGivenChar ':' cs
    let tail := readGroups 0 (8 - (head.1.length + 1)) cs
    return (fill head.1 tail.1, tail.2.2)

def readIpAddr (cs : List Char) : Option (IpAddr × List Char) :=
  ((readIpv4 cs).map fun r => (.v4 r.1, r.2)).or ((readIpv6 cs).map fun r => (.v6 r.1, r.2))

/-- The address that a text is, from its beginning to its end. -/
def parse (text : List Char) : Option IpAddr :=
  (readIpAddr text).bind fun r => if r.2.isEmpty then some r.1 else none

example : (parse "1.2.3.4".toList, parse "1.2.3.04".toList, parse "::1".toList,
    parse "1:2:3:4:5:6:1.2.3.4".toList, parse "1::2::3".toList) =
    (some (.v4 #v[1, 2, 3, 4]), none, some (.v6 #v[0, 0, 0, 0, 0, 0, 0, 1]),
      some (.v6 #v[1, 2, 3, 4, 5, 6, 258, 772]), none) := by decide +kernel

/-! ### Characters -/

/-- A digit, a full stop or a colon. -/
def isAddrChar (c : Char) : Bool := (Hex.value c).isSome || c == '.' || c == ':'

/-- What a reader takes is in front of what it leaves, and is of an address. -/
def Takes (cs rest : List Char) : Prop :=
  ∃ front, cs = front ++ rest ∧ ∀ c ∈ front, isAddrChar c = true

theorem Takes.refl (cs : List Char) : Takes cs cs :=
  ⟨[], rfl, fun _ h => absurd h List.not_mem_nil⟩

theorem Takes.trans {cs mid rest : List Char} (h : Takes cs mid) (h' : Takes mid rest) :
    Takes cs rest := by
  rcases h with ⟨front, rfl, hfront⟩
  rcases h' with ⟨back, rfl, hback⟩
  refine ⟨front ++ back, (List.append_assoc _ _ _).symm, fun c hc => ?_⟩
  exact (List.mem_append.1 hc).elim (hfront c) (hback c)

theorem takes_readNumber {radix maxDigits bound n : Nat} {allowZeroPrefix : Bool}
    {cs rest : List Char} (h : readNumber radix maxDigits bound allowZeroPrefix cs =
      some (n, rest)) : Takes cs rest := by
  simp only [readNumber] at h
  split at h
  · cases h
  · split at h
    · cases h
    · split at h
      · rw [Option.some.injEq, Prod.mk.injEq] at h
        refine ⟨cs.takeWhile (isDigit radix), ?_, fun c hc => ?_⟩
        · rw [← h.2, List.takeWhile_append_dropWhile]
        · have hdigit := List.mem_takeWhile_imp hc
          rw [isDigit, Option.any_eq_true] at hdigit
          rcases hdigit with ⟨v, hv, -⟩
          simp [isAddrChar, hv]
      · cases h

theorem takes_readGivenChar {c : Char} {cs rest : List Char} (hc : isAddrChar c = true)
    (h : readGivenChar c cs = some rest) : Takes cs rest := by
  cases cs with
  | nil => cases h
  | cons d cs =>
      rw [readGivenChar] at h
      split at h
      · next hd =>
          rw [Option.some.injEq] at h
          refine ⟨[d], by rw [h]; rfl, fun e he => ?_⟩
          rw [List.mem_singleton.1 he, hd]
          exact hc
      · cases h

theorem takes_readSeparator {α : Type} {sep : Char} {index : Nat}
    {inner : List Char → Option (α × List Char)} {cs rest : List Char} {a : α}
    (hsep : isAddrChar sep = true)
    (hinner : ∀ cs rest a, inner cs = some (a, rest) → Takes cs rest)
    (h : readSeparator sep index inner cs = some (a, rest)) : Takes cs rest := by
  rw [readSeparator] at h
  split at h
  · exact hinner cs rest a h
  · rcases Option.bind_eq_some_iff.1 h with ⟨mid, hmid, hrest⟩
    exact (takes_readGivenChar hsep hmid).trans (hinner mid rest a hrest)

theorem takes_readOctet {index : Nat} {cs rest : List Char} {a : UInt8}
    (h : readOctet index cs = some (a, rest)) : Takes cs rest := by
  rcases Option.map_eq_some_iff.1 h with ⟨⟨n, mid⟩, hread, hmid⟩
  rw [Prod.mk.injEq] at hmid
  rw [← hmid.2]
  exact takes_readSeparator (by decide) (fun _ _ _ => takes_readNumber) hread

theorem takes_readIpv4 {cs rest : List Char} {v : Vector UInt8 4}
    (h : readIpv4 cs = some (v, rest)) : Takes cs rest := by
  rcases Option.bind_eq_some_iff.1 h with ⟨⟨a, csa⟩, ha, h⟩
  rcases Option.bind_eq_some_iff.1 h with ⟨⟨b, csb⟩, hb, h⟩
  rcases Option.bind_eq_some_iff.1 h with ⟨⟨c, csc⟩, hc, h⟩
  rcases Option.bind_eq_some_iff.1 h with ⟨⟨d, csd⟩, hd, h⟩
  cases h
  exact (takes_readOctet ha).trans
    ((takes_readOctet hb).trans ((takes_readOctet hc).trans (takes_readOctet hd)))

theorem takes_readGroups (index left : Nat) (cs : List Char) :
    Takes cs (readGroups index left cs).2.2 := by
  induction left generalizing index cs with
  | zero => exact Takes.refl cs
  | succ left ih =>
      rw [readGroups]
      split
      · next quad mid hquad =>
          split at hquad
          · exact takes_readSeparator (by decide) (fun _ _ _ => takes_readIpv4) hquad
          · cases hquad
      · split
        · next g mid hg =>
            have hfirst : Takes cs mid :=
              takes_readSeparator (by decide) (fun _ _ _ => takes_readNumber) hg
            exact hfirst.trans (ih (index + 1) mid)
        · exact Takes.refl cs

theorem takes_readIpv6 {cs rest : List Char} {v : Vector UInt16 8}
    (h : readIpv6 cs = some (v, rest)) : Takes cs rest := by
  simp only [readIpv6] at h
  split at h
  · cases h
    exact takes_readGroups 0 8 cs
  · split at h
    · cases h
    · rcases Option.bind_eq_some_iff.1 h with ⟨csa, ha, h⟩
      rcases Option.bind_eq_some_iff.1 h with ⟨csb, hb, h⟩
      cases h
      exact (takes_readGroups 0 8 cs).trans ((takes_readGivenChar (by decide) ha).trans
        ((takes_readGivenChar (by decide) hb).trans (takes_readGroups 0 _ csb)))

/-- The characters of an address. -/
theorem chars_parse {text : List Char} {a : IpAddr} (h : parse text = some a) :
    ∀ c ∈ text, isAddrChar c = true := by
  rcases Option.bind_eq_some_iff.1 h with ⟨⟨b, rest⟩, hread, hrest⟩
  have htakes : Takes text rest := by
    rcases Option.or_eq_some_iff.1 hread with hread | ⟨-, hread⟩
    · rcases Option.map_eq_some_iff.1 hread with ⟨⟨v, mid⟩, hv, hmid⟩
      cases hmid
      exact takes_readIpv4 hv
    · rcases Option.map_eq_some_iff.1 hread with ⟨⟨v, mid⟩, hv, hmid⟩
      cases hmid
      exact takes_readIpv6 hv
  rcases htakes with ⟨front, rfl, hfront⟩
  cases rest with
  | nil =>
      rw [List.append_nil]
      exact hfront
  | cons c rest => cases hrest

/-- The empty text is none. -/
theorem parse_nil : parse [] = none := by decide +kernel

end IpAddr

end PocketSkynet
