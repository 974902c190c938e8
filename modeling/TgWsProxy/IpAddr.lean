import Mathlib.Data.List.TakeWhile
import TgWsProxy.Io

/-!
# IP addresses

The text form of an `IpAddr`, as the standard library reads it: a dotted quad
without leading zeros, or eight hexadecimal groups of which one run may be left
out and the last two may be a dotted quad. A reader takes characters off the front
and gives up without taking any.
-/

namespace TgWsProxy

/-- `IpAddr`. -/
inductive IpAddr
  | v4 (a b c d : UInt8)
  | v6 (groups : { groups : List UInt16 // groups.length = 8 })
  deriving DecidableEq

namespace IpAddr

/-- `char::to_digit`. -/
def digit (radix : Nat) (c : Char) : Option Nat :=
  let value :=
    if c.isDigit then some (c.toNat - 48)
    else if 'a' ≤ c ∧ c ≤ 'z' then some (c.toNat - 87)
    else if 'A' ≤ c ∧ c ≤ 'Z' then some (c.toNat - 55)
    else none
  value.filter (· < radix)

/-- A number of at most so many digits, below `bound`. -/
def readNumber (radix maxDigits bound : Nat) (zeroPrefix : Bool) (s : List Char) :
    Option (Nat × List Char) :=
  let digits := s.takeWhile fun c => (digit radix c).isSome
  let value := digits.foldl (fun value c => value * radix + (digit radix c).getD 0) 0
  if digits = [] ∨ digits.length > maxDigits then none
  else if zeroPrefix = false ∧ s.head? = some '0' ∧ digits.length > 1 then none
  else if value < bound then some (value, s.drop digits.length)
  else none

/-- One given character. -/
def readGivenChar (given : Char) : List Char → Option (List Char)
  | [] => none
  | c :: s => if c = given then some s else none

/-- An element of a list, behind a separator where it is not the first. -/
def readSeparator {α : Type} (separator : Char) (index : Nat)
    (inner : List Char → Option (α × List Char)) (s : List Char) : Option (α × List Char) :=
  if index > 0 then (readGivenChar separator s).bind inner else inner s

/-- One number of a dotted quad. -/
def readOctet (index : Nat) (s : List Char) : Option (Nat × List Char) :=
  readSeparator '.' index (readNumber 10 3 256 false) s

/-- Four numbers with dots between them. -/
def readIpv4 (s : List Char) : Option ((Nat × Nat × Nat × Nat) × List Char) := do
  let (a, s) ← readOctet 0 s
  let (b, s) ← readOctet 1 s
  let (c, s) ← readOctet 2 s
  let (d, s) ← readOctet 3 s
  some ((a, b, c, d), s)

/-- At most `left` further groups behind `index` others, whether the last two were a dotted
quad, and what follows. -/
def readGroups : Nat → Nat → List Char → List UInt16 × Bool × List Char
  | 0, _, s => ([], false, s)
  | left + 1, index, s =>
    match if 0 < left then readSeparator ':' index readIpv4 s else none with
    | some ((a, b, c, d), s) =>
      ([UInt16.ofNat (a * 256 + b), UInt16.ofNat (c * 256 + d)], true, s)
    | none =>
      match readSeparator ':' index (readNumber 16 4 65536 true) s with
      | none => ([], false, s)
      | some (group, s) =>
        let (groups, ipv4, s) := readGroups left (index + 1) s
        (UInt16.ofNat group :: groups, ipv4, s)

/-- No more groups are read than there is room for. -/
theorem length_readGroups (left index : Nat) (s : List Char) :
    (readGroups left index s).1.length ≤ left := by
  fun_induction readGroups left index s with
  | case1 => exact Nat.le_refl _
  | case2 left index s a b c d rest hquad =>
    have hleft : 0 < left := by
      by_contra hzero
      rw [if_neg hzero] at hquad
      cases hquad
    simp only [List.length_cons, List.length_nil]
    omega
  | case3 => exact Nat.zero_le _
  | case4 left index s hquad group rest hgroup groups ipv4 rest' hgroups ih =>
    rw [hgroups] at ih
    exact Nat.succ_le_succ ih

/-- Eight groups, or fewer around one `::`. -/
def readIpv6 (s : List Char) : Option (IpAddr × List Char) :=
  let head := readGroups 8 0 s
  if h : head.1.length = 8 then some (.v6 ⟨head.1, h⟩, head.2.2)
  -- a dotted quad is not allowed before `::`
  else if head.2.1 then none
  else do
    let s ← readGivenChar ':' head.2.2
    let s ← readGivenChar ':' s
    let tail := readGroups (8 - (head.1.length + 1)) 0 s
    some (.v6 ⟨head.1 ++ List.replicate (8 - head.1.length - tail.1.length) 0 ++ tail.1, by
      have hhead : head.1.length ≤ 8 := length_readGroups 8 0 _
      have htail : tail.1.length ≤ 8 - (head.1.length + 1) := length_readGroups _ 0 s
      rw [List.length_append, List.length_append, List.length_replicate]
      omega⟩, tail.2.2)

/-- `IpAddr::from_str`: the whole text is one address. -/
def parse (text : String) : Option IpAddr :=
  let address : Option (IpAddr × List Char) :=
    match readIpv4 text.toList with
    | some ((a, b, c, d), s) =>
      some (.v4 (UInt8.ofNat a) (UInt8.ofNat b) (UInt8.ofNat c) (UInt8.ofNat d), s)
    | none => readIpv6 text.toList
  (address.filter (·.2.isEmpty)).map (·.1)

example : parse "149.154.167.220" = some (.v4 149 154 167 220) := by decide

example : parse "::ffff:10.0.0.1" =
    some (.v6 ⟨[0, 0, 0, 0, 0, 0xffff, 0x0a00, 1], rfl⟩) := by decide

/-! ## The characters of an address -/

/-- A hexadecimal digit or a separator. -/
def IsAddressChar (c : Char) : Prop := (digit 16 c).isSome ∨ c = '.' ∨ c = ':'

/-- What is taken off the front is of such characters. -/
def Takes (s rest : List Char) : Prop := ∃ front, s = front ++ rest ∧ ∀ c ∈ front, IsAddressChar c

/-- Nothing is taken. -/
theorem Takes.refl (s : List Char) : Takes s s := ⟨[], rfl, nofun⟩

/-- Readers in sequence take what both take. -/
theorem Takes.trans {s t u : List Char} (h : Takes s t) (h' : Takes t u) : Takes s u := by
  obtain ⟨front, rfl, hfront⟩ := h
  obtain ⟨front', rfl, hfront'⟩ := h'
  exact ⟨front ++ front', (List.append_assoc ..).symm, List.forall_mem_append.mpr ⟨hfront, hfront'⟩⟩

/-- A reader that takes only such characters. -/
def Reads {α : Type} (reader : List Char → Option (α × List Char)) : Prop :=
  ∀ {s a rest}, reader s = some (a, rest) → Takes s rest

private theorem digit_isSome_mono {radix : Nat} (hradix : radix ≤ 16) {c : Char}
    (h : (digit radix c).isSome) : (digit 16 c).isSome := by
  simp only [digit, Option.isSome_filter, Option.any_eq_true, decide_eq_true_eq] at h ⊢
  obtain ⟨value, hvalue, hlt⟩ := h
  exact ⟨value, hvalue, Nat.lt_of_lt_of_le hlt hradix⟩

private theorem reads_readNumber {radix maxDigits bound : Nat} {zeroPrefix : Bool}
    (hradix : radix ≤ 16) :
    Reads (readNumber radix maxDigits bound zeroPrefix) := by
  intro s value rest h
  rw [readNumber] at h
  split_ifs at h
  obtain ⟨-, rfl⟩ := Prod.mk.inj (Option.some.inj h)
  refine ⟨s.takeWhile fun c => (digit radix c).isSome, ?_, fun c hc => ?_⟩
  · exact (List.prefix_iff_eq_append.mp (List.takeWhile_prefix _)).symm
  · have hdigit := List.mem_takeWhile_imp (p := fun c => (digit radix c).isSome) hc
    exact .inl (digit_isSome_mono hradix hdigit)

private theorem takes_readGivenChar {given : Char} {s rest : List Char}
    (hgiven : IsAddressChar given)
    (h : readGivenChar given s = some rest) : Takes s rest := by
  cases s with
  | nil => cases h
  | cons c s =>
    rw [readGivenChar] at h
    split at h
    · next heq =>
      obtain rfl := Option.some.inj h
      exact ⟨[c], rfl, fun d hd => (List.mem_singleton.mp hd).trans heq ▸ hgiven⟩
    · cases h

private theorem reads_readSeparator {α : Type} {separator : Char} {index : Nat}
    {inner : List Char → Option (α × List Char)} (hseparator : IsAddressChar separator)
    (hinner : Reads inner) : Reads (readSeparator separator index inner) := by
  intro s a rest h
  rw [readSeparator] at h
  split at h
  · obtain ⟨s', hgiven, hrest⟩ := Option.bind_eq_some_iff.mp h
    exact (takes_readGivenChar hseparator hgiven).trans (hinner hrest)
  · exact hinner h

private theorem reads_readOctet {index : Nat} : Reads (readOctet index) :=
  reads_readSeparator (.inr (.inl rfl)) (reads_readNumber (by decide))

private theorem reads_readIpv4 : Reads readIpv4 := by
  intro s value rest h
  obtain ⟨⟨a, s₁⟩, ha, h⟩ := Option.bind_eq_some_iff.mp h
  obtain ⟨⟨b, s₂⟩, hb, h⟩ := Option.bind_eq_some_iff.mp h
  obtain ⟨⟨c, s₃⟩, hc, h⟩ := Option.bind_eq_some_iff.mp h
  obtain ⟨⟨d, s₄⟩, hd, h⟩ := Option.bind_eq_some_iff.mp h
  obtain ⟨-, rfl⟩ := Prod.mk.inj (Option.some.inj h)
  exact (reads_readOctet ha).trans ((reads_readOctet hb).trans
    ((reads_readOctet hc).trans (reads_readOctet hd)))

private theorem takes_readGroups (left index : Nat) (s : List Char) :
    Takes s (readGroups left index s).2.2 := by
  have hcolon : IsAddressChar ':' := .inr (.inr rfl)
  fun_induction readGroups left index s with
  | case1 => exact .refl _
  | case2 left index s a b c d rest hquad =>
    split at hquad
    · exact reads_readSeparator hcolon reads_readIpv4 hquad
    · cases hquad
  | case3 => exact .refl _
  | case4 left index s hquad group rest hgroup groups ipv4 rest' hgroups ih =>
    rw [hgroups] at ih
    exact (reads_readSeparator hcolon (reads_readNumber (by decide)) hgroup).trans ih

private theorem reads_readIpv6 : Reads readIpv6 := by
  intro s address rest h
  have hhead := takes_readGroups 8 0 s
  have hcolon : IsAddressChar ':' := .inr (.inr rfl)
  rw [readIpv6] at h
  dsimp only at h
  split at h
  · obtain ⟨-, rfl⟩ := Prod.mk.inj (Option.some.inj h)
    exact hhead
  · split at h
    · cases h
    · obtain ⟨s₁, h₁, h⟩ := Option.bind_eq_some_iff.mp h
      obtain ⟨s₂, h₂, h⟩ := Option.bind_eq_some_iff.mp h
      obtain ⟨-, rfl⟩ := Prod.mk.inj (Option.some.inj h)
      exact hhead.trans ((takes_readGivenChar hcolon h₁).trans
        ((takes_readGivenChar hcolon h₂).trans (takes_readGroups _ 0 s₂)))

/-- An address is written in hexadecimal digits and separators. -/
theorem isAddressChar_of_parse {text : String} {address : IpAddr} (h : parse text = some address) :
    ∀ c ∈ text.toList, IsAddressChar c := by
  obtain ⟨⟨address', rest⟩, h, -⟩ := Option.map_eq_some_iff.mp h
  obtain ⟨h, hempty⟩ := Option.filter_eq_some_iff.mp h
  have htakes : Takes text.toList rest := by
    split at h
    · next hquad =>
      obtain ⟨-, rfl⟩ := Prod.mk.inj (Option.some.inj h)
      exact reads_readIpv4 hquad
    · exact reads_readIpv6 h
  obtain rfl : rest = [] := List.isEmpty_iff.mp hempty
  obtain ⟨front, hfront, hchars⟩ := htakes
  rwa [hfront, List.append_nil]

end IpAddr

end TgWsProxy
