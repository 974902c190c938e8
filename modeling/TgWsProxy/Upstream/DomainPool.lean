import Mathlib.Algebra.Group.Nat.Defs
import TgWsProxy.Core.Utf8
import TgWsProxy.Upstream.FallbackDomains

/-!
# The text of a domain list

`parse_domain_pool` from the bytes of the text on, with the arithmetic of the machine: the loop of
its iterators stops at 128 names and keeps a set of what it has seen, the letters are turned in a
byte and a word, and `valid_domain` is the function of `upstream.rs`. It does what
`Upstream.parseDomainPool` says, and no operation overflows.
-/

namespace TgWsProxy.Upstream.DomainPool

open TgWsProxy.Core

/-! ## Checked arithmetic -/

/-- A subtraction that does not go below zero. -/
def checkedSub8 (a b : UInt8) : Option UInt8 := if b ≤ a then some (a - b) else none

/-- An addition that fits in a byte. -/
def checkedAdd8 (a b : UInt8) : Option UInt8 :=
  if a.toNat + b.toNat < 2 ^ 8 then some (a + b) else none

def checkedSub64 (a b : UInt64) : Option UInt64 := if b ≤ a then some (a - b) else none

def checkedAdd64 (a b : UInt64) : Option UInt64 :=
  if a.toNat + b.toNat < 2 ^ 64 then some (a + b) else none

/-! ## Names -/

/-- `is_ascii_lowercase`. -/
def isLower (b : UInt8) : Bool := 97 ≤ b && b ≤ 122

/-- `is_ascii_alphabetic`. -/
def isLetter (b : UInt8) : Bool := isLower b || (65 ≤ b && b ≤ 90)

/-- The letter that `decode_domain` puts in the place of a letter. -/
def rotate (shift : UInt64) (b : UInt8) : Option UInt8 := do
  let base : UInt8 := if isLower b then 97 else 65
  let offset ← checkedSub8 b base
  let turned ← checkedAdd64 offset.toUInt64 26
  let back ← checkedSub64 turned shift
  checkedAdd8 base (back.toUInt8 % 26)

/-- The character in the place of a byte. -/
def decodeByte (shift : UInt64) (b : UInt8) : Option Char :=
  if isLetter b then (rotate shift b).map asciiChar else some (asciiChar b)

/-- `decode_domain`; what it counts are bytes in memory, so the count fits in a word. -/
def decodeDomain (line : List Char) : Option (List Char) :=
  if ".com".toList <:+ line then
    let body := encodeUtf8 (line.take (line.length - 4))
    let shift := UInt64.ofNat (body.countP isLetter % 26)
    (body.mapM (decodeByte shift)).map (· ++ ".co.uk".toList)
  else some line

/-- A label that `valid_domain` turns down. -/
def badLabel (label : List Char) : Bool :=
  label.isEmpty || (encodeUtf8 label).length > 63 || label.head? = some '-' ||
    label.getLast? = some '-' ||
    !(encodeUtf8 label).all fun b => isLetter b || (48 ≤ b && b ≤ 57) || b = 45

/-- `valid_domain` of `upstream.rs`. -/
def validDomain (domain : String) : Bool :=
  let text := domain.toList
  if (encodeUtf8 text).length > 253 ∨ '.' ∉ text then false
  else
    let labels := text.splitOn '.'
    if labels.any badLabel then false
    else
      let last := labels.getLastD []
      (encodeUtf8 last).length ≥ 2 && (encodeUtf8 last).any isLetter

/-! ## The pool -/

/-- A line without the carriage return at its end. -/
def stripReturn (line : List Char) : List Char :=
  if line.getLast? = some '\r' then line.dropLast else line

/-- `str::lines`: what is behind the last line feed is a line where it is not empty. -/
def lines (text : List Char) : List (List Char) :=
  let pieces := text.splitOn '\n'
  let last := pieces.getLastD []
  pieces.dropLast.map stripReturn ++ if last = [] then [] else [last]

/-- Whether a trimmed line has a name. -/
def isName (line : List Char) : Bool := !line.isEmpty && line.head? ≠ some '#'

/-- The iterators of `parse_domain_pool`, with so many names still to be taken. -/
def collect : Nat → List String → List (List Char) → Option (List String)
  | 0, _, _ => some []
  | _, _, [] => some []
  | room + 1, seen, line :: lines =>
    if isName (trim line) then do
      let name := String.ofList (← decodeDomain ((trim line).map Char.toLower))
      if validDomain name ∧ name ∉ seen then
        (collect room (name :: seen) lines).map (name :: ·)
      else collect (room + 1) seen lines
    else collect (room + 1) seen lines

/-- `parse_domain_pool`; none where an operation overflows. -/
def parseDomainPool (text : String) : Option (List String) := collect 128 [] (lines text.toList)

/-! ## Operations that do not overflow -/

private theorem checkedSub8_of_le {a b : UInt8} (h : b.toNat ≤ a.toNat) :
    ∃ r, checkedSub8 a b = some r ∧ r.toNat = a.toNat - b.toNat :=
  ⟨a - b, if_pos (UInt8.le_iff_toNat_le.mpr h),
    UInt8.toNat_sub_of_le _ _ (UInt8.le_iff_toNat_le.mpr h)⟩

private theorem checkedAdd8_of_lt {a b : UInt8} (h : a.toNat + b.toNat < 2 ^ 8) :
    ∃ r, checkedAdd8 a b = some r ∧ r.toNat = a.toNat + b.toNat :=
  ⟨a + b, if_pos h, by rw [UInt8.toNat_add, Nat.mod_eq_of_lt h]⟩

private theorem checkedSub64_of_le {a b : UInt64} (h : b.toNat ≤ a.toNat) :
    ∃ r, checkedSub64 a b = some r ∧ r.toNat = a.toNat - b.toNat :=
  ⟨a - b, if_pos (UInt64.le_iff_toNat_le.mpr h),
    UInt64.toNat_sub_of_le _ _ (UInt64.le_iff_toNat_le.mpr h)⟩

private theorem checkedAdd64_of_lt {a b : UInt64} (h : a.toNat + b.toNat < 2 ^ 64) :
    ∃ r, checkedAdd64 a b = some r ∧ r.toNat = a.toNat + b.toNat :=
  ⟨a + b, if_pos h, by rw [UInt64.toNat_add, Nat.mod_eq_of_lt h]⟩

/-! ## Letters -/

private theorem isLower_iff {b : UInt8} : isLower b = true ↔ 97 ≤ b.toNat ∧ b.toNat ≤ 122 := by
  simp [isLower, UInt8.le_iff_toNat_le]

private theorem isLetter_iff {b : UInt8} : isLetter b = true ↔
    97 ≤ b.toNat ∧ b.toNat ≤ 122 ∨ 65 ≤ b.toNat ∧ b.toNat ≤ 90 := by
  simp [isLetter, isLower, UInt8.le_iff_toNat_le]

/-- The first letter of its case. -/
def base (b : UInt8) : Nat := if isLower b then 97 else 65

/-- A letter is lower case above `a` or upper case above `A`. -/
theorem base_cases {b : UInt8} (h : isLetter b) :
    isLower b = true ∧ base b = 97 ∧ 97 ≤ b.toNat ∧ b.toNat ≤ 122 ∨
      isLower b = false ∧ base b = 65 ∧ 65 ≤ b.toNat ∧ b.toNat ≤ 90 := by
  rw [base]
  cases hlower : isLower b with
  | true => exact .inl ⟨rfl, rfl, isLower_iff.mp hlower⟩
  | false =>
    refine .inr ⟨rfl, rfl, (isLetter_iff.mp h).resolve_left fun hrange => ?_⟩
    cases hlower.symm.trans (isLower_iff.mpr hrange)

/-- No step of the turn overflows, and the letter stays in the alphabet of its case. -/
theorem rotate_spec {shift : UInt64} (hshift : shift.toNat < 26) {b : UInt8} (hb : isLetter b) :
    ∃ r, rotate shift b = some r ∧ r.toNat = base b + (b.toNat - base b + 26 - shift.toNat) % 26 ∧
      isLetter r ∧ isLower r = isLower b := by
  have hcases := base_cases hb
  have hle : base b ≤ b.toNat := by omega
  have hsmall : base b ≤ 97 := by omega
  have hbase : (if isLower b then 97 else 65 : UInt8).toNat = base b := by
    rw [base]
    split <;> rfl
  obtain ⟨offset, hoffset, hoffsetNat⟩ := checkedSub8_of_le (hbase ▸ hle)
  rw [hbase] at hoffsetNat
  have hword : offset.toUInt64.toNat = offset.toNat := UInt8.toNat_toUInt64 ..
  have h26 : (26 : UInt64).toNat = 26 := rfl
  obtain ⟨turned, hturned, hturnedNat⟩ :=
    checkedAdd64_of_lt (a := offset.toUInt64) (b := 26) (by omega)
  obtain ⟨back, hback, hbackNat⟩ := checkedSub64_of_le (a := turned) (b := shift) (by omega)
  have hmod : (back.toUInt8 % 26).toNat = back.toNat % 26 := by
    rw [UInt8.toNat_mod, UInt64.toNat_toUInt8, Nat.mod_eq_of_lt (show back.toNat < 2 ^ 8 by omega)]
    rfl
  obtain ⟨r, hr, hrNat⟩ := checkedAdd8_of_lt (a := if isLower b then 97 else 65)
    (b := back.toUInt8 % 26) (by omega)
  have hvalue : r.toNat = base b + (b.toNat - base b + 26 - shift.toNat) % 26 := by
    rw [hrNat, hbase, hmod, hbackNat, hturnedNat, hword, hoffsetNat, h26]
  refine ⟨r, ?_, hvalue, ?_, ?_⟩
  · simp only [rotate, hoffset, hturned, hback, hr, Option.bind_eq_bind, Option.bind_some]
  · rw [isLetter_iff]
    omega
  · rw [Bool.eq_iff_iff, isLower_iff, isLower_iff]
    omega

private theorem char_isLower_iff {c : Char} : c.isLower = true ↔ 97 ≤ c.toNat ∧ c.toNat ≤ 122 := by
  have hval : c.val.toNat = c.toNat := rfl
  have hlower : c.isLower = (decide (97 ≤ c.val) && decide (c.val ≤ 122)) := rfl
  simp [hlower, UInt32.le_iff_toNat_le, hval]

private theorem isAlpha_iff {c : Char} : c.isAlpha = true ↔
    97 ≤ c.toNat ∧ c.toNat ≤ 122 ∨ 65 ≤ c.toNat ∧ c.toNat ≤ 90 := by
  have hval : c.val.toNat = c.toNat := rfl
  have hupper : c.isUpper = decide (65 ≤ c.val ∧ c.val ≤ 90) := rfl
  have halpha : c.isAlpha = (c.isUpper || c.isLower) := rfl
  rw [halpha, Bool.or_eq_true, char_isLower_iff, or_comm, hupper]
  simp [UInt32.le_iff_toNat_le, hval]

/-- A letter is its byte. -/
theorem utf8EncodeChar_letter {c : Char} (h : c.isAlpha) :
    String.utf8EncodeChar c = [UInt8.ofNat c.toNat] ∧ (UInt8.ofNat c.toNat).toNat = c.toNat := by
  have hrange := isAlpha_iff.mp h
  refine ⟨utf8EncodeChar_ascii (by omega), ?_⟩
  rw [UInt8.toNat_ofNat']
  omega

/-- Other characters have no byte of a letter. -/
theorem isLetter_of_mem {c : Char} (h : ¬c.isAlpha) {b : UInt8} (hb : b ∈ String.utf8EncodeChar c) :
    isLetter b = false := by
  by_contra hletter
  have hrange := isLetter_iff.mp (Bool.not_eq_false _ |>.mp hletter)
  have hchar := (mem_utf8EncodeChar (by omega)).mp hb
  exact h (isAlpha_iff.mpr (by omega))

/-- The letters among the bytes are those among the characters. -/
theorem countP_encodeUtf8 (text : List Char) :
    (encodeUtf8 text).countP isLetter = (text.filter Char.isAlpha).length := by
  induction text with
  | nil => rfl
  | cons c text ih =>
    rw [encodeUtf8_cons, List.countP_append, ih]
    by_cases hc : c.isAlpha
    · obtain ⟨hbytes, hvalue⟩ := utf8EncodeChar_letter hc
      have hletter : isLetter (UInt8.ofNat c.toNat) := by
        rw [isLetter_iff, hvalue]
        exact isAlpha_iff.mp hc
      rw [hbytes, List.countP_singleton, if_pos hletter, List.filter_cons_of_pos hc,
        List.length_cons, Nat.add_comm]
    · have hnone : (String.utf8EncodeChar c).countP isLetter = 0 :=
        List.countP_eq_zero.mpr fun b hb => Bool.not_eq_true _ |>.mpr (isLetter_of_mem hc hb)
      rw [hnone, List.filter_cons_of_neg hc, Nat.zero_add]

private theorem mapM_eq_map {α β : Type} {f : α → Option β} {g : α → β} {l : List α}
    (h : ∀ a ∈ l, f a = some (g a)) : l.mapM f = some (l.map g) := by
  induction l with
  | nil => rfl
  | cons a l ih =>
    obtain ⟨ha, hl⟩ := List.forall_mem_cons.mp h
    rw [List.mapM_cons, ha, ih hl]
    rfl

/-- The bytes of a character are decoded to what `unshift` makes of it. -/
theorem mapM_decodeByte {shift : Nat} (hshift : shift < 26) (c : Char) :
    (String.utf8EncodeChar c).mapM (decodeByte (UInt64.ofNat shift)) = some (unshift shift c) := by
  have hword : (UInt64.ofNat shift).toNat = shift := by
    rw [UInt64.toNat_ofNat']
    omega
  rw [unshift]
  split
  · next hc =>
    obtain ⟨hbytes, hvalue⟩ := utf8EncodeChar_letter hc
    have hletter : isLetter (UInt8.ofNat c.toNat) := by
      rw [isLetter_iff, hvalue]
      exact isAlpha_iff.mp hc
    obtain ⟨r, hr, hrNat, -⟩ := rotate_spec (hword.symm ▸ hshift) hletter
    have hbase : base (UInt8.ofNat c.toNat) = if c.isLower then 97 else 65 := by
      have hlower : isLower (UInt8.ofNat c.toNat) = c.isLower := by
        rw [Bool.eq_iff_iff, isLower_iff, hvalue, char_isLower_iff]
      rw [base, hlower]
    have hchar : asciiChar r = Char.ofNat ((if c.isLower then 'a'.toNat else 'A'.toNat) +
        (c.toNat - (if c.isLower then 'a'.toNat else 'A'.toNat) + 26 - shift) % 26) := by
      rw [asciiChar, hrNat, hvalue, hbase, hword]
      rfl
    rw [hbytes, List.mapM_cons, decodeByte, if_pos hletter, hr]
    exact congrArg (fun d => some [d]) hchar
  · next hc =>
    refine mapM_eq_map fun b hb => ?_
    rw [decodeByte, isLetter_of_mem hc hb]
    rfl

/-- No operation on a line overflows. -/
theorem decodeDomain_eq (line : List Char) :
    decodeDomain line = some (Upstream.decodeDomain line) := by
  rw [decodeDomain, Upstream.decodeDomain]
  dsimp only
  simp only [← List.isSuffixOf_iff_suffix]
  split
  · have hbody (body : List Char) {shift : Nat} (hshift : shift < 26) :
        (encodeUtf8 body).mapM (decodeByte (UInt64.ofNat shift)) =
          some (body.flatMap (unshift shift)) := by
      induction body with
      | nil => rfl
      | cons c body ih =>
        rw [encodeUtf8_cons, List.mapM_append, mapM_decodeByte hshift, ih, List.flatMap_cons]
        rfl
    rw [countP_encodeUtf8, hbody _ (Nat.mod_lt _ (by decide))]
    rfl
  · rfl

/-! ## The validators -/

private theorem length_encodeUtf8 (text : String) :
    (encodeUtf8 text.toList).length = text.utf8ByteSize := by
  rw [← toByteArray_toList]
  rfl

private theorem isAlphanum_iff {c : Char} : (c.isAlphanum || c = '-') = true ↔
    (97 ≤ c.toNat ∧ c.toNat ≤ 122 ∨ 65 ≤ c.toNat ∧ c.toNat ≤ 90) ∨
      48 ≤ c.toNat ∧ c.toNat ≤ 57 ∨ c.toNat = 45 := by
  have hval : c.val.toNat = c.toNat := rfl
  have hdash : c = '-' ↔ c.toNat = 45 := Char.toNat_inj.symm
  rw [Bool.or_eq_true, decide_eq_true_eq, hdash, Char.isAlphanum, Bool.or_eq_true, isAlpha_iff]
  simp [Char.isDigit, UInt32.le_iff_toNat_le, hval, or_assoc]

private theorem isAlphanum_byte_iff {b : UInt8} :
    (isLetter b || (48 ≤ b && b ≤ 57) || b = 45) = true ↔
      (97 ≤ b.toNat ∧ b.toNat ≤ 122 ∨ 65 ≤ b.toNat ∧ b.toNat ≤ 90) ∨
        48 ≤ b.toNat ∧ b.toNat ≤ 57 ∨ b.toNat = 45 := by
  have hdash : b = 45 ↔ b.toNat = 45 := UInt8.toNat_inj.symm
  rw [Bool.or_eq_true, Bool.or_eq_true, isLetter_iff, decide_eq_true_eq, hdash]
  simp [UInt8.le_iff_toNat_le, or_assoc]

private theorem utf8EncodeChar_ne_nil (c : Char) : String.utf8EncodeChar c ≠ [] := by
  rw [← List.length_pos_iff, String.length_utf8EncodeChar]
  exact c.utf8Size_pos

/-- A byte of a longer form stands for no character of a name. -/
theorem all_encodeUtf8 (label : List Char) :
    ((encodeUtf8 label).all fun b => isLetter b || (48 ≤ b && b ≤ 57) || b = 45) =
      label.all fun c => c.isAlphanum || c = '-' := by
  rw [encodeUtf8, List.all_flatMap]
  congr 1
  funext c
  rw [Bool.eq_iff_iff, isAlphanum_iff, List.all_eq_true]
  simp only [isAlphanum_byte_iff]
  by_cases hc : c.toNat < 128
  · rw [utf8EncodeChar_ascii hc, List.forall_mem_singleton, UInt8.toNat_ofNat',
      Nat.mod_eq_of_lt (by omega)]
  · refine iff_of_false (fun h => ?_) (by omega)
    obtain ⟨b, hb⟩ := List.exists_mem_of_ne_nil _ (utf8EncodeChar_ne_nil c)
    have hsmall : b.toNat < 128 := by
      have := h b hb
      omega
    exact hc ((mem_utf8EncodeChar hsmall).mp hb ▸ hsmall)

private theorem any_encodeUtf8 (label : List Char) :
    (encodeUtf8 label).any isLetter = label.any Char.isAlpha := by
  rw [encodeUtf8, List.any_flatMap]
  congr 1
  funext c
  by_cases hc : c.isAlpha
  · obtain ⟨hbytes, hvalue⟩ := utf8EncodeChar_letter hc
    have hletter : isLetter (UInt8.ofNat c.toNat) := by
      rw [isLetter_iff, hvalue]
      exact isAlpha_iff.mp hc
    rw [hbytes, hc]
    simpa using hletter
  · rw [Bool.eq_false_iff.mpr hc, List.any_eq_false]
    exact fun b hb => Bool.not_eq_true _ |>.mpr (isLetter_of_mem hc hb)

/-- The two validators refuse the same labels. -/
theorem badLabel_eq (label : List Char) :
    badLabel label = !(label ≠ [] && (String.ofList label).utf8ByteSize ≤ 63 &&
      label.head? ≠ some '-' && label.getLast? ≠ some '-' &&
        label.all fun c => c.isAlphanum || c = '-') := by
  rw [badLabel, all_encodeUtf8, ← length_encodeUtf8, String.toList_ofList]
  rw [Bool.eq_iff_iff]
  simp only [Bool.not_and, Bool.or_eq_true, List.isEmpty_iff, decide_eq_true_eq, Bool.not_eq_true',
    decide_eq_false_iff_not, not_not, ne_eq, Nat.not_le]

private theorem length_encodeUtf8_ascii {text : List Char} (h : ∀ c ∈ text, c.toNat < 128) :
    (encodeUtf8 text).length = text.length := by
  induction text with
  | nil => rfl
  | cons c text ih =>
    obtain ⟨hc, htext⟩ := List.forall_mem_cons.mp h
    rw [encodeUtf8_cons, utf8EncodeChar_ascii hc, List.singleton_append, List.length_cons, ih htext,
      List.length_cons]

/-- The two ways of writing `valid_domain` down agree. -/
theorem validDomain_eq (domain : String) : validDomain domain = Upstream.validDomain domain := by
  have hgood : (fun label : List Char => label ≠ [] && (String.ofList label).utf8ByteSize ≤ 63 &&
      label.head? ≠ some '-' && label.getLast? ≠ some '-' &&
        label.all fun c => c.isAlphanum || c = '-') = fun label => !badLabel label := by
    funext label
    rw [badLabel_eq, Bool.not_not]
  rw [validDomain, Upstream.validDomain, TgWsProxy.validDomain, hgood, ← List.not_any_eq_all_not,
    length_encodeUtf8]
  dsimp only
  split
  · next hform =>
    rcases hform with hlong | hdot
    · simp [Nat.not_le.mpr hlong]
    · simp [hdot]
  · next hform =>
    obtain ⟨hle, hdot⟩ := not_or.mp hform
    split
    · next hbad => simp [hbad]
    · next hall =>
      obtain ⟨last, hlast⟩ : ∃ last, (domain.toList.splitOn '.').getLast? = some last :=
        Option.isSome_iff_exists.mp (List.getLast?_isSome.mpr (List.splitOn_ne_nil _ _))
      have hlabel : badLabel last = false :=
        Bool.not_eq_true _ |>.mp fun hbad =>
          hall (List.any_eq_true.mpr ⟨last, List.mem_of_getLast? hlast, hbad⟩)
      have hascii : ∀ c ∈ last, c.toNat < 128 := by
        rw [badLabel_eq, Bool.not_eq_false', Bool.and_eq_true, List.all_eq_true] at hlabel
        intro c hc
        have := isAlphanum_iff.mp (hlabel.2 c hc)
        omega
      rw [List.getLastD_eq_getLast?, hlast, Option.getD_some, Option.any_some,
        length_encodeUtf8_ascii hascii, any_encodeUtf8, Bool.not_eq_true _ |>.mp hall,
        decide_eq_true (Nat.le_of_not_gt hle), List.contains_iff_mem.mpr (not_not.mp hdot)]
      rfl

/-! ## The loop -/

/-- The names of the lines, decoded. -/
def names (lines : List (List Char)) : List String :=
  ((lines.map trim).filter isName).map fun line =>
    String.ofList (Upstream.decodeDomain (line.map Char.toLower))

/-- The names of a list, line by line. -/
theorem names_cons (line : List Char) (lines : List (List Char)) :
    names (line :: lines) = if isName (trim line) then
      String.ofList (Upstream.decodeDomain ((trim line).map Char.toLower)) :: names lines
    else names lines := by
  rw [names, List.map_cons, List.filter_cons]
  split <;> rfl

/-- The loop takes the first names of the filtered list. -/
theorem collect_eq (room : Nat) (seen : List String) (lines : List (List Char)) :
    collect room seen lines =
      some ((distinct seen ((names lines).filter validDomain)).take room) := by
  induction lines generalizing room seen with
  | nil => cases room <;> rfl
  | cons line lines ih =>
    cases room with
    | zero => rfl
    | succ room =>
      rw [collect, names_cons]
      split
      · rw [decodeDomain_eq]
        simp only [Option.bind_eq_bind, Option.bind_some]
        split
        · next haccept =>
          rw [List.filter_cons_of_pos haccept.1, distinct, if_neg haccept.2,
            List.take_succ_cons, ih]
          rfl
        · next hreject =>
          rw [ih, List.filter_cons]
          split
          · next hvalid =>
            rw [distinct, if_pos (not_not.mp fun hnew => hreject ⟨hvalid, hnew⟩)]
          · rfl
      · exact ih (room + 1) seen

/-- It is the list that the routes are given. -/
theorem parseDomainPool_eq (text : String) : parseDomainPool text =
    some (Upstream.parseDomainPool ((lines text.toList).map String.ofList)) := by
  have hvalid : validDomain = Upstream.validDomain := funext validDomain_eq
  have hname : isName = fun line => decide (line ≠ [] ∧ line.head? ≠ some '#') := by
    funext line
    cases line <;> simp [isName]
  rw [parseDomainPool, collect_eq, Upstream.parseDomainPool, names, hvalid, hname]
  simp only [List.map_map, Function.comp_def, String.toList_ofList]

/-- `distinct` keeps the first of equal names. -/
theorem distinct_eq (seen domains : List String) :
    distinct seen domains = (domains.filter (· ∉ seen)).eraseDups := by
  induction domains generalizing seen with
  | nil => rfl
  | cons domain domains ih =>
    rw [distinct, List.filter_cons]
    split
    · next hseen => rw [ih, if_neg (by simpa using hseen)]
    · next hseen =>
      rw [ih, if_pos (by simpa using hseen), List.eraseDups_cons, List.filter_filter]
      congr 3
      funext b
      rw [Bool.eq_iff_iff]
      simp [not_or]

/-! ## Names of ASCII characters -/

/-- A character with its letter turned back. -/
def turn (shift : Nat) (c : Char) : Char :=
  if c.isAlpha then
    let base := if c.isLower then 'a'.toNat else 'A'.toNat
    Char.ofNat (base + (c.toNat - base + 26 - shift) % 26)
  else c

private theorem toNat_ofNat {n : Nat} (h : n < 128) : (Char.ofNat n).toNat = n := by
  have hvalid : n.isValidChar := .inl (by omega)
  rw [Char.ofNat, dif_pos hvalid]
  rfl

private theorem unshift_ascii (shift : Nat) {c : Char} (hc : c.toNat < 128) :
    unshift shift c = [turn shift c] := by
  rw [unshift, turn]
  split
  · rfl
  · rw [utf8EncodeChar_ascii hc, List.map_singleton, UInt8.toNat_ofNat',
      Nat.mod_eq_of_lt (by omega), Char.ofNat_toNat]

/-- A letter is turned within its case. -/
theorem toNat_turn (shift : Nat) {c : Char} (h : c.isAlpha) :
    c.isLower = true ∧ (turn shift c).toNat = 97 + (c.toNat - 97 + 26 - shift) % 26 ∧
        97 ≤ c.toNat ∧ c.toNat ≤ 122 ∨
      c.isLower = false ∧ (turn shift c).toNat = 65 + (c.toNat - 65 + 26 - shift) % 26 ∧
        65 ≤ c.toNat ∧ c.toNat ≤ 90 := by
  rw [turn, if_pos h]
  cases hlower : c.isLower with
  | true =>
    have hlt : 97 + (c.toNat - 97 + 26 - shift) % 26 < 128 := by omega
    exact .inl ⟨rfl, toNat_ofNat hlt, char_isLower_iff.mp hlower⟩
  | false =>
    refine .inr ⟨rfl, ?_, (isAlpha_iff.mp h).resolve_left fun hrange => ?_⟩
    · have hlt : 65 + (c.toNat - 65 + 26 - shift) % 26 < 128 := by omega
      exact toNat_ofNat hlt
    · cases hlower.symm.trans (char_isLower_iff.mpr hrange)

private theorem isAlpha_turn (shift : Nat) (c : Char) : (turn shift c).isAlpha = c.isAlpha := by
  by_cases h : c.isAlpha
  · rw [h, isAlpha_iff]
    have := toNat_turn shift h
    omega
  · rw [turn, if_neg h]

/-- Turned on by as much, a letter comes back. -/
theorem turn_turn {shift : Nat} (hshift : shift < 26) (c : Char) :
    turn (26 - shift) (turn shift c) = c := by
  by_cases h : c.isAlpha
  · have hback : (turn shift c).isAlpha := (isAlpha_turn shift c).trans h
    have hfirst := toNat_turn shift h
    have hsecond := toNat_turn (26 - shift) hback
    apply Char.toNat_inj.mp
    omega
  · rw [turn, isAlpha_turn, if_neg h, turn, if_neg h]

/-- The shift of a body. -/
def shiftOf (body : List Char) : Nat := (body.filter Char.isAlpha).length % 26

/-- A decoded ASCII name is the turned one. -/
theorem decodeDomain_ascii {body : List Char} (h : ∀ c ∈ body, c.toNat < 128) :
    Upstream.decodeDomain (body ++ ".com".toList) =
      body.map (turn (shiftOf body)) ++ ".co.uk".toList := by
  have hsuffix : ".com".toList.isSuffixOf (body ++ ".com".toList) = true :=
    List.isSuffixOf_iff_suffix.mpr (List.suffix_append ..)
  have hbody :
      (body ++ ".com".toList).take ((body ++ ".com".toList).length - ".com".toList.length) =
      body := by
    rw [List.length_append, Nat.add_sub_cancel, List.take_left]
  rw [Upstream.decodeDomain]
  dsimp only
  rw [if_pos hsuffix, hbody, List.map_eq_flatMap]
  exact congrArg (· ++ ".co.uk".toList) (List.flatMap_congr fun c hc => unshift_ascii _ (h c hc))

private theorem shiftOf_map_turn (shift : Nat) (body : List Char) :
    shiftOf (body.map (turn shift)) = shiftOf body := by
  have hcomp : Char.isAlpha ∘ turn shift = Char.isAlpha := funext (isAlpha_turn shift)
  rw [shiftOf, shiftOf, List.filter_map, List.length_map, hcomp]

/-- Two names with the same decoded form are the same. -/
theorem decodeDomain_injective {body body' : List Char} (h : ∀ c ∈ body, c.toNat < 128)
    (h' : ∀ c ∈ body', c.toNat < 128)
    (heq : Upstream.decodeDomain (body ++ ".com".toList) =
      Upstream.decodeDomain (body' ++ ".com".toList)) : body = body' := by
  rw [decodeDomain_ascii h, decodeDomain_ascii h', List.append_left_inj] at heq
  have hshift : shiftOf body = shiftOf body' := by
    rw [← shiftOf_map_turn (shiftOf body) body, heq, shiftOf_map_turn]
  have hback (body : List Char) (shift : Nat) (hlt : shift < 26) :
      (body.map (turn shift)).map (turn (26 - shift)) = body := by
    rw [List.map_map]
    exact (List.map_congr_left fun c _ => turn_turn hlt c).trans (List.map_id _)
  have hlt : shiftOf body < 26 := Nat.mod_lt _ (by decide)
  rw [← hback body _ hlt, heq, hshift, hback body' _ (hshift ▸ hlt)]

/-- A byte that is no letter keeps its place before the suffix, whatever the body is. -/
theorem decodeDomain_other (body : List Char) :
    ∃ decoded, decodeDomain (body ++ ".com".toList) = some (decoded ++ ".co.uk".toList) ∧
      decoded.length = (encodeUtf8 body).length ∧
      ∀ (i : Nat) (b : UInt8), (encodeUtf8 body)[i]? = some b → isLetter b = false →
        decoded[i]? = some (asciiChar b) := by
  have hbody : (body ++ ".com".toList).take ((body ++ ".com".toList).length - 4) = body := by
    rw [List.length_append]
    exact List.take_left
  have hlt : (UInt64.ofNat ((encodeUtf8 body).countP isLetter % 26)).toNat < 26 := by
    rw [UInt64.toNat_ofNat']
    omega
  rw [decodeDomain, if_pos (List.suffix_append ..), hbody]
  dsimp only
  generalize UInt64.ofNat ((encodeUtf8 body).countP isLetter % 26) = shift at hlt
  have hsome (b : UInt8) : decodeByte shift b = some ((decodeByte shift b).getD (asciiChar b)) := by
    by_cases hb : isLetter b
    · obtain ⟨r, hr, -⟩ := rotate_spec hlt hb
      rw [decodeByte, if_pos hb, hr]
      rfl
    · rw [decodeByte, if_neg hb]
      rfl
  refine ⟨(encodeUtf8 body).map fun b => (decodeByte shift b).getD (asciiChar b), ?_, ?_, ?_⟩
  · rw [mapM_eq_map fun b _ => hsome b]
    rfl
  · exact List.length_map _
  · intro i b hi hb
    rw [List.getElem?_map, hi, Option.map_some, decodeByte, if_neg (Bool.not_eq_true _ |>.mpr hb)]
    rfl

/-- So does a character of an ASCII name. -/
theorem decodeDomain_ascii_other {body : List Char} (h : ∀ c ∈ body, c.toNat < 128) :
    ∃ decoded : List Char, decodeDomain (body ++ ".com".toList) =
      some (decoded ++ ".co.uk".toList) ∧
      decoded.length = body.length ∧
      ∀ (i : Nat) (c : Char), body[i]? = some c → ¬c.isAlpha → decoded[i]? = some c := by
  refine ⟨body.map (turn (shiftOf body)), ?_, List.length_map _, fun i c hi hc => ?_⟩
  · rw [decodeDomain_eq, decodeDomain_ascii h]
  · rw [List.getElem?_map, hi, Option.map_some, turn, if_neg hc]

/-- The list that is read is made of the first names of the text that `valid_domain` accepts, no
more than 128 of them and none twice, and the configuration accepts them as well; to decode a name
overflows nowhere, keeps all but its letters where they are, and loses nothing. -/
theorem domainPoolParsed :
    (∀ text, parseDomainPool text =
      some (((names (lines text.toList)).filter validDomain).eraseDups.take 128)) ∧
    (∀ text domains, parseDomainPool text = some domains →
      ∀ domain ∈ domains, validDomain domain ∧ TgWsProxy.validDomain domain) ∧
    (∀ line, decodeDomain line = some (Upstream.decodeDomain line)) ∧
    (∀ (shift : UInt64) (b : UInt8), shift.toNat < 26 → isLetter b →
      ∃ r, rotate shift b = some r ∧ isLetter r ∧ isLower r = isLower b) ∧
    (∀ body body', (∀ c ∈ body, c.toNat < 128) → (∀ c ∈ body', c.toNat < 128) →
      decodeDomain (body ++ ".com".toList) = decodeDomain (body' ++ ".com".toList) → body = body') ∧
    (∀ body : List Char, ∃ decoded : List Char,
      decodeDomain (body ++ ".com".toList) = some (decoded ++ ".co.uk".toList) ∧
      decoded.length = (encodeUtf8 body).length ∧
      ∀ (i : Nat) (b : UInt8), (encodeUtf8 body)[i]? = some b → isLetter b = false →
        decoded[i]? = some (asciiChar b)) ∧
    (∀ body : List Char, (∀ c ∈ body, c.toNat < 128) → ∃ decoded : List Char,
      decodeDomain (body ++ ".com".toList) = some (decoded ++ ".co.uk".toList) ∧
      decoded.length = body.length ∧
      ∀ (i : Nat) (c : Char), body[i]? = some c → ¬c.isAlpha → decoded[i]? = some c) := by
  have hparse (text : String) : parseDomainPool text =
      some (((names (lines text.toList)).filter validDomain).eraseDups.take 128) := by
    rw [parseDomainPool, collect_eq, distinct_eq,
      List.filter_eq_self.mpr fun _ _ => decide_eq_true List.not_mem_nil]
  refine ⟨hparse, fun text domains h domain hmem => ?_, decodeDomain_eq,
    fun shift b hshift hb => ?_,
    fun body body' hbody hbody' h => ?_, decodeDomain_other, fun _ => decodeDomain_ascii_other⟩
  · obtain rfl := Option.some.inj ((hparse text).symm.trans h)
    have hvalid := (List.mem_filter.mp (List.mem_eraseDups.mp (List.mem_of_mem_take hmem))).2
    refine ⟨hvalid, ?_⟩
    rw [validDomain_eq, Upstream.validDomain, Bool.and_eq_true] at hvalid
    exact hvalid.1
  · obtain ⟨r, hr, -, hletter, hlower⟩ := rotate_spec hshift hb
    exact ⟨r, hr, hletter, hlower⟩
  · rw [decodeDomain_eq, decodeDomain_eq] at h
    exact decodeDomain_injective hbody hbody' (Option.some.inj h)

/-- The two domains of the list pass both validators. -/
theorem domainPoolParsed_example :
    ∀ domain ∈ ["hello.example", "pclead.co.uk"], validDomain domain ∧
      TgWsProxy.validDomain domain :=
  domainPoolParsed.2.1
    "#ignore\nhello.example\r\nHELLO.EXAMPLE\n\n virkgj.com\n-a.example\n127.0.0.1"
    _ (by decide)

end TgWsProxy.Upstream.DomainPool
