import Mathlib.Data.List.Basic

/-!
# Texts as bytes

The UTF-8 form of a text and its inverse, by way of the strings of the core library. A byte
below 128 stands for itself and for nothing else, so what separates a text by ASCII characters
separates its bytes.
-/

namespace TgWsProxy.Core

/-- The bytes of a text. -/
def encodeUtf8 (text : List Char) : List UInt8 := text.flatMap String.utf8EncodeChar

/-- The text of these bytes, if they are one. -/
def decodeUtf8 (bytes : List UInt8) : Option (List Char) :=
  (String.fromUTF8? ⟨bytes.toArray⟩).map String.toList

/-- The character of an ASCII byte. -/
def asciiChar (b : UInt8) : Char := Char.ofNat b.toNat

@[simp] theorem encodeUtf8_nil : encodeUtf8 [] = [] := rfl

@[simp] theorem encodeUtf8_append (text text' : List Char) :
    encodeUtf8 (text ++ text') = encodeUtf8 text ++ encodeUtf8 text' := List.flatMap_append

/-- The encoding goes character by character. -/
theorem encodeUtf8_cons (c : Char) (text : List Char) :
    encodeUtf8 (c :: text) = String.utf8EncodeChar c ++ encodeUtf8 text := List.flatMap_cons

/-- The bytes of a string are those of its characters. -/
theorem toByteArray_toList (text : String) :
    text.toByteArray.data.toList = encodeUtf8 text.toList := by
  rw [← String.utf8Encode_toList]
  simp [List.utf8Encode, encodeUtf8]

private theorem utf8Encode_eq (text : List Char) :
    text.utf8Encode = ⟨(encodeUtf8 text).toArray⟩ := by
  rw [← String.toByteArray_ofList]
  have h := toByteArray_toList (String.ofList text)
  rw [String.toList_ofList] at h
  rw [← h]

/-- Bytes are decoded to the text that is encoded as them. -/
theorem decodeUtf8_eq_some {bytes : List UInt8} {text : List Char} :
    decodeUtf8 bytes = some text ↔ bytes = encodeUtf8 text := by
  rw [decodeUtf8, String.fromUTF8?]
  constructor
  · intro h
    split at h
    · obtain rfl := Option.some.inj h
      exact (toByteArray_toList _).symm ▸ rfl
    · cases h
  · rintro rfl
    have hvalid : ByteArray.IsValidUTF8 ⟨(encodeUtf8 text).toArray⟩ :=
      ⟨text, (utf8Encode_eq text).symm⟩
    rw [dif_pos hvalid]
    have htext : String.fromUTF8 ⟨(encodeUtf8 text).toArray⟩ hvalid = String.ofList text := by
      rw [← String.toByteArray_inj, String.toByteArray_ofList, utf8Encode_eq]
      rfl
    rw [Option.map_some, htext, String.toList_ofList]

/-- A text survives the round trip. -/
@[simp] theorem decodeUtf8_encodeUtf8 (text : List Char) :
    decodeUtf8 (encodeUtf8 text) = some text :=
  decodeUtf8_eq_some.mpr rfl

/-- No two texts have the same bytes. -/
theorem encodeUtf8_injective : Function.Injective encodeUtf8 := fun text text' h =>
  Option.some.inj ((decodeUtf8_encodeUtf8 text).symm.trans (h ▸ decodeUtf8_encodeUtf8 text'))

/-! ## ASCII -/

/-- An ASCII character is one byte. -/
theorem utf8EncodeChar_ascii {c : Char} (h : c.toNat < 128) :
    String.utf8EncodeChar c = [UInt8.ofNat c.toNat] := by
  rw [String.utf8EncodeChar]
  exact if_pos (Nat.le_of_lt_succ h)

/-- An ASCII text has one byte for each character. -/
theorem encodeUtf8_ascii {text : List Char} (h : ∀ c ∈ text, c.toNat < 128) :
    encodeUtf8 text = text.map fun c => UInt8.ofNat c.toNat := by
  induction text with
  | nil => rfl
  | cons c text ih =>
    obtain ⟨hc, htext⟩ := List.forall_mem_cons.mp h
    rw [encodeUtf8_cons, utf8EncodeChar_ascii hc, ih htext]
    rfl

/-- An ASCII text has as many bytes as characters. -/
theorem utf8ByteSize_ascii {text : String} (h : ∀ c ∈ text.toList, c.toNat < 128) :
    text.utf8ByteSize = text.toList.length := by
  have hsize : text.utf8ByteSize = text.toByteArray.data.toList.length := rfl
  rw [hsize, toByteArray_toList, encodeUtf8_ascii h, List.length_map]

/-- A byte below 128 in the form of a character is that character. -/
theorem mem_utf8EncodeChar {c : Char} {b : UInt8} (hb : b.toNat < 128) :
    b ∈ String.utf8EncodeChar c ↔ c.toNat = b.toNat := by
  by_cases h : c.toNat < 128
  · rw [utf8EncodeChar_ascii h, List.mem_singleton]
    constructor
    · rintro rfl
      rw [UInt8.toNat_ofNat']
      omega
    · intro heq
      rw [heq, UInt8.ofNat_toNat]
  · refine iff_of_false (fun hmem => ?_) fun heq => h (heq ▸ hb)
    have hlarge : ¬c.val.toNat ≤ 127 := fun hle => h (Nat.lt_succ_of_le hle)
    have hbyte (n : Nat) : ¬(UInt8.ofNat (n % 64 + 128)).toNat < 128 ∧
        ¬(UInt8.ofNat (n % 32 + 192)).toNat < 128 ∧ ¬(UInt8.ofNat (n % 16 + 224)).toNat < 128 ∧
        ¬(UInt8.ofNat (n % 8 + 240)).toNat < 128 := by
      simp only [UInt8.toNat_ofNat']
      omega
    rw [String.utf8EncodeChar, if_neg hlarge] at hmem
    split_ifs at hmem
    · simp only [List.mem_cons, List.not_mem_nil, or_false] at hmem
      grind
    · simp only [List.mem_cons, List.not_mem_nil, or_false] at hmem
      grind
    · simp only [List.mem_cons, List.not_mem_nil, or_false] at hmem
      grind

private theorem toNat_asciiChar {b : UInt8} (hb : b.toNat < 128) :
    (asciiChar b).toNat = b.toNat := by
  have hvalid : b.toNat.isValidChar := .inl (by omega)
  rw [asciiChar, Char.ofNat, dif_pos hvalid]
  rfl

/-- ASCII bytes are the form of their characters. -/
theorem encodeUtf8_map_asciiChar {bytes : List UInt8} (h : ∀ b ∈ bytes, b.toNat < 128) :
    encodeUtf8 (bytes.map asciiChar) = bytes := by
  induction bytes with
  | nil => rfl
  | cons b bytes ih =>
    obtain ⟨hb, hbytes⟩ := List.forall_mem_cons.mp h
    have hchar := toNat_asciiChar hb
    rw [List.map_cons, encodeUtf8_cons, utf8EncodeChar_ascii (hchar ▸ hb), hchar,
      UInt8.ofNat_toNat, ih hbytes, List.singleton_append]

/-- ASCII bytes decode to their characters. -/
theorem decodeUtf8_ascii {bytes : List UInt8} (h : ∀ b ∈ bytes, b.toNat < 128) :
    decodeUtf8 bytes = some (bytes.map asciiChar) :=
  decodeUtf8_eq_some.mpr (encodeUtf8_map_asciiChar h).symm

/-- An ASCII byte is in the form of a text where its character is in the text. -/
theorem mem_encodeUtf8 {b : UInt8} {text : List Char} (hb : b.toNat < 128) :
    b ∈ encodeUtf8 text ↔ asciiChar b ∈ text := by
  simp only [encodeUtf8, List.mem_flatMap, mem_utf8EncodeChar hb]
  constructor
  · rintro ⟨c, hc, heq⟩
    have : c = asciiChar b := Char.toNat_inj.mp (heq.trans (toNat_asciiChar hb).symm)
    exact this ▸ hc
  · exact fun hmem => ⟨_, hmem, toNat_asciiChar hb⟩

end TgWsProxy.Core
