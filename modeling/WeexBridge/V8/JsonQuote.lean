/-
# Quoting strings for JSON

Two functions quote.  `BasicJsonStringifier` looks a character up in a table of
strings that each end with a zero byte, unless a test says that it stands for
itself; `Runtime_QuoteJSONString` has a table of lengths and one of characters.
Both write the same, and neither writes U+0000.
-/
import WeexBridge.V8.Flatten

namespace WeexBridge.V8

open CodeUnits Memory

/-! ## `GetFlatContent` -/

namespace Str

/-- The characters of a leaf. -/
def leafContent : Str → Option FlatChars
  | seq chars => some chars
  | external _ chars => some chars
  | sliced parent offset length => some (parent.window offset length)
  | cons .. => none

/-- `FlattenString`, and `GetFlatContent` after it: none where the string is not flat, and
the characters it is asked for are at `NULL`. -/
def flatContent (fill : Nat → UInt16) (s : Str) : Option FlatChars :=
  (tryFlatten fill s).join.bind leafContent

theorem leafContent_eq : ∀ {s : Str}, s.IsLeaf → ∃ chars, leafContent s = some chars ∧
    chars.units = s.units
  | seq chars, _ => ⟨chars, rfl, rfl⟩
  | external _ chars, _ => ⟨chars, rfl, rfl⟩
  | sliced parent offset length, _ => ⟨parent.window offset length, rfl, rfl⟩

theorem flatContent_eq (fill : Nat → UInt16) {s : Str} (h : s.WellFormed) (hflat : s.Flattens) :
    ∃ chars, flatContent fill s = some chars ∧ chars.units = s.units := by
  obtain ⟨r, hr, -, hleaf, hunits⟩ := tryFlatten_eq fill h hflat
  obtain ⟨chars, hchars, hchars'⟩ := leafContent_eq hleaf
  refine ⟨chars, ?_, hchars'.trans hunits⟩
  rw [flatContent, hr]
  exact hchars

/-- What there is of characters is the text. -/
theorem flatContent_some {fill : Nat → UInt16} {s : Str} (h : s.WellFormed) {chars : FlatChars}
    (hchars : flatContent fill s = some chars) : s.Flattens ∧ chars.units = s.units := by
  by_cases hflat : s.Flattens
  · obtain ⟨chars', hchars', hunits⟩ := flatContent_eq fill h hflat
    cases hchars.symm.trans hchars'
    exact ⟨hflat, hunits⟩
  · rw [flatContent, tryFlatten_refused fill hflat] at hchars
    cases hchars

end Str

/-! ## The table of `BasicJsonStringifier` -/

/-- The bytes of a literal. -/
def literalBytes (s : String) : List UInt8 := s.toList.map fun c => .ofNat c.toNat

/-- What both tables have for the ASCII characters. -/
def asciiEscapes : List (List UInt8) :=
  ["\\u0000", "\\u0001", "\\u0002", "\\u0003",
   "\\u0004", "\\u0005", "\\u0006", "\\u0007",
   "\\b", "\\t", "\\n", "\\u000b",
   "\\f", "\\r", "\\u000e", "\\u000f",
   "\\u0010", "\\u0011", "\\u0012", "\\u0013",
   "\\u0014", "\\u0015", "\\u0016", "\\u0017",
   "\\u0018", "\\u0019", "\\u001a", "\\u001b",
   "\\u001c", "\\u001d", "\\u001e", "\\u001f",
   " ", "!", "\\\"", "#", "$", "%", "&", "\x27",
   "(", ")", "*", "+", ",", "-", ".", "/",
   "0", "1", "2", "3", "4", "5", "6", "7",
   "8", "9", ":", ";", "<", "=", ">", "?",
   "@", "A", "B", "C", "D", "E", "F", "G",
   "H", "I", "J", "K", "L", "M", "N", "O",
   "P", "Q", "R", "S", "T", "U", "V", "W",
   "X", "Y", "Z", "[", "\\\\", "]", "^", "_",
   "\x60", "a", "b", "c", "d", "e", "f", "g",
   "h", "i", "j", "k", "l", "m", "n", "o",
   "p", "q", "r", "s", "t", "u", "v", "w",
   "x", "y", "z", "\x7b", "|", "\x7d", "~", "\x7f"].map literalBytes

/-- `JsonEscapeTable`, one entry for each one-byte character, each a C string. -/
def jsonEscapeTable : List (List UInt8) :=
  asciiEscapes.map (· ++ [0]) ++ (List.range' 128 128).map fun c => [.ofNat c, 0]

/-- The C string at `&JsonEscapeTable[c * kJsonEscapeTableEntrySize]`. -/
def jsonEscape (c : Nat) : List UInt8 := cString (jsonEscapeTable.getD c [])

/-- `DoNotEscape<uint8_t>` -/
def doNotEscapeByte (c : UInt8) : Bool := 0x23 ≤ c && c ≤ 0x7E && c ≠ 0x5C

/-- `DoNotEscape<uint16_t>` -/
def doNotEscapeUnit (c : UInt16) : Bool := 0x23 ≤ c && c ≠ 0x5C && c ≠ 0x7F

/-- What is written for a one-byte character. -/
def escapedByte (c : UInt8) : List UInt16 :=
  if doNotEscapeByte c then [c.toUInt16] else (jsonEscape c.toNat).map UInt8.toUInt16

/-- What is written for a two-byte character. -/
def escapedUnit (c : UInt16) : List UInt16 :=
  if doNotEscapeUnit c then [c] else (jsonEscape c.toNat).map UInt8.toUInt16

/-- What is written for a string, without the quotes. -/
def escaped : FlatChars → List UInt16
  | .oneByte chars => chars.flatMap escapedByte
  | .twoByte chars => chars.flatMap escapedUnit

/-! ## The tables of `Runtime_QuoteJSONString` -/

def kQuoteTableLength : Nat := 128

def kJsonQuotesCharactersPerEntry : Nat := 8

/-- `JsonQuotes`, its entries filled up with blanks. -/
def jsonQuotes : List (List UInt8) :=
  asciiEscapes.map fun entry =>
    entry ++ List.replicate (kJsonQuotesCharactersPerEntry - entry.length) 0x20

def jsonQuoteLengths : List Nat :=
  [6, 6, 6, 6, 6, 6, 6, 6,
   2, 2, 2, 6, 2, 2, 6, 6,
   6, 6, 6, 6, 6, 6, 6, 6,
   6, 6, 6, 6, 6, 6, 6, 6,
   1, 1, 2, 1, 1, 1, 1, 1,
   1, 1, 1, 1, 1, 1, 1, 1,
   1, 1, 1, 1, 1, 1, 1, 1,
   1, 1, 1, 1, 1, 1, 1, 1,
   1, 1, 1, 1, 1, 1, 1, 1,
   1, 1, 1, 1, 1, 1, 1, 1,
   1, 1, 1, 1, 1, 1, 1, 1,
   1, 1, 1, 1, 2, 1, 1, 1,
   1, 1, 1, 1, 1, 1, 1, 1,
   1, 1, 1, 1, 1, 1, 1, 1,
   1, 1, 1, 1, 1, 1, 1, 1,
   1, 1, 1, 1, 1, 1, 1, 1]

/-- What `JsonQuotes` has for a character. -/
def quoteEntry (c : Nat) : List UInt8 :=
  (jsonQuotes.getD c []).take (jsonQuoteLengths.getD c 0)

/-- What is written for a character. -/
def quotedUnit (c : UInt16) : List UInt16 :=
  if kQuoteTableLength ≤ c.toNat then [c]
  else (quoteEntry c.toNat).map UInt8.toUInt16

/-- `QuoteJsonString`; the fast and the slow one differ in how much they allocate. -/
def quoteJsonString (chars : FlatChars) : List UInt16 :=
  [0x22] ++ chars.units.flatMap quotedUnit ++ [0x22]

/-- The longest sequential string of the same width. -/
def FlatChars.maxLength : FlatChars → Nat
  | oneByte _ => kMaxOneByteLength
  | twoByte _ => kMaxTwoByteLength

/-- `Runtime_QuoteJSONString`: a failure where there is no flat copy, or none of the result. -/
def runtimeQuoteJsonString (fill : Nat → UInt16) (str : Str) : MaybeObject (List UInt16) :=
  (str.flatContent fill).bind fun flat =>
    if (quoteJsonString flat).length > flat.maxLength then none else some (quoteJsonString flat)

/-! ## The two agree -/

theorem jsonEscape_ascii : ∀ c < 128, jsonEscape c = quoteEntry c := by decide +kernel

/-- A character that is not escaped has itself as its entry. -/
theorem quoteEntry_self :
    ∀ c < 128, 0x23 ≤ c ∧ c ≠ 0x5C ∧ c ≠ 0x7F → quoteEntry c = [.ofNat c] := by
  decide +kernel

theorem jsonEscape_high : ∀ c < 256, 128 ≤ c → jsonEscape c = [.ofNat c] := by decide +kernel

theorem quotedUnit_of_lt {c : UInt16} (h : c.toNat < 128) :
    quotedUnit c = (quoteEntry c.toNat).map UInt8.toUInt16 := if_neg (Nat.not_le.mpr h)

theorem quotedUnit_of_le {c : UInt16} (h : 128 ≤ c.toNat) : quotedUnit c = [c] := if_pos h

theorem doNotEscapeUnit_iff {c : UInt16} :
    doNotEscapeUnit c = true ↔ 0x23 ≤ c.toNat ∧ c.toNat ≠ 0x5C ∧ c.toNat ≠ 0x7F := by
  have h₁ : (c ≠ 0x5C) ↔ c.toNat ≠ 0x5C := not_congr UInt16.toNat_inj.symm
  have h₂ : (c ≠ 0x7F) ↔ c.toNat ≠ 0x7F := not_congr UInt16.toNat_inj.symm
  rw [doNotEscapeUnit, Bool.and_eq_true, Bool.and_eq_true, decide_eq_true_eq, decide_eq_true_eq,
    decide_eq_true_eq, h₁, h₂, and_assoc]
  rfl

theorem doNotEscapeByte_iff {c : UInt8} :
    doNotEscapeByte c = true ↔ 0x23 ≤ c.toNat ∧ c.toNat ≤ 0x7E ∧ c.toNat ≠ 0x5C := by
  have h : (c ≠ 0x5C) ↔ c.toNat ≠ 0x5C := not_congr UInt8.toNat_inj.symm
  rw [doNotEscapeByte, Bool.and_eq_true, Bool.and_eq_true, decide_eq_true_eq, decide_eq_true_eq,
    decide_eq_true_eq, h, and_assoc]
  rfl

theorem toUInt16_ofNat_toNat (c : UInt16) (h : c.toNat < 128) :
    (UInt8.ofNat c.toNat).toUInt16 = c := by
  refine UInt16.toNat_inj.mp ?_
  rw [UInt8.toNat_toUInt16, toNat_ofNat_of_lt (by omega)]

theorem escapedUnit_eq (c : UInt16) : escapedUnit c = quotedUnit c := by
  unfold escapedUnit
  split_ifs with hplain
  · rw [doNotEscapeUnit_iff] at hplain
    rcases Nat.lt_or_ge c.toNat 128 with hc | hc
    · rw [quotedUnit_of_lt hc, quoteEntry_self _ hc hplain, List.map_singleton,
        toUInt16_ofNat_toNat c hc]
    · exact (quotedUnit_of_le hc).symm
  · rw [doNotEscapeUnit_iff] at hplain
    have hc : c.toNat < 128 := by omega
    rw [quotedUnit_of_lt hc, jsonEscape_ascii _ hc]

theorem escapedByte_eq (c : UInt8) : escapedByte c = quotedUnit c.toUInt16 := by
  have hunit : c.toUInt16.toNat = c.toNat := UInt8.toNat_toUInt16 c
  unfold escapedByte
  split_ifs with hplain
  · rw [doNotEscapeByte_iff] at hplain
    have hc : c.toUInt16.toNat < 128 := by omega
    rw [quotedUnit_of_lt hc, quoteEntry_self _ hc (by omega), List.map_singleton,
      toUInt16_ofNat_toNat _ hc]
  · rcases Nat.lt_or_ge c.toNat 128 with hc | hc
    · rw [quotedUnit_of_lt (hunit ▸ hc), hunit, jsonEscape_ascii _ hc]
    · have hescape : jsonEscape c.toNat = [c] := by
        rw [jsonEscape_high _ c.toNat_lt hc, UInt8.ofNat_toNat]
      rw [quotedUnit_of_le (hunit ▸ hc), hescape]
      rfl

/-- Whatever representation the characters have, both write the same for them. -/
theorem escaped_eq : ∀ chars : FlatChars, escaped chars = chars.units.flatMap quotedUnit
  | .oneByte chars => by
      show chars.flatMap escapedByte = (chars.map UInt8.toUInt16).flatMap quotedUnit
      rw [List.flatMap_map]
      exact List.flatMap_congr fun c _ => escapedByte_eq c
  | .twoByte chars => List.flatMap_congr fun c _ => escapedUnit_eq c

/-- A character becomes six at most. -/
theorem length_quotedUnit_le (c : UInt16) : (quotedUnit c).length ≤ 6 := by
  have hlengths : ∀ n ∈ jsonQuoteLengths, n ≤ 6 := by decide +kernel
  unfold quotedUnit
  split_ifs with hc
  · exact (by decide : 1 ≤ 6)
  · have hc' : c.toNat < jsonQuoteLengths.length := Nat.not_le.mp hc
    rw [List.length_map, quoteEntry, List.length_take, List.getD_eq_getElem _ _ hc']
    exact Nat.le_trans (Nat.min_le_left _ _) (hlengths _ (List.getElem_mem hc'))

theorem length_flatMap_quotedUnit_le : ∀ us : List UInt16,
    (us.flatMap quotedUnit).length ≤ 6 * us.length
  | [] => Nat.le_refl 0
  | c :: us => by
      have hc := length_quotedUnit_le c
      have ih := length_flatMap_quotedUnit_le us
      rw [List.flatMap_cons, List.length_append, List.length_cons]
      omega

/-! ## No U+0000 -/

theorem zero_not_mem_map_toUInt16 {bytes : List UInt8} (h : (0 : UInt8) ∉ bytes) :
    (0 : UInt16) ∉ bytes.map UInt8.toUInt16 := by
  intro hzero
  obtain ⟨b, hb, hb'⟩ := List.mem_map.mp hzero
  have : b = 0 := by
    refine UInt8.toNat_inj.mp ?_
    rw [← UInt8.toNat_toUInt16, hb']
    rfl
  exact h (this ▸ hb)

/-- The table is read as C strings, and what it is not asked for is no zero. -/
theorem zero_not_mem_escapedByte (c : UInt8) : (0 : UInt16) ∉ escapedByte c := by
  unfold escapedByte
  split_ifs with hplain
  · rw [doNotEscapeByte_iff] at hplain
    rw [List.mem_singleton]
    intro hzero
    have hc : c.toUInt16.toNat = 0 := congrArg UInt16.toNat hzero.symm
    rw [UInt8.toNat_toUInt16] at hc
    omega
  · exact zero_not_mem_map_toUInt16 (zero_not_mem_cString _)

theorem zero_not_mem_escapedUnit (c : UInt16) : (0 : UInt16) ∉ escapedUnit c := by
  unfold escapedUnit
  split_ifs with hplain
  · rw [doNotEscapeUnit_iff] at hplain
    rw [List.mem_singleton]
    rintro rfl
    exact absurd hplain.1 (by decide)
  · exact zero_not_mem_map_toUInt16 (zero_not_mem_cString _)

theorem zero_not_mem_escaped : ∀ chars : FlatChars, (0 : UInt16) ∉ escaped chars
  | .oneByte chars => by
      intro hzero
      obtain ⟨c, -, hc⟩ := List.mem_flatMap.mp hzero
      exact zero_not_mem_escapedByte c hc
  | .twoByte chars => by
      intro hzero
      obtain ⟨c, -, hc⟩ := List.mem_flatMap.mp hzero
      exact zero_not_mem_escapedUnit c hc

end WeexBridge.V8
