/-
# `unibrow` — the encoder and the decoder of `unicode-inl.h`

`Utf16` and `Utf8` as the source computes them, with its shifts and masks.  A
`uchar` is a natural number here: no operation below leaves 32 bits.  A previous
character is `none` for `kNoPreviousCharacter`.

Encoding writes the sequences of `codePointBytes` and decoding a sequence gives
the code point back; surrogates pass in both directions.
-/
import WeexBridge.Lib.CodeUnits
import WeexBridge.Lib.Memory
import Mathlib.Data.Nat.Bitwise

namespace WeexBridge.V8

open CodeUnits Memory

/-! ## `Utf16` -/

namespace Utf16

def kMaxNonSurrogateCharCode : Nat := 0xFFFF

def isLeadSurrogate (code : Nat) : Bool := code &&& 0xFC00 == 0xD800

def isTrailSurrogate (code : Nat) : Bool := code &&& 0xFC00 == 0xDC00

def combineSurrogatePair (lead trail : Nat) : Nat :=
  0x10000 + ((lead &&& 0x3FF) <<< 10) + (trail &&& 0x3FF)

def leadSurrogate (charCode : Nat) : UInt16 :=
  .ofNat (0xD800 + (((charCode - 0x10000) >>> 10) &&& 0x3FF))

def trailSurrogate (charCode : Nat) : UInt16 :=
  .ofNat (0xDC00 + (charCode &&& 0x3FF))

/-- The mask keeps the six high bits of sixteen. -/
theorem and_highMask {n : Nat} (h : n < 0x10000) : n &&& 0xFC00 = n / 1024 * 1024 := by
  refine Nat.eq_of_testBit_eq fun i => ?_
  have hm : (0xFC00 : Nat) = (2 ^ 6 - 1) * 2 ^ 10 := rfl
  have hd : n / 1024 * 1024 = (n / 2 ^ 10) * 2 ^ 10 := rfl
  rw [Nat.testBit_and, hm, hd, Nat.testBit_mul_two_pow, Nat.testBit_mul_two_pow,
    Nat.testBit_two_pow_sub_one, Nat.testBit_div_two_pow]
  by_cases hi : 10 ≤ i
  · have hs : i - 10 + 10 = i := by omega
    rw [hs]
    by_cases hk : i < 16
    · have : i - 10 < 6 := by omega
      simp [hi, this]
    · have hz : n.testBit i = false :=
        Nat.testBit_lt_two_pow
          (Nat.lt_of_lt_of_le h (Nat.pow_le_pow_right (n := 2) (by decide) (by omega : 16 ≤ i)))
      simp [hz]
  · simp [hi]

theorem isLeadSurrogate_iff (u : UInt16) : isLeadSurrogate u.toNat = true ↔ IsLead u := by
  have hu := u.toNat_lt
  rw [isLeadSurrogate, beq_iff_eq, and_highMask (by omega), IsLead]
  omega

theorem isTrailSurrogate_iff (u : UInt16) : isTrailSurrogate u.toNat = true ↔ IsTrail u := by
  have hu := u.toNat_lt
  rw [isTrailSurrogate, beq_iff_eq, and_highMask (by omega), IsTrail]
  omega

theorem combineSurrogatePair_eq (a b : UInt16) :
    combineSurrogatePair a.toNat b.toNat = combine a b := by
  have h : ∀ n : Nat, n &&& 0x3FF = n % 1024 := fun n => Nat.and_two_pow_sub_one_eq_mod n 10
  rw [combineSurrogatePair, combine, h, h, Nat.shiftLeft_eq]

end Utf16

/-! ## `Utf8`, encoding -/

namespace Utf8

def kMaxOneByteChar : Nat := 0x7F
def kMaxTwoByteChar : Nat := 0x7FF
def kMaxThreeByteChar : Nat := 0xFFFF
def kMaxFourByteChar : Nat := 0x1FFFFF
def kBadChar : Nat := 0xFFFD
def kMaxEncodedSize : Nat := 4
def kBytesSavedByCombiningSurrogates : Nat := 2
def kSizeOfUnmatchedSurrogate : Nat := 3

/-- `~(1 << 6)`. -/
def kMask : Nat := 0xFFFFFFBF

/-- The stores of `Utf8::Encode` for a character that has no partner before it. -/
def encodedBytes (c : Nat) : List UInt8 :=
  if c ≤ kMaxOneByteChar then [.ofNat c]
  else if c ≤ kMaxTwoByteChar then
    [.ofNat (0xC0 ||| (c >>> 6)), .ofNat (0x80 ||| (c &&& kMask))]
  else if c ≤ kMaxThreeByteChar then
    [.ofNat (0xE0 ||| (c >>> 12)), .ofNat (0x80 ||| ((c >>> 6) &&& kMask)),
     .ofNat (0x80 ||| (c &&& kMask))]
  else
    [.ofNat (0xF0 ||| (c >>> 18)), .ofNat (0x80 ||| ((c >>> 12) &&& kMask)),
     .ofNat (0x80 ||| ((c >>> 6) &&& kMask)), .ofNat (0x80 ||| (c &&& kMask))]

/-- The character is a trail surrogate after a lead surrogate. -/
def completesPair (c : Nat) (previous : Option UInt16) : Bool :=
  Utf16.isTrailSurrogate c &&
    match previous with
    | some lead => Utf16.isLeadSurrogate lead.toNat
    | none => false

/-- `Utf8::Encode` at `buffer + p`, with the number of bytes it advances.  A pair
is written over the three bytes of its lead surrogate. -/
def encode (buffer : Block UInt8) (p c : Nat) (previous : Option UInt16) :
    Option (Block UInt8 × Nat) :=
  if kMaxTwoByteChar < c ∧ c ≤ kMaxThreeByteChar ∧ completesPair c previous = true then
    let bytes := encodedBytes (Utf16.combineSurrogatePair (previous.getD 0).toNat c)
    if kSizeOfUnmatchedSurrogate ≤ p then
      (store buffer (p - kSizeOfUnmatchedSurrogate) bytes).map
        fun buffer => (buffer, bytes.length - kSizeOfUnmatchedSurrogate)
    else none
  else
    (store buffer p (encodedBytes c)).map fun buffer => (buffer, (encodedBytes c).length)

/-- `Utf8::EncodeOneByte`. -/
def encodeOneByte (buffer : Block UInt8) (p : Nat) (c : UInt8) : Option (Block UInt8 × Nat) :=
  let bytes : List UInt8 :=
    if c.toNat ≤ kMaxOneByteChar then [c]
    else [.ofNat (0xC0 ||| (c.toNat >>> 6)), .ofNat (0x80 ||| (c.toNat &&& kMask))]
  (store buffer p bytes).map fun buffer => (buffer, bytes.length)

/-- `Utf8::Length`. -/
def length (c : Nat) (previous : Option UInt16) : Nat :=
  if c ≤ kMaxOneByteChar then 1
  else if c ≤ kMaxTwoByteChar then 2
  else if c ≤ kMaxThreeByteChar then
    if completesPair c previous then kSizeOfUnmatchedSurrogate - kBytesSavedByCombiningSurrogates
    else 3
  else 4

/-- A continuation byte keeps the six low bits. -/
theorem continuation_byte (n : Nat) :
    UInt8.ofNat (0x80 ||| (n &&& kMask)) = UInt8.ofNat (0x80 + n % 64) := by
  have hfin : ∀ m : Fin 256, (0x80 ||| (m.val &&& 0xBF)) % 2 ^ 8 = (0x80 + m.val % 64) % 2 ^ 8 := by
    decide +kernel
  have hm := hfin ⟨n % 2 ^ 8, Nat.mod_lt _ (by decide)⟩
  have hn : n % 2 ^ 8 % 64 = n % 64 := Nat.mod_mod_of_dvd n (by decide)
  have hmask : (kMask % 2 ^ 8 : Nat) = 0xBF := rfl
  -- only the low byte of the mask and of the character is stored
  have hbyte : (0x80 ||| (n &&& kMask)) % 2 ^ 8 = (0x80 ||| (n % 2 ^ 8 &&& 0xBF)) % 2 ^ 8 := by
    rw [Nat.or_mod_two_pow, Nat.and_mod_two_pow, hmask, @Nat.or_mod_two_pow 0x80,
      @Nat.and_mod_two_pow (n % 2 ^ 8), Nat.mod_mod]
  refine UInt8.toNat_inj.mp ?_
  rw [UInt8.toNat_ofNat', UInt8.toNat_ofNat', hbyte, hm, hn]

/-- The marker bits of a first byte lie above the character's bits. -/
theorem marker_or {n : Nat} (marker i k : Nat) (hm : k <<< i = marker) (hn : n < 2 ^ i) :
    marker ||| n = marker + n := by
  rw [← hm, Nat.shiftLeft_add_eq_or_of_lt hn]

theorem encodedBytes_eq {c : Nat} (hc : c < 0x110000) : encodedBytes c = codePointBytes c := by
  simp only [encodedBytes, codePointBytes, kMaxOneByteChar, kMaxTwoByteChar, kMaxThreeByteChar,
    continuation_byte, Nat.shiftRight_eq_div_pow]
  split_ifs with h₁ h₂ h₃ h₄ h₅ h₆ <;> first
    | omega
    | rfl
    | rw [marker_or 0xC0 5 6 rfl (by omega)]
    | rw [marker_or 0xE0 4 14 rfl (by omega)]
    | rw [marker_or 0xF0 3 30 rfl (by omega)]

theorem encodedBytes_unit (u : UInt16) : encodedBytes u.toNat = codePointBytes u.toNat :=
  encodedBytes_eq (Nat.lt_trans u.toNat_lt (by decide))

theorem completesPair_iff (b : UInt16) (previous : Option UInt16) :
    completesPair b.toNat previous = true ↔ IsTrail b ∧ ∃ a, previous = some a ∧ IsLead a := by
  cases previous with
  | none => simp [completesPair]
  | some a =>
      simp [completesPair, Utf16.isTrailSurrogate_iff, Utf16.isLeadSurrogate_iff]

/-- A unit that completes no pair is written where the writer stands. -/
theorem encode_unit {buffer : Block UInt8} {p : Nat} {u : UInt16} {previous : Option UInt16}
    (h : ¬ (IsTrail u ∧ ∃ a, previous = some a ∧ IsLead a))
    (hfit : p + (codePointBytes u.toNat).length ≤ buffer.length) :
    encode buffer p u.toNat previous =
      some (splice buffer p (codePointBytes u.toNat), (codePointBytes u.toNat).length) := by
  rw [← completesPair_iff] at h
  rw [encode, if_neg fun h' => h h'.2.2, encodedBytes_unit, store_eq_some hfit]
  rfl

/-- A trail surrogate after its lead is written with it, three bytes back. -/
theorem encode_pair {buffer : Block UInt8} {p : Nat} {a b : UInt16} (ha : IsLead a)
    (hb : IsTrail b) (hp : 3 ≤ p) (hfit : p + 1 ≤ buffer.length) :
    encode buffer p b.toNat (some a) =
      some (splice buffer (p - 3) (codePointBytes (combine a b)), 1) := by
  have hpair := (completesPair_iff b (some a)).mpr ⟨hb, a, rfl, ha⟩
  have hlen := length_combine_bytes a b
  have hrange : kMaxTwoByteChar < b.toNat ∧ b.toNat ≤ kMaxThreeByteChar := by
    unfold IsTrail at hb
    simp only [kMaxTwoByteChar, kMaxThreeByteChar]
    omega
  rw [encode, if_pos ⟨hrange.1, hrange.2, hpair⟩]
  simp only [Option.getD_some, kSizeOfUnmatchedSurrogate, if_pos hp,
    Utf16.combineSurrogatePair_eq, encodedBytes_eq (combine_lt a b), hlen]
  rw [store_eq_some (by omega)]
  rfl

theorem encodeOneByte_eq {buffer : Block UInt8} {p : Nat} {c : UInt8}
    (hfit : p + (codePointBytes c.toUInt16.toNat).length ≤ buffer.length) :
    encodeOneByte buffer p c =
      some (splice buffer p (codePointBytes c.toUInt16.toNat),
        (codePointBytes c.toUInt16.toNat).length) := by
  have hc := c.toNat_lt
  have hn : c.toUInt16.toNat = c.toNat := c.toNat_toUInt16
  have hbytes : (if c.toNat ≤ kMaxOneByteChar then [c]
      else [.ofNat (0xC0 ||| (c.toNat >>> 6)), .ofNat (0x80 ||| (c.toNat &&& kMask))]) =
      codePointBytes c.toUInt16.toNat := by
    rw [hn, ← encodedBytes_eq (by omega), encodedBytes]
    have h₂ : c.toNat ≤ kMaxTwoByteChar := Nat.le_trans (Nat.le_of_lt hc) (by decide)
    rw [if_pos h₂, UInt8.ofNat_toNat]
  simp only [encodeOneByte, hbytes]
  rw [store_eq_some hfit]
  rfl

/-- `Utf8::Length` is what encoding the unit adds to the text. -/
theorem length_eq (u : UInt16) (previous : Option UInt16) :
    length u.toNat previous =
      if IsTrail u ∧ ∃ a, previous = some a ∧ IsLead a then 1
      else (codePointBytes u.toNat).length := by
  have hu := u.toNat_lt
  have hpair := completesPair_iff u previous
  by_cases h : IsTrail u ∧ ∃ a, previous = some a ∧ IsLead a
  · have ht := h.1
    unfold IsTrail at ht
    simp only [length, if_pos h, hpair.mpr h, kMaxOneByteChar, kMaxTwoByteChar,
      kMaxThreeByteChar]
    rw [if_neg (by omega), if_neg (by omega), if_pos (by omega)]
    rfl
  · have hf : completesPair u.toNat previous = false := by
      rw [← Bool.not_eq_true]
      exact fun h' => h (hpair.mp h')
    simp only [length, if_neg h, hf, length_codePointBytes, kMaxOneByteChar, kMaxTwoByteChar,
      kMaxThreeByteChar, Bool.false_eq_true, if_false]
    split_ifs <;> omega

end Utf8

end WeexBridge.V8
