/-
# `String::New` — decoding a C string

`String::New` measures its argument with `strlen`, copies the ASCII prefix, and
decodes the rest in two passes of `Utf8Decoder`: `Reset` counts the units and
keeps the first 512 of them; `WriteUtf16` copies these and decodes the others
again, with no bound on what it reads.

On a modified UTF-8 text both passes see the same units (`Reads`), wherever the
prefix ends and wherever the buffer does.  Every unit comes back as it was but
the zero unit: `C0 80` is overlong to this decoder, and gives two `U+FFFD`.

A text that is too long for a sequential string is refused (`Makes`), and the
handle that `String::New` gives is empty.  A read outside the C string is `none`.
-/
import WeexBridge.V8.HeapString
import WeexBridge.V8.Unicode

namespace WeexBridge.V8

open CodeUnits

namespace Utf8

/-! ## One character -/

/-- `str[i] ^ 0x80`, when it has no bit of `0xC0`. -/
def continuation (byte : UInt8) : Option Nat :=
  let bits := byte.toNat ^^^ 0x80
  if bits &&& 0xC0 = 0 then some bits else none

/-- `Utf8::CalculateValue`: the character and the number of bytes it takes. -/
def calculateValue (str : List UInt8) (length : Nat) : Option (Nat × Nat) :=
  if length = 1 then some (kBadChar, 1)
  else
    str[0]?.bind fun first => str[1]?.bind fun byte₁ =>
      match continuation byte₁ with
      | none => some (kBadChar, 1)
      | some second =>
          if first.toNat < 0xE0 then
            if first.toNat < 0xC0 then some (kBadChar, 1)
            else
              let codePoint := ((first.toNat <<< 6) ||| second) &&& kMaxTwoByteChar
              if codePoint ≤ kMaxOneByteChar then some (kBadChar, 1) else some (codePoint, 2)
          else if length = 2 then some (kBadChar, 1)
          else
            str[2]?.bind fun byte₂ =>
              match continuation byte₂ with
              | none => some (kBadChar, 1)
              | some third =>
                  if first.toNat < 0xF0 then
                    let codePoint :=
                      ((((first.toNat <<< 6) ||| second) <<< 6) ||| third) &&& kMaxThreeByteChar
                    if codePoint ≤ kMaxTwoByteChar then some (kBadChar, 1) else some (codePoint, 3)
                  else if length = 3 then some (kBadChar, 1)
                  else
                    str[3]?.bind fun byte₃ =>
                      match continuation byte₃ with
                      | none => some (kBadChar, 1)
                      | some fourth =>
                          if first.toNat < 0xF8 then
                            let codePoint :=
                              ((((((first.toNat <<< 6) ||| second) <<< 6) ||| third) <<< 6) |||
                                fourth) &&& kMaxFourByteChar
                            if codePoint ≤ kMaxThreeByteChar then some (kBadChar, 1)
                            else some (codePoint, 4)
                          else some (kBadChar, 1)

/-- `Utf8::ValueOf`: the character and how far the cursor moves. -/
def valueOf (bytes : List UInt8) (length : Nat) : Option (Nat × Nat) :=
  if length = 0 then some (kBadChar, 0)
  else
    bytes[0]?.bind fun first =>
      if first.toNat ≤ kMaxOneByteChar then some (first.toNat, 1)
      else calculateValue bytes length

end Utf8

/-! ## `Utf8Decoder` -/

/-- `Utf8DecoderBase`, with the cells of its buffer written so far. -/
structure Utf8Decoder where
  buffer : List UInt16
  unbufferedStart : Option (List UInt8)
  utf16Length : Nat
  lastByteOfBufferUnused : Bool
  deriving DecidableEq, Repr

namespace Utf8Decoder

/-- The buffer of `UnicodeCache::Utf8Decoder`. -/
def kBufferSize : Nat := 512

/-- The units of one character. -/
def unitsOf (character : Nat) : List UInt16 :=
  if character > Utf16.kMaxNonSurrogateCharCode then
    [Utf16.leadSurrogate character, Utf16.trailSurrogate character]
  else [.ofNat character]

/-- The loop of `Reset`; an iteration consumes at least one byte. -/
def resetLoop : Nat → List UInt8 → Nat → Bool → Utf8Decoder → Option Utf8Decoder
  | _, _, 0, _, d => some d
  | 0, _, _ + 1, _, _ => none
  | fuel + 1, stream, streamLength + 1, writingToBuffer, d =>
      (Utf8.valueOf stream (streamLength + 1)).bind fun (character, cursor) =>
        let rest := stream.drop cursor
        let restLength := streamLength + 1 - cursor
        let units := unitsOf character
        let d := { d with utf16Length := d.utf16Length + units.length }
        if writingToBuffer = false then resetLoop fuel rest restLength false d
        else if d.utf16Length ≤ kBufferSize then
          let d := { d with buffer := d.buffer ++ units }
          if d.utf16Length = kBufferSize then
            -- Just wrote last character of buffer
            resetLoop fuel rest restLength false { d with unbufferedStart := some rest }
          else resetLoop fuel rest restLength true d
        else
          -- Last char of buffer is unused, set cursor back.
          resetLoop fuel rest restLength false
            { d with lastByteOfBufferUnused := true, unbufferedStart := some stream }

/-- `Utf8DecoderBase::Reset`. -/
def reset (stream : List UInt8) (streamLength : Nat) : Option Utf8Decoder :=
  resetLoop streamLength stream streamLength true ⟨[], none, 0, false⟩

/-- `Utf8DecoderBase::WriteUtf16Slow`: the next `dataLength` units. -/
def writeUtf16Slow : Nat → List UInt8 → Option (List UInt16)
  | 0, _ => some []
  | dataLength + 1, stream =>
      (Utf8.valueOf stream Utf8.kMaxEncodedSize).bind fun (character, cursor) =>
        if character > Utf16.kMaxNonSurrogateCharCode then
          match dataLength with
          | 0 => none
          | dataLength + 1 =>
              (writeUtf16Slow dataLength (stream.drop cursor)).map (unitsOf character ++ ·)
        else (writeUtf16Slow dataLength (stream.drop cursor)).map (unitsOf character ++ ·)

/-- `memcpy` from the buffer. -/
def copyBuffer (d : Utf8Decoder) (length : Nat) : Option (List UInt16) :=
  if length ≤ d.buffer.length then some (d.buffer.take length) else none

/-- `Utf8Decoder::WriteUtf16`. -/
def writeUtf16 (d : Utf8Decoder) (length : Nat) : Option (List UInt16) :=
  let length := if length > d.utf16Length then d.utf16Length else length
  let bufferLength := if d.lastByteOfBufferUnused then kBufferSize - 1 else kBufferSize
  let memcpyLength := if length ≤ bufferLength then length else bufferLength
  (d.copyBuffer memcpyLength).bind fun data =>
    if length ≤ bufferLength then some data
    else
      d.unbufferedStart.bind fun start =>
        (writeUtf16Slow (length - bufferLength) start).map (data ++ ·)

end Utf8Decoder

/-! ## Allocation -/

def isAscii (c : UInt8) : Bool := c.toNat ≤ Utf8.kMaxOneByteChar

/-- The byte loop of `NonAsciiStart`. -/
def nonAsciiByte : List UInt8 → Nat
  | [] => 0
  | c :: chars => if isAscii c then nonAsciiByte chars + 1 else 0

/-- `String::NonAsciiStart`.  `word` is `sizeof(uintptr_t)` on a host that can
read unaligned, and 0 elsewhere; the first argument bounds the words. -/
def nonAsciiStart (word : Nat) : Nat → List UInt8 → Nat
  | 0, chars => nonAsciiByte chars
  | words + 1, chars =>
      if 0 < word ∧ word ≤ chars.length then
        if (chars.take word).all isAscii then nonAsciiStart word words (chars.drop word) + word
        else 0
      else nonAsciiByte chars

/-- `Heap::AllocateStringFromUtf8Slow`, with the limit of `AllocateRawTwoByteString`.
The decoder may read past the text, in what `memory` holds after it. -/
def allocateStringFromUtf8Slow (memory : List UInt8) (length nonAsciiStart : Nat) :
    Option (MaybeObject Str) :=
  (Utf8Decoder.reset (memory.drop nonAsciiStart) (length - nonAsciiStart)).bind fun decoder =>
    let chars := nonAsciiStart + decoder.utf16Length
    if chars > kMaxTwoByteLength then some none
    else (decoder.writeUtf16 decoder.utf16Length).map fun data =>
      some (.seq (.twoByte ((memory.take nonAsciiStart).map UInt8.toUInt16 ++ data)))

/-- `Heap::AllocateStringFromOneByte`, with the limit of `AllocateRawOneByteString`. -/
def allocateStringFromOneByte (string : List UInt8) : MaybeObject Str :=
  if string.length > kMaxOneByteLength then none else some (.seq (.oneByte string))

/-- `Heap::AllocateStringFromUtf8`. -/
def allocateStringFromUtf8 (word : Nat) (memory : List UInt8) (length : Nat) :
    Option (MaybeObject Str) :=
  let start := nonAsciiStart word length (memory.take length)
  if start ≥ length then
    -- UTF8 is backwards compatible with ASCII.
    some (allocateStringFromOneByte (memory.take length))
  else allocateStringFromUtf8Slow memory length start

/-- `String::New(data)`: the text ends at the first zero byte.  An `int` that `strlen`
overflows is negative, and is refused like a length above the limits. -/
def stringNew (word : Nat) (memory : List UInt8) : Option (MaybeObject Str) :=
  allocateStringFromUtf8 word memory (cString memory).length

/-- The longest string that `String::New` makes of the bytes. -/
def newStringLimit (bytes : List UInt8) : Nat :=
  if bytes.all isAscii then kMaxOneByteLength else kMaxTwoByteLength

/-- The answer of `String::New`, where the bytes stand for the units. -/
structure Makes (bytes : List UInt8) (units : List UInt16) (result : MaybeObject Str) : Prop where
  refused : result = none ↔ newStringLimit bytes < units.length
  made : ∀ s, result = some s → s.WellFormed ∧ s.units = units

theorem newStringLimit_le (bytes : List UInt8) :
    kMaxTwoByteLength ≤ newStringLimit bytes ∧ newStringLimit bytes ≤ kMaxOneByteLength := by
  unfold newStringLimit
  split_ifs <;> decide

theorem Makes.exists_some {bytes : List UInt8} {units : List UInt16} {result : MaybeObject Str}
    (h : Makes bytes units result) (hle : units.length ≤ newStringLimit bytes) :
    ∃ s, result = some s ∧ s.WellFormed ∧ s.units = units := by
  cases result with
  | none => exact absurd (h.refused.mp rfl) (Nat.not_lt.mpr hle)
  | some s => exact ⟨s, rfl, h.made s rfl⟩

theorem makes_oneByte {bytes : List UInt8} (h : bytes.all isAscii = true) :
    Makes bytes (bytes.map UInt8.toUInt16) (allocateStringFromOneByte bytes) := by
  unfold allocateStringFromOneByte
  constructor
  · rw [newStringLimit, if_pos h, List.length_map]
    split_ifs with hlong
    · exact iff_of_true rfl hlong
    · exact iff_of_false not_false hlong
  · intro s hs
    split_ifs at hs
    cases hs
    exact ⟨trivial, rfl⟩

theorem makes_twoByte {bytes : List UInt8} (h : ¬ bytes.all isAscii = true)
    (units : List UInt16) :
    Makes bytes units
      (if units.length > kMaxTwoByteLength then none else some (.seq (.twoByte units))) := by
  constructor
  · rw [newStringLimit, if_neg h]
    split_ifs with hlong
    · exact iff_of_true rfl hlong
    · exact iff_of_false not_false hlong
  · intro s hs
    split_ifs at hs
    cases hs
    exact ⟨trivial, rfl⟩

theorem Utf8Decoder.length_writeUtf16Slow {dataLength : Nat} {stream : List UInt8}
    {data : List UInt16} (h : writeUtf16Slow dataLength stream = some data) :
    data.length = dataLength := by
  induction dataLength using Nat.strong_induction_on generalizing stream data with
  | _ dataLength ih =>
      cases dataLength with
      | zero =>
          cases h
          rfl
      | succ n =>
          rw [writeUtf16Slow] at h
          obtain ⟨⟨character, cursor⟩, -, h⟩ := Option.bind_eq_some_iff.mp h
          dsimp only at h
          split_ifs at h with htwo
          · cases n with
            | zero => cases h
            | succ n =>
                obtain ⟨tail, htail, rfl⟩ := Option.map_eq_some_iff.mp h
                rw [List.length_append, ih n (by omega) htail, unitsOf, if_pos htwo]
                exact Nat.add_comm 2 n
          · obtain ⟨tail, htail, rfl⟩ := Option.map_eq_some_iff.mp h
            rw [List.length_append, ih n (by omega) htail, unitsOf, if_neg htwo]
            exact Nat.add_comm 1 n

theorem Utf8Decoder.length_writeUtf16 {d : Utf8Decoder} {data : List UInt16}
    (h : d.writeUtf16 d.utf16Length = some data) : data.length = d.utf16Length := by
  simp only [writeUtf16, copyBuffer, if_neg (Nat.lt_irrefl _)] at h
  generalize (if d.lastByteOfBufferUnused then kBufferSize - 1 else kBufferSize) = k at h
  obtain ⟨front, hfront, h⟩ := Option.bind_eq_some_iff.mp h
  split_ifs at hfront h with hshort hroom hroom
  · cases hfront
    cases h
    rw [List.length_take]
    omega
  · cases hfront
    obtain ⟨start, -, h⟩ := Option.bind_eq_some_iff.mp h
    obtain ⟨tail, htail, rfl⟩ := Option.map_eq_some_iff.mp h
    rw [List.length_append, List.length_take, length_writeUtf16Slow htail]
    omega

/-- What `String::New` makes is sequential, and within the limits. -/
theorem wellFormed_stringNew {word : Nat} {memory : List UInt8} {s : Str}
    (h : stringNew word memory = some (some s)) :
    s.WellFormed ∧ s.length ≤ Str.kMaxLength := by
  have hone : kMaxOneByteLength ≤ Str.kMaxLength := by decide
  have htwo : kMaxTwoByteLength ≤ Str.kMaxLength := by decide
  unfold stringNew allocateStringFromUtf8 at h
  dsimp only at h
  split_ifs at h
  · unfold allocateStringFromOneByte at h
    split_ifs at h with hlong
    · cases h
    · cases h
      exact ⟨trivial, Nat.le_trans (Nat.not_lt.mp hlong) hone⟩
  · obtain ⟨decoder, -, h⟩ := Option.bind_eq_some_iff.mp h
    dsimp only at h
    split_ifs at h with hlong
    · cases h
    · obtain ⟨data, hdata, h⟩ := Option.map_eq_some_iff.mp h
      cases h
      have hlength := Utf8Decoder.length_writeUtf16 hdata
      refine ⟨trivial, Nat.le_trans ?_ htwo⟩
      simp only [Str.length, FlatChars.length, List.length_append, List.length_map,
        List.length_take]
      omega

/-! ## One unit of modified UTF-8 -/

namespace Utf8

theorem continuation_of_isTail {b : UInt8} (h : IsTail b) :
    continuation b = some (b.toNat - 0x80) := by
  have hfin : ∀ m : Fin 256, 0x80 ≤ m.val → m.val < 0xC0 →
      m.val ^^^ 0x80 = m.val - 0x80 ∧ (m.val - 0x80) &&& 0xC0 = 0 := by
    decide +kernel
  obtain ⟨hx, ha⟩ := hfin ⟨b.toNat, b.toNat_lt⟩ h.1 h.2
  simp only at hx ha
  simp only [continuation, hx, ha, if_pos]

/-- The continuation byte that holds the six low bits of `n`. -/
theorem continuation_ofNat (n : Nat) :
    continuation (UInt8.ofNat (0x80 + n % 64)) = some (n % 64) := by
  have hn : (UInt8.ofNat (0x80 + n % 64)).toNat = 0x80 + n % 64 := toNat_ofNat_of_lt (by omega)
  have htail : IsTail (UInt8.ofNat (0x80 + n % 64)) := by
    unfold IsTail
    omega
  rw [continuation_of_isTail htail, hn, Nat.add_sub_cancel_left]

theorem shiftLeft_or {n : Nat} (m : Nat) (h : n < 64) : (m <<< 6) ||| n = m * 64 + n := by
  rw [← Nat.shiftLeft_add_eq_or_of_lt (i := 6) h, Nat.shiftLeft_eq]

theorem and_kMaxTwoByteChar (n : Nat) : n &&& kMaxTwoByteChar = n % 0x800 :=
  Nat.and_two_pow_sub_one_eq_mod n 11

theorem and_kMaxThreeByteChar (n : Nat) : n &&& kMaxThreeByteChar = n % 0x10000 :=
  Nat.and_two_pow_sub_one_eq_mod n 16

/-- The sequence of a unit gives the unit back. -/
theorem valueOf_codePointBytes {u : UInt16} {rest : List UInt8} {length : Nat}
    (hlen : (codePointBytes u.toNat).length ≤ length) :
    valueOf (codePointBytes u.toNat ++ rest) length =
      some (u.toNat, (codePointBytes u.toNat).length) := by
  have hu := u.toNat_lt
  rw [length_codePointBytes] at hlen ⊢
  by_cases h1 : u.toNat < 0x80
  · have ha : (UInt8.ofNat u.toNat).toNat = u.toNat := toNat_ofNat_of_lt (by omega)
    rw [if_pos h1] at hlen ⊢
    simp only [codePointBytes, if_pos h1, valueOf, List.cons_append, List.getElem?_cons_zero,
      Option.bind_some, ha, kMaxOneByteChar]
    rw [if_neg (by omega), if_pos (by omega)]
  by_cases h2 : u.toNat < 0x800
  · have ha : (UInt8.ofNat (0xC0 + u.toNat / 64)).toNat = 0xC0 + u.toNat / 64 :=
      toNat_ofNat_of_lt (by omega)
    have hvalue : ((0xC0 + u.toNat / 64) * 64 + u.toNat % 64) % 0x800 = u.toNat := by omega
    rw [if_neg h1, if_pos h2] at hlen ⊢
    rw [codePointBytes_two (by omega) h2]
    simp only [valueOf, calculateValue, List.cons_append, List.nil_append,
      List.getElem?_cons_zero, List.getElem?_cons_succ, Option.bind_some, ha, continuation_ofNat,
      shiftLeft_or _ (Nat.mod_lt u.toNat (by decide : 0 < 64)), and_kMaxTwoByteChar, hvalue,
      kMaxOneByteChar]
    rw [if_neg (by omega), if_neg (by omega), if_neg (by omega), if_pos (by omega),
      if_neg (by omega), if_neg (by omega)]
  · have ha : (UInt8.ofNat (0xE0 + u.toNat / 4096)).toNat = 0xE0 + u.toNat / 4096 :=
      toNat_ofNat_of_lt (by omega)
    have hvalue : (((0xE0 + u.toNat / 4096) * 64 + u.toNat / 64 % 64) * 64 + u.toNat % 64) %
        0x10000 = u.toNat := by omega
    rw [if_neg h1, if_neg h2, if_pos (by omega)] at hlen ⊢
    rw [codePointBytes_three (by omega) (by omega)]
    simp only [valueOf, calculateValue, List.cons_append, List.nil_append,
      List.getElem?_cons_zero, List.getElem?_cons_succ, Option.bind_some, ha, continuation_ofNat,
      shiftLeft_or _ (Nat.mod_lt _ (by decide : 0 < 64)), and_kMaxThreeByteChar, hvalue,
      kMaxOneByteChar, kMaxTwoByteChar]
    rw [if_neg (by omega), if_neg (by omega), if_neg (by omega), if_neg (by omega),
      if_neg (by omega), if_pos (by omega), if_neg (by omega)]

/-- `C0 80` is overlong. -/
theorem valueOf_zeroUnit {rest : List UInt8} {length : Nat} (hlen : 2 ≤ length) :
    valueOf (0xC0 :: 0x80 :: rest) length = some (kBadChar, 1) := by
  have ha : (0xC0 : UInt8).toNat = 0xC0 := rfl
  have hb : continuation 0x80 = some 0 := rfl
  have hv : ((0xC0 <<< 6) ||| 0) &&& kMaxTwoByteChar = 0 := rfl
  simp only [valueOf, calculateValue, List.getElem?_cons_zero, List.getElem?_cons_succ,
    Option.bind_some, ha, hb, hv, kMaxOneByteChar]
  rw [if_neg (by omega), if_neg (by omega), if_neg (by omega), if_pos (by omega),
    if_neg (by omega), if_pos (by omega)]

/-- A continuation byte with nothing before it. -/
theorem valueOf_stray {b : UInt8} {rest : List UInt8} {length : Nat} (hlen : 1 ≤ length) :
    valueOf (0x80 :: b :: rest) length = some (kBadChar, 1) := by
  have ha : (0x80 : UInt8).toNat = 0x80 := rfl
  simp only [valueOf, calculateValue, List.getElem?_cons_zero, List.getElem?_cons_succ,
    Option.bind_some, ha, kMaxOneByteChar]
  rw [if_neg (by omega), if_neg (by omega)]
  by_cases h1 : length = 1
  · rw [if_pos h1]
  · rw [if_neg h1]
    cases continuation b with
    | none => rfl
    | some second =>
        show (if _ then _ else _) = _
        rw [if_pos (by decide), if_pos (by decide)]

end Utf8

/-! ## The two passes -/

namespace Utf8Decoder

/-- With `n` bytes of `stream` left, the decoder reads the units `us`, none of
them half of a pair, and reads the same ones when it believes that there are
four bytes left. -/
inductive Reads : List UInt8 → Nat → List UInt16 → Prop where
  | nil {stream : List UInt8} : Reads stream 0 []
  | cons {stream : List UInt8} {n cursor : Nat} {u : UInt16} {us : List UInt16}
      (cursor_pos : 0 < cursor) (cursor_le : cursor ≤ n)
      (bounded : Utf8.valueOf stream n = some (u.toNat, cursor))
      (unbounded : Utf8.valueOf stream Utf8.kMaxEncodedSize = some (u.toNat, cursor))
      (rest : Reads (stream.drop cursor) (n - cursor) us) : Reads stream n (u :: us)

theorem unitsOf_toNat (u : UInt16) : unitsOf u.toNat = [u] := by
  have hu := u.toNat_lt
  rw [unitsOf, if_neg (by simp only [Utf16.kMaxNonSurrogateCharCode]; omega), UInt16.ofNat_toNat]

/-- The second pass reads what `Reads` says, and no more than it is asked for. -/
theorem writeUtf16Slow_eq {stream : List UInt8} {n : Nat} {us : List UInt16}
    (h : Reads stream n us) : writeUtf16Slow us.length stream = some us := by
  induction h with
  | nil => rfl
  | @cons stream n cursor u us _ _ _ unbounded _ ih =>
      have hu : ¬ u.toNat > Utf16.kMaxNonSurrogateCharCode := by
        have := u.toNat_lt
        simp only [Utf16.kMaxNonSurrogateCharCode]
        omega
      rw [List.length_cons, writeUtf16Slow, unbounded, Option.bind_some]
      simp only [if_neg hu, ih, unitsOf_toNat, Option.map_some, List.singleton_append]

/-- What the first pass leaves of the units `us`: the first 512 in the buffer,
and, when there are more, where the others start. -/
structure Holds (d : Utf8Decoder) (us : List UInt16) : Prop where
  length : d.utf16Length = us.length
  used : d.lastByteOfBufferUnused = false
  buffer : d.buffer = us.take kBufferSize
  start : kBufferSize < us.length →
    ∃ stream n, d.unbufferedStart = some stream ∧ Reads stream n (us.drop kBufferSize)

/-- Once the buffer is full the loop only counts. -/
theorem resetLoop_counting : ∀ {us : List UInt16} {fuel : Nat} {stream : List UInt8} {n : Nat}
    (d : Utf8Decoder), Reads stream n us → n ≤ fuel →
      resetLoop fuel stream n false d = some { d with utf16Length := d.utf16Length + us.length }
  | [], fuel, stream, n, d, h, hn => by
      cases h
      cases fuel <;> rfl
  | u :: us, fuel, stream, n, d, h, hn => by
      cases h with
      | @cons _ _ cursor _ _ hpos hle bounded _ rest =>
          obtain ⟨n, rfl⟩ : ∃ m, n = m + 1 := ⟨n - 1, by omega⟩
          obtain ⟨fuel, rfl⟩ : ∃ m, fuel = m + 1 := ⟨fuel - 1, by omega⟩
          have hle : n + 1 - cursor ≤ fuel := by omega
          have ih := resetLoop_counting { d with utf16Length := d.utf16Length + 1 } rest hle
          rw [resetLoop, bounded, Option.bind_some]
          simp only [if_true, unitsOf_toNat, List.length_singleton]
          rw [ih, List.length_cons, Nat.add_right_comm, Nat.add_assoc]

/-- The loop while it still writes to the buffer: `done` are the units read so
far, fewer than the buffer holds. -/
theorem resetLoop_writing : ∀ {us : List UInt16} (done : List UInt16) {fuel : Nat}
    {stream : List UInt8} {n : Nat},
    Reads stream n us → n ≤ fuel → done.length < kBufferSize →
      ∃ d, resetLoop fuel stream n true ⟨done, none, done.length, false⟩ = some d ∧
        Holds d (done ++ us)
  | [], done, fuel, stream, n, h, hn, hdone => by
      cases h
      refine ⟨⟨done, none, done.length, false⟩, by cases fuel <;> rfl, ?_⟩
      rw [List.append_nil]
      exact ⟨rfl, rfl, (List.take_of_length_le (Nat.le_of_lt hdone)).symm,
        fun hlt => absurd hlt (by omega)⟩
  | u :: us, done, fuel, stream, n, h, hn, hdone => by
      cases h with
      | @cons _ _ cursor _ _ hpos hle bounded _ rest =>
          obtain ⟨n, rfl⟩ : ∃ m, n = m + 1 := ⟨n - 1, by omega⟩
          obtain ⟨fuel, rfl⟩ : ∃ m, fuel = m + 1 := ⟨fuel - 1, by omega⟩
          have happ : done ++ u :: us = done ++ [u] ++ us := List.append_cons done u us
          have hlen : (done ++ [u]).length = done.length + 1 := List.length_append
          rw [resetLoop, bounded, Option.bind_some]
          simp only [Bool.true_eq_false, if_false, unitsOf_toNat, List.length_singleton]
          rw [if_pos (Nat.succ_le_of_lt hdone), happ]
          by_cases hfull : done.length + 1 = kBufferSize
          · -- the last cell of the buffer was just written
            rw [if_pos hfull, resetLoop_counting _ rest (by omega)]
            refine ⟨_, rfl, ?_, rfl, ?_, ?_⟩
            · show done.length + 1 + us.length = _
              rw [List.length_append, hlen]
            · rw [← hfull, ← hlen, List.take_left]
            · intro _
              refine ⟨_, n + 1 - cursor, rfl, ?_⟩
              rw [← hfull, ← hlen, List.drop_left]
              exact rest
          · rw [if_neg hfull, ← hlen]
            exact resetLoop_writing (done ++ [u]) rest (by omega) (by omega)

theorem reset_holds {stream : List UInt8} {n : Nat} {us : List UInt16} (h : Reads stream n us) :
    ∃ d, reset stream n = some d ∧ Holds d us :=
  resetLoop_writing [] h (Nat.le_refl n) (by decide)

/-- The second pass gives every unit back, from the buffer or from the stream. -/
theorem writeUtf16_eq {d : Utf8Decoder} {us : List UInt16} (h : Holds d us) :
    d.writeUtf16 d.utf16Length = some us := by
  have hlen := h.length
  simp only [writeUtf16, h.used, if_neg (Nat.lt_irrefl _), Bool.false_eq_true, if_false]
  by_cases hshort : d.utf16Length ≤ kBufferSize
  · have hbuf : d.buffer = us := by
      rw [h.buffer, List.take_of_length_le (by omega)]
    simp only [if_pos hshort, copyBuffer, hbuf]
    rw [if_pos (by omega), Option.bind_some, hlen, List.take_length]
  · obtain ⟨stream, n, hstart, hreads⟩ := h.start (by omega)
    have hslow := writeUtf16Slow_eq hreads
    rw [List.length_drop, ← hlen] at hslow
    have hbuf : d.copyBuffer kBufferSize = some (us.take kBufferSize) := by
      rw [copyBuffer, h.buffer, if_pos (by rw [List.length_take]; omega), List.take_take,
        Nat.min_self]
    simp only [if_neg hshort, hbuf, Option.bind_some, hstart, hslow, Option.map_some,
      List.take_append_drop]

end Utf8Decoder

/-! ## Modified UTF-8 -/

/-- What the decoder makes of the sequence of one unit. -/
def decodedUnit (u : UInt16) : List UInt16 := if u = 0 then [0xFFFD, 0xFFFD] else [u]

/-- What it makes of a text. -/
def decodedUnits (us : List UInt16) : List UInt16 := us.flatMap decodedUnit

theorem decodedUnits_cons (u : UInt16) (us : List UInt16) :
    decodedUnits (u :: us) = decodedUnit u ++ decodedUnits us := List.flatMap_cons

theorem decodedUnits_append (xs ys : List UInt16) :
    decodedUnits (xs ++ ys) = decodedUnits xs ++ decodedUnits ys := List.flatMap_append

theorem decodedUnits_of_zero_not_mem : ∀ {us : List UInt16}, (0 : UInt16) ∉ us →
    decodedUnits us = us
  | [], _ => rfl
  | u :: us, h => by
      have hu : u ≠ 0 := fun h' => h (h' ▸ List.mem_cons_self)
      rw [decodedUnits_cons, decodedUnit, if_neg hu,
        decodedUnits_of_zero_not_mem fun h' => h (List.mem_cons_of_mem u h')]
      rfl

/-- A zero unit becomes two units, so the text grows. -/
theorem length_decodedUnits (us : List UInt16) :
    (decodedUnits us).length = us.length + us.count 0 := by
  induction us with
  | nil => rfl
  | cons u us ih =>
      rw [decodedUnits_cons, List.length_append, ih, List.length_cons, List.count_cons, decodedUnit]
      by_cases hu : u = 0
      · simp only [hu, if_true, beq_self_eq_true, List.length_cons, List.length_nil]
        omega
      · simp only [hu, if_false, beq_iff_eq, List.length_singleton]
        omega

theorem decodedUnits_eq_self_iff (us : List UInt16) :
    decodedUnits us = us ↔ (0 : UInt16) ∉ us := by
  constructor
  · intro h
    have hlen := congrArg List.length h
    rw [length_decodedUnits] at hlen
    exact List.count_eq_zero.mp (by omega)
  · exact decodedUnits_of_zero_not_mem

open Utf8Decoder in
/-- The decoder on a modified UTF-8 text with a zero byte after it. -/
theorem reads_modifiedUtf8 (rest : List UInt8) : ∀ us : List UInt16,
    Reads (modifiedUtf8 us ++ 0 :: rest) (modifiedUtf8 us).length (decodedUnits us)
  | [] => Reads.nil
  | u :: us => by
      have ih := reads_modifiedUtf8 rest us
      rw [modifiedUtf8_cons, decodedUnits_cons, List.append_assoc, List.length_append]
      by_cases hu : u = 0
      · -- `C0`, then `80`, whatever follows
        subst hu
        obtain ⟨b, tail, htail⟩ : ∃ b tail, modifiedUtf8 us ++ 0 :: rest = b :: tail := by
          cases modifiedUtf8 us with
          | nil => exact ⟨0, rest, rfl⟩
          | cons b tail => exact ⟨b, tail ++ 0 :: rest, rfl⟩
        rw [htail] at ih ⊢
        have hlen : (modifiedUnit 0).length = 2 := rfl
        have hlast : Reads (0x80 :: b :: tail) ((modifiedUtf8 us).length + 1)
            (0xFFFD :: decodedUnits us) :=
          Reads.cons Nat.one_pos (Nat.le_add_left _ _) (Utf8.valueOf_stray (Nat.le_add_left _ _))
            (Utf8.valueOf_stray (by decide)) ih
        have hfirst : Utf8.valueOf (0xC0 :: 0x80 :: b :: tail) (2 + (modifiedUtf8 us).length) =
            some (Utf8.kBadChar, 1) := Utf8.valueOf_zeroUnit (Nat.le_add_right _ _)
        refine Reads.cons Nat.one_pos (by omega) hfirst (Utf8.valueOf_zeroUnit (by decide)) ?_
        rw [hlen, Nat.add_comm, Nat.add_sub_assoc (by decide)]
        exact hlast
      · have hm : modifiedUnit u = codePointBytes u.toNat := if_neg hu
        have hd : decodedUnit u = [u] := if_neg hu
        have hlen := length_unit_bytes u
        rw [hm, hd]
        refine Reads.cons hlen.1 (Nat.le_add_right _ _)
          (Utf8.valueOf_codePointBytes (Nat.le_add_right _ _))
          (Utf8.valueOf_codePointBytes (Nat.le_trans hlen.2 (by decide))) ?_
        rw [List.drop_left, Nat.add_sub_cancel_left]
        exact ih

/-! ### The ASCII prefix -/

theorem nonAsciiByte_spec : ∀ chars : List UInt8,
    nonAsciiByte chars ≤ chars.length ∧ ∀ c ∈ chars.take (nonAsciiByte chars), isAscii c = true
  | [] => ⟨Nat.le_refl _, fun _ h => absurd h (by simp)⟩
  | c :: chars => by
      obtain ⟨hle, hall⟩ := nonAsciiByte_spec chars
      rw [nonAsciiByte]
      by_cases hc : isAscii c = true
      · rw [if_pos hc]
        refine ⟨Nat.succ_le_succ hle, fun d hd => ?_⟩
        rcases List.mem_cons.mp hd with rfl | hd
        · exact hc
        · exact hall d hd
      · rw [if_neg hc]
        exact ⟨Nat.zero_le _, fun d hd => absurd hd (by simp)⟩

theorem nonAsciiByte_of_all : ∀ {chars : List UInt8}, chars.all isAscii = true →
    nonAsciiByte chars = chars.length
  | [], _ => rfl
  | c :: chars, h => by
      rw [List.all_cons, Bool.and_eq_true] at h
      rw [nonAsciiByte, if_pos h.1, nonAsciiByte_of_all h.2, List.length_cons]

theorem nonAsciiStart_of_all (word : Nat) : ∀ (words : Nat) {chars : List UInt8},
    chars.all isAscii = true → nonAsciiStart word words chars = chars.length
  | 0, _, h => nonAsciiByte_of_all h
  | words + 1, chars, h => by
      rw [nonAsciiStart]
      split_ifs with hword htake
      · have hdrop : (chars.drop word).all isAscii = true :=
          List.all_eq_true.mpr fun c hc => List.all_eq_true.mp h c (List.mem_of_mem_drop hc)
        rw [nonAsciiStart_of_all word words hdrop, List.length_drop]
        omega
      · exact absurd (List.all_eq_true.mpr fun c hc =>
          List.all_eq_true.mp h c (List.mem_of_mem_take hc)) htake
      · exact nonAsciiByte_of_all h

/-- Everything before the start is ASCII, with and without the word loop. -/
theorem nonAsciiStart_spec (word : Nat) : ∀ (words : Nat) (chars : List UInt8),
    nonAsciiStart word words chars ≤ chars.length ∧
      ∀ c ∈ chars.take (nonAsciiStart word words chars), isAscii c = true
  | 0, chars => nonAsciiByte_spec chars
  | words + 1, chars => by
      rw [nonAsciiStart]
      by_cases hword : 0 < word ∧ word ≤ chars.length
      · rw [if_pos hword]
        by_cases hall : (chars.take word).all isAscii = true
        · rw [if_pos hall]
          obtain ⟨hle, ih⟩ := nonAsciiStart_spec word words (chars.drop word)
          rw [List.length_drop] at hle
          refine ⟨by omega, fun c hc => ?_⟩
          rw [Nat.add_comm, List.take_add] at hc
          rcases List.mem_append.mp hc with hc | hc
          · exact List.all_eq_true.mp hall c hc
          · exact ih c hc
        · rw [if_neg hall]
          exact ⟨Nat.zero_le _, fun c hc => absurd hc (by simp)⟩
      · rw [if_neg hword]
        exact nonAsciiByte_spec chars

/-- An ASCII byte of a modified UTF-8 text is a unit of its own. -/
theorem modifiedUnit_of_isAscii {u : UInt16} {b : UInt8} {bytes : List UInt8}
    (h : modifiedUnit u = b :: bytes) (hb : isAscii b = true) :
    u ≠ 0 ∧ bytes = [] ∧ b.toUInt16 = u := by
  have hu := u.toNat_lt
  have hb' : b.toNat ≤ 0x7F := of_decide_eq_true hb
  have hu0 : u ≠ 0 := by
    rintro rfl
    cases h
    exact absurd hb' (by decide)
  rw [modifiedUnit, if_neg hu0, codePointBytes] at h
  split_ifs at h with h₁ h₂
  · obtain ⟨rfl, rfl⟩ := List.cons.inj h
    refine ⟨hu0, rfl, UInt16.toNat_inj.mp ?_⟩
    rw [UInt8.toNat_toUInt16, toNat_ofNat_of_lt (by omega)]
  · obtain ⟨rfl, -⟩ := List.cons.inj h
    rw [toNat_ofNat_of_lt (by omega)] at hb'
    omega
  · obtain ⟨rfl, -⟩ := List.cons.inj h
    rw [toNat_ofNat_of_lt (by omega)] at hb'
    omega

/-- Cutting a modified UTF-8 text after ASCII bytes cuts the text there. -/
theorem ascii_prefix : ∀ (us : List UInt16) (k : Nat), k ≤ (modifiedUtf8 us).length →
    (∀ c ∈ (modifiedUtf8 us).take k, isAscii c = true) →
      ∃ tail, us = ((modifiedUtf8 us).take k).map UInt8.toUInt16 ++ tail ∧
        (modifiedUtf8 us).drop k = modifiedUtf8 tail ∧
        (0 : UInt16) ∉ ((modifiedUtf8 us).take k).map UInt8.toUInt16
  | us, 0, _, _ => ⟨us, rfl, rfl, List.not_mem_nil⟩
  | [], k + 1, hk, _ => absurd hk (by simp)
  | u :: us, k + 1, hk, hall => by
      rw [modifiedUtf8_cons] at hk hall ⊢
      cases hm : modifiedUnit u with
      | nil => exact absurd hm (modifiedUnit_ne_nil u)
      | cons b bytes =>
          rw [hm] at hk hall
          obtain ⟨hu0, rfl, hbu⟩ := modifiedUnit_of_isAscii hm (hall b List.mem_cons_self)
          have hk' : k ≤ (modifiedUtf8 us).length := Nat.le_of_succ_le_succ hk
          obtain ⟨tail, hus, hdrop, hzero⟩ :=
            ascii_prefix us k hk' fun c hc => hall c (List.mem_cons_of_mem b hc)
          refine ⟨tail, ?_, hdrop, ?_⟩
          · show u :: us = b.toUInt16 :: (((modifiedUtf8 us).take k).map UInt8.toUInt16 ++ tail)
            rw [hbu, ← hus]
          · show (0 : UInt16) ∉ b.toUInt16 :: ((modifiedUtf8 us).take k).map UInt8.toUInt16
            rw [hbu, List.mem_cons, not_or]
            exact ⟨hu0.symm, hzero⟩

/-! ### The string -/

/-- The two representations, where the ASCII prefix is copied and the decoder gives the
rest. -/
theorem makes_allocateStringFromUtf8 (word : Nat) {bytes rest : List UInt8} {units : List UInt16}
    (hnil : (∀ c ∈ bytes, isAscii c = true) → units = bytes.map UInt8.toUInt16)
    (hslow : ∀ k ≤ bytes.length, (∀ c ∈ bytes.take k, isAscii c = true) →
      ∃ d data, Utf8Decoder.reset ((bytes ++ 0 :: rest).drop k) (bytes.length - k) = some d ∧
        d.writeUtf16 d.utf16Length = some data ∧ d.utf16Length = data.length ∧
        units = (bytes.take k).map UInt8.toUInt16 ++ data) :
    ∃ result, allocateStringFromUtf8 word (bytes ++ 0 :: rest) bytes.length = some result ∧
      Makes bytes units result := by
  have htake : (bytes ++ 0 :: rest).take bytes.length = bytes := List.take_left
  simp only [allocateStringFromUtf8, htake]
  obtain ⟨hle, hall⟩ := nonAsciiStart_spec word bytes.length bytes
  have hwhole := @nonAsciiStart_of_all word bytes.length bytes
  generalize nonAsciiStart word bytes.length bytes = k at hle hall hwhole ⊢
  by_cases hk : k ≥ bytes.length
  · -- all of it is ASCII
    rw [if_pos hk]
    rw [List.take_of_length_le hk] at hall
    rw [hnil hall]
    exact ⟨_, rfl, makes_oneByte (List.all_eq_true.mpr hall)⟩
  · have hsome : ¬ bytes.all isAscii = true := fun h => hk (Nat.le_of_eq (hwhole h).symm)
    obtain ⟨d, data, hreset, hwrite, hlength, rfl⟩ := hslow k hle hall
    have hchars : k + d.utf16Length = ((bytes.take k).map UInt8.toUInt16 ++ data).length := by
      rw [List.length_append, List.length_map, List.length_take, Nat.min_eq_left hle, hlength]
    rw [if_neg hk, allocateStringFromUtf8Slow, hreset, Option.bind_some]
    simp only [hchars, hwrite, Option.map_some, List.take_append_of_le_length hle]
    refine ⟨_, ?_, makes_twoByte hsome _⟩
    split_ifs <;> rfl

/-- `String::New` on a modified UTF-8 text. -/
theorem stringNew_modifiedUtf8 (word : Nat) (us : List UInt16) (rest : List UInt8) :
    ∃ result, stringNew word (modifiedUtf8 us ++ 0 :: rest) = some result ∧
      Makes (modifiedUtf8 us) (decodedUnits us) result := by
  rw [stringNew, cString_append_zero (zero_not_mem_modifiedUtf8 us)]
  have hsplit : ∀ k ≤ (modifiedUtf8 us).length,
      (∀ c ∈ (modifiedUtf8 us).take k, isAscii c = true) → ∃ tail,
        (modifiedUtf8 us).drop k = modifiedUtf8 tail ∧
        decodedUnits us = ((modifiedUtf8 us).take k).map UInt8.toUInt16 ++ decodedUnits tail := by
    intro k hk hall
    obtain ⟨tail, hus, hdrop, hzero⟩ := ascii_prefix us k hk hall
    refine ⟨tail, hdrop, ?_⟩
    conv_lhs => rw [hus]
    rw [decodedUnits_append, decodedUnits_of_zero_not_mem hzero]
  refine makes_allocateStringFromUtf8 word ?_ ?_
  · intro hall
    rw [← List.take_length (l := modifiedUtf8 us)] at hall
    obtain ⟨tail, hdrop, hunits⟩ := hsplit _ (Nat.le_refl _) hall
    rw [List.drop_length] at hdrop
    cases tail with
    | cons u tail =>
        exact absurd (congrArg List.length hdrop.symm) (by
          have := length_le_length_modifiedUtf8 (u :: tail)
          simp only [List.length_cons, List.length_nil] at this ⊢
          omega)
    | nil => rw [hunits, List.take_length, decodedUnits, List.flatMap_nil, List.append_nil]
  · intro k hk hall
    obtain ⟨tail, hdrop, hunits⟩ := hsplit k hk hall
    have hlen : (modifiedUtf8 us).length - k = (modifiedUtf8 tail).length := by
      rw [← hdrop, List.length_drop]
    obtain ⟨d, hreset, hd⟩ := Utf8Decoder.reset_holds (reads_modifiedUtf8 rest tail)
    rw [List.drop_append_of_le_length hk, hdrop, hlen]
    exact ⟨d, _, hreset, Utf8Decoder.writeUtf16_eq hd, hd.length, hunits⟩

/-! ### Texts that come in whole -/

/-- The largest length of a string of these units that `String::New` makes. -/
def maxNewLength (us : List UInt16) : Nat :=
  if us.all fun u => u.toNat < 0x80 then kMaxOneByteLength else kMaxTwoByteLength

/-- The text has no U+0000, and a string can hold it. -/
def ComesWhole (us : List UInt16) : Prop := (0 : UInt16) ∉ us ∧ us.length ≤ maxNewLength us

instance : DecidablePred ComesWhole := fun _ => inferInstanceAs (Decidable (_ ∧ _))

theorem all_isAscii_modifiedUnit {u : UInt16} (hu : u ≠ 0) :
    (modifiedUnit u).all isAscii = true ↔ u.toNat < 0x80 := by
  constructor
  · intro hall
    cases hm : modifiedUnit u with
    | nil => exact absurd hm (modifiedUnit_ne_nil u)
    | cons b bytes =>
        rw [hm, List.all_cons, Bool.and_eq_true] at hall
        obtain ⟨-, -, rfl⟩ := modifiedUnit_of_isAscii hm hall.1
        rw [UInt8.toNat_toUInt16]
        exact Nat.lt_succ_of_le (of_decide_eq_true hall.1)
  · intro hlt
    have hle : u.toNat % 2 ^ 8 ≤ Utf8.kMaxOneByteChar :=
      Nat.le_trans (Nat.mod_le _ _) (Nat.le_of_lt_succ hlt)
    rw [modifiedUnit, if_neg hu, codePointBytes, if_pos hlt, List.all_cons, List.all_nil,
      Bool.and_true]
    exact decide_eq_true hle

theorem all_isAscii_modifiedUtf8 : ∀ {us : List UInt16}, (0 : UInt16) ∉ us →
    ((modifiedUtf8 us).all isAscii = true ↔ ∀ u ∈ us, u.toNat < 0x80)
  | [], _ => by simp
  | u :: us, h => by
      obtain ⟨hu, hus⟩ := not_or.mp (mt List.mem_cons.mpr h)
      rw [modifiedUtf8_cons, List.all_append, Bool.and_eq_true, List.forall_mem_cons,
        all_isAscii_modifiedUnit (Ne.symm hu), all_isAscii_modifiedUtf8 hus]

theorem newStringLimit_modifiedUtf8 {us : List UInt16} (h : (0 : UInt16) ∉ us) :
    newStringLimit (modifiedUtf8 us) = maxNewLength us := by
  unfold newStringLimit maxNewLength
  have hascii : (modifiedUtf8 us).all isAscii = us.all fun u => u.toNat < 0x80 := by
    rw [Bool.eq_iff_iff, all_isAscii_modifiedUtf8 h]
    simp
  rw [hascii]

/-- Exactly such a text becomes a string unit by unit. -/
theorem Makes.units_eq_iff {us : List UInt16} {result : MaybeObject Str}
    (h : Makes (modifiedUtf8 us) (decodedUnits us) result) :
    (∃ s, result = some s ∧ s.units = us) ↔ ComesWhole us := by
  constructor
  · rintro ⟨s, rfl, hs⟩
    have hzero : (0 : UInt16) ∉ us := by
      rw [← decodedUnits_eq_self_iff, ← (h.made s rfl).2, hs]
    refine ⟨hzero, Nat.le_of_not_lt fun hlong => ?_⟩
    have hrefused := h.refused.mpr
    rw [newStringLimit_modifiedUtf8 hzero, decodedUnits_of_zero_not_mem hzero] at hrefused
    cases hrefused hlong
  · rintro ⟨hzero, hle⟩
    rw [decodedUnits_of_zero_not_mem hzero] at h
    rw [← newStringLimit_modifiedUtf8 hzero] at hle
    obtain ⟨s, hs, -, hunits⟩ := h.exists_some hle
    exact ⟨s, hs, hunits⟩

/-- A string can hold what `String::New` makes of the text, two characters of each U+0000. -/
def Fits (us : List UInt16) : Prop := (decodedUnits us).length ≤ newStringLimit (modifiedUtf8 us)

instance : DecidablePred Fits := fun _ => inferInstanceAs (Decidable (_ ≤ _))

theorem comesWhole_iff {us : List UInt16} : ComesWhole us ↔ (0 : UInt16) ∉ us ∧ Fits us := by
  refine and_congr_right fun hzero => ?_
  rw [Fits, newStringLimit_modifiedUtf8 hzero, decodedUnits_of_zero_not_mem hzero]

theorem Makes.fits_iff {us : List UInt16} {result : MaybeObject Str}
    (h : Makes (modifiedUtf8 us) (decodedUnits us) result) : result.isSome = true ↔ Fits us := by
  rw [Option.isSome_iff_ne_none, Ne, h.refused, Nat.not_lt]
  exact Iff.rfl

end WeexBridge.V8
