/-
# Strings of bytes

`String::New` decodes in two passes: the first counts the characters and keeps the first 512,
the second goes on where the buffer ends, by the terminator alone.  Whatever the bytes are, the
passes agree, and the string is what one pass would give.  The bytes of `Utf8Value` give the
string back up to the first U+0000.

    Buffered    what the first pass leaves
-/
import WeexBridge.V8.Utf8Keys
import WeexBridge.V8.Utf8Value

namespace WeexBridge.V8

open CodeUnits Memory

/-! ## One character -/

namespace Utf8

theorem continuation_zero : continuation 0 = none := rfl

/-- A character is read up to the terminator at most, however many bytes may be read. -/
theorem valueOf_append {bytes : List UInt8} (hne : bytes ≠ []) (rest : List UInt8) {length : Nat}
    (hlength : bytes.length ≤ length ∨ kMaxEncodedSize ≤ length) :
    valueOf (bytes ++ 0 :: rest) length = valueOf bytes bytes.length := by
  unfold kMaxEncodedSize at hlength
  rcases bytes with _ | ⟨a, _ | ⟨b, _ | ⟨c, _ | ⟨d, bytes⟩⟩⟩⟩
  · exact absurd rfl hne
  · have hmore : length ≠ 0 := by
      simp at hlength
      omega
    simp [valueOf, calculateValue, hmore, continuation_zero]
  · have hmore : length ≠ 0 ∧ length ≠ 1 := by
      simp at hlength
      omega
    simp [valueOf, calculateValue, hmore, continuation_zero]
  · have hmore : length ≠ 0 ∧ length ≠ 1 ∧ length ≠ 2 := by
      simp at hlength
      omega
    simp [valueOf, calculateValue, hmore, continuation_zero]
  · have hmore : length ≠ 0 ∧ length ≠ 1 ∧ length ≠ 2 ∧ length ≠ 3 := by
      simp at hlength
      omega
    simp [valueOf, calculateValue, hmore]

/-- The next character, in the first pass and in the second. -/
theorem drop_append {bytes : List UInt8} {cursor : Nat} (hle : cursor ≤ bytes.length)
    (rest : List UInt8) :
    (bytes ++ 0 :: rest).drop cursor = bytes.drop cursor ++ 0 :: rest :=
  List.drop_append_of_le_length hle

end Utf8

/-! ## The passes -/

namespace Utf8Decoder

open Utf8

section
variable {bytes : List UInt8} {units : List UInt16} {rest : List UInt8}

theorem Decodes.ne_nil {cursor : Nat} (hpos : 0 < cursor) (hle : cursor ≤ bytes.length) :
    bytes ≠ [] := List.ne_nil_of_length_pos (Nat.lt_of_lt_of_le hpos hle)

/-- The second pass. -/
theorem writeUtf16Slow_of_decodes (h : Decodes bytes units) (rest : List UInt8) :
    writeUtf16Slow units.length (bytes ++ 0 :: rest) = some units := by
  induction h with
  | nil => rfl
  | @cons bytes c cursor units hpos hle hvalue _ ih =>
      have hread : valueOf (bytes ++ 0 :: rest) kMaxEncodedSize = some (c, cursor) :=
        (valueOf_append (Decodes.ne_nil hpos hle) rest (.inr (Nat.le_refl _))).trans hvalue
      rw [← drop_append hle] at ih
      unfold unitsOf
      split_ifs with htwo
      · rw [List.cons_append, List.cons_append, List.nil_append, List.length_cons, List.length_cons]
        unfold writeUtf16Slow
        rw [hread, Option.bind_some]
        dsimp only
        rw [if_pos htwo, ih, Option.map_some, unitsOf, if_pos htwo]
        rfl
      · rw [List.singleton_append, List.length_cons]
        unfold writeUtf16Slow
        rw [hread, Option.bind_some]
        dsimp only
        rw [if_neg htwo, ih, Option.map_some, unitsOf, if_neg htwo]
        rfl

/-- The first pass when the buffer is full: it counts. -/
theorem resetLoop_false (h : Decodes bytes units) (rest : List UInt8) (d : Utf8Decoder) {fuel : Nat}
    (hfuel : bytes.length ≤ fuel) :
    resetLoop fuel (bytes ++ 0 :: rest) bytes.length false d =
      some { d with utf16Length := d.utf16Length + units.length } := by
  induction h generalizing d fuel with
  | nil =>
      unfold resetLoop
      rfl
  | @cons bytes c cursor units hpos hle hvalue _ ih =>
      have hread :=
        (valueOf_append (Decodes.ne_nil hpos hle) rest (.inl (Nat.le_refl _))).trans hvalue
      obtain ⟨n, hn⟩ : ∃ n, bytes.length = n + 1 := ⟨bytes.length - 1, by omega⟩
      obtain ⟨fuel, rfl⟩ : ∃ k, fuel = k + 1 := ⟨fuel - 1, by omega⟩
      have hrest := @ih { d with utf16Length := d.utf16Length + (unitsOf c).length } fuel (by
        rw [List.length_drop]
        omega)
      rw [List.length_drop, ← drop_append hle, hn] at hrest
      rw [hn] at hread ⊢
      unfold resetLoop
      rw [hread, Option.bind_some]
      dsimp only
      rw [if_pos rfl, hrest, List.length_append, Nat.add_assoc]

/-- What the first pass leaves: the first `k` units, and where the second pass goes on. -/
structure Buffered (rest : List UInt8) (units : List UInt16) (k : Nat) (d : Utf8Decoder) :
    Prop where
  size : (if d.lastByteOfBufferUnused then kBufferSize - 1 else kBufferSize) = k
  length : d.utf16Length = units.length
  buffer : d.buffer = units.take k
  start : k < units.length → ∃ bytes, d.unbufferedStart = some (bytes ++ 0 :: rest) ∧
    Decodes bytes (units.drop k)

/-- The first pass while there is room. -/
theorem resetLoop_true (h : Decodes bytes units) (rest : List UInt8) {done : List UInt16}
    (hdone : done.length < kBufferSize) {fuel : Nat} (hfuel : bytes.length ≤ fuel) :
    ∃ d k, resetLoop fuel (bytes ++ 0 :: rest) bytes.length true ⟨done, none, done.length, false⟩ =
        some d ∧ Buffered rest (done ++ units) k d := by
  induction h generalizing done fuel with
  | nil =>
      refine ⟨⟨done, none, done.length, false⟩, kBufferSize, by unfold resetLoop; rfl, rfl, ?_, ?_,
        fun hlong => ?_⟩
      · rw [List.append_nil]
      · rw [List.append_nil]
        exact (List.take_of_length_le (Nat.le_of_lt hdone)).symm
      · rw [List.append_nil] at hlong
        exact absurd hlong (Nat.lt_asymm hdone)
  | @cons bytes c cursor units hpos hle hvalue hunits ih =>
      have hread :=
        (valueOf_append (Decodes.ne_nil hpos hle) rest (.inl (Nat.le_refl _))).trans hvalue
      have htwo := length_unitsOf_le c
      obtain ⟨n, hn⟩ : ∃ n, bytes.length = n + 1 := ⟨bytes.length - 1, by omega⟩
      obtain ⟨fuel, rfl⟩ : ∃ k, fuel = k + 1 := ⟨fuel - 1, by omega⟩
      have hfuel' : (bytes.drop cursor).length ≤ fuel := by
        rw [List.length_drop]
        omega
      have hn' : n + 1 - cursor = (bytes.drop cursor).length := by rw [List.length_drop, hn]
      have hlength : (done ++ unitsOf c).length = done.length + (unitsOf c).length :=
        List.length_append
      have htotal : done.length + (unitsOf c).length + units.length =
          (done ++ (unitsOf c ++ units)).length := by
        rw [List.length_append, List.length_append, Nat.add_assoc]
      rw [hn] at hread ⊢
      unfold resetLoop
      rw [hread, Option.bind_some]
      dsimp only
      rw [if_neg (by decide), drop_append hle, hn']
      split_ifs with hroom hfull
      · -- the last unit of the buffer
        rw [resetLoop_false hunits rest _ hfuel']
        refine ⟨_, kBufferSize, rfl, rfl, htotal, ?_, fun _ => ⟨bytes.drop cursor, rfl, ?_⟩⟩
        · rw [← List.append_assoc, List.take_left' (hlength.trans hfull)]
        · rwa [← List.append_assoc, List.drop_left' (hlength.trans hfull)]
      · rw [← hlength]
        obtain ⟨d, k, hloop, hbuffered⟩ := @ih (done ++ unitsOf c) (by omega) fuel hfuel'
        rw [List.append_assoc] at hbuffered
        exact ⟨d, k, hloop, hbuffered⟩
      · -- half of a pair would not fit
        have hlast : done.length = kBufferSize - 1 := by omega
        rw [resetLoop_false hunits rest _ hfuel']
        refine ⟨_, kBufferSize - 1, rfl, rfl, htotal, ?_, fun _ => ⟨bytes, rfl, ?_⟩⟩
        · rw [List.take_left' hlast]
        · rw [List.drop_left' hlast]
          exact .cons hpos hle hvalue hunits

/-- Both passes together. -/
theorem writeUtf16_of_buffered {d : Utf8Decoder} {k : Nat} (h : Buffered rest units k d) :
    d.writeUtf16 d.utf16Length = some units := by
  have hlength : (units.take k).length = min k units.length := List.length_take
  unfold writeUtf16 copyBuffer
  dsimp only
  rw [if_neg (Nat.lt_irrefl _), h.size, h.length, h.buffer, hlength]
  by_cases hshort : units.length ≤ k
  · rw [if_pos hshort, if_pos (by omega), Option.bind_some, if_pos hshort,
      List.take_of_length_le hshort, List.take_length]
  · obtain ⟨bytes, hstart, hdecodes⟩ := h.start (Nat.lt_of_not_le hshort)
    have hslow := writeUtf16Slow_of_decodes hdecodes rest
    rw [List.length_drop] at hslow
    rw [if_neg hshort, if_pos (by omega), Option.bind_some, if_neg hshort, hstart,
      Option.bind_some, hslow, Option.map_some, List.take_take, Nat.min_self,
      List.take_append_drop]

end

end Utf8Decoder

/-! ## `String::New` -/

section
variable {bytes : List UInt8} {units : List UInt16}

/-- The ASCII characters at the front may be copied. -/
theorem Utf8.Decodes.drop_ascii (h : Utf8.Decodes bytes units) {k : Nat} (hk : k ≤ bytes.length)
    (hascii : ∀ c ∈ bytes.take k, isAscii c = true) :
    ∃ units', units = (bytes.take k).map UInt8.toUInt16 ++ units' ∧
      Utf8.Decodes (bytes.drop k) units' := by
  induction k generalizing bytes units with
  | zero => exact ⟨units, rfl, h⟩
  | succ k ih =>
      cases bytes with
      | nil => simp at hk
      | cons b bytes =>
          have hb : b.toNat ≤ Utf8.kMaxOneByteChar := of_decide_eq_true (hascii b (by simp))
          cases h with
          | @cons _ c cursor units hpos hle hvalue hunits =>
              cases (Utf8.valueOf_ascii hb bytes).symm.trans hvalue
              obtain ⟨units', rfl, hdecodes⟩ := ih hunits (Nat.le_of_succ_le_succ hk) fun c hc =>
                hascii c (List.mem_cons_of_mem _ hc)
              exact ⟨units', by rw [Utf8.unitsOf_toUInt16]; rfl, hdecodes⟩

/-- The passes, the copy of the ASCII front and the two representations do not matter. -/
theorem makes_of_decodes (word : Nat) (h : Utf8.Decodes bytes units)
    (hzero : (0 : UInt8) ∉ bytes) (rest : List UInt8) :
    ∃ result, stringNew word (bytes ++ 0 :: rest) = some result ∧ Makes bytes units result := by
  rw [stringNew, cString_append_zero hzero]
  refine makes_allocateStringFromUtf8 word ?_ ?_
  · intro hall
    rw [← List.take_length (l := bytes)] at hall
    obtain ⟨units', rfl, hdecodes⟩ := h.drop_ascii (Nat.le_refl _) hall
    rw [List.drop_length] at hdecodes
    cases hdecodes with
    | nil => rw [List.take_length, List.append_nil]
    | cons hpos hle => exact absurd (Nat.lt_of_lt_of_le hpos hle) (Nat.lt_irrefl 0)
  · intro k hk hall
    obtain ⟨units', hunits, hdecodes⟩ := h.drop_ascii hk hall
    have hpos : 0 < Utf8Decoder.kBufferSize := by decide
    obtain ⟨d, k', hreset, hbuffered⟩ :=
      @Utf8Decoder.resetLoop_true _ _ hdecodes rest [] hpos _ (Nat.le_refl _)
    rw [List.length_nil] at hreset
    rw [List.drop_append_of_le_length hk, ← List.length_drop]
    exact ⟨d, units', hreset, Utf8Decoder.writeUtf16_of_buffered hbuffered, hbuffered.length,
      hunits⟩

/-! ## Every text of bytes -/

theorem Utf8.Decodes.eq {units' : List UInt16} (h : Utf8.Decodes bytes units)
    (h' : Utf8.Decodes bytes units') : units = units' := by
  induction h generalizing units' with
  | nil =>
      cases h' with
      | nil => rfl
      | cons hpos hle => exact absurd (Nat.lt_of_lt_of_le hpos hle) (Nat.lt_irrefl 0)
  | cons hpos hle hvalue _ ih =>
      cases h' with
      | nil => exact absurd (Nat.lt_of_lt_of_le hpos hle) (Nat.lt_irrefl 0)
      | cons _ _ hvalue' hunits' =>
          cases hvalue.symm.trans hvalue'
          rw [ih hunits']

/-- Whatever the bytes are, `String::New` reads them up to the terminator and no further, writes
as many characters as it has counted, and the string has the characters of one pass over the
bytes.  It is refused exactly if they are too many for a sequential string. -/
theorem stringNew_eq (word : Nat) (hzero : (0 : UInt8) ∉ bytes) (rest : List UInt8) :
    ∃ units, (∀ units', Utf8.Decodes bytes units' ↔ units' = units) ∧
      ∃ result, stringNew word (bytes ++ 0 :: rest) = some result ∧
        (result = none ↔ newStringLimit bytes < units.length) ∧
        ∀ s, result = some s → s.WellFormed ∧ s.units = units := by
  obtain ⟨units, hdecodes⟩ := Utf8.exists_decodes bytes
  obtain ⟨result, hresult, hmakes⟩ := makes_of_decodes word hdecodes hzero rest
  refine ⟨units, fun units' => ⟨fun h => h.eq hdecodes, ?_⟩, result, hresult, hmakes.refused,
    hmakes.made⟩
  rintro rfl
  exact hdecodes

/-- A pair is split by the end of the buffer, and a sequence by the end of the text. -/
theorem stringNew_eq_split :
    let bytes : List UInt8 := List.replicate 511 0xE2 ++ [0xF0, 0x9F, 0x98, 0x80, 0xE2, 0x82]
    ∃ s, stringNew 8 (bytes ++ 0 :: [0xAC]) = some (some s) ∧ s.WellFormed ∧
      Utf8.Decodes bytes s.units := by
  intro bytes
  obtain ⟨units, hdecodes, result, hresult, hrefused, hmade⟩ :=
    @stringNew_eq bytes 8 (by decide +kernel) [0xAC]
  have hunits := (hdecodes units).mpr rfl
  cases result with
  | none =>
      have hlong := Nat.lt_of_le_of_lt (newStringLimit_le bytes).1 (hrefused.mp rfl)
      exact absurd (Nat.lt_of_lt_of_le hlong hunits.length_le.1) (by decide +kernel)
  | some s =>
      obtain ⟨hwf, rfl⟩ := hmade s rfl
      exact ⟨s, hresult, hwf, hunits⟩

end

/-! ## Round trips -/

namespace Utf8

open Utf8Decoder (unitsOf)

theorem and_kMaxFourByteChar (n : Nat) : n &&& kMaxFourByteChar = n % 0x200000 :=
  Nat.and_two_pow_sub_one_eq_mod n 21

/-- A sequence of four bytes. -/
theorem valueOf_supplementary {c : Nat} (hlow : 0x10000 ≤ c) (hhigh : c < 0x110000)
    (rest : List UInt8) {length : Nat} (hlength : 4 ≤ length) :
    valueOf (codePointBytes c ++ rest) length = some (c, 4) := by
  have ha : (UInt8.ofNat (0xF0 + c / 262144)).toNat = 0xF0 + c / 262144 :=
    toNat_ofNat_of_lt (by omega)
  have hvalue : ((((0xF0 + c / 262144) * 64 + c / 4096 % 64) * 64 + c / 64 % 64) * 64 + c % 64) %
      0x200000 = c := by omega
  have hbytes : codePointBytes c = [.ofNat (0xF0 + c / 262144), .ofNat (0x80 + c / 4096 % 64),
      .ofNat (0x80 + c / 64 % 64), .ofNat (0x80 + c % 64)] := by
    rw [codePointBytes, if_neg (by omega), if_neg (by omega), if_neg (by omega)]
  rw [hbytes]
  simp only [valueOf, calculateValue, List.cons_append, List.nil_append,
    List.getElem?_cons_zero, List.getElem?_cons_succ, Option.bind_some, ha, continuation_ofNat,
    shiftLeft_or _ (Nat.mod_lt _ (by decide : 0 < 64)), and_kMaxFourByteChar, hvalue,
    kMaxOneByteChar, kMaxThreeByteChar]
  rw [if_neg (by omega), if_neg (by omega), if_neg (by omega), if_neg (by omega),
    if_neg (by omega), if_neg (by omega), if_neg (by omega), if_pos (by omega),
    if_neg (by omega)]

/-- A code point is read back, a lone surrogate too. -/
theorem valueOf_codePoint {c : Nat} (hc : c < 0x110000) (rest : List UInt8) :
    valueOf (codePointBytes c ++ rest) (codePointBytes c ++ rest).length =
      some (c, (codePointBytes c).length) := by
  have hlength : (codePointBytes c ++ rest).length = (codePointBytes c).length + rest.length :=
    List.length_append
  by_cases hlow : c < 0x10000
  · have htoNat : (UInt16.ofNat c).toNat = c := UInt16.toNat_ofNat_of_lt' hlow
    have hvalue := @valueOf_codePointBytes (UInt16.ofNat c) rest (codePointBytes c ++ rest).length
    rw [htoNat] at hvalue
    exact hvalue (by omega)
  · have hfour : (codePointBytes c).length = 4 := by
      rw [length_codePointBytes, if_neg (by omega), if_neg (by omega), if_neg hlow]
    rw [hfour]
    exact valueOf_supplementary (Nat.not_lt.mp hlow) hc rest (by omega)

theorem unitsOf_eq_codePointUnits {c : Nat} (hc : c < 0x110000) :
    unitsOf c = codePointUnits c := by
  unfold unitsOf codePointUnits
  by_cases hlow : c < 0x10000
  · have hle : ¬ c > Utf16.kMaxNonSurrogateCharCode := Nat.not_lt.mpr (Nat.le_of_lt_succ hlow)
    rw [if_neg hle, if_pos hlow]
  · have hgt : c > Utf16.kMaxNonSurrogateCharCode := Nat.lt_of_succ_le (Nat.not_lt.mp hlow)
    have hmask : ∀ n : Nat, n &&& 0x3FF = n % 1024 := fun n => Nat.and_two_pow_sub_one_eq_mod n 10
    have hlead : (c - 0x10000) / 1024 % 1024 = (c - 0x10000) / 1024 :=
      Nat.mod_eq_of_lt (by omega)
    rw [if_pos hgt, if_neg hlow, Utf16.leadSurrogate, Utf16.trailSurrogate, hmask, hmask,
      Nat.shiftRight_eq_div_pow, hlead]

/-- What is written is read back, and is no bad text. -/
theorem encodes_utf8 (units : List UInt16) : Encodes (utf8 units) units := by
  induction hn : units.length using Nat.strong_induction_on generalizing units with
  | _ n ih =>
      subst hn
      by_cases hne : units = []
      · subst hne
        exact .nil
      · obtain ⟨c, rest, hc, hunits, hbytes⟩ := exists_codePoint hne
        have hshort : rest.length < units.length := by
          rw [hunits, List.length_append]
          exact Nat.lt_add_of_pos_left (List.length_pos_of_ne_nil (codePointUnits_ne_nil c))
        have hrest := ih _ hshort rest rfl
        rw [hbytes, hunits, ← unitsOf_eq_codePointUnits hc]
        by_cases hascii : c < 0x80
        · have htoNat : (UInt8.ofNat c).toNat = c := toNat_ofNat_of_lt (by omega)
          have hone := unitsOf_toUInt16 (UInt8.ofNat c)
          rw [htoNat] at hone
          rw [codePointBytes, if_pos hascii, hone]
          exact .ascii (htoNat.symm ▸ Nat.le_of_lt_succ hascii) hrest
        · have hwide : 1 < (codePointBytes c).length := by
            rw [length_codePointBytes, if_neg hascii]
            split_ifs <;> decide
          have hle : (codePointBytes c).length ≤ (codePointBytes c ++ utf8 rest).length := by
            rw [List.length_append]
            exact Nat.le_add_right _ _
          refine .wide hwide hle (valueOf_codePoint hc _) ?_
          rwa [List.drop_left' rfl]

end Utf8

theorem takeWhile_of_zero {xs ys : List UInt16} (h : (0 : UInt16) ∉ xs) :
    (xs ++ 0 :: ys).takeWhile (· ≠ 0) = xs := by
  have hall : ∀ u ∈ xs, decide (u ≠ 0) = true := by
    intro u hu
    refine decide_eq_true ?_
    rintro rfl
    exact h hu
  rw [List.takeWhile_append_of_pos hall, List.takeWhile_cons_of_neg (by simp), List.append_nil]

/-- What `Utf8Value` writes, as a C string. -/
theorem exists_cString (units : List UInt16) (rest : List UInt8) :
    ∃ rest', utf8 units ++ 0 :: rest = utf8 (units.takeWhile (· ≠ 0)) ++ 0 :: rest' := by
  by_cases hzero : (0 : UInt16) ∈ units
  · obtain ⟨xs, ys, rfl, hxs⟩ := List.eq_append_cons_of_mem hzero
    have hunit : codePointBytes (0 : UInt16).toNat = [0] := rfl
    rw [takeWhile_of_zero hxs, utf8_append_cons_of_not_isTrail not_isTrail_zero,
      utf8_cons_of_not_isLead not_isLead_zero, hunit, List.append_assoc]
    exact ⟨_, rfl⟩
  · have hall : units.takeWhile (· ≠ 0) = units := by
      refine List.takeWhile_eq_self_iff.mpr fun u hu => decide_eq_true ?_
      rintro rfl
      exact hzero hu
    rw [hall]
    exact ⟨rest, rfl⟩

/-- `Utf8Value` dies exactly on a string that cannot be walked or flattened.  Its bytes make the
string again, up to the first U+0000: all of it exactly if there is none.  Lone surrogates come
back, too.  `String::New` refuses exactly what is too long for a sequential string. -/
theorem stringNew_utf8Value (word : Nat) (fill : Nat → UInt16) (garbage : Nat → UInt8) {str : Str}
    (hwf : str.WellFormed) (hlength : str.length ≤ Str.kMaxLength) :
    let text := str.units.takeWhile (· ≠ 0)
    (utf8Value fill garbage str = none ↔ ¬ str.Writable) ∧
      ∀ buffer, utf8Value fill garbage str = some buffer →
        ∃ result, stringNew word buffer = some result ∧
          (result = none ↔ newStringLimit (utf8 text) < text.length) ∧
          ∀ s, result = some s → s.WellFormed ∧ s.units = text ∧
            (s.units = str.units ↔ (0 : UInt16) ∉ str.units) := by
  intro text
  by_cases hwritable : str.Writable
  · obtain ⟨rest, hvalue⟩ := utf8Value_eq fill garbage hwf hlength hwritable
    obtain ⟨rest', hbytes⟩ := exists_cString str.units rest
    have hnone : (0 : UInt16) ∉ text := by
      intro hmem
      have hne := List.mem_takeWhile_imp hmem
      simp at hne
    obtain ⟨result, hresult, hmakes⟩ := makes_of_decodes word
      (Utf8.encodes_utf8 text).decodes (by rwa [zero_mem_utf8]) rest'
    rw [hvalue]
    refine ⟨iff_of_false (Option.some_ne_none _) (not_not.mpr hwritable), ?_⟩
    intro buffer hbuffer
    cases hbuffer
    rw [hbytes]
    refine ⟨result, hresult, hmakes.refused, fun s hs => ?_⟩
    obtain ⟨hwf', hunits⟩ := hmakes.made s hs
    refine ⟨hwf', hunits, ?_⟩
    rw [hunits, List.takeWhile_eq_self_iff]
    constructor
    · intro hall hmem
      exact absurd rfl (of_decide_eq_true (hall 0 hmem))
    · intro hzero u hu
      refine decide_eq_true ?_
      rintro rfl
      exact hzero hu
  · have hnone := utf8Value_eq_none fill garbage hwf hlength hwritable
    refine ⟨iff_of_true hnone hwritable, fun buffer hbuffer => ?_⟩
    cases hnone.symm.trans hbuffer

/-- A lone surrogate and a pair that a cons node splits. -/
theorem stringNew_utf8Value_cons :
    let str : Str := .cons false (.seq (.twoByte [0xDC00, 0x61, 0x62, 0x63, 0x64, 0x65, 0xD83D]))
      (.seq (.twoByte [0xDE00, 0x61, 0x62, 0x63, 0x64, 0x65, 0]))
    ∃ buffer s, utf8Value (fun _ => 0) (fun _ => 0xFF) str = some buffer ∧
      stringNew 8 buffer = some (some s) ∧ s.units = str.units.takeWhile (· ≠ 0) ∧
      s.units ≠ str.units := by
  intro str
  obtain ⟨hnone, hmade⟩ := @stringNew_utf8Value 8 (fun _ => 0) (fun _ => 0xFF) str
    ⟨trivial, trivial, by decide, by decide, .inl (by decide), nofun⟩ (by decide)
  cases hvalue : utf8Value (fun _ => 0) (fun _ => 0xFF) str with
  | none => exact absurd (by decide) (hnone.mp hvalue)
  | some buffer =>
      obtain ⟨result, hresult, hrefused, hs⟩ := hmade buffer hvalue
      cases result with
      | none => exact absurd (hrefused.mp rfl) (by decide)
      | some s =>
          obtain ⟨-, hunits, hwhole⟩ := hs s rfl
          exact ⟨buffer, s, rfl, hresult, hunits, mt hwhole.mp (by decide)⟩

/-! ## Hash fields -/

namespace StringHasher

/-- A string has the same hash field from its leaves, from its characters and from its UTF-8. -/
theorem hash_eq_of_units {string : Str} (hwf : string.WellFormed) (seed : UInt32) :
    iteratingHash string seed = some (hashSequentialString string.units seed) ∧
      computeUtf8Hash (utf8 string.units) seed =
        some (hashSequentialString string.units seed, string.length) := by
  refine ⟨iteratingHash_eq hwf seed, ?_⟩
  rw [computeUtf8Hash_eq (Utf8.encodes_utf8 string.units), Str.length_units hwf]

theorem hash_eq_of_units_leftDeep :
    iteratingHash (.leftDeep 40) 7 = some (hashSequentialString (Str.leftDeep 40).units 7) ∧
      computeUtf8Hash (utf8 (Str.leftDeep 40).units) 7 =
        some (hashSequentialString (Str.leftDeep 40).units 7, (Str.leftDeep 40).length) :=
  hash_eq_of_units (Str.wellFormed_leftDeep 40).1 7

end StringHasher

end WeexBridge.V8
