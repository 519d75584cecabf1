/-
# `AllocateConsString`

Concatenation picks a representation: an operand itself when the other is empty,
a string of the string table for two characters, a flat copy for fewer than
thirteen, and a cons node above that.  In every case the text is the text of the
first operand followed by that of the second, and the result keeps the invariant
of cons strings.  Past `String::kMaxLength` there is no result.
-/
import WeexBridge.V8.Flatten

namespace WeexBridge.V8

open Memory

/-- Two-character strings that are in the string table already. -/
structure StringTable where
  lookupTwoChars : UInt16 → UInt16 → Option Str
  wellFormed : ∀ {c₁ c₂ s}, lookupTwoChars c₁ c₂ = some s → s.WellFormed
  units : ∀ {c₁ c₂ s}, lookupTwoChars c₁ c₂ = some s → s.units = [c₁, c₂]

/-- The table that holds nothing. -/
def StringTable.empty : StringTable := ⟨fun _ _ => none, nofun, nofun⟩

namespace Str

/-- `IsOneByteRepresentation`: the encoding bit of the map. -/
def isOneByteRepresentation : Str → Bool
  | seq (.oneByte _) => true
  | seq (.twoByte _) => false
  | external _ (.oneByte _) => true
  | external _ (.twoByte _) => false
  | sliced (.oneByte _) _ _ => true
  | sliced (.twoByte _) _ _ => false
  | cons oneByte _ _ => oneByte

/-- `HasOnlyAsciiChars`: the data hint of the map. -/
def hasOnlyAsciiChars : Str → Bool
  | external asciiHint _ => asciiHint
  | _ => false

/-- `GetChars` of a sequential or external one-byte string. -/
def oneByteChars : Str → List UInt8
  | seq (.oneByte chars) => chars
  | external _ (.oneByte chars) => chars
  | _ => []

def between (character lower upper : UInt16) : Bool :=
  lower.toNat ≤ character.toNat && character.toNat ≤ upper.toNat

/-- `MakeOrFindTwoCharacterString`.  The table is not asked for two digits. -/
def makeOrFindTwoCharacterString (table : StringTable) (c₁ c₂ : UInt16) : Str :=
  let found :=
    if !between c₁ 48 57 || !between c₂ 48 57 then table.lookupTwoChars c₁ c₂ else none
  match found with
  | some result => result
  | none =>
      if (c₁ ||| c₂).toNat ≤ 0xFF then seq (.oneByte [c₁.toUInt8, c₂.toUInt8])
      else seq (.twoByte [c₁, c₂])

/-- `Heap::AllocateConsString`. -/
def allocateConsString (table : StringTable) (fill : Nat → UInt16) (first second : Str) :
    Option Str :=
  let length := first.length + second.length
  if first.length = 0 then some second
  else if second.length = 0 then some first
  else if length = 2 then some (makeOrFindTwoCharacterString table (first.get 0) (second.get 0))
  else
    let isOneByte := first.isOneByteRepresentation && second.isOneByteRepresentation
    if length > kMaxLength then none
    else
      let isAsciiDataInTwoByteString :=
        !isOneByte && (first.hasOnlyAsciiChars && second.hasOnlyAsciiChars)
      -- If the resulting string is small make a flat string.
      if length < kMinLength then
        if isOneByte then some (seq (.oneByte (first.oneByteChars ++ second.oneByteChars)))
        else if isAsciiDataInTwoByteString then
          (flattenInto UInt16.toUInt8 (allocate (fun i => (fill i).toUInt8) length) first
            second).map fun dest => seq (.oneByte dest)
        else (flattenInto id (allocate fill length) first second).map
          fun dest => seq (.twoByte dest)
      else some (cons (isOneByte || isAsciiDataInTwoByteString) first second)

/-! ## The text of the result -/

theorem toNat_lt_of_mem_map_toUInt16 {chars : List UInt8} {u : UInt16}
    (h : u ∈ chars.map UInt8.toUInt16) : u.toNat < 256 := by
  obtain ⟨c, -, rfl⟩ := List.mem_map.mp h
  rw [UInt8.toNat_toUInt16]
  exact c.toNat_lt

/-- Under the one-byte map all characters are one byte. -/
theorem lt_of_isOneByteRepresentation : ∀ {s : Str}, s.WellFormed →
    s.isOneByteRepresentation = true → ∀ u ∈ s.units, u.toNat < 256
  | seq (.oneByte _), _, _, _, hu => toNat_lt_of_mem_map_toUInt16 hu
  | seq (.twoByte _), _, h, _, _ => absurd h Bool.false_ne_true
  | external _ (.oneByte _), _, _, _, hu => toNat_lt_of_mem_map_toUInt16 hu
  | external _ (.twoByte _), _, h, _, _ => absurd h Bool.false_ne_true
  | sliced (.oneByte _) _ _, _, _, _, hu => toNat_lt_of_mem_map_toUInt16 hu
  | sliced (.twoByte _) _ _, _, h, _, _ => absurd h Bool.false_ne_true
  | cons _ _ _, hwf, h, u, hu => hwf.2.2.encoding h u hu

theorem lt_of_hasOnlyAsciiChars : ∀ {s : Str}, s.WellFormed → s.hasOnlyAsciiChars = true →
    ∀ u ∈ s.units, u.toNat < 256
  | external _ _, hwf, h, u, hu => Nat.lt_trans (hwf h u hu) (by decide)

/-- A one-byte string too short for a cons node or a slice. -/
theorem units_of_oneByteChars : ∀ {s : Str}, s.WellFormed → s.isOneByteRepresentation = true →
    s.length < kMinLength → s.units = s.oneByteChars.map UInt8.toUInt16
  | seq (.oneByte _), _, _, _ => rfl
  | seq (.twoByte _), _, h, _ => absurd h Bool.false_ne_true
  | external _ (.oneByte _), _, _, _ => rfl
  | external _ (.twoByte _), _, h, _ => absurd h Bool.false_ne_true
  | sliced _ _ _, hwf, _, hlt => absurd hwf.1 (Nat.not_le.mpr hlt)
  | cons _ _ _, hwf, _, hlt => absurd hwf.2.2.minLength (Nat.not_le.mpr hlt)

theorem units_singleton {s : Str} (h : s.WellFormed) (hlen : s.length = 1) :
    s.units = [s.get 0] := by
  have hl := (length_units h).trans hlen
  obtain ⟨u, hu⟩ := List.length_eq_one_iff.mp hl
  rw [get_eq h (by omega), hu]
  rfl

theorem makeOrFindTwoCharacterString_spec (table : StringTable) (c₁ c₂ : UInt16) :
    (makeOrFindTwoCharacterString table c₁ c₂).WellFormed ∧
      (makeOrFindTwoCharacterString table c₁ c₂).units = [c₁, c₂] := by
  simp only [makeOrFindTwoCharacterString]
  split
  · next result h =>
      split_ifs at h
      exact ⟨table.wellFormed h, table.units h⟩
  · split_ifs with hbyte
    · refine ⟨trivial, ?_⟩
      have h₁ : c₁.toNat ≤ (c₁ ||| c₂).toNat := by
        rw [UInt16.toNat_or]
        exact Nat.left_le_or
      have h₂ : c₂.toNat ≤ (c₁ ||| c₂).toNat := by
        rw [UInt16.toNat_or]
        exact Nat.right_le_or
      refine map_toUInt8_toUInt16 (fun u (hu : u ∈ [c₁, c₂]) => ?_)
      rcases List.mem_cons.mp hu with rfl | hu
      · omega
      · obtain rfl := List.mem_singleton.mp hu
        omega
    · exact ⟨trivial, rfl⟩

/-- The text of a concatenation, whatever representation it gets. -/
theorem allocateConsString_eq (table : StringTable) (fill : Nat → UInt16) {first second : Str}
    (hf : first.WellFormed) (hs : second.WellFormed)
    (hlen : first.length + second.length ≤ kMaxLength) :
    ∃ r, allocateConsString table fill first second = some r ∧ r.WellFormed ∧
      r.units = first.units ++ second.units := by
  have hlf := length_units hf
  have hls := length_units hs
  unfold allocateConsString
  by_cases h₁ : first.length = 0
  · refine ⟨second, if_pos h₁, hs, ?_⟩
    rw [List.length_eq_zero_iff.mp (hlf.trans h₁)]
    rfl
  by_cases h₂ : second.length = 0
  · refine ⟨first, by simp only [if_neg h₁, if_pos h₂], hf, ?_⟩
    rw [List.length_eq_zero_iff.mp (hls.trans h₂), List.append_nil]
  by_cases h₃ : first.length + second.length = 2
  · simp only [if_neg h₁, if_neg h₂, if_pos h₃]
    refine ⟨_, rfl, ?_⟩
    rw [units_singleton hf (by omega), units_singleton hs (by omega)]
    exact makeOrFindTwoCharacterString_spec table _ _
  simp only [if_neg h₁, if_neg h₂, if_neg h₃, if_neg (Nat.not_lt.mpr hlen)]
  -- one-byte characters on both sides, by the maps or by the hints
  have hbytes : ∀ {p : Str → Bool},
      (∀ {s : Str}, s.WellFormed → p s = true → ∀ u ∈ s.units, u.toNat < 256) →
      p first = true → p second = true → ∀ u ∈ first.units ++ second.units, u.toNat < 256 := by
    intro p hp hpf hps u hu
    rcases List.mem_append.mp hu with hu | hu
    · exact hp hf hpf u hu
    · exact hp hs hps u hu
  by_cases hmin : first.length + second.length < kMinLength
  · simp only [if_pos hmin]
    cases hone : first.isOneByteRepresentation && second.isOneByteRepresentation with
    | true =>
        rw [Bool.and_eq_true] at hone
        refine ⟨_, rfl, trivial, ?_⟩
        rw [units_of_oneByteChars hf hone.1 (by omega), units_of_oneByteChars hs hone.2 (by omega),
          ← List.map_append]
        rfl
    | false =>
        cases hascii : first.hasOnlyAsciiChars && second.hasOnlyAsciiChars with
        | true =>
            rw [Bool.and_eq_true] at hascii
            refine ⟨seq (.oneByte ((first.units ++ second.units).map UInt16.toUInt8)), ?_, trivial,
              map_toUInt8_toUInt16 (hbytes lt_of_hasOnlyAsciiChars hascii.1 hascii.2)⟩
            simp only [Bool.not_false, Bool.true_and, Bool.false_eq_true, if_false, if_true]
            rw [flattenInto_eq _ hf hs (length_allocate _ _)]
            rfl
        | false =>
            refine ⟨seq (.twoByte (first.units ++ second.units)), ?_, trivial, rfl⟩
            simp only [Bool.and_false, Bool.false_eq_true, if_false]
            rw [flattenInto_eq _ hf hs (length_allocate _ _), List.map_id]
            rfl
  · simp only [if_neg hmin]
    refine ⟨_, rfl, ⟨hf, hs, ⟨by omega, by omega, Or.inl (by omega), fun hbit => ?_⟩⟩, rfl⟩
    cases hone : first.isOneByteRepresentation && second.isOneByteRepresentation with
    | true =>
        rw [Bool.and_eq_true] at hone
        exact hbytes lt_of_isOneByteRepresentation hone.1 hone.2
    | false =>
        rw [hone, Bool.not_false, Bool.true_and, Bool.false_or, Bool.and_eq_true] at hbit
        exact hbytes lt_of_hasOnlyAsciiChars hbit.1 hbit.2

/-- A concatenation that would be too long has no result. -/
theorem allocateConsString_eq_none (table : StringTable) (fill : Nat → UInt16)
    {first second : Str} (hf : 0 < first.length) (hs : 0 < second.length)
    (hlen : kMaxLength < first.length + second.length) :
    allocateConsString table fill first second = none := by
  have h₁ : ¬ first.length = 0 := by omega
  have h₂ : ¬ second.length = 0 := by omega
  have h₃ : ¬ first.length + second.length = 2 := by
    intro h
    rw [h] at hlen
    exact absurd hlen (by decide)
  simp only [allocateConsString, if_neg h₁, if_neg h₂, if_neg h₃, if_pos hlen]

/-- Every result is well formed and has the text of its operands. -/
theorem allocateConsString_some {table : StringTable} {fill : Nat → UInt16} {first second r : Str}
    (hf : first.WellFormed) (hs : second.WellFormed)
    (h : allocateConsString table fill first second = some r) :
    r.WellFormed ∧ r.units = first.units ++ second.units := by
  by_cases hlen : first.length + second.length ≤ kMaxLength
  · obtain ⟨r', hr', hspec⟩ := allocateConsString_eq table fill hf hs hlen
    obtain rfl := Option.some.inj (h.symm.trans hr')
    exact hspec
  · rcases Nat.eq_zero_or_pos first.length with h₁ | h₁
    · rw [allocateConsString, if_pos h₁] at h
      obtain rfl := Option.some.inj h
      refine ⟨hs, ?_⟩
      rw [List.length_eq_zero_iff.mp ((length_units hf).trans h₁)]
      rfl
    · rcases Nat.eq_zero_or_pos second.length with h₂ | h₂
      · rw [allocateConsString, if_neg (Nat.pos_iff_ne_zero.mp h₁), if_pos h₂] at h
        obtain rfl := Option.some.inj h
        refine ⟨hf, ?_⟩
        rw [List.length_eq_zero_iff.mp ((length_units hs).trans h₂), List.append_nil]
      · rw [allocateConsString_eq_none table fill h₁ h₂ (Nat.not_le.mp hlen)] at h
        cases h

/-- It is no longer than a string may be. -/
theorem length_allocateConsString_le {table : StringTable} {fill : Nat → UInt16}
    {first second r : Str} (hf : first.WellFormed) (hs : second.WellFormed)
    (hfirst : first.length ≤ kMaxLength) (hsecond : second.length ≤ kMaxLength)
    (h : allocateConsString table fill first second = some r) : r.length ≤ kMaxLength := by
  obtain ⟨hr, hunits⟩ := allocateConsString_some hf hs h
  have hlength : r.length = first.length + second.length := by
    rw [← length_units hr, hunits, List.length_append, length_units hf, length_units hs]
  by_contra hlong
  rw [hlength, Nat.not_le] at hlong
  rw [allocateConsString_eq_none table fill (by omega) (by omega) hlong] at h
  cases h

end Str

end WeexBridge.V8
